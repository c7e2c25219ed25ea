import ArkWire.Transport.FrameReader

/-! # The frame reader implements the frame grammar

Whatever the chunks, errors, deadlines and ends of input: what the reader returns are the frames of
the bytes delivered to it. `ahead` is what a reader will still return of the bytes it holds and of
those to come; a turn of a call that returns nothing keeps it, and a result takes its head. -/

namespace ArkWire.Transport.Grammar

open ArkWire.Lib.Delimited
open ArkWire.Transport.Errors ArkWire.Transport.FrameReader

variable {max : ℕ} {r r' : Reader}

/-! ### Slices of the buffer -/

/-- The zero `memchr` finds in a slice cuts it. -/
theorem memchr_slice {l : Bytes} {a b i : ℕ} (hb : b ≤ l.length)
    (h : memchr (slice l a b) = some i) :
    a + i < b ∧ 0 ∉ slice l a (a + i) ∧
      slice l a b = slice l a (a + i) ++ 0 :: slice l (a + i + 1) b := by
  obtain ⟨q, hq, hlen, hz⟩ := memchr_eq_some h
  have hl : (slice l a b).length = b - a := length_slice hb
  have hi : i + 1 ≤ b - a := by
    have := congrArg List.length hq
    rw [List.length_append, List.length_cons, hlen, hl] at this
    omega
  have hcut := slice_append (show a ≤ a + i by omega) (show a + i ≤ b by omega) hb
  have hone := slice_append (show a + i ≤ a + i + 1 by omega) (show a + i + 1 ≤ b by omega) hb
  have h1 : (slice l a (a + i)).length = i := by rw [length_slice (by omega)]; omega
  have h2 : (slice l (a + i) (a + i + 1)).length = 1 := by rw [length_slice (by omega)]; omega
  rw [hcut] at hq
  obtain ⟨hp, hq'⟩ := List.append_inj hq (by rw [h1, ← hcut, hlen])
  rw [hone] at hq'
  obtain ⟨z, hzl⟩ := List.length_eq_one_iff.mp h2
  rw [hzl, List.singleton_append, List.cons.injEq] at hq'
  refine ⟨by omega, ?_, ?_⟩
  · rw [hp, ← hcut]; exact hz
  · rw [hcut, hone, hzl, hq'.1]; rfl

/-- Writing behind a slice does not change it. -/
theorem slice_write {l x : Bytes} {a b n : ℕ} (hb : b ≤ n) (hn : n ≤ l.length) :
    slice (l.take n ++ x) a b = slice l a b := by
  have hl : b ≤ (l.take n).length := by rw [List.length_take]; omega
  rw [slice, slice, List.take_append_of_le_length hl, List.take_take, min_eq_left hb]

/-! ### The invariant -/

/-- The bytes received and not consumed. -/
def pending (r : Reader) : Bytes := slice r.buffer r.offset r.filled

/-- **What the reader will still return**, of the bytes it holds and of those to come. -/
def ahead (max : ℕ) (r : Reader) (more : Bytes) : List (Frame UInt8) :=
  if r.discard then frames 0 max (afterDelim 0 (pending r ++ more))
  else frames 0 max (pending r ++ more)

/-- The indices are in order, the searched region has no delimiter, and no empty buffer was ever
offered. -/
structure Good (max : ℕ) (r : Reader) : Prop where
  length : r.buffer.length = max + 1
  offset_le : r.offset ≤ r.search
  search_le : r.search ≤ r.filled
  filled_le : r.filled ≤ max + 1
  searched : 0 ∉ slice r.buffer r.offset r.search
  offers : ∀ n ∈ r.offers, 0 < n

/-- When the adapter is asked, there is room in the buffer and no delimiter in it. -/
def Asking (max : ℕ) (phase : Phase) (r : Reader) : Prop :=
  phase = .read → r.filled ≤ max ∧ 0 ∉ pending r

theorem asking_search (max : ℕ) (r : Reader) : Asking max .search r := fun h => by cases h

/-- The frame a result of `next_frame` reports, if any. The end of the input is only returned when
nothing received is left to return. -/
inductive Emits (max : ℕ) (r : Reader) : Except TransportError (ℕ × ℕ) → List (Frame UInt8) → Prop
  | frame {start stop : ℕ} : start ≤ stop → stop ≤ r.buffer.length →
      Emits max r (.ok (start, stop)) [.piece (slice r.buffer start stop)]
  | tooLarge : Emits max r (.error (.frameTooLarge (max + 1))) [.overflow]
  | failed (error : IoError) : Emits max r (.error (.recvFailed error)) []
  | ended : ahead max r [] = [] → Emits max r (.error .terminated) []

/-- Bytes are received and `out` is returned: nothing else changes what is ahead. -/
def Kept (max : ℕ) (r r' : Reader) (out : List (Frame UInt8)) : Prop :=
  ∃ got, r.supply = got ++ r'.supply ∧ ∀ more, ahead max r (got ++ more) = out ++ ahead max r' more

/-- **What one turn does**: it keeps what is ahead, up to the frame it returns. -/
def TurnOk (max : ℕ) (r : Reader) : Next → Prop
  | .more phase r' => Good max r' ∧ Asking max phase r' ∧ Kept max r r' []
  | .done result r' => Good max r' ∧ ∃ out, Emits max r' result out ∧ Kept max r r' out

theorem Kept.refl (max : ℕ) (r : Reader) : Kept max r r [] := ⟨[], rfl, fun _ => rfl⟩

theorem Kept.trans {out : List (Frame UInt8)} {r'' : Reader} (h : Kept max r r' [])
    (h' : Kept max r' r'' out) : Kept max r r'' out := by
  obtain ⟨got, hs, ha⟩ := h
  obtain ⟨got', hs', ha'⟩ := h'
  refine ⟨got ++ got', by rw [hs, hs', List.append_assoc], fun more => ?_⟩
  rw [List.append_assoc, ha, ha', List.nil_append]

theorem ahead_congr {a b : Bytes} (hd : r.discard = r'.discard)
    (hp : pending r ++ a = pending r' ++ b) : ahead max r a = ahead max r' b := by
  unfold ahead
  rw [hd, hp]

theorem good_new (max : ℕ) (supply : Bytes) : Good max (.new max supply) := by
  constructor <;> simp [Reader.new]

namespace Good

theorem filled_le_length (h : Good max r) : r.filled ≤ r.buffer.length := by
  have := h.length
  have := h.filled_le
  omega

theorem pending_eq (h : Good max r) :
    pending r = slice r.buffer r.offset r.search ++ slice r.buffer r.search r.filled :=
  slice_append h.offset_le h.search_le h.filled_le_length

theorem length_pending (h : Good max r) : (pending r).length = r.filled - r.offset :=
  length_slice h.filled_le_length

end Good

theorem afterDelim_append_of_notMem {p : Bytes} (h : 0 ∉ p) (xs : Bytes) :
    afterDelim 0 (p ++ xs) = afterDelim 0 xs := by
  induction p with
  | nil => rfl
  | cons a p ih =>
    rw [List.mem_cons, not_or] at h
    rw [List.cons_append, afterDelim, if_neg (Ne.symm h.1), ih h.2]

/-! ### The turns of `next_frame` -/

/-- A delimiter is found. -/
theorem turnOk_found (h : Good max r) {found : ℕ}
    (hf : memchr (slice r.buffer r.search r.filled) = some found) :
    TurnOk max r (if r.discard then
        .more .search { r with
          offset := r.search + found + 1, search := r.search + found + 1, discard := false }
      else .done (.ok (r.offset, r.search + found))
        { r with offset := r.search + found + 1, search := r.search + found + 1 }) := by
  have hlen := h.filled_le_length
  obtain ⟨hlt, hz, hcut⟩ := memchr_slice hlen hf
  set stop := r.search + found with hstop
  have hframe : slice r.buffer r.offset stop =
      slice r.buffer r.offset r.search ++ slice r.buffer r.search stop :=
    slice_append h.offset_le (by omega) (by omega)
  have hfz : 0 ∉ slice r.buffer r.offset stop := by
    rw [hframe, List.mem_append, not_or]
    exact ⟨h.searched, hz⟩
  have hpend : pending r = slice r.buffer r.offset stop ++
      0 :: slice r.buffer (stop + 1) r.filled := by
    rw [h.pending_eq, hcut, hframe, List.append_assoc]
  have hgood : ∀ discard, Good max
      { r with offset := stop + 1, search := stop + 1, discard := discard } := by
    intro discard
    exact ⟨h.length, le_rfl, hlt, h.filled_le, by simp, h.offers⟩
  cases hd : r.discard with
  | true =>
    refine ⟨hgood false, fun hp => (by cases hp), [], rfl, fun more => ?_⟩
    simp only [ahead, hd, if_true, hpend, List.nil_append, List.append_assoc, List.cons_append,
      afterDelim_append_delim hfz]
    rfl
  | false =>
    have hstart : r.offset ≤ stop := by
      have := h.offset_le
      omega
    have hend : stop ≤ r.buffer.length := by omega
    refine ⟨hgood false, _, .frame hstart hend, [], rfl, fun more => ?_⟩
    have hle : (slice r.buffer r.offset stop).length ≤ max := by
      have := h.filled_le
      rw [length_slice (by omega)]
      omega
    simp only [ahead, hd, hpend, List.append_assoc, List.cons_append, frames_append_delim hfz,
      classify, if_pos hle]
    rfl

/-- No delimiter is found: there is none in the bytes received. -/
theorem pending_notMem (h : Good max r)
    (hf : memchr (slice r.buffer r.search r.filled) = none) : 0 ∉ pending r := by
  rw [h.pending_eq, List.mem_append, not_or]
  exact ⟨h.searched, memchr_eq_none hf⟩

/-- The partial frame moved to the start of the buffer. -/
theorem compact_spec (h : Good max r) (hz : 0 ∉ pending r) :
    Good max r.compact ∧ pending r.compact = pending r ∧ r.compact.filled = (pending r).length := by
  have hlen := h.filled_le_length
  have hp : (slice r.buffer r.offset r.filled).length = r.filled - r.offset := length_slice hlen
  have hpend : slice r.compact.buffer 0 (r.filled - r.offset) = pending r := by
    simp only [Reader.compact, slice, List.drop_zero]
    rw [List.take_append_of_le_length (by rw [← slice, hp]), List.take_of_length_le]
    · rfl
    · rw [← slice, hp]
  refine ⟨⟨?_, Nat.zero_le _, le_rfl, ?_, ?_, h.offers⟩, hpend, ?_⟩
  · simp only [Reader.compact, List.length_append, hp, List.length_drop]
    have := h.length
    omega
  · simp only [Reader.compact]
    have := h.filled_le
    omega
  · show 0 ∉ slice r.compact.buffer 0 (r.filled - r.offset)
    rw [hpend]
    exact hz
  · rw [h.length_pending]
    rfl

/-- The buffer after a search without success, before more is read. -/
def afterSearch (r : Reader) : Reader :=
  let r := { r with search := r.filled }
  if r.discard = false then if 0 < r.offset then r.compact else r
  else { r with filled := 0, offset := 0, search := 0 }

theorem afterSearch_spec (h : Good max r) (hz : 0 ∉ pending r) :
    Good max (afterSearch r) ∧ (afterSearch r).discard = r.discard ∧
      (afterSearch r).supply = r.supply ∧ (afterSearch r).filled =
        (pending (afterSearch r)).length ∧
      0 ∉ pending (afterSearch r) ∧
      (r.discard = false → pending (afterSearch r) = pending r) ∧
      (r.discard = true → pending (afterSearch r) = []) := by
  have hs : Good max { r with search := r.filled } :=
    ⟨h.length, h.offset_le.trans h.search_le, le_rfl, h.filled_le, hz, h.offers⟩
  unfold afterSearch
  dsimp only
  by_cases hd : r.discard = false
  · rw [if_pos hd]
    have hnot : ¬ r.discard = true := by rw [hd]; exact Bool.false_ne_true
    by_cases ho : 0 < r.offset
    · rw [if_pos ho]
      obtain ⟨hg, hp, hf⟩ := compact_spec hs hz
      refine ⟨hg, rfl, rfl, ?_, ?_, fun _ => hp, fun hc => absurd hc hnot⟩
      · rw [hp]; exact hf
      · rw [hp]; exact hz
    · rw [if_neg ho]
      refine ⟨hs, rfl, rfl, ?_, hz, fun _ => rfl, fun hc => absurd hc hnot⟩
      have hl := h.length_pending
      show r.filled = (pending r).length
      omega
  · rw [if_neg hd]
    refine ⟨⟨h.length, le_rfl, le_rfl, Nat.zero_le _, by simp, h.offers⟩, rfl, rfl, ?_, ?_,
      fun hc => absurd hc hd, fun _ => ?_⟩
    all_goals simp [pending]

/-- A search without success reports a full buffer, or has more read. -/
theorem searchTurn_notFound {deadline : Option ℕ} {t : Turn}
    (he : ¬ expired deadline t.now = true)
    (hf : memchr (slice r.buffer r.search r.filled) = none) :
    r.searchTurn max deadline t = if (afterSearch r).filled = max + 1 then
        .done (.error (.frameTooLarge (max + 1)))
          { afterSearch r with discard := true, filled := 0, offset := 0, search := 0 }
      else .more .read (afterSearch r) := by
  unfold Reader.searchTurn
  rw [if_neg he, hf]
  rfl

theorem turnOk_searchTurn (h : Good max r) (deadline : Option ℕ) (t : Turn) :
    TurnOk max r (r.searchTurn max deadline t) := by
  by_cases he : expired deadline t.now = true
  · rw [Reader.searchTurn, if_pos he]
    exact ⟨h, [], .failed _, .refl max r⟩
  cases hf : memchr (slice r.buffer r.search r.filled) with
  | some found =>
    rw [Reader.searchTurn, if_neg he, hf]
    exact turnOk_found h hf
  | none =>
    have hz := pending_notMem h hf
    obtain ⟨hg, hd, hsup, hfill, hz', hkeep, hdrop⟩ := afterSearch_spec h hz
    rw [searchTurn_notFound he hf]
    split_ifs with hfull
    · -- a full buffer without a delimiter proves the overflow
      have hdis : r.discard = false := by
        cases hb : r.discard with
        | false => rfl
        | true => rw [hfill, hdrop hb] at hfull; simp at hfull
      have hlong : max < (rest 0 (pending r)).length := by
        rw [rest_of_notMem hz, ← hkeep hdis, ← hfill, hfull]
        omega
      have hover : frames 0 max (pending r) = [.overflow] := by
        rw [frames_of_notMem hz, overflowing, if_neg]
        rw [rest_of_notMem hz] at hlong
        omega
      refine ⟨⟨hg.length, le_rfl, le_rfl, Nat.zero_le _, by simp, hg.offers⟩, _, .tooLarge, [],
        hsup.symm, fun more => ?_⟩
      simp only [ahead, hdis, Bool.false_eq_true, if_false, if_true, pending, slice_self,
        List.nil_append]
      rw [← pending, frames_append_overflow hlong, hover]
    · refine ⟨hg, fun _ => ⟨?_, hz'⟩, [], hsup.symm, fun more => ?_⟩
      · have := hg.filled_le
        omega
      · rw [List.nil_append]
        cases hb : r.discard with
        | false => simp only [ahead, hd, hb, hkeep hb, List.nil_append]
        | true =>
          simp only [ahead, hd, hb, if_true, hdrop hb, List.nil_append,
            afterDelim_append_of_notMem hz]

/-! ### The turns of `ReadHalf::read` -/

/-- While the adapter is asked, everything received has been returned. -/
theorem ahead_nil (h : Good max r) (ha : r.filled ≤ max ∧ 0 ∉ pending r) : ahead max r [] = [] := by
  have hshort : (pending r).length ≤ max := by
    have hlen := h.length_pending
    omega
  unfold ahead
  rw [List.append_nil, afterDelim_of_notMem ha.2, frames_nil, frames_of_notMem ha.2, overflowing,
    if_pos hshort, ite_self]

/-- More bytes are received. -/
theorem turnOk_received (h : Good max r) (ha : r.filled ≤ max ∧ 0 ∉ pending r) {n : ℕ}
    (hn : n ≤ r.buffer.length - r.filled) (hs : n ≤ r.supply.length) (offers : List ℕ)
    (ho : ∀ n ∈ offers, 0 < n) :
    TurnOk max r (.more .search { r with
      buffer := r.buffer.take r.filled ++ r.supply.take n ++ r.buffer.drop (r.filled + n)
      filled := r.filled + n
      supply := r.supply.drop n
      offers := offers }) := by
  have hlen := h.filled_le_length
  have htake : (r.supply.take n).length = n := by rw [List.length_take]; omega
  have hfl : (r.buffer.take r.filled).length = r.filled := by rw [List.length_take]; omega
  refine ⟨⟨?_, h.offset_le, ?_, ?_, ?_, ho⟩, fun hp => (by cases hp), r.supply.take n, ?_, ?_⟩
  · simp only [List.length_append, htake, hfl, List.length_drop]
    have := h.length
    omega
  · have := h.search_le
    show r.search ≤ r.filled + n
    omega
  · have := h.length
    show r.filled + n ≤ max + 1
    omega
  · show 0 ∉ slice (r.buffer.take r.filled ++ r.supply.take n ++ r.buffer.drop (r.filled + n))
      r.offset r.search
    rw [List.append_assoc, slice_write h.search_le hlen]
    exact h.searched
  · rw [List.take_append_drop]
  · intro more
    have hpend : slice (r.buffer.take r.filled ++ r.supply.take n ++ r.buffer.drop (r.filled + n))
        r.offset (r.filled + n) = pending r ++ r.supply.take n := by
      have hle := h.offset_le.trans h.search_le
      rw [slice, List.take_append_of_le_length (by rw [List.length_append, hfl, htake]),
        List.take_of_length_le (by rw [List.length_append, hfl, htake]),
        List.drop_append_of_le_length (by omega)]
      rfl
    refine ahead_congr rfl ?_
    rw [← List.append_assoc, ← hpend]
    rfl

theorem turnOk_readTurn (h : Good max r) (ha : r.filled ≤ max ∧ 0 ∉ pending r)
    (deadline : Option ℕ) (t : Turn) : TurnOk max r (r.readTurn deadline t) := by
  have hnil := ahead_nil h ha
  have hoff : ∀ n ∈ r.offers ++ [r.buffer.length - r.filled], 0 < n := by
    intro n hn
    rcases List.mem_append.mp hn with hn | hn
    · exact h.offers n hn
    · have := h.length
      rw [List.mem_singleton.mp hn]
      omega
  have hgood : Good max { r with offers := r.offers ++ [r.buffer.length - r.filled] } :=
    { h with offers := hoff }
  unfold Reader.readTurn
  split_ifs with he hadm
  · exact ⟨h, [], .failed _, .refl max r⟩
  · exact ⟨h, [], .ended hnil, .refl max r⟩
  cases t.setter with
  | error error => exact ⟨h, [], .failed error, .refl max r⟩
  | ok =>
    dsimp only
    cases t.read with
    | error error =>
      dsimp only
      split_ifs
      · exact ⟨hgood, fun _ => ha, [], rfl, fun more => rfl⟩
      · exact ⟨hgood, [], .failed error, [], rfl, fun more => rfl⟩
    | ok n =>
      dsimp only
      split_ifs with hempty
      · exact ⟨hgood, [], .ended hnil, [], rfl, fun more => rfl⟩
      · set m := (r.supply.take (min n (r.buffer.length - r.filled))).length with hm
        have hle : m ≤ r.buffer.length - r.filled ∧ m ≤ r.supply.length := by
          rw [hm, List.length_take]
          omega
        have htk : r.supply.take (min n (r.buffer.length - r.filled)) = r.supply.take m := by
          rw [hm, List.length_take]
          exact List.take_eq_take_min
        rw [htk]
        exact turnOk_received h ha hle.1 hle.2 _ hoff

/-! ### Calls -/

theorem turnOk (h : Good max r) {phase : Phase} (ha : Asking max phase r) (deadline : Option ℕ)
    (t : Turn) : TurnOk max r (r.turn max deadline t phase) := by
  cases phase with
  | search => exact turnOk_searchTurn h deadline t
  | read => exact turnOk_readTurn h (ha rfl) deadline t

/-- A call that has returned reports one frame or none; one that has not reports none. -/
theorem nextFrame_spec (deadline : Option ℕ) :
    ∀ (ts : List Turn) {phase : Phase} {r : Reader}, Good max r → Asking max phase r →
      Good max (r.nextFrame max deadline ts phase).1 ∧
        ((r.nextFrame max deadline ts phase).2 = none ∧
            Kept max r (r.nextFrame max deadline ts phase).1 [] ∨
          ∃ result out, (r.nextFrame max deadline ts phase).2 = some result ∧
            Emits max (r.nextFrame max deadline ts phase).1 result out ∧
            Kept max r (r.nextFrame max deadline ts phase).1 out)
  | [], _, r, h, _ => ⟨h, .inl ⟨rfl, .refl max r⟩⟩
  | t :: ts, phase, r, h, ha => by
    have hturn := turnOk h ha deadline t
    rw [Reader.nextFrame]
    generalize r.turn max deadline t phase = next at hturn ⊢
    cases next with
    | done result r' =>
      obtain ⟨hg, out, he, hk⟩ := hturn
      exact ⟨hg, .inr ⟨result, out, rfl, he, hk⟩⟩
    | more phase' r' =>
      obtain ⟨hg, ha', hk⟩ := hturn
      obtain ⟨hg', ⟨hn, hk'⟩ | ⟨result, out, hr, he, hk'⟩⟩ := nextFrame_spec deadline ts hg ha'
      · exact ⟨hg', .inl ⟨hn, hk.trans hk'⟩⟩
      · exact ⟨hg', .inr ⟨result, out, hr, he, hk.trans hk'⟩⟩

section Packets

variable (max) (decode : Bytes → Except String Bytes)

/-- **The grammar**: what `next_packet` returns for a frame. -/
def report : Frame UInt8 → Except TransportError (Option Bytes)
  | .piece [] => .ok none
  | .piece p =>
    match decode p with
    | .ok packet => .ok (some packet)
    | .error reason => .error (.frameDecodingFailed reason)
  | .overflow => .error (.frameTooLarge (max + 1))

end Packets

/-- The failures of the input: `RecvFailed` and `Terminated`. -/
def isIoError : Except TransportError (Option Bytes) → Bool
  | .error (.recvFailed _) => true
  | .error .terminated => true
  | _ => false

/-- The results that report frames. -/
def nonIo (results : List (Except TransportError (Option Bytes))) :
    List (Except TransportError (Option Bytes)) :=
  results.filter (!isIoError ·)

variable (decode : Bytes → Except String Bytes)

/-- What is returned for the frame that was taken. -/
theorem packet_spec {result : Except TransportError (ℕ × ℕ)} {out : List (Frame UInt8)}
    (h : Emits max r result out) :
    nonIo [r.packet decode result] = out.map (report max decode) ∧
      (r.packet decode result = .error .terminated → ahead max r [] = []) := by
  cases h with
  | tooLarge => exact ⟨rfl, fun ht => (by cases ht)⟩
  | failed error => exact ⟨rfl, fun ht => (by cases ht)⟩
  | ended hnil => exact ⟨rfl, fun _ => hnil⟩
  | frame hle hlen =>
    rename_i start stop
    have hl : (slice r.buffer start stop).length = stop - start := length_slice hlen
    rw [Reader.packet]
    split_ifs with heq
    · refine ⟨?_, fun ht => (by cases ht)⟩
      rw [heq, slice_self]
      rfl
    · obtain ⟨b, bs, hcons⟩ : ∃ b bs, slice r.buffer start stop = b :: bs := by
        refine List.exists_cons_of_length_pos ?_
        omega
      rw [hcons]
      cases hd : decode (b :: bs) with
      | ok packet => exact ⟨by simp [nonIo, isIoError, report, hd], fun ht => (by cases ht)⟩
      | error reason => exact ⟨by simp [nonIo, isIoError, report, hd], fun ht => (by cases ht)⟩

/-- What a call of `next_packet` returns, of the frame it took. -/
theorem nextPacket_spec (h : Good max r) (deadline : Option ℕ) (ts : List Turn) :
    Good max (r.nextPacket max decode deadline ts).1 ∧
      ((r.nextPacket max decode deadline ts).2 = none ∧
          Kept max r (r.nextPacket max decode deadline ts).1 [] ∨
        ∃ result out, (r.nextPacket max decode deadline ts).2 = some result ∧
          nonIo [result] = out.map (report max decode) ∧
          (result = .error .terminated → ahead max (r.nextPacket max decode deadline ts).1 [] =
            []) ∧
          Kept max r (r.nextPacket max decode deadline ts).1 out) := by
  obtain ⟨hg, hres⟩ := nextFrame_spec deadline ts h (fun hp => (by cases hp) : Asking max .search r)
  rw [Reader.nextPacket]
  generalize r.nextFrame max deadline ts .search = res at hg hres ⊢
  obtain ⟨r', result⟩ := res
  rcases hres with ⟨rfl, hk⟩ | ⟨result, out, rfl, he, hk⟩
  · exact ⟨hg, .inl ⟨rfl, hk⟩⟩
  · obtain ⟨hout, hend⟩ := packet_spec decode he
    exact ⟨hg, .inr ⟨_, out, rfl, hout, hend, hk⟩⟩

/-! ### Progress -/

theorem ahead_eq_of_kept {out : List (Frame UInt8)} (hk : Kept max r r' out)
    (hs : r'.supply = r.supply) (more : Bytes) : ahead max r more = out ++ ahead max r' more := by
  obtain ⟨got, hg, ha⟩ := hk
  rw [hs, List.self_eq_append_left] at hg
  rw [← ha, hg, List.nil_append]

/-- While something received is left to return, a search without a deadline does not ask the
adapter: it finds a frame, or the end of the one being discarded. -/
theorem searchTurn_of_ahead (h : Good max r) (hne : ahead max r [] ≠ []) (t : Turn) :
    (∃ result r', r.searchTurn max none t = .done result r' ∧ r'.supply = r.supply ∧
        (result = .error (.frameTooLarge (max + 1)) ∨ ∃ frame, result = .ok frame)) ∨
      r.discard = true ∧ ∃ r', r.searchTurn max none t = .more .search r' ∧
        r'.discard = false ∧ r'.supply = r.supply := by
  have hok := turnOk_searchTurn h none t
  have hexp : ¬ expired none t.now = true := Bool.false_ne_true
  cases hf : memchr (slice r.buffer r.search r.filled) with
  | some found =>
    rw [Reader.searchTurn, if_neg hexp, hf]
    dsimp only
    by_cases hd : r.discard = true
    · rw [if_pos hd]
      exact .inr ⟨hd, _, rfl, rfl, rfl⟩
    · rw [if_neg hd]
      exact .inl ⟨_, _, rfl, rfl, .inr ⟨_, rfl⟩⟩
  | none =>
    obtain ⟨-, -, hsup, -⟩ := afterSearch_spec h (pending_notMem h hf)
    rw [searchTurn_notFound hexp hf] at hok ⊢
    by_cases hfull : (afterSearch r).filled = max + 1
    · rw [if_pos hfull]
      exact .inl ⟨_, _, rfl, hsup, .inl rfl⟩
    · rw [if_neg hfull] at hok
      obtain ⟨hg, hask, hk⟩ := hok
      have hnil := ahead_nil hg (hask rfl)
      rw [ahead_eq_of_kept hk hsup, List.nil_append] at hne
      exact absurd hnil hne

/-- Without a deadline, two turns are enough to return a frame that was received. -/
theorem nextFrame_of_ahead (h : Good max r) (hne : ahead max r [] ≠ []) {ts : List Turn}
    (hts : 2 ≤ ts.length) :
    (r.nextFrame max none ts .search).1.supply = r.supply ∧
      ∃ result, (r.nextFrame max none ts .search).2 = some result ∧
        (result = .error (.frameTooLarge (max + 1)) ∨ ∃ frame, result = .ok frame) := by
  match ts, hts with
  | t :: t' :: ts, _ =>
    rcases searchTurn_of_ahead h hne t with ⟨result, r', ht, hs, hr⟩ | ⟨-, r', ht, hd, hs⟩
    · rw [Reader.nextFrame, Reader.turn, ht]
      exact ⟨hs, result, rfl, hr⟩
    · have hok := turnOk_searchTurn h none t
      rw [ht] at hok
      obtain ⟨hg, -, hk⟩ := hok
      have hne' : ahead max r' [] ≠ [] := by
        rw [ahead_eq_of_kept hk hs, List.nil_append] at hne
        exact hne
      rcases searchTurn_of_ahead hg hne' t' with ⟨result, r'', ht', hs', hr⟩ | ⟨hd', -⟩
      · rw [Reader.nextFrame, Reader.turn, ht]
        dsimp only
        rw [Reader.nextFrame, Reader.turn, ht']
        exact ⟨hs'.trans hs, result, rfl, hr⟩
      · rw [hd] at hd'
        cases hd'

/-- **Progress**: a call without a deadline returns the next frame that was received. -/
theorem nextPacket_of_ahead (h : Good max r) {f : Frame UInt8} {fs : List (Frame UInt8)}
    (hf : ahead max r [] = f :: fs) {ts : List Turn} (hts : 2 ≤ ts.length) :
    (r.nextPacket max decode none ts).2 = some (report max decode f) := by
  obtain ⟨hs, res, hres, hr⟩ := nextFrame_of_ahead h (by rw [hf]; exact List.cons_ne_nil _ _) hts
  have hpack : ∃ result, (r.nextPacket max decode none ts).2 = some result ∧
      isIoError result = false ∧ (r.nextPacket max decode none ts).1.supply = r.supply := by
    rw [Reader.nextPacket]
    generalize r.nextFrame max none ts .search = res' at hs hres ⊢
    obtain ⟨r', result'⟩ := res'
    subst hres
    rcases hr with rfl | ⟨⟨start, stop⟩, rfl⟩
    · exact ⟨_, rfl, rfl, hs⟩
    · refine ⟨_, rfl, ?_, hs⟩
      dsimp only [Reader.packet]
      split_ifs
      · rfl
      · cases decode (slice r'.buffer start stop) <;> rfl
  obtain ⟨result, heq, hio, hsup⟩ := hpack
  obtain ⟨-, ⟨hn, -⟩ | ⟨result', out, heq', hout, -, hk⟩⟩ := nextPacket_spec decode h none ts
  · rw [hn] at heq
    cases heq
  · rw [heq] at heq' ⊢
    cases heq'
    have hone : nonIo [result] = [result] := by simp [nonIo, hio]
    have hcut := ahead_eq_of_kept hk hsup []
    rw [hone] at hout
    match out, hout with
    | [g], hout =>
      rw [hf, List.singleton_append, List.cons.injEq] at hcut
      rw [List.map_singleton, List.singleton_inj] at hout
      rw [hout, hcut.1]

/-! ### Every call returns -/

/-- The read of a turn is repeated. -/
def retries (t : Turn) : Bool :=
  match t.read with
  | .error error => error.kind = .timedOut ∨ error.kind = .interrupted
  | .ok _ => false

/-- How many turns that are not repeated a call can still take. -/
def left (r : Reader) : Phase → ℕ
  | .search => 2 * r.supply.length + (if r.discard then 1 else 0) + 2
  | .read => 2 * r.supply.length + (if r.discard then 1 else 0) + 1

/-- **Why a call stops without a frame**: at its deadline, at a closed stream, at a failure of the
deadline setter or of the adapter, or where the adapter hands over nothing, as at the end of its
bytes. -/
inductive Stops (deadline : Option ℕ) (r : Reader) (t : Turn) : TransportError → Prop
  | expired : expired deadline t.now = true → Stops deadline r t (.recvFailed deadlineExpired)
  | closed : t.admitted = false → Stops deadline r t .terminated
  | setter {error : IoError} : t.setter = .error error → Stops deadline r t (.recvFailed error)
  | failed {error : IoError} : t.read = .error error → retries t = false →
      Stops deadline r t (.recvFailed error)
  | ended {n : ℕ} : t.read = .ok n → n = 0 ∨ r.supply = [] → Stops deadline r t .terminated

/-- A turn makes the call return, or leaves it fewer turns unless it is repeated. -/
def Advances (max : ℕ) (deadline : Option ℕ) (t : Turn) (n : ℕ) : Next → Prop
  | .more phase r => left r phase ≤ n ∧ (retries t = false → left r phase < n)
  | .done result r => (∃ frame, result = .ok frame) ∨ result = .error (.frameTooLarge (max + 1)) ∨
      ∃ error, result = .error error ∧ Stops deadline r t error

theorem advances_search (h : Good max r) (deadline : Option ℕ) (t : Turn) :
    Advances max deadline t (left r .search) (r.searchTurn max deadline t) := by
  by_cases he : expired deadline t.now = true
  · rw [Reader.searchTurn, if_pos he]
    exact .inr (.inr ⟨_, rfl, .expired he⟩)
  cases hf : memchr (slice r.buffer r.search r.filled) with
  | some found =>
    rw [Reader.searchTurn, if_neg he, hf]
    dsimp only
    by_cases hd : r.discard = true
    · rw [if_pos hd]
      have hlt : left { r with
          offset := r.search + found + 1, search := r.search + found + 1,
          discard := false } .search < left r .search := by
        simp [left, hd]
      exact ⟨hlt.le, fun _ => hlt⟩
    · rw [if_neg hd]
      exact .inl ⟨_, rfl⟩
  | none =>
    obtain ⟨-, hdis, hsup, -⟩ := afterSearch_spec h (pending_notMem h hf)
    rw [searchTurn_notFound he hf]
    split_ifs with hfull
    · exact .inr (.inl rfl)
    · have hlt : left (afterSearch r) .read < left r .search := by
        simp [left, hdis, hsup]
      exact ⟨hlt.le, fun _ => hlt⟩

theorem advances_read (ha : r.filled ≤ max) (hlen : r.buffer.length = max + 1)
    (deadline : Option ℕ) (t : Turn) :
    Advances max deadline t (left r .read) (r.readTurn deadline t) := by
  unfold Reader.readTurn
  split_ifs with he hadm
  · exact .inr (.inr ⟨_, rfl, .expired he⟩)
  · exact .inr (.inr ⟨_, rfl, .closed hadm⟩)
  cases hs : t.setter with
  | error error => exact .inr (.inr ⟨_, rfl, .setter hs⟩)
  | ok =>
    dsimp only
    cases hr : t.read with
    | error error =>
      dsimp only
      split_ifs with hretry
      · have ht : retries t = true := by simpa [retries, hr] using hretry
        refine ⟨le_rfl, fun hfalse => ?_⟩
        rw [ht] at hfalse
        cases hfalse
      · have ht : retries t = false := by simpa [retries, hr] using hretry
        exact .inr (.inr ⟨_, rfl, .failed hr ht⟩)
    | ok n =>
      dsimp only
      split_ifs with hempty
      · refine .inr (.inr ⟨_, rfl, .ended hr ?_⟩)
        rw [List.take_eq_nil_iff] at hempty
        rcases hempty with h | h
        · left
          omega
        · exact .inr h
      · -- at least one byte is taken
        set m := (r.supply.take (min n (r.buffer.length - r.filled))).length with hm
        have hpos : 0 < m := List.length_pos_of_ne_nil hempty
        have hle : m ≤ r.supply.length := by
          rw [hm, List.length_take]
          omega
        have hlt : 2 * (r.supply.drop m).length + 1 < 2 * r.supply.length := by
          rw [List.length_drop]
          omega
        suffices h : 2 * (r.supply.drop m).length + (if r.discard then 1 else 0) + 2 <
          left r .read from
          ⟨h.le, fun _ => h⟩
        rw [left]
        omega

theorem advances_turn (h : Good max r) {phase : Phase} (ha : Asking max phase r)
    (deadline : Option ℕ) (t : Turn) :
    Advances max deadline t (left r phase) (r.turn max deadline t phase) := by
  cases phase with
  | search => exact advances_search h deadline t
  | read => exact advances_read (ha rfl).1 h.length deadline t

theorem nextFrame_returns (deadline : Option ℕ) :
    ∀ (ts : List Turn) {phase : Phase} {r : Reader}, Good max r → Asking max phase r →
      left r phase ≤ (ts.filter (!retries ·)).length →
      ∃ result, (r.nextFrame max deadline ts phase).2 = some result
  | [], phase, r, _, _, hn => by
    cases phase <;> simp [left] at hn
  | t :: ts, phase, r, h, ha, hn => by
    have hok := turnOk h ha deadline t
    have hadv := advances_turn h ha deadline t
    rw [Reader.nextFrame]
    generalize r.turn max deadline t phase = next at hok hadv ⊢
    cases next with
    | done result r' => exact ⟨result, rfl⟩
    | more phase' r' =>
      obtain ⟨hg, ha', -⟩ := hok
      obtain ⟨hle, hlt⟩ := hadv
      refine nextFrame_returns deadline ts hg ha' ?_
      cases ht : retries t with
      | true =>
        rw [List.filter_cons_of_neg (by simp [ht])] at hn
        exact hle.trans hn
      | false =>
        rw [List.filter_cons_of_pos (by simp [ht]), List.length_cons] at hn
        have := hlt ht
        omega

theorem nextFrame_stops (deadline : Option ℕ) :
    ∀ (ts : List Turn) {phase : Phase} {r : Reader} {error : TransportError}, Good max r →
      Asking max phase r → (r.nextFrame max deadline ts phase).2 = some (.error error) →
      error = .frameTooLarge (max + 1) ∨
        ∃ t ∈ ts, Stops deadline (r.nextFrame max deadline ts phase).1 t error
  | [], phase, r, error, _, _, hr => by cases hr
  | t :: ts, phase, r, error, h, ha, hr => by
    have hok := turnOk h ha deadline t
    have hadv := advances_turn h ha deadline t
    rw [Reader.nextFrame] at hr ⊢
    generalize r.turn max deadline t phase = next at hok hadv hr ⊢
    cases next with
    | done result r' =>
      cases hr
      rcases hadv with ⟨frame, hf⟩ | hlarge | ⟨e, he, hstop⟩
      · cases hf
      · cases hlarge
        exact .inl rfl
      · cases he
        exact .inr ⟨t, List.mem_cons_self, hstop⟩
    | more phase' r' =>
      obtain ⟨hg, ha', -⟩ := hok
      refine (nextFrame_stops deadline ts hg ha' hr).imp_right ?_
      rintro ⟨t', hmem, hstop⟩
      exact ⟨t', List.mem_cons_of_mem t hmem, hstop⟩

/-- **A call returns**, unless its reads are repeated again and again: every other turn ends it or
takes bytes. -/
theorem nextPacket_returns (h : Good max r) {deadline : Option ℕ} {ts : List Turn}
    (hts : 2 * r.supply.length + 3 ≤ (ts.filter (!retries ·)).length) :
    ∃ result, (r.nextPacket max decode deadline ts).2 = some result := by
  have hleft : left r .search ≤ (ts.filter (!retries ·)).length := by
    refine le_trans ?_ hts
    rw [left]
    split_ifs <;> omega
  obtain ⟨result, hr⟩ := nextFrame_returns deadline ts h
    (fun hp => (by cases hp) : Asking max .search r) hleft
  rw [Reader.nextPacket]
  generalize r.nextFrame max deadline ts .search = res at hr ⊢
  obtain ⟨r', result'⟩ := res
  subst hr
  exact ⟨_, rfl⟩

/-- A call without a frame was stopped in one of its turns. -/
theorem nextPacket_stops (h : Good max r) {deadline : Option ℕ} {ts : List Turn}
    {result : Except TransportError (Option Bytes)}
    (hr : (r.nextPacket max decode deadline ts).2 = some result) (hio : isIoError result = true) :
    ∃ error, result = .error error ∧
      ∃ t ∈ ts, Stops deadline (r.nextPacket max decode deadline ts).1 t error := by
  have hstops : ∀ error, (r.nextFrame max deadline ts .search).2 = some (.error error) →
      error = .frameTooLarge (max + 1) ∨
        ∃ t ∈ ts, Stops deadline (r.nextFrame max deadline ts .search).1 t error :=
    fun error => nextFrame_stops deadline ts h (asking_search _ _)
  rw [Reader.nextPacket] at hr ⊢
  generalize r.nextFrame max deadline ts .search = res at hstops hr ⊢
  obtain ⟨r', result'⟩ := res
  cases result' with
  | none => cases hr
  | some frame =>
    cases hr
    cases frame with
    | ok frame =>
      dsimp only [Reader.packet] at hio
      split_ifs at hio
      · cases hio
      · split at hio <;> cases hio
    | error error =>
      refine ⟨error, rfl, ?_⟩
      rcases hstops error rfl with rfl | hstop
      · cases hio
      · exact hstop

/-- **Nothing stops a call**, and its adapter hands over at least one byte in a read while it has
any; reads may be repeated, with `n` others. -/
structure Patient (n : ℕ) (c : Call) : Prop where
  inTime : ∀ t ∈ c.turns, expired c.deadline t.now = false
  admitted : ∀ t ∈ c.turns, t.admitted = true
  setter : ∀ t ∈ c.turns, t.setter = .ok ()
  read : ∀ t ∈ c.turns, retries t = true ∨ ∃ k, 0 < k ∧ t.read = .ok k
  turns : n ≤ (c.turns.filter (!retries ·)).length

/-- A patient call returns a frame, or the end of the input when there is none. -/
theorem Patient.returns {c : Call} (h : Good max r) (hc : Patient (2 * r.supply.length + 3) c) :
    ∃ result, (r.nextPacket max decode c.deadline c.turns).2 = some result ∧
      (isIoError result = false ∨ result = .error .terminated ∧
        (r.nextPacket max decode c.deadline c.turns).1.supply = []) := by
  obtain ⟨result, hr⟩ := nextPacket_returns decode h hc.turns
  refine ⟨result, hr, ?_⟩
  cases hio : isIoError result with
  | false => exact .inl rfl
  | true =>
    obtain ⟨error, rfl, t, ht, hstop⟩ := nextPacket_stops decode h hr hio
    cases hstop with
    | expired he =>
      rw [hc.inTime t ht] at he
      cases he
    | closed hadm =>
      rw [hc.admitted t ht] at hadm
      cases hadm
    | setter hs =>
      rw [hc.setter t ht] at hs
      cases hs
    | failed hread hretry =>
      rcases hc.read t ht with hyes | ⟨k, -, hk⟩
      · rw [hretry] at hyes
        cases hyes
      · rw [hread] at hk
        cases hk
    | ended hread hend =>
      rcases hc.read t ht with hyes | ⟨k, hpos, hk⟩
      · simp [retries, hread] at hyes
      · rw [hread] at hk
        cases hk
        rcases hend with rfl | hsup
        · cases hpos
        · exact .inr ⟨rfl, hsup⟩

/-! ### Runs -/

theorem nonIo_cons (result : Except TransportError (Option Bytes))
    (results : List (Except TransportError (Option Bytes))) :
    nonIo (result :: results) = nonIo [result] ++ nonIo results := by
  rw [nonIo, nonIo, nonIo, ← List.filter_append, List.singleton_append]

theorem nonIo_append (results results' : List (Except TransportError (Option Bytes))) :
    nonIo (results ++ results') = nonIo results ++ nonIo results' := List.filter_append ..

/-- The reports of frames are no failures of the input. -/
theorem nonIo_report (fs : List (Frame UInt8)) :
    nonIo (fs.map (report max decode)) = fs.map (report max decode) := by
  refine List.filter_eq_self.mpr fun result hr => ?_
  obtain ⟨f, -, rfl⟩ := List.mem_map.mp hr
  cases f with
  | overflow => rfl
  | piece p =>
    cases p with
    | nil => rfl
    | cons b bs =>
      dsimp only [report]
      split <;> rfl

/-- Successive calls return what is ahead, frame by frame. -/
theorem calls_spec :
    ∀ (cs : List Call) {r : Reader}, Good max r →
      Good max (r.calls max decode cs).1 ∧
      (∃ got, r.supply = got ++ (r.calls max decode cs).1.supply ∧
        ∀ more, (ahead max r (got ++ more)).map (report max decode) =
          nonIo (r.calls max decode cs).2 ++
            (ahead max (r.calls max decode cs).1 more).map (report max decode)) ∧
      ((r.calls max decode cs).2.length = cs.length →
        (r.calls max decode cs).2.getLast? = some (.error .terminated) →
          ahead max (r.calls max decode cs).1 [] = [])
  | [], r, h => ⟨h, ⟨[], rfl, fun _ => rfl⟩, fun _ hl => (by cases hl)⟩
  | c :: cs, r, h => by
    obtain ⟨hg, hres⟩ := nextPacket_spec decode h c.deadline c.turns
    rw [Reader.calls]
    generalize r.nextPacket max decode c.deadline c.turns = res at hg hres ⊢
    obtain ⟨r', result⟩ := res
    rcases hres with ⟨rfl, got, hs, ha⟩ | ⟨result, out, rfl, hout, hend, got, hs, ha⟩
    · refine ⟨hg, ⟨got, hs, fun more => ?_⟩, fun _ hl => (by cases hl)⟩
      rw [ha]
      rfl
    · dsimp only at hg hs ha hend ⊢
      obtain ⟨hg', ⟨got', hs', ha'⟩, hend'⟩ := calls_spec cs hg
      refine ⟨hg', ⟨got ++ got', ?_, fun more => ?_⟩, fun hlen hlast => ?_⟩
      · rw [hs, hs', List.append_assoc]
      · rw [List.append_assoc, ha, List.map_append, ha', ← hout,
          nonIo_cons result (r'.calls max decode cs).2, List.append_assoc]
      · cases cs with
        | nil =>
          refine hend ?_
          simpa [Reader.calls] using hlast
        | cons c' cs' =>
          rw [List.length_cons, List.length_cons, Nat.add_right_cancel_iff] at hlen
          refine hend' hlen ?_
          have hne : (r'.calls max decode (c' :: cs')).2 ≠ [] := by
            intro hnil
            rw [hnil] at hlen
            cases hlen
          rwa [List.getLast?_cons_of_ne_nil hne] at hlast

/-- **Patient calls read everything**: they return what is ahead, and from then on the end of the
input. -/
theorem calls_patient : ∀ (cs : List Call) {r : Reader}, Good max r →
    (∀ c ∈ cs, Patient (2 * r.supply.length + 3) c) →
    (ahead max r r.supply).length ≤ cs.length →
    (r.calls max decode cs).2 = (ahead max r r.supply).map (report max decode) ++
        List.replicate (cs.length - (ahead max r r.supply).length) (.error .terminated) ∧
      ((ahead max r r.supply).length < cs.length → (r.calls max decode cs).1.supply = [])
  | [], r, _, _, hlen => by
    have hnil : ahead max r r.supply = [] := List.length_eq_zero_iff.mp (Nat.le_zero.mp hlen)
    rw [hnil]
    exact ⟨rfl, fun h => by cases h⟩
  | c :: cs, r, h, hcs, hlen => by
    obtain ⟨result, hr, hresult⟩ := (hcs c List.mem_cons_self).returns decode h
    obtain ⟨hg, hcases⟩ := nextPacket_spec decode h c.deadline c.turns
    rw [Reader.calls]
    generalize r.nextPacket max decode c.deadline c.turns = res at hr hresult hg hcases ⊢
    obtain ⟨r', result'⟩ := res
    dsimp only at hr hresult hg hcases ⊢
    subst hr
    rcases hcases with ⟨hnone, -⟩ | ⟨result', out, hsome, hout, hend, got, hsup, hahead⟩
    · cases hnone
    cases hsome
    have hpatient : ∀ c ∈ cs, Patient (2 * r'.supply.length + 3) c := by
      intro c' hc'
      have hc := hcs c' (List.mem_cons_of_mem c hc')
      refine { hc with turns := le_trans ?_ hc.turns }
      rw [hsup, List.length_append]
      omega
    have hcut : ahead max r r.supply = out ++ ahead max r' r'.supply := by
      rw [hsup]
      exact hahead r'.supply
    rcases hresult with hio | ⟨rfl, hempty⟩
    · -- a frame is returned
      have hone : nonIo [result] = [result] := by simp [nonIo, hio]
      rw [hone] at hout
      match out, hout with
      | [f], hout =>
        rw [hcut, List.singleton_append, List.length_cons, List.length_cons,
          Nat.add_le_add_iff_right] at hlen
        obtain ⟨hres, hdone⟩ := calls_patient cs hg hpatient hlen
        rw [hcut, List.singleton_append, List.length_cons, List.length_cons, List.map_cons,
          Nat.add_lt_add_iff_right, Nat.add_sub_add_right]
        refine ⟨?_, hdone⟩
        rw [List.map_singleton, List.singleton_inj] at hout
        show result :: (r'.calls max decode cs).2 = _
        rw [hres, hout, List.cons_append]
    · -- the end of the input is returned, and nothing is ahead
      have hnil : ahead max r' r'.supply = [] := by
        rw [hempty]
        exact hend rfl
      have hout' : out = [] := by
        rw [show nonIo [.error .terminated] = [] from rfl, eq_comm, List.map_eq_nil_iff] at hout
        exact hout
      rw [hout', hnil] at hcut
      have hle : (ahead max r' r'.supply).length ≤ cs.length := by
        rw [hnil]
        exact Nat.zero_le _
      obtain ⟨hres, hdone⟩ := calls_patient cs hg hpatient hle
      rw [hcut]
      refine ⟨?_, fun _ => ?_⟩
      · show .error .terminated :: (r'.calls max decode cs).2 = _
        rw [hres, hnil]
        rfl
      · cases cs with
        | nil => exact hempty
        | cons c' cs =>
          refine hdone ?_
          rw [hnil]
          exact Nat.succ_pos _

/-- Patient calls return every frame to come and have nothing left. -/
theorem calls_frames {r : Reader} (h : Good max r) {cs : List Call}
    (hcs : ∀ c ∈ cs, Patient (2 * r.supply.length + 3) c)
    (hlen : (ahead max r r.supply).length < cs.length) :
    (r.calls max decode cs).1.supply = [] ∧
      (r.calls max decode cs).2.length = cs.length ∧
      (r.calls max decode cs).2.getLast? = some (.error .terminated) ∧
      nonIo (r.calls max decode cs).2 = (ahead max r r.supply).map (report max decode) := by
  obtain ⟨hres, hdone⟩ := calls_patient decode cs h hcs hlen.le
  obtain ⟨n, hn⟩ := Nat.exists_eq_add_of_lt hlen
  have hcount : cs.length - (ahead max r r.supply).length = n + 1 := by omega
  rw [hcount] at hres
  refine ⟨hdone hlen, ?_, ?_, ?_⟩
  · rw [hres, List.length_append, List.length_map, List.length_replicate]
    omega
  · rw [hres, List.replicate_succ', ← List.append_assoc, List.getLast?_concat]
  · have hend : nonIo (List.replicate (n + 1) (.error .terminated)) = [] :=
      List.filter_eq_nil_iff.mpr fun result hr => by
        rw [List.eq_of_mem_replicate hr]
        exact Bool.false_ne_true
    rw [hres, nonIo_append, nonIo_report, hend, List.append_nil]

theorem ahead_new (max : ℕ) (supply more : Bytes) :
    ahead max (.new max supply) more = frames 0 max more := by
  simp [ahead, Reader.new, pending]

/-- A reader that was fed everything and returned the end of the input returned all frames. -/
theorem calls_complete {bytes : Bytes} {cs : List Call}
    (hsup : ((Reader.new max bytes).calls max decode cs).1.supply = [])
    (hlen : ((Reader.new max bytes).calls max decode cs).2.length = cs.length)
    (hlast : ((Reader.new max bytes).calls max decode cs).2.getLast? = some (.error .terminated)) :
    nonIo ((Reader.new max bytes).calls max decode cs).2 =
      (frames 0 max bytes).map (report max decode) := by
  obtain ⟨-, ⟨got, hs, ha⟩, hend⟩ := calls_spec decode cs (good_new max bytes)
  have hgot : bytes = got := by
    rw [hsup, List.append_nil] at hs
    exact hs
  have hall := ha []
  rw [ahead_new, hend hlen hlast, List.append_nil, List.map_nil, List.append_nil, ← hgot] at hall
  exact hall.symm

/-- After any calls, patient ones read the whole input. -/
theorem calls_later {bytes : Bytes} (cs : List Call) {later : List Call}
    (hpatient : ∀ c ∈ later, Patient (2 * bytes.length + 3) c)
    (hlen : (frames 0 max bytes).length < later.length) :
    let reader := ((Reader.new max bytes).calls max decode cs).1
    (reader.calls max decode later).1.supply = [] ∧
      (reader.calls max decode later).2.getLast? = some (.error .terminated) ∧
      nonIo ((Reader.new max bytes).calls max decode cs).2 ++
          nonIo (reader.calls max decode later).2 =
        (frames 0 max bytes).map (report max decode) := by
  intro reader
  obtain ⟨hg, ⟨got, hs, ha⟩, -⟩ := calls_spec decode cs (good_new max bytes)
  change bytes = got ++ reader.supply at hs
  have hall : (ahead max (.new max bytes) (got ++ reader.supply)).map (report max decode) =
      nonIo ((Reader.new max bytes).calls max decode cs).2 ++
        (ahead max reader reader.supply).map (report max decode) := ha reader.supply
  rw [← hs, ahead_new] at hall
  have hcount := congrArg List.length hall
  rw [List.length_map, List.length_append, List.length_map] at hcount
  have hrest : ∀ c ∈ later, Patient (2 * reader.supply.length + 3) c := by
    intro c hc
    refine { hpatient c hc with turns := le_trans ?_ (hpatient c hc).turns }
    rw [hs, List.length_append]
    omega
  have hahead : (ahead max reader reader.supply).length < later.length := by omega
  obtain ⟨hsup, -, hlast, hframes⟩ := calls_frames decode hg hrest hahead
  exact ⟨hsup, hlast, by rw [hframes, hall]⟩

/-- **The frame reader implements its grammar.** In any run of calls over any byte string, cut,
failed and ended by the adapter at will, the results are those of the frames of the bytes delivered
so far, in order: none is missing when the end of the input is returned, the next one is returned by
any call that is not limited by a deadline, a failed call changes nothing of what is ahead, and the
adapter is never offered an empty buffer.

A call returns unless its reads are repeated again and again, and it fails only for the reasons of
`Stops`. As soon as nothing stops the calls and the adapter hands over some bytes in every read,
they read the whole input, and all results together are those of all its frames. -/
theorem grammar (max : ℕ) (decode : Bytes → Except String Bytes) (bytes : Bytes)
    (cs : List Call) :
    let reader := ((Reader.new max bytes).calls max decode cs).1
    let results := ((Reader.new max bytes).calls max decode cs).2
    ∃ delivered, bytes = delivered ++ reader.supply ∧
      (∀ more, (frames 0 max (delivered ++ more)).map (report max decode) =
        nonIo results ++ (ahead max reader more).map (report max decode)) ∧
      (results.length = cs.length → results.getLast? = some (.error .terminated) →
        nonIo results = (frames 0 max delivered).map (report max decode)) ∧
      (∀ next later ts, (frames 0 max delivered).map (report max decode) =
          nonIo results ++ next :: later → 2 ≤ ts.length →
        (reader.nextPacket max decode none ts).2 = some next) ∧
      (∀ deadline ts result, (reader.nextPacket max decode deadline ts).2 = some result →
          isIoError result = true →
        Kept max reader (reader.nextPacket max decode deadline ts).1 [] ∧
          ∃ error, result = .error error ∧
            ∃ t ∈ ts, Stops deadline (reader.nextPacket max decode deadline ts).1 t error) ∧
      (∀ deadline ts, 2 * reader.supply.length + 3 ≤ (ts.filter (!retries ·)).length →
        ∃ result, (reader.nextPacket max decode deadline ts).2 = some result) ∧
      (∀ later, (∀ c ∈ later, Patient (2 * bytes.length + 3) c) →
          (frames 0 max bytes).length < later.length →
        (reader.calls max decode later).1.supply = [] ∧
          (reader.calls max decode later).2.getLast? = some (.error .terminated) ∧
          nonIo results ++ nonIo (reader.calls max decode later).2 =
            (frames 0 max bytes).map (report max decode)) ∧
      ∀ n ∈ reader.offers, 0 < n := by
  intro reader results
  have hspec := calls_spec decode cs (good_new max bytes)
  obtain ⟨hg, ⟨got, hs, ha⟩, hend⟩ := hspec
  have hrun : ∀ more, (frames 0 max (got ++ more)).map (report max decode) =
      nonIo results ++ (ahead max reader more).map (report max decode) := by
    intro more
    rw [← ahead_new max bytes]
    exact ha more
  have hnow := hrun []
  rw [List.append_nil] at hnow
  refine ⟨got, hs, hrun, fun hlen hlast => ?_, fun next later ts hsplit hts => ?_,
    fun deadline ts result hres hio => ⟨?_, nextPacket_stops decode hg hres hio⟩,
    fun deadline ts hts => nextPacket_returns decode hg hts,
    fun later hpatient hlen => calls_later decode cs hpatient hlen, hg.offers⟩
  · rw [hnow, hend hlen hlast]
    exact (List.append_nil _).symm
  · rw [hnow, List.append_cancel_left_eq] at hsplit
    obtain ⟨f, fs, hf, hnext, -⟩ := List.map_eq_cons_iff.mp hsplit
    rw [nextPacket_of_ahead decode hg hf hts, hnext]
  · obtain ⟨-, ⟨hn, hk⟩ | ⟨result', out, hres', hout, -, hk⟩⟩ :=
      nextPacket_spec decode hg deadline ts
    · exact hk
    · change (reader.nextPacket max decode deadline ts).2 = some result' at hres'
      rw [hres, Option.some.injEq] at hres'
      subst hres'
      have hnone : nonIo [result] = [] := by simp [nonIo, hio]
      rw [hnone, eq_comm, List.map_eq_nil_iff] at hout
      rw [hout] at hk
      exact hk

/-- A call without a deadline, whose adapter hands over up to `k` bytes in every read. -/
def steady (k n : ℕ) : Call := ⟨none, List.replicate n ⟨0, true, .ok (), .ok k⟩⟩

theorem patient_steady {k : ℕ} (hk : 0 < k) (n : ℕ) : Patient n (steady k n) where
  inTime t _ := rfl
  admitted t ht := by rw [List.eq_of_mem_replicate ht]
  setter t ht := by rw [List.eq_of_mem_replicate ht]
  read t ht := by
    rw [List.eq_of_mem_replicate ht]
    exact .inr ⟨k, hk, rfl⟩
  turns := by
    rw [steady, List.filter_replicate_of_pos rfl, List.length_replicate]

/-- A read fails inside of a frame, the next call gets the rest of it, and one finds the adapter at
a premature end. -/
def faulty : List Call :=
  [⟨none, [⟨0, true, .ok (), .ok 1⟩, ⟨0, true, .ok (), .ok 1⟩, ⟨0, true, .ok (), .ok 1⟩,
      ⟨0, true, .ok (), .error ⟨.other 0, "noise"⟩⟩]⟩,
    ⟨some 9, [⟨0, true, .ok (), .error ⟨.interrupted, "again"⟩⟩, ⟨1, true, .ok (), .ok 4⟩,
      ⟨2, true, .ok (), .ok 4⟩]⟩,
    ⟨some 9, [⟨0, true, .ok (), .ok 4⟩, ⟨1, true, .ok (), .ok 0⟩]⟩]

/-- A frame of two bytes, one that is too large, an empty one, and one that does not end. -/
def splitFrames : Bytes := [1, 2, 0, 5, 5, 5, 5, 5, 0, 0, 7]

def dropFirst (p : Bytes) : Except String Bytes := .ok (p.drop 1)

theorem grammar_faulty :
    ∃ reader, (Reader.new 3 splitFrames).calls 3 dropFirst faulty = (reader,
        [.error (.recvFailed ⟨.other 0, "noise"⟩), .ok (some [2]), .error .terminated]) ∧
      ∃ later, (reader.calls 3 dropFirst later).1.supply = [] ∧
        (reader.calls 3 dropFirst later).2.getLast? = some (.error .terminated) ∧
        .ok (some [2]) :: nonIo (reader.calls 3 dropFirst later).2 =
          [.ok (some [2]), .error (.frameTooLarge 4), .ok none] := by
  obtain ⟨reader, hreader⟩ : ∃ reader, (Reader.new 3 splitFrames).calls 3 dropFirst faulty =
      (reader,
      [.error (.recvFailed ⟨.other 0, "noise"⟩), .ok (some [2]), .error .terminated]) := ⟨_, rfl⟩
  have hframes : (frames 0 3 splitFrames).map (report 3 dropFirst) =
      [.ok (some [2]), .error (.frameTooLarge 4), .ok none] := rfl
  have hpatient : ∀ c ∈ List.replicate 5 (steady 2 25),
      Patient (2 * splitFrames.length + 3) c := by
    intro c hc
    rw [List.eq_of_mem_replicate hc]
    exact patient_steady Nat.two_pos 25
  obtain ⟨delivered, -, -, -, -, -, -, hlater, -⟩ := grammar 3 dropFirst splitFrames faulty
  obtain ⟨hsup, hlast, hall⟩ := hlater _ hpatient (by decide)
  rw [hreader] at hsup hlast hall
  exact ⟨reader, hreader, _, hsup, hlast, hall.trans hframes⟩

example : (frames 0 3 [1, 2, 0, 0, 1, 2, 3, 4, 5, 0, 7, 0, 8]).map
    (report 3 fun p => .ok (p.drop 1)) =
      [.ok (some [2]), .ok none, .error (.frameTooLarge 4), .ok (some [])] := rfl

end ArkWire.Transport.Grammar
