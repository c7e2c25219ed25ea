import ArkWire.Transport.FrameWriter
import ArkWire.Transport.Grammar

/-! # Recovery delimiters keep successful frames intact

The frames a reader finds in the bytes that the adapter accepted are split into blocks, one for each
call and in the order of the calls. The block of a successful call is what the call meant to send;
that of a failed one is at most one frame, cut anywhere, and empty frames.

The frame a failed call cut is terminated by a later call. `Tail` is what later calls add to the
block of the last call that failed: that frame, and the empty frames of recovery delimiters. -/

namespace ArkWire.Transport.Recovery

open ArkWire.Lib.Delimited
open ArkWire.Transport.Errors ArkWire.Transport.FrameReader ArkWire.Transport.Grammar
open ArkWire.Transport.FrameWriter hiding Good good_new Call

variable {cobs : Cobs} {max : ℕ} {w w' : Writer}

/-- The results of a call that wrote and did not succeed. -/
def Failed (result : Option (Except TransportError Unit)) : Prop :=
  result = none ∨ ∃ error, result = some (.error (.sendFailed error))

/-- **The frames of a call.** -/
inductive Block (cobs : Cobs) (max : ℕ) (record : Record) : List Bytes → Prop
  | packet {p : Bytes} : record.send = .packet p → record.result = some (.ok ()) →
      (cobs.encode p).length ≤ max → Block cobs max record [cobs.encode p]
  | dropped : record.send = .dropped → record.result = some (.ok ()) → Block cobs max record [[]]
  | reset : record.send = .reset → record.result = some (.ok ()) →
      rest 0 record.before.accepted = [] → Block cobs max record [[], []]
  | resetInside : record.send = .reset → record.result = some (.ok ()) →
      rest 0 record.before.accepted ≠ [] → Block cobs max record [[]]
  | refused {size : ℕ} : record.result = some (.error (.frameTooLarge size)) →
      record.after = record.before → Block cobs max record []
  | failed (k : ℕ) : Failed record.result → Block cobs max record (List.replicate k [])
  | cut {p c : Bytes} (k : ℕ) : Failed record.result → record.send = .packet p → c ≠ [] →
      c <+: cobs.encode p → (cobs.encode p).length ≤ max →
      Block cobs max record (c :: List.replicate k [])

/-- What later calls add to the block of the last failed one, of whose frame `q` is on the
stream. -/
def Tail (resync : Bool) (q : Bytes) (tail : List Bytes) : Prop :=
  tail = [] ∨ resync = true ∧ ∃ k, tail = (if q = [] then [] else [q]) ++ List.replicate k []

/-- Unless the writer is to resynchronise, the stream ends with a frame. -/
structure Clean (max : ℕ) (w : Writer) : Prop where
  ends : w.resync = false → rest 0 w.accepted = []
  short : (rest 0 w.accepted).length ≤ max

theorem clean_new (max : ℕ) : Clean max (.new max) := by
  refine ⟨fun _ => rfl, ?_⟩
  show ([] : Bytes).length ≤ max
  exact Nat.zero_le max

/-! ### Cutting zeros -/

theorem pieces_replicate (m : ℕ) : pieces (0 : UInt8) (List.replicate m 0) =
    List.replicate m [] := by
  induction m with
  | zero => rfl
  | succ m ih => rw [List.replicate_succ, pieces_cons_delim, ih, List.replicate_succ]

theorem rest_replicate (m : ℕ) : rest (0 : UInt8) (List.replicate m 0) = [] := by
  induction m with
  | zero => rfl
  | succ m ih => rw [List.replicate_succ, rest_cons_delim, ih]

/-! ### The part of a frame after the recovery delimiter -/

/-- What a call writes after the recovery delimiter: an encoded packet and its delimiter, or
delimiters. -/
inductive Body (cobs : Cobs) : Send → Bytes → Prop
  | packet (p : Bytes) : Body cobs (.packet p) (cobs.encode p ++ [0])
  | zeros (send : Send) (m : ℕ) : Body cobs send (List.replicate m 0)

theorem wire_eq (cobs : Cobs) (w : Writer) (send : Send) :
    ∃ body, wire cobs w send = lead w ++ body ∧ Body cobs send body := by
  cases send with
  | packet p => exact ⟨_, rfl, .packet p⟩
  | dropped => exact ⟨_, rfl, .zeros .dropped 1⟩
  | reset =>
    cases hr : w.resync with
    | true => exact ⟨[0], by rw [wire, lead, hr]; rfl, .zeros .reset 1⟩
    | false => exact ⟨[0, 0], by rw [wire, lead, hr]; rfl, .zeros .reset 2⟩

/-- A failed call had a prefix of its own part accepted: with what later calls add, this is its
block. -/
theorem block_of_prefix (hc : cobs.Lawful) {record : Record} (hf : Failed record.result)
    (hfit : ∀ p, record.send = .packet p → cobs.encodeBuffer p.length ≤ max) {body c : Bytes}
    (hb : Body cobs record.send body) (hp : c <+: body) {tail : List Bytes}
    (ht : Tail true (rest 0 c) tail) :
    Block cobs max record (pieces 0 c ++ tail) ∧ (rest 0 c).length ≤ max := by
  generalize hsend : record.send = send at hb
  cases hb with
  | packet p =>
    have hlen : (cobs.encode p).length ≤ max := (hc.length_encode p).trans (hfit p hsend)
    have hz := hc.encode_nonzero p
    rcases List.prefix_concat_iff.mp hp with rfl | hp
    · -- the whole frame: what follows are empty frames
      rw [pieces_append_delim hz, rest_append_delim hz] at *
      rcases ht with rfl | ⟨-, k, rfl⟩
      · exact ⟨.cut 0 hf hsend (hc.encode_ne_nil p) List.prefix_rfl hlen, Nat.zero_le _⟩
      · exact ⟨.cut k hf hsend (hc.encode_ne_nil p) List.prefix_rfl hlen, Nat.zero_le _⟩
    · have hcz : 0 ∉ c := fun h => hz (hp.subset h)
      rw [pieces_of_notMem hcz, rest_of_notMem hcz] at *
      refine ⟨?_, hp.length_le.trans hlen⟩
      rcases ht with rfl | ⟨-, k, rfl⟩
      · exact .failed 0 hf
      · split_ifs with hnil
        · exact .failed k hf
        · exact .cut k hf hsend hnil hp hlen
  | zeros send m =>
    obtain ⟨j, rfl⟩ : ∃ j, c = List.replicate j 0 :=
      ⟨c.length, (List.prefix_replicate_iff.mp hp).2⟩
    rw [pieces_replicate, rest_replicate] at *
    refine ⟨?_, Nat.zero_le _⟩
    rcases ht with rfl | ⟨-, k, rfl⟩
    · rw [List.append_nil]
      exact .failed j hf
    · rw [if_pos rfl, List.nil_append, ← List.replicate_add]
      exact .failed (j + k) hf

/-! ### What one call adds -/

/-- Bytes after those of the stream so far. -/
theorem pieces_accepted {bytes more : Bytes} :
    pieces 0 (rest 0 w.accepted ++ (bytes ++ more)) =
      pieces 0 (rest 0 w.accepted ++ bytes) ++
        pieces 0 (rest 0 (w.accepted ++ bytes) ++ more) := by
  rw [← List.append_assoc, pieces_append, ← rest_append]

/-- The recovery delimiter terminates the frame on the stream, if there is one. -/
theorem pieces_lead (h : Clean max w) (c : Bytes) :
    pieces 0 (rest 0 w.accepted ++ (lead w ++ c)) =
        (if w.resync then [rest 0 w.accepted] else []) ++ pieces 0 c ∧
      rest 0 (w.accepted ++ (lead w ++ c)) = rest 0 c := by
  have hz := rest_notMem (d := 0) w.accepted
  unfold lead
  rw [rest_append]
  split_ifs with hr
  · rw [List.singleton_append, pieces_append_delim hz, rest_append_delim hz]
    exact ⟨rfl, rfl⟩
  · rw [h.ends (Bool.eq_false_iff.mpr hr)]
    exact ⟨rfl, rfl⟩

/-- The frame on the stream, terminated. -/
theorem tail_terminated (resync : Bool) (q : Bytes) :
    Tail resync q (if resync then [q] else []) := by
  cases resync with
  | false => exact .inl rfl
  | true =>
    refine .inr ⟨rfl, if q = [] then 1 else 0, ?_⟩
    by_cases hq : q = []
    · rw [if_pos hq, if_pos hq, hq]
      rfl
    · rw [if_neg hq, if_neg hq]
      rfl

/-- A failed call. -/
theorem block_failed (hc : cobs.Lawful) (h : Clean max w) (record : Record)
    (hf : Failed record.result)
    (hfit : ∀ p, record.send = .packet p → cobs.encodeBuffer p.length ≤ max) {bytes : Bytes}
    (hp : bytes <+: wire cobs w record.send) {tail' : List Bytes}
    (ht : Tail true (rest 0 (w.accepted ++ bytes)) tail') :
    ∃ tail block, pieces 0 (rest 0 w.accepted ++ bytes) ++ tail' = tail ++ block ∧
      Tail w.resync (rest 0 w.accepted) tail ∧ Block cobs max record block ∧
      (rest 0 (w.accepted ++ bytes)).length ≤ max := by
  obtain ⟨body, hbody, hown⟩ := wire_eq cobs w record.send
  rw [hbody] at hp
  -- the accepted bytes stop before the recovery delimiter, or have it in front
  have hcut : (bytes = [] ∧ w.resync = true) ∨ ∃ c, bytes = lead w ++ c ∧ c <+: body := by
    unfold lead at hp ⊢
    cases hr : w.resync with
    | false =>
      rw [hr] at hp
      exact .inr ⟨bytes, rfl, hp⟩
    | true =>
      rw [hr] at hp
      cases bytes with
      | nil => exact .inl ⟨rfl, rfl⟩
      | cons b c =>
        obtain ⟨hb, hp⟩ := List.cons_prefix_cons.mp hp
        exact .inr ⟨c, by rw [hb]; rfl, hp⟩
  rcases hcut with ⟨rfl, hr⟩ | ⟨c, rfl, hcp⟩
  · rw [List.append_nil] at ht ⊢
    rw [List.append_nil, pieces_of_notMem (rest_notMem _), hr]
    exact ⟨tail', [], by rw [List.nil_append, List.append_nil], ht, .failed 0 hf, h.short⟩
  · obtain ⟨hpieces, hrest⟩ := pieces_lead h c
    rw [hrest] at ht ⊢
    obtain ⟨hblock, hshort⟩ := block_of_prefix hc hf hfit hown hcp ht
    rw [hpieces, List.append_assoc]
    exact ⟨_, _, rfl, tail_terminated _ _, hblock, hshort⟩

/-- A successful call leaves the stream at the end of a frame. -/
theorem block_sent (hc : cobs.Lawful) (h : Clean max w) (record : Record)
    (hw : record.before = w) (hok : record.result = some (.ok ()))
    (hfit : ∀ p, record.send = .packet p → cobs.encodeBuffer p.length ≤ max) :
    rest 0 (w.accepted ++ wire cobs w record.send) = [] ∧
      ∃ tail block, pieces 0 (rest 0 w.accepted ++ wire cobs w record.send) = tail ++ block ∧
        Tail w.resync (rest 0 w.accepted) tail ∧ Block cobs max record block := by
  cases hsend : record.send with
  | packet p =>
    have hz := hc.encode_nonzero p
    obtain ⟨hpieces, hrest⟩ := pieces_lead h (cobs.encode p ++ [0])
    rw [pieces_append_delim hz] at hpieces
    rw [rest_append_delim hz] at hrest
    have hlen := (hc.length_encode p).trans (hfit p hsend)
    exact ⟨hrest, _, _, hpieces, tail_terminated _ _, .packet hsend hok hlen⟩
  | dropped =>
    obtain ⟨hpieces, hrest⟩ := pieces_lead h [0]
    exact ⟨hrest, _, _, hpieces, tail_terminated _ _, .dropped hsend hok⟩
  | reset =>
    have hz := rest_notMem (d := 0) w.accepted
    have hpieces : pieces 0 (rest 0 w.accepted ++ [0, 0]) = [rest 0 w.accepted, []] := by
      rw [pieces_append_delim hz]
      rfl
    refine ⟨?_, ?_⟩
    · rw [wire, rest_append, rest_append_delim hz]
      rfl
    · rw [wire, hpieces]
      by_cases hq : rest 0 w.accepted = []
      · refine ⟨[], [[], []], by rw [hq]; rfl, .inl rfl, .reset hsend hok ?_⟩
        rw [hw, hq]
      · refine ⟨[rest 0 w.accepted], [[]], rfl, .inr ⟨?_, 0, ?_⟩, .resetInside hsend hok ?_⟩
        · by_contra hr
          exact hq (h.ends (Bool.eq_false_iff.mpr hr))
        · rw [if_neg hq]
          rfl
        · rw [hw]
          exact hq

/-! ### Runs -/

/-- The frames that calls add to the stream are those of their blocks, after what they add to the
block of an earlier call. -/
def Explained (cobs : Cobs) (max : ℕ) (w final : Writer) (records : List Record) : Prop :=
  ∃ chunk tail blocks, final.accepted = w.accepted ++ chunk ∧
    pieces 0 (rest 0 w.accepted ++ chunk) = tail ++ blocks.flatten ∧
    Tail w.resync (rest 0 w.accepted) tail ∧ List.Forall₂ (Block cobs max) records blocks ∧
    (rest 0 final.accepted).length ≤ max

theorem Explained.nil (h : Clean max w) : Explained cobs max w w [] := by
  refine ⟨[], [], [], (List.append_nil _).symm, ?_, .inl rfl, .nil, h.short⟩
  rw [List.append_nil, pieces_of_notMem (rest_notMem _)]
  rfl

/-- Whatever later calls add to it, the call has a block. -/
def Adds (cobs : Cobs) (max : ℕ) (w w' : Writer) (record : Record) (bytes : Bytes) : Prop :=
  ∀ tail', Tail w'.resync (rest 0 w'.accepted) tail' →
    ∃ tail block, pieces 0 (rest 0 w.accepted ++ bytes) ++ tail' = tail ++ block ∧
      Tail w.resync (rest 0 w.accepted) tail ∧ Block cobs max record block

/-- One call more in front. -/
theorem Explained.cons {final : Writer} {records : List Record} {record : Record} {bytes : Bytes}
    (hacc : w'.accepted = w.accepted ++ bytes) (hblock : Adds cobs max w w' record bytes)
    (h : Explained cobs max w' final records) : Explained cobs max w final (record :: records) := by
  obtain ⟨chunk, tail', blocks, hfinal, hpieces, htail', hall, hshort⟩ := h
  obtain ⟨tail, block, hcut, htail, hb⟩ := hblock tail' htail'
  refine ⟨bytes ++ chunk, tail, block :: blocks, ?_, ?_, htail, .cons hb hall, hshort⟩
  · rw [hfinal, hacc, List.append_assoc]
  · rw [pieces_accepted, ← hacc, hpieces, ← List.append_assoc, hcut, List.append_assoc,
      List.flatten_cons]

theorem calls_explained (hc : cobs.Lawful) (hmax : 0 < max) :
    ∀ (cs : List FrameWriter.Call) {w : Writer}, FrameWriter.Good max w → Clean max w →
      Explained cobs max w (w.calls cobs max cs).1 (w.calls cobs max cs).2
  | [], _, _, h => .nil h
  | c :: cs, w, hg, h => by
    have hcall := call_spec hc hmax hg c
    unfold Writer.calls
    generalize w.call cobs max c = called at hcall ⊢
    obtain ⟨w', result⟩ := called
    dsimp only at hcall ⊢
    cases hcall with
    | refused hp hbig =>
      refine .cons (List.append_nil _).symm ?_ (calls_explained hc hmax cs hg h)
      intro tail' ht
      refine ⟨tail', [], ?_, ht, .refused rfl rfl⟩
      rw [List.append_nil, List.append_nil, pieces_of_notMem (rest_notMem _)]
      rfl
    | sent hfit hg' hacc hr =>
      obtain ⟨hrest, tail, block, hpieces, htail, hb⟩ :=
        block_sent hc h ⟨c.send, w, w', some (.ok ())⟩ rfl rfl hfit
      have hclean : Clean max w' := by
        rw [← hacc] at hrest
        exact ⟨fun _ => hrest, by rw [hrest]; exact Nat.zero_le _⟩
      refine .cons hacc ?_ (calls_explained hc hmax cs hg' hclean)
      rintro tail' (rfl | ⟨ht, -⟩)
      · exact ⟨tail, block, by rw [List.append_nil]; exact hpieces, htail, hb⟩
      · rw [hr] at ht
        cases ht
    | @failed _ bytes _ hfit hg' hacc hp hr hres =>
      have hclean : Clean max w' := by
        obtain ⟨-, -, -, -, -, hshort⟩ :=
          block_failed hc h ⟨c.send, w, w', result⟩ hres hfit hp (.inl rfl)
        rw [← hacc] at hshort
        exact ⟨fun hn => (by rw [hr] at hn; cases hn), hshort⟩
      have hadds : Adds cobs max w w' ⟨c.send, w, w', result⟩ bytes := by
        intro tail' ht
        rw [hr, hacc] at ht
        obtain ⟨tail, block, hcut, htail, hb, -⟩ := 
          block_failed hc h ⟨c.send, w, w', result⟩ hres hfit hp ht
        exact ⟨tail, block, hcut, htail, hb⟩
      cases result with
      | none => exact .cons hacc hadds (.nil hclean)
      | some result => exact .cons hacc hadds (calls_explained hc hmax cs hg' hclean)

/-! ### What the reader returns -/

/-- **What a call contributes** to the results of the reader. -/
inductive Contributes (cobs : Cobs) (max : ℕ) (record : Record) :
    List (Except TransportError (Option Bytes)) → Prop
  | packet {p : Bytes} : record.send = .packet p → record.result = some (.ok ()) →
      Contributes cobs max record [.ok (some p)]
  | dropped : record.send = .dropped → record.result = some (.ok ()) →
      Contributes cobs max record [.ok none]
  | reset : record.send = .reset → record.result = some (.ok ()) →
      rest 0 record.before.accepted = [] → Contributes cobs max record [.ok none, .ok none]
  | resetInside : record.send = .reset → record.result = some (.ok ()) →
      rest 0 record.before.accepted ≠ [] → Contributes cobs max record [.ok none]
  | refused {size : ℕ} : record.result = some (.error (.frameTooLarge size)) →
      record.after = record.before → Contributes cobs max record []
  | failed (k : ℕ) : Failed record.result →
      Contributes cobs max record (List.replicate k (.ok none))
  | cut {p c : Bytes} (k : ℕ) : Failed record.result → record.send = .packet p → c ≠ [] →
      c <+: cobs.encode p →
      Contributes cobs max record
        (report max cobs.decode (.piece c) :: List.replicate k (.ok none))

theorem report_encode (hc : cobs.Lawful) (p : Bytes) :
    report max cobs.decode (.piece (cobs.encode p)) = .ok (some p) := by
  obtain ⟨b, bs, hcons⟩ := List.exists_cons_of_ne_nil (hc.encode_ne_nil p)
  have hd := hc.decode_encode p
  rw [hcons] at hd ⊢
  rw [report, hd]
  simp

/-- A block within the limit gives what the call contributes. -/
theorem contributes_of_block (hc : cobs.Lawful) {record : Record} {block : List Bytes}
    (h : Block cobs max record block) :
    (∀ p ∈ block, p.length ≤ max) ∧
      Contributes cobs max record (block.map fun p => report max cobs.decode (.piece p)) := by
  have hempty : ∀ k, (List.replicate k []).map (fun p => report max cobs.decode (.piece p)) =
      List.replicate k (.ok none) := by
    intro k
    rw [List.map_replicate]
    rfl
  have hshort : ∀ k, ∀ p ∈ List.replicate k ([] : Bytes), p.length ≤ max := by
    intro k p hp
    rw [List.eq_of_mem_replicate hp]
    exact Nat.zero_le max
  cases h with
  | packet hsend hok hlen =>
    rw [List.map_singleton, report_encode hc]
    exact ⟨by simpa using hlen, .packet hsend hok⟩
  | dropped hsend hok => exact ⟨by simp, .dropped hsend hok⟩
  | reset hsend hok hq => exact ⟨by simp, .reset hsend hok hq⟩
  | resetInside hsend hok hq => exact ⟨by simp, .resetInside hsend hok hq⟩
  | refused hres hkeep => exact ⟨by simp, .refused hres hkeep⟩
  | failed k hf =>
    rw [hempty]
    exact ⟨hshort k, .failed k hf⟩
  | cut k hf hsend hne hp hlen =>
    rw [List.map_cons, hempty]
    refine ⟨?_, .cut k hf hsend hne hp⟩
    rw [List.forall_mem_cons]
    exact ⟨hp.length_le.trans hlen, hshort k⟩

theorem contributes_of_blocks (hc : cobs.Lawful) {records : List Record}
    {blocks : List (List Bytes)} (h : List.Forall₂ (Block cobs max) records blocks) :
    (∀ p ∈ blocks.flatten, p.length ≤ max) ∧
      List.Forall₂ (Contributes cobs max) records
        (blocks.map (List.map fun p => report max cobs.decode (.piece p))) := by
  induction h with
  | nil => exact ⟨by simp, .nil⟩
  | cons hb _ ih =>
    obtain ⟨hlen, hcon⟩ := contributes_of_block hc hb
    refine ⟨?_, .cons hcon ih.2⟩
    rw [List.flatten_cons, List.forall_mem_append]
    exact ⟨hlen, ih.1⟩

/-- Frames within the limit. -/
theorem frames_of_short {bytes : Bytes} (hp : ∀ p ∈ pieces 0 bytes, p.length ≤ max)
    (hr : (rest 0 bytes).length ≤ max) : frames 0 max bytes = (pieces 0 bytes).map .piece := by
  rw [frames, overflowing, if_pos hr, List.append_nil]
  refine List.map_congr_left fun p hmem => ?_
  rw [classify, if_pos (hp p hmem)]

/-- **Recovery delimiters keep successful frames intact.** Whatever the adapter and the clock did
during any calls on a fresh writer, what each call contributes is, in the order of the calls: for a
successful one what it meant to send, for a failed one at most one nonempty frame, a prefix of its
encoded frame, and empty frames, for a refused one nothing.

A fresh reader of the accepted bytes returns this when it has got them all and returned their end.
Whatever happened to it, later calls get there that nothing stops, if the adapter hands over some
bytes in every read. -/
theorem recovery (hc : cobs.Lawful) (hmax : 0 < max) (cs : List FrameWriter.Call) :
    let bytes := ((Writer.new max).calls cobs max cs).1.accepted
    ∃ blocks, List.Forall₂ (Contributes cobs max) ((Writer.new max).calls cobs max cs).2 blocks ∧
      ∀ reads : List FrameReader.Call,
        let reader := ((Reader.new max bytes).calls max cobs.decode reads).1
        let results := ((Reader.new max bytes).calls max cobs.decode reads).2
        (reader.supply = [] → results.length = reads.length →
          results.getLast? = some (.error .terminated) → nonIo results = blocks.flatten) ∧
        ∀ later, (∀ c ∈ later, Patient (2 * bytes.length + 3) c) → bytes.length < later.length →
          nonIo results ++ nonIo (reader.calls max cobs.decode later).2 = blocks.flatten := by
  intro bytes
  obtain ⟨chunk, tail, blocks, hacc, hpieces, htail, hall, hshort⟩ :=
    calls_explained hc hmax cs (FrameWriter.good_new max) (clean_new max)
  obtain ⟨hlens, hcon⟩ := contributes_of_blocks hc hall
  have htail' : tail = [] := by
    rcases htail with h | ⟨h, -⟩
    · exact h
    · cases h
  have hbytes : pieces 0 bytes = blocks.flatten := by
    rw [htail', List.nil_append] at hpieces
    show pieces 0 ((Writer.new max).calls cobs max cs).1.accepted = _
    rw [hacc]
    exact hpieces
  have hframes : (frames 0 max bytes).map (report max cobs.decode) =
      (blocks.map fun block => block.map fun p => report max cobs.decode (.piece p)).flatten := by
    rw [frames_of_short (by rwa [hbytes]) hshort, hbytes, List.map_map, List.map_flatten]
    rfl
  refine ⟨_, hcon, fun reads => ⟨fun hsup hlen hlast => ?_, fun later hpatient hmany => ?_⟩⟩
  · rw [calls_complete cobs.decode hsup hlen hlast, hframes]
  · have hmany' : (frames 0 max bytes).length < later.length :=
      (length_frames_le bytes).trans_lt hmany
    obtain ⟨-, -, hall'⟩ := calls_later cobs.decode reads hpatient hmany'
    exact hall'.trans hframes

/-! ### A run -/

/-- An adapter that writes and flushes in time, with these answers to its writes. -/
def answering (answers : List (Except IoError ℕ)) (flush : Except IoError Unit) : Output where
  now := 0
  admitted := true
  setter := .ok ()
  turns := answers.map fun answer => ⟨0, true, answer⟩
  flushNow := 0
  flushAdmitted := true
  flush := flush
  finished := 0

/-- A packet cut by an error, one sent in two writes, a reset, an oversized packet, a drop signal
whose flush fails, and one more packet. -/
def interrupted : List FrameWriter.Call :=
  [⟨.packet [1, 0, 2], 9, answering [.ok 3, .error ⟨.other 0, "broken pipe"⟩] (.ok ())⟩,
    ⟨.packet [7], 9, answering [.ok 1, .error ⟨.interrupted, "again"⟩, .ok 9] (.ok ())⟩,
    ⟨.reset, 9, answering [.ok 2] (.ok ())⟩,
    ⟨.packet [1, 2, 3, 4, 5, 6, 7, 8], 9, answering [] (.ok ())⟩,
    ⟨.dropped, 9, answering [.ok 1] (.error ⟨.other 1, "lost"⟩)⟩,
    ⟨.packet [9], 9, answering [.ok 4] (.ok ())⟩]

/-- The reader gets three bytes at a time. -/
theorem recovery_interrupted :
    ((Writer.new 8).calls .standard 8 interrupted).1.accepted =
        [2, 1, 2, 0, 2, 7, 0, 0, 0, 0, 0, 2, 9, 0] ∧
      ∃ blocks, List.Forall₂ (Contributes .standard 8)
          ((Writer.new 8).calls .standard 8 interrupted).2 blocks ∧
        blocks.flatten = [.error (.frameDecodingFailed "truncated group"), .ok (some [7]), .ok none,
          .ok none, .ok none, .ok none, .ok (some [9])] := by
  refine ⟨rfl, ?_⟩
  have hpatient : ∀ c ∈ List.replicate 15 (steady 3 31), Patient 31 c := by
    intro c hc
    rw [List.eq_of_mem_replicate hc]
    exact patient_steady (Nat.succ_pos 2) 31
  have hmax : 0 < 8 := by decide
  obtain ⟨blocks, hall, hreads⟩ := recovery Cobs.standard_lawful hmax interrupted
  have hres := (hreads []).2 (List.replicate 15 (steady 3 31)) hpatient (by decide)
  exact ⟨blocks, hall, hres.symm.trans rfl⟩

end ArkWire.Transport.Recovery
