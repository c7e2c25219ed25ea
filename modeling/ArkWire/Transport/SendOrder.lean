import ArkWire.Transport.Numbering

/-! # Wire order equals sealing order

The packets of a session whose send returned `Ok` are the first ones written, and the written ones
are the first ones sealed, with the numbers from zero on. Once a packet was lost none follows. A
message refused for its size takes no number and ends nothing. -/

namespace ArkWire.Transport.SendOrder

open ArkWire.Lib.Machines ArkWire.Lib.Histories
open ArkWire.Transport.Errors ArkWire.Transport.FrameReader ArkWire.Transport.FrameWriter
open ArkWire.Transport.Outbound ArkWire.Transport.Numbering

variable {K : Type} {cfg : Config K} {s s' : State K}

/-- The packets of a context whose `Sender::send` returned `Ok`, in order. -/
def sent (c : ℕ) (log : List Event) : List Packet :=
  ((resolved c log).filter (·.2 = .sent)).map (·.1)

/-! ### The order in a history -/

section Order

variable {c : ℕ} {log : List Event}

theorem mem_sealed {p : Packet} {message : Bytes} (h : .sealed p message ∈ log) :
    p ∈ sealed p.context log := by
  refine List.mem_filter.mpr ⟨?_, by simp⟩
  exact List.mem_filterMap.mpr ⟨_, h, rfl⟩

/-- Packets are numbered in the order they are sealed. -/
theorem sealed_numbers (h : Legal InOrder log) :
    (sealed c log).map (·.seq) = List.range (sealed c log).length := by
  induction log using List.reverseRecOn with
  | nil => rfl
  | append_singleton log e ih =>
    have hrule := h log e [] rfl
    rw [sealed_append]
    cases hs : seals e with
    | none =>
      simp only [Option.toList_none, List.filter_nil, List.append_nil]
      exact ih h.of_append
    | some p =>
      by_cases hc : p.context = c
      · have hseq : p.seq = (sealed c log).length := by
          cases e <;> cases hs
          rw [← hc]
          exact hrule
        simp [hc, ih h.of_append, hseq, List.range_succ]
      · simp [hc, ih h.of_append]

/-- The packet of a number. -/
theorem sealed_getElem (h : Legal InOrder log) {p : Packet} {message : Bytes}
    (hp : .sealed p message ∈ log) : (sealed p.context log)[p.seq]? = some p := by
  obtain ⟨i, hi⟩ := List.mem_iff_getElem?.mp (mem_sealed hp)
  have hnum : ((sealed p.context log).map (·.seq))[i]? = some p.seq := by
    rw [List.getElem?_map, hi]
    rfl
  rw [sealed_numbers h] at hnum
  have hpi : p.seq = i := by
    obtain ⟨hlt, heq⟩ := List.getElem?_eq_some_iff.mp hnum
    rw [← heq, List.getElem_range]
  rw [hpi, hi]

theorem sent_length (h : Unbroken c log) : (sent c log).length = (resolved c log).length := by
  have hall : (resolved c log).filter (·.2 = .sent) = resolved c log :=
    List.filter_eq_self.mpr fun f hf => by simp [h f hf]
  rw [sent, List.length_map, hall]

theorem sent_append (e : Event) : sent c (log ++ [e]) = sent c log ++
    ((((resolves e).toList.filter (·.1.context = c)).filter (·.2 = .sent)).map (·.1)) := by
  rw [sent, resolved_append, List.filter_append, List.map_append, sent]

/-- A prefix is extended by the next element. -/
theorem prefix_snoc {l whole : List Packet} {p : Packet} (h : l <+: whole)
    (hp : whole[l.length]? = some p) : l ++ [p] <+: whole := by
  obtain ⟨hlt, heq⟩ := List.getElem?_eq_some_iff.mp hp
  rw [← heq]
  exact List.concat_get_prefix h hlt

/-- What is sent was written, and what is written was sealed, in the same order. -/
structure Ordered (c : ℕ) (log : List Event) : Prop where
  reported : sent c log <+: written c log
  onWire : written c log <+: sealed c log
  /-- At most one packet is written and not reported yet, or lost. -/
  ahead : (written c log).length ≤ (sent c log).length + 1

/-- An event that neither writes nor reports a packet of the context as sent. -/
theorem Ordered.skip (h : Ordered c log) {e : Event}
    (hw : (writes e).toList.filter (·.context = c) = [])
    (hr : ((resolves e).toList.filter (·.1.context = c)).filter (·.2 = .sent) = []) :
    Ordered c (log ++ [e]) := by
  have hsent : sent c (log ++ [e]) = sent c log := by
    rw [sent_append, hr]
    simp
  have hwritten : written c (log ++ [e]) = written c log := by
    rw [written_append, hw, List.append_nil]
  refine ⟨by rw [hsent, hwritten]; exact h.reported, ?_, by rw [hsent, hwritten]; exact h.ahead⟩
  rw [hwritten, sealed_append]
  exact h.onWire.trans (List.prefix_append _ _)

theorem Ordered.write (h : Ordered c log) (hl : Legal InOrder log) {p : Packet} {bytes : Bytes}
    (hc : p.context = c) (hn : Next p log) (hlen : (written p.context log).length = p.seq) :
    Ordered c (log ++ [.wrote (.packet p) bytes]) := by
  subst hc
  obtain ⟨message, hm⟩ := hn.sealed
  have hwritten : written p.context (log ++ [.wrote (.packet p) bytes]) =
      written p.context log ++ [p] := by
    rw [written_append]
    simp [writes]
  have hsent : sent p.context (log ++ [.wrote (.packet p) bytes]) =
      sent p.context log := by
    rw [sent_append]
    simp [resolves]
  have hsealed : sealed p.context (log ++ [.wrote (.packet p) bytes]) = sealed p.context log := by
    rw [sealed_append]
    simp [seals]
  refine ⟨?_, ?_, ?_⟩
  · rw [hsent, hwritten]
    exact h.reported.trans (List.prefix_append _ _)
  · rw [hwritten, hsealed]
    refine prefix_snoc h.onWire ?_
    rw [hlen]
    exact sealed_getElem hl hm
  · have hcount := sent_length hn.unbroken
    rw [hsent, hwritten, List.length_append, hcount, hlen, hn.seq]
    rfl

theorem Ordered.report (h : Ordered c log) (hl : Legal InOrder log) {p : Packet}
    (hc : p.context = c) (hn : Next p log) (hlen : (written p.context log).length = p.seq + 1) :
    Ordered c (log ++ [.sent p]) := by
  subst hc
  obtain ⟨message, hm⟩ := hn.sealed
  have hwritten : written p.context (log ++ [.sent p]) =
      written p.context log := by
    rw [written_append]
    simp [writes]
  have hsent : sent p.context (log ++ [.sent p]) = sent p.context log ++ [p] := by
    rw [sent_append]
    simp [resolves]
  have hcount : (sent p.context log).length = p.seq := by
    rw [sent_length hn.unbroken, hn.seq]
  -- the last written packet has this number, so it is this packet
  have hlast : (written p.context log)[p.seq]? = some p := by
    have hlt : p.seq < (written p.context log).length := by omega
    rw [List.getElem?_eq_getElem hlt, h.onWire.getElem hlt, ← List.getElem?_eq_getElem]
    exact sealed_getElem hl hm
  refine ⟨?_, ?_, ?_⟩
  · rw [hsent, hwritten]
    refine prefix_snoc h.reported ?_
    rw [hcount, hlast]
  · rw [hwritten, sealed_append]
    exact h.onWire.trans (List.prefix_append _ _)
  · rw [hsent, hwritten, List.length_append]
    have := h.ahead
    omega

theorem ordered_of_legal (h : Legal InOrder log) : Ordered c log := by
  induction log using List.reverseRecOn with
  | nil => exact ⟨List.prefix_rfl, List.prefix_rfl, Nat.zero_le _⟩
  | append_singleton log e ih =>
    have hrule := h log e [] rfl
    have hprev := ih h.of_append
    cases e with
    | wrote job bytes =>
      cases job with
      | packet p =>
        by_cases hc : p.context = c
        · exact hprev.write h.of_append hc hrule.1 hrule.2
        · exact hprev.skip (by simp [writes, hc]) (by simp [resolves])
      | _ => exact hprev.skip (by simp [writes]) (by simp [resolves])
    | sent p =>
      by_cases hc : p.context = c
      · exact hprev.report h.of_append hc hrule.1 hrule.2
      · exact hprev.skip (by simp [writes]) (by simp [resolves, hc])
    | failed p => exact hprev.skip (by simp [writes]) (by simp [resolves, List.filter_filter])
    | refused p => exact hprev.skip (by simp [writes]) (by simp [resolves, List.filter_filter])
    | _ => exact hprev.skip (by simp [writes]) (by simp [resolves])

/-- After a lost packet none is written. -/
theorem silent_of_lost (h : Legal InOrder log) {pre post : List Event} {e : Event} {p : Packet}
    (hsplit : log = pre ++ e :: post) (he : e = .refused p ∨ e = .failed p) (q : Packet)
    (bytes : Bytes) (hq : q.context = p.context) : .wrote (.packet q) bytes ∉ post := by
  intro hmem
  obtain ⟨mid, later, -, hrule⟩ := h.after hsplit hmem
  have hunbroken : Unbroken p.context (pre ++ e :: mid) := by
    rw [← hq]
    exact hrule.1.unbroken
  obtain ⟨fate, hr, hne⟩ : ∃ fate, resolves e = some (p, fate) ∧ fate ≠ .sent := by
    rcases he with rfl | rfl
    · exact ⟨.refused, rfl, by decide⟩
    · exact ⟨.failed, rfl, by decide⟩
  refine hne (hunbroken (p, fate) (List.mem_filter.mpr ⟨?_, by simp⟩))
  exact List.mem_filterMap.mpr ⟨e, by simp, hr⟩

end Order

/-- The numbers of the packets of a prefix of the sealed ones. -/
theorem numbers_of_take {c : ℕ} {log : List Event} (h : Legal InOrder log) {l : List Packet}
    (hl : l <+: sealed c log) : l.map (·.seq) = List.range l.length := by
  have hle := hl.length_le
  have htake : l.map (·.seq) = ((sealed c log).map (·.seq)).take l.length := by
    rw [← List.map_take, List.prefix_iff_eq_take.mp hl, List.length_take, min_eq_left hle]
  rw [htake, sealed_numbers h, List.take_range, min_eq_left hle]

/-! ### Messages refused for their size -/

/-- A thread in a `Sender::send` of a message over the limit, under the encryption lock. -/
def Oversized (cfg : Config K) : Pc K → Prop
  | .sealing _ message => cfg.maxMessage < message.length
  | .refuse _ _ => True
  | _ => False

/-- What a step of such a thread leaves alone, and where it gets to. -/
structure Refusal (cfg : Config K) (s s' : State K) (t : ℕ) : Prop where
  seqs : s'.contexts.map (·.seq) = s.contexts.map (·.seq)
  binding : s'.binding = s.binding
  framer : s'.framer = s.framer
  errs : Oversized cfg (s'.threads t) ∨ ∃ error, s'.threads t = .idle (.sent (.error error))

theorem refusal_step {framer : Writer} {t budget : ℕ} {o : Output}
    (h : Oversized cfg (s.threads t))
    (hs : (outbound cfg framer).step s (.advance t budget o) = .next s') : Refusal cfg s s' t := by
  change s.advance cfg t budget o (s.threads t) = .next s' at hs
  cases hpc : s.threads t with
  | sealing c message =>
    rw [hpc] at h hs
    have hlen : cfg.maxMessage < message.length := h
    dsimp only [State.advance] at hs
    split at hs
    · cases hs
    · rw [if_pos hlen] at hs
      cases hs
      refine ⟨rfl, rfl, rfl, .inl ?_⟩
      show Oversized cfg (Function.update s.threads t _ t)
      rw [Function.update_self]
      trivial
  | refuse c size =>
    rw [hpc] at hs
    cases hs
    refine ⟨?_, rfl, rfl, .inr ⟨_, Function.update_self ..⟩⟩
    show (s.contexts.modify c _).map (·.seq) = s.contexts.map (·.seq)
    refine List.ext_getElem? fun i => ?_
    rw [List.getElem?_map, List.getElem?_map, List.getElem?_modify]
    cases s.contexts[i]? with
    | none => rfl
    | some x => by_cases hi : c = i <;> simp [hi]
  | _ =>
    rw [hpc] at h
    cases h

/-! ### The order of any run -/

/-- **Wire order equals sealing order, with no gap.** In any interleaving of the lock steps of any
number of senders with ends, disconnects, bindings and failing writes: the packets whose send
returned `Ok` carry the numbers from zero on and are the first that were written, in that order, and
these the first that were sealed. Once a packet was refused or its write failed, no packet of its
session reaches the adapter. Every number a context hands out goes to a sealed packet, and a message
refused for its size changes no sequence number, no binding and no byte of the stream. -/
theorem sendOrder {framer : Writer} (h : (outbound cfg framer).Reachable s) :
    (∀ c, (sent c s.log).map (·.seq) = List.range (sent c s.log).length ∧
      sent c s.log <+: written c s.log ∧ written c s.log <+: sealed c s.log ∧
      (sealed c s.log).map (·.seq) = List.range (sealed c s.log).length) ∧
    (∀ pre e post p, s.log = pre ++ e :: post → e = .refused p ∨ e = .failed p →
      ∀ q bytes, q.context = p.context → .wrote (.packet q) bytes ∉ post) ∧
    (∀ c x, s.contexts[c]? = some x → x.seq = (sealed c s.log).length) ∧
    ∀ t budget o s', Oversized cfg (s.threads t) →
      (outbound cfg framer).step s (.advance t budget o) = .next s' → Refusal cfg s s' t := by
  have hc := counts_reachable h
  refine ⟨fun c => ?_, fun pre e post p hsplit he q bytes hq => ?_, fun c x hx => ?_,
    fun t budget o s' ht hs => refusal_step ht hs⟩
  · have ho := ordered_of_legal (c := c) hc.legal
    exact ⟨numbers_of_take hc.legal (ho.reported.trans ho.onWire), ho.reported, ho.onWire,
      sealed_numbers hc.legal⟩
  · exact silent_of_lost hc.legal hsplit he q bytes hq
  · exact (hc.sealed c x hx).symm

/-- A thread goes on, with an adapter that fails. -/
def stepFailing (t : ℕ) : Action UInt8 :=
  .advance t 9 ⟨0, true, .ok (), [⟨0, true, .error ⟨.writeZero, ""⟩⟩], 0, true, .ok (), 0⟩

/-- Two messages are sealed before the first is written, a third is too large, and the write of the
second fails. -/
def handoff : List (Action UInt8) :=
  [.call 0 (.locked (.bind 5)), step 0, step 0, .call 1 (.send 0 [1]), step 1, step 1,
    step 1, step 1, .call 2 (.send 0 [2]), step 2, step 2, step 1, step 1, step 1, step 2, step 2,
    .call 3 (.send 0 [1, 2, 3, 4, 5]), step 3, step 3, step 3, step 2, stepFailing 2, step 2,
    step 2, step 2, step 2]

theorem sendOrder_handoff :
    ∃ s pre post, (outbound (toyConfig .server) (.new 8)).run handoff { framer := .new 8 } =
      some s ∧
      s.log = pre ++ .failed ⟨0, 1, [5, 1, 2]⟩ :: post ∧
      post = [.removed 0 .failed, .wrote (.notification (some 0)
        (some (.sendFailed ⟨.writeZero, ""⟩))) [0, 0]] ∧
      (sent 0 s.log).map (·.seq) = [0] ∧ sent 0 s.log <+: written 0 s.log ∧
      ∀ q bytes, Packet.context q = 0 → .wrote (.packet q) bytes ∉ post := by
  obtain ⟨s, hr, hl⟩ : ∃ s,
      (outbound (toyConfig .server) (.new 8)).run handoff { framer := .new 8 } = some s ∧
      s.log = [.bound 0, .sealed ⟨0, 0, [5, 0, 1]⟩ [1], .sealed ⟨0, 1, [5, 1, 2]⟩ [2],
        .wrote (.packet ⟨0, 0, [5, 0, 1]⟩) [2, 5, 2, 1, 0], .sent ⟨0, 0, [5, 0, 1]⟩, .oversized 0,
        .wrote (.packet ⟨0, 1, [5, 1, 2]⟩) []] ++ .failed ⟨0, 1, [5, 1, 2]⟩ ::
        [.removed 0 .failed, .wrote (.notification (some 0)
          (some (.sendFailed ⟨.writeZero, ""⟩))) [0, 0]] :=
    ⟨_, rfl, rfl⟩
  obtain ⟨horder, hlost, -⟩ := sendOrder (Machine.reachable_of_run hr)
  refine ⟨s, _, _, hr, hl, rfl, ?_, (horder 0).2.1, fun q bytes hq => ?_⟩
  · rw [(horder 0).1, hl]
    rfl
  · exact hlost _ _ _ ⟨0, 1, [5, 1, 2]⟩ hl (.inr rfl) q bytes hq

end ArkWire.Transport.SendOrder
