import ArkWire.Transport.Flow
import ArkWire.Transport.Pair

/-! # The sessions of an inbox, between two endpoints

`Recorded` says of every session an inbox has a record of that it was bound at this side, and that
message `i` returned in it is one the peer sealed in the same context as its packet number `i`. The
operations of an inbox keep it. `Broken` are the sessions with a frame that was not the next packet.

The last section says what the ideal cryptography of a pair gives: a packet opens exactly if it was
sealed, and a fresh packet is none of the frames before it. -/

namespace ArkWire.Transport.Ledger

open ArkWire.Lib.Machines ArkWire.Lib.Delimited
open ArkWire.Transport.Errors ArkWire.Transport.FrameReader
open ArkWire.Transport.FrameWriter hiding Good good_new
open ArkWire.Transport.Grammar (report)
open ArkWire.Transport.Outbound ArkWire.Transport.OutboundSteps ArkWire.Transport.Endpoint
open ArkWire.Transport.Hearing (sessions Live)
open ArkWire.Transport.Flow (SealedAs Before)
open ArkWire.Transport.Pair

variable {o o' p p' : State Transcript} {b b' : Inbox} {key : Transcript}

/-- A session of the key had a frame that was not the next packet. -/
def Broken (b : Inbox) (key : Transcript) : Prop :=
  ∃ h ∈ sessions b, h.key = key ∧ h.status = .broken

/-- What the status of the current session says, when `seq` is the receiver's number. -/
def Counted (p : State Transcript) (h : Heard) (seq : ℕ) : Prop :=
  match h.status with
  | .live => h.delivered.length = seq
  | .opened message => h.delivered.length + 1 = seq ∧
      ∃ packet, SealedAs p h.key h.delivered.length packet message
  | _ => True

/-- The messages returned in a session are the peer's, by their numbers. -/
def Told (p : State Transcript) (h : Heard) : Prop :=
  ∀ i message, h.delivered[i]? = some message → ∃ packet, SealedAs p h.key i packet message

/-- The session was bound at this side. -/
def Bound (o : State Transcript) (h : Heard) : Prop :=
  ∃ x, o.contexts[h.context]? = some x ∧ x.key = h.key

/-- **The records of an inbox are true**, for this side's outbound transport and the peer's. -/
structure Recorded (o p : State Transcript) (b : Inbox) : Prop where
  receives : ∀ rx, b.receiver = some rx → ∃ h, b.current = some h
  current : ∀ h, b.current = some h →
    ∃ rx, b.receiver = some rx ∧ rx.key = h.key ∧ Counted p h rx.seq
  bound : ∀ h ∈ sessions b, Bound o h
  told : ∀ h ∈ sessions b, Told p h

/-! ### Both sides go on -/

/-- What was sealed stays sealed. -/
theorem SealedAs.mono (hlog : p.log ⊆ p'.log) (hkeys : KeepsKeys p p') {seq : ℕ}
    {packet message : Bytes} (h : SealedAs p key seq packet message) :
    SealedAs p' key seq packet message := by
  obtain ⟨c, x, hx, hkey, hmem⟩ := h
  obtain ⟨x', hx', hkey'⟩ := hkeys c x hx
  exact ⟨c, x', hx', by rw [hkey', hkey], hlog hmem⟩

theorem Bound.mono (hkeys : KeepsKeys o o') {h : Heard} (hb : Bound o h) : Bound o' h := by
  obtain ⟨c, hc, hkey⟩ := hb
  obtain ⟨c', hc', hkey'⟩ := hkeys _ c hc
  exact ⟨c', hc', by rw [hkey', hkey]⟩

theorem Recorded.mono (h : Recorded o p b) (hown : KeepsKeys o o') (hlog : p.log ⊆ p'.log)
    (hkeys : KeepsKeys p p') : Recorded o' p' b := by
  refine ⟨h.receives, fun x hx => ?_, fun x hx => (h.bound x hx).mono hown,
    fun x hx i message hi => ?_⟩
  · obtain ⟨rx, hrx, hkey, hcount⟩ := h.current x hx
    refine ⟨rx, hrx, hkey, ?_⟩
    unfold Counted at hcount ⊢
    split
    · next hst =>
      rw [hst] at hcount
      exact hcount
    · next hst =>
      rw [hst] at hcount
      obtain ⟨hlen, packet, hsealed⟩ := hcount
      exact ⟨hlen, packet, SealedAs.mono hlog hkeys hsealed⟩
    · trivial
  · obtain ⟨packet, hsealed⟩ := h.told x hx i message hi
    exact ⟨packet, SealedAs.mono hlog hkeys hsealed⟩

/-! ### The operations of an inbox -/

theorem mem_sessions_of_current {h : Heard} (hc : b.current = some h) : h ∈ sessions b := by
  unfold sessions
  rw [hc]
  simp

/-- Only the current session is changed. -/
theorem mem_sessions_map {f : Heard → Heard} (hp : b'.past = b.past)
    (hc : b'.current = b.current.map f) {h : Heard} (hh : h ∈ sessions b') :
    h ∈ sessions b ∨ ∃ x, b.current = some x ∧ h = f x := by
  unfold sessions at hh ⊢
  rw [hp, hc, List.mem_append] at hh
  rcases hh with hh | hh
  · exact .inl (List.mem_append_left _ hh)
  · rw [Option.mem_toList, Option.map_eq_some_iff] at hh
    obtain ⟨x, hx, rfl⟩ := hh
    exact .inr ⟨x, hx, rfl⟩

theorem sessions_close (b : Inbox) : sessions b.close = sessions b := by
  unfold sessions Inbox.close
  simp

theorem recorded_new (o p : State Transcript) (reader : Reader) : Recorded o p { reader } := by
  refine ⟨fun rx h => (by cases h), fun h hh => (by cases hh), fun h hh => ?_, fun h hh => ?_⟩
  · cases hh
  · cases hh

theorem Recorded.none (h : Recorded o p b) (hr : b.receiver = none) : b.current = none := by
  cases hc : b.current with
  | none => rfl
  | some x =>
    obtain ⟨rx, hrx, -⟩ := h.current x hc
    rw [hr] at hrx
    cases hrx

theorem Recorded.no_receiver (h : Recorded o p b) (hc : b.current = .none) :
    b.receiver = .none := by
  cases hrx : b.receiver with
  | none => rfl
  | some rx =>
    obtain ⟨x, hx⟩ := h.receives rx hrx
    rw [hc] at hx
    cases hx

/-- The current session is the one that is received in. -/
theorem Recorded.key_eq (h : Recorded o p b) {rx : Receiver} (hrx : b.receiver = some rx)
    {x : Heard}
    (hx : b.current = some x) (hk : x.key = key) : key = rx.key := by
  obtain ⟨rx', hrx', hk', -⟩ := h.current x hx
  rw [hrx, Option.some.injEq] at hrx'
  subst hrx'
  exact (hk'.trans hk).symm

/-- The record of the current session changes with the receiver, and keeps its key and context. -/
theorem Recorded.map (h : Recorded o p b) {f : Heard → Heard} {g : Receiver → Receiver}
    (hp : b'.past = b.past) (hr : b'.receiver = b.receiver.map g)
    (hc : b'.current = b.current.map f) (hg : ∀ rx, (g rx).key = rx.key)
    (hkey : ∀ x, (f x).key = x.key) (hctx : ∀ x, (f x).context = x.context)
    (hnow : ∀ x rx, b.current = some x → b.receiver = some rx → rx.key = x.key →
      Counted p x rx.seq → Told p x → Counted p (f x) (g rx).seq ∧ Told p (f x)) :
    Recorded o p b' := by
  have hcur : ∀ x, b.current = some x → ∃ rx, b.receiver = some rx ∧ rx.key = x.key ∧
      Counted p (f x) (g rx).seq ∧ Told p (f x) := by
    intro x hx
    obtain ⟨rx, hrx, hk, hcount⟩ := h.current x hx
    exact ⟨rx, hrx, hk, hnow x rx hx hrx hk hcount (h.told x (mem_sessions_of_current hx))⟩
  refine ⟨fun rx hrx => ?_, fun x hx => ?_, fun x hx => ?_, fun x hx => ?_⟩
  · rw [hr, Option.map_eq_some_iff] at hrx
    obtain ⟨rx, hrx, -⟩ := hrx
    obtain ⟨y, hy⟩ := h.receives rx hrx
    exact ⟨f y, by rw [hc, hy]; rfl⟩
  · rw [hc, Option.map_eq_some_iff] at hx
    obtain ⟨y, hy, rfl⟩ := hx
    obtain ⟨rx, hrx, hk, hcount, -⟩ := hcur y hy
    exact ⟨g rx, by rw [hr, hrx]; rfl, by rw [hg, hk, hkey], hcount⟩
  · rcases mem_sessions_map hp hc hx with hx | ⟨y, hy, rfl⟩
    · exact h.bound x hx
    · obtain ⟨c, hc, hck⟩ := h.bound y (mem_sessions_of_current hy)
      exact ⟨c, by rw [hctx]; exact hc, by rw [hkey, hck]⟩
  · rcases mem_sessions_map hp hc hx with hx | ⟨y, hy, rfl⟩
    · exact h.told x hx
    · obtain ⟨rx, -, -, -, htold⟩ := hcur y hy
      exact htold

theorem Recorded.feed (h : Recorded o p b) (bytes : Bytes) : Recorded o p (b.feed bytes) :=
  h.map rfl Option.map_id'.symm rfl (fun _ => rfl) (fun _ => rfl) (fun _ => rfl)
    fun _ _ _ _ _ hc ht => ⟨hc, ht⟩

theorem Recorded.reader (h : Recorded o p b) (reader : Reader) :
    Recorded o p { b with reader } :=
  ⟨h.receives, h.current, h.bound, h.told⟩

/-- The session is over. -/
theorem Recorded.mark (h : Recorded o p b) {status : Status}
    (hs : status = .broken ∨ ∃ why, status = .left why) : Recorded o p (b.mark status) := by
  refine h.map (g := id) rfl Option.map_id'.symm rfl (fun _ => rfl) (fun _ => rfl)
    (fun _ => rfl) fun x rx _ _ _ _ ht => ⟨?_, ht⟩
  rcases hs with rfl | ⟨why, rfl⟩
  · trivial
  · trivial

theorem Recorded.close (h : Recorded o p b) : Recorded o p b.close := by
  refine ⟨fun rx hrx => (by cases hrx), fun x hx => (by cases hx), fun x hx => ?_, fun x hx => ?_⟩
  · rw [sessions_close] at hx
    exact h.bound x hx
  · rw [sessions_close] at hx
    exact h.told x hx

/-- A session begins in a context of its key. -/
theorem Recorded.establish (h : Recorded o p b) {c : ℕ} {x : Context Transcript}
    (hx : o.contexts[c]? = some x) (hkey : x.key = key) : Recorded o p (b.establish key c) := by
  have hmem : ∀ {y}, y ∈ sessions (b.establish key c) → y ∈ sessions b ∨
      y = { key, context := c, start := b.reader } := by
    intro y hy
    unfold sessions Inbox.establish at hy
    rw [List.mem_append] at hy
    rcases hy with hy | hy
    · exact .inl hy
    · right
      simpa using hy
  refine ⟨fun rx hrx => ⟨_, rfl⟩, fun y hy => ?_, fun y hy => ?_, fun y hy => ?_⟩
  · cases hy
    exact ⟨_, rfl, rfl, rfl⟩
  · rcases hmem hy with hy | rfl
    · exact h.bound y hy
    · exact ⟨x, hx, hkey⟩
  · rcases hmem hy with hy | rfl
    · exact h.told y hy
    · intro i message hi
      cases hi

/-- The next packet is opened. -/
theorem Recorded.opened (h : Recorded o p b) (hl : Live b) {rx : Receiver}
    (hrx : b.receiver = some rx) {packet message : Bytes}
    (hsealed : SealedAs p rx.key rx.seq packet message) :
    Recorded o p ({ b with receiver := some { rx with seq := rx.seq + 1 } }.mark
      (.opened message)) := by
  refine h.map (g := fun rx => { rx with seq := rx.seq + 1 }) rfl ?_ rfl (fun _ => rfl)
    (fun _ => rfl) (fun _ => rfl) fun x rx' hx hrx' hk hcount ht => ⟨?_, ht⟩
  · show some _ = b.receiver.map _
    rw [hrx]
    rfl
  · rw [hrx, Option.some.injEq] at hrx'
    subst hrx'
    have hlen : x.delivered.length = rx.seq := by
      rw [Counted, hl x hx] at hcount
      exact hcount
    show x.delivered.length + 1 = rx.seq + 1 ∧ _
    refine ⟨by rw [hlen], packet, ?_⟩
    show SealedAs p x.key x.delivered.length packet message
    rw [hlen, ← hk]
    exact hsealed

/-- A message is returned. -/
theorem Recorded.deliver (h : Recorded o p b) {message : Bytes}
    (ho : ∀ x, b.current = some x → x.status = .opened message) :
    Recorded o p (b.deliver message) := by
  refine h.map (g := id) rfl Option.map_id'.symm rfl (fun _ => rfl) (fun _ => rfl)
    (fun _ => rfl) fun x rx hx hrx hk hcount ht => ?_
  rw [Counted, ho x hx] at hcount
  obtain ⟨hlen, hsealed⟩ := hcount
  refine ⟨?_, fun i message' hi => ?_⟩
  · show (x.delivered ++ [message]).length = rx.seq
    rw [List.length_append]
    exact hlen
  · change (x.delivered ++ [message])[i]? = some message' at hi
    show ∃ packet, SealedAs p x.key i packet message'
    rcases Nat.lt_or_ge i x.delivered.length with hlt | hge
    · rw [List.getElem?_append_left hlt] at hi
      exact ht i message' hi
    · have hlast := (List.getElem?_eq_some_iff.mp hi).1
      rw [List.length_append, List.length_singleton] at hlast
      have hi' : i = x.delivered.length := by omega
      rw [hi', List.getElem?_concat_length, Option.some.injEq] at hi
      rw [← hi, hi']
      exact hsealed

/-! ### The messages of a context -/

/-- A packet of the context with its message. -/
def sealedIn (c : ℕ) : Event → Option (Packet × Bytes)
  | .sealed p message => if p.context = c then some (p, message) else none
  | _ => none

/-- The messages that were sealed in a context, in order. -/
def messages (c : ℕ) (log : List Event) : List Bytes := (log.filterMap (sealedIn c)).map (·.2)

theorem sealed_eq (c : ℕ) (log : List Event) :
    Numbering.sealed c log = (log.filterMap (sealedIn c)).map (·.1) := by
  induction log with
  | nil => rfl
  | cons e log ih =>
    unfold Numbering.sealed at ih ⊢
    cases e with
    | sealed p message =>
      by_cases hc : p.context = c
      · simp [Numbering.seals, sealedIn, hc, ih]
      · simp [Numbering.seals, sealedIn, hc, ih]
    | _ => exact ih

/-- **Message `i` of a context is the one that was sealed as its packet number `i`.** -/
theorem messages_of_sealed {cfg : Config Transcript} (hst : Company.Steady cfg o) {c seq : ℕ}
    {packet message : Bytes} (h : .sealed ⟨c, seq, packet⟩ message ∈ o.log) :
    (messages c o.log)[seq]? = some message := by
  have hmem : ((⟨c, seq, packet⟩ : Packet), message) ∈ o.log.filterMap (sealedIn c) :=
    List.mem_filterMap.mpr ⟨_, h, if_pos rfl⟩
  obtain ⟨i, hi⟩ := List.mem_iff_getElem?.mp hmem
  have hseq : ((Numbering.sealed c o.log).map (·.seq))[i]? = some seq := by
    rw [sealed_eq, List.map_map, List.getElem?_map, hi]
    rfl
  have hlt := (List.getElem?_eq_some_iff.mp hseq).1
  rw [List.length_map] at hlt
  rw [SendOrder.numbers_of_take hst.counts.legal List.prefix_rfl, List.getElem?_range hlt,
    Option.some.injEq] at hseq
  rw [messages, List.getElem?_map, ← hseq, hi]
  rfl

/-! ### What is read -/

theorem broken_map {f : Heard → Heard} (hp : b'.past = b.past) (hc : b'.current = b.current.map f)
    (h : Broken b' key) : Broken b key ∨
      ∃ x, b.current = some x ∧ (f x).key = key ∧ (f x).status = .broken := by
  obtain ⟨x, hx, hk, hst⟩ := h
  rcases mem_sessions_map hp hc hx with hx | ⟨y, hy, rfl⟩
  · exact .inl ⟨x, hx, hk, hst⟩
  · exact .inr ⟨y, hy, hk, hst⟩

/-- A session breaks where it is marked so. -/
theorem broken_mark {status : Status} (h : Broken (b.mark status) key) :
    Broken b key ∨ status = .broken ∧ ∃ x, b.current = some x ∧ x.key = key := by
  have hc : (b.mark status).current = b.current.map fun x => { x with status } := rfl
  rcases broken_map (show (b.mark status).past = b.past from rfl) hc h with h | ⟨x, hx, hk, hst⟩
  · exact .inl h
  · exact .inr ⟨hst, x, hx, hk⟩

theorem broken_left {why : Leave} (h : Broken (b.mark (.left why)) key) : Broken b key := by
  rcases broken_mark h with h | ⟨h, -⟩
  · exact h
  · cases h

theorem broken_close (h : Broken b.close key) : Broken b key := by
  unfold Broken at h
  rw [sessions_close] at h
  exact h

theorem broken_establish {key' : Transcript} {c : ℕ} (h : Broken (b.establish key' c) key) :
    Broken b key := by
  obtain ⟨x, hx, hk, hst⟩ := h
  unfold sessions Inbox.establish at hx
  rw [List.mem_append] at hx
  rcases hx with hx | hx
  · exact ⟨x, hx, hk, hst⟩
  · have hnew : x = { key := key', context := c, start := b.reader } := by simpa using hx
    rw [hnew] at hst
    cases hst

theorem broken_deliver {message : Bytes} (h : Broken (b.deliver message) key) : Broken b key := by
  have hc : (b.deliver message).current =
      b.current.map fun x =>
        { x with delivered := x.delivered ++ [message], status := .live } := rfl
  rcases broken_map (show (b.deliver message).past = b.past from rfl) hc h with h | ⟨x, hx, hk, hst⟩
  · exact h
  · cases hst

theorem broken_feed {bytes : Bytes} (h : Broken (b.feed bytes) key) : Broken b key := by
  have hc : (b.feed bytes).current = b.current.map fun x => { x with fed := x.fed ++ bytes } := rfl
  rcases broken_map (show (b.feed bytes).past = b.past from rfl) hc h with h | ⟨x, hx, hk, hst⟩
  · exact h
  · exact ⟨x, mem_sessions_of_current hx, hk, hst⟩

/-- A reader that has returned these frames since. -/
structure Reads (max : ℕ) (r r' : Reader) (read : List (Frame UInt8)) : Prop where
  good : Grammar.Good max r'
  kept : Grammar.Kept max r r' read

theorem reads_nothing {max : ℕ} {r : Reader} (h : Grammar.Good max r) : Reads max r r [] :=
  ⟨h, .refl _ _⟩

/-- **What a step of an owner does with the frames it reads.** Where an exchange or a session is
`held`, its next packet is the one of the number. A frame that comes then is opened, or the session
breaks. -/
inductive Takes (max : ℕ) (decode : Bytes → Except String Bytes) (opens : Opens)
    (starts : Transcript → Prop) (held held' : Transcript → ℕ → Prop) (b b' : Inbox)
    (read : List (Frame UInt8)) : Prop
  | keeps : read = [] → (∀ key seq, held' key seq → held key seq) →
      (∀ key, Broken b' key → Broken b key) → Takes max decode opens starts held held' b b' read
  | starts {key : Transcript} : read = [] → starts key →
      (∀ key' seq, held' key' seq → key' = key ∧ seq = 0) →
      (∀ key, Broken b' key → Broken b key) → Takes max decode opens starts held held' b b' read
  | outside : (∀ key seq, ¬ held' key seq) → (∀ key, Broken b' key → Broken b key) →
      Takes max decode opens starts held held' b b' read
  | opens {key : Transcript} {seq : ℕ} {f : Frame UInt8} {packet message : Bytes} : held key seq →
      read = [f] → report max decode f = .ok (some packet) → opens key seq packet = .ok message →
      (∀ key' seq', held' key' seq' → key' = key ∧ seq' = seq + 1) →
      (∀ key, Broken b' key → Broken b key) → Takes max decode opens starts held held' b b' read
  | fails {key : Transcript} {seq : ℕ} {f : Frame UInt8} : held key seq → read = [f] →
      (∀ packet message, report max decode f = .ok (some packet) →
        opens key seq packet ≠ .ok message) →
      (∀ key' seq', held' key' seq' → key' = key ∧ seq' = seq) →
      (∀ key', Broken b' key' → Broken b key' ∨ key' = key) →
      Takes max decode opens starts held held' b b' read

/-- A frame that is not the next packet comes, in a session or outside. -/
theorem takes_broken {max : ℕ} {decode : Bytes → Except String Bytes} {opens : Opens}
    {starts : Transcript → Prop} {held held' : Transcript → ℕ → Prop} (hrec : Recorded o p b)
    {f : Frame UInt8}
    (hf : ∀ rx packet message, b.receiver = some rx → report max decode f = .ok (some packet) →
      opens rx.key rx.seq packet ≠ .ok message)
    (hin : ∀ rx, b.receiver = some rx → held rx.key rx.seq)
    (hout : ∀ key seq, held' key seq → b.receiver = some ⟨key, seq⟩)
    (hb : ∀ key, Broken b' key → Broken b key ∨ ∃ x, b.current = some x ∧ x.key = key) :
    Takes max decode opens starts held held' b b' [f] := by
  cases hrx : b.receiver with
  | none =>
    refine .outside (fun key seq h => ?_) fun key h => ?_
    · have hsome := hout key seq h
      rw [hrx] at hsome
      cases hsome
    · rcases hb key h with h | ⟨x, hx, -⟩
      · exact h
      · rw [hrec.none hrx] at hx
        cases hx
  | some rx =>
    refine .fails (hin rx hrx) rfl (fun packet message h => hf rx packet message hrx h)
      (fun key seq h => ?_) fun key h => ?_
    · have hsome := hout key seq h
      rw [hrx] at hsome
      cases hsome
      exact ⟨rfl, rfl⟩
    · rcases hb key h with h | ⟨x, hx, hk⟩
      · exact .inl h
      · exact .inr (hrec.key_eq hrx hx hk)

/-- The session a frame breaks is the current one. -/
theorem broken_current {reader : Reader}
    (h : Broken ({ b with reader }.mark .broken) key) :
    Broken b key ∨ ∃ x, b.current = some x ∧ x.key = key := by
  rcases broken_mark h with h | ⟨-, x, hx, hk⟩
  · exact .inl h
  · exact .inr ⟨x, hx, hk⟩

/-! ### Ideal cryptography -/

theorem sealedMessage_eq {seq : ℕ} {packet message : Bytes} {e : Event} :
    sealedMessage o key seq packet e = some message ↔
      ∃ c x, o.contexts[c]? = some x ∧ x.key = key ∧ e = .sealed ⟨c, seq, packet⟩ message := by
  constructor
  · intro h
    unfold sealedMessage at h
    split at h
    · next q m =>
      split_ifs at h with hq
      obtain ⟨hseq, hbytes, hkey⟩ := hq
      obtain ⟨x, hx, hxk⟩ := Option.map_eq_some_iff.mp hkey
      rw [Option.some.injEq] at h
      subst h hseq hbytes
      exact ⟨q.context, x, hx, hxk, rfl⟩
    · cases h
  · rintro ⟨c, x, hx, hk, rfl⟩
    have hkey : (o.contexts[c]?).map (·.key) = some key := by
      rw [hx, ← hk]
      rfl
    exact if_pos ⟨rfl, rfl, hkey⟩

/-- **A packet opens exactly if the peer sealed it in a context of the key with that number.** -/
theorem openedBy_ok {seq : ℕ} {packet message : Bytes}
    (h : openedBy o key seq packet = .ok message) : SealedAs o key seq packet message := by
  unfold openedBy at h
  split at h
  · next m hm =>
    cases h
    obtain ⟨e, he, hsealed⟩ := List.exists_of_findSome?_eq_some hm
    obtain ⟨c, x, hx, hk, rfl⟩ := sealedMessage_eq.mp hsealed
    exact ⟨c, x, hx, hk, he⟩
  · cases h

theorem openedBy_sealed {seq : ℕ} {packet message : Bytes} (h : SealedAs o key seq packet message) :
    ∃ message, openedBy o key seq packet = .ok message := by
  obtain ⟨c, x, hx, hk, hmem⟩ := h
  unfold openedBy
  cases hm : o.log.findSome? (sealedMessage o key seq packet) with
  | some m => exact ⟨m, rfl⟩
  | none =>
    rw [List.findSome?_eq_none_iff] at hm
    have hsome : sealedMessage o key seq packet (.sealed ⟨c, seq, packet⟩ message) = some message :=
      sealedMessage_eq.mpr ⟨c, x, hx, hk, rfl⟩
    rw [hm _ hmem] at hsome
    cases hsome

/-- A fresh packet is none of the frames before it. -/
theorem before_of_fresh {cfg : Config Transcript} {packet : Bytes}
    (h : fresh cfg.cobs packet o.framer.accepted = true) :
    Before cfg packet (place cfg o)
        (frames 0 cfg.maxFrame (o.framer.accepted ++ lead o.framer)) := by
  refine ⟨rfl, fun f hf hreport => ?_⟩
  have hlead : ∃ more, lead o.framer ++ more = [0] := by
    unfold lead
    split_ifs
    · exact ⟨[], rfl⟩
    · exact ⟨[0], rfl⟩
  obtain ⟨more, hmore⟩ := hlead
  have hall : f ∈ frames 0 cfg.maxFrame (o.framer.accepted ++ [0]) := by
    rw [← hmore, ← List.append_assoc]
    exact (frames_initial _ _).subset hf
  have hshort : overflowing cfg.maxFrame ([] : Bytes) = [] := if_pos (Nat.zero_le _)
  rw [frames, rest_concat, hshort, List.append_nil, List.mem_map] at hall
  obtain ⟨piece, hpiece, rfl⟩ := hall
  have hne : (cfg.cobs.decode piece).toOption ≠ some packet := by
    unfold fresh at h
    rw [decide_eq_true_eq] at h
    exact h.2 piece hpiece
  unfold classify at hreport
  split_ifs at hreport
  · unfold report at hreport
    split at hreport
    · cases hreport
    · next q hq =>
      cases hq
      split at hreport
      · next m hm =>
        cases hreport
        rw [hm] at hne
        exact hne rfl
      · cases hreport
    · cases hreport
  · cases hreport

end ArkWire.Transport.Ledger
