import ArkWire.Protocol.Deadlines
import ArkWire.Protocol.Frames
import ArkWire.Lib.Sequences

/-! # Matching responses with requests

`wireId` is the sequence of the wire IDs of a side: every second number from its first one on, while
they fit. `Numbers` says that a session assigns them in this order. `Placed` says where a pending
request can be: queued, under its wire ID, or failing in the writer's hands after a refused
encoding.

With the invariants of `Routing` and `Tracing` this leaves one promise for every response, whatever
the peer sends. A response without an operation is discarded; one that finds its operation past the
deadline, before a pickup has expired it, times the promise out. -/

namespace ArkWire.Protocol.Matching

open ArkWire.Lib.Machines ArkWire.Lib.Sequences
open ArkWire.Transport.Errors ArkWire.Protocol.Errors ArkWire.Protocol.Envelope
open ArkWire.Protocol.Promise ArkWire.Protocol.Operation ArkWire.Protocol.Session
open ArkWire.Protocol.System ArkWire.Protocol.Sections ArkWire.Protocol.Steps
open ArkWire.Protocol.Routing ArkWire.Protocol.Settlement ArkWire.Protocol.Tracing
open ArkWire.Protocol.Frames ArkWire.Protocol.Deadlines

variable {M : Type}

/-! ### The sequence of wire IDs -/

/-- The wire ID of the request after `n` others. -/
def wireId (parity : Parity) (n : ℕ) : Option ℕ :=
  if parity.first + 2 * n ≤ u64Max then some (parity.first + 2 * n) else none

theorem wireId_eq_some {parity : Parity} {n id : ℕ} (h : wireId parity n = some id) :
    id = parity.first + 2 * n ∧ id ≤ u64Max := by
  unfold wireId at h
  split_ifs at h with hle
  cases h
  exact ⟨rfl, hle⟩

theorem wireId_parity {parity : Parity} {n id : ℕ} (h : wireId parity n = some id) :
    Parity.of id = parity := by
  rw [(wireId_eq_some h).1]
  cases parity <;> simp [Parity.of, Parity.first]

/-- The next ID, where the last one fits. -/
theorem wireId_succ {parity : Parity} {n id : ℕ} (h : wireId parity n = some id) :
    wireId parity (n + 1) = if id + 2 ≤ u64Max then some (id + 2) else none := by
  rw [(wireId_eq_some h).1]
  rfl

/-- **IDs are assigned in sequence.** -/
structure Numbers (s : SessionInner M) : Prop where
  assigned : ∀ i a, (assignedList s.log)[i]? = some a → wireId s.side.parity i = some a.id
  next : ∀ o, s.state = .opened o → o.nextId = wireId s.side.parity (assignedList s.log).length

namespace Numbers

variable {s s' : SessionInner M}

theorem new (side : Side) : Numbers (SessionInner.new side : SessionInner M) where
  assigned i a ha := by simp [SessionInner.new, assignedList] at ha
  next o ho := by
    cases ho
    cases side <;> rfl

/-- No ID is assigned. -/
theorem keep (h : Numbers s) (hl : assignedList s'.log = assignedList s.log)
    (hside : s'.side = s.side)
    (ho : ∀ o', s'.state = .opened o' → ∃ o, s.state = .opened o ∧ o'.nextId = o.nextId) :
    Numbers s' where
  assigned i a ha := by
    rw [hl] at ha
    rw [hside]
    exact h.assigned i a ha
  next o' ho' := by
    obtain ⟨o, hs, hn⟩ := ho o' ho'
    rw [hn, hl, hside]
    exact h.next o hs

theorem of_opened (h : Numbers s) {o o' : OpenState M} (hs : s.state = .opened o)
    (hs' : s'.state = .opened o') (hl : assignedList s'.log = assignedList s.log)
    (hside : s'.side = s.side) (hn : o'.nextId = o.nextId) : Numbers s' := by
  refine h.keep hl hside fun o'' ho'' => ?_
  rw [hs'] at ho''
  cases ho''
  exact ⟨o, hs, hn⟩

theorem close (h : Numbers s) (error : Error) (now : ℕ) : Numbers (s.close error now).1 := by
  have hc := close_cases s error now
  generalize s.close error now = r at hc ⊢
  cases hc with
  | already hs => exact h
  | closed hs =>
    refine h.keep rfl rfl fun o' ho' => ?_
    cases ho'

theorem expire (h : Numbers s) (now : ℕ) : Numbers (s.expire now) := by
  have hc := expire_cases s now
  generalize s.expire now = r at hc ⊢
  cases hc with
  | closed hs => exact h
  | expired hs => exact h.of_opened hs rfl (by simp [expireTo]) rfl rfl

theorem setInboundLimits (h : Numbers s) (requests bytes now : ℕ) :
    Numbers (s.setInboundLimits requests bytes now).1 := by
  have hc := setInboundLimits_cases s requests bytes now
  generalize s.setInboundLimits requests bytes now = r at hc ⊢
  cases hc with
  | closed hs => exact h
  | exceeded hs _ =>
    have h' : Numbers { s with state := .opened _ } := h.of_opened hs rfl rfl rfl rfl
    exact h'.close _ _
  | limited hs _ _ => exact h.of_opened hs rfl rfl rfl rfl

theorem setAutoreplyTimeout (h : Numbers s) (timeout : ℕ) :
    Numbers (s.setAutoreplyTimeout timeout) := by
  rcases setAutoreplyTimeout_cases s timeout with ⟨e, hs, he⟩ | ⟨o, hs, he⟩
  · rwa [he]
  · rw [he]
    exact h.of_opened hs rfl rfl rfl rfl

theorem submit (h : Numbers s) {body : OutgoingBody M} {deadline now : ℕ}
    (hs' : s.submit body deadline now = .ok s') : Numbers s' := by
  cases submit_cases hs' with
  | late hs _ => exact h.of_opened hs rfl (by simp) rfl rfl
  | queued hs _ => exact h.of_opened hs rfl (by simp [assignedList, assignedOf]) rfl rfl

theorem handleMessage (h : Numbers s) {codec : Codec M} {bytes : Bytes} {now : ℕ}
    {result : Except Error (Option ℕ)} (hs' : s.handleMessage codec bytes now = .ok (s', result)) :
    Numbers s' := by
  cases handleMessage_cases hs' with
  | unknown _ _ hs => exact h.of_opened hs rfl (by simp [assignedList, assignedOf]) rfl rfl
  | admitted _ _ _ hs => exact h.of_opened hs rfl (by simp [assignedList, assignedOf]) rfl rfl
  | late _ _ hs => exact h.of_opened hs rfl rfl rfl rfl
  | completed _ _ hs => exact h.of_opened hs rfl rfl rfl rfl
  | _ => exact h

/-- A request is taken under the next ID. -/
theorem nextOutgoing (h : Numbers s) {now : ℕ} {pickup : SessionInner.Pickup M}
    (hs' : s.nextOutgoing now = .ok (s', pickup)) : Numbers s' := by
  have he := h.expire now
  cases nextOutgoing_cases hs' with
  | @request o m rest message id hs hq hb hi =>
    have hlist : assignedList ((s.expire now).log ++ [.assigned id m.key]) =
        assignedList (s.expire now).log ++ [⟨id, m.key⟩] := by
      simp [assignedList, assignedOf]
    have hid := he.next o hs
    rw [hi] at hid
    refine ⟨fun i a ha => ?_, fun o' ho' => ?_⟩
    · rw [hlist] at ha
      rcases Nat.lt_trichotomy i (assignedList (s.expire now).log).length with hlt | heq | hgt
      · rw [List.getElem?_append_left hlt] at ha
        exact he.assigned i a ha
      · subst heq
        rw [List.getElem?_concat_length] at ha
        cases ha
        exact hid.symm
      · rw [List.getElem?_eq_none (by simp; omega)] at ha
        cases ha
    · cases ho'
      show (if id + 2 ≤ u64Max then some (id + 2) else none) = wireId _ (assignedList _).length
      rw [hlist, List.length_append, List.length_singleton]
      exact (wireId_succ hid.symm).symm
  | @reply o m rest id result hs hq hb =>
    exact he.of_opened hs rfl (by simp [assignedList, assignedOf]) rfl rfl
  | _ => exact he

theorem withdraw (h : Numbers s) (id : ℕ) : Numbers (s.withdraw id) := by
  rcases withdraw_cases s id with ⟨e, hs, he⟩ | ⟨o, hs, he⟩
  · rwa [he]
  · rw [he]
    exact h.of_opened hs rfl rfl rfl rfl

theorem recordWrite (h : Numbers s) (key : ℕ) (result : Except Error Unit) (now : ℕ) :
    Numbers (s.recordWrite key result now) := by
  have hc := recordWrite_cases s key result now
  generalize s.recordWrite key result now = r at hc ⊢
  cases hc with
  | kept => exact h
  | failed hs _ => exact h.of_opened hs rfl rfl rfl rfl
  | written hs _ _ _ => exact h.of_opened hs rfl rfl rfl rfl

theorem logged (h : Numbers s) {e : Event M} (he : assignedOf e = none) :
    Numbers { s with log := s.log ++ [e] } :=
  h.keep (by simp [assignedList, he]) rfl fun o ho => ⟨o, ho, rfl⟩

end Numbers

theorem numbers_step {codec : Codec M} {i : Option Bytes} {s s' : Sys M} (h : Numbers s.session)
    (hs : Step codec s i s') : Numbers s'.session := by
  cases hs with
  | request hm => exact h.submit hm
  | respond _ hm => exact (h.submit hm).logged rfl
  | recv _ hm =>
    obtain ⟨o, rest, ho, -, rfl⟩ := takeIncoming_cases hm
    exact h.of_opened ho rfl rfl rfl rfl
  | @decode id message _ =>
    have h' : Numbers { s.session with shared := s.session.shared.release message } :=
      h.keep rfl rfl fun o ho => ⟨o, ho, rfl⟩
    unfold Sys.decodeRequest
    dsimp only
    split
    · exact h'.logged rfl
    · exact h'
    · exact h'
  | autoreplyQueued _ hm => exact (h.submit hm).logged rfl
  | messageRefused hm => exact h.handleMessage hm
  | messageRouted hm => exact h.handleMessage hm
  | messageUnknown hm => exact h.handleMessage hm
  | close => exact h.close _ _
  | closeOwed => exact h.close _ _
  | closeReceive => exact h.close _ _
  | setInboundLimits => exact h.setInboundLimits _ _ _
  | setAutoreplyTimeout => exact h.setAutoreplyTimeout _
  | expire => exact h.expire _
  | pickupClosed _ hn => exact h.nextOutgoing hn
  | pickupNone _ hn => exact h.nextOutgoing hn
  | pickup _ hn => exact h.nextOutgoing hn
  | @withdraw id message _ hw =>
    cases message.body.isRequest with
    | true => exact h.withdraw id
    | false => exact h
  | report hw => exact h.recordWrite _ _ _
  | fail hw => exact h.close _ _
  | _ => exact h.keep rfl rfl fun o ho => ⟨o, ho, rfl⟩

/-! ### Where a pending request is -/

/-- **A pending request is queued, under a wire ID, or `failing`**, which is the key of a refused
encoding that is about to be reported. -/
structure Placed (operations : Operations) (outgoing : List (OutgoingMessage M))
    (outstanding : Outstanding) (failing : Option ℕ) : Prop where
  place : ∀ key operation, operations.lookup key = some operation →
    operation.sender.response = true → (∃ m ∈ outgoing, m.key = key) ∨
      (∃ id, outstanding.lookup id = some key) ∨ failing = some key
  apart : ∀ key, failing = some key → ∀ id, outstanding.lookup id ≠ some key

namespace Placed

variable {operations : Operations} {outgoing : List (OutgoingMessage M)} {outstanding : Outstanding}
  {failing : Option ℕ}

theorem closed : Placed (M := M) ∅ [] ∅ failing where
  place key operation hl := by simp at hl
  apart key _ id := by simp

/-- Operations leave. -/
theorem shrink (h : Placed operations outgoing outstanding failing) {left : Operations}
    (hl : ∀ key operation, left.lookup key = some operation →
      operations.lookup key = some operation) : Placed left outgoing outstanding failing where
  place key operation hk := h.place key operation (hl _ _ hk)
  apart := h.apart

/-- Expiry keeps the messages whose operations it keeps. -/
theorem retain (h : Placed operations outgoing outstanding failing) {left : Operations}
    (hl : ∀ key operation, left.lookup key = some operation →
      operations.lookup key = some operation) :
    Placed left (outgoing.filter fun m => (left.lookup m.key).isSome) outstanding failing where
  place key operation hk hr := by
    rcases h.place key operation (hl _ _ hk) hr with ⟨m, hm, rfl⟩ | hid | hf
    · refine .inl ⟨m, List.mem_filter.mpr ⟨hm, ?_⟩, rfl⟩
      rw [hk]
      rfl
    · exact .inr (.inl hid)
    · exact .inr (.inr hf)
  apart := h.apart

theorem push (h : Placed operations outgoing outstanding failing) (body : OutgoingBody M)
    (key : ℕ) (operation : PendingOperation) :
    Placed (operations.insert key operation) (outgoing ++ [⟨body, key⟩]) outstanding failing where
  place k op hk hr := by
    rw [lookup_insert_eq] at hk
    split_ifs at hk with he
    · exact .inl ⟨⟨body, key⟩, by simp, he.symm⟩
    · refine (h.place k op hk hr).imp_left ?_
      rintro ⟨m, hm, hm'⟩
      exact ⟨m, List.mem_append_left _ hm, hm'⟩
  apart := h.apart

/-- The writer takes a reply. -/
theorem pop {m : OutgoingMessage M} (h : Placed operations (m :: outgoing) outstanding failing)
    (hm : ∀ operation, operations.lookup m.key = some operation →
      operation.sender.response = false) : Placed operations outgoing outstanding failing where
  place key operation hk hr := by
    rcases h.place key operation hk hr with ⟨m', hm', rfl⟩ | hid | hf
    · rcases List.mem_cons.mp hm' with rfl | hm'
      · rw [hm operation hk] at hr
        cases hr
      · exact .inl ⟨m', hm', rfl⟩
    · exact .inr (.inl hid)
    · exact .inr (.inr hf)
  apart := h.apart

/-- The writer takes a request under a fresh ID. -/
theorem assign {m : OutgoingMessage M} (h : Placed operations (m :: outgoing) outstanding failing)
    {id : ℕ} (hid : outstanding.lookup id = none) (hf : failing = none) :
    Placed operations outgoing (outstanding.insert id m.key) failing where
  place key operation hk hr := by
    have hkeep : ∀ id' key', outstanding.lookup id' = some key' →
        (outstanding.insert id m.key).lookup id' = some key' := by
      intro id' key' hl
      rw [lookup_insert_eq, if_neg, hl]
      rintro rfl
      rw [hid] at hl
      cases hl
    rcases h.place key operation hk hr with ⟨m', hm', rfl⟩ | ⟨id', hl⟩ | hf
    · rcases List.mem_cons.mp hm' with rfl | hm'
      · exact .inr (.inl ⟨id, AList.lookup_insert _⟩)
      · exact .inl ⟨m', hm', rfl⟩
    · exact .inr (.inl ⟨id', hkeep _ _ hl⟩)
    · exact .inr (.inr hf)
  apart key hk := by rw [hf] at hk; cases hk

/-- The operation of an ID is gone. -/
theorem unassign (h : Placed operations outgoing outstanding failing) {id key : ℕ}
    (hid : outstanding.lookup id = some key) (hgone : operations.lookup key = none) :
    Placed operations outgoing (outstanding.erase id) failing where
  place k op hk hr := by
    rcases h.place k op hk hr with hm | ⟨id', hl⟩ | hf
    · exact .inl hm
    · refine .inr (.inl ⟨id', ?_⟩)
      rw [lookup_erase_eq, if_neg, hl]
      rintro rfl
      rw [hid] at hl
      cases hl
      rw [hgone] at hk
      cases hk
    · exact .inr (.inr hf)
  apart k hk id' hl := h.apart k hk id' (lookup_of_erase hl)

/-- An ID is answered. -/
theorem answer (h : Placed operations outgoing outstanding failing) {id key : ℕ}
    (hid : outstanding.lookup id = some key) :
    Placed (operations.erase key) outgoing (outstanding.erase id) failing :=
  (h.shrink fun _ _ hl => lookup_of_erase hl).unassign hid (AList.lookup_erase _ _)

/-- A refused request leaves its ID for the report. -/
theorem withdraw (h : Placed operations outgoing outstanding failing) {id key : ℕ}
    (hf : failing = none) (hid : ∀ k, outstanding.lookup id = some k → k = key)
    (honly : ∀ id', outstanding.lookup id' = some key → id' = id) :
    Placed operations outgoing (outstanding.erase id) (some key) where
  place k op hk hr := by
    rcases h.place k op hk hr with hm | ⟨id', hl⟩ | hf'
    · exact .inl hm
    · by_cases he : id' = id
      · subst he
        rw [hid k hl]
        exact .inr (.inr rfl)
      · refine .inr (.inl ⟨id', ?_⟩)
        rw [lookup_erase_eq, if_neg he, hl]
    · rw [hf] at hf'
      cases hf'
  apart k hk id' hl := by
    cases hk
    rw [lookup_erase_eq] at hl
    split_ifs at hl with hne
    exact hne (honly id' hl)

/-- A refused reply is reported. -/
theorem refuse (h : Placed operations outgoing outstanding none) {key : ℕ}
    (hn : ∀ id, outstanding.lookup id ≠ some key) :
    Placed operations outgoing outstanding (some key) where
  place k op hk hr := by
    rcases h.place k op hk hr with hm | hl | hf
    · exact .inl hm
    · exact .inr (.inl hl)
    · cases hf
  apart k hk := by cases hk; exact hn

/-- The refused encoding was reported. -/
theorem reported (h : Placed operations outgoing outstanding failing)
    (hn : ∀ key, failing = some key → operations.lookup key = none) :
    Placed operations outgoing outstanding none where
  place k op hk hr := by
    rcases h.place k op hk hr with hm | hl | hf
    · exact .inl hm
    · exact .inr (.inl hl)
    · rw [hn k hf] at hk
      cases hk
  apart k hk := by cases hk

end Placed

/-- The key of a refused encoding about to be reported. -/
def failing : Writer M → Option ℕ
  | .reporting key (.error _) => some key
  | _ => none

/-- The placement of a session with its writer. -/
def Places (s : SessionInner M) (failing : Option ℕ) : Prop :=
  Placed s.operations s.outgoing s.outstanding failing

namespace Places

variable {s s' : SessionInner M} {failing : Option ℕ}

theorem opened (h : Places s failing) {o : OpenState M} (hs : s.state = .opened o) :
    Placed o.operations o.outgoing o.outstanding failing := by
  simpa only [Places, SessionInner.operations, SessionInner.outgoing, SessionInner.outstanding, hs]
    using h

theorem close (h : Places s failing) (error : Error) (now : ℕ) :
    Places (s.close error now).1 failing := by
  have hc := close_cases s error now
  generalize s.close error now = r at hc ⊢
  cases hc with
  | already hs => exact h
  | closed hs => exact Placed.closed

theorem expire (h : Places s failing) (now : ℕ) : Places (s.expire now) failing := by
  have hc := expire_cases s now
  generalize s.expire now = r at hc ⊢
  cases hc with
  | closed hs => exact h
  | expired hs =>
    have ho := h.opened hs
    exact ho.retain fun key operation hl =>
      Option.eq_some_of_filter_eq_some ((failAll_expired_lookup now _ s.shared key) ▸ hl)

theorem setInboundLimits (h : Places s failing) (requests bytes now : ℕ) :
    Places (s.setInboundLimits requests bytes now).1 failing := by
  have hc := setInboundLimits_cases s requests bytes now
  generalize s.setInboundLimits requests bytes now = r at hc ⊢
  cases hc with
  | closed hs => exact h
  | exceeded hs _ =>
    have ho := h.opened hs
    exact Places.close (s := { s with state := .opened _ }) ho _ _
  | limited hs _ _ =>
    have ho := h.opened hs
    exact ho

theorem setAutoreplyTimeout (h : Places s failing) (timeout : ℕ) :
    Places (s.setAutoreplyTimeout timeout) failing := by
  rcases setAutoreplyTimeout_cases s timeout with ⟨e, hs, he⟩ | ⟨o, hs, he⟩
  · rwa [he]
  · have ho := h.opened hs
    rw [he]
    exact ho

theorem submit (h : Places s failing) {body : OutgoingBody M} {deadline now : ℕ}
    (hs' : s.submit body deadline now = .ok s') : Places s' failing := by
  cases submit_cases hs' with
  | late hs _ =>
    have ho := h.opened hs
    exact ho
  | queued hs _ =>
    have ho := h.opened hs
    exact ho.push body _ _

theorem takeIncoming (h : Places s failing) {taken : ℕ × IncomingEnvelope}
    (hs' : s.takeIncoming = some (s', taken)) : Places s' failing := by
  obtain ⟨o, rest, hs, -, rfl⟩ := takeIncoming_cases hs'
  have ho := h.opened hs
  exact ho

theorem handleMessage (h : Places s failing) {codec : Codec M} {bytes : Bytes} {now : ℕ}
    {result : Except Error (Option ℕ)} (hs' : s.handleMessage codec bytes now = .ok (s', result)) :
    Places s' failing := by
  cases handleMessage_cases hs' with
  | unknown _ _ hs =>
    have ho := h.opened hs
    exact ho
  | admitted _ _ _ hs =>
    have ho := h.opened hs
    exact ho
  | late _ _ hs hk hl =>
    have ho := h.opened hs
    exact ho.unassign hk hl
  | completed _ _ hs hk =>
    have ho := h.opened hs
    exact ho.answer hk
  | _ => exact h

/-- A request is taken under an ID that no other has. -/
theorem nextOutgoing (h : Places s none) {held : Option ℕ} (hr : Routes s held) (ht : Traces s)
    {now : ℕ} {pickup : SessionInner.Pickup M} (hs' : s.nextOutgoing now = .ok (s', pickup)) :
    Places s' none := by
  have he := h.expire now
  cases nextOutgoing_cases hs' with
  | @request o m rest message id hs hq hb hi =>
    have ho := he.opened hs
    rw [hq] at ho
    refine ho.assign ?_ rfl
    have htr := (ht.expire now).opened hs
    cases hl : o.outstanding.lookup id with
    | none => rfl
    | some key =>
      have hlt := htr.assigned_lt id hi _ (htr.outstanding_assigned id key hl)
      exact absurd hlt (lt_irrefl _)
  | @reply o m rest id result hs hq hb =>
    have ho := he.opened hs
    rw [hq] at ho
    refine ho.pop fun operation hl => ?_
    obtain ⟨operation', hl', hresp⟩ := ((hr.expire now).opened hs).queued m (by rw [hq]; simp)
    rw [hl, Option.some.injEq] at hl'
    rw [hl', hresp, hb]
    rfl
  | _ => exact he

theorem recordWrite {key : ℕ} {result : Except Error Unit}
    (h : Places s (Matching.failing (M := M) (.reporting key result))) (now : ℕ) :
    Places (s.recordWrite key result now) none := by
  unfold SessionInner.recordWrite
  split
  · next e hs =>
    simp only [Places, SessionInner.operations, SessionInner.outgoing, SessionInner.outstanding, hs]
    exact Placed.closed
  · next o hs =>
    have ho := h.opened hs
    cases hl : o.operations.lookup key with
    | none =>
      have hp : Placed o.operations o.outgoing o.outstanding none := by
        refine ho.reported fun k hk => ?_
        cases result with
        | ok => cases hk
        | error error =>
          cases hk
          exact hl
      simpa only [Places, SessionInner.operations, SessionInner.outgoing, SessionInner.outstanding,
        hs] using hp
    | some operation =>
      have hremoved : Placed (o.operations.erase key) o.outgoing o.outstanding none := by
        refine (ho.shrink fun _ _ hl => lookup_of_erase hl).reported fun k hk => ?_
        cases result with
        | ok => cases hk
        | error error =>
          cases hk
          exact AList.lookup_erase _ _
      dsimp only
      split
      · exact hremoved
      · split_ifs with hd hresp
        · exact hremoved
        · have hp : Placed o.operations o.outgoing o.outstanding none := ho
          simpa only [Places, SessionInner.operations, SessionInner.outgoing,
            SessionInner.outstanding, hs] using hp
        · exact hremoved

end Places

/-! ### One key for an ID, and one ID for a key -/

section Unique
variable {log : List (Event M)} {operations : Operations} {outgoing : List (OutgoingMessage M)}
  {outstanding : Outstanding} {fresh channels : ℕ} {parity : Parity} {nextId : Option ℕ}

theorem key_of_id (h : Traced log operations outgoing outstanding fresh channels parity nextId)
    {id key key' : ℕ} (ha : ⟨id, key⟩ ∈ assignedList log) (ha' : ⟨id, key'⟩ ∈ assignedList log) :
    key = key' :=
  congrArg Assigned.key (eq_of_increasing (h.assigned_sorted.imp And.left) ha ha' rfl)

theorem id_of_key (h : Traced log operations outgoing outstanding fresh channels parity nextId)
    {id id' key : ℕ} (ha : ⟨id, key⟩ ∈ assignedList log) (ha' : ⟨id', key⟩ ∈ assignedList log) :
    id = id' :=
  congrArg Assigned.id (eq_of_increasing (h.assigned_sorted.imp And.right) ha ha' rfl)

/-- A key that has an ID is a request's. -/
theorem request_of_assigned
    (h : Traced log operations outgoing outstanding fresh channels parity nextId)
    {id key c : ℕ} {body : OutgoingBody M} (ha : ⟨id, key⟩ ∈ assignedList log)
    (hq : ⟨key, c, body⟩ ∈ queuedList log) : ∃ message, body = .request message := by
  obtain ⟨c', message, hq'⟩ := h.assigned_queued _ ha
  cases eq_of_increasing (h.queued_sorted.imp And.left) hq hq' rfl
  exact ⟨message, rfl⟩

end Unique

/-- The message of a refused encoding was dispatched under its ID. -/
def Refused (s : Sys M) : Prop :=
  ∀ id message error, s.writer = .refused id message error → Dispatched s.session.log id message

theorem refused_step {codec : Codec M} {side : Side} {i : Option Bytes} {s s' : Sys M}
    (h : Refused s) (ht : TracedSys codec side s) (hs : Step codec s i s') : Refused s' := by
  have hlater := (traces_step ht.traces hs).2.log
  have hkeep : s'.writer = s.writer → Refused s' := fun hw id message error he =>
    (h id message error (hw ▸ he)).mono hlater
  cases hs with
  | @decode id message _ =>
    refine hkeep ?_
    unfold Sys.decodeRequest
    dsimp only
    split <;> rfl
  | refuse hw he =>
    intro id' message' error' hr
    cases hr
    exact ht.holding _ _ hw
  | pickupClosed => intro _ _ _ he; cases he
  | pickup => intro _ _ _ he; cases he
  | send => intro _ _ _ he; cases he
  | sendFailed => intro _ _ _ he; cases he
  | withdraw => intro _ _ _ he; cases he
  | report => intro _ _ _ he; cases he
  | fail => intro _ _ _ he; cases he
  | _ => exact hkeep rfl

/-- A refused message leaves its wire ID. -/
theorem places_withdraw {s : SessionInner M} {id : ℕ} {message : OutgoingMessage M}
    (h : Places s none) (ht : Traces s) (hd : Dispatched s.log id message) :
    Places (if message.body.isRequest then s.withdraw id else s) (some message.key) := by
  obtain ⟨⟨c, hq⟩, hid⟩ := hd
  cases hb : message.body with
  | request body =>
    rw [hb] at hid
    simp only [OutgoingBody.isRequest, if_true]
    rcases withdraw_cases s id with ⟨e, hs, he⟩ | ⟨o, hs, he⟩
    · rw [he]
      simp only [Places, SessionInner.operations, SessionInner.outgoing,
        SessionInner.outstanding, hs]
      exact Placed.closed
    · have ho := h.opened hs
      have htr := ht.opened hs
      rw [he]
      refine ho.withdraw rfl (fun k hk => ?_) (fun id' hk => ?_)
      · exact key_of_id htr (htr.outstanding_assigned _ _ hk) hid
      · exact id_of_key htr (htr.outstanding_assigned _ _ hk) hid
  | reply id' result =>
    simp only [OutgoingBody.isRequest, Bool.false_eq_true, if_false]
    refine Placed.refuse h fun id'' hk => ?_
    obtain ⟨message', hm⟩ := request_of_assigned ht (ht.outstanding_assigned _ _ hk) hq
    rw [hb] at hm
    cases hm

theorem places_step {codec : Codec M} {i : Option Bytes} {s s' : Sys M}
    (h : Places s.session (failing s.writer)) (hr : RoutesSys s) (ht : Traces s.session)
    (href : Refused s) (hs : Step codec s i s') : Places s'.session (failing s'.writer) := by
  cases hs with
  | request hm => exact h.submit hm
  | respond _ hm =>
    have h' := h.submit hm
    exact h'
  | recv _ hm => exact h.takeIncoming hm
  | @decode id message _ =>
    unfold Sys.decodeRequest
    dsimp only
    split <;> exact h
  | autoreplyQueued _ hm =>
    have h' := h.submit hm
    exact h'
  | messageRefused hm => exact h.handleMessage hm
  | messageRouted hm => exact h.handleMessage hm
  | messageUnknown hm => exact h.handleMessage hm
  | close => exact h.close _ _
  | closeOwed => exact h.close _ _
  | closeReceive => exact h.close _ _
  | setInboundLimits => exact h.setInboundLimits _ _ _
  | setAutoreplyTimeout => exact h.setAutoreplyTimeout _
  | expire => exact h.expire _
  | pickupClosed hw hn =>
    rw [hw] at h
    exact Places.nextOutgoing h hr ht hn
  | pickupNone hw hn hp =>
    rw [hw] at h
    show Places _ (failing s.writer)
    rw [hw]
    exact Places.nextOutgoing h hr ht hn
  | pickup hw hn =>
    rw [hw] at h
    exact Places.nextOutgoing h hr ht hn
  | refuse hw he => rw [hw] at h; exact h
  | send hw he => rw [hw] at h; exact h
  | sendFailed _ hw he => rw [hw] at h; exact h
  | @withdraw id message error hw =>
    have hd := href id message error hw
    rw [hw] at h
    exact places_withdraw h ht hd
  | report hw =>
    rw [hw] at h
    exact h.recordWrite _
  | fail hw =>
    rw [hw] at h
    exact Places.close h _ _
  | _ => exact h

/-! ### Responses -/

theorem responded_close {s : SessionInner M} {error : Error} {now c : ℕ}
    {envelope : IncomingEnvelope} (h : Responded (s.close error now).1.shared c envelope) :
    Responded s.shared c envelope := by
  have hc := close_cases s error now
  generalize s.close error now = r at hc h
  cases hc with
  | already hs => exact h
  | closed hs => exact responded_failAll h

/-- Without a message of the peer, no promise gets a response. -/
theorem responded_quiet {codec : Codec M} {s s' : Sys M} (hs : Step codec s none s') {c : ℕ}
    {envelope : IncomingEnvelope} (h : Responded s'.session.shared c envelope) :
    Responded s.session.shared c envelope := by
  have hframe : ∀ {session : SessionInner M}, Frame none s.session session →
      Responded session.shared c envelope → Responded s.session.shared c envelope :=
    fun hf hr => hf.responded c envelope hr
  cases hs with
  | request hm => exact (Frame.submit hm).responded c envelope h
  | respond _ hm => exact (Frame.submit hm).responded c envelope h
  | recv _ hm => exact hframe (.takeIncoming hm) h
  | @decode id message _ =>
    unfold Sys.decodeRequest at h
    dsimp only at h
    split at h <;> exact h
  | autoreplyQueued _ hm => exact (Frame.submit hm).responded c envelope h
  | close => exact responded_close h
  | closeOwed => exact responded_close h
  | closeReceive => exact responded_close h
  | setInboundLimits => exact hframe (.setInboundLimits _ _ _) h
  | setAutoreplyTimeout => exact hframe (.setAutoreplyTimeout _) h
  | expire => exact hframe (.expire _) h
  | pickupClosed _ hn => exact hframe (.nextOutgoing hn) h
  | pickupNone _ hn => exact hframe (.nextOutgoing hn) h
  | pickup _ hn => exact hframe (.nextOutgoing hn) h
  | @withdraw id message _ _ =>
    change Responded (if message.body.isRequest then s.session.withdraw id else s.session).shared
      c envelope at h
    split_ifs at h
    · exact hframe (.withdraw id) h
    · exact h
  | report _ => exact hframe (.recordWrite _ _ _) h
  | fail _ => exact responded_close h
  | @notifyDone c' _ _ =>
    exact responded_modify (c := c') (f := fun ch => { ch with registered := true }) rfl h
  | notify =>
    dsimp only [Sys.withShared] at h
    exact responded_modify (by rfl) h
  | dropPromise =>
    dsimp only [Sys.withShared] at h
    exact responded_modify (by rfl) h
  | @dropReceiver c' _ _ =>
    dsimp only [Sys.withShared] at h
    have hr := responded_modify (by rfl) h
    cases hb : (s.session.shared.channels c').buffer with
    | none => rwa [hb] at hr
    | some result => rwa [hb, Option.elim_some, Responded, Shared.releaseResult_channels] at hr
  | wait =>
    dsimp only [Sys.withShared] at h
    exact responded_modify (by rfl) h
  | read =>
    dsimp only [Sys.withShared] at h
    exact responded_modify (by rfl) h
  | @readResponse c' message _ _ =>
    exact responded_modify (c := c') (f := fun ch => { ch with holder := .gone }) rfl h
  | @readMalformed c' message _ _ _ =>
    exact responded_modify (c := c') (f := fun ch => { ch with holder := .gone }) rfl h
  | _ => exact h

/-- **A response comes under the ID of the promise's own request.** -/
def Owned (codec : Codec M) (s : SessionInner M) (c : ℕ) (envelope : IncomingEnvelope) : Prop :=
  codec.decodeHeader s.side envelope.bytes = some envelope.header ∧
    ∃ key message, ⟨key, c, .request message⟩ ∈ queuedList s.log ∧
      ⟨envelope.header.id, key⟩ ∈ assignedList s.log

theorem Owned.mono {codec : Codec M} {s s' : SessionInner M} {c : ℕ} {envelope : IncomingEnvelope}
    (h : Owned codec s c envelope) (hl : Later s s') : Owned codec s' c envelope := by
  obtain ⟨hd, key, message, hq, ha⟩ := h
  obtain ⟨rest, hrest⟩ := hl.log
  rw [Owned, hl.side, ← hrest, queuedList_append, assignedList_append]
  exact ⟨hd, key, message, List.mem_append_left _ hq, List.mem_append_left _ ha⟩

/-- What a message of the peer gives to promises. -/
theorem responded_message {codec : Codec M} {s s' : SessionInner M} (ht : Traces s) {bytes : Bytes}
    {now : ℕ} {result : Except Error (Option ℕ)}
    (hs' : s.handleMessage codec bytes now = .ok (s', result)) {c : ℕ} {envelope : IncomingEnvelope}
    (h : Responded s'.shared c envelope) : Responded s.shared c envelope ∨
      envelope.bytes = bytes ∧ Owned codec s c envelope ∧
        ∃ key, s.outstanding.lookup envelope.header.id = some key := by
  cases handleMessage_cases hs' with
  | @completed header o key operation w result hd hk hs hid hl hc =>
    have htr := ht.opened hs
    rcases responded_completeResponse hc h with h | ⟨rfl, rfl⟩
    · exact .inl h
    · obtain ⟨body, hq⟩ := htr.operation_queued key operation hl
      have ha := htr.outstanding_assigned _ _ hid
      obtain ⟨message, rfl⟩ := request_of_assigned htr ha hq
      refine .inr ⟨rfl, ⟨hd, key, message, hq, ha⟩, key, ?_⟩
      simpa only [SessionInner.outstanding, hs] using hid
  | unknown => exact .inl h
  | admitted => exact .inl h
  | late => exact .inl h
  | _ => exact .inl h

theorem responded_step {codec : Codec M} {i : Option Bytes} {s s' : Sys M}
    (ht : Traces s.session) (hs : Step codec s i s') {c : ℕ} {envelope : IncomingEnvelope}
    (h : Responded s'.session.shared c envelope) : Responded s.session.shared c envelope ∨
      i = some envelope.bytes ∧ Owned codec s.session c envelope ∧
        ∃ key, s.session.outstanding.lookup envelope.header.id = some key := by
  cases i with
  | none => exact .inl (responded_quiet hs h)
  | some bytes =>
    cases hs with
    | messageRefused hm => exact (responded_message ht hm h).imp_right fun h => ⟨by rw [h.1], h.2⟩
    | messageRouted hm => exact (responded_message ht hm h).imp_right fun h => ⟨by rw [h.1], h.2⟩
    | messageUnknown hm => exact (responded_message ht hm h).imp_right fun h => ⟨by rw [h.1], h.2⟩

/-! ### In every state -/

/-- All that the matching of responses rests on. -/
structure Routine (codec : Codec M) (side : Side) (s : Sys M) : Prop where
  traced : TracedSys codec side s
  ruled : Ruled s
  numbers : Numbers s.session
  places : Places s.session (failing s.writer)
  refused : Refused s
  owned : ∀ c envelope, Responded s.session.shared c envelope → Owned codec s.session c envelope

theorem routine_step {codec : Codec M} {side : Side} {s s' : Sys M} {a : Action M}
    (h : Routine codec side s) (hstep : s.step codec a = .next s') : Routine codec side s' := by
  have hs := step_cases hstep
  refine ⟨tracedSys_step h.traced hs, ruled_step h.ruled hstep, numbers_step h.numbers hs,
    places_step h.places h.ruled.routes h.traced.traces h.refused hs,
    refused_step h.refused h.traced hs, fun c envelope hr => ?_⟩
  have hlater := (traces_step h.traced.traces hs).2
  rcases responded_step h.traced.traces hs hr with hr | ⟨-, ho, -⟩
  · exact (h.owned c envelope hr).mono hlater
  · exact ho.mono hlater

theorem routine_reachable {codec : Codec M} {side : Side} {s : Sys M}
    (h : (machine codec side).Reachable s) : Routine codec side s := by
  refine h.invariant (I := Routine codec side) ?_ fun s a s' _ hi hstep => routine_step hi hstep
  have hinit : (machine codec side).Reachable (machine codec side).init := .init
  refine ⟨tracedSys_new codec side, ruled_reachable hinit, .new side, Placed.closed,
    fun _ _ _ he => (by cases he), fun c envelope hr => ?_⟩
  cases hr

/-- **The one place of a pending request**: queued once, under one ID, or failing after a refused
encoding. -/
def OnePlace (o : OpenState M) (writer : Writer M) (key : ℕ) : Prop :=
  ((o.outgoing.map (·.key)).count key = 1 ∧ (∀ id, o.outstanding.lookup id ≠ some key) ∧
      failing writer ≠ some key) ∨
    ((o.outgoing.map (·.key)).count key = 0 ∧ (∃! id, o.outstanding.lookup id = some key) ∧
      failing writer ≠ some key) ∨
    ((o.outgoing.map (·.key)).count key = 0 ∧ (∀ id, o.outstanding.lookup id ≠ some key) ∧
      failing writer = some key)

theorem writerKey_of_failing {writer : Writer M} {key : ℕ} (h : failing writer = some key) :
    writerKey writer = some key := by
  unfold failing at h
  split at h
  · cases h
    rfl
  · cases h

theorem onePlace {codec : Codec M} {side : Side} {s : Sys M} (h : Routine codec side s)
    {o : OpenState M} (hs : s.session.state = .opened o) {key : ℕ} {operation : PendingOperation}
    (hl : o.operations.lookup key = some operation) (hr : operation.sender.response = true) :
    OnePlace o s.writer key := by
  have hroute := h.ruled.routes.opened hs
  have htr := h.traced.traces.opened hs
  have hplace := h.places.opened hs
  have hcount : ∀ m ∈ o.outgoing, m.key = key → (o.outgoing.map (·.key)).count key = 1 :=
    fun m hm hk => List.count_eq_one_of_mem hroute.nodup (List.mem_map.mpr ⟨m, hm, hk⟩)
  have hzero : (∀ m ∈ o.outgoing, m.key ≠ key) → (o.outgoing.map (·.key)).count key = 0 := by
    intro hno
    refine List.count_eq_zero.mpr fun hm => ?_
    obtain ⟨m, hm, hk⟩ := List.mem_map.mp hm
    exact hno m hm hk
  rcases hplace.place key operation hl hr with ⟨m, hm, hk⟩ | ⟨id, hid⟩ | hf
  · refine .inl ⟨hcount m hm hk, fun id hid => ?_, fun hf => ?_⟩
    · exact hroute.outstanding_not_queued id key hid m hm hk
    · exact hroute.held_not_queued key (writerKey_of_failing hf) m hm hk
  · refine .inr (.inl ⟨hzero (hroute.outstanding_not_queued id key hid), ⟨id, hid, ?_⟩,
      fun hf => ?_⟩)
    · intro id' hid'
      exact id_of_key htr (htr.outstanding_assigned _ _ hid') (htr.outstanding_assigned _ _ hid)
    · exact hplace.apart key hf id hid
  · refine .inr (.inr ⟨hzero (hroute.held_not_queued key (writerKey_of_failing hf)), ?_, hf⟩)
    exact hplace.apart key hf

/-- A settled request has no operation. -/
theorem settled_request {codec : Codec M} {side : Side} {s : Sys M} (h : Routine codec side s)
    {o : OpenState M} (hs : s.session.state = .opened o) {key c : ℕ} {body : OutgoingBody M}
    (hq : ⟨key, c, body⟩ ∈ queuedList s.session.log)
    (hsent : (s.session.shared.channels c).sent ≠ []) : o.operations.lookup key = none := by
  have htr := h.traced.traces.opened hs
  cases hl : o.operations.lookup key with
  | none => rfl
  | some operation =>
    obtain ⟨body', hq'⟩ := htr.operation_queued key operation hl
    cases eq_of_increasing (htr.queued_sorted.imp And.left) hq hq' rfl
    exact absurd ((h.ruled.settles.opened hs).sent_eq_nil hl) hsent

/-- A response whose request is not waiting for it changes no promise and closes nothing. -/
theorem ignored {codec : Codec M} {side : Side} {s : Sys M} (hside : s.session.side = side)
    {o : OpenState M} (hs : s.session.state = .opened o) {bytes : Bytes} {header : Header}
    (hd : codec.decodeHeader side bytes = some header)
    (hk : MessageKind.fromId header.id side.parity = .response)
    (hno : ∀ key operation, o.outstanding.lookup header.id = some key →
      o.operations.lookup key ≠ some operation) (now : ℕ) :
    ∃ s' o', s.step codec (.message bytes now) = .next s' ∧ s'.session.state = .opened o' ∧
      o'.operations = o.operations ∧ s'.session.shared = s.session.shared ∧ s'.owed = s.owed := by
  subst hside
  have hhandle : ∃ session o', s.session.handleMessage codec bytes now = .ok (session, .ok none) ∧
      session.state = .opened o' ∧ o'.operations = o.operations ∧
      session.shared = s.session.shared := by
    unfold SessionInner.handleMessage SessionInner.route
    rw [hd]
    dsimp only
    rw [hk, hs]
    dsimp only
    cases hid : o.outstanding.lookup header.id with
    | none => exact ⟨_, o, rfl, hs, rfl, rfl⟩
    | some key =>
      dsimp only
      cases hl : o.operations.lookup key with
      | none => exact ⟨_, _, rfl, rfl, rfl, rfl⟩
      | some operation => exact absurd hl (hno key operation hid)
  obtain ⟨session, o', hm, ho', hops, hsh⟩ := hhandle
  refine ⟨s.withSession session, o', ?_, ho', hops, hsh, rfl⟩
  simp only [Sys.step, Sys.readerStep, hm]

/-- A response that finds its operation past the deadline times it out. Nothing else changes, and
the session stays open. -/
theorem times_out {codec : Codec M} {side : Side} {s : Sys M} (h : Routine codec side s)
    {o : OpenState M} (hs : s.session.state = .opened o) {bytes : Bytes} {header : Header}
    (hd : codec.decodeHeader side bytes = some header)
    (hk : MessageKind.fromId header.id side.parity = .response) {key : ℕ}
    (hid : o.outstanding.lookup header.id = some key) {operation : PendingOperation}
    (hl : o.operations.lookup key = some operation) {now : ℕ} (hlate : operation.deadline ≤ now) :
    ∃ s' o', s.step codec (.message bytes now) = .next s' ∧ s'.session.state = .opened o' ∧
      o'.operations = o.operations.erase key ∧
      (s.session.shared.channels operation.sender.channel).sent = [] ∧
      (s'.session.shared.channels operation.sender.channel).sent = [.error .timeout] ∧
      (∀ c ≠ operation.sender.channel,
        s'.session.shared.channels c = s.session.shared.channels c) ∧ s'.owed = s.owed := by
  have hpending : (s.session.shared.channels operation.sender.channel).sent = [] :=
    (h.ruled.settles.opened hs).sent_eq_nil hl
  have hside := h.traced.side_eq
  subst hside
  obtain ⟨session, o', hm, ho', hops, hsh⟩ : ∃ session o',
      s.session.handleMessage codec bytes now = .ok (session, .ok none) ∧
      session.state = .opened o' ∧ o'.operations = o.operations.erase key ∧
      session.shared = operation.fail .timeout now s.session.shared := by
    unfold SessionInner.handleMessage SessionInner.route
    rw [hd]
    dsimp only
    rw [hk, hs]
    dsimp only
    rw [hid]
    dsimp only
    rw [hl]
    dsimp only
    rw [PendingOperation.completeResponse, if_pos hlate]
    exact ⟨_, _, rfl, rfl, rfl, rfl⟩
  have hfail : operation.fail .timeout now s.session.shared =
      (operation.sender.send s.session.shared (.error .timeout)).1 := by
    rw [PendingOperation.fail, if_pos hlate]
  refine ⟨s.withSession session, o', ?_, ho', hops, hpending, ?_, fun c hc => ?_, rfl⟩
  · simp only [Sys.step, Sys.readerStep, hm]
  · show (session.shared.channels _).sent = _
    rw [hsh, hfail, send_sent, hpending]
    rfl
  · show session.shared.channels c = _
    rw [hsh, hfail, send_channels_of_ne _ _ _ hc]

/-- **The wire IDs of a session, and where its requests are.** The IDs assigned are every second
number from the first of the side on; the next one is the next of these, or none fits any more. A
pending request has one place, and IDs that wait for a response are assigned ones below the next, of
distinct requests. An ID that was not assigned waits for nothing, and a request whose promise has a
result is not pending. -/
structure Assigns (side : Side) (s : Sys M) : Prop where
  ids : ∀ i a, (assignedList s.session.log)[i]? = some a →
    a.id = side.parity.first + 2 * i ∧ Parity.of a.id = side.parity ∧ a.id ≤ u64Max
  next : ∀ o, s.session.state = .opened o →
    o.nextId = wireId side.parity (assignedList s.session.log).length
  place : ∀ o key operation, s.session.state = .opened o → o.operations.lookup key =
    some operation →
    operation.sender.response = true → OnePlace o s.writer key
  waiting : ∀ id key, s.session.outstanding.lookup id = some key →
    ⟨id, key⟩ ∈ assignedList s.session.log ∧
      (∃ c message, ⟨key, c, .request message⟩ ∈ queuedList s.session.log) ∧
      ∀ o n, s.session.state = .opened o → o.nextId = some n → id < n
  distinct : ∀ id id' key, s.session.outstanding.lookup id = some key →
    s.session.outstanding.lookup id' = some key → id = id'
  early : ∀ id, (∀ key, ⟨id, key⟩ ∉ assignedList s.session.log) →
    s.session.outstanding.lookup id = none
  settled : ∀ o key c body, s.session.state = .opened o →
    ⟨key, c, body⟩ ∈ queuedList s.session.log → (s.session.shared.channels c).sent ≠ [] →
    o.operations.lookup key = none

theorem assigns {codec : Codec M} {side : Side} {s : Sys M} (h : Routine codec side s) :
    Assigns side s := by
  have htr := h.traced.traces
  have hside := h.traced.side_eq
  refine ⟨fun i a ha => ?_, fun o hs => ?_, fun o key operation hs hl hr => onePlace h hs hl hr,
    fun id key hl => ?_, fun id id' key hl hl' => ?_, fun id hno => ?_,
    fun o key c body hs hq hsent => settled_request h hs hq hsent⟩
  · have hid := h.numbers.assigned i a ha
    rw [hside] at hid
    obtain ⟨heq, hle⟩ := wireId_eq_some hid
    exact ⟨heq, wireId_parity hid, hle⟩
  · rw [← hside]
    exact h.numbers.next o hs
  · have ha := htr.outstanding_assigned id key hl
    refine ⟨ha, htr.assigned_queued _ ha, fun o n hs hn => ?_⟩
    exact (htr.opened hs).assigned_lt n hn _ ha
  · exact id_of_key htr (htr.outstanding_assigned _ _ hl) (htr.outstanding_assigned _ _ hl')
  · cases hl : s.session.outstanding.lookup id with
    | none => rfl
    | some key => exact absurd (htr.outstanding_assigned id key hl) (hno key)

/-- A message of the peer is the only step with that input. -/
theorem eq_message {a : Action M} {bytes : Bytes} (h : input a = some bytes) :
    ∃ now, a = .message bytes now := by
  cases a with
  | message b now =>
    cases h
    exact ⟨now, rfl⟩
  | _ => cases h

/-- **Response routing against an arbitrary peer.** In every reachable state the wire IDs are as
`Assigns` says, and when they are used up the next request panics. A promise gets a response only in
a step that handles an envelope under the ID of the promise's own request, which waits for it, and
gets one result in all. A response without an operation (unmatched, early, a duplicate, or after its
request was timed out) changes no promise and closes nothing. One that comes at or after the
deadline of an operation still pending times this promise out, changes no other and closes
nothing. -/
theorem matching {codec : Codec M} {side : Side} {s : Sys M}
    (h : (machine codec side).Reachable s) :
    Assigns side s ∧
    (∀ now o m rest message, s.writer = .idle → (s.session.expire now).state = .opened o →
      (s.session.expire now).shared.callbacks = s.session.shared.callbacks →
      o.outgoing = m :: rest → m.body = .request message →
      u64Max < side.parity.first + 2 * (assignedList s.session.log).length →
      (machine codec side).step s (.pickup now) = .panic .idsExhausted) ∧
    (∀ c < s.session.shared.nextChannel, (s.session.shared.channels c).sent.length ≤ 1) ∧
    (∀ c envelope, Responded s.session.shared c envelope → Owned codec s.session c envelope) ∧
    (∀ a s' c envelope, (machine codec side).step s a = .next s' →
      Responded s'.session.shared c envelope → ¬ Responded s.session.shared c envelope →
      (∃ now, a = .message envelope.bytes now) ∧ Owned codec s.session c envelope ∧
        ∃ key, s.session.outstanding.lookup envelope.header.id = some key) ∧
    (∀ o bytes header now, s.session.state = .opened o →
      codec.decodeHeader side bytes = some header →
      MessageKind.fromId header.id side.parity = .response →
      (∀ key operation, o.outstanding.lookup header.id = some key →
        o.operations.lookup key ≠ some operation) →
      ∃ s' o', (machine codec side).step s (.message bytes now) = .next s' ∧
        s'.session.state = .opened o' ∧ o'.operations = o.operations ∧
        s'.session.shared = s.session.shared ∧ s'.owed = s.owed) ∧
    ∀ o bytes header now key operation, s.session.state = .opened o →
      codec.decodeHeader side bytes = some header →
      MessageKind.fromId header.id side.parity = .response →
      o.outstanding.lookup header.id = some key → o.operations.lookup key = some operation →
      operation.deadline ≤ now →
      ∃ s' o', (machine codec side).step s (.message bytes now) = .next s' ∧
        s'.session.state = .opened o' ∧ o'.operations = o.operations.erase key ∧
        (s.session.shared.channels operation.sender.channel).sent = [] ∧
        (s'.session.shared.channels operation.sender.channel).sent = [.error .timeout] ∧
        (∀ c ≠ operation.sender.channel,
          s'.session.shared.channels c = s.session.shared.channels c) ∧ s'.owed = s.owed := by
  have hr := routine_reachable h
  refine ⟨assigns hr, ?_, fun c hc => ?_, hr.owned, ?_, ?_, ?_⟩
  · intro now o m rest message hw hs hcb hq hb hlt
    have hlist : (assignedList (s.session.expire now).log).length =
        (assignedList s.session.log).length := by
      have hc := expire_cases s.session now
      generalize s.session.expire now = r at hc ⊢
      cases hc with
      | closed _ => rfl
      | expired _ => simp [expireTo]
    have hside : (s.session.expire now).side = side :=
      (Later.expire (s := s.session) now).side.trans hr.traced.side_eq
    have hnext : o.nextId = none := by
      rw [(hr.numbers.expire now).next o hs, hside, hlist]
      exact if_neg (not_le.mpr hlt)
    show Sys.step codec s (.pickup now) = _
    simp [Sys.step, Sys.writerStep, hw, SessionInner.nextOutgoing, hcb, hs, hq, hb, hnext]
  · rcases hr.ruled.settles.either c hc with ⟨hnil, -⟩ | ⟨⟨result, hone⟩, -⟩
    · rw [hnil]
      exact Nat.zero_le _
    · rw [hone]
      exact le_rfl
  · intro a s' c envelope hstep hresp hnot
    rcases responded_step hr.traced.traces (step_cases hstep) hresp with hold | ⟨hin, ho, hk⟩
    · exact absurd hold hnot
    · exact ⟨eq_message hin, ho, hk⟩
  · intro o bytes header now hs hd hk hno
    exact ignored hr.traced.side_eq hs hd hk hno now
  · intro o bytes header now key operation hs hd hk hid hl hlate
    exact times_out hr hs hd hk hid hl hlate

/-- A request is answered twice, the second time in vain. The next one is sent. -/
def answeredTwice : List (Action UInt8) :=
  [.request 7 10 0, .pickup 1, .message [1, 0, 8] 2, .send (.ok ()) true, .report 3,
    .message [1, 0, 9] 4, .request 5 20 5, .pickup 6]

theorem matching_answeredTwice :
    ∃ s s' o', (machine tinyCodec .client).run answeredTwice (.new .client) = some s ∧
      (assignedList s.session.log).map (·.id) = [1, 3] ∧
      (s.session.shared.channels 0).sent =
        [.ok (.response ⟨[1, 0, 8], ⟨1, false, none, false⟩, 3⟩)] ∧
      Assigns .client s ∧ Owned tinyCodec s.session 0 ⟨[1, 0, 8], ⟨1, false, none, false⟩, 3⟩ ∧
      (machine tinyCodec .client).step s (.message [3, 0, 8] 25) = .next s' ∧
      s'.session.state = .opened o' ∧ (s'.session.shared.channels 1).sent = [.error .timeout] := by
  obtain ⟨s, o, operation, hr, hids, hsent, hs, hid, hl, hd, hc⟩ : ∃ s o operation,
      (machine tinyCodec .client).run answeredTwice (.new .client) = some s ∧
      (assignedList s.session.log).map (·.id) = [1, 3] ∧
      (s.session.shared.channels 0).sent =
        [.ok (.response ⟨[1, 0, 8], ⟨1, false, none, false⟩, 3⟩)] ∧
      s.session.state = .opened o ∧ o.outstanding.lookup 3 = some 1 ∧
      o.operations.lookup 1 = some operation ∧ operation.deadline ≤ 25 ∧
      operation.sender.channel = 1 :=
    ⟨_, _, _, rfl, rfl, rfl, rfl, rfl, rfl, by decide, rfl⟩
  obtain ⟨ha, -, -, ho, -, -, hlate⟩ := matching (Machine.reachable_of_run hr)
  obtain ⟨s', o', hstep, hs', -, -, htimeout, -⟩ :=
    hlate o [3, 0, 8] ⟨3, false, none, false⟩ 25 1 operation hs rfl rfl hid hl hd
  rw [hc] at htimeout
  refine ⟨s, s', o', hr, hids, hsent, ha, ho 0 _ ?_, hstep, hs', htimeout⟩
  rw [Responded, hsent]
  exact List.mem_singleton_self _

/-- A response comes at its deadline, before a pickup has expired the request: the promise
changes. -/
theorem matching_answeredLate :
    ∃ s s', (machine tinyCodec .client).run
        [.request 7 10 0, .pickup 1, .send (.ok ()) true, .report 3] (.new .client) = some s ∧
      (machine tinyCodec .client).step s (.message [1, 0, 8] 10) = .next s' ∧
      (s.session.shared.channels 0).sent = [] ∧
      (s'.session.shared.channels 0).sent = [.error .timeout] :=
  ⟨_, _, rfl, rfl, rfl, rfl⟩

end ArkWire.Protocol.Matching
