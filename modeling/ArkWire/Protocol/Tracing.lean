import ArkWire.Protocol.Routing

/-! # What a session writes, in terms of its log

The log says which request or reply was queued under which key and promise, and which key got which
wire ID. `Traced` ties the queues of a session to it: keys, promises and wire IDs are handed out in
increasing order, queued messages are in that order, and `operations` and `outstanding` have no
other entries than those the log accounts for. `TracedSys` adds the writer: every message given to
the transport is the encoding of a queued one, requests in the order of their IDs.

All of it holds against an arbitrary peer. -/

namespace ArkWire.Protocol.Tracing

open ArkWire.Lib.Machines
open ArkWire.Transport.Errors ArkWire.Protocol.Errors ArkWire.Protocol.Envelope
open ArkWire.Protocol.Promise ArkWire.Protocol.Operation ArkWire.Protocol.Session
open ArkWire.Protocol.System ArkWire.Protocol.Sections ArkWire.Protocol.Steps
open ArkWire.Protocol.Routing

variable {M : Type}

/-! ### Reading the log -/

/-- A message queued under a key, for a promise. -/
structure Queued (M : Type) where
  key : ℕ
  channel : ℕ
  body : OutgoingBody M

/-- The wire ID of the request under a key. -/
structure Assigned where
  id : ℕ
  key : ℕ

def queuedOf : Event M → Option (Queued M)
  | .queued key channel body => some ⟨key, channel, body⟩
  | _ => none

def assignedOf : Event M → Option Assigned
  | .assigned id key => some ⟨id, key⟩
  | _ => none

/-- The messages queued, in order. -/
def queuedList (log : List (Event M)) : List (Queued M) := log.filterMap queuedOf

/-- The wire IDs assigned, in order. -/
def assignedList (log : List (Event M)) : List Assigned := log.filterMap assignedOf

@[simp] theorem queuedList_append (log log' : List (Event M)) :
    queuedList (log ++ log') = queuedList log ++ queuedList log' := List.filterMap_append

@[simp] theorem assignedList_append (log log' : List (Event M)) :
    assignedList (log ++ log') = assignedList log ++ assignedList log' := List.filterMap_append

@[simp] theorem queuedList_expired (ids : List ℕ) :
    queuedList (ids.map (Event.expired (M := M))) = [] := by
  simp [queuedList, queuedOf, List.filterMap_map, Function.comp_def]

@[simp] theorem assignedList_expired (ids : List ℕ) :
    assignedList (ids.map (Event.expired (M := M))) = [] := by
  simp [assignedList, assignedOf, List.filterMap_map, Function.comp_def]

/-- **The tracing invariant**, over the components of a session: `fresh` is its next key, `channels`
its next promise, `nextId` its next wire ID. -/
structure Traced (log : List (Event M)) (operations : Operations)
    (outgoing : List (OutgoingMessage M)) (outstanding : Outstanding) (fresh channels : ℕ)
    (parity : Parity) (nextId : Option ℕ) : Prop where
  queued_sorted : (queuedList log).Pairwise fun a b => a.key < b.key ∧ a.channel < b.channel
  queued_lt : ∀ q ∈ queuedList log, q.key < fresh ∧ q.channel < channels
  outgoing_sorted : outgoing.Pairwise fun a b => a.key < b.key
  outgoing_queued : ∀ m ∈ outgoing, ∃ c, ⟨m.key, c, m.body⟩ ∈ queuedList log
  operation_queued : ∀ key operation, operations.lookup key = some operation →
    ∃ body, ⟨key, operation.sender.channel, body⟩ ∈ queuedList log
  outstanding_assigned : ∀ id key, outstanding.lookup id = some key → ⟨id, key⟩ ∈ assignedList log
  assigned_sorted : (assignedList log).Pairwise fun a b => a.id < b.id ∧ a.key < b.key
  assigned_queued : ∀ a ∈ assignedList log, ∃ c m, ⟨a.key, c, .request m⟩ ∈ queuedList log
  assigned_outgoing : ∀ a ∈ assignedList log, ∀ m ∈ outgoing, a.key < m.key
  assigned_parity : ∀ a ∈ assignedList log, Parity.of a.id = parity
  assigned_lt : ∀ id, nextId = some id → ∀ a ∈ assignedList log, a.id < id
  nextId_parity : ∀ id, nextId = some id → Parity.of id = parity

namespace Traced

variable {log : List (Event M)} {operations : Operations} {outgoing : List (OutgoingMessage M)}
  {outstanding : Outstanding} {fresh channels : ℕ} {parity : Parity} {nextId : Option ℕ}

theorem new : Traced (M := M) [] ∅ [] ∅ 0 0 parity (some parity.first) := by
  constructor <;> simp [queuedList, assignedList]
  cases parity <;> rfl

/-- What leaves the queues leaves the rest in order, and other events do not matter. -/
theorem shrink (h : Traced log operations outgoing outstanding fresh channels parity nextId)
    {log' : List (Event M)} {operations' : Operations} {outgoing' : List (OutgoingMessage M)}
    {outstanding' : Outstanding} {nextId' : Option ℕ} (hlq : queuedList log' = queuedList log)
    (hla : assignedList log' = assignedList log)
    (ho : ∀ key operation, operations'.lookup key = some operation →
      operations.lookup key = some operation)
    (hq : outgoing'.Sublist outgoing)
    (hs : ∀ id key, outstanding'.lookup id = some key → outstanding.lookup id = some key)
    (hn : ∀ id, nextId' = some id → nextId = some id) :
    Traced log' operations' outgoing' outstanding' fresh channels parity nextId' where
  queued_sorted := by rw [hlq]; exact h.queued_sorted
  queued_lt := by rw [hlq]; exact h.queued_lt
  outgoing_sorted := h.outgoing_sorted.sublist hq
  outgoing_queued m hm := by rw [hlq]; exact h.outgoing_queued m (hq.subset hm)
  operation_queued key operation hl := by rw [hlq]; exact h.operation_queued _ _ (ho _ _ hl)
  outstanding_assigned id key hl := by rw [hla]; exact h.outstanding_assigned _ _ (hs _ _ hl)
  assigned_sorted := by rw [hla]; exact h.assigned_sorted
  assigned_queued := by rw [hla, hlq]; exact h.assigned_queued
  assigned_outgoing a ha m hm := by
    rw [hla] at ha
    exact h.assigned_outgoing a ha m (hq.subset hm)
  assigned_parity := by rw [hla]; exact h.assigned_parity
  assigned_lt id hid := by rw [hla]; exact h.assigned_lt id (hn id hid)
  nextId_parity id hid := h.nextId_parity id (hn id hid)

/-- A promise that was never queued. -/
theorem skip (h : Traced log operations outgoing outstanding fresh channels parity nextId) :
    Traced log operations outgoing outstanding fresh (channels + 1) parity nextId :=
  { h with queued_lt := fun q hq => ⟨(h.queued_lt q hq).1, by have := (h.queued_lt q hq).2; omega⟩ }

/-- `enqueue` logs the key and the promise. -/
theorem push (h : Traced log operations outgoing outstanding fresh channels parity nextId)
    (body : OutgoingBody M) (operation : PendingOperation)
    (hc : operation.sender.channel = channels) :
    Traced (log ++ [.queued fresh channels body]) (operations.insert fresh operation)
      (outgoing ++ [⟨body, fresh⟩]) outstanding (fresh + 1) (channels + 1) parity nextId := by
  have hq : queuedList (log ++ [.queued fresh channels body]) =
      queuedList log ++ [⟨fresh, channels, body⟩] := by simp [queuedList, queuedOf]
  have ha : assignedList (log ++ [.queued fresh channels body]) = assignedList log := by
    simp [assignedList, assignedOf]
  have hlt : ∀ a ∈ assignedList log, a.key < fresh := by
    intro a ha
    obtain ⟨c, m, hm⟩ := h.assigned_queued a ha
    exact (h.queued_lt _ hm).1
  refine ⟨?_, ?_, ?_, ?_, ?_, ?_, ?_, ?_, ?_, ?_, ?_, h.nextId_parity⟩
  · rw [hq, List.pairwise_append]
    refine ⟨h.queued_sorted, by simp, ?_⟩
    rintro q hm q' hm'
    rw [List.mem_singleton.mp hm']
    exact h.queued_lt q hm
  · rw [hq]
    intro q hm
    rcases List.mem_append.mp hm with hm | hm
    · have := h.queued_lt q hm; omega
    · rw [List.mem_singleton.mp hm]; exact ⟨Nat.lt_succ_self _, Nat.lt_succ_self _⟩
  · rw [List.pairwise_append]
    refine ⟨h.outgoing_sorted, by simp, ?_⟩
    rintro m hm m' hm'
    rw [List.mem_singleton.mp hm']
    obtain ⟨c, hc⟩ := h.outgoing_queued m hm
    exact (h.queued_lt _ hc).1
  · rw [hq]
    intro m hm
    rcases List.mem_append.mp hm with hm | hm
    · obtain ⟨c, hc⟩ := h.outgoing_queued m hm
      exact ⟨c, List.mem_append_left _ hc⟩
    · rw [List.mem_singleton.mp hm]
      exact ⟨channels, by simp⟩
  · rw [hq]
    intro key operation' hl
    rw [lookup_insert_eq] at hl
    split_ifs at hl with hk
    · cases hl
      exact ⟨body, by simp [hk, hc]⟩
    · obtain ⟨b, hb⟩ := h.operation_queued key operation' hl
      exact ⟨b, List.mem_append_left _ hb⟩
  · rw [ha]; exact h.outstanding_assigned
  · rw [ha]; exact h.assigned_sorted
  · rw [ha, hq]
    intro a hm
    obtain ⟨c, m, hm⟩ := h.assigned_queued a hm
    exact ⟨c, m, List.mem_append_left _ hm⟩
  · rw [ha]
    intro a hm m hm'
    rcases List.mem_append.mp hm' with hm' | hm'
    · exact h.assigned_outgoing a hm m hm'
    · rw [List.mem_singleton.mp hm']; exact hlt a hm
  · rw [ha]; exact h.assigned_parity
  · rw [ha]; exact h.assigned_lt

/-- The writer takes a request under the next wire ID. -/
theorem assign {m : OutgoingMessage M} {id : ℕ}
    (h : Traced log operations (m :: outgoing) outstanding fresh channels parity (some id))
    {message : M} (hb : m.body = .request message) {nextId' : Option ℕ}
    (hn : ∀ n, nextId' = some n → n = id + 2) :
    Traced (log ++ [.assigned id m.key]) operations outgoing (outstanding.insert id m.key) fresh
      channels parity nextId' := by
  have hq : queuedList (log ++ [.assigned id m.key]) = queuedList log := by
    simp [queuedList, queuedOf]
  have ha : assignedList (log ++ [.assigned id m.key]) = assignedList log ++ [⟨id, m.key⟩] := by
    simp [assignedList, assignedOf]
  obtain ⟨hhead, htail⟩ := List.pairwise_cons.mp h.outgoing_sorted
  refine ⟨?_, ?_, htail, ?_, ?_, ?_, ?_, ?_, ?_, ?_, ?_, ?_⟩
  · rw [hq]; exact h.queued_sorted
  · rw [hq]; exact h.queued_lt
  · rw [hq]; exact fun m' hm' => h.outgoing_queued m' (List.mem_cons_of_mem _ hm')
  · rw [hq]; exact h.operation_queued
  · rw [ha]
    intro i key hl
    rw [lookup_insert_eq] at hl
    split_ifs at hl with hi
    · cases hl; simp [hi]
    · exact List.mem_append_left _ (h.outstanding_assigned i key hl)
  · rw [ha, List.pairwise_append]
    refine ⟨h.assigned_sorted, by simp, ?_⟩
    rintro a hm a' hm'
    rw [List.mem_singleton.mp hm']
    exact ⟨h.assigned_lt id rfl a hm, h.assigned_outgoing a hm m (by simp)⟩
  · rw [ha, hq]
    intro a hm
    rcases List.mem_append.mp hm with hm | hm
    · exact h.assigned_queued a hm
    · rw [List.mem_singleton.mp hm]
      obtain ⟨c, hc⟩ := h.outgoing_queued m (by simp)
      exact ⟨c, message, hb ▸ hc⟩
  · rw [ha]
    intro a hm m' hm'
    rcases List.mem_append.mp hm with hm | hm
    · exact h.assigned_outgoing a hm m' (List.mem_cons_of_mem _ hm')
    · rw [List.mem_singleton.mp hm]; exact hhead m' hm'
  · rw [ha]
    intro a hm
    rcases List.mem_append.mp hm with hm | hm
    · exact h.assigned_parity a hm
    · rw [List.mem_singleton.mp hm]; exact h.nextId_parity id rfl
  · rw [ha]
    intro n hn' a hm
    have := hn n hn'
    rcases List.mem_append.mp hm with hm | hm
    · have := h.assigned_lt id rfl a hm; omega
    · rw [List.mem_singleton.mp hm]; show id < n; omega
  · intro n hn'
    rw [hn n hn', ← h.nextId_parity id rfl]
    simp [Parity.of]

end Traced

/-! ### The critical sections keep it -/

/-- The next wire ID, while the session is open. -/
def nextId (s : SessionInner M) : Option ℕ :=
  match s.state with
  | .opened o => o.nextId
  | .closed _ => none

/-- The tracing invariant of a session. -/
def Traces (s : SessionInner M) : Prop :=
  Traced s.log s.operations s.outgoing s.outstanding s.nextKey s.shared.nextChannel s.side.parity
    (nextId s)

theorem lookup_of_erase {β : Type} {a b : ℕ} {s : AList fun _ : ℕ => β} {v : β}
    (h : (s.erase b).lookup a = some v) : s.lookup a = some v := by
  rw [lookup_erase_eq] at h
  split_ifs at h
  exact h

theorem failAll_nextChannel (error : Error) (now : ℕ) (keys : List ℕ) (operations : Operations)
    (w : Shared) : (failAll error now keys (operations, w)).2.nextChannel = w.nextChannel := by
  refine failAll_rule (P := fun _ w' => w'.nextChannel = w.nextChannel) ?_ keys _ _ rfl
  intro _ w' _ operation _ h
  rw [PendingOperation.fail, send_nextChannel, h]

namespace Traces

variable {s s' : SessionInner M}

theorem opened (h : Traces s) {o : OpenState M} (hs : s.state = .opened o) :
    Traced s.log o.operations o.outgoing o.outstanding s.nextKey s.shared.nextChannel
      s.side.parity o.nextId := by
  simpa only [Traces, SessionInner.operations, SessionInner.outgoing, SessionInner.outstanding,
    nextId, hs] using h

/-- What leaves the queues of an open session leaves the rest in order. -/
theorem of_opened {o o' : OpenState M} (h : Traces s) (hs : s.state = .opened o)
    (hs' : s'.state = .opened o') (hlq : queuedList s'.log = queuedList s.log)
    (hla : assignedList s'.log = assignedList s.log)
    (ho : ∀ key operation, o'.operations.lookup key = some operation →
      o.operations.lookup key = some operation)
    (hq : o'.outgoing.Sublist o.outgoing)
    (hos : ∀ id key, o'.outstanding.lookup id = some key → o.outstanding.lookup id = some key)
    (hn : o'.nextId = o.nextId) (hk : s'.nextKey = s.nextKey)
    (hc : s'.shared.nextChannel = s.shared.nextChannel) (hside : s'.side = s.side) :
    Traces s' := by
  simp only [Traces, SessionInner.operations, SessionInner.outgoing, SessionInner.outstanding,
    nextId, hs', hk, hc, hside]
  exact (h.opened hs).shrink hlq hla ho hq hos fun id hid => hn ▸ hid

/-- Nothing but the state, the log and the counters matters. -/
theorem congr (h : Traces s) (hs : s'.state = s.state) (hlq : queuedList s'.log = queuedList s.log)
    (hla : assignedList s'.log = assignedList s.log) (hk : s'.nextKey = s.nextKey)
    (hc : s'.shared.nextChannel = s.shared.nextChannel) (hside : s'.side = s.side) :
    Traces s' := by
  simp only [Traces, SessionInner.operations, SessionInner.outgoing, SessionInner.outstanding,
    nextId, hs, hk, hc, hside]
  exact Traced.shrink h hlq hla (fun _ _ h => h) (List.Sublist.refl _) (fun _ _ h => h)
    fun _ h => h

theorem close (h : Traces s) (error : Error) (now : ℕ) : Traces (s.close error now).1 := by
  have hc := close_cases s error now
  generalize s.close error now = r at hc ⊢
  cases hc with
  | already hs => exact h
  | closed hs =>
    simp only [Traces, failAll_nextChannel]
    refine Traced.shrink h rfl rfl ?_ (List.nil_sublist _) ?_ ?_
    · intro key operation hl; cases hl
    · intro id key hl; cases hl
    · intro id hl; cases hl

theorem expire (h : Traces s) (now : ℕ) : Traces (s.expire now) := by
  have hc := expire_cases s now
  generalize s.expire now = r at hc ⊢
  cases hc with
  | closed hs => exact h
  | @expired o hs =>
    refine h.of_opened hs rfl ?_ ?_ ?_ List.filter_sublist (fun _ _ h => h) rfl rfl ?_ rfl
    · simp [expireTo]
    · simp [expireTo]
    · intro key operation hl
      exact Option.eq_some_of_filter_eq_some ((failAll_expired_lookup now _ s.shared key) ▸ hl)
    · exact failAll_nextChannel _ _ _ _ _

theorem setInboundLimits (h : Traces s) (requests bytes now : ℕ) :
    Traces (s.setInboundLimits requests bytes now).1 := by
  have hc := setInboundLimits_cases s requests bytes now
  generalize s.setInboundLimits requests bytes now = r at hc ⊢
  cases hc with
  | closed hs => exact h
  | exceeded hs _ =>
    have ho := h.opened hs
    exact Traces.close (s := { s with state := .opened _ }) ho _ _
  | limited hs _ _ =>
    have ho := h.opened hs
    exact ho

theorem setAutoreplyTimeout (h : Traces s) (timeout : ℕ) :
    Traces (s.setAutoreplyTimeout timeout) := by
  rcases setAutoreplyTimeout_cases s timeout with ⟨e, hs, he⟩ | ⟨o, hs, he⟩
  · rwa [he]
  · have ho := h.opened hs
    rw [he]
    exact ho

theorem submit (h : Traces s) {body : OutgoingBody M} {deadline now : ℕ}
    (hs' : s.submit body deadline now = .ok s') : Traces s' := by
  cases submit_cases hs' with
  | late hs _ =>
    have ho := (h.opened hs).skip
    simp only [Traces, PendingOperation.fail, send_nextChannel]
    exact ho.shrink (by simp) (by simp) (fun _ _ h => h) (List.Sublist.refl _) (fun _ _ h => h)
      fun _ h => h
  | queued hs _ =>
    have ho := (h.opened hs).push body ⟨deadline, (s.shared.pair body.isRequest).1⟩ rfl
    exact ho

theorem completeResponse_nextChannel {operation : PendingOperation} {now : ℕ} {w w' : Shared}
    {bytes : Bytes} {header : Header} {limit : ℕ} {result : Except Error Unit}
    (h : operation.completeResponse now w bytes header limit = .ok (w', result)) :
    w'.nextChannel = w.nextChannel := by
  cases completeResponse_cases h <;> simp [PendingOperation.fail]

theorem handleMessage (h : Traces s) {codec : Codec M} {bytes : Bytes} {now : ℕ}
    {result : Except Error (Option ℕ)}
    (hs' : s.handleMessage codec bytes now = .ok (s', result)) : Traces s' := by
  cases handleMessage_cases hs' with
  | @unknown header o _ _ hs _ _ _ =>
    refine h.of_opened hs rfl ?_ ?_ (fun _ _ h => h) (List.Sublist.refl _) (fun _ _ h => h) rfl rfl
      rfl rfl
    · simp [queuedList, queuedOf]
    · simp [assignedList, assignedOf]
  | @admitted header o _ _ _ hs _ _ _ _ _ =>
    refine h.of_opened hs rfl ?_ ?_ (fun _ _ h => h) (List.Sublist.refl _) (fun _ _ h => h) rfl rfl
      rfl rfl
    · simp [queuedList, queuedOf]
    · simp [assignedList, assignedOf]
  | late _ _ hs _ _ =>
    refine h.of_opened hs rfl rfl rfl (fun _ _ h => h) (List.Sublist.refl _) ?_ rfl rfl rfl rfl
    exact fun id key hl => lookup_of_erase hl
  | completed _ _ hs _ _ hc =>
    refine h.of_opened hs rfl rfl rfl ?_ (List.Sublist.refl _) ?_ rfl rfl ?_ rfl
    · exact fun key operation hl => lookup_of_erase hl
    · exact fun id key hl => lookup_of_erase hl
    · exact completeResponse_nextChannel hc
  | _ => exact h

theorem takeIncoming (h : Traces s) {taken : ℕ × IncomingEnvelope}
    (hs' : s.takeIncoming = some (s', taken)) : Traces s' := by
  obtain ⟨o, rest, hs, -, rfl⟩ := takeIncoming_cases hs'
  have ho := h.opened hs
  exact ho

theorem nextOutgoing (h : Traces s) {now : ℕ} {pickup : SessionInner.Pickup M}
    (hs' : s.nextOutgoing now = .ok (s', pickup)) : Traces s' := by
  have he := h.expire now
  cases nextOutgoing_cases hs' with
  | @request o m rest message id hs hq hb hi =>
    have ho := he.opened hs
    rw [hq, hi] at ho
    refine ho.assign hb fun n hn => ?_
    simp only [nextId] at hn
    split_ifs at hn
    exact (Option.some.inj hn).symm
  | @reply o m rest id result hs hq hb =>
    refine he.of_opened hs rfl ?_ ?_ (fun _ _ h => h) ?_ (fun _ _ h => h) rfl rfl rfl rfl
    · simp [queuedList, queuedOf]
    · simp [assignedList, assignedOf]
    · rw [hq]; exact List.sublist_cons_self _ _
  | _ => exact he

theorem withdraw (h : Traces s) (id : ℕ) : Traces (s.withdraw id) := by
  rcases withdraw_cases s id with ⟨e, hs, he⟩ | ⟨o, hs, he⟩
  · rwa [he]
  · rw [he]
    refine h.of_opened hs rfl rfl rfl (fun _ _ h => h) (List.Sublist.refl _) ?_ rfl rfl rfl rfl
    exact fun id key hl => lookup_of_erase hl

theorem recordWrite (h : Traces s) (key : ℕ) (result : Except Error Unit) (now : ℕ) :
    Traces (s.recordWrite key result now) := by
  have hc := recordWrite_cases s key result now
  generalize s.recordWrite key result now = r at hc ⊢
  cases hc with
  | kept => exact h
  | failed hs _ =>
    refine h.of_opened hs rfl rfl rfl ?_ (List.Sublist.refl _) (fun _ _ h => h) rfl rfl ?_ rfl
    · exact fun key operation hl => lookup_of_erase hl
    · simp [PendingOperation.fail]
  | written hs _ _ _ =>
    refine h.of_opened hs rfl rfl rfl ?_ (List.Sublist.refl _) (fun _ _ h => h) rfl rfl ?_ rfl
    · exact fun key operation hl => lookup_of_erase hl
    · simp

end Traces

/-! ### The log only grows -/

/-- A later state of the same session. -/
structure Later (s s' : SessionInner M) : Prop where
  side : s'.side = s.side
  log : s.log <+: s'.log

namespace Later

variable {s s' : SessionInner M}

theorem refl (s : SessionInner M) : Later s s := ⟨rfl, List.prefix_rfl⟩

theorem trans {s'' : SessionInner M} (h : Later s s') (h' : Later s' s'') : Later s s'' :=
  ⟨h'.side.trans h.side, h.log.trans h'.log⟩

theorem close (error : Error) (now : ℕ) : Later s (s.close error now).1 := by
  have hc := close_cases s error now
  generalize s.close error now = r at hc ⊢
  cases hc <;> exact ⟨rfl, List.prefix_rfl⟩

theorem expire (now : ℕ) : Later s (s.expire now) := by
  have hc := expire_cases s now
  generalize s.expire now = r at hc ⊢
  cases hc with
  | closed _ => exact refl s
  | expired _ => exact ⟨rfl, List.prefix_append _ _⟩

theorem setInboundLimits (requests bytes now : ℕ) :
    Later s (s.setInboundLimits requests bytes now).1 := by
  have hc := setInboundLimits_cases s requests bytes now
  generalize s.setInboundLimits requests bytes now = r at hc ⊢
  cases hc <;> exact ⟨rfl, List.prefix_rfl⟩

theorem setAutoreplyTimeout (timeout : ℕ) : Later s (s.setAutoreplyTimeout timeout) := by
  rcases setAutoreplyTimeout_cases s timeout with ⟨e, _, he⟩ | ⟨o, _, he⟩
  · rw [he]; exact refl s
  · rw [he]; exact ⟨rfl, List.prefix_rfl⟩

theorem submit {body : OutgoingBody M} {deadline now : ℕ}
    (hs' : s.submit body deadline now = .ok s') : Later s s' := by
  cases submit_cases hs' <;> exact ⟨rfl, List.prefix_append _ _⟩

theorem handleMessage {codec : Codec M} {bytes : Bytes} {now : ℕ}
    {result : Except Error (Option ℕ)}
    (hs' : s.handleMessage codec bytes now = .ok (s', result)) : Later s s' := by
  cases handleMessage_cases hs' with
  | unknown => exact ⟨rfl, List.prefix_append _ _⟩
  | admitted => exact ⟨rfl, List.prefix_append _ _⟩
  | _ => exact ⟨rfl, List.prefix_rfl⟩

theorem takeIncoming {taken : ℕ × IncomingEnvelope} (hs' : s.takeIncoming = some (s', taken)) :
    Later s s' := by
  obtain ⟨o, rest, -, -, rfl⟩ := takeIncoming_cases hs'
  exact ⟨rfl, List.prefix_rfl⟩

theorem nextOutgoing {now : ℕ} {pickup : SessionInner.Pickup M}
    (hs' : s.nextOutgoing now = .ok (s', pickup)) : Later s s' := by
  have he : Later s (s.expire now) := expire now
  cases nextOutgoing_cases hs' with
  | request => exact he.trans ⟨rfl, List.prefix_append _ _⟩
  | reply => exact he.trans ⟨rfl, List.prefix_append _ _⟩
  | _ => exact he

theorem withdraw (id : ℕ) : Later s (s.withdraw id) := by
  rcases withdraw_cases s id with ⟨e, _, he⟩ | ⟨o, _, he⟩
  · rw [he]; exact refl s
  · rw [he]; exact ⟨rfl, List.prefix_rfl⟩

theorem recordWrite (key : ℕ) (result : Except Error Unit) (now : ℕ) :
    Later s (s.recordWrite key result now) := by
  have hc := recordWrite_cases s key result now
  generalize s.recordWrite key result now = r at hc ⊢
  cases hc <;> exact ⟨rfl, List.prefix_rfl⟩

theorem logged {s : SessionInner M} (e : Event M) : Later s { s with log := s.log ++ [e] } :=
  ⟨rfl, List.prefix_append _ _⟩

end Later

/-- An event of neither kind. -/
theorem Traces.logged {s : SessionInner M} (h : Traces s) {e : Event M} (hq : queuedOf e = none)
    (ha : assignedOf e = none) : Traces { s with log := s.log ++ [e] } := by
  refine h.congr rfl ?_ ?_ rfl rfl rfl
  · simp [queuedList, hq]
  · simp [assignedList, ha]

/-- **One step**: the session stays traced and its log grows. -/
theorem traces_step {codec : Codec M} {i : Option Bytes} {s s' : Sys M} (h : Traces s.session)
    (hs : Step codec s i s') : Traces s'.session ∧ Later s.session s'.session := by
  cases hs with
  | request hm => exact ⟨h.submit hm, .submit hm⟩
  | respond _ hm => exact ⟨(h.submit hm).logged rfl rfl, (Later.submit hm).trans (.logged _)⟩
  | recv _ hm => exact ⟨h.takeIncoming hm, .takeIncoming hm⟩
  | @decode id message _ =>
    have h' : Traces { s.session with shared := s.session.shared.release message } :=
      h.congr rfl rfl rfl rfl rfl rfl
    unfold Sys.decodeRequest
    dsimp only
    split
    · exact ⟨h'.logged rfl rfl, ⟨rfl, List.prefix_append _ _⟩⟩
    · exact ⟨h', ⟨rfl, List.prefix_rfl⟩⟩
    · exact ⟨h', ⟨rfl, List.prefix_rfl⟩⟩
  | autoreplyQueued _ hm =>
    exact ⟨(h.submit hm).logged rfl rfl, (Later.submit hm).trans (.logged _)⟩
  | messageRefused hm => exact ⟨h.handleMessage hm, .handleMessage hm⟩
  | messageRouted hm => exact ⟨h.handleMessage hm, .handleMessage hm⟩
  | messageUnknown hm => exact ⟨h.handleMessage hm, .handleMessage hm⟩
  | close => exact ⟨h.close _ _, .close _ _⟩
  | closeOwed => exact ⟨h.close _ _, .close _ _⟩
  | closeReceive => exact ⟨h.close _ _, .close _ _⟩
  | setInboundLimits => exact ⟨h.setInboundLimits _ _ _, .setInboundLimits _ _ _⟩
  | setAutoreplyTimeout => exact ⟨h.setAutoreplyTimeout _, .setAutoreplyTimeout _⟩
  | expire => exact ⟨h.expire _, .expire _⟩
  | pickupClosed _ hn => exact ⟨h.nextOutgoing hn, .nextOutgoing hn⟩
  | pickupNone _ hn => exact ⟨h.nextOutgoing hn, .nextOutgoing hn⟩
  | pickup _ hn => exact ⟨h.nextOutgoing hn, .nextOutgoing hn⟩
  | @withdraw id message _ hw =>
    cases message.body.isRequest with
    | true => exact ⟨h.withdraw id, .withdraw id⟩
    | false => exact ⟨h, .refl _⟩
  | report hw => exact ⟨h.recordWrite _ _ _, .recordWrite _ _ _⟩
  | fail hw => exact ⟨h.close _ _, .close _ _⟩
  | @dropReceiver c _ _ =>
    refine ⟨h.congr rfl rfl rfl rfl ?_ rfl, ⟨rfl, List.prefix_rfl⟩⟩
    cases (s.session.shared.channels c).buffer <;> simp [Sys.withShared]
  | _ => exact ⟨h.congr rfl rfl rfl rfl rfl rfl, ⟨rfl, List.prefix_rfl⟩⟩

/-! ### The writer -/

/-- A message with its wire ID, as the log has it: a request got the ID, a reply brought it. -/
def Dispatched (log : List (Event M)) (id : ℕ) (message : OutgoingMessage M) : Prop :=
  (∃ c, ⟨message.key, c, message.body⟩ ∈ queuedList log) ∧
    match message.body with
    | .request _ => ⟨id, message.key⟩ ∈ assignedList log
    | .reply id' _ => id' = id

theorem Dispatched.mono {log log' : List (Event M)} {id : ℕ} {message : OutgoingMessage M}
    (h : Dispatched log id message) (hl : log <+: log') : Dispatched log' id message := by
  obtain ⟨rest, rfl⟩ := hl
  obtain ⟨⟨c, hc⟩, hb⟩ := h
  refine ⟨⟨c, ?_⟩, ?_⟩
  · rw [queuedList_append]; exact List.mem_append_left _ hc
  · cases hm : message.body with
    | request m =>
      rw [hm] at hb
      rw [assignedList_append]
      exact List.mem_append_left _ hb
    | reply id' result =>
      rw [hm] at hb
      exact hb

/-- The requests among the messages sent. -/
def sentRequests (outbox : List (Sent M)) : List (Sent M) :=
  outbox.filter (·.message.body.isRequest)

/-- **The tracing invariant of a session with its writer.** -/
structure TracedSys (codec : Codec M) (side : Side) (s : Sys M) : Prop where
  side_eq : s.session.side = side
  traces : Traces s.session
  holding : ∀ id message, s.writer = .holding id message →
    Dispatched s.session.log id message
  holding_fresh : ∀ id message, s.writer = .holding id message → message.body.isRequest = true →
    ∀ e ∈ sentRequests s.outbox, e.id < id
  sent : ∀ e ∈ s.outbox, Dispatched s.session.log e.id e.message ∧
    codec.encode side e.id e.message.body.result = .ok e.bytes
  sent_sorted : (sentRequests s.outbox).Pairwise fun a b => a.id < b.id

namespace TracedSys

variable {codec : Codec M} {side : Side} {s s' : Sys M}

/-- Nothing but the session changes. -/
theorem keep (h : TracedSys codec side s) (ht : Traces s'.session ∧ Later s.session s'.session)
    (hw : s'.writer = s.writer) (ho : s'.outbox = s.outbox) : TracedSys codec side s' where
  side_eq := ht.2.side.trans h.side_eq
  traces := ht.1
  holding id message hm := (h.holding id message (hw ▸ hm)).mono ht.2.log
  holding_fresh id message hm := by rw [ho]; exact h.holding_fresh id message (hw ▸ hm)
  sent e he := by
    rw [ho] at he
    exact ⟨(h.sent e he).1.mono ht.2.log, (h.sent e he).2⟩
  sent_sorted := by rw [ho]; exact h.sent_sorted

/-- The writer has nothing in its hands any more. -/
theorem idle (h : TracedSys codec side s) (ht : Traces s'.session ∧ Later s.session s'.session)
    (hw : ∀ id message, s'.writer ≠ .holding id message) (ho : s'.outbox = s.outbox) :
    TracedSys codec side s' where
  side_eq := ht.2.side.trans h.side_eq
  traces := ht.1
  holding id message hm := absurd hm (hw id message)
  holding_fresh id message hm := absurd hm (hw id message)
  sent e he := by
    rw [ho] at he
    exact ⟨(h.sent e he).1.mono ht.2.log, (h.sent e he).2⟩
  sent_sorted := by rw [ho]; exact h.sent_sorted

/-- The message in the writer's hands is sent. -/
theorem deliver (h : TracedSys codec side s) {id : ℕ} {message : OutgoingMessage M} {bytes : Bytes}
    (hw : s.writer = .holding id message)
    (he : codec.encode s.session.side id message.body.result = .ok bytes) {writer : Writer M}
    (hw' : ∀ id message, writer ≠ .holding id message) :
    TracedSys codec side { s with
      writer := writer
      outbox := s.outbox ++ [⟨id, message, bytes⟩] } where
  side_eq := h.side_eq
  traces := h.traces
  holding id message hm := absurd hm (hw' id message)
  holding_fresh id message hm := absurd hm (hw' id message)
  sent e hm := by
    rcases List.mem_append.mp hm with hm | hm
    · exact h.sent e hm
    · rw [List.mem_singleton.mp hm]
      exact ⟨h.holding id message hw, h.side_eq ▸ he⟩
  sent_sorted := by
    simp only [sentRequests, List.filter_append, List.pairwise_append]
    refine ⟨h.sent_sorted, by cases hb : message.body.isRequest <;> simp [hb], ?_⟩
    intro a ha b hb
    obtain ⟨hb, hr⟩ := List.mem_filter.mp hb
    rw [List.mem_singleton.mp hb] at hr ⊢
    exact h.holding_fresh id message hw hr a ha

/-- The writer takes a message, a request under an ID above all those sent. -/
theorem pickup (h : TracedSys codec side s) {now id : ℕ} {session : SessionInner M}
    {message : OutgoingMessage M}
    (hn : s.session.nextOutgoing now = .ok (session, .taken id message)) :
    TracedSys codec side { s.withSession session with writer := .holding id message } := by
  have ht := h.traces.nextOutgoing hn
  have hl := Later.nextOutgoing hn
  have he := h.traces.expire now
  have hle : Later s.session (s.session.expire now) := .expire now
  have hd : Dispatched session.log id message ∧
      (message.body.isRequest = true → ∀ e ∈ sentRequests s.outbox, e.id < id) := by
    cases nextOutgoing_cases hn with
    | @request o m rest body id hs hq hb hi =>
      have ho := he.opened hs
      obtain ⟨c, hc⟩ := ho.outgoing_queued message (by rw [hq]; simp)
      refine ⟨⟨⟨c, ?_⟩, ?_⟩, fun _ e hm => ?_⟩
      · rw [queuedList_append]; exact List.mem_append_left _ hc
      · rw [hb]; simp [assignedList, assignedOf]
      · -- everything sent was assigned before
        obtain ⟨hm, hr⟩ := List.mem_filter.mp hm
        obtain ⟨-, hid⟩ := (h.sent e hm).1.mono hle.log
        cases hbody : e.message.body with
        | request m' =>
          rw [hbody] at hid
          exact ho.assigned_lt id hi _ hid
        | reply id' result => rw [hbody] at hr; cases hr
    | @reply o m rest id result hs hq hb =>
      have ho := he.opened hs
      obtain ⟨c, hc⟩ := ho.outgoing_queued message (by rw [hq]; simp)
      refine ⟨⟨⟨c, ?_⟩, by rw [hb]⟩, fun hr => ?_⟩
      · rw [queuedList_append]; exact List.mem_append_left _ hc
      · rw [hb] at hr; cases hr
  refine ⟨hl.side.trans h.side_eq, ht, ?_, ?_, ?_, h.sent_sorted⟩
  · intro id' message' hw; cases hw; exact hd.1
  · intro id' message' hw; cases hw; exact hd.2
  · intro e hm; exact ⟨(h.sent e hm).1.mono hl.log, (h.sent e hm).2⟩

end TracedSys

theorem tracedSys_step {codec : Codec M} {side : Side} {i : Option Bytes} {s s' : Sys M}
    (h : TracedSys codec side s) (hs : Step codec s i s') : TracedSys codec side s' := by
  have ht := traces_step h.traces hs
  cases hs with
  | @decode id message _ =>
    refine h.keep ht ?_ ?_
    all_goals unfold Sys.decodeRequest; dsimp only; split <;> rfl
  | pickupClosed _ _ => exact h.idle ht (by simp) rfl
  | pickup _ hn => exact h.pickup hn
  | refuse _ _ => exact h.idle ht (by simp) rfl
  | send hw he => exact h.deliver hw he (by simp)
  | sendFailed delivered hw he =>
    cases delivered with
    | true => exact h.deliver hw he (by simp)
    | false => exact h.idle ht (by simp) rfl
  | withdraw _ => exact h.idle ht (by simp) rfl
  | report _ => exact h.idle ht (by simp) rfl
  | fail _ => exact h.idle ht (by simp) rfl
  | _ => exact h.keep ht rfl rfl

theorem tracedSys_new (codec : Codec M) (side : Side) : TracedSys codec side (.new side) where
  side_eq := rfl
  traces := Traced.new
  holding id message hm := by cases hm
  holding_fresh id message hm := by cases hm
  sent e he := by cases he
  sent_sorted := List.Pairwise.nil

/-- The messages sent only grow. -/
theorem outbox_step {codec : Codec M} {i : Option Bytes} {s s' : Sys M} (hs : Step codec s i s') :
    s.outbox <+: s'.outbox := by
  cases hs with
  | decode => unfold Sys.decodeRequest; dsimp only; split <;> exact List.prefix_rfl
  | send => exact List.prefix_append _ _
  | sendFailed delivered =>
    cases delivered with
    | true => exact List.prefix_append _ _
    | false => exact List.prefix_rfl
  | _ => exact List.prefix_rfl

end ArkWire.Protocol.Tracing
