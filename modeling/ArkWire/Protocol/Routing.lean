import ArkWire.Protocol.Steps

/-! # Routing: where the key of an operation can be

A key is allocated by `enqueue` together with its operation and its queued message. The message
leaves `outgoing` for the writer's hands; a request leaves its key behind in `outstanding`, under
the wire ID of its response. `Routed` says what this gives in every state: keys of queued messages
are distinct, still have their operation, and occur in no other place; and a key under a wire ID
names a request.

The invariant is stated over the components of an open session, so that each critical section keeps
it by one of the lemmas below. -/

namespace ArkWire.Protocol.Routing

open ArkWire.Lib.Machines
open ArkWire.Transport.Errors ArkWire.Protocol.Errors ArkWire.Protocol.Envelope
open ArkWire.Protocol.Promise ArkWire.Protocol.Operation ArkWire.Protocol.Session
open ArkWire.Protocol.System ArkWire.Protocol.Sections ArkWire.Protocol.Steps

variable {M : Type}

/-- The `outstanding` map. -/
abbrev Outstanding := AList fun _ : ℕ => ℕ

/-- **The routing invariant**: `held` is the key in the writer's hands, `fresh` the next key. -/
structure Routed (operations : Operations) (outgoing : List (OutgoingMessage M))
    (outstanding : Outstanding) (held : Option ℕ) (fresh : ℕ) : Prop where
  operations_lt : ∀ key operation, operations.lookup key = some operation → key < fresh
  outstanding_lt : ∀ id key, outstanding.lookup id = some key → key < fresh
  held_lt : ∀ key, held = some key → key < fresh
  nodup : (outgoing.map (·.key)).Nodup
  held_not_queued : ∀ key, held = some key → ∀ m ∈ outgoing, m.key ≠ key
  outstanding_not_queued : ∀ id key, outstanding.lookup id = some key → ∀ m ∈ outgoing, m.key ≠ key
  queued : ∀ m ∈ outgoing, ∃ operation, operations.lookup m.key = some operation ∧
    operation.sender.response = m.body.isRequest
  outstanding_request : ∀ id key, outstanding.lookup id = some key →
    ∀ operation, operations.lookup key = some operation → operation.sender.response = true

namespace Routed

variable {operations : Operations} {outgoing : List (OutgoingMessage M)} {outstanding : Outstanding}
  {held : Option ℕ} {fresh : ℕ}

theorem new : Routed (M := M) ∅ [] ∅ none 0 := by
  constructor <;> simp

/-- A closed session has nothing left to route. -/
theorem closed (h : Routed operations outgoing outstanding held fresh) :
    Routed (M := M) ∅ [] ∅ held fresh where
  operations_lt := by simp
  outstanding_lt := by simp
  held_lt := h.held_lt
  nodup := by simp
  held_not_queued := by simp
  outstanding_not_queued := by simp
  queued := by simp
  outstanding_request := by simp

theorem queued_lt (h : Routed operations outgoing outstanding held fresh) :
    ∀ m ∈ outgoing, m.key < fresh := by
  intro m hm
  obtain ⟨operation, hl, -⟩ := h.queued m hm
  exact h.operations_lt _ _ hl

/-- An operation that no queued message names may go. -/
theorem erase (h : Routed operations outgoing outstanding held fresh) {key : ℕ}
    (hk : ∀ m ∈ outgoing, m.key ≠ key) :
    Routed (operations.erase key) outgoing outstanding held fresh where
  operations_lt k operation hl := by
    rw [lookup_erase_eq] at hl
    split_ifs at hl
    exact h.operations_lt k operation hl
  outstanding_lt := h.outstanding_lt
  held_lt := h.held_lt
  nodup := h.nodup
  held_not_queued := h.held_not_queued
  outstanding_not_queued := h.outstanding_not_queued
  queued m hm := by
    rw [lookup_erase_eq, if_neg (hk m hm)]
    exact h.queued m hm
  outstanding_request id k hk' operation hl := by
    rw [lookup_erase_eq] at hl
    split_ifs at hl
    exact h.outstanding_request id k hk' operation hl

/-- Expiry keeps the messages whose operations it keeps. -/
theorem retain (h : Routed operations outgoing outstanding held fresh) {left : Operations}
    (hl : ∀ key operation, left.lookup key = some operation →
      operations.lookup key = some operation) :
    Routed left (outgoing.filter fun m => (left.lookup m.key).isSome) outstanding held fresh where
  operations_lt k operation hk := h.operations_lt k operation (hl _ _ hk)
  outstanding_lt := h.outstanding_lt
  held_lt := h.held_lt
  nodup := h.nodup.sublist (List.filter_sublist.map _)
  held_not_queued k hk m hm := h.held_not_queued k hk m (List.mem_filter.mp hm).1
  outstanding_not_queued id k hk m hm :=
    h.outstanding_not_queued id k hk m (List.mem_filter.mp hm).1
  queued m hm := by
    obtain ⟨hm, hs⟩ := List.mem_filter.mp hm
    obtain ⟨operation, ho⟩ := Option.isSome_iff_exists.mp hs
    obtain ⟨operation', ho', hr⟩ := h.queued m hm
    rw [hl _ _ ho, Option.some.injEq] at ho'
    exact ⟨operation, ho, ho' ▸ hr⟩
  outstanding_request id k hk operation ho := h.outstanding_request id k hk operation (hl _ _ ho)

/-- `enqueue` allocates the key of the message and of its operation. -/
theorem push (h : Routed operations outgoing outstanding held fresh) (body : OutgoingBody M)
    {operation : PendingOperation} (hr : operation.sender.response = body.isRequest) :
    Routed (operations.insert fresh operation) (outgoing ++ [⟨body, fresh⟩]) outstanding held
      (fresh + 1) where
  operations_lt k op hl := by
    rw [lookup_insert_eq] at hl
    split_ifs at hl with hk
    · omega
    · have := h.operations_lt k op hl; omega
  outstanding_lt id k hk := by have := h.outstanding_lt id k hk; omega
  held_lt k hk := by have := h.held_lt k hk; omega
  nodup := by
    rw [List.map_append, List.nodup_append]
    refine ⟨h.nodup, by simp, ?_⟩
    intro k hk k' hk'
    obtain ⟨m, hm, rfl⟩ := List.mem_map.mp hk
    simp only [List.map_cons, List.map_nil, List.mem_singleton] at hk'
    have := h.queued_lt m hm; omega
  held_not_queued k hk m hm := by
    rcases List.mem_append.mp hm with hm | hm
    · exact h.held_not_queued k hk m hm
    · rw [List.mem_singleton.mp hm]; have := h.held_lt k hk; exact fun he => by simp at he; omega
  outstanding_not_queued id k hk m hm := by
    rcases List.mem_append.mp hm with hm | hm
    · exact h.outstanding_not_queued id k hk m hm
    · rw [List.mem_singleton.mp hm]
      have := h.outstanding_lt id k hk
      exact fun he => by simp at he; omega
  queued m hm := by
    rcases List.mem_append.mp hm with hm | hm
    · have := h.queued_lt m hm
      rw [lookup_insert_eq, if_neg (by omega)]
      exact h.queued m hm
    · rw [List.mem_singleton.mp hm, lookup_insert_eq, if_pos rfl]
      exact ⟨operation, rfl, hr⟩
  outstanding_request id k hk op hl := by
    have := h.outstanding_lt id k hk
    rw [lookup_insert_eq, if_neg (by omega)] at hl
    exact h.outstanding_request id k hk op hl

/-- The writer takes a reply. -/
theorem pop {m : OutgoingMessage M}
    (h : Routed operations (m :: outgoing) outstanding held fresh) :
    Routed operations outgoing outstanding (some m.key) fresh where
  operations_lt := h.operations_lt
  outstanding_lt := h.outstanding_lt
  held_lt k hk := by cases hk; exact h.queued_lt m (by simp)
  nodup := (List.nodup_cons.mp h.nodup).2
  held_not_queued k hk m' hm' := by
    cases hk
    have hn := (List.nodup_cons.mp h.nodup).1
    exact fun he => hn (List.mem_map.mpr ⟨m', hm', he⟩)
  outstanding_not_queued id k hk m' hm' := h.outstanding_not_queued id k hk m' (by simp [hm'])
  queued m' hm' := h.queued m' (by simp [hm'])
  outstanding_request := h.outstanding_request

/-- The writer takes a request, whose key stays behind under its wire ID. -/
theorem assign {m : OutgoingMessage M}
    (h : Routed operations (m :: outgoing) outstanding held fresh) (hm : m.body.isRequest = true)
    (id : ℕ) : Routed operations outgoing (outstanding.insert id m.key) (some m.key) fresh where
  operations_lt := h.operations_lt
  outstanding_lt i k hk := by
    rw [lookup_insert_eq] at hk
    split_ifs at hk
    · cases hk; exact h.queued_lt m (by simp)
    · exact h.outstanding_lt i k hk
  held_lt := h.pop.held_lt
  nodup := h.pop.nodup
  held_not_queued := h.pop.held_not_queued
  outstanding_not_queued i k hk m' hm' := by
    rw [lookup_insert_eq] at hk
    split_ifs at hk
    · cases hk; exact h.pop.held_not_queued _ rfl m' hm'
    · exact h.outstanding_not_queued i k hk m' (by simp [hm'])
  queued := h.pop.queued
  outstanding_request i k hk operation ho := by
    rw [lookup_insert_eq] at hk
    split_ifs at hk
    · cases hk
      obtain ⟨operation', ho', hr⟩ := h.queued m (by simp)
      rw [ho, Option.some.injEq] at ho'
      rw [ho', hr, hm]
    · exact h.outstanding_request i k hk operation ho

/-- A wire ID is answered or withdrawn. -/
theorem unassign (h : Routed operations outgoing outstanding held fresh) (id : ℕ) :
    Routed operations outgoing (outstanding.erase id) held fresh where
  operations_lt := h.operations_lt
  outstanding_lt i k hk := by
    rw [lookup_erase_eq] at hk
    split_ifs at hk
    exact h.outstanding_lt i k hk
  held_lt := h.held_lt
  nodup := h.nodup
  held_not_queued := h.held_not_queued
  outstanding_not_queued i k hk := by
    rw [lookup_erase_eq] at hk
    split_ifs at hk
    exact h.outstanding_not_queued i k hk
  queued := h.queued
  outstanding_request i k hk := by
    rw [lookup_erase_eq] at hk
    split_ifs at hk
    exact h.outstanding_request i k hk

/-- The writer's hands are empty again. -/
theorem release (h : Routed operations outgoing outstanding held fresh) :
    Routed operations outgoing outstanding none fresh :=
  { h with held_lt := by simp, held_not_queued := by simp }

end Routed

/-! ### The critical sections keep it -/

/-- The routing invariant of a session. -/
def Routes (s : SessionInner M) (held : Option ℕ) : Prop :=
  Routed s.operations s.outgoing s.outstanding held s.nextKey

section Sections
variable {s : SessionInner M} {held : Option ℕ}

theorem Routes.opened (h : Routes s held) {o : OpenState M} (hs : s.state = .opened o) :
    Routed o.operations o.outgoing o.outstanding held s.nextKey := by
  simpa only [Routes, SessionInner.operations, SessionInner.outgoing, SessionInner.outstanding, hs]
    using h

theorem Routes.close (h : Routes s held) (error : Error) (now : ℕ) :
    Routes (s.close error now).1 held := by
  have hc := close_cases s error now
  generalize s.close error now = r at hc ⊢
  cases hc with
  | already hs => exact h
  | closed hs =>
    have ho := h.opened hs
    exact ho.closed

theorem Routes.expire (h : Routes s held) (now : ℕ) : Routes (s.expire now) held := by
  have hc := expire_cases s now
  generalize s.expire now = r at hc ⊢
  cases hc with
  | closed hs => exact h
  | expired hs =>
    have ho := h.opened hs
    exact ho.retain fun key operation hl =>
      Option.eq_some_of_filter_eq_some ((failAll_expired_lookup now _ s.shared key) ▸ hl)

theorem Routes.setInboundLimits (h : Routes s held) (requests bytes now : ℕ) :
    Routes (s.setInboundLimits requests bytes now).1 held := by
  have hc := setInboundLimits_cases s requests bytes now
  generalize s.setInboundLimits requests bytes now = r at hc ⊢
  cases hc with
  | closed hs => exact h
  | exceeded hs _ =>
    have ho := h.opened hs
    exact Routes.close (s := { s with state := .opened _ }) ho _ _
  | limited hs _ _ =>
    have ho := h.opened hs
    exact ho

theorem Routes.setAutoreplyTimeout (h : Routes s held) (timeout : ℕ) :
    Routes (s.setAutoreplyTimeout timeout) held := by
  rcases setAutoreplyTimeout_cases s timeout with ⟨e, hs, he⟩ | ⟨o, hs, he⟩
  · rwa [he]
  · have ho := h.opened hs
    rw [he]
    exact ho

theorem Routes.submit (h : Routes s held) {body : OutgoingBody M} {deadline now : ℕ}
    {s' : SessionInner M} (hs' : s.submit body deadline now = .ok s') : Routes s' held := by
  cases submit_cases hs' with
  | late hs _ =>
    have ho := h.opened hs
    exact ho
  | queued hs _ =>
    have ho := h.opened hs
    exact ho.push body rfl

theorem Routes.handleMessage (h : Routes s held) {codec : Codec M} {bytes : Bytes} {now : ℕ}
    {s' : SessionInner M} {result : Except Error (Option ℕ)}
    (hs' : s.handleMessage codec bytes now = .ok (s', result)) : Routes s' held := by
  cases handleMessage_cases hs' with
  | unknown _ _ hs =>
    have ho := h.opened hs
    exact ho
  | admitted _ _ _ hs =>
    have ho := h.opened hs
    exact ho
  | late _ _ hs =>
    have ho := h.opened hs
    exact ho.unassign _
  | completed _ _ hs hk =>
    have ho := h.opened hs
    exact (ho.erase (ho.outstanding_not_queued _ _ hk)).unassign _
  | _ => exact h

theorem Routes.takeIncoming (h : Routes s held) {s' : SessionInner M} {taken}
    (hs' : s.takeIncoming = some (s', taken)) : Routes s' held := by
  obtain ⟨o, rest, hs, -, rfl⟩ := takeIncoming_cases hs'
  have ho := h.opened hs
  exact ho

/-- A message picked up is in the writer's hands. -/
theorem Routes.nextOutgoing (h : Routes s held) {now : ℕ} {s' : SessionInner M}
    {pickup : SessionInner.Pickup M} (hs' : s.nextOutgoing now = .ok (s', pickup)) :
    (∀ id m, pickup ≠ .taken id m) ∧ Routes s' held ∨
      ∃ id m, pickup = .taken id m ∧ Routes s' (some m.key) := by
  have he := h.expire now
  cases nextOutgoing_cases hs' with
  | closed hs => exact .inl ⟨by simp, he⟩
  | again => exact .inl ⟨by simp, he⟩
  | wait => exact .inl ⟨by simp, he⟩
  | @request o m rest message id hs hq hb hi =>
    have ho := he.opened hs
    rw [hq] at ho
    exact .inr ⟨id, m, rfl, ho.assign (by rw [hb]; rfl) id⟩
  | @reply o m rest id result hs hq hb =>
    have ho := he.opened hs
    rw [hq] at ho
    exact .inr ⟨id, m, rfl, ho.pop⟩

theorem Routes.withdraw (h : Routes s held) (id : ℕ) : Routes (s.withdraw id) held := by
  rcases withdraw_cases s id with ⟨e, hs, he⟩ | ⟨o, hs, he⟩
  · rwa [he]
  · have ho := h.opened hs
    rw [he]
    exact ho.unassign id

theorem Routes.recordWrite {key : ℕ} (h : Routes s (some key)) (result : Except Error Unit)
    (now : ℕ) : Routes (s.recordWrite key result now) none := by
  have hc := recordWrite_cases s key result now
  generalize s.recordWrite key result now = r at hc ⊢
  cases hc with
  | kept => exact Routed.release h
  | failed hs _ =>
    have ho := h.opened hs
    exact ho.release.erase (ho.held_not_queued key rfl)
  | written hs _ =>
    have ho := h.opened hs
    exact ho.release.erase (ho.held_not_queued key rfl)

end Sections

/-! ### It holds in every state -/

/-- The key in the writer's hands. -/
def writerKey : Writer M → Option ℕ
  | .holding _ message => some message.key
  | .refused _ message _ => some message.key
  | .reporting key _ => some key
  | _ => none

/-- The routing invariant of a session with its writer. -/
def RoutesSys (s : Sys M) : Prop := Routes s.session (writerKey s.writer)

theorem routesSys_step {codec : Codec M} {i : Option Bytes} {s s' : Sys M} (h : RoutesSys s)
    (hs : Step codec s i s') : RoutesSys s' := by
  have hnone : Routes s.session none := Routed.release h
  cases hs with
  | request hr => exact h.submit hr
  | respond _ hr =>
    have h' := h.submit hr
    exact h'
  | recv _ hr => exact h.takeIncoming hr
  | @decode id message hd =>
    unfold Sys.decodeRequest
    dsimp only
    split <;> exact h
  | autoreplyQueued _ hr =>
    have h' := h.submit hr
    exact h'
  | messageRefused hm => exact h.handleMessage hm
  | messageRouted hm => exact h.handleMessage hm
  | messageUnknown hm => exact h.handleMessage hm
  | close => exact h.close _ _
  | closeOwed => exact h.close _ _
  | closeReceive => exact h.close _ _
  | setInboundLimits => exact h.setInboundLimits _ _ _
  | setAutoreplyTimeout => exact h.setAutoreplyTimeout _
  | expire => exact h.expire _
  | pickupClosed hw hn =>
    rcases h.nextOutgoing hn with ⟨-, h'⟩ | ⟨id, m, he, -⟩
    · exact Routed.release h'
    · cases he
  | pickupNone hw hn hp =>
    rcases h.nextOutgoing hn with ⟨-, h'⟩ | ⟨id, m, rfl, -⟩
    · exact h'
    · rcases hp with hp | hp <;> cases hp
  | pickup hw hn =>
    rcases h.nextOutgoing hn with ⟨hne, -⟩ | ⟨id, m, he, h'⟩
    · exact absurd rfl (hne _ _)
    · cases he; exact h'
  | refuse hw he => rw [RoutesSys, hw] at h; exact h
  | send hw he => rw [RoutesSys, hw] at h; exact h
  | sendFailed _ _ _ => exact hnone
  | @withdraw id message _ hw =>
    rw [RoutesSys, hw] at h
    cases message.body.isRequest with
    | true => exact h.withdraw id
    | false => exact h
  | report hw => rw [RoutesSys, hw] at h; exact h.recordWrite _ _
  | fail hw => exact hnone.close _ _
  | _ => exact h

/-- **Routing holds in every reachable state.** -/
theorem routesSys_reachable {codec : Codec M} {side : Side} {s : Sys M}
    (h : (machine codec side).Reachable s) : RoutesSys s :=
  reachable_invariant Routed.new (fun _ _ _ hi hs => routesSys_step hi hs) h

end ArkWire.Protocol.Routing
