import ArkWire.Protocol.Routing

/-! # Every promise is settled exactly once

A promise handed out by `request` or `reply` is either pending (nothing was sent to it, and exactly
one entry of `operations` holds its sender) or done (exactly one result was sent, and no entry is
left). Since a closed session has no entries, all its promises are done. `Settled` is the invariant:
it also says that the result fits the kind of promise (an answer or an error for a request, the
write or an error for a reply), and that what a promise still holds is what was sent to it.

`settlement` collects what this gives for every reachable state. -/

namespace ArkWire.Protocol.Settlement

open ArkWire.Lib.Machines
open ArkWire.Transport.Errors ArkWire.Protocol.Errors ArkWire.Protocol.Envelope
open ArkWire.Protocol.Promise ArkWire.Protocol.Operation ArkWire.Protocol.Session
open ArkWire.Protocol.System ArkWire.Protocol.Sections ArkWire.Protocol.Steps
open ArkWire.Protocol.Routing

variable {M : Type}

/-- What a promise may receive, a request's (`response`) or a reply's. -/
def Fits (response : Bool) : Except Error PromiseResult → Prop
  | .error _ => True
  | .ok (.response _) => response = true
  | .ok .written => response = false

/-- Nothing was sent to the promise, and exactly one entry of `operations` holds its sender. -/
def Pending (operations : Operations) (w : Shared) (c : ℕ) : Prop :=
  (w.channels c).sent = [] ∧
    ∃! key, ∃ operation, operations.lookup key = some operation ∧ operation.sender.channel = c

/-- Exactly one result was sent to the promise, and no entry of `operations` holds its sender. -/
def Done (operations : Operations) (w : Shared) (c : ℕ) : Prop :=
  (∃ result, (w.channels c).sent = [result]) ∧
    ∀ key operation, operations.lookup key = some operation → operation.sender.channel ≠ c

/-- **The settlement invariant.** -/
structure Settled (operations : Operations) (w : Shared) : Prop where
  channel_lt : ∀ key operation, operations.lookup key = some operation →
    operation.sender.channel < w.nextChannel
  kind : ∀ key operation, operations.lookup key = some operation →
    operation.sender.response = (w.channels operation.sender.channel).response
  either : ∀ c < w.nextChannel, Pending operations w c ∨ Done operations w c
  fits : ∀ c < w.nextChannel, ∀ result ∈ (w.channels c).sent, Fits (w.channels c).response result
  live : ∀ c < w.nextChannel, (w.channels c).holder = .caller →
    (w.channels c).receiver = true ∧ (w.channels c).buffer = (w.channels c).sent.head?
  taken : ∀ c < w.nextChannel, ∀ result, (w.channels c).holder = .taken result →
    result ∈ (w.channels c).sent

namespace Settled

variable {operations : Operations} {w : Shared}

theorem new {side : Side} : Settled ∅ (SessionInner.new (M := M) side).shared := by
  constructor <;> simp [SessionInner.new]

/-- Only the lookups, the channels and their number matter. -/
theorem congr (h : Settled operations w) {operations' : Operations} {w' : Shared}
    (ho : ∀ key, operations'.lookup key = operations.lookup key) (hc : w'.channels = w.channels)
    (hn : w'.nextChannel = w.nextChannel) : Settled operations' w' := by
  obtain ⟨h1, h2, h3, h4, h5, h6⟩ := h
  unfold Pending Done at h3
  constructor
  all_goals simp only [Pending, Done, ho, hc, hn]
  all_goals assumption

/-- The entry of a sender is unique. -/
theorem key_unique (h : Settled operations w) {key key' : ℕ}
    {operation operation' : PendingOperation} (hl : operations.lookup key = some operation)
    (hl' : operations.lookup key' = some operation')
    (hc : operation'.sender.channel = operation.sender.channel) : key' = key := by
  rcases h.either _ (h.channel_lt _ _ hl) with ⟨-, hu⟩ | ⟨-, hn⟩
  · exact hu.unique ⟨operation', hl', hc⟩ ⟨operation, hl, rfl⟩
  · exact absurd rfl (hn _ _ hl)

theorem sent_eq_nil (h : Settled operations w) {key : ℕ} {operation : PendingOperation}
    (hl : operations.lookup key = some operation) :
    (w.channels operation.sender.channel).sent = [] := by
  rcases h.either _ (h.channel_lt _ _ hl) with ⟨hs, -⟩ | ⟨-, hn⟩
  · exact hs
  · exact absurd rfl (hn _ _ hl)

/-- **One settlement**: an operation leaves the map and its sender sends one result. -/
theorem settle (h : Settled operations w) {key : ℕ} {operation : PendingOperation}
    (hl : operations.lookup key = some operation) {result : Except Error PromiseResult}
    (hr : Fits operation.sender.response result) :
    Settled (operations.erase key) (operation.sender.send w result).1 := by
  set c := operation.sender.channel with hcdef
  have hne : ∀ key' operation', (operations.erase key).lookup key' = some operation' →
      operations.lookup key' = some operation' ∧ operation'.sender.channel ≠ c := by
    intro key' operation' hl'
    rw [lookup_erase_eq] at hl'
    split_ifs at hl' with hk
    exact ⟨hl', fun hc => hk (h.key_unique hl hl' hc)⟩
  have hother : ∀ c', c' ≠ c → (operation.sender.send w result).1.channels c' = w.channels c' :=
    fun c' hc' => send_channels_of_ne _ _ _ hc'
  have hsent : ((operation.sender.send w result).1.channels c).sent = [result] := by
    rw [send_sent, h.sent_eq_nil hl]; rfl
  refine ⟨?_, ?_, ?_, ?_, ?_, ?_⟩
  · intro key' operation' hl'
    rw [send_nextChannel]
    exact h.channel_lt _ _ (hne _ _ hl').1
  · intro key' operation' hl'
    rw [hother _ (hne _ _ hl').2]
    exact h.kind _ _ (hne _ _ hl').1
  · intro c' hc'
    rw [send_nextChannel] at hc'
    by_cases hcc : c' = c
    · subst hcc
      exact .inr ⟨⟨result, hsent⟩, fun key' operation' hl' => (hne _ _ hl').2⟩
    · rcases h.either c' hc' with ⟨hs, key', ⟨operation', hl', hch⟩, hu⟩ | ⟨hs, hn⟩
      · refine .inl ⟨by rw [hother _ hcc]; exact hs, key', ⟨operation', ?_, hch⟩, ?_⟩
        · rw [lookup_erase_eq, if_neg]
          · exact hl'
          · rintro rfl
            rw [hl, Option.some.injEq] at hl'
            exact hcc (by rw [hcdef, hl', hch])
        · rintro key'' ⟨operation'', hl'', hch''⟩
          exact hu _ ⟨operation'', (hne _ _ hl'').1, hch''⟩
      · refine .inr ⟨by rw [hother _ hcc]; exact hs, fun key' operation' hl' => ?_⟩
        exact hn _ _ (hne _ _ hl').1
  · intro c' hc' r hr'
    rw [send_nextChannel] at hc'
    by_cases hcc : c' = c
    · subst hcc
      rw [hsent, List.mem_singleton] at hr'
      rw [hr', send_response, ← h.kind _ _ hl]
      exact hr
    · rw [hother _ hcc] at hr' ⊢
      exact h.fits c' hc' r hr'
  · intro c' hc' hh
    rw [send_nextChannel] at hc'
    by_cases hcc : c' = c
    · subst hcc
      rw [hsent]
      -- the receiver of a pending promise that nobody waited on or dropped is alive
      have hh' : (w.channels c).holder = .caller := by rwa [send_holder] at hh
      have hrec := (h.live c hc' hh').1
      exact ⟨by rw [send_receiver, hrec], by rw [send_buffer, hrec]; rfl⟩
    · rw [hother _ hcc] at hh ⊢
      exact h.live c' hc' hh
  · intro c' hc' r hh
    rw [send_nextChannel] at hc'
    by_cases hcc : c' = c
    · subst hcc
      rw [send_holder] at hh
      have := h.taken c hc' r hh
      rw [h.sent_eq_nil hl] at this
      cases this
    · rw [hother _ hcc] at hh ⊢
      exact h.taken c' hc' r hh

theorem fail (h : Settled operations w) {key : ℕ} {operation : PendingOperation}
    (hl : operations.lookup key = some operation) (error : Error) (now : ℕ) :
    Settled (operations.erase key) (operation.fail error now w) := by
  unfold PendingOperation.fail
  exact h.settle hl trivial

theorem failAll (h : Settled operations w) (error : Error) (now : ℕ) (keys : List ℕ) :
    Settled (failAll error now keys (operations, w)).1 (failAll error now keys (operations, w)).2 :=
  failAll_rule (P := Settled) (fun _ _ _ _ hl h => h.fail hl error now) keys _ _ h

/-- **A new promise** and the entry of its operation. -/
theorem pair (h : Settled operations w) (response : Bool) {key : ℕ}
    (hk : operations.lookup key = none) (deadline : ℕ) :
    Settled (operations.insert key ⟨deadline, (w.pair response).1⟩) (w.pair response).2 := by
  have hch : ∀ c, (w.pair response).2.channels c =
      if c = w.nextChannel then { response } else w.channels c := by
    intro c
    simp only [Shared.pair, Function.update_apply]
  have hold : ∀ {c}, c < w.nextChannel → (w.pair response).2.channels c = w.channels c := by
    intro c hc
    rw [hch, if_neg (by omega)]
  have hnew : (w.pair response).2.channels w.nextChannel = { response } := by
    rw [hch, if_pos rfl]
  have hn : (w.pair response).2.nextChannel = w.nextChannel + 1 := rfl
  have hl : ∀ {key' operation'},
      (operations.insert key ⟨deadline, (w.pair response).1⟩).lookup key' = some operation' →
      key' = key ∧ operation' = ⟨deadline, (w.pair response).1⟩ ∨
        key' ≠ key ∧ operations.lookup key' = some operation' := by
    intro key' operation' hl
    rw [lookup_insert_eq] at hl
    split_ifs at hl with he
    · cases hl; exact .inl ⟨he, rfl⟩
    · exact .inr ⟨he, hl⟩
  refine ⟨?_, ?_, ?_, ?_, ?_, ?_⟩
  · intro key' operation' hl'
    rw [hn]
    rcases hl hl' with ⟨-, rfl⟩ | ⟨-, hl'⟩
    · exact Nat.lt_succ_self _
    · exact Nat.lt_succ_of_lt (h.channel_lt _ _ hl')
  · intro key' operation' hl'
    rcases hl hl' with ⟨-, rfl⟩ | ⟨-, hl'⟩
    · exact (congrArg Channel.response hnew).symm
    · rw [hold (h.channel_lt _ _ hl')]; exact h.kind _ _ hl'
  · intro c hc
    rw [hn] at hc
    by_cases hcn : c = w.nextChannel
    · subst hcn
      refine .inl ⟨by rw [hnew], key, ⟨_, by rw [lookup_insert_eq, if_pos rfl], rfl⟩, ?_⟩
      rintro key' ⟨operation', hl', hc'⟩
      rcases hl hl' with ⟨rfl, -⟩ | ⟨-, hl'⟩
      · rfl
      · have := h.channel_lt _ _ hl'; omega
    · rcases h.either c (by omega) with ⟨hs, key', ⟨operation', hl', hc'⟩, hu⟩ | ⟨hs, hd⟩
      · refine .inl ⟨by rw [hold (by omega)]; exact hs, key', ⟨operation', ?_, hc'⟩, ?_⟩
        · rw [lookup_insert_eq, if_neg]
          · exact hl'
          · rintro rfl; rw [hk] at hl'; cases hl'
        · rintro key'' ⟨operation'', hl'', hc''⟩
          rcases hl hl'' with ⟨-, rfl⟩ | ⟨-, hl''⟩
          · exact absurd hc''.symm hcn
          · exact hu _ ⟨operation'', hl'', hc''⟩
      · refine .inr ⟨by rw [hold (by omega)]; exact hs, fun key' operation' hl' => ?_⟩
        rcases hl hl' with ⟨-, rfl⟩ | ⟨-, hl'⟩
        · exact fun hc' => hcn hc'.symm
        · exact hd _ _ hl'
  · intro c hc
    rw [hn] at hc
    by_cases hcn : c = w.nextChannel
    · subst hcn; simp [hnew]
    · rw [hold (by omega)]; exact h.fits c (by omega)
  · intro c hc
    rw [hn] at hc
    by_cases hcn : c = w.nextChannel
    · subst hcn; simp [hnew]
    · rw [hold (by omega)]; exact h.live c (by omega)
  · intro c hc
    rw [hn] at hc
    by_cases hcn : c = w.nextChannel
    · subst hcn; simp [hnew]
    · rw [hold (by omega)]; exact h.taken c (by omega)

/-- A promise whose deadline has passed at submission: no entry, and the timeout is sent at once. -/
theorem pairLate (h : Settled operations w) (response : Bool) {key : ℕ}
    (hk : operations.lookup key = none) (deadline : ℕ) (error : Error) (now : ℕ) :
    Settled operations
      (PendingOperation.fail ⟨deadline, (w.pair response).1⟩ error now (w.pair response).2) := by
  have hl : (operations.insert key ⟨deadline, (w.pair response).1⟩).lookup key =
      some ⟨deadline, (w.pair response).1⟩ := by rw [lookup_insert_eq, if_pos rfl]
  refine ((h.pair response hk deadline).fail hl error now).congr (fun key' => ?_) rfl rfl
  rw [lookup_erase_eq, lookup_insert_eq]
  split_ifs with he
  · rw [he, hk]
  · rfl

/-- What the application does with one promise. -/
theorem modify (h : Settled operations w) (c : ℕ) {f : Channel → Channel}
    (hr : (f (w.channels c)).response = (w.channels c).response)
    (hs : (f (w.channels c)).sent = (w.channels c).sent)
    (hl : c < w.nextChannel → (f (w.channels c)).holder = .caller →
      (f (w.channels c)).receiver = true ∧
        (f (w.channels c)).buffer = (w.channels c).sent.head?)
    (ht : c < w.nextChannel → ∀ result, (f (w.channels c)).holder = .taken result →
      result ∈ (w.channels c).sent) : Settled operations (w.modify c f) := by
  have hresp : ∀ c', ((w.modify c f).channels c').response = (w.channels c').response := by
    intro c'
    by_cases hc : c' = c
    · subst hc; rw [Shared.modify_channels_self, hr]
    · rw [Shared.modify_channels_of_ne _ _ hc]
  have hsent : ∀ c', ((w.modify c f).channels c').sent = (w.channels c').sent := by
    intro c'
    by_cases hc : c' = c
    · subst hc; rw [Shared.modify_channels_self, hs]
    · rw [Shared.modify_channels_of_ne _ _ hc]
  refine ⟨h.channel_lt, ?_, ?_, ?_, ?_, ?_⟩
  · intro key operation hlk; rw [hresp]; exact h.kind _ _ hlk
  · intro c' hc'
    simp only [Pending, Done, hsent]
    exact h.either c' hc'
  · intro c' hc'; rw [hresp, hsent]; exact h.fits c' hc'
  · intro c' hc'
    rw [hsent]
    by_cases hc : c' = c
    · subst hc; rw [Shared.modify_channels_self]; exact hl hc'
    · rw [Shared.modify_channels_of_ne _ _ hc]; exact h.live c' hc'
  · intro c' hc'
    rw [hsent]
    by_cases hc : c' = c
    · subst hc; rw [Shared.modify_channels_self]; exact ht hc'
    · rw [Shared.modify_channels_of_ne _ _ hc]; exact h.taken c' hc'

end Settled

/-! ### The critical sections keep it -/

/-- The settlement invariant of a session. -/
def Settles (s : SessionInner M) : Prop := Settled s.operations s.shared

section Sections
variable {s : SessionInner M}

theorem Settles.opened (h : Settles s) {o : OpenState M} (hs : s.state = .opened o) :
    Settled o.operations s.shared := by
  simpa only [Settles, SessionInner.operations, hs] using h

/-- Only the operations, the channels and their number matter. -/
theorem Settles.congr (h : Settles s) {s' : SessionInner M} (ho : s'.operations = s.operations)
    (hc : s'.shared.channels = s.shared.channels)
    (hn : s'.shared.nextChannel = s.shared.nextChannel) : Settles s' :=
  Settled.congr h (fun key => by rw [ho]) hc hn

theorem Settles.close (h : Settles s) (error : Error) (now : ℕ) :
    Settles (s.close error now).1 := by
  have hc := close_cases s error now
  generalize s.close error now = r at hc ⊢
  cases hc with
  | already hs => exact h
  | @closed o hs =>
    have ho := (h.opened hs).failAll error now o.operations.keys
    refine ho.congr (fun key => ?_) rfl rfl
    rw [failAll_keys_lookup]
    rfl

theorem Settles.expire (h : Settles s) (now : ℕ) : Settles (s.expire now) := by
  have hc := expire_cases s now
  generalize s.expire now = r at hc ⊢
  cases hc with
  | closed hs => exact h
  | expired hs => exact (h.opened hs).failAll _ _ _

theorem Settles.setInboundLimits (h : Settles s) (requests bytes now : ℕ) :
    Settles (s.setInboundLimits requests bytes now).1 := by
  have hc := setInboundLimits_cases s requests bytes now
  generalize s.setInboundLimits requests bytes now = r at hc ⊢
  cases hc with
  | closed hs => exact h
  | exceeded hs _ =>
    have ho := h.opened hs
    exact Settles.close (s := { s with state := .opened _ }) ho _ _
  | limited hs _ _ =>
    have ho := h.opened hs
    exact ho

theorem Settles.setAutoreplyTimeout (h : Settles s) (timeout : ℕ) :
    Settles (s.setAutoreplyTimeout timeout) := by
  rcases setAutoreplyTimeout_cases s timeout with ⟨e, hs, he⟩ | ⟨o, hs, he⟩
  · rwa [he]
  · have ho := h.opened hs
    rw [he]
    exact ho

/-- A fresh key has no entry. -/
theorem lookup_nextKey {held : Option ℕ} (hr : Routes s held) {o : OpenState M}
    (hs : s.state = .opened o) : o.operations.lookup s.nextKey = none := by
  cases hl : o.operations.lookup s.nextKey with
  | none => rfl
  | some operation => exact absurd ((hr.opened hs).operations_lt _ _ hl) (lt_irrefl _)

theorem Settles.submit (h : Settles s) {held : Option ℕ} (hr : Routes s held)
    {body : OutgoingBody M} {deadline now : ℕ} {s' : SessionInner M}
    (hs' : s.submit body deadline now = .ok s') : Settles s' := by
  cases submit_cases hs' with
  | late hs _ => exact (h.opened hs).pairLate _ (lookup_nextKey hr hs) _ _ _
  | queued hs _ => exact (h.opened hs).pair _ (lookup_nextKey hr hs) _

theorem Settled.completeResponse {operations : Operations} {w w' : Shared}
    (h : Settled operations w) {key : ℕ} {operation : PendingOperation}
    (hl : operations.lookup key = some operation) {now : ℕ} {bytes : Bytes} {header : Header}
    {limit : ℕ} {result : Except Error Unit}
    (hc : operation.completeResponse now w bytes header limit = .ok (w', result)) :
    Settled (operations.erase key) w' := by
  cases completeResponse_cases hc with
  | late _ => exact h.fail hl _ _
  | answered _ hr _ _ =>
    have h' : Settled operations { w with retainedBytes := w.retainedBytes + bytes.length } :=
      h.congr (fun _ => rfl) rfl rfl
    exact h'.settle hl hr
  | refused _ _ => exact h.settle hl trivial

theorem Settles.handleMessage (h : Settles s) {codec : Codec M} {bytes : Bytes} {now : ℕ}
    {s' : SessionInner M} {result : Except Error (Option ℕ)}
    (hs' : s.handleMessage codec bytes now = .ok (s', result)) : Settles s' := by
  cases handleMessage_cases hs' with
  | unknown _ _ hs =>
    have ho := h.opened hs
    exact ho
  | admitted _ _ _ hs =>
    have ho := h.opened hs
    exact ho.congr (fun _ => rfl) rfl rfl
  | late _ _ hs =>
    have ho := h.opened hs
    exact ho
  | completed _ _ hs _ hl hc => exact (h.opened hs).completeResponse hl hc
  | _ => exact h

theorem Settles.takeIncoming (h : Settles s) {s' : SessionInner M} {taken}
    (hs' : s.takeIncoming = some (s', taken)) : Settles s' := by
  obtain ⟨o, rest, hs, -, rfl⟩ := takeIncoming_cases hs'
  have ho := h.opened hs
  exact ho

theorem Settles.nextOutgoing (h : Settles s) {now : ℕ} {s' : SessionInner M}
    {pickup : SessionInner.Pickup M} (hs' : s.nextOutgoing now = .ok (s', pickup)) :
    Settles s' := by
  have he := h.expire now
  cases nextOutgoing_cases hs' with
  | request hs =>
    have ho := he.opened hs
    exact ho
  | reply hs =>
    have ho := he.opened hs
    exact ho
  | _ => exact he

theorem Settles.withdraw (h : Settles s) (id : ℕ) : Settles (s.withdraw id) := by
  rcases withdraw_cases s id with ⟨e, hs, he⟩ | ⟨o, hs, he⟩
  · rwa [he]
  · have ho := h.opened hs
    rw [he]
    exact ho

theorem Settles.recordWrite (h : Settles s) (key : ℕ) (result : Except Error Unit) (now : ℕ) :
    Settles (s.recordWrite key result now) := by
  have hc := recordWrite_cases s key result now
  generalize s.recordWrite key result now = r at hc ⊢
  cases hc with
  | kept => exact h
  | failed hs hl => exact (h.opened hs).fail hl _ _
  | written hs hl _ hr => exact (h.opened hs).settle hl hr

end Sections

/-! ### It holds in every state -/

theorem settles_step {codec : Codec M} {i : Option Bytes} {s s' : Sys M} (hr : RoutesSys s)
    (h : Settles s.session) (hs : Step codec s i s') : Settles s'.session := by
  cases hs with
  | request hm => exact h.submit hr hm
  | respond _ hm =>
    have h' := h.submit hr hm
    exact h'
  | recv _ hm => exact h.takeIncoming hm
  | @decode id message _ =>
    have h' : Settles { s.session with shared := s.session.shared.release message } :=
      h.congr rfl rfl rfl
    unfold Sys.decodeRequest
    dsimp only
    split <;> exact h'
  | autoreplyQueued _ hm =>
    have h' := h.submit hr hm
    exact h'
  | messageRefused hm => exact h.handleMessage hm
  | messageRouted hm => exact h.handleMessage hm
  | messageUnknown hm => exact h.handleMessage hm
  | close => exact h.close _ _
  | closeOwed => exact h.close _ _
  | closeReceive => exact h.close _ _
  | discard _ => exact h.congr rfl rfl rfl
  | setInboundLimits => exact h.setInboundLimits _ _ _
  | setAutoreplyTimeout => exact h.setAutoreplyTimeout _
  | expire => exact h.expire _
  | pickupClosed _ hn => exact h.nextOutgoing hn
  | pickupNone _ hn => exact h.nextOutgoing hn
  | pickup _ hn => exact h.nextOutgoing hn
  | @withdraw id message _ hw =>
    cases message.body.isRequest with
    | true => exact h.withdraw id
    | false => exact h
  | report hw => exact h.recordWrite _ _ _
  | fail hw => exact h.close _ _
  | @notifyDone c _ hc =>
    have h' := Settled.modify h c (f := fun ch => { ch with registered := true }) rfl rfl
      (h.live c) (h.taken c)
    exact h'.congr (fun _ => rfl) rfl rfl
  | @notify c callback hc =>
    exact Settled.modify h c (f := fun ch => { ch with registered := true, hook := some callback })
      rfl rfl (h.live c) (h.taken c)
  | callback => exact h.congr rfl rfl rfl
  | @dropPromise c hc _ =>
    exact Settled.modify h c (f := fun ch => { ch with holder := .dropping, hook := none })
      rfl rfl (by simp) (by simp)
  | @dropReceiver c hc _ =>
    have h' : Settled s.session.operations ((s.session.shared.channels c).buffer.elim
        s.session.shared s.session.shared.releaseResult) := by
      cases (s.session.shared.channels c).buffer with
      | none => exact h
      | some result => exact Settled.congr h (fun _ => rfl) (by simp) (by simp)
    exact Settled.modify h' c
      (f := fun ch => { ch with holder := .gone, receiver := false, buffer := none })
      rfl rfl (by simp) (by simp)
  | @wait c result hc hh hb =>
    refine Settled.modify h c (f := fun ch =>
      { ch with holder := .taken result, receiver := false, buffer := none, hook := none })
      rfl rfl (by simp) fun _ result hr' => ?_
    cases hr'
    have hbuf := (h.live _ hc hh).2
    rw [hb] at hbuf
    exact List.mem_of_mem_head? hbuf.symm
  | @read c _ hc _ _ =>
    exact Settled.modify h c (f := fun ch => { ch with holder := .gone }) rfl rfl (by simp)
      (by simp)
  | @readResponse c message hc _ =>
    have h' := Settled.modify h c (f := fun ch => { ch with holder := .gone }) rfl rfl (by simp)
      (by simp)
    exact h'.congr (fun _ => rfl) rfl rfl
  | @readMalformed c message hc _ _ =>
    have h' := Settled.modify h c (f := fun ch => { ch with holder := .gone }) rfl rfl (by simp)
      (by simp)
    exact h'.congr (fun _ => rfl) rfl rfl
  | _ => exact h

theorem settles_reachable {codec : Codec M} {side : Side} {s : Sys M}
    (h : (machine codec side).Reachable s) : RoutesSys s ∧ Settles s.session := by
  refine reachable_invariant (I := fun s => RoutesSys s ∧ Settles s.session)
    ⟨Routed.new, Settled.new (M := M)⟩ (fun _ _ _ hi hs => ?_) h
  exact ⟨routesSys_step hi.1 hs, settles_step hi.1 hi.2 hs⟩

/-! ### What it gives -/

/-- A promise nothing was sent to has its entry, in an open session. -/
theorem Settles.pending_opened {s : SessionInner M} {c : ℕ}
    (hp : Pending s.operations s.shared c) : ∃ o, s.state = .opened o := by
  obtain ⟨-, key, ⟨operation, hl, -⟩, -⟩ := hp
  cases hs : s.state with
  | opened o => exact ⟨o, rfl⟩
  | closed e =>
    simp only [SessionInner.operations, hs] at hl
    cases hl

/-- Whoever waits on a promise either finds its result or has its sender still in the map. -/
theorem wait_panic (codec : Codec M) {s : Sys M} (h : Settles s.session) {c : ℕ} {p : Panic} :
    s.promiseStep codec (.wait c) ≠ .panic p := by
  intro hp
  simp only [Sys.promiseStep] at hp
  split at hp
  · next hc =>
    split at hp
    · cases hp
    · next hb =>
      have hsent : (s.session.shared.channels c).sent = [] := by
        have := (h.live c hc.1 hc.2).2
        rw [hb] at this
        exact List.head?_eq_none_iff.mp this.symm
      rcases h.either c hc.1 with hpend | ⟨⟨result, hr⟩, -⟩
      · obtain ⟨o, hs⟩ := Settles.pending_opened hpend
        obtain ⟨-, key, ⟨operation, hl, hch⟩, -⟩ := hpend
        simp only [SessionInner.operations, hs] at hl
        have hany : (o.operations.entries.any fun e => e.2.sender.channel = c) = true :=
          List.any_eq_true.mpr ⟨⟨key, operation⟩, AList.mem_lookup_iff.mp hl, by simpa using hch⟩
        simp only [hs, hany, if_true] at hp
        cases hp
      · rw [hsent] at hr
        cases hr
  · cases hp

/-- A result that was taken is of the kind of its promise. -/
theorem read_panic (codec : Codec M) {s : Sys M} (h : Settles s.session) {c : ℕ} {p : Panic} :
    s.promiseStep codec (.read c) ≠ .panic p := by
  intro hp
  simp only [Sys.promiseStep] at hp
  split at hp
  · next hc =>
    split at hp
    · next result hh =>
      have hfit := h.fits c hc result (h.taken c hc result hh)
      unfold Sys.readResult at hp
      dsimp only at hp
      split at hp
      · cases hp
      · simp only [Fits] at hfit
        rw [hfit, if_pos rfl] at hp
        split at hp <;> cases hp
      · simp only [Fits] at hfit
        rw [hfit, if_neg Bool.false_ne_true] at hp
        cases hp
    · cases hp
  · cases hp

/-- **The panics left to a session**: a second `notify` of one promise, and the end of the IDs. -/
theorem step_panic {codec : Codec M} {s : Sys M} (hr : RoutesSys s) (h : Settles s.session)
    {a : Action M} {p : Panic} (hp : s.step codec a = .panic p) :
    p = .notifiedTwice ∨ p = .idsExhausted := by
  cases a with
  | message bytes now =>
    simp only [Sys.step, Sys.readerStep] at hp
    split at hp
    · next hm =>
      -- a key under a wire ID names a request
      obtain ⟨-, o, id, key, operation, hs, hk, hl, hf⟩ := handleMessage_panic hm
      have ht := (Routes.opened hr hs).outstanding_request id key hk operation hl
      rw [hf] at ht
      cases ht
    all_goals cases hp
  | pickup now =>
    simp only [Sys.step, Sys.writerStep] at hp
    split at hp
    · split at hp
      · next hn => cases hp; exact .inr (nextOutgoing_panic hn)
      all_goals cases hp
    · cases hp
  | notify c callback =>
    simp only [Sys.step, Sys.promiseStep] at hp
    split_ifs at hp
    cases hp
    exact .inl rfl
  | wait c => exact (wait_panic codec h hp).elim
  | read c => exact (read_panic codec h hp).elim
  | _ =>
    simp only [Sys.step, Sys.submitStep, Sys.readerStep, Sys.writerStep, Sys.promiseStep] at hp
    repeat' (split at hp)
    all_goals cases hp

/-- **Every promise is settled exactly once.** In every state a promise handed out is pending in an
open session, with one entry in `operations`, or done, with one result and no entry; a closed
session has only the latter. Every result fits its promise, so that the assertion of
`complete_response` and the unreachable arms behind `wait` are never reached. -/
theorem settlement {codec : Codec M} {side : Side} {s : Sys M}
    (h : (machine codec side).Reachable s) :
    (∀ c < s.session.shared.nextChannel,
      Pending s.session.operations s.session.shared c ∧ (∃ o, s.session.state = .opened o) ∨
        Done s.session.operations s.session.shared c) ∧
    (∀ e, s.session.state = .closed e → ∀ c < s.session.shared.nextChannel,
      Done s.session.operations s.session.shared c) ∧
    (∀ c < s.session.shared.nextChannel, ∀ result ∈ (s.session.shared.channels c).sent,
      Fits (s.session.shared.channels c).response result) ∧
    ∀ (a : Action M) (p : Panic), (machine codec side).step s a = .panic p →
      p ≠ .replyAnswered ∧ p ≠ .senderReleased ∧ p ≠ .requestWritten ∧ p ≠ .replyResponded := by
  obtain ⟨hr, hi⟩ := settles_reachable h
  refine ⟨fun c hc => ?_, fun e he c hc => ?_, hi.fits, fun a p hp => ?_⟩
  · rcases hi.either c hc with hp | hd
    · exact .inl ⟨hp, Settles.pending_opened hp⟩
    · exact .inr hd
  · rcases hi.either c hc with hp | hd
    · obtain ⟨o, ho⟩ := Settles.pending_opened hp
      rw [he] at ho
      cases ho
    · exact hd
  · rcases step_panic hr hi hp with rfl | rfl <;> simp

/-- A request answered by the peer, and another one cut off by a close. -/
def answeredThenClosed : List (Action UInt8) :=
  [.request 7 10 0, .pickup 1, .send (.ok ()) true, .report 2, .message [1, 0, 8] 3,
    .request 9 10 4, .close 5]

theorem settlement_answeredThenClosed :
    ∃ s, (machine tinyCodec .client).run answeredThenClosed (.new .client) = some s ∧
      s.session.shared.nextChannel = 2 ∧
      Done s.session.operations s.session.shared 0 ∧
      Done s.session.operations s.session.shared 1 := by
  obtain ⟨s, hr, hs, hn⟩ : ∃ s, (machine tinyCodec .client).run answeredThenClosed (.new .client) =
      some s ∧ s.session.state = .closed .closed ∧ s.session.shared.nextChannel = 2 :=
    ⟨_, rfl, rfl, rfl⟩
  have h := (settlement (Machine.reachable_of_run hr)).2.1 _ hs
  exact ⟨s, hr, hn, h 0 (by omega), h 1 (by omega)⟩

end ArkWire.Protocol.Settlement
