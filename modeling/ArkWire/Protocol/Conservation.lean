import ArkWire.Protocol.Correspondence

/-! # No request and no answer is lost between two sessions

Every ID that a side has outstanding is at exactly one place: with its writer, under way to the
peer, with one of the peer's holders of it, with the peer's writer, or under way back. Else its
reply was discarded at its deadline, or the encoder refused it. `conservation` says so for every
reachable pair of sessions, as an equation of multisets; where a side is about to close, or has, IDs
may be missing from these places, and none appears twice.

The equation is kept in a cumulative form, `Balanced`: what a step takes from one place it adds to
another (`Moved` for the critical sections, `flow_step` for the threads). -/

namespace ArkWire.Protocol.Conservation

open ArkWire.Lib.Machines
open ArkWire.Transport.Errors ArkWire.Protocol.Errors ArkWire.Protocol.Envelope
open ArkWire.Protocol.Promise ArkWire.Protocol.Operation ArkWire.Protocol.Session
open ArkWire.Protocol.System ArkWire.Protocol.Sections ArkWire.Protocol.Steps
open ArkWire.Protocol.Routing ArkWire.Protocol.Tracing ArkWire.Protocol.Frames
open ArkWire.Protocol.Ownership ArkWire.Protocol.Correspondence

variable {M : Type}

/-! ### The places of an ID -/

def expiredOf : Event M → Option ℕ
  | .expired id => some id
  | _ => none

/-- The IDs of the replies discarded at their deadline. -/
def expiredIds (log : List (Event M)) : Multiset ℕ := ↑(log.filterMap expiredOf)

/-- The IDs of the peer's requests that are reserved, none once the session is closed. -/
def reserved (s : SessionInner M) : Multiset ℕ :=
  match s.state with
  | .opened o => o.reservedIds.val
  | .closed _ => 0

/-- The requests of the peer that are not answered, with those whose reply was discarded. -/
def kept (s : SessionInner M) : Multiset ℕ := reserved s + expiredIds s.log

/-- The ID of the request in the writer's hands. -/
def requestHeld : Writer M → Multiset ℕ
  | .holding id message => if message.body.isRequest then {id} else 0
  | .refused id message _ => if message.body.isRequest then {id} else 0
  | _ => 0

/-- The ID of the reply in the writer's hands. -/
def replyHeld : Writer M → Multiset ℕ
  | .holding id message => if message.body.isRequest then 0 else {id}
  | _ => 0

/-- The IDs of the requests among messages sent. -/
def requestIds (outbox : List (Sent M)) : Multiset ℕ := ↑((sentRequests outbox).map (·.id))

/-- The IDs of the replies among messages sent. -/
def answerIds (outbox : List (Sent M)) : Multiset ℕ :=
  ↑((outbox.filter fun e => !e.message.body.isRequest).map (·.id))

/-- A reply that was given and that the encoder refuses. -/
def Refused (codec : Codec M) (s : Sys M) (id : ℕ) : Prop :=
  ∃ result automatic error, ⟨id, result, automatic⟩ ∈ repliedList s.session.log ∧
    codec.encode s.session.side id result = .error error

/-- An open session with no thread about to close it. -/
structure Healthy (s : Sys M) : Prop where
  opened : ∃ o, s.session.state = .opened o
  owed : s.owed = []
  writer : ∀ e, s.writer ≠ .failed e

@[simp] theorem expiredIds_append (log log' : List (Event M)) :
    expiredIds (log ++ log') = expiredIds log + expiredIds log' := by
  simp only [expiredIds, List.filterMap_append, Multiset.coe_add]

@[simp] theorem expiredIds_expired (ids : List ℕ) :
    expiredIds (ids.map (Event.expired : ℕ → Event M)) = ↑ids := by
  simp [expiredIds, expiredOf, List.filterMap_map, Function.comp_def]

theorem expiredIds_single {e : Event M} (h : expiredOf e = none) : expiredIds [e] = 0 := by
  simp [expiredIds, h]

theorem requestIds_append (l l' : List (Sent M)) :
    requestIds (l ++ l') = requestIds l + requestIds l' := by
  simp only [requestIds, sentRequests, List.filter_append, List.map_append, Multiset.coe_add]

theorem answerIds_append (l l' : List (Sent M)) :
    answerIds (l ++ l') = answerIds l + answerIds l' := by
  simp only [answerIds, List.filter_append, List.map_append, Multiset.coe_add]

theorem requestIds_single (e : Sent M) :
    requestIds [e] = if e.message.body.isRequest then {e.id} else 0 := by
  cases h : e.message.body.isRequest <;> simp [requestIds, sentRequests, h]

theorem answerIds_single (e : Sent M) :
    answerIds [e] = if e.message.body.isRequest then 0 else {e.id} := by
  cases h : e.message.body.isRequest <;> simp [answerIds, h]

/-! ### The critical sections -/

/-- **What a section moves**: it gives IDs to requests and hands replies to the writer. A session
that closes loses what it had reserved. -/
structure Moved (given out : Multiset ℕ) (s s' : SessionInner M) : Prop where
  outstanding : ∀ o', s'.state = .opened o' → ∃ o, s.state = .opened o ∧
    (o'.outstanding.keys : Multiset ℕ) = o.outstanding.keys + given
  kept : ∃ lost, Conservation.kept s = Conservation.kept s' + out + lost ∧
    ∀ o', s'.state = .opened o' → lost = 0

namespace Moved

variable {s s' : SessionInner M} {given out outside : Multiset ℕ}

theorem refl (s : SessionInner M) : Moved 0 0 s s where
  outstanding o' h := ⟨o', h, by simp⟩
  kept := ⟨0, by simp, fun _ _ => rfl⟩

theorem trans {s'' : SessionInner M} (h : Moved 0 0 s s') (h' : Moved given out s' s'') :
    Moved given out s s'' where
  outstanding o'' ho'' := by
    obtain ⟨o', ho', hk'⟩ := h'.outstanding o'' ho''
    obtain ⟨o, ho, hk⟩ := h.outstanding o' ho'
    exact ⟨o, ho, by rw [hk', hk, add_zero]⟩
  kept := by
    obtain ⟨lost, hk, hl⟩ := h.kept
    obtain ⟨lost', hk', hl'⟩ := h'.kept
    refine ⟨lost + lost', by rw [hk, hk']; abel, fun o'' ho'' => ?_⟩
    obtain ⟨o', ho', -⟩ := h'.outstanding o'' ho''
    rw [hl o' ho', hl' o'' ho'', add_zero]

/-- An open session stays open. -/
theorem of_opened {o o' : OpenState M} (hs : s.state = .opened o) (hs' : s'.state = .opened o')
    (hk : (o'.outstanding.keys : Multiset ℕ) = o.outstanding.keys + given)
    (hr : o.reservedIds.val + expiredIds s.log = o'.reservedIds.val + expiredIds s'.log + out) :
    Moved given out s s' where
  outstanding o'' h := by
    rw [hs'] at h
    cases h
    exact ⟨o, hs, hk⟩
  kept := by
    refine ⟨0, ?_, fun _ _ => rfl⟩
    simp only [Conservation.kept, reserved, hs, hs', add_zero]
    exact hr

/-- A closed session has nothing reserved. -/
theorem of_closed {e : Error} (hs' : s'.state = .closed e)
    (hl : expiredIds s'.log = expiredIds s.log) : Moved given 0 s s' where
  outstanding o' h := by
    rw [hs'] at h
    cases h
  kept := by
    refine ⟨reserved s, ?_, fun o' h => ?_⟩
    · have h0 : reserved s' = 0 := by simp only [reserved, hs']
      rw [Conservation.kept, Conservation.kept, h0, hl]
      abel
    · rw [hs'] at h
      cases h

/-- Nothing but the state and the discarded replies matters. -/
theorem congr {s'' : SessionInner M} (h : Moved given out s s') (hs : s''.state = s'.state)
    (hl : expiredIds s''.log = expiredIds s'.log) : Moved given out s s'' := by
  obtain ⟨h1, lost, h2, h3⟩ := h
  have hk : Conservation.kept s'' = Conservation.kept s' := by
    simp only [Conservation.kept, reserved, hs, hl]
  refine ⟨fun o' ho' => h1 o' (hs ▸ ho'), lost, by rw [hk, h2], fun o' ho' => h3 o' (hs ▸ ho')⟩

theorem close (s : SessionInner M) (error : Error) (now : ℕ) :
    Moved 0 0 s (s.close error now).1 := by
  have hc := close_cases s error now
  generalize s.close error now = r at hc ⊢
  cases hc with
  | already hs => exact refl s
  | closed hs => exact of_closed rfl rfl

theorem expire (h : Owns s outside) (now : ℕ) : Moved 0 0 s (s.expire now) := by
  have hc := expire_cases s now
  generalize s.expire now = r at hc ⊢
  cases hc with
  | closed hs => exact refl s
  | @expired o hs =>
    generalize (failAll .timeout now (expiredKeys o.operations now) (o.operations, s.shared)).1 =
      left
    have ho : Owned (incomingIds o + ↑((o.outgoing.filter fun m =>
        (left.lookup m.key).isSome).filterMap (·.body.replyId)) + outside +
        discardedIds left o.outgoing) o.reservedIds s.log :=
      (h.owned o hs).hand (by rw [replyIds, ← Owns.replyIds_partition left o.outgoing]; abel)
    refine of_opened hs rfl (by simp) ?_
    have hbefore := ho.held_eq
    have hafter := ho.expireAll.held_eq
    simp only [expireTo, expiredIds_append, expiredIds_expired]
    rw [← hbefore, ← hafter]
    abel

theorem setInboundLimits (s : SessionInner M) (requests bytes now : ℕ) :
    Moved 0 0 s (s.setInboundLimits requests bytes now).1 := by
  have hc := setInboundLimits_cases s requests bytes now
  generalize s.setInboundLimits requests bytes now = r at hc ⊢
  cases hc with
  | closed hs => exact refl s
  | exceeded hs _ => exact of_closed rfl rfl
  | limited hs _ _ => exact of_opened hs rfl (by simp) (by simp)

theorem setAutoreplyTimeout (s : SessionInner M) (timeout : ℕ) :
    Moved 0 0 s (s.setAutoreplyTimeout timeout) := by
  rcases setAutoreplyTimeout_cases s timeout with ⟨e, hs, he⟩ | ⟨o, hs, he⟩
  · rw [he]
    exact refl s
  · rw [he]
    exact of_opened hs rfl (by simp) (by simp)

/-- A reply queued too late releases its ID, and counts as discarded. -/
theorem submit {body : OutgoingBody M} (h : Owns s (outside + body.replyId.toList))
    {deadline now : ℕ} (hs' : s.submit body deadline now = .ok s') : Moved 0 0 s s' := by
  cases submit_cases hs' with
  | @late o hs _ =>
    have ho : Owned (incomingIds o + replyIds o + outside + body.replyId.toList) o.reservedIds
        s.log := (h.owned o hs).hand (by abel)
    refine of_opened hs rfl (by simp) ?_
    have hbefore := ho.held_eq
    have hafter := ho.expireAll.held_eq
    simp only [expiredIds_append, expiredIds_expired]
    rw [← hbefore, ← hafter]
    abel
  | queued hs _ =>
    refine of_opened hs rfl (by simp) ?_
    have hq : expiredIds [Event.queued s.nextKey s.shared.nextChannel body] = 0 :=
      expiredIds_single rfl
    simp only [expiredIds_append, hq, add_zero]

theorem request (h : Owns s outside) {message : M} {deadline now : ℕ}
    (hs' : s.request message deadline now = .ok s') : Moved 0 0 s s' := by
  have h' : Owns s (outside + (OutgoingBody.request message).replyId.toList) :=
    h.hand (by simp [OutgoingBody.replyId])
  exact submit h' hs'

theorem reply {id : ℕ} (h : Owns s (outside + {id})) {result : Except SchemaError M}
    {deadline now : ℕ} (hs' : s.reply id result deadline now = .ok s') (automatic : Bool) :
    Moved 0 0 s { s' with log := s'.log ++ [.replied id result automatic] } := by
  have h' : Owns s (outside + (OutgoingBody.reply id result).replyId.toList) :=
    h.hand (by simp [OutgoingBody.replyId])
  have hq : expiredIds [Event.replied id result automatic] = 0 := expiredIds_single rfl
  refine (submit h' hs').congr rfl ?_
  rw [expiredIds_append, hq, add_zero]

theorem takeIncoming {taken : ℕ × IncomingEnvelope} (hs' : s.takeIncoming = some (s', taken)) :
    Moved 0 0 s s' := by
  obtain ⟨o, rest, hs, -, rfl⟩ := takeIncoming_cases hs'
  exact of_opened hs rfl (by simp) (by simp)

theorem recordWrite (s : SessionInner M) (key : ℕ) (result : Except Error Unit) (now : ℕ) :
    Moved 0 0 s (s.recordWrite key result now) := by
  have hc := recordWrite_cases s key result now
  generalize s.recordWrite key result now = r at hc ⊢
  cases hc with
  | kept => exact refl s
  | failed hs _ => exact of_opened hs rfl (by simp) (by simp)
  | written hs _ _ _ => exact of_opened hs rfl (by simp) (by simp)

/-- The writer takes a request, under an ID that is not outstanding, or a reply. -/
theorem nextOutgoing (h : Owns s outside) (ht : Traces s) {now : ℕ}
    {pickup : SessionInner.Pickup M} (hs' : s.nextOutgoing now = .ok (s', pickup)) :
    (∀ id message, pickup = .taken id message →
      Moved (requestHeld (.holding id message)) (replyHeld (.holding id message)) s s') ∧
    ((∀ id message, pickup ≠ .taken id message) → Moved 0 0 s s') := by
  have he := expire h now
  have hown := h.expire now
  have htr := ht.expire now
  cases nextOutgoing_cases hs' with
  | @request o m rest message id hs hq hb hi =>
    refine ⟨?_, fun hn => absurd rfl (hn id m)⟩
    rintro _ _ ⟨⟩
    have hreq : m.body.isRequest = true := by rw [hb]; rfl
    simp only [requestHeld, replyHeld, hreq, if_true]
    refine he.trans (of_opened hs rfl ?_ ?_)
    · -- IDs are handed out in increasing order
      have hnew : id ∉ o.outstanding := by
        intro hmem
        obtain ⟨key, hk⟩ := Option.isSome_iff_exists.mp (AList.lookup_isSome.mpr hmem)
        have hassigned := (htr.opened hs).outstanding_assigned id key hk
        have hlt := (htr.opened hs).assigned_lt id hi _ hassigned
        exact lt_irrefl _ hlt
      have hkeys : (o.outstanding.insert id m.key).keys = id :: o.outstanding.keys := by
        rw [AList.keys_insert, List.erase_of_not_mem fun hm => hnew (AList.mem_keys.mpr hm)]
      rw [hkeys, ← Multiset.cons_coe, ← Multiset.singleton_add, add_comm]
    · have hq : expiredIds [(Event.assigned id m.key : Event M)] = 0 := expiredIds_single rfl
      simp only [expiredIds_append, hq, add_zero]
  | @reply o m rest id result hs hq hb =>
    refine ⟨?_, fun hn => absurd rfl (hn id m)⟩
    rintro _ _ ⟨⟩
    have hreq : m.body.isRequest = false := by rw [hb]; rfl
    have hid : m.body.replyId = some id := by rw [hb]; rfl
    simp only [requestHeld, replyHeld, hreq, Bool.false_eq_true, if_false]
    refine he.trans (of_opened hs rfl (by simp) ?_)
    have hmem : id ∈ o.reservedIds := by
      have ho : Owned (incomingIds o + ↑(rest.filterMap (·.body.replyId)) + outside + {id})
          o.reservedIds (s.expire now).log := (hown.owned o hs).hand (by
        simp only [replyIds, hq, List.filterMap_cons, hid, ← Multiset.cons_coe,
          ← Multiset.singleton_add]
        abel)
      exact ho.mem
    have hq : expiredIds [(Event.taken id : Event M)] = 0 := expiredIds_single rfl
    have hval : o.reservedIds.val = (o.reservedIds.erase id).val + {id} := by
      rw [Finset.erase_val, add_comm, Multiset.singleton_add,
        Multiset.cons_erase (Finset.mem_val.mpr hmem)]
    simp only [expiredIds_append, hq, add_zero]
    rw [hval]
    abel
  | closed _ => exact ⟨fun _ _ hp => (by cases hp), fun _ => he⟩
  | again => exact ⟨fun _ _ hp => (by cases hp), fun _ => he⟩
  | wait => exact ⟨fun _ _ hp => (by cases hp), fun _ => he⟩

end Moved

/-! ### The threads -/

/-- The requests a side has sent or is about to. -/
def flow (s : Sys M) : Multiset ℕ := requestHeld s.writer + requestIds s.outbox

/-- The requests of the peer that a side has, with the replies it has sent or is about to. -/
def stock (s : Sys M) : Multiset ℕ := kept s.session + replyHeld s.writer + answerIds s.outbox

/-- What a step does to the requests of a side. -/
def Requests (s s' : Sys M) : Prop :=
  ∀ o', s'.session.state = .opened o' → ∃ o lost, s.session.state = .opened o ∧
    (o'.outstanding.keys : Multiset ℕ) + flow s = o.outstanding.keys + flow s' + lost ∧
    (Healthy s' → lost = 0)

/-- What a step does to the requests of the peer. -/
def Replies (codec : Codec M) (s s' : Sys M) : Prop :=
  ∃ refused lost, (∀ id ∈ refused, Refused codec s' id) ∧ (Healthy s' → lost = 0) ∧
    stock s = stock s' + refused + lost

section Threads

variable {codec : Codec M} {side : Side} {s s' : Sys M} {given out : Multiset ℕ}

/-- The session moves IDs as the writer and the outbox do. -/
theorem flow_moved (hm : Moved given out s.session s'.session)
    (hg : requestHeld s'.writer + requestIds s'.outbox =
      requestHeld s.writer + requestIds s.outbox + given)
    (ho : replyHeld s'.writer + answerIds s'.outbox =
      replyHeld s.writer + answerIds s.outbox + out) : Requests s s' ∧ Replies codec s s' := by
  constructor
  · intro o' ho'
    obtain ⟨o, hs, hk⟩ := hm.outstanding o' ho'
    refine ⟨o, 0, hs, ?_, fun _ => rfl⟩
    rw [hk, flow, flow, hg]
    abel
  · obtain ⟨lost, hk, hl⟩ := hm.kept
    refine ⟨0, lost, by simp, fun hh => ?_, ?_⟩
    · obtain ⟨o', ho'⟩ := hh.opened
      exact hl o' ho'
    · have h1 : stock s = kept s.session + (replyHeld s.writer + answerIds s.outbox) := by
        rw [stock]
        abel
      have h2 : stock s' = kept s'.session + (replyHeld s.writer + answerIds s.outbox + out) := by
        rw [stock, ← ho]
        abel
      rw [h1, h2, hk]
      abel

/-- Only the session moves. -/
theorem flow_keep (hm : Moved 0 0 s.session s'.session)
    (hw : requestHeld s'.writer = requestHeld s.writer ∧ replyHeld s'.writer = replyHeld s.writer)
    (ho : s'.outbox = s.outbox) : Requests s s' ∧ Replies codec s s' := by
  refine flow_moved hm ?_ ?_
  · rw [hw.1, ho, add_zero]
  · rw [hw.2, ho, add_zero]

/-- The writer's message is sent, or lost with a transport that failed. -/
theorem flow_send {id : ℕ} {message : OutgoingMessage M} {bytes : Bytes}
    (hw : s.writer = .holding id message) {writer : Writer M}
    (hw' : requestHeld writer = 0 ∧ replyHeld writer = 0) :
    Requests s { s with writer := writer, outbox := s.outbox ++ [⟨id, message, bytes⟩] } ∧
      Replies codec s
        { s with writer := writer, outbox := s.outbox ++ [⟨id, message, bytes⟩] } := by
  refine flow_moved (Moved.refl _) ?_ ?_
  · dsimp only
    rw [requestIds_append, requestIds_single, hw'.1, hw, requestHeld]
    abel
  · dsimp only
    rw [answerIds_append, answerIds_single, hw'.2, hw, replyHeld]
    abel

/-- A session that was healthy after a step was so before it. -/
theorem close_not_open {error : Error} {now : ℕ} :
    ¬ ∃ o', (s.close error now).session.state = .opened o' := by
  rintro ⟨o', ho'⟩
  have hc := close_cases s.session error now
  simp only [Sys.close, Sys.finishClose] at ho'
  generalize s.session.close error now = r at hc ho'
  cases hc with
  | already hst =>
    rw [hst] at ho'
    cases ho'
  | closed _ => cases ho'

theorem healthy_of_step {i : Option Bytes} (hs : Step codec s i s')
    (hopen : (∃ o', s'.session.state = .opened o') → ∃ o, s.session.state = .opened o)
    (h : Healthy s') : Healthy s := by
  refine ⟨hopen h.opened, ?_, fun e he => ?_⟩
  · have howed := h.owed
    cases hs with
    | @decode id message _ =>
      unfold Sys.decodeRequest at howed
      dsimp only at howed
      split at howed
      · exact howed
      · exact howed
      · simp at howed
    | messageRefused => simp at howed
    | closeOwed => exact absurd h.opened close_not_open
    | closeReceive => exact absurd h.opened close_not_open
    | readMalformed => simp at howed
    | _ => exact howed
  · have hwriter := h.writer
    cases hs with
    | @decode id message _ =>
      unfold Sys.decodeRequest at hwriter
      dsimp only at hwriter
      split at hwriter <;> exact hwriter e he
    | pickupClosed hw _ =>
      rw [hw] at he
      cases he
    | pickup hw _ =>
      rw [hw] at he
      cases he
    | refuse hw _ =>
      rw [hw] at he
      cases he
    | send hw _ =>
      rw [hw] at he
      cases he
    | sendFailed _ hw _ =>
      rw [hw] at he
      cases he
    | withdraw hw =>
      rw [hw] at he
      cases he
    | report hw =>
      rw [hw] at he
      cases he
    | @fail error now hw =>
      exact absurd h.opened close_not_open
    | _ => exact hwriter e he

/-- The encoder refuses the message: a reply is gone, a request is to be withdrawn. -/
theorem flow_refuse (htr : TracedSys codec side s)
    (hgiven : ∀ q ∈ queuedList s.session.log, ∀ id result, q.body = .reply id result →
      ∃ automatic, ⟨id, result, automatic⟩ ∈ repliedList s.session.log)
    {id : ℕ} {message : OutgoingMessage M} {error : EncodeError}
    (hw : s.writer = .holding id message)
    (he : codec.encode s.session.side id message.body.result = .error error) :
    Requests s { s with writer := .refused id message error } ∧
      Replies codec s { s with writer := .refused id message error } := by
  cases hb : message.body with
  | request m =>
    have hreq : message.body.isRequest = true := by rw [hb]; rfl
    refine flow_keep (Moved.refl _) ?_ rfl
    simp only [hw, requestHeld, replyHeld, hreq, if_true, and_self]
  | reply id' result =>
    have hreq : message.body.isRequest = false := by rw [hb]; rfl
    constructor
    · intro o ho
      refine ⟨o, 0, ho, ?_, fun _ => rfl⟩
      simp only [flow, hw, requestHeld, hreq, Bool.false_eq_true, if_false]
      abel
    · obtain ⟨⟨c, hq⟩, hid⟩ := htr.holding id message hw
      rw [hb] at hid hq he
      dsimp only at hid
      subst hid
      obtain ⟨automatic, hrep⟩ := hgiven _ hq _ _ rfl
      refine ⟨{id'}, 0, fun i hi => ?_, fun _ => rfl, ?_⟩
      · rw [Multiset.mem_singleton.mp hi]
        exact ⟨result, automatic, error, hrep, he⟩
      · simp only [stock, hw, replyHeld, hreq, Bool.false_eq_true, if_false]
        abel

/-- The message may be lost with a transport that failed. -/
theorem flow_lost (error : TransportError) : Requests s { s with writer := .failed error } ∧
      Replies codec s { s with writer := .failed error } := by
  constructor
  · intro o ho
    refine ⟨o, requestHeld s.writer, ho, ?_, fun hh => absurd rfl (hh.writer error)⟩
    simp only [flow, requestHeld]
    abel
  · refine ⟨0, replyHeld s.writer, by simp, fun hh => absurd rfl (hh.writer error), ?_⟩
    simp only [stock, replyHeld]
    abel

/-- The request that was refused is outstanding no longer. -/
theorem flow_withdraw
    (hheld : ∀ o, s.session.state = .opened o → requestHeld s.writer ≤ o.outstanding.keys)
    {id : ℕ} {message : OutgoingMessage M} {error : EncodeError} {key : ℕ}
    {result : Except Error Unit} (hw : s.writer = .refused id message error) :
    Requests s { s.withSession (if message.body.isRequest then s.session.withdraw id
        else s.session) with writer := .reporting key result } ∧
      Replies codec s { s.withSession (if message.body.isRequest then s.session.withdraw id
        else s.session) with writer := .reporting key result } := by
  cases hreq : message.body.isRequest with
  | false =>
    refine flow_keep (Moved.refl _) ?_ rfl
    simp only [hw, requestHeld, replyHeld, hreq, Bool.false_eq_true, if_false, and_self]
  | true =>
    simp only [if_true]
    rcases withdraw_cases s.session id with ⟨e, hs, hd⟩ | ⟨o, hs, hd⟩
    · rw [hd]
      constructor
      · intro o ho
        rw [Sys.withSession, hs] at ho
        cases ho
      · refine ⟨0, 0, by simp, fun _ => rfl, ?_⟩
        simp only [stock, hw, replyHeld, Sys.withSession]
        abel
    · have hmem : id ∈ o.outstanding := by
        have hle := hheld o hs
        rw [hw] at hle
        simp only [requestHeld, hreq, if_true, Multiset.singleton_le, Multiset.mem_coe] at hle
        exact AList.mem_keys.mpr hle
      have hkeys : (o.outstanding.keys : Multiset ℕ) = (o.outstanding.erase id).keys + {id} := by
        rw [AList.keys_erase, ← Multiset.coe_erase, add_comm, Multiset.singleton_add,
          Multiset.cons_erase (Multiset.mem_coe.mpr (AList.mem_keys.mp hmem))]
      rw [hd]
      constructor
      · intro o' ho'
        cases ho'
        refine ⟨o, 0, hs, ?_, fun _ => rfl⟩
        simp only [flow, hw, requestHeld, hreq, if_true, hkeys, Sys.withSession]
        abel
      · refine ⟨0, 0, by simp, fun _ => rfl, ?_⟩
        simp only [stock, kept, reserved, hs, hw, replyHeld, Sys.withSession]
        abel

/-- **A step that receives no message**: what leaves one place comes to another. -/
theorem flow_step (hown : OwnsSys s) (htr : TracedSys codec side s)
    (hheld : ∀ o, s.session.state = .opened o → requestHeld s.writer ≤ o.outstanding.keys)
    (hgiven : ∀ q ∈ queuedList s.session.log, ∀ id result, q.body = .reply id result →
      ∃ automatic, ⟨id, result, automatic⟩ ∈ repliedList s.session.log)
    (hs : Step codec s none s') : Requests s s' ∧ Replies codec s s' := by
  have hrefl : Moved 0 0 s.session s.session := Moved.refl _
  cases hs with
  | unchanged => exact flow_keep hrefl ⟨rfl, rfl⟩ rfl
  | request hm => exact flow_keep (Moved.request hown hm) ⟨rfl, rfl⟩ rfl
  | respond hid hm =>
    have hm' := Moved.reply (hown.hand (outsideIds_of_responder hid).symm) hm false
    exact flow_keep hm' ⟨rfl, rfl⟩ rfl
  | abandon _ => exact flow_keep hrefl ⟨rfl, rfl⟩ rfl
  | recv _ hm => exact flow_keep (Moved.takeIncoming hm) ⟨rfl, rfl⟩ rfl
  | @decode id message hr =>
    have hm' : Moved 0 0 s.session (s.decodeRequest codec id message).session ∧
        (s.decodeRequest codec id message).writer = s.writer ∧
        (s.decodeRequest codec id message).outbox = s.outbox := by
      unfold Sys.decodeRequest
      dsimp only
      split
      · next body _ =>
        have hq : expiredIds [Event.received id body] = 0 := expiredIds_single rfl
        refine ⟨hrefl.congr rfl ?_, rfl, rfl⟩
        simp only [Sys.logged, Sys.withShared, expiredIds_append, hq, add_zero]
      · exact ⟨hrefl.congr rfl rfl, rfl, rfl⟩
      · exact ⟨hrefl.congr rfl rfl, rfl, rfl⟩
    exact flow_keep hm'.1 (by rw [hm'.2.1]; exact ⟨rfl, rfl⟩) hm'.2.2
  | autoreplyDropped _ _ => exact flow_keep hrefl ⟨rfl, rfl⟩ rfl
  | autoreplyTimed _ => exact flow_keep hrefl ⟨rfl, rfl⟩ rfl
  | autoreplyRefused _ _ => exact flow_keep hrefl ⟨rfl, rfl⟩ rfl
  | autoreplyQueued ha hm =>
    have hm' := Moved.reply (hown.hand (outsideIds_of_autoreply ha).symm) hm true
    exact flow_keep hm' ⟨rfl, rfl⟩ rfl
  | close _ => exact flow_keep (Moved.close _ _ _) ⟨rfl, rfl⟩ rfl
  | closeOwed _ => exact flow_keep (Moved.close _ _ _) ⟨rfl, rfl⟩ rfl
  | closeReceive _ => exact flow_keep (Moved.close _ _ _) ⟨rfl, rfl⟩ rfl
  | setInboundLimits => exact flow_keep (Moved.setInboundLimits _ _ _ _) ⟨rfl, rfl⟩ rfl
  | setAutoreplyTimeout => exact flow_keep (Moved.setAutoreplyTimeout _ _) ⟨rfl, rfl⟩ rfl
  | expire => exact flow_keep (Moved.expire hown _) ⟨rfl, rfl⟩ rfl
  | pickupClosed hw hn =>
    have hm := (Moved.nextOutgoing hown htr.traces hn).2 (by simp)
    exact flow_keep hm (by rw [hw]; exact ⟨rfl, rfl⟩) rfl
  | pickupNone _ hn hp =>
    have hm := (Moved.nextOutgoing hown htr.traces hn).2 (by rcases hp with rfl | rfl <;> simp)
    exact flow_keep hm ⟨rfl, rfl⟩ rfl
  | pickup hw hn =>
    have hm := (Moved.nextOutgoing hown htr.traces hn).1 _ _ rfl
    refine flow_moved hm ?_ ?_
    · simp only [hw, Sys.withSession, requestHeld]
      abel
    · simp only [hw, Sys.withSession, replyHeld]
      abel
  | refuse hw he => exact flow_refuse htr hgiven hw he
  | send hw _ => exact flow_send hw ⟨rfl, rfl⟩
  | sendFailed delivered hw _ =>
    cases delivered with
    | true => exact flow_send hw ⟨rfl, rfl⟩
    | false => exact flow_lost _
  | withdraw hw => exact flow_withdraw hheld hw
  | report hw =>
    exact flow_keep (Moved.recordWrite _ _ _ _) (by rw [hw]; exact ⟨rfl, rfl⟩) rfl
  | fail hw =>
    exact flow_keep (Moved.close _ _ _) (by rw [hw]; exact ⟨rfl, rfl⟩) rfl
  | _ => exact flow_keep (hrefl.congr rfl rfl) ⟨rfl, rfl⟩ rfl

end Threads

/-! ### What a message changes -/

section Messages

variable {codec : Codec M} {s s' : SessionInner M} {bytes : Bytes} {header : Header} {now : ℕ}
  {result : Except Error (Option ℕ)}

/-- A request is reserved, or refused with an error. -/
theorem request_handled (hm : s.handleMessage codec bytes now = .ok (s', result))
    (hd : codec.decodeHeader s.side bytes = some header)
    (hk : MessageKind.fromId header.id s.side.parity = .request) :
    (s' = s ∧ ∃ error, result = .error error) ∨
    ∃ o o', s.state = .opened o ∧ s'.state = .opened o' ∧ o'.outstanding = o.outstanding ∧
      o'.reservedIds.val = o.reservedIds.val + {header.id} ∧
      expiredIds s'.log = expiredIds s.log := by
  have hq : expiredIds [(Event.admitted header.id : Event M)] = 0 := expiredIds_single rfl
  cases handleMessage_cases hm with
  | unparsed _ => exact .inl ⟨rfl, _, rfl⟩
  | failedRequest _ _ _ => exact .inl ⟨rfl, _, rfl⟩
  | closed _ => exact .inl ⟨rfl, _, rfl⟩
  | duplicate _ _ _ _ => exact .inl ⟨rfl, _, rfl⟩
  | refused _ _ => exact .inl ⟨rfl, _, rfl⟩
  | @unknown header' o hd' _ hs hn _ _ =>
    rw [hd] at hd'
    cases hd'
    refine .inr ⟨o, _, hs, rfl, rfl, ?_, by rw [expiredIds_append, hq, add_zero]⟩
    rw [Finset.insert_val_of_notMem hn, ← Multiset.singleton_add, add_comm]
  | @admitted header' o hd' _ _ hs hn _ _ _ _ =>
    rw [hd] at hd'
    cases hd'
    refine .inr ⟨o, _, hs, rfl, rfl, ?_, by rw [expiredIds_append, hq, add_zero]⟩
    rw [Finset.insert_val_of_notMem hn, ← Multiset.singleton_add, add_comm]
  | unmatched hd' hk' _ _ =>
    rw [hd] at hd'
    cases hd'
    rw [hk] at hk'
    cases hk'
  | late hd' hk' _ _ _ =>
    rw [hd] at hd'
    cases hd'
    rw [hk] at hk'
    cases hk'
  | completed hd' hk' _ _ _ _ =>
    rw [hd] at hd'
    cases hd'
    rw [hk] at hk'
    cases hk'

/-- The answer to an outstanding request ends it, or is refused with an error. -/
theorem response_handled (hm : s.handleMessage codec bytes now = .ok (s', result))
    (hd : codec.decodeHeader s.side bytes = some header)
    (hk : MessageKind.fromId header.id s.side.parity = .response)
    (hout : ∀ o, s.state = .opened o → header.id ∈ o.outstanding) :
    (s' = s ∧ ∃ error, result = .error error) ∨
    ∃ o o', s.state = .opened o ∧ s'.state = .opened o' ∧ o'.reservedIds = o.reservedIds ∧
      (o.outstanding.keys : Multiset ℕ) = o'.outstanding.keys + {header.id} ∧
      s'.log = s.log := by
  have hkeys : ∀ o, s.state = .opened o →
      (o.outstanding.keys : Multiset ℕ) = (o.outstanding.erase header.id).keys + {header.id} := by
    intro o ho
    have hmem := AList.mem_keys.mp (hout o ho)
    rw [AList.keys_erase, ← Multiset.coe_erase, add_comm, Multiset.singleton_add,
      Multiset.cons_erase (Multiset.mem_coe.mpr hmem)]
  cases handleMessage_cases hm with
  | unparsed _ => exact .inl ⟨rfl, _, rfl⟩
  | failedRequest _ _ _ => exact .inl ⟨rfl, _, rfl⟩
  | closed _ => exact .inl ⟨rfl, _, rfl⟩
  | duplicate _ _ _ _ => exact .inl ⟨rfl, _, rfl⟩
  | refused _ _ => exact .inl ⟨rfl, _, rfl⟩
  | unknown hd' hk' _ _ _ _ =>
    rw [hd] at hd'
    cases hd'
    rw [hk] at hk'
    cases hk'
  | admitted hd' hk' _ _ _ _ _ _ _ =>
    rw [hd] at hd'
    cases hd'
    rw [hk] at hk'
    cases hk'
  | unmatched hd' _ hs hl =>
    rw [hd] at hd'
    cases hd'
    have hmem := AList.lookup_isSome.mpr (hout _ hs)
    rw [hl] at hmem
    cases hmem
  | late hd' _ hs _ _ =>
    rw [hd] at hd'
    cases hd'
    exact .inr ⟨_, _, hs, rfl, rfl, hkeys _ hs, rfl⟩
  | completed hd' _ hs _ _ _ =>
    rw [hd] at hd'
    cases hd'
    exact .inr ⟨_, _, hs, rfl, rfl, hkeys _ hs, rfl⟩

/-- A message changes the session, and leaves a thread to close it where it is refused. -/
theorem message_step {r r' : Sys M} (hs : Step codec r (some bytes) r') :
    ∃ now result, r.session.handleMessage codec bytes now = .ok (r'.session, result) ∧
      r'.writer = r.writer ∧ r'.outbox = r.outbox ∧
      ∀ error, result = .error error → ¬ Healthy r' := by
  cases hs with
  | messageRefused hm =>
    refine ⟨_, _, hm, rfl, rfl, fun _ _ hh => ?_⟩
    have howed := hh.owed
    simp at howed
  | messageRouted hm => exact ⟨_, _, hm, rfl, rfl, fun _ he => (by cases he)⟩
  | messageUnknown hm => exact ⟨_, _, hm, rfl, rfl, fun _ he => (by cases he)⟩

end Messages

/-! ### The balance of a pair -/

/-- **The balance**, of the requests of `A` and the answers of `B`: `nB` messages were delivered to
`B`, and `nA` to `A`. -/
def Balanced (codec : Codec M) (A B : Sys M) (nB nA : ℕ) : Prop :=
  ∀ o, A.session.state = .opened o → ∃ refused lost, (∀ id ∈ refused, Refused codec B id) ∧
    (Healthy A → Healthy B → lost = 0) ∧
    (o.outstanding.keys : Multiset ℕ) + requestIds (A.outbox.take nB) +
      answerIds (B.outbox.take nA) = flow A + stock B + refused + lost

/-- The IDs under way: to the peer, with it, and back. -/
def underway (A B : Sys M) (nB nA : ℕ) : Multiset ℕ :=
  requestHeld A.writer + requestIds (A.outbox.drop nB) + reserved B.session + replyHeld B.writer +
    answerIds (B.outbox.drop nA)

section Balance

variable {codec : Codec M} {side : Side} {A A' B B' : Sys M} {nA nB : ℕ}

/-- The balance without what was delivered. -/
theorem Balanced.exact (h : Balanced codec A B nB nA) {o : OpenState M}
    (ho : A.session.state = .opened o) : ∃ refused lost, (∀ id ∈ refused, Refused codec B id) ∧
      (Healthy A → Healthy B → lost = 0) ∧
      (o.outstanding.keys : Multiset ℕ) =
        underway A B nB nA + expiredIds B.session.log + refused + lost := by
  obtain ⟨refused, lost, hr, hl, he⟩ := h o ho
  refine ⟨refused, lost, hr, hl, ?_⟩
  have hA :
      requestIds A.outbox = requestIds (A.outbox.take nB) + requestIds (A.outbox.drop nB) := by
    rw [← requestIds_append, List.take_append_drop]
  have hB : answerIds B.outbox = answerIds (B.outbox.take nA) + answerIds (B.outbox.drop nA) := by
    rw [← answerIds_append, List.take_append_drop]
  refine add_right_cancel (b := requestIds (A.outbox.take nB) + answerIds (B.outbox.take nA)) ?_
  rw [← add_assoc, he, flow, stock, kept, underway, hA, hB]
  abel

/-- The request with the writer is outstanding. -/
theorem Balanced.held_le (h : Balanced codec A B nB nA) (o : OpenState M)
    (ho : A.session.state = .opened o) : requestHeld A.writer ≤ o.outstanding.keys := by
  obtain ⟨refused, lost, -, -, he⟩ := h.exact ho
  rw [he, underway]
  refine le_trans ?_ (Multiset.le_add_right _ lost)
  refine le_trans ?_ (Multiset.le_add_right _ refused)
  simp only [add_assoc]
  exact Multiset.le_add_right _ _

/-- An answer under way is for an outstanding request. -/
theorem Balanced.answer_mem (h : Balanced codec A B nB nA) {o : OpenState M}
    (ho : A.session.state = .opened o) {e : Sent M} (he : B.outbox[nA]? = some e)
    (hr : e.message.body.isRequest = false) : e.id ∈ o.outstanding := by
  obtain ⟨refused, lost, -, -, hk⟩ := h.exact ho
  have hdrop : B.outbox.drop nA = e :: B.outbox.drop (nA + 1) := by
    obtain ⟨hn, rfl⟩ := List.getElem?_eq_some_iff.mp he
    rw [List.drop_eq_getElem_cons hn]
  have hmem : e.id ∈ answerIds (B.outbox.drop nA) := by
    rw [hdrop, ← List.singleton_append, answerIds_append, answerIds_single, hr]
    simp
  rw [AList.mem_keys, ← Multiset.mem_coe, hk, underway]
  simp only [Multiset.mem_add]
  exact .inl (.inl (.inl (.inr hmem)))

/-- A step of the side that asks. -/
theorem Balanced.requester (h : Balanced codec A B nB nA) (hn : nB ≤ A.outbox.length)
    (hs : Step codec A none A') (hreq : Requests A A') : Balanced codec A' B nB nA := by
  intro o' ho'
  obtain ⟨o, lost', ho, hk, hl'⟩ := hreq o' ho'
  obtain ⟨refused, lost, hr, hl, he⟩ := h o ho
  have htake : A'.outbox.take nB = A.outbox.take nB := by
    obtain ⟨rest, hrest⟩ := outbox_step hs
    rw [← hrest, List.take_append_of_le_length hn]
  refine ⟨refused, lost' + lost, hr, fun hA hB => ?_, ?_⟩
  · have hA' := healthy_of_step hs (fun _ => ⟨o, ho⟩) hA
    rw [hl' hA, hl hA' hB, add_zero]
  · rw [htake]
    refine add_left_cancel (a := flow A) ?_
    calc flow A + ((o'.outstanding.keys : Multiset ℕ) + requestIds (A.outbox.take nB) +
            answerIds (B.outbox.take nA))
        = (o'.outstanding.keys : Multiset ℕ) + flow A + (requestIds (A.outbox.take nB) +
            answerIds (B.outbox.take nA)) := by abel
      _ = (o.outstanding.keys : Multiset ℕ) + requestIds (A.outbox.take nB) +
            answerIds (B.outbox.take nA) + (flow A' + lost') := by rw [hk]; abel
      _ = flow A + (flow A' + stock B + refused + (lost' + lost)) := by rw [he]; abel

/-- A step of the side that answers. -/
theorem Balanced.answerer (h : Balanced codec A B nB nA) (hn : nA ≤ B.outbox.length)
    (hs : Step codec B none B') (hopen : ∀ o', B'.session.state = .opened o' →
      ∃ o, B.session.state = .opened o) (hlog : Later B.session B'.session)
    (hrep : Replies codec B B') : Balanced codec A B' nB nA := by
  intro o ho
  obtain ⟨refused, lost, hr, hl, he⟩ := h o ho
  obtain ⟨refused', lost', hr', hl', hk⟩ := hrep
  have htake : B'.outbox.take nA = B.outbox.take nA := by
    obtain ⟨rest, hrest⟩ := outbox_step hs
    rw [← hrest, List.take_append_of_le_length hn]
  refine ⟨refused' + refused, lost' + lost, fun id hid => ?_, fun hA hB => ?_, ?_⟩
  · rcases Multiset.mem_add.mp hid with hid | hid
    · exact hr' id hid
    · obtain ⟨result, automatic, error, hm, hce⟩ := hr id hid
      refine ⟨result, automatic, error, ?_, by rw [hlog.side]; exact hce⟩
      obtain ⟨rest, hrest⟩ := hlog.log
      rw [← hrest, repliedList_append]
      exact List.mem_append_left _ hm
  · have hB' := healthy_of_step hs (fun ⟨o', ho'⟩ => hopen o' ho') hB
    rw [hl' hB, hl hA hB', add_zero]
  · rw [htake, he, hk]
    abel

/-! ### Deliveries -/

/-- The reader tells requests from answers as the peer sent them. -/
theorem sent_header (hrt : RoundTrip codec) (hA : TracedSys codec side A)
    (hB : TracedSys codec side.peer B) {m : ℕ} (h' : Arrivals B A m) (hb : Answers B) {e : Sent M}
    (he : e ∈ B.outbox) : ∃ header, codec.decodeHeader A.session.side e.bytes = some header ∧
      header.id = e.id ∧ MessageKind.fromId header.id A.session.side.parity =
        if e.message.body.isRequest then .request else .response := by
  obtain ⟨header, hdec, hid, -, -⟩ := hrt.header (hB.sent e he).2
  rw [Side.peer_peer, ← hA.side_eq] at hdec
  refine ⟨header, hdec, hid, ?_⟩
  cases hr : e.message.body.isRequest with
  | true =>
    have hp := request_parity hB he hr
    cases hk : MessageKind.fromId header.id A.session.side.parity with
    | request => rfl
    | response =>
      rw [fromId_eq_response, hid, hA.side_eq, hp] at hk
      exact absurd hk (parity_peer_ne side)
  | false =>
    have hp := reply_parity hA hB h' hb he hr
    rw [if_neg Bool.false_ne_true, fromId_eq_response, hid, hA.side_eq]
    exact hp

/-- **A message arrives**: a request is the receiver's to answer, an answer ends a request. -/
theorem received_step {e : Sent M} {header : Header} (hs : Step codec A (some e.bytes) A')
    (hd : codec.decodeHeader A.session.side e.bytes = some header) (hid : header.id = e.id)
    (hk : MessageKind.fromId header.id A.session.side.parity =
      if e.message.body.isRequest then .request else .response)
    (hout : e.message.body.isRequest = false →
      ∀ o, A.session.state = .opened o → e.id ∈ o.outstanding) :
    (∀ o', A'.session.state = .opened o' → ∃ o lost, A.session.state = .opened o ∧
      (o'.outstanding.keys : Multiset ℕ) + answerIds [e] = o.outstanding.keys + lost ∧
      (Healthy A' → lost = 0)) ∧ flow A' = flow A ∧
    ∃ lost, stock A + requestIds [e] = stock A' + lost ∧ (Healthy A' → lost = 0) := by
  obtain ⟨now, result, hm, hw, ho, herr⟩ := message_step hs
  have hflow : flow A' = flow A := by rw [flow, flow, hw, ho]
  have hstock : ∀ {x : Multiset ℕ}, kept A.session + requestIds [e] = kept A'.session + x →
      stock A + requestIds [e] = stock A' + x := by
    intro x hx
    calc stock A + requestIds [e]
        = kept A.session + requestIds [e] + (replyHeld A.writer + answerIds A.outbox) := by
          rw [stock]; abel
      _ = stock A' + x := by rw [hx, stock, hw, ho]; abel
  -- a message refused with an error is lost, and a thread is about to close the session
  have hrefused : A'.session = A.session → (∃ error, result = .error error) →
      (∀ o', A'.session.state = .opened o' → ∃ o lost, A.session.state = .opened o ∧
        (o'.outstanding.keys : Multiset ℕ) + answerIds [e] = o.outstanding.keys + lost ∧
        (Healthy A' → lost = 0)) ∧ flow A' = flow A ∧
      ∃ lost, stock A + requestIds [e] = stock A' + lost ∧ (Healthy A' → lost = 0) := by
    rintro hsame ⟨error, hres⟩
    refine ⟨fun o' ho' => ⟨o', answerIds [e], hsame ▸ ho', rfl, fun hh => absurd hh (herr _ hres)⟩,
      hflow, requestIds [e], hstock (by rw [hsame]), fun hh => absurd hh (herr _ hres)⟩
  cases hr : e.message.body.isRequest with
  | true =>
    rw [hr, if_pos rfl] at hk
    have hans : answerIds [e] = 0 := by rw [answerIds_single, hr, if_pos rfl]
    rcases request_handled hm hd hk with ⟨hsame, herror⟩ | ⟨o, o', ho1, ho2, hout', hres, hlog⟩
    · exact hrefused hsame herror
    · refine ⟨fun o'' ho'' => ?_, hflow, 0, hstock ?_, fun _ => rfl⟩
      · rw [ho2] at ho''
        cases ho''
        exact ⟨o, 0, ho1, by rw [hans, hout'], fun _ => rfl⟩
      · have hreq : requestIds [e] = {header.id} := by rw [requestIds_single, hr, if_pos rfl, hid]
        simp only [kept, reserved, ho1, ho2, hres, hlog, hreq]
        abel
  | false =>
    rw [hr, if_neg Bool.false_ne_true] at hk
    have hreq : requestIds [e] = 0 := by rw [requestIds_single, hr, if_neg Bool.false_ne_true]
    rcases response_handled hm hd hk (fun o ho => hid ▸ hout hr o ho) with
      ⟨hsame, herror⟩ | ⟨o, o', ho1, ho2, hres, hkeys, hlog⟩
    · exact hrefused hsame herror
    · refine ⟨fun o'' ho'' => ?_, hflow, 0, hstock ?_, fun _ => rfl⟩
      · rw [ho2] at ho''
        cases ho''
        have hans : answerIds [e] = {header.id} := by
          rw [answerIds_single, hr, if_neg Bool.false_ne_true, hid]
        exact ⟨o, 0, ho1, by rw [hans, hkeys, add_zero], fun _ => rfl⟩
      · simp only [kept, reserved, ho1, ho2, hres, hlog, hreq, add_zero]

/-- The answer is delivered to the side that asked, or one of its peer's requests is. -/
theorem Balanced.deliver_requester (h : Balanced codec A B nB nA) {e : Sent M}
    (he : B.outbox[nA]? = some e) (hs : Step codec A (some e.bytes) A')
    (hkeys : ∀ o', A'.session.state = .opened o' → ∃ o lost, A.session.state = .opened o ∧
      (o'.outstanding.keys : Multiset ℕ) + answerIds [e] = o.outstanding.keys + lost ∧
      (Healthy A' → lost = 0)) (hf : flow A' = flow A) (ho : A'.outbox = A.outbox) :
    Balanced codec A' B nB (nA + 1) := by
  intro o' ho'
  obtain ⟨o, lost', hopen, hk, hl'⟩ := hkeys o' ho'
  obtain ⟨refused, lost, hr, hl, hb⟩ := h o hopen
  refine ⟨refused, lost' + lost, hr, fun hA hB => ?_, ?_⟩
  · have hA' := healthy_of_step hs (fun _ => ⟨o, hopen⟩) hA
    rw [hl' hA, hl hA' hB, add_zero]
  · rw [take_delivered he, answerIds_append, ho, hf]
    calc (o'.outstanding.keys : Multiset ℕ) + requestIds (A.outbox.take nB) +
          (answerIds (B.outbox.take nA) + answerIds [e])
        = (o'.outstanding.keys : Multiset ℕ) + answerIds [e] + requestIds (A.outbox.take nB) +
            answerIds (B.outbox.take nA) := by abel
      _ = (o.outstanding.keys : Multiset ℕ) + requestIds (A.outbox.take nB) +
            answerIds (B.outbox.take nA) + lost' := by rw [hk]; abel
      _ = flow A + stock B + refused + (lost' + lost) := by rw [hb]; abel

/-- The request is delivered to the side that answers, or one of its peer's answers is. -/
theorem Balanced.deliver_answerer (h : Balanced codec A B nB nA) {e : Sent M}
    (he : A.outbox[nB]? = some e) (hs : Step codec B (some e.bytes) B')
    (hopen : ∀ o', B'.session.state = .opened o' → ∃ o, B.session.state = .opened o)
    (hlog : Later B.session B'.session)
    (hstock : ∃ lost, stock B + requestIds [e] = stock B' + lost ∧ (Healthy B' → lost = 0))
    (ho : B'.outbox = B.outbox) : Balanced codec A B' (nB + 1) nA := by
  intro o hA
  obtain ⟨refused, lost, hr, hl, hb⟩ := h o hA
  obtain ⟨lost', hk, hl'⟩ := hstock
  refine ⟨refused, lost' + lost, fun id hid => ?_, fun hAh hBh => ?_, ?_⟩
  · obtain ⟨result, automatic, error, hm, hce⟩ := hr id hid
    refine ⟨result, automatic, error, ?_, by rw [hlog.side]; exact hce⟩
    obtain ⟨rest, hrest⟩ := hlog.log
    rw [← hrest, repliedList_append]
    exact List.mem_append_left _ hm
  · have hB' := healthy_of_step hs (fun ⟨o', ho'⟩ => hopen o' ho') hBh
    rw [hl' hBh, hl hAh hB', add_zero]
  · rw [take_delivered he, requestIds_append, ho]
    calc (o.outstanding.keys : Multiset ℕ) + (requestIds (A.outbox.take nB) + requestIds [e]) +
          answerIds (B.outbox.take nA)
        = (o.outstanding.keys : Multiset ℕ) + requestIds (A.outbox.take nB) +
            answerIds (B.outbox.take nA) + requestIds [e] := by abel
      _ = flow A + (stock B + requestIds [e]) + refused + lost := by rw [hb]; abel
      _ = flow A + stock B' + refused + (lost' + lost) := by rw [hk]; abel

end Balance

/-! ### It holds in every state -/

section Run

variable {codec : Codec M} {p p' : Peers M}

/-- Each side of a pair is a session against a peer that may do anything. -/
theorem side_reachable (h : (peers codec).Reachable p) (side : Side) :
    (machine codec side).Reachable (p.sys side) := by
  induction h with
  | init => exact .init
  | @step p p' a _ hs ih =>
    have hmove : ∀ {actor : Side} {s' : Sys M} {b : Action M},
        (p.sys actor).step codec b = .next s' → p'.sys = Function.update p.sys actor s' →
        (machine codec side).Reachable (p'.sys side) := by
      intro actor s' b hb hp
      rw [hp]
      by_cases hside : side = actor
      · subst hside
        rw [Function.update_self]
        exact ih.step hb
      · rwa [Function.update_of_ne hside]
    cases a with
    | act actor a =>
      simp only [peers, Peers.step, Peers.act] at hs
      split at hs
      · cases hs
      · split at hs
        · cases hs
        · cases hs
        · next s' hb =>
          cases hs
          exact hmove hb rfl
    | deliver actor now =>
      simp only [peers, Peers.step, Peers.deliver] at hs
      split at hs
      · cases hs
      · split at hs
        · cases hs
        · cases hs
        · next s' hb =>
          cases hs
          exact hmove hb rfl

/-- The balance of both directions. -/
def BalancedPeers (codec : Codec M) (p : Peers M) : Prop :=
  ∀ side, Balanced codec (p.sys side) (p.sys side.peer) (p.delivered side.peer) (p.delivered side)

theorem balanced_new : BalancedPeers codec (.new : Peers M) := by
  intro side o ho
  refine ⟨0, 0, by simp, fun _ _ => rfl, ?_⟩
  simp only [Peers.new, Sys.new, SessionInner.new] at ho
  cases ho
  simp [Peers.new, Sys.new, SessionInner.new, flow, stock, kept, reserved, requestHeld, replyHeld,
    requestIds, answerIds, sentRequests, expiredIds]

/-- One side moves, and both directions stay balanced. -/
theorem balanced_moved {actor : Side} {s' : Sys M}
    (hs : p'.sys = Function.update p.sys actor s')
    (hask : Balanced codec s' (p.sys actor.peer) (p'.delivered actor.peer) (p'.delivered actor))
    (hanswer : Balanced codec (p.sys actor.peer) s' (p'.delivered actor)
      (p'.delivered actor.peer)) : BalancedPeers codec p' := by
  have hself : p'.sys actor = s' := by rw [hs, Function.update_self]
  have hpeer : p'.sys actor.peer = p.sys actor.peer := by
    rw [hs, Function.update_of_ne (peer_ne actor)]
  intro side
  by_cases hside : side = actor
  · subst hside
    rw [hself, hpeer]
    exact hask
  · have hp : side = actor.peer := by
      cases side <;> cases actor <;> first | rfl | exact absurd rfl hside
    subst hp
    rw [hpeer, Side.peer_peer, hself]
    exact hanswer

theorem balanced_step (hrt : RoundTrip codec) {a : PeerAction M} (hr : (peers codec).Reachable p)
    (h : BalancedPeers codec p) (hs : p.step codec a = .next p') : BalancedPeers codec p' := by
  have hi := sideInv_reachable hrt hr
  cases a with
  | act side a =>
    simp only [Peers.step, Peers.act] at hs
    split at hs
    · cases hs
    · next hin =>
      split at hs
      · cases hs
      · cases hs
      · next s' hstep =>
        cases hs
        have hst := step_cases hstep
        rw [hin] at hst
        have hback := (hi side.peer).arrivals.delivered_le
        rw [Side.peer_peer] at hback
        have hown := ownsSys_reachable (side_reachable hr side)
        obtain ⟨hreq, hrep⟩ := flow_step hown (hi side).traced (h side).held_le
          (hi side).answers.replied hst
        have hlater := (traces_step (hi side).traced.traces hst).2
        have hanswer := h side.peer
        rw [Side.peer_peer] at hanswer
        refine balanced_moved rfl ((h side).requester hback hst hreq) ?_
        refine hanswer.answerer hback hst (fun o' ho' => ?_) hlater hrep
        obtain ⟨o, -, ho, -⟩ := hreq o' ho'
        exact ⟨o, ho⟩
  | deliver side now =>
    simp only [Peers.step, Peers.deliver] at hs
    split at hs
    · cases hs
    · next e he =>
      split at hs
      · cases hs
      · cases hs
      · next s' hstep =>
        cases hs
        have hst : Step codec (p.sys side) (some e.bytes) s' := step_cases hstep
        have hback := (hi side.peer).arrivals
        rw [Side.peer_peer] at hback
        obtain ⟨header, hd, hid, hk⟩ := sent_header hrt (hi side).traced (hi side.peer).traced hback
          (hi side.peer).answers (List.mem_of_getElem? he)
        obtain ⟨hkeys, hflow, hstock⟩ := received_step hst hd hid hk
          fun hr o ho => (h side).answer_mem ho he hr
        have hlater := (traces_step (hi side).traced.traces hst).2
        obtain ⟨-, -, -, -, hout, -⟩ := message_step hst
        have hanswer := h side.peer
        rw [Side.peer_peer] at hanswer
        have hself : Function.update p.delivered side (p.delivered side + 1) side =
            p.delivered side + 1 := Function.update_self ..
        have hother : Function.update p.delivered side (p.delivered side + 1) side.peer =
            p.delivered side.peer := Function.update_of_ne (peer_ne side) ..
        refine balanced_moved rfl ?_ ?_
        · dsimp only
          rw [hself, hother]
          exact (h side).deliver_requester he hst hkeys hflow hout
        · dsimp only
          rw [hself, hother]
          refine hanswer.deliver_answerer he hst (fun o' ho' => ?_) hlater hstock hout
          obtain ⟨o, -, ho, -⟩ := hkeys o' ho'
          exact ⟨o, ho⟩

theorem balanced_reachable (hrt : RoundTrip codec) (h : (peers codec).Reachable p) :
    BalancedPeers codec p :=
  h.invariant balanced_new fun _ _ _ hr hi hs => balanced_step hrt hr hi hs

end Run

/-! ### What it gives -/

section Results

variable {codec : Codec M} {p : Peers M}

/-- **No request and no answer is lost.** In every reachable pair of sessions, for every open side:
an ID at one of the places between a request and its answer is outstanding, at that place only; and
where both sides are open and no thread is about to close one, every outstanding ID is at exactly
one of these places, or its reply was discarded at its deadline, or the encoder refused the reply
given. -/
theorem conservation (hrt : RoundTrip codec) (h : (peers codec).Reachable p) (side : Side)
    {o : OpenState M} (ho : (p.sys side).session.state = .opened o) :
    ∃ refused lost : Multiset ℕ,
      (o.outstanding.keys : Multiset ℕ) =
        underway (p.sys side) (p.sys side.peer) (p.delivered side.peer) (p.delivered side) +
        expiredIds (p.sys side.peer).session.log + refused + lost ∧
      (∀ id ∈ refused, ∃ result automatic error,
        ⟨id, result, automatic⟩ ∈ repliedList (p.sys side.peer).session.log ∧
        codec.encode (p.sys side.peer).session.side id result = .error error) ∧
      (Healthy (p.sys side) → Healthy (p.sys side.peer) → lost = 0) ∧
      (underway (p.sys side) (p.sys side.peer) (p.delivered side.peer)
          (p.delivered side)).Nodup := by
  obtain ⟨refused, lost, hr, hl, he⟩ := (balanced_reachable hrt h side).exact ho
  refine ⟨refused, lost, he, hr, hl, ?_⟩
  have hnodup : (o.outstanding.keys : Multiset ℕ).Nodup :=
    Multiset.coe_nodup.mpr o.outstanding.nodupKeys
  refine Multiset.nodup_of_le ?_ hnodup
  rw [he, add_assoc, add_assoc]
  exact Multiset.le_add_right _ _

/-- Three requests of the client: one with its responder, one answered with the reply under way, and
one under way to the server. -/
def scattered : List (PeerAction UInt8) :=
  [.act .client (.request 7 20 0), .act .client (.request 8 20 0), .act .client (.request 9 20 0),
    .act .client (.pickup 1), .act .client (.send (.ok ()) true), .act .client (.report 1),
    .act .client (.pickup 1), .act .client (.send (.ok ()) true), .act .client (.report 1),
    .act .client (.pickup 1), .act .client (.send (.ok ()) true), .act .client (.report 1),
    .deliver .server 2, .deliver .server 2, .act .server .recv, .act .server .decode,
    .act .server .recv, .act .server .decode, .act .server (.respond 1 (.ok 9) 20 3),
    .act .server (.pickup 4), .act .server (.send (.ok ()) true)]

theorem conservation_scattered :
    ∃ p o refused lost, (peers tinyCodec).run scattered .new = some p ∧
      (p.sys .client).session.state = .opened o ∧
      underway (p.sys .client) (p.sys .server) (p.delivered .server) (p.delivered .client) =
        {5} + {3} + {1} ∧
      (o.outstanding.keys : Multiset ℕ) =
        underway (p.sys .client) (p.sys .server) (p.delivered .server) (p.delivered .client) +
        expiredIds (p.sys .server).session.log + refused + lost := by
  obtain ⟨p, o, hr, ho, hu⟩ : ∃ p o, (peers tinyCodec).run scattered .new = some p ∧
      (p.sys .client).session.state = .opened o ∧
      underway (p.sys .client) (p.sys .server) (p.delivered .server) (p.delivered .client) =
        {5} + {3} + {1} := ⟨_, _, rfl, rfl, by decide⟩
  obtain ⟨refused, lost, he, -⟩ :=
    conservation tinyCodec_roundTrip (Machine.reachable_of_run hr) .client ho
  exact ⟨p, o, refused, lost, hr, ho, hu, he⟩

/-- **Where all is quiet, every request was answered**, unless its reply was discarded or
refused. -/
theorem quiescence (hrt : RoundTrip codec) (h : (peers codec).Reachable p) (side : Side)
    {o : OpenState M} (ho : (p.sys side).session.state = .opened o) (hside : Healthy (p.sys side))
    (hpeer : Healthy (p.sys side.peer))
    (hquiet : underway (p.sys side) (p.sys side.peer) (p.delivered side.peer)
      (p.delivered side) = 0)
    {id : ℕ} (hid : id ∈ o.outstanding) : id ∈ expiredIds (p.sys side.peer).session.log ∨
      Refused codec (p.sys side.peer) id := by
  obtain ⟨refused, lost, hr, hl, he⟩ := (balanced_reachable hrt h side).exact ho
  have hmem : id ∈ (o.outstanding.keys : Multiset ℕ) :=
    Multiset.mem_coe.mpr (AList.mem_keys.mp hid)
  rw [he, hquiet, hl hside hpeer, zero_add, add_zero] at hmem
  rcases Multiset.mem_add.mp hmem with hmem | hmem
  · exact .inl hmem
  · exact .inr (hr id hmem)

theorem admitRequest_limit {o : OpenState M} {w : Shared} {header : Header} {bytes : Bytes} {n : ℕ}
    (h : SessionInner.admitRequest o w header bytes = .error (.inboundRequestLimitExceeded n)) :
    o.maxInboundRequests ≤ o.reservedIds.card := by
  by_contra hlt
  unfold SessionInner.admitRequest at h
  rw [if_neg hlt] at h
  split_ifs at h
  · cases h
  · split at h
    · next error hn =>
      unfold IncomingEnvelope.new at hn
      split at hn
      · cases hn
      · cases hn
        cases h
    · cases h

theorem completeResponse_limit {operation : PendingOperation} {now limit n : ℕ} {w w' : Shared}
    {bytes : Bytes} {header : Header} : operation.completeResponse now w bytes header limit ≠
      .ok (w', .error (.inboundRequestLimitExceeded n)) := by
  intro h
  generalize hres : (.error (.inboundRequestLimitExceeded n) : Except Error Unit) = result at h
  cases completeResponse_cases h with
  | late _ => cases hres
  | answered _ _ _ _ => cases hres
  | refused _ _ =>
    split_ifs at hres
    cases hres

/-- A request is refused for the limit on requests only where the limit is reached. -/
theorem requestLimit_reached {s s' : SessionInner M} {bytes : Bytes} {now n : ℕ}
    (hm : s.handleMessage codec bytes now = .ok (s', .error (.inboundRequestLimitExceeded n)))
    {o : OpenState M} (hs : s.state = .opened o) :
    o.maxInboundRequests ≤ o.reservedIds.card ∧ ∃ header, codec.decodeHeader s.side bytes =
      some header ∧ MessageKind.fromId header.id s.side.parity = .request := by
  unfold SessionInner.handleMessage at hm
  split at hm
  · cases hm
  · next header hd =>
    unfold SessionInner.route at hm
    rw [hs] at hm
    split at hm
    · next hk =>
      refine ⟨?_, header, hd, hk⟩
      by_cases hf : header.failed = true
      · rw [if_pos hf] at hm
        cases hm
      · rw [if_neg hf] at hm
        dsimp only at hm
        split at hm
        · next error he =>
          cases hm
          exact admitRequest_limit he
        · cases hm
    · dsimp only at hm
      split at hm
      · cases hm
      · split at hm
        · cases hm
        · split at hm
          · cases hm
          · next w result hc =>
            cases result with
            | ok _ => cases hm
            | error error =>
              cases hm
              exact absurd hc completeResponse_limit

/-- **A side that limits itself is never refused.** In every reachable pair of open sessions, the
requests that the peer has reserved and those under way to it are no more than the side has
outstanding. So while these are within the peer's limit on pending requests, no delivery makes the
peer close for that limit. -/
theorem within_limit (hrt : RoundTrip codec) (h : (peers codec).Reachable p) (side : Side)
    {o o' : OpenState M} (ho : (p.sys side).session.state = .opened o)
    (ho' : (p.sys side.peer).session.state = .opened o') :
    o'.reservedIds.card +
        (sentRequests ((p.sys side).outbox.drop (p.delivered side.peer))).length ≤
      o.outstanding.keys.length ∧
    (o.outstanding.keys.length ≤ o'.maxInboundRequests → ∀ now p',
      p.step codec (.deliver side.peer now) = .next p' → ∀ c ∈ (p'.sys side.peer).owed, ∀ n,
        c.error = .inboundRequestLimitExceeded n → c ∈ (p.sys side.peer).owed) := by
  obtain ⟨refused, lost, -, -, he⟩ := (balanced_reachable hrt h side).exact ho
  have hcount : o'.reservedIds.card +
      (sentRequests ((p.sys side).outbox.drop (p.delivered side.peer))).length ≤
      o.outstanding.keys.length := by
    have hcard := congrArg Multiset.card he
    have hres : reserved (p.sys side.peer).session = o'.reservedIds.val := by
      simp only [reserved, ho']
    simp only [underway, Multiset.card_add, Multiset.coe_card, requestIds, List.length_map, hres,
      Finset.card_val] at hcard
    omega
  refine ⟨hcount, fun hlimit now p' hs c hc n hn => ?_⟩
  simp only [Peers.step, Peers.deliver, Side.peer_peer] at hs
  split at hs
  · cases hs
  · next e hget =>
    split at hs
    · cases hs
    · cases hs
    · next s' hstep =>
      cases hs
      dsimp only at hc
      rw [Function.update_self] at hc
      have hst : Step codec (p.sys side.peer) (some e.bytes) s' := step_cases hstep
      cases hst with
      | messageRefused hm =>
        rcases List.mem_append.mp hc with hc | hc
        · exact hc
        · rw [List.mem_singleton.mp hc] at hn
          dsimp only at hn
          rw [hn] at hm
          obtain ⟨hreached, header, hd, hk⟩ := requestLimit_reached hm ho'
          -- the message is a request under way, so there is room for it
          have hi := sideInv_reachable hrt h
          have hmem : e ∈ (p.sys side.peer.peer).outbox := by
            rw [Side.peer_peer]
            exact List.mem_of_getElem? hget
          have hback := (hi side).arrivals
          have hpp : (p.sys side) = p.sys side.peer.peer := by rw [Side.peer_peer]
          obtain ⟨header', hd', -, hk'⟩ := sent_header hrt (hi side.peer).traced
            (hi side.peer.peer).traced (hpp ▸ hback) (hi side.peer.peer).answers hmem
          rw [hd] at hd'
          cases hd'
          have hreq : e.message.body.isRequest = true := by
            by_contra hno
            rw [hk', if_neg hno] at hk
            cases hk
          have hdrop : (p.sys side).outbox.drop (p.delivered side.peer) =
              e :: (p.sys side).outbox.drop (p.delivered side.peer + 1) := by
            obtain ⟨hlt, rfl⟩ := List.getElem?_eq_some_iff.mp hget
            rw [List.drop_eq_getElem_cons hlt]
          rw [hdrop, sentRequests, List.filter_cons_of_pos (by simpa using hreq),
            List.length_cons] at hcount
          omega
      | messageRouted hm => exact hc
      | messageUnknown hm => exact hc

end Results

theorem within_limit_scattered :
    ∃ p o o' p', (peers tinyCodec).run scattered .new = some p ∧
      (p.sys .client).session.state = .opened o ∧ (p.sys .server).session.state = .opened o' ∧
      o.outstanding.keys.length ≤ o'.maxInboundRequests ∧
      p.step tinyCodec (.deliver .server 5) = .next p' ∧
      ∀ c ∈ (p'.sys .server).owed, ∀ n, c.error = .inboundRequestLimitExceeded n →
        c ∈ (p.sys .server).owed := by
  obtain ⟨p, o, o', p', hr, ho, ho', hl, hs⟩ : ∃ p o o' p',
      (peers tinyCodec).run scattered .new = some p ∧
      (p.sys .client).session.state = .opened o ∧ (p.sys .server).session.state = .opened o' ∧
      o.outstanding.keys.length ≤ o'.maxInboundRequests ∧
      p.step tinyCodec (.deliver .server 5) = .next p' :=
        ⟨_, _, _, _, rfl, rfl, rfl, by decide, rfl⟩
  have h := within_limit tinyCodec_roundTrip (Machine.reachable_of_run hr) .client ho ho'
  exact ⟨p, o, o', p', hr, ho, ho', hl, hs, h.2 hl 5 p' hs⟩

end ArkWire.Protocol.Conservation
