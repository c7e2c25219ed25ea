import ArkWire.Protocol.Routing
import Mathlib.Data.Finset.Dedup

/-! # Every reserved request ID has one holder

`reserved_ids` holds the IDs of the peer's requests that are not answered yet. An ID is acquired by
`admit_request` and then handed on: from the `incoming` queue to `recv` and its responder, from
there to a reply in `outgoing`, by way of an automatic reply where nobody answers. `Owned` says that
the IDs held in these places, counted with multiplicity, are exactly the reserved ones, and that the
log of admissions and departures of every ID alternates (`Lifecycle`).

`ownership` collects what this gives for every reachable state. -/

namespace ArkWire.Protocol.Ownership

open ArkWire.Lib.Machines
open ArkWire.Transport.Errors ArkWire.Protocol.Errors ArkWire.Protocol.Envelope
open ArkWire.Protocol.Promise ArkWire.Protocol.Operation ArkWire.Protocol.Session
open ArkWire.Protocol.System ArkWire.Protocol.Sections ArkWire.Protocol.Steps
open ArkWire.Protocol.Routing

variable {M : Type}

/-! ### Admissions and departures of one ID -/

/-- The peer request whose slot an event acquires or releases. -/
def slotId : Event M → Option ℕ
  | .admitted id | .taken id | .expired id => some id
  | _ => none

/-- **The life of a slot**: every admission of `id` is followed by one departure, its reply taken by
the writer or expired, before the next one. The flag says whether an admission is still open. -/
inductive Lifecycle (id : ℕ) : List (Event M) → Bool → Prop
  | nil : Lifecycle id [] false
  | admitted {log} : Lifecycle id log false → Lifecycle id (log ++ [.admitted id]) true
  | taken {log} : Lifecycle id log true → Lifecycle id (log ++ [.taken id]) false
  | expired {log} : Lifecycle id log true → Lifecycle id (log ++ [.expired id]) false
  | other {log e b} : slotId e ≠ some id → Lifecycle id log b → Lifecycle id (log ++ [e]) b

/-- The holders have exactly the reserved IDs, each once, and the log agrees. -/
structure Owned (held : Multiset ℕ) (reserved : Finset ℕ) (log : List (Event M)) : Prop where
  held_eq : held = reserved.val
  lifecycle : ∀ id, Lifecycle id log (decide (id ∈ reserved))

namespace Owned

variable {held : Multiset ℕ} {reserved : Finset ℕ} {log : List (Event M)}

theorem new : Owned 0 ∅ ([] : List (Event M)) := ⟨rfl, fun _ => .nil⟩

/-- Holders may hand IDs on. -/
theorem hand (h : Owned held reserved log) {held' : Multiset ℕ} (he : held' = held) :
    Owned held' reserved log := he ▸ h

theorem other (h : Owned held reserved log) {e : Event M} (he : slotId e = none) :
    Owned held reserved (log ++ [e]) :=
  ⟨h.held_eq, fun id => .other (by simp [he]) (h.lifecycle id)⟩

theorem acquire (h : Owned held reserved log) {id : ℕ} (hid : id ∉ reserved) :
    Owned (held + {id}) (insert id reserved) (log ++ [.admitted id]) where
  held_eq := by
    rw [Finset.insert_val_of_notMem hid, h.held_eq, add_comm]
    rfl
  lifecycle i := by
    have hi := h.lifecycle i
    by_cases hii : i = id
    · subst hii
      simp only [hid, decide_false] at hi
      simpa using hi.admitted
    · have ho : slotId (Event.admitted (M := M) id) ≠ some i := by
        simp only [slotId, ne_eq, Option.some.injEq]
        exact fun he => hii he.symm
      simpa [hii] using hi.other ho

/-- An ID held somewhere is reserved. -/
theorem mem {id : ℕ} (h : Owned (held + {id}) reserved log) : id ∈ reserved := by
  rw [← Finset.mem_val, ← h.held_eq]
  simp

/-- A holder lets go of an ID, which departs. -/
theorem depart {id : ℕ} (h : Owned (held + {id}) reserved log) {e : Event M}
    (he : slotId e = some id)
    (hl : Lifecycle id log true → Lifecycle id (log ++ [e]) false) :
    Owned held (reserved.erase id) (log ++ [e]) where
  held_eq := by
    rw [Finset.erase_val, ← h.held_eq, add_comm, Multiset.singleton_add, Multiset.erase_cons_head]
  lifecycle i := by
    have hi := h.lifecycle i
    by_cases hii : i = id
    · subst hii
      simp only [h.mem, decide_true] at hi
      simpa using hl hi
    · have ho : slotId e ≠ some i := by
        rw [he, ne_eq, Option.some.injEq]
        exact fun hid => hii hid.symm
      simpa [hii] using hi.other ho

/-- The writer takes the reply of an ID. -/
theorem take {id : ℕ} (h : Owned (held + {id}) reserved log) :
    Owned held (reserved.erase id) (log ++ [.taken id]) := h.depart rfl .taken

/-- The reply of an ID expires. -/
theorem expire {id : ℕ} (h : Owned (held + {id}) reserved log) :
    Owned held (reserved.erase id) (log ++ [.expired id]) := h.depart rfl .expired

/-- The replies of many IDs expire, one after the other. -/
theorem expireAll : ∀ (ids : List ℕ) {reserved : Finset ℕ} {log : List (Event M)},
    Owned (held + ids) reserved log →
    Owned held (ids.foldl Finset.erase reserved) (log ++ ids.map .expired)
  | [], _, _, h => by simpa using h
  | id :: ids, reserved, log, h => by
    have h' : Owned (held + ids + {id}) reserved log := h.hand (by
      rw [← Multiset.cons_coe, add_assoc, add_comm (ids : Multiset ℕ), Multiset.singleton_add])
    have := expireAll ids h'.expire
    rwa [List.append_assoc] at this

end Owned

/-! ### The holders -/

/-- The IDs in the `incoming` queue. -/
def incomingIds (o : OpenState M) : Multiset ℕ := ↑(o.incoming.map Prod.fst)

/-- The IDs of the replies in the `outgoing` queue. -/
def replyIds (o : OpenState M) : Multiset ℕ := ↑(o.outgoing.filterMap (·.body.replyId))

/-- The IDs of requests taken by `recv` whose responder is not consumed: not decoded yet, with the
application, or with a `recv` about to close the session. -/
def receivedIds (s : Sys M) : Multiset ℕ :=
  ↑(s.receiving.toList.map Prod.fst) + ↑s.responders + ↑(s.owed.filterMap (·.responder))

/-- The IDs of automatic replies in progress. -/
def autoreplyIds (s : Sys M) : Multiset ℕ := ↑(s.autoreplies.map (·.id))

/-- The IDs held outside the session's lock. -/
def outsideIds (s : Sys M) : Multiset ℕ := receivedIds s + autoreplyIds s

/-- **The ownership invariant** of a session, `outside` being held outside its lock. -/
structure Owns (s : SessionInner M) (outside : Multiset ℕ) : Prop where
  owned : ∀ o, s.state = .opened o →
    Owned (incomingIds o + replyIds o + outside) o.reservedIds s.log
  limit : ∀ o, s.state = .opened o → o.reservedIds.card ≤ o.maxInboundRequests
  lifecycle : ∀ id, ∃ b, Lifecycle id s.log b

namespace Owns

variable {s s' : SessionInner M} {outside : Multiset ℕ}

/-- An open session owns what its queues and the outside hold. -/
theorem of_opened {o : OpenState M} (hs : s.state = .opened o)
    (h : Owned (incomingIds o + replyIds o + outside) o.reservedIds s.log)
    (hl : o.reservedIds.card ≤ o.maxInboundRequests) : Owns s outside where
  owned o' hs' := by rw [hs] at hs'; cases hs'; exact h
  limit o' hs' := by rw [hs] at hs'; cases hs'; exact hl
  lifecycle id := ⟨_, h.lifecycle id⟩

/-- A closed session owns nothing, and its log is complete. -/
theorem of_closed {e : Error} (hs : s.state = .closed e)
    (hl : ∀ id, ∃ b, Lifecycle id s.log b) : Owns s outside where
  owned o' hs' := by rw [hs] at hs'; cases hs'
  limit o' hs' := by rw [hs] at hs'; cases hs'
  lifecycle := hl

theorem hand (h : Owns s outside) {outside' : Multiset ℕ} (he : outside' = outside) :
    Owns s outside' := he ▸ h

/-- Nothing but the state and the log matters. -/
theorem congr (h : Owns s outside) (hs : s'.state = s.state) (hl : s'.log = s.log) :
    Owns s' outside := by
  obtain ⟨h1, h2, h3⟩ := h
  constructor
  all_goals simp only [hs, hl]
  all_goals assumption

theorem other (h : Owns s outside) {e : Event M} (he : slotId e = none) :
    Owns { s with log := s.log ++ [e] } outside where
  owned o hs := (h.owned o hs).other he
  limit := h.limit
  lifecycle id := by
    obtain ⟨b, hb⟩ := h.lifecycle id
    exact ⟨b, hb.other (by simp [he])⟩

theorem close (h : Owns s outside) (error : Error) (now : ℕ) :
    Owns (s.close error now).1 outside := by
  have hc := close_cases s error now
  generalize s.close error now = r at hc ⊢
  cases hc with
  | already hs => exact h
  | closed hs => exact of_closed rfl h.lifecycle

/-- Every reply is either kept or discarded by expiry. -/
theorem replyIds_partition (left : Operations) (outgoing : List (OutgoingMessage M)) :
    ((outgoing.filter fun m => (left.lookup m.key).isSome).filterMap (·.body.replyId) :
        Multiset ℕ) + discardedIds left outgoing =
      outgoing.filterMap (·.body.replyId) := by
  unfold discardedIds
  rw [Multiset.coe_add, ← List.filterMap_append, Multiset.coe_eq_coe]
  exact (List.filter_append_perm _ _).filterMap _

theorem expire (h : Owns s outside) (now : ℕ) : Owns (s.expire now) outside := by
  have hc := expire_cases s now
  generalize s.expire now = r at hc ⊢
  cases hc with
  | closed hs => exact h
  | @expired o hs =>
    generalize (failAll .timeout now (expiredKeys o.operations now) (o.operations, s.shared)).1 =
      left
    have ho : Owned (incomingIds o + ↑((o.outgoing.filter fun m =>
        (left.lookup m.key).isSome).filterMap (·.body.replyId)) + outside +
        discardedIds left o.outgoing) o.reservedIds s.log :=
      (h.owned o hs).hand (by rw [replyIds, ← replyIds_partition left o.outgoing]; abel)
    refine of_opened rfl ho.expireAll ?_
    exact (Finset.card_le_card (foldl_erase_subset _ _)).trans (h.limit o hs)

theorem setInboundLimits (h : Owns s outside) (requests bytes now : ℕ) :
    Owns (s.setInboundLimits requests bytes now).1 outside := by
  have hc := setInboundLimits_cases s requests bytes now
  generalize s.setInboundLimits requests bytes now = r at hc ⊢
  cases hc with
  | closed hs => exact h
  | exceeded hs _ =>
    have hl := h.lifecycle
    exact of_closed rfl hl
  | @limited o hs hr _ =>
    have ho := h.owned o hs
    exact of_opened rfl ho hr

theorem setAutoreplyTimeout (h : Owns s outside) (timeout : ℕ) :
    Owns (s.setAutoreplyTimeout timeout) outside := by
  rcases setAutoreplyTimeout_cases s timeout with ⟨e, hs, he⟩ | ⟨o, hs, he⟩
  · rwa [he]
  · rw [he]
    have ho := h.owned o hs
    exact of_opened rfl ho (h.limit o hs)

/-- A reply takes over the ID of the request it answers, or releases it past its deadline. -/
theorem submit {body : OutgoingBody M} (h : Owns s (outside + body.replyId.toList))
    {deadline now : ℕ} (hs' : s.submit body deadline now = .ok s') : Owns s' outside := by
  cases submit_cases hs' with
  | @late o hs _ =>
    have ho : Owned (incomingIds o + replyIds o + outside + body.replyId.toList) o.reservedIds
        s.log := (h.owned o hs).hand (by abel)
    refine of_opened rfl ho.expireAll ?_
    exact (Finset.card_le_card (foldl_erase_subset _ _)).trans (h.limit o hs)
  | @queued o hs _ =>
    refine of_opened rfl (((h.owned o hs).hand ?_).other rfl) (h.limit o hs)
    have hr : [(⟨body, s.nextKey⟩ : OutgoingMessage M)].filterMap (·.body.replyId) =
        body.replyId.toList := by cases hb : body.replyId <;> simp [hb]
    simp only [incomingIds, replyIds, List.filterMap_append, hr, ← Multiset.coe_add]
    abel

theorem request (h : Owns s outside) {message : M} {deadline now : ℕ}
    (hs' : s.request message deadline now = .ok s') : Owns s' outside :=
  submit (h.hand (by simp [OutgoingBody.replyId])) hs'

theorem reply {id : ℕ} (h : Owns s (outside + {id})) {result : Except SchemaError M}
    {deadline now : ℕ} (hs' : s.reply id result deadline now = .ok s') : Owns s' outside :=
  submit (h.hand (by simp [OutgoingBody.replyId])) hs'

/-- An admitted request is in the queue, or with the thread that answers it as unknown. -/
theorem handleMessage (h : Owns s outside) {codec : Codec M} {bytes : Bytes} {now : ℕ}
    {result : Except Error (Option ℕ)}
    (hs' : s.handleMessage codec bytes now = .ok (s', result)) :
    ((∀ id, result ≠ .ok (some id)) ∧ Owns s' outside) ∨
      ∃ id, result = .ok (some id) ∧ Owns s' (outside + {id}) := by
  cases handleMessage_cases hs' with
  | @unknown header o _ _ hs hn hc _ =>
    refine .inr ⟨_, rfl, of_opened rfl (((h.owned o hs).acquire hn).hand ?_) ?_⟩
    · simp only [incomingIds, replyIds]; abel
    · rw [Finset.card_insert_of_notMem hn]; exact hc
  | @admitted header o _ _ _ hs hn hc _ _ _ =>
    refine .inl ⟨by simp, of_opened rfl (((h.owned o hs).acquire hn).hand ?_) ?_⟩
    · simp only [incomingIds, replyIds, List.map_append, List.map_cons, List.map_nil,
        ← Multiset.coe_add, Multiset.coe_singleton]
      abel
    · rw [Finset.card_insert_of_notMem hn]; exact hc
  | @late header o key _ _ hs _ _ =>
    have ho := h.owned o hs
    exact .inl ⟨by simp, of_opened rfl ho (h.limit o hs)⟩
  | @completed header o key operation w result _ _ hs _ _ _ =>
    have ho := h.owned o hs
    refine .inl ⟨fun id => ?_, of_opened rfl ho (h.limit o hs)⟩
    cases result <;> simp [Except.map]
  | _ => exact .inl ⟨by simp, h⟩

theorem takeIncoming (h : Owns s outside) {id : ℕ} {message : IncomingEnvelope}
    (hs' : s.takeIncoming = some (s', id, message)) : Owns s' (outside + {id}) := by
  obtain ⟨o, rest, hs, hi, rfl⟩ := takeIncoming_cases hs'
  refine of_opened rfl ((h.owned o hs).hand ?_) (h.limit o hs)
  simp only [incomingIds, replyIds, hi, List.map_cons, ← Multiset.cons_coe,
    ← Multiset.singleton_add]
  abel

/-- The writer releases the ID of the reply it takes. -/
theorem nextOutgoing (h : Owns s outside) {now : ℕ} {pickup : SessionInner.Pickup M}
    (hs' : s.nextOutgoing now = .ok (s', pickup)) : Owns s' outside := by
  have he := h.expire now
  cases nextOutgoing_cases hs' with
  | @request o m rest message id hs hq hb _ =>
    refine of_opened rfl (((he.owned o hs).hand ?_).other rfl) (he.limit o hs)
    have hr : m.body.replyId = none := by rw [hb]; rfl
    simp only [incomingIds, replyIds, hq, List.filterMap_cons, hr]
  | @reply o m rest id result hs hq hb =>
    have hr : m.body.replyId = some id := by rw [hb]; rfl
    have ho : Owned (incomingIds o + ↑(rest.filterMap (·.body.replyId)) + outside + {id})
        o.reservedIds (s.expire now).log := (he.owned o hs).hand (by
      simp only [replyIds, hq, List.filterMap_cons, hr, ← Multiset.cons_coe,
        ← Multiset.singleton_add]
      abel)
    refine of_opened rfl ho.take ?_
    exact (Finset.card_le_card (Finset.erase_subset _ _)).trans (he.limit o hs)
  | _ => exact he

theorem withdraw (h : Owns s outside) (id : ℕ) : Owns (s.withdraw id) outside := by
  rcases withdraw_cases s id with ⟨e, hs, he⟩ | ⟨o, hs, he⟩
  · rwa [he]
  · rw [he]
    have ho := h.owned o hs
    exact of_opened rfl ho (h.limit o hs)

theorem recordWrite (h : Owns s outside) (key : ℕ) (result : Except Error Unit) (now : ℕ) :
    Owns (s.recordWrite key result now) outside := by
  have hc := recordWrite_cases s key result now
  generalize s.recordWrite key result now = r at hc ⊢
  cases hc with
  | kept => exact h
  | @failed o _ _ hs _ =>
    have ho := h.owned o hs
    exact of_opened rfl ho (h.limit o hs)
  | @written o _ hs _ _ _ =>
    have ho := h.owned o hs
    exact of_opened rfl ho (h.limit o hs)

end Owns

/-! ### It holds in every state -/

/-- The element at an index, taken out of its list. -/
theorem perm_cons_eraseIdx {α : Type} {l : List α} {i : ℕ} {a : α} (h : l[i]? = some a) :
    l.Perm (a :: l.eraseIdx i) := by
  obtain ⟨hi, rfl⟩ := List.getElem?_eq_some_iff.mp h
  exact (List.getElem_cons_eraseIdx_perm hi).symm

theorem autoreplyIds_eraseIdx {autoreplies : List Autoreply} {i : ℕ} {reply : Autoreply}
    (h : autoreplies[i]? = some reply) :
    (autoreplies.map (·.id) : Multiset ℕ) = {reply.id} + (autoreplies.eraseIdx i).map (·.id) := by
  rw [Multiset.singleton_add, Multiset.cons_coe, Multiset.coe_eq_coe]
  exact (perm_cons_eraseIdx h).map _

theorem owedIds_eraseIdx {owed : List OwedClose} {i : ℕ} {close : OwedClose}
    (h : owed[i]? = some close) :
    (owed.filterMap (·.responder) : Multiset ℕ) =
      close.responder.toList + (owed.eraseIdx i).filterMap (·.responder) := by
  rw [Multiset.coe_add, Multiset.coe_eq_coe]
  have hp := (perm_cons_eraseIdx h).filterMap (·.responder)
  cases hr : close.responder <;> simpa [List.filterMap_cons, hr] using hp

theorem responders_erase {responders : List ℕ} {id : ℕ} (h : id ∈ responders) :
    (responders : Multiset ℕ) = {id} + responders.erase id := by
  rw [Multiset.singleton_add, Multiset.cons_coe, Multiset.coe_eq_coe]
  exact List.perm_cons_erase h

/-- The ownership invariant of a session with its threads. -/
def OwnsSys (s : Sys M) : Prop := Owns s.session (outsideIds s)

/-- Handing an ID to `autoreply`. -/
theorem outsideIds_enterAutoreply (s : Sys M) (id : ℕ) (error : SchemaError) :
    outsideIds (s.enterAutoreply id error) = outsideIds s + {id} := by
  simp only [outsideIds, receivedIds, autoreplyIds, Sys.enterAutoreply, List.map_append,
    List.map_cons, List.map_nil, ← Multiset.coe_add, Multiset.coe_singleton]
  abel

theorem outsideIds_of_responder {s : Sys M} {id : ℕ} (h : id ∈ s.responders) :
    outsideIds s = outsideIds { s with responders := s.responders.erase id } + {id} := by
  simp only [outsideIds, receivedIds, autoreplyIds]
  rw [responders_erase h]
  abel

theorem outsideIds_of_autoreply {s : Sys M} {i : ℕ} {reply : Autoreply}
    (h : s.autoreplies[i]? = some reply) :
    outsideIds s =
      outsideIds { s with autoreplies := s.autoreplies.eraseIdx i } + {reply.id} := by
  simp only [outsideIds, receivedIds, autoreplyIds]
  rw [autoreplyIds_eraseIdx h]
  abel

theorem outsideIds_of_owed {s : Sys M} {i : ℕ} {close : OwedClose}
    (h : s.owed[i]? = some close) :
    outsideIds s =
      outsideIds { s with owed := s.owed.eraseIdx i } + close.responder.toList := by
  simp only [outsideIds, receivedIds, autoreplyIds]
  rw [owedIds_eraseIdx h]
  abel

theorem outsideIds_of_receiving {s : Sys M} {id : ℕ} {message : IncomingEnvelope}
    (h : s.receiving = some (id, message)) :
    outsideIds s = outsideIds { s with receiving := none } + {id} := by
  simp only [outsideIds, receivedIds, autoreplyIds, h, Option.toList_some, Option.toList_none,
    List.map_cons, List.map_nil, Multiset.coe_singleton, Multiset.coe_nil]
  abel

/-- A decoded request is with its responder; a malformed one is with the `recv` that closes. -/
theorem owns_decodeRequest {codec : Codec M} {s : Sys M} (h : OwnsSys s) {id : ℕ}
    {message : IncomingEnvelope} (hr : s.receiving = some (id, message)) :
    OwnsSys (s.decodeRequest codec id message) := by
  have h' : Owns { s.session with shared := s.session.shared.release message }
      (outsideIds { s with receiving := none } + {id}) :=
    Owns.congr (h.hand (outsideIds_of_receiving hr).symm) rfl rfl
  unfold Sys.decodeRequest
  dsimp only
  split
  · refine (h'.other rfl).hand ?_
    simp only [outsideIds, receivedIds, autoreplyIds, ← Multiset.coe_add, Multiset.coe_singleton,
      Sys.logged, Sys.withShared]
    abel
  · exact h'.hand (outsideIds_enterAutoreply _ _ _)
  · refine h'.hand ?_
    simp only [outsideIds, receivedIds, autoreplyIds, List.filterMap_append, ← Multiset.coe_add,
      Sys.withShared, List.filterMap_cons, List.filterMap_nil, Multiset.coe_singleton]
    abel

theorem ownsSys_step {codec : Codec M} {i : Option Bytes} {s s' : Sys M} (h : OwnsSys s)
    (hs : Step codec s i s') : OwnsSys s' := by
  cases hs with
  | request hm =>
    have h' := Owns.request h hm
    exact h'
  | respond hid hm =>
    have h' := (h.hand (outsideIds_of_responder hid).symm).reply hm
    exact h'.other rfl
  | abandon hid =>
    have h' := h.hand (outsideIds_of_responder hid).symm
    exact h'.hand (outsideIds_enterAutoreply _ _ _)
  | @recv session taken hr hm =>
    have h' := h.takeIncoming hm
    refine h'.hand ?_
    rw [outsideIds_of_receiving rfl]
    simp only [outsideIds, receivedIds, autoreplyIds, Sys.withSession, hr]
  | decode hr => exact owns_decodeRequest h hr
  | autoreplyDropped _ ht =>
    unfold SessionInner.autoreplyTimeout at ht
    split at ht
    · next hs => exact .of_closed hs h.lifecycle
    · cases ht
  | @autoreplyTimed i id error deadline ha =>
    refine h.hand ?_
    rw [outsideIds_of_autoreply ha]
    simp only [outsideIds, receivedIds, autoreplyIds, List.map_append, List.map_cons, List.map_nil,
      ← Multiset.coe_add, Multiset.coe_singleton]
    abel
  | autoreplyRefused _ hm => exact .of_closed (submit_error hm) h.lifecycle
  | autoreplyQueued ha hm =>
    have h' := (h.hand (outsideIds_of_autoreply ha).symm).reply hm
    exact h'.other rfl
  | messageRefused hm =>
    rcases h.handleMessage hm with ⟨-, h'⟩ | ⟨id, he, -⟩
    · refine h'.hand ?_
      simp [outsideIds, receivedIds, autoreplyIds, Sys.withSession]
    · cases he
  | messageRouted hm =>
    rcases h.handleMessage hm with ⟨-, h'⟩ | ⟨id, he, -⟩
    · exact h'
    · cases he
  | messageUnknown hm =>
    rcases h.handleMessage hm with ⟨hn, -⟩ | ⟨id, he, h'⟩
    · exact absurd rfl (hn _)
    · cases he
      exact h'.hand (outsideIds_enterAutoreply _ _ _)
  | @close error now _ =>
    have h' := h.close error now
    exact h'
  | @closeOwed i error now ho =>
    have h' := (h.hand (outsideIds_of_owed ho).symm).close error now
    refine h'.hand ?_
    simp [Sys.close, Sys.finishClose, outsideIds, receivedIds, autoreplyIds]
  | @closeReceive i error id now ho =>
    have h' := (h.hand (outsideIds_of_owed ho).symm).close error now
    exact h'.hand (outsideIds_enterAutoreply _ _ _)
  | discard _ => exact h.congr rfl rfl
  | @setInboundLimits requests bytes now =>
    have h' := h.setInboundLimits requests bytes now
    exact h'
  | @setAutoreplyTimeout timeout =>
    have h' := h.setAutoreplyTimeout timeout
    exact h'
  | @expire now =>
    have h' := h.expire now
    exact h'
  | pickupClosed _ hn =>
    have h' := h.nextOutgoing hn
    exact h'
  | pickupNone _ hn =>
    have h' := h.nextOutgoing hn
    exact h'
  | pickup _ hn =>
    have h' := h.nextOutgoing hn
    exact h'
  | @withdraw id message _ hw =>
    have h' := h.withdraw id
    cases message.body.isRequest with
    | true => exact h'
    | false => exact h
  | @report key result now hw =>
    have h' := h.recordWrite key result now
    exact h'
  | @fail error now hw =>
    have h' := h.close (.transport error) now
    exact h'
  | readMalformed _ _ _ =>
    refine Owns.congr (s := s.session) (h.hand ?_) rfl rfl
    simp [outsideIds, receivedIds, autoreplyIds, Sys.withShared]
  | refuse => exact h
  | send => exact h
  | sendFailed => exact h
  | unchanged => exact h
  | _ => exact h.congr rfl rfl

theorem ownsSys_reachable {codec : Codec M} {side : Side} {s : Sys M}
    (h : (machine codec side).Reachable s) : OwnsSys s := by
  refine reachable_invariant (I := OwnsSys) ?_ (fun _ _ _ hi hs => ownsSys_step hi hs) h
  exact .of_opened rfl Owned.new (Nat.zero_le _)

/-! ### What it gives -/

/-- A reply that an expiry pass discards has passed its deadline. -/
theorem discarded_expired {s : SessionInner M} {held : Option ℕ} (hr : Routes s held)
    {o : OpenState M} (hs : s.state = .opened o) {now id : ℕ}
    (hid : id ∈ discardedIds
      (failAll .timeout now (expiredKeys o.operations now) (o.operations, s.shared)).1 o.outgoing) :
    ∃ m ∈ o.outgoing, m.body.replyId = some id ∧ ∃ operation,
      o.operations.lookup m.key = some operation ∧ operation.deadline ≤ now := by
  obtain ⟨m, hm, hi⟩ := List.mem_filterMap.mp hid
  obtain ⟨hm, hn⟩ := List.mem_filter.mp hm
  obtain ⟨operation, hl, -⟩ := (hr.opened hs).queued m hm
  refine ⟨m, hm, hi, operation, hl, ?_⟩
  rw [failAll_expired_lookup, hl, Option.filter_some] at hn
  by_contra hd
  rw [if_pos (by simpa using hd)] at hn
  cases hn

/-- **Every reserved request ID has exactly one holder.** In every open state `reserved_ids` is the
disjoint union of the IDs in `incoming`, those of requests taken by `recv` whose responder is not
consumed, those of automatic replies in progress, and those of replies in `outgoing`; it is within
the limit. In every state, open or closed, every admission of an ID in the log was ended at most
once, by its reply being taken by the writer or expiring, and not ended exactly where an open
session still has it reserved. A queued reply that expiry discards has passed its deadline. -/
theorem ownership {codec : Codec M} {side : Side} {s : Sys M}
    (h : (machine codec side).Reachable s) :
    (∀ o, s.session.state = .opened o →
      incomingIds o + replyIds o + (receivedIds s + autoreplyIds s) = o.reservedIds.val ∧
      o.reservedIds.card ≤ o.maxInboundRequests ∧
      (∀ id, Lifecycle id s.session.log (decide (id ∈ o.reservedIds))) ∧
      ∀ now, ∀ id ∈ discardedIds (failAll .timeout now (expiredKeys o.operations now)
          (o.operations, s.session.shared)).1 o.outgoing,
        ∃ m ∈ o.outgoing, m.body.replyId = some id ∧ ∃ operation,
          o.operations.lookup m.key = some operation ∧ operation.deadline ≤ now) ∧
    ∀ id, ∃ b, Lifecycle id s.session.log b := by
  have hi := ownsSys_reachable h
  refine ⟨fun o hs => ⟨?_, hi.limit o hs, (hi.owned o hs).lifecycle, ?_⟩, hi.lifecycle⟩
  · exact (hi.owned o hs).held_eq
  · exact fun now id hid => discarded_expired (routesSys_reachable h) hs hid

/-- Four requests, one at each kind of holder: answered, dropped, with its responder, and queued. -/
def oneOfEach : List (Action UInt8) :=
  [.message [1, 0, 5] 0, .message [3, 0, 6] 0, .message [5, 0, 7] 0, .message [7, 0, 8] 0,
    .recv, .decode, .recv, .decode, .recv, .decode, .respond 1 (.ok 9) 10 1, .dropResponder 3]

theorem ownership_oneOfEach :
    ∃ s o, (machine tinyCodec .server).run oneOfEach (.new .server) = some s ∧
      s.session.state = .opened o ∧ incomingIds o = {7} ∧ replyIds o = {1} ∧
      receivedIds s = {5} ∧ autoreplyIds s = {3} ∧
      incomingIds o + replyIds o + (receivedIds s + autoreplyIds s) = o.reservedIds.val ∧
      o.reservedIds.card ≤ o.maxInboundRequests := by
  obtain ⟨s, o, hr, hs, h1, h2, h3, h4⟩ : ∃ s o,
      (machine tinyCodec .server).run oneOfEach (.new .server) = some s ∧
      s.session.state = .opened o ∧ incomingIds o = {7} ∧ replyIds o = {1} ∧
      receivedIds s = {5} ∧ autoreplyIds s = {3} := ⟨_, _, rfl, rfl, rfl, rfl, rfl, rfl⟩
  have h := (ownership (Machine.reachable_of_run hr)).1 o hs
  exact ⟨s, o, hr, hs, h1, h2, h3, h4, h.1, h.2.1⟩

end ArkWire.Protocol.Ownership
