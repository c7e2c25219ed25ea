import ArkWire.Lib.Sequences
import ArkWire.Protocol.Frames
import ArkWire.Protocol.Settlement
import ArkWire.Protocol.Ownership
import Mathlib.Data.Multiset.AddSub

/-! # Two sessions, one at each end

`Peers` is a client's session and a server's, joined by the two transports: the reader of a side
takes the messages its peer's writer has sent, each once and in order. Both run as in `System`, with
any interleaving of their threads and of the deliveries. The envelope codec is assumed to be a round
trip from one side to the other.

Then what a session has from its peer is what the peer has sent (`Arrivals`), a request is answered
at most once and only by its responder (`Answers`), and so neither session ever finds a message
malformed and every response reaches the promise of its request: see `correspondence`. -/

namespace ArkWire.Protocol.Correspondence

open ArkWire.Lib.Machines ArkWire.Lib.Sequences
open ArkWire.Transport.Errors ArkWire.Protocol.Errors ArkWire.Protocol.Envelope
open ArkWire.Protocol.Promise ArkWire.Protocol.Operation ArkWire.Protocol.Session
open ArkWire.Protocol.System ArkWire.Protocol.Sections ArkWire.Protocol.Steps
open ArkWire.Protocol.Routing ArkWire.Protocol.Settlement ArkWire.Protocol.Tracing
open ArkWire.Protocol.Frames ArkWire.Protocol.Ownership

variable {M : Type}

/-! ### The two sessions and their channels -/

/-- The sessions of both sides, and how many of its peer's messages each side's reader has taken. -/
structure Peers (M : Type) where
  sys : Side → Sys M
  delivered : Side → ℕ

/-- A step of one side, or the delivery of the next message to it. -/
inductive PeerAction (M : Type) where
  | act (side : Side) (a : Action M)
  | deliver (side : Side) (now : ℕ)

namespace Peers

def new : Peers M := ⟨fun side => .new side, fun _ => 0⟩

/-- One side takes a step. A message may only come from the other side. -/
def act (codec : Codec M) (p : Peers M) (side : Side) (a : Action M) : Outcome Panic (Peers M) :=
  match input a with
  | some _ => .blocked
  | none =>
    match (p.sys side).step codec a with
    | .blocked => .blocked
    | .panic e => .panic e
    | .next s => .next { p with sys := Function.update p.sys side s }

/-- The reader of a side takes the next message of its peer. -/
def deliver (codec : Codec M) (p : Peers M) (side : Side) (now : ℕ) : Outcome Panic (Peers M) :=
  match (p.sys side.peer).outbox[p.delivered side]? with
  | none => .blocked
  | some sent =>
    match (p.sys side).step codec (.message sent.bytes now) with
    | .blocked => .blocked
    | .panic e => .panic e
    | .next s => .next
        ⟨Function.update p.sys side s,
          Function.update p.delivered side (p.delivered side + 1)⟩

def step (codec : Codec M) (p : Peers M) : PeerAction M → Outcome Panic (Peers M)
  | .act side a => p.act codec side a
  | .deliver side now => p.deliver codec side now

end Peers

/-- The machine of the two sessions. -/
def peers (codec : Codec M) : Machine (Peers M) (PeerAction M) Panic where
  init := .new
  step := Peers.step codec

/-- **The codec is a round trip** between a side and its peer. -/
structure RoundTrip (codec : Codec M) : Prop where
  header : ∀ {side id body bytes}, codec.encode side id body = .ok bytes →
    ∃ header, codec.decodeHeader side.peer bytes = some header ∧ header.id = id ∧
      header.failed = !body.isOk ∧ header.unknown = false
  body : ∀ {side id body bytes}, codec.encode side id body = .ok bytes →
    codec.decode side.peer bytes = some (id, body)

theorem peer_ne (side : Side) : side.peer ≠ side := by cases side <;> decide

theorem parity_peer_ne (side : Side) : side.peer.parity ≠ side.parity := by
  cases side <;> decide

/-! ### The invariants -/

/-- **What `A` has from its peer `B`**, which has sent it `n` of its messages. -/
structure Arrivals (A B : Sys M) (n : ℕ) : Prop where
  delivered_le : n ≤ B.outbox.length
  /-- Requests come in the order of their IDs. -/
  ids : ((receivedList A.session.log).map Prod.fst ++
    (A.receiving.toList ++ A.session.incoming).map Prod.fst).Sublist
      ((sentRequests (B.outbox.take n)).map (·.id))
  carried : ∀ t ∈ A.receiving.toList ++ A.session.incoming,
    ∃ e ∈ sentRequests B.outbox, e.id = t.1 ∧ e.bytes = t.2.bytes
  received : ∀ r ∈ receivedList A.session.log,
    ∃ e ∈ B.outbox, e.id = r.1 ∧ e.message.body = .request r.2
  reserved : ∀ o, A.session.state = .opened o → ∀ id ∈ o.reservedIds,
    id ∈ (sentRequests (B.outbox.take n)).map (·.id)
  /-- A response comes under the ID of its promise's request. -/
  responded : ∀ c envelope, Responded A.session.shared c envelope →
    ∃ e ∈ B.outbox, e.bytes = envelope.bytes ∧ e.message.body.isRequest = false ∧
      ∃ key body, ⟨key, c, body⟩ ∈ queuedList A.session.log ∧
        ⟨e.id, key⟩ ∈ assignedList A.session.log

/-- **How `A` answers**: a request returned by `recv` is with its responder, in an automatic reply,
or answered. -/
structure Answers (A : Sys M) : Prop where
  answered : (↑A.responders + ↑(A.autoreplies.map (·.id)) +
    ↑((repliedList A.session.log).map (·.id)) : Multiset ℕ) ≤
      ↑((receivedList A.session.log).map Prod.fst)
  unanswered : ∀ r ∈ A.autoreplies, r.error = unansweredError
  replied : ∀ q ∈ queuedList A.session.log, ∀ id result, q.body = .reply id result →
    ∃ automatic, ⟨id, result, automatic⟩ ∈ repliedList A.session.log
  automatic : ∀ r ∈ repliedList A.session.log, r.automatic = true →
    r.result = .error unansweredError
  owed : ∀ o ∈ A.owed, o.error ≠ .malformed ∧ o.responder = none
  closed : A.session.state ≠ .closed .malformed

/-! ### Steps that take nothing from the peer -/

section Keep
variable {A A' B : Sys M} {n : ℕ} {fresh : Option (OutgoingBody M)}

theorem sublist_append_left {α : Type} {a b c : List α} (h : a.Sublist b) :
    (c ++ a).Sublist (c ++ b) := List.Sublist.append_left h c

theorem queuedList_mono {log log' : List (Event M)} (h : log <+: log') {q : Queued M}
    (hq : q ∈ queuedList log) : q ∈ queuedList log' := by
  obtain ⟨rest, rfl⟩ := h
  rw [queuedList_append]
  exact List.mem_append_left _ hq

theorem assignedList_mono {log log' : List (Event M)} (h : log <+: log') {a : Assigned}
    (ha : a ∈ assignedList log) : a ∈ assignedList log' := by
  obtain ⟨rest, rfl⟩ := h
  rw [assignedList_append]
  exact List.mem_append_left _ ha

/-- Arrivals may be dropped. -/
theorem Arrivals.keep (h : Arrivals A B n) (hf : Frame fresh A.session A'.session)
    (hl : Later A.session A'.session) (hr : A'.receiving = A.receiving) : Arrivals A' B n where
  delivered_le := h.delivered_le
  ids := by
    rw [hf.received, hr]
    refine List.Sublist.trans ?_ h.ids
    exact sublist_append_left ((sublist_append_left hf.incoming).map _)
  carried t ht := by
    rw [hr] at ht
    exact h.carried t ((sublist_append_left hf.incoming).subset ht)
  received := by rw [hf.received]; exact h.received
  reserved o' ho' id hid := by
    obtain ⟨o, ho, hsub⟩ := hf.reserved o' ho'
    exact h.reserved o ho id (hsub hid)
  responded c envelope hc := by
    obtain ⟨e, he, hb, hr, key, body, hq, ha⟩ := h.responded c envelope (hf.responded c envelope hc)
    exact ⟨e, he, hb, hr, key, body, queuedList_mono hl.log hq, assignedList_mono hl.log ha⟩

/-- The peer may send more. -/
theorem Arrivals.mono (h : Arrivals A B n) {B' : Sys M} (hB : B.outbox <+: B'.outbox) :
    Arrivals A B' n := by
  obtain ⟨rest, hrest⟩ := hB
  have ht : B'.outbox.take n = B.outbox.take n := by
    rw [← hrest, List.take_append_of_le_length h.delivered_le]
  have hsub : ∀ e ∈ B.outbox, e ∈ B'.outbox := by
    rw [← hrest]; exact fun e he => List.mem_append_left _ he
  have hreq : ∀ e ∈ sentRequests B.outbox, e ∈ sentRequests B'.outbox := by
    intro e he
    obtain ⟨he, hr⟩ := List.mem_filter.mp he
    exact List.mem_filter.mpr ⟨hsub e he, hr⟩
  refine ⟨?_, ?_, ?_, ?_, ?_, ?_⟩
  · rw [← hrest, List.length_append]
    have := h.delivered_le
    omega
  · rw [ht]; exact h.ids
  · intro t htm
    obtain ⟨e, he, hh⟩ := h.carried t htm
    exact ⟨e, hreq e he, hh⟩
  · intro r hr
    obtain ⟨e, he, hh⟩ := h.received r hr
    exact ⟨e, hsub e he, hh⟩
  · rw [ht]; exact h.reserved
  · intro c envelope hc
    obtain ⟨e, he, hh⟩ := h.responded c envelope hc
    exact ⟨e, hsub e he, hh⟩

/-- Responders may turn into automatic replies, and either may be dropped. -/
theorem Answers.of_lists (h : Answers A)
    (hrec : receivedList A'.session.log = receivedList A.session.log)
    (hrep : repliedList A'.session.log = repliedList A.session.log)
    (hq : ∀ q ∈ queuedList A'.session.log, q ∈ queuedList A.session.log ∨ q.body.replyId = none)
    (hm : (↑A'.responders + ↑(A'.autoreplies.map (·.id)) : Multiset ℕ) ≤
      ↑A.responders + ↑(A.autoreplies.map (·.id)))
    (ha : ∀ r ∈ A'.autoreplies, r.error = unansweredError)
    (ho : ∀ o ∈ A'.owed, o.error ≠ .malformed ∧ o.responder = none)
    (hc : A'.session.state ≠ .closed .malformed) : Answers A' where
  answered := by
    rw [hrep, hrec]
    exact (add_le_add_left hm _).trans h.answered
  unanswered := ha
  replied q hqm id result hb := by
    rw [hrep]
    rcases hq q hqm with hqm | hn
    · exact h.replied q hqm id result hb
    · rw [hb] at hn
      cases hn
  automatic := by rw [hrep]; exact h.automatic
  owed := ho
  closed := hc

theorem Answers.hand (h : Answers A) (hf : Frame fresh A.session A'.session)
    (hfresh : ∀ id result, fresh ≠ some (.reply id result))
    (hm : (↑A'.responders + ↑(A'.autoreplies.map (·.id)) : Multiset ℕ) ≤
      ↑A.responders + ↑(A.autoreplies.map (·.id)))
    (ha : ∀ r ∈ A'.autoreplies, r.error = unansweredError)
    (ho : ∀ o ∈ A'.owed, o.error ≠ .malformed ∧ o.responder = none) : Answers A' := by
  refine h.of_lists hf.received hf.replied (fun q hq => ?_) hm ha ho fun hc => ?_
  · rcases hf.queued q hq with hq | hq
    · exact .inl hq
    · cases hb : q.body with
      | request message => exact .inr rfl
      | reply id result =>
        rw [hb] at hq
        exact absurd hq (hfresh id result)
  · rcases hf.closed _ hc with hc | hc
    · exact h.closed hc
    · exact hc rfl

theorem Answers.keep (h : Answers A) (hf : Frame fresh A.session A'.session)
    (hfresh : ∀ id result, fresh ≠ some (.reply id result)) (hr : A'.responders = A.responders)
    (ha : A'.autoreplies = A.autoreplies) (ho : A'.owed = A.owed) : Answers A' :=
  h.hand hf hfresh (by rw [hr, ha]) (by rw [ha]; exact h.unanswered) (by rw [ho]; exact h.owed)

/-- A responder, or an automatic reply, gives its answer. -/
theorem Answers.answer (h : Answers A) {id : ℕ} {result : Except SchemaError M}
    {automatic : Bool} (hauto : automatic = true → result = .error unansweredError)
    {session : SessionInner M} (hf : Frame (some (.reply id result)) A.session session)
    (hs : A'.session = { session with log := session.log ++ [.replied id result automatic] })
    (hm : (↑A.responders + ↑(A.autoreplies.map (·.id)) : Multiset ℕ) =
      ↑A'.responders + ↑(A'.autoreplies.map (·.id)) + {id})
    (ha : ∀ r ∈ A'.autoreplies, r ∈ A.autoreplies) (ho : A'.owed = A.owed) : Answers A' := by
  have hrec : receivedList A'.session.log = receivedList A.session.log := by
    rw [hs, ← hf.received]
    simp [receivedList, receivedOf]
  have hrep : repliedList A'.session.log = repliedList A.session.log ++
      [⟨id, result, automatic⟩] := by
    rw [hs, ← hf.replied]
    simp [repliedList, repliedOf]
  have hq : ∀ q ∈ queuedList A'.session.log, q ∈ queuedList A.session.log ∨
      OutgoingBody.reply id result = q.body := by
    intro q hq
    rw [hs] at hq
    simp only [queuedList_append, List.mem_append] at hq
    rcases hq with hq | hq
    · rcases hf.queued q hq with hq | hq
      · exact .inl hq
      · exact .inr (Option.some.inj hq)
    · simp [queuedList, queuedOf] at hq
  refine ⟨?_, fun r hr => h.unanswered r (ha r hr), ?_, ?_, by rw [ho]; exact h.owed, ?_⟩
  · have hans := h.answered
    rw [hrec, hrep, List.map_append, ← Multiset.coe_add]
    rw [hm] at hans
    refine le_trans (le_of_eq ?_) hans
    simp only [List.map_cons, List.map_nil, Multiset.coe_singleton]
    abel
  · intro q hqm id' result' hb
    rw [hrep]
    rcases hq q hqm with hqm | hqm
    · obtain ⟨auto, hr⟩ := h.replied q hqm id' result' hb
      exact ⟨auto, List.mem_append_left _ hr⟩
    · rw [hb] at hqm
      cases hqm
      exact ⟨automatic, by simp⟩
  · rw [hrep]
    intro r hr
    rcases List.mem_append.mp hr with hr | hr
    · exact h.automatic r hr
    · rw [List.mem_singleton.mp hr]; exact hauto
  · intro hc
    rw [hs] at hc
    rcases hf.closed _ hc with hc | hc
    · exact h.closed hc
    · exact hc rfl

/-- An event that is not a reception. -/
theorem Arrivals.logged (h : Arrivals A B n) {e : Event M} (he : receivedOf e = none) :
    Arrivals (A.logged e) B n := by
  have hrec : receivedList (A.session.log ++ [e]) = receivedList A.session.log := by
    simp [receivedList, he]
  refine ⟨h.delivered_le, ?_, h.carried, ?_, h.reserved, fun c envelope hc => ?_⟩
  · simp only [Sys.logged, hrec]; exact h.ids
  · simp only [Sys.logged, hrec]; exact h.received
  · obtain ⟨e', he', hb, hr, key, body, hq, ha⟩ := h.responded c envelope hc
    have hpre : A.session.log <+: A.session.log ++ [e] := List.prefix_append _ _
    exact ⟨e', he', hb, hr, key, body, queuedList_mono hpre hq, assignedList_mono hpre ha⟩

end Keep

/-! ### What a session decodes -/

section Decode
variable {codec : Codec M} {side : Side} {A B : Sys M} {n : ℕ}

/-- A request taken by `recv` is one the peer has sent. -/
theorem decode_request (hrt : RoundTrip codec) (hA : TracedSys codec side A)
    (hB : TracedSys codec side.peer B) (h : Arrivals A B n) {id : ℕ} {message : IncomingEnvelope}
    (hr : A.receiving = some (id, message)) :
    ∃ e ∈ B.outbox, e.id = id ∧ ∃ m, e.message.body = .request m ∧
      codec.decode A.session.side message.bytes = some (id, .ok m) := by
  obtain ⟨e, he, hid, hb⟩ := h.carried (id, message) (by simp [hr])
  dsimp only at hid hb
  obtain ⟨he, hreq⟩ := List.mem_filter.mp he
  have henc := (hB.sent e he).2
  cases hbody : e.message.body with
  | request m =>
    refine ⟨e, he, hid, m, hbody, ?_⟩
    have hd := hrt.body henc
    rw [Side.peer_peer, hbody] at hd
    rw [hA.side_eq, ← hb, ← hid]
    exact hd
  | reply id' result => rw [hbody] at hreq; cases hreq

/-- A response taken by `wait` decodes. -/
theorem decode_response (hrt : RoundTrip codec) (hA : TracedSys codec side A)
    (hB : TracedSys codec side.peer B) (h : Arrivals A B n) {c : ℕ} {envelope : IncomingEnvelope}
    (hr : Responded A.session.shared c envelope) :
    ∃ id result, codec.decode A.session.side envelope.bytes = some (id, result) := by
  obtain ⟨e, he, hb, -, -⟩ := h.responded c envelope hr
  have hd := hrt.body (hB.sent e he).2
  rw [Side.peer_peer] at hd
  exact ⟨e.id, e.message.body.result, by rw [hA.side_eq, ← hb]; exact hd⟩

end Decode

/-! ### Steps of one side -/

section Steps
variable {codec : Codec M} {side : Side} {A A' B : Sys M} {n : ℕ}

/-- `recv` takes the next request. -/
theorem arrivals_recv (h : Arrivals A B n) {session : SessionInner M}
    {taken : ℕ × IncomingEnvelope} (hr : A.receiving = none)
    (hm : A.session.takeIncoming = some (session, taken)) :
    Arrivals { A.withSession session with receiving := some taken } B n := by
  obtain ⟨id, message⟩ := taken
  obtain ⟨o, rest, ho, hi, rfl⟩ := takeIncoming_cases hm
  have hin : A.receiving.toList ++ A.session.incoming = (id, message) :: rest := by
    simp [hr, SessionInner.incoming, ho, hi]
  refine ⟨h.delivered_le, ?_, ?_, h.received, ?_, h.responded⟩
  · have hids := h.ids
    rw [hin] at hids
    exact hids
  · have hc := h.carried
    rw [hin] at hc
    exact hc
  · intro o' ho'
    cases ho'
    exact h.reserved o ho

/-- `recv` decodes the request and returns it with its responder. -/
theorem linked_decode (hrt : RoundTrip codec) (hA : TracedSys codec side A)
    (hB : TracedSys codec side.peer B) (h : Arrivals A B n) (ha : Answers A) {id : ℕ}
    {message : IncomingEnvelope} (hr : A.receiving = some (id, message)) :
    Arrivals (A.decodeRequest codec id message) B n ∧
        Answers (A.decodeRequest codec id message) := by
  obtain ⟨e, he, hid, m, hbody, hd⟩ := decode_request hrt hA hB h hr
  have hdec : A.decodeRequest codec id message = { { A.withShared
      (A.session.shared.release message) with receiving := none }.logged (.received id m) with
        responders := A.responders ++ [id] } := by
    unfold Sys.decodeRequest
    have hd' : codec.decode (A.withShared (A.session.shared.release message)).session.side
        message.bytes = some (id, .ok m) := hd
    simp only [hd']
    rfl
  rw [hdec]
  have hrec : receivedList (A.session.log ++ [.received id m]) =
      receivedList A.session.log ++ [(id, m)] := by simp [receivedList, receivedOf]
  have hrep : repliedList (A.session.log ++ [.received id m]) = repliedList A.session.log := by
    simp [repliedList, repliedOf]
  have hpre : A.session.log <+: A.session.log ++ [.received id m] := List.prefix_append _ _
  constructor
  · refine ⟨h.delivered_le, ?_, ?_, ?_, h.reserved, ?_⟩
    · have hids := h.ids
      simp only [hr, Option.toList_some, List.singleton_append, List.map_cons] at hids
      simp only [Sys.logged, Sys.withShared, hrec, List.map_append, List.map_cons, List.map_nil,
        Option.toList_none, List.nil_append, List.append_assoc, List.singleton_append]
      exact hids
    · intro t ht
      have ht' : t ∈ A.session.incoming := ht
      exact h.carried t (List.mem_append_right _ ht')
    · intro r hrm
      simp only [Sys.logged, Sys.withShared, hrec] at hrm
      rcases List.mem_append.mp hrm with hrm | hrm
      · exact h.received r hrm
      · rw [List.mem_singleton.mp hrm]
        exact ⟨e, he, hid, hbody⟩
    · intro c envelope hc
      obtain ⟨e', he', hb, hreq, key, body, hq, has⟩ := h.responded c envelope hc
      exact ⟨e', he', hb, hreq, key, body, queuedList_mono hpre hq, assignedList_mono hpre has⟩
  · refine ⟨?_, ha.unanswered, ?_, ?_, ha.owed, ha.closed⟩
    · simp only [Sys.logged, Sys.withShared, hrec, hrep, List.map_append, List.map_cons,
        List.map_nil, ← Multiset.coe_add, Multiset.coe_singleton]
      refine le_trans (le_of_eq ?_) (add_le_add_left ha.answered {id})
      abel
    · intro q hq
      simp only [Sys.logged, Sys.withShared, hrep]
      refine ha.replied q ?_
      simpa [Sys.logged, Sys.withShared, queuedList, queuedOf] using hq
    · simp only [Sys.logged, Sys.withShared, hrep]
      exact ha.automatic

/-- Only the session changes, and takes nothing from the peer. -/
theorem linked_keep {fresh : Option (OutgoingBody M)} (h : Arrivals A B n) (ha : Answers A)
    (hf : Frame fresh A.session A'.session) (hl : Later A.session A'.session)
    (hfresh : ∀ id result, fresh ≠ some (.reply id result)) (hr : A'.receiving = A.receiving)
    (hre : A'.responders = A.responders) (hau : A'.autoreplies = A.autoreplies)
    (ho : A'.owed = A.owed) : Arrivals A' B n ∧ Answers A' :=
  ⟨h.keep hf hl hr, ha.keep hf hfresh hre hau ho⟩

/-- Only promises change. -/
theorem linked_shared (h : Arrivals A B n) (ha : Answers A) {w : Shared}
    (hw : ∀ c envelope, Responded w c envelope → Responded A.session.shared c envelope) :
    Arrivals (A.withShared w) B n ∧ Answers (A.withShared w) := by
  have hf : Frame none A.session (A.withShared w).session := Frame.of_shared w hw
  exact linked_keep h ha hf ⟨rfl, List.prefix_rfl⟩ (by simp) rfl rfl rfl rfl

/-- A reply in progress leaves the list, or comes back with its deadline. -/
theorem answers_autoreply (ha : Answers A) {i : ℕ} {reply : Autoreply}
    (hi : A.autoreplies[i]? = some reply) {rest : List Autoreply}
    (hr : rest = [] ∨ ∃ deadline, rest = [⟨reply.id, reply.error, deadline⟩]) :
    Answers { A with autoreplies := A.autoreplies.eraseIdx i ++ rest } := by
  have hmem : reply ∈ A.autoreplies := List.mem_of_getElem? hi
  refine ha.hand (Frame.refl A.session : Frame none _ _) (by simp) ?_ ?_ ha.owed
  · rw [autoreplyIds_eraseIdx hi, List.map_append, ← Multiset.coe_add]
    rcases hr with rfl | ⟨deadline, rfl⟩
    · simp only [List.map_nil, Multiset.coe_nil, add_zero]
      exact add_le_add_right (Multiset.le_add_left _ _) _
    · simp only [List.map_cons, List.map_nil, Multiset.coe_singleton]
      exact le_of_eq (by abel)
  · intro r hrm
    rcases List.mem_append.mp hrm with hrm | hrm
    · exact ha.unanswered r ((List.eraseIdx_sublist _ _).subset hrm)
    · rcases hr with rfl | ⟨deadline, rfl⟩
      · cases hrm
      · rw [List.mem_singleton.mp hrm]
        exact ha.unanswered reply hmem

/-- **A step of `A` that receives no message.** -/
theorem linked_step (hrt : RoundTrip codec) (hA : TracedSys codec side A)
    (hB : TracedSys codec side.peer B) (hset : Settles A.session) (h : Arrivals A B n)
    (ha : Answers A) (hs : Step codec A none A') : Arrivals A' B n ∧ Answers A' := by
  have hl := (traces_step hA.traces hs).2
  have hrefl : Frame none A.session A.session := Frame.refl _
  have hnone : ∀ id (result : Except SchemaError M),
      (none : Option (OutgoingBody M)) ≠ some (.reply id result) := by simp
  cases hs with
  | unchanged => exact ⟨h, ha⟩
  | request hm => exact linked_keep h ha (Frame.submit hm) hl (by simp) rfl rfl rfl rfl
  | @respond id result deadline now session hid hm =>
    have hf := Frame.submit hm
    have hl' := Later.submit hm
    refine ⟨Arrivals.logged (A := { A with responders := _ }.withSession session)
      (h.keep hf hl' rfl) rfl, ?_⟩
    refine ha.answer (by simp) hf rfl ?_ (fun r hr => hr) rfl
    rw [responders_erase hid]
    simp only [Sys.logged, Sys.withSession]
    abel
  | @abandon id hid =>
    refine ⟨h.keep hrefl hl rfl, ha.hand hrefl hnone (le_of_eq ?_) ?_ ha.owed⟩
    · rw [responders_erase hid]
      simp only [Sys.enterAutoreply, List.map_append, List.map_cons, List.map_nil,
        ← Multiset.coe_add, Multiset.coe_singleton]
      abel
    · intro r hr
      rcases List.mem_append.mp hr with hr | hr
      · exact ha.unanswered r hr
      · rw [List.mem_singleton.mp hr]
  | recv hr hm =>
    have hf : Frame none A.session _ := Frame.takeIncoming hm
    exact ⟨arrivals_recv h hr hm, ha.keep hf hnone rfl rfl rfl⟩
  | decode hr => exact linked_decode hrt hA hB h ha hr
  | autoreplyDropped hi _ =>
    have ha' := answers_autoreply ha hi (.inl rfl)
    rw [List.append_nil] at ha'
    exact ⟨h.keep hrefl hl rfl, ha'⟩
  | autoreplyTimed hi =>
    exact ⟨h.keep hrefl hl rfl, answers_autoreply ha hi (.inr ⟨_, rfl⟩)⟩
  | autoreplyRefused hi _ =>
    have ha' := answers_autoreply ha hi (.inl rfl)
    rw [List.append_nil] at ha'
    exact ⟨h.keep hrefl hl rfl, ha'⟩
  | @autoreplyQueued i id error deadline now session hi hm =>
    have hf := Frame.submit hm
    have hl' := Later.submit hm
    refine ⟨Arrivals.logged (A := { A with autoreplies := _ }.withSession session)
      (h.keep hf hl' rfl) rfl, ?_⟩
    have he := ha.unanswered _ (List.mem_of_getElem? hi)
    refine ha.answer (fun _ => by rw [← he]) hf rfl ?_
      (fun r hr => (List.eraseIdx_sublist _ _).subset hr) rfl
    rw [autoreplyIds_eraseIdx hi]
    simp only [Sys.logged, Sys.withSession]
    abel
  | @close error now he =>
    have hm : error ≠ .malformed := by rcases he with rfl | ⟨e, rfl⟩ <;> simp
    exact linked_keep h ha (Frame.close hm now) hl hnone rfl rfl rfl rfl
  | @closeOwed i error now ho =>
    have hm := (ha.owed _ (List.mem_of_getElem? ho)).1
    have hf : Frame none A.session (A.session.close error now).1 := Frame.close hm now
    refine ⟨h.keep hf hl rfl, ha.hand hf hnone le_rfl ha.unanswered ?_⟩
    exact fun o ho' => ha.owed o ((List.eraseIdx_sublist _ _).subset ho')
  | closeReceive ho => exact absurd (ha.owed _ (List.mem_of_getElem? ho)).2 (by simp)
  | @discard envelope rest _ =>
    have hf : Frame none A.session _ :=
      Frame.of_shared (A.session.shared.release envelope) fun _ _ hr => hr
    exact linked_keep h ha hf hl hnone rfl rfl rfl rfl
  | setInboundLimits =>
    exact linked_keep h ha (Frame.setInboundLimits _ _ _) hl hnone rfl rfl rfl rfl
  | setAutoreplyTimeout =>
    exact linked_keep h ha (Frame.setAutoreplyTimeout _) hl hnone rfl rfl rfl rfl
  | expire => exact linked_keep h ha (Frame.expire _) hl hnone rfl rfl rfl rfl
  | pickupClosed _ hn => exact linked_keep h ha (Frame.nextOutgoing hn) hl hnone rfl rfl rfl rfl
  | pickupNone _ hn => exact linked_keep h ha (Frame.nextOutgoing hn) hl hnone rfl rfl rfl rfl
  | pickup _ hn => exact linked_keep h ha (Frame.nextOutgoing hn) hl hnone rfl rfl rfl rfl
  | @withdraw id message _ _ =>
    have hf : Frame none A.session
        (if message.body.isRequest then A.session.withdraw id else A.session) := by
      split_ifs
      · exact Frame.withdraw id
      · exact hrefl
    exact linked_keep h ha hf hl hnone rfl rfl rfl rfl
  | report _ => exact linked_keep h ha (Frame.recordWrite _ _ _) hl hnone rfl rfl rfl rfl
  | fail _ => exact linked_keep h ha (Frame.close (by simp) _) hl hnone rfl rfl rfl rfl
  | @notifyDone c _ _ =>
    exact linked_shared h ha fun _ _ hr =>
      responded_modify (c := c) (f := fun ch => { ch with registered := true }) rfl hr
  | notify => exact linked_shared h ha fun _ _ hr => responded_modify rfl hr
  | callback => exact linked_shared h ha fun _ _ hr => hr
  | dropPromise => exact linked_shared h ha fun _ _ hr => responded_modify rfl hr
  | @dropReceiver c _ _ =>
    refine linked_shared h ha fun _ _ hr => ?_
    have hr' := responded_modify rfl hr
    cases hb : (A.session.shared.channels c).buffer with
    | none => rwa [hb] at hr'
    | some result => rwa [hb, Option.elim_some, Responded, Shared.releaseResult_channels] at hr'
  | wait => exact linked_shared h ha fun _ _ hr => responded_modify rfl hr
  | read => exact linked_shared h ha fun _ _ hr => responded_modify rfl hr
  | @readResponse c message _ _ =>
    exact linked_shared h ha fun _ _ hr =>
      responded_modify (c := c) (f := fun ch => { ch with holder := .gone }) rfl hr
  | @readMalformed c message hc hh hd =>
    -- the peer's responses decode
    have hr : Responded A.session.shared c message := hset.taken c hc _ hh
    obtain ⟨id, result, hd'⟩ := decode_response hrt hA hB h hr
    rw [hd] at hd'
    cases hd'
  | _ => exact linked_keep h ha hrefl hl hnone rfl rfl rfl rfl

end Steps

/-! ### Deliveries -/

section Deliver
variable {codec : Codec M} {side : Side} {A B : Sys M} {n m : ℕ} {e : Sent M}

/-- A request carries an ID of its sender. -/
theorem request_parity (hB : TracedSys codec side.peer B) (he : e ∈ B.outbox)
    (hr : e.message.body.isRequest = true) : Parity.of e.id = side.peer.parity := by
  obtain ⟨-, hb⟩ := (hB.sent e he).1
  cases hbody : e.message.body with
  | request message =>
    rw [hbody] at hb
    have hp := hB.traces.assigned_parity _ hb
    rwa [hB.side_eq] at hp
  | reply id result => rw [hbody] at hr; cases hr

/-- The answer of `B` that a reply carries, and the request of `A` it is for. -/
theorem reply_request (hA : TracedSys codec side A) (hB : TracedSys codec side.peer B)
    (h : Arrivals B A m) (ha : Answers B) (he : e ∈ B.outbox)
    (hr : e.message.body.isRequest = false) :
    ∃ message result, e.message.body = .reply e.id result ∧
      (e.id, message) ∈ receivedList B.session.log ∧
      (∃ automatic, ⟨e.id, result, automatic⟩ ∈ repliedList B.session.log) ∧
      ∃ key c, ⟨e.id, key⟩ ∈ assignedList A.session.log ∧
        ⟨key, c, .request message⟩ ∈ queuedList A.session.log := by
  obtain ⟨⟨c, hq⟩, hb⟩ := (hB.sent e he).1
  cases hbody : e.message.body with
  | request message => rw [hbody] at hr; cases hr
  | reply id result =>
    rw [hbody] at hb hq
    subst hb
    obtain ⟨automatic, hrep⟩ := ha.replied _ hq _ _ rfl
    have hmem : e.id ∈ (receivedList B.session.log).map Prod.fst := by
      rw [← Multiset.mem_coe]
      refine Multiset.mem_of_le ha.answered (Multiset.mem_add.mpr (.inr ?_))
      exact Multiset.mem_coe.mpr (List.mem_map.mpr ⟨_, hrep, rfl⟩)
    obtain ⟨⟨id, message⟩, hrec, hid⟩ := List.mem_map.mp hmem
    dsimp only at hid
    subst hid
    refine ⟨message, result, rfl, hrec, ⟨automatic, hrep⟩, ?_⟩
    -- the request came from `A`, which had queued it and given it its ID
    obtain ⟨e', he', hid', hbody'⟩ := h.received _ hrec
    obtain ⟨⟨c', hq'⟩, hb'⟩ := (hA.sent e' he').1
    rw [hbody'] at hb' hq'
    dsimp only at hid'
    rw [hid'] at hb'
    exact ⟨_, c', hb', hq'⟩

theorem reply_parity (hA : TracedSys codec side A) (hB : TracedSys codec side.peer B)
    (h : Arrivals B A m) (ha : Answers B) (he : e ∈ B.outbox)
    (hr : e.message.body.isRequest = false) : Parity.of e.id = side.parity := by
  obtain ⟨-, -, -, -, -, key, c, has, -⟩ := reply_request hA hB h ha he hr
  have hp := hA.traces.assigned_parity _ has
  rwa [hA.side_eq] at hp

theorem take_delivered (he : B.outbox[n]? = some e) :
    B.outbox.take (n + 1) = B.outbox.take n ++ [e] := by
  rw [List.take_add_one, he]
  rfl

/-- One more message delivered. -/
theorem Arrivals.advance (h : Arrivals A B n) (he : B.outbox[n]? = some e) :
    Arrivals A B (n + 1) := by
  have hsub : (sentRequests (B.outbox.take n)).Sublist (sentRequests (B.outbox.take (n + 1))) := by
    rw [take_delivered he]
    exact (List.sublist_append_left _ _).filter _
  refine ⟨?_, h.ids.trans (hsub.map _), h.carried, h.received, ?_, h.responded⟩
  · obtain ⟨hn, -⟩ := List.getElem?_eq_some_iff.mp he
    exact hn
  · intro o ho id hid
    exact (hsub.map _).subset (h.reserved o ho id hid)

/-- The next request has an ID above all those delivered. -/
theorem request_fresh (hB : TracedSys codec side.peer B) (he : B.outbox[n]? = some e)
    (hr : e.message.body.isRequest = true) :
    e.id ∉ (sentRequests (B.outbox.take n)).map (·.id) := by
  intro hm
  obtain ⟨e', he', hid⟩ := List.mem_map.mp hm
  have hsplit : B.outbox = B.outbox.take n ++ e :: B.outbox.drop (n + 1) := by
    obtain ⟨hn, rfl⟩ := List.getElem?_eq_some_iff.mp he
    rw [List.getElem_cons_drop, List.take_append_drop]
  have hs := hB.sent_sorted
  rw [hsplit, sentRequests, List.filter_append, List.filter_cons_of_pos (by simpa using hr),
    List.pairwise_append] at hs
  have hlt := hs.2.2 e' he' e (by simp)
  omega

theorem completeResponse_error {operation : PendingOperation} {now : ℕ} {w w' : Shared}
    {bytes : Bytes} {header : Header} {limit : ℕ} {error : Error}
    (h : operation.completeResponse now w bytes header limit = .ok (w', .error error)) :
    error ≠ .malformed := by
  generalize hres : Except.error (α := Unit) error = result at h
  cases completeResponse_cases h with
  | late _ => cases hres
  | answered _ _ _ _ => cases hres
  | refused _ _ =>
    split_ifs at hres
    cases hres
    simp

/-- A request of the peer is queued. -/
theorem arrivals_admitted (h : Arrivals A B n) (he : B.outbox[n]? = some e)
    (hr : e.message.body.isRequest = true) {o : OpenState M} (ho : A.session.state = .opened o)
    {session : SessionInner M} (envelope : IncomingEnvelope) (hb : envelope.bytes = e.bytes)
    (hs : session.state = .opened { o with
      reservedIds := insert e.id o.reservedIds
      incoming := o.incoming ++ [(e.id, envelope)] })
    (hc : session.shared.channels = A.session.shared.channels)
    (hl : session.log = A.session.log ++ [.admitted e.id]) :
    Arrivals (A.withSession session) B (n + 1) := by
  have hadv := h.advance he
  have htake : (sentRequests (B.outbox.take (n + 1))).map (·.id) =
      (sentRequests (B.outbox.take n)).map (·.id) ++ [e.id] := by
    rw [take_delivered he]
    simp [sentRequests, hr]
  have hin : session.incoming = A.session.incoming ++ [(e.id, envelope)] := by
    simp only [SessionInner.incoming, hs, ho]
  have hrec : receivedList session.log = receivedList A.session.log := by
    rw [hl]; simp [receivedList, receivedOf]
  have hpre : A.session.log <+: session.log := hl ▸ List.prefix_append _ _
  refine ⟨hadv.delivered_le, ?_, ?_, ?_, ?_, ?_⟩
  · simp only [Sys.withSession, hrec, hin, htake]
    rw [← List.append_assoc A.receiving.toList, List.map_append, ← List.append_assoc]
    exact List.Sublist.append_right h.ids _
  · intro t ht
    simp only [Sys.withSession, hin, ← List.append_assoc] at ht
    rcases List.mem_append.mp ht with ht | ht
    · exact h.carried t ht
    · rw [List.mem_singleton.mp ht]
      exact ⟨e, List.mem_filter.mpr ⟨List.mem_of_getElem? he, hr⟩, rfl, hb.symm⟩
  · simp only [Sys.withSession, hrec]
    exact h.received
  · intro o' ho' id hid
    simp only [Sys.withSession] at ho'
    rw [hs] at ho'
    cases ho'
    rcases Finset.mem_insert.mp hid with rfl | hid
    · rw [htake]; simp
    · exact hadv.reserved o ho id hid
  · intro c env hr'
    simp only [Sys.withSession, Responded, hc] at hr'
    obtain ⟨e', he', hb', hreq, key, body, hq, has⟩ := h.responded c env hr'
    exact ⟨e', he', hb', hreq, key, body, queuedList_mono hpre hq, assignedList_mono hpre has⟩

/-- A response of the peer reaches the promise of the request it answers. -/
theorem arrivals_completed (hA : TracedSys codec side A) (h : Arrivals A B n)
    (he : B.outbox[n]? = some e) (hr : e.message.body.isRequest = false) {o : OpenState M}
    (ho : A.session.state = .opened o) {key now limit : ℕ}
    {operation : PendingOperation} (hk : o.outstanding.lookup e.id = some key)
    (hop : o.operations.lookup key = some operation) {w : Shared} {header : Header}
    {result : Except Error Unit}
    (hc : operation.completeResponse now A.session.shared e.bytes header limit = .ok (w, result))
    (outstanding : AList fun _ : ℕ => ℕ) (operations : Operations) :
    Arrivals (A.withSession { A.session with
      state := .opened { o with outstanding := outstanding, operations := operations }
      shared := w }) B (n + 1) := by
  have hadv := h.advance he
  have htr := hA.traces.opened ho
  have hin : A.session.incoming = o.incoming := by simp only [SessionInner.incoming, ho]
  refine ⟨hadv.delivered_le, ?_, ?_, hadv.received, ?_, ?_⟩
  · have hids := hadv.ids
    rw [hin] at hids
    exact hids
  · have hca := hadv.carried
    rw [hin] at hca
    exact hca
  · intro o' ho' id hid
    cases ho'
    exact hadv.reserved o ho id hid
  · intro c env hresp
    rcases responded_completeResponse hc hresp with hresp | ⟨rfl, rfl⟩
    · exact h.responded c env hresp
    · obtain ⟨body, hq⟩ := htr.operation_queued key operation hop
      exact ⟨e, List.mem_of_getElem? he, rfl, hr, key, body, hq,
        htr.outstanding_assigned _ _ hk⟩

/-- No message is logged as queued, returned or answered while one is handled. -/
theorem handleMessage_lists {s s' : SessionInner M} {bytes : Bytes} {now : ℕ}
    {result : Except Error (Option ℕ)}
    (h : s.handleMessage codec bytes now = .ok (s', result)) :
    receivedList s'.log = receivedList s.log ∧ repliedList s'.log = repliedList s.log ∧
      queuedList s'.log = queuedList s.log ∧ (s'.state = s.state ∨ ∃ o, s'.state = .opened o) := by
  cases handleMessage_cases h with
  | unknown => simp [receivedList, receivedOf, repliedList, repliedOf, queuedList, queuedOf]
  | admitted => simp [receivedList, receivedOf, repliedList, repliedOf, queuedList, queuedOf]
  | late => simp
  | completed => simp
  | _ => simp

/-- A message of the peer is handled. The error returned, if any, is not `Malformed`. -/
theorem handleMessage_linked (hrt : RoundTrip codec) (hA : TracedSys codec side A)
    (hB : TracedSys codec side.peer B) (h : Arrivals A B n) (h' : Arrivals B A m)
    (ha : Answers A) (hb : Answers B) (he : B.outbox[n]? = some e) {now : ℕ}
    {session : SessionInner M} {result : Except Error (Option ℕ)}
    (hm : A.session.handleMessage codec e.bytes now = .ok (session, result)) :
    Arrivals (A.withSession session) B (n + 1) ∧ result ≠ .error .malformed ∧
      ∀ id, result ≠ .ok (some id) := by
  have hmem : e ∈ B.outbox := List.mem_of_getElem? he
  have hadv := h.advance he
  obtain ⟨header, hdec, hid, hfail, hunk⟩ := hrt.header (hB.sent e hmem).2
  rw [Side.peer_peer, ← hA.side_eq] at hdec
  -- the parity of the ID tells requests from responses
  have hreq : MessageKind.fromId header.id A.session.side.parity = .request →
      e.message.body.isRequest = true := by
    intro hk
    by_contra hn
    have hp := reply_parity hA hB h' hb hmem (by simpa using hn)
    rw [← hid, ← hA.side_eq] at hp
    rw [fromId_eq_response.mpr hp] at hk
    cases hk
  have hres : MessageKind.fromId header.id A.session.side.parity = .response →
      e.message.body.isRequest = false := by
    intro hk
    by_contra hn
    have hp := request_parity hB hmem (by simpa using hn)
    rw [fromId_eq_response, hid, hA.side_eq] at hk
    exact parity_peer_ne side (hp.symm.trans hk)
  cases handleMessage_cases hm with
  | unparsed hd => rw [hdec] at hd; cases hd
  | failedRequest hd hk hf =>
    rw [hdec] at hd
    cases hd
    have hr := hreq hk
    rw [hfail] at hf
    cases hbody : e.message.body with
    | request message => rw [hbody] at hf; cases hf
    | reply id result => rw [hbody] at hr; cases hr
  | closed hs =>
    refine ⟨hadv, fun hc => ?_, by simp⟩
    cases hc
    exact ha.closed hs
  | @duplicate header' o hd hk hs hin =>
    rw [hdec] at hd
    cases hd
    refine absurd (h.reserved o hs _ hin) ?_
    rw [hid]
    exact request_fresh hB he (hreq hk)
  | refused hs herr =>
    refine ⟨hadv, ?_, by simp⟩
    rcases herr with rfl | rfl <;> simp
  | unknown hd _ _ _ _ hu =>
    rw [hdec] at hd
    cases hd
    rw [hunk] at hu
    cases hu
  | @admitted header' o hd hk _ hs _ _ _ _ _ =>
    rw [hdec] at hd
    cases hd
    refine ⟨?_, by simp, by simp⟩
    refine arrivals_admitted h he (hreq hk) hs ⟨e.bytes, header, e.bytes.length⟩ rfl ?_ rfl ?_
    · rw [hid]
    · rw [hid]
  | unmatched => exact ⟨hadv, by simp, by simp⟩
  | @late header' o key hd hk hs _ _ =>
    refine ⟨?_, by simp, by simp⟩
    have hf : Frame none A.session { A.session with
        state := .opened { o with outstanding := o.outstanding.erase header'.id } } :=
      Frame.of_opened hs rfl (List.Sublist.refl _) subset_rfl (fun _ _ h => h) rfl rfl
        (fun _ h => .inl h)
    exact hadv.keep hf ⟨rfl, List.prefix_rfl⟩ rfl
  | @completed header' o key operation w result hd hk hs hl hop hc =>
    rw [hdec] at hd
    cases hd
    refine ⟨?_, ?_, ?_⟩
    · rw [hid] at hl
      exact arrivals_completed hA h he (hres hk) hs hl hop hc _ _
    · cases result with
      | error error =>
        intro hcon
        cases hcon
        exact completeResponse_error hc rfl
      | ok => simp [Except.map]
    · cases result <;> simp [Except.map]

/-- **A delivery.** -/
theorem linked_deliver {A' : Sys M} (hrt : RoundTrip codec) (hA : TracedSys codec side A)
    (hB : TracedSys codec side.peer B) (h : Arrivals A B n) (h' : Arrivals B A m)
    (ha : Answers A) (hb : Answers B) (he : B.outbox[n]? = some e)
    (hs : Step codec A (some e.bytes) A') : Arrivals A' B (n + 1) ∧ Answers A' := by
  have hstate : ∀ {session : SessionInner M}, (session.state = A.session.state ∨
      ∃ o, session.state = .opened o) → session.state ≠ .closed .malformed := by
    rintro session (hst | ⟨o, ho⟩) hc
    · exact ha.closed (hst ▸ hc)
    · rw [ho] at hc; cases hc
  cases hs with
  | @messageRefused _ _ session error hm =>
    obtain ⟨harr, hne, -⟩ := handleMessage_linked hrt hA hB h h' ha hb he hm
    obtain ⟨h1, h2, h3, h4⟩ := handleMessage_lists hm
    refine ⟨harr.keep (Frame.refl _ : Frame none _ _) (Later.refl _) rfl, ?_⟩
    refine ha.of_lists h1 h2 (fun q hq => .inl (h3 ▸ hq)) le_rfl ha.unanswered ?_ (hstate h4)
    intro o ho
    rcases List.mem_append.mp ho with ho | ho
    · exact ha.owed o ho
    · rw [List.mem_singleton.mp ho]
      exact ⟨fun hc => hne (by rw [← hc]), rfl⟩
  | messageRouted hm =>
    obtain ⟨harr, -, -⟩ := handleMessage_linked hrt hA hB h h' ha hb he hm
    obtain ⟨h1, h2, h3, h4⟩ := handleMessage_lists hm
    exact ⟨harr, ha.of_lists h1 h2 (fun q hq => .inl (h3 ▸ hq)) le_rfl ha.unanswered ha.owed
      (hstate h4)⟩
  | messageUnknown hm =>
    obtain ⟨-, -, hne⟩ := handleMessage_linked hrt hA hB h h' ha hb he hm
    exact absurd rfl (hne _)

end Deliver

/-! ### It holds in every state -/

/-- What holds of one side of the pair. -/
structure SideInv (codec : Codec M) (p : Peers M) (side : Side) : Prop where
  routes : RoutesSys (p.sys side)
  settles : Settles (p.sys side).session
  traced : TracedSys codec side (p.sys side)
  arrivals : Arrivals (p.sys side) (p.sys side.peer) (p.delivered side)
  answers : Answers (p.sys side)

theorem sideInv_new (codec : Codec M) (side : Side) : SideInv codec (.new : Peers M) side where
  routes := Routed.new
  settles := Settled.new
  traced := tracedSys_new codec side
  arrivals := by
    constructor <;> simp [Peers.new, Sys.new, SessionInner.new, receivedList, SessionInner.incoming,
      Responded]
  answers := by
    constructor <;> simp [Peers.new, Sys.new, SessionInner.new, receivedList, repliedList,
      queuedList]

/-- The sides not moving see only more messages. -/
theorem sideInv_other {codec : Codec M} {p p' : Peers M} {side : Side}
    (h : SideInv codec p side) (hs : p'.sys side = p.sys side)
    (hd : p'.delivered side = p.delivered side)
    (hp : (p.sys side.peer).outbox <+: (p'.sys side.peer).outbox) : SideInv codec p' side where
  routes := hs ▸ h.routes
  settles := hs ▸ h.settles
  traced := hs ▸ h.traced
  arrivals := by rw [hs, hd]; exact h.arrivals.mono hp
  answers := hs ▸ h.answers

/-- One side moves to `s'`, and then both still have it. -/
theorem sideInv_moved {codec : Codec M} {p p' : Peers M} {side : Side} {s' : Sys M}
    {i : Option Bytes} (h : ∀ side, SideInv codec p side) (hstep : Step codec (p.sys side) i s')
    (hs : p'.sys = Function.update p.sys side s')
    (hd : ∀ side', side' ≠ side → p'.delivered side' = p.delivered side')
    (hl : Arrivals s' (p.sys side.peer) (p'.delivered side) ∧ Answers s') :
    ∀ side', SideInv codec p' side' := by
  have hself : p'.sys side = s' := by rw [hs, Function.update_self]
  have hpeer : p'.sys side.peer = p.sys side.peer := by
    rw [hs, Function.update_of_ne (peer_ne side)]
  intro side'
  by_cases hside : side' = side
  · subst hside
    exact {
      routes := by rw [hself]; exact routesSys_step (h side').routes hstep
      settles := by rw [hself]; exact settles_step (h side').routes (h side').settles hstep
      traced := by rw [hself]; exact tracedSys_step (h side').traced hstep
      arrivals := by rw [hself, hpeer]; exact hl.1
      answers := by rw [hself]; exact hl.2 }
  · have hother : p'.sys side' = p.sys side' := by rw [hs, Function.update_of_ne hside]
    refine sideInv_other (h side') hother (hd side' hside) ?_
    have hpp : side'.peer = side := by
      cases side <;> cases side' <;> first | rfl | exact absurd rfl hside
    rw [hpp, hself]
    exact outbox_step hstep

theorem sideInv_step {codec : Codec M} (hrt : RoundTrip codec) {p p' : Peers M} {a : PeerAction M}
    (h : ∀ side, SideInv codec p side) (hs : p.step codec a = .next p') :
    ∀ side, SideInv codec p' side := by
  cases a with
  | act side a =>
    simp only [Peers.step, Peers.act] at hs
    split at hs
    · cases hs
    · next hi =>
      split at hs
      · cases hs
      · cases hs
      · next s' hstep =>
        cases hs
        have hst := step_cases hstep
        rw [hi] at hst
        have hl := linked_step hrt (h side).traced (h side.peer).traced (h side).settles
          (h side).arrivals (h side).answers hst
        exact sideInv_moved h hst rfl (fun _ _ => rfl) hl
  | deliver side now =>
    simp only [Peers.step, Peers.deliver] at hs
    split at hs
    · cases hs
    · next sent hsent =>
      split at hs
      · cases hs
      · cases hs
      · next s' hstep =>
        cases hs
        have hst : Step codec (p.sys side) (some sent.bytes) s' := step_cases hstep
        have hback := (h side.peer).arrivals
        rw [Side.peer_peer] at hback
        have hl := linked_deliver hrt (h side).traced (h side.peer).traced (h side).arrivals hback
          (h side).answers (h side.peer).answers hsent hst
        refine sideInv_moved h hst rfl (fun _ hne => ?_) ?_
        · exact Function.update_of_ne hne _ _
        · simpa only [Function.update_self] using hl

theorem sideInv_reachable {codec : Codec M} (hrt : RoundTrip codec) {p : Peers M}
    (h : (peers codec).Reachable p) : ∀ side, SideInv codec p side :=
  h.invariant (I := fun p => ∀ side, SideInv codec p side) (sideInv_new codec)
    fun _ _ _ _ hi hs => sideInv_step hrt hi hs

/-! ### What it gives -/

section Results
variable {codec : Codec M} {p : Peers M}

/-- A response is the answer to the request of its promise. -/
theorem response_answers (hrt : RoundTrip codec) (h : ∀ side, SideInv codec p side) {side : Side}
    {c : ℕ} {envelope : IncomingEnvelope}
    (hr : Responded (p.sys side).session.shared c envelope) :
    ∃ key id message result automatic,
      ⟨key, c, .request message⟩ ∈ queuedList (p.sys side).session.log ∧
      ⟨id, key⟩ ∈ assignedList (p.sys side).session.log ∧
      codec.decode side envelope.bytes = some (id, result) ∧
      (id, message) ∈ receivedList (p.sys side.peer).session.log ∧
      ⟨id, result, automatic⟩ ∈ repliedList (p.sys side.peer).session.log := by
  have hback := (h side.peer).arrivals
  rw [Side.peer_peer] at hback
  have htr := (h side).traced.traces
  obtain ⟨e, he, hb, hreq, key, body, hq, has⟩ := (h side).arrivals.responded c envelope hr
  obtain ⟨message, result, hbody, hrec, ⟨automatic, hrep⟩, key', c', has', hq'⟩ :=
    reply_request (h side).traced (h side.peer).traced hback (h side.peer).answers he hreq
  have hkey : key' = key := congrArg Assigned.key
    (eq_of_increasing (htr.assigned_sorted.imp And.left) has' has rfl)
  subst hkey
  have hqq := eq_of_increasing (htr.queued_sorted.imp And.left) hq' hq rfl
  cases hqq
  have hdec := hrt.body ((h side.peer).traced.sent e he).2
  rw [Side.peer_peer, hbody] at hdec
  exact ⟨key', e.id, message, result, automatic, hq, has, hb ▸ hdec, hrec, hrep⟩

/-- What `recv` returns has increasing IDs. -/
theorem received_increasing (h : ∀ side, SideInv codec p side) (side : Side) :
    (receivedList (p.sys side).session.log).Pairwise fun a b => a.1 < b.1 := by
  have hids := (h side).arrivals.ids
  have hsent := (h side.peer).traced.sent_sorted
  have hsub : ((receivedList (p.sys side).session.log).map Prod.fst).Sublist
      ((sentRequests (p.sys side.peer).outbox).map (·.id)) :=
    ((List.sublist_append_left _ _).trans hids).trans
      ((List.Sublist.filter _ (List.take_sublist _ _)).map _)
  exact List.pairwise_map.mp ((List.pairwise_map.mpr hsent).sublist hsub)

/-- **Request/response correspondence.** For both sides of every reachable pair of sessions:

1. the session is not closed with `Malformed`, and no thread is about to;
2. a response sent to a promise is the result that the peer's responder for the request of that
   promise was given, or the `UNANSWERED` error queued for it: there is one responder for each ID,
   and it answers at most once;
3. the peer's `recv` returns the requests in the order they were queued, each at most once. -/
theorem correspondence (hrt : RoundTrip codec) (h : (peers codec).Reachable p) (side : Side) :
    ((p.sys side).session.state ≠ .closed .malformed ∧
      ∀ o ∈ (p.sys side).owed, o.error ≠ .malformed) ∧
    ((∀ c envelope, .ok (.response envelope) ∈ ((p.sys side).session.shared.channels c).sent →
        ∃ key id message result automatic,
          ⟨key, c, .request message⟩ ∈ queuedList (p.sys side).session.log ∧
          ⟨id, key⟩ ∈ assignedList (p.sys side).session.log ∧
          codec.decode side envelope.bytes = some (id, result) ∧
          (id, message) ∈ receivedList (p.sys side.peer).session.log ∧
          ⟨id, result, automatic⟩ ∈ repliedList (p.sys side.peer).session.log ∧
          (automatic = true → result = .error unansweredError)) ∧
      ((queuedList (p.sys side).session.log).map (·.channel)).Nodup ∧
      ((assignedList (p.sys side).session.log).map (·.id)).Nodup ∧
      ((receivedList (p.sys side.peer).session.log).map Prod.fst).Nodup ∧
      ((repliedList (p.sys side.peer).session.log).map (·.id)).Nodup) ∧
    ∃ requests, List.Forall₂
        (fun r q => ⟨r.1, q.key⟩ ∈ assignedList (p.sys side).session.log ∧ q.body = .request r.2)
        (receivedList (p.sys side.peer).session.log) requests ∧
      requests.Sublist (queuedList (p.sys side).session.log) := by
  have hi := sideInv_reachable hrt h
  have htr := (hi side).traced.traces
  have hrecn : ((receivedList (p.sys side.peer).session.log).map Prod.fst).Nodup :=
    (List.pairwise_map.mpr (received_increasing hi side.peer)).imp Nat.ne_of_lt
  refine ⟨⟨(hi side).answers.closed, fun o ho => ((hi side).answers.owed o ho).1⟩,
    ⟨?_, ?_, ?_, hrecn, ?_⟩, ?_⟩
  · intro c envelope hr
    obtain ⟨key, id, message, result, automatic, hq, has, hd, hrec, hrep⟩ :=
      response_answers hrt hi hr
    exact ⟨key, id, message, result, automatic, hq, has, hd, hrec, hrep,
      (hi side.peer).answers.automatic _ hrep⟩
  · exact (List.pairwise_map.mpr (htr.queued_sorted.imp And.right)).imp Nat.ne_of_lt
  · exact (List.pairwise_map.mpr (htr.assigned_sorted.imp And.left)).imp Nat.ne_of_lt
  · rw [← Multiset.coe_nodup]
    refine Multiset.nodup_of_le ?_ (Multiset.coe_nodup.mpr hrecn)
    exact le_trans (Multiset.le_add_left _ _) (hi side.peer).answers.answered
  · -- keys are handed out in the order of queueing, IDs in the order of keys
    let t := fun a b : Queued M => a.key < b.key
    have : Std.Irrefl t := ⟨fun a => lt_irrefl a.key⟩
    have : Std.Antisymm t := ⟨fun a b hab hba => absurd hba (Nat.lt_asymm hab)⟩
    have hback := (hi side.peer).arrivals
    rw [Side.peer_peer] at hback
    refine exists_sublist_forall₂ (t := t) (fun r hr => ?_) (fun r r' q q' hq hq' hlt => ?_)
      (received_increasing hi side.peer) (htr.queued_sorted.imp And.left)
    · obtain ⟨e, he, hid, hbody⟩ := hback.received r hr
      obtain ⟨⟨c, hq⟩, has⟩ := ((hi side).traced.sent e he).1
      rw [hbody] at has hq
      dsimp only at has
      exact ⟨_, hq, hid ▸ has, rfl⟩
    · exact lt_of_increasing htr.assigned_sorted hq.1 hq'.1 hlt

end Results

theorem tinyCodec_roundTrip : RoundTrip tinyCodec := by
  have hid : ∀ {id : ℕ}, ¬256 ≤ id → (UInt8.ofNat id).toNat = id := by
    intro id h
    exact UInt8.toNat_ofNat_of_lt (by simpa using h)
  constructor
  · intro side id body bytes h
    simp only [tinyCodec] at h ⊢
    split_ifs at h with hlt
    cases body with
    | ok message =>
      cases h
      exact ⟨_, rfl, hid hlt, rfl, rfl⟩
    | error error =>
      dsimp only at h
      split_ifs at h
      · cases h
        exact ⟨_, rfl, hid hlt, rfl, rfl⟩
      · cases h
        exact ⟨_, rfl, hid hlt, rfl, rfl⟩
  · intro side id body bytes h
    simp only [tinyCodec] at h ⊢
    split_ifs at h with hlt
    cases body with
    | ok message =>
      cases h
      simp [hid hlt]
    | error error =>
      dsimp only at h
      split_ifs at h with h1 h2
      · cases h
        simp [hid hlt, h1]
      · cases h
        simp [hid hlt, h2]

/-- A request of the client, answered by the server. -/
def requestAnswered : List (PeerAction UInt8) :=
  [.act .client (.request 7 10 0), .act .client (.pickup 1), .act .client (.send (.ok ()) true),
    .act .client (.report 1), .deliver .server 2, .act .server .recv, .act .server .decode,
    .act .server (.respond 1 (.ok 9) 10 3), .act .server (.pickup 4),
    .act .server (.send (.ok ()) true), .act .server (.report 4), .deliver .client 5]

theorem correspondence_requestAnswered :
    ∃ p envelope, (peers tinyCodec).run requestAnswered .new = some p ∧
      .ok (.response envelope) ∈ ((p.sys .client).session.shared.channels 0).sent ∧
      ∃ key id message result automatic,
        ⟨key, 0, .request message⟩ ∈ queuedList (p.sys .client).session.log ∧
        ⟨id, key⟩ ∈ assignedList (p.sys .client).session.log ∧
        tinyCodec.decode .client envelope.bytes = some (id, result) ∧
        (id, message) ∈ receivedList (p.sys .server).session.log ∧
        ⟨id, result, automatic⟩ ∈ repliedList (p.sys .server).session.log ∧
        (automatic = true → result = .error unansweredError) := by
  obtain ⟨p, envelope, hr, hm⟩ : ∃ p envelope,
      (peers tinyCodec).run requestAnswered .new = some p ∧
      .ok (.response envelope) ∈ ((p.sys .client).session.shared.channels 0).sent :=
    ⟨_, _, rfl, List.mem_singleton.mpr rfl⟩
  have h := correspondence tinyCodec_roundTrip (Machine.reachable_of_run hr) .client
  exact ⟨p, envelope, hr, hm, h.2.1.1 0 envelope hm⟩

end ArkWire.Protocol.Correspondence
