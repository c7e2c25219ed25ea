import ArkWire.Transport.Client
import ArkWire.Transport.Hearing
import ArkWire.Transport.Server

/-! # In-session integrity

Whatever bytes arrive and however they are cut, `Client::recv` and `Server::recv` return the peer's
messages of a session in order, from the first on. The first frame that is not the next packet ends
the session, and nothing is returned in it any more.

`ClientStage` and `ServerStage` say how far a session has come at each stage of its owner; a step of
either endpoint then is one of the operations `Keeps` is proved for. -/

namespace ArkWire.Transport.Integrity

open ArkWire.Lib.Machines ArkWire.Lib.Delimited
open ArkWire.Transport.Errors ArkWire.Transport.FrameReader ArkWire.Transport.FrameWriter
open ArkWire.Transport.Grammar ArkWire.Transport.Outbound ArkWire.Transport.Endpoint
open ArkWire.Transport.Hearing ArkWire.Transport.Client ArkWire.Transport.Server

variable {cfg : Config Transcript} {codec : Codec} {opens : Opens} {peer : Sealed}

/-- What `finish_receive` gets, as the status of the session has it. -/
def Awaits (b : Inbox) : Except TransportError Bytes → Prop
  | .ok message => ∀ h, b.current = some h → h.status = .opened message
  | .error _ => ∀ h, b.current = some h → h.status = .broken

/-- The session is over. -/
def Over (b : Inbox) : Prop := ∀ h, b.current = some h → Heard.Over h

theorem over_mark {b : Inbox} {status : Status}
    (h : status = .broken ∨ ∃ why, status = .left why) : Over (b.mark status) := by
  intro x hx
  obtain ⟨y, -, rfl⟩ := Option.map_eq_some_iff.mp hx
  exact h

theorem live_of_none {b : Inbox} (h : b.current = none) : Live b := by
  intro x hx
  rw [h] at hx
  cases hx

/-- A frame that is no packet is not the next packet. -/
theorem deviates_of_ne {ps : List (Bytes × Bytes)} {k : ℕ} {result : Result}
    (h : ∀ packet, result ≠ .ok (some packet)) : Deviates ps k result :=
  fun _ packet _ => h packet

theorem awaits_openPacket {b : Inbox} {rx : Receiver} {packet : Bytes} :
    Awaits (b.openPacket opens rx packet).1 (b.openPacket opens rx packet).2 := by
  unfold Inbox.openPacket
  cases opens rx.key rx.seq packet with
  | error reason =>
    intro h hh
    obtain ⟨x, -, rfl⟩ := Option.map_eq_some_iff.mp hh
    rfl
  | ok message =>
    intro h hh
    obtain ⟨x, -, rfl⟩ := Option.map_eq_some_iff.mp hh
    rfl

theorem report_not_io (max : ℕ) (decode : Bytes → Except String Bytes) (f : Frame UInt8) :
    isIoError (report max decode f) = false := by
  unfold report
  split
  · rfl
  · split <;> rfl
  · rfl

/-! ### The client -/

section Client

variable {s s' : Client} {value : Value} {input : Client.Input}

/-- The messages `recv` returned. -/
def clientMessages (returned : List Client.Returned) : List Bytes :=
  returned.filterMap fun r =>
    match r with
    | .message m => some m
    | _ => none

/-- How far the session is at each stage. -/
def ClientStage (max : ℕ) (b : Inbox) : Client.Stage → Prop
  | .idle => Live b
  | .skip _ _ phase => b.current = none ∧ Asking max phase b.reader
  | .read phase => Live b ∧ Asking max phase b.reader
  | .accept _ opened => b.current.isSome ∧ Awaits b opened
  | .ending _ => Over b
  | _ => b.current = none

/-- A step of the client. -/
def ClientAdvance (cfg : Config Transcript) (peer : Sealed) (s s' : Client) : Prop :=
  ∃ new, Keeps cfg.maxFrame cfg.cobs.decode peer s.inbox s'.inbox new ∧
    clientMessages s'.returned = clientMessages s.returned ++ new ∧
    ClientStage cfg.maxFrame s'.inbox s'.stage

theorem clientMessages_append (returned : List Client.Returned) (r : Client.Returned) :
    clientMessages (returned ++ [r]) = clientMessages returned ++ clientMessages [r] := by
  rw [clientMessages, List.filterMap_append]
  rfl

/-- Nothing is returned. -/
theorem ClientAdvance.quiet {b' : Inbox}
    (h : Keeps cfg.maxFrame cfg.cobs.decode peer s.inbox b' []) (hb : s'.inbox = b')
    (hr : s'.returned = s.returned) (hst : ClientStage cfg.maxFrame b' s'.stage) :
    ClientAdvance cfg peer s s' := by
  refine ⟨[], by rw [hb]; exact h, by rw [hr, List.append_nil], by rw [hb]; exact hst⟩

/-- An error or a new session is returned. -/
theorem ClientAdvance.returns {b' : Inbox} {r : Client.Returned}
    (h : Keeps cfg.maxFrame cfg.cobs.decode peer s.inbox b' []) (hb : s'.inbox = b')
    (hr : s'.returned = s.returned ++ [r]) (hnone : clientMessages [r] = [])
    (hidle : s'.stage = .idle) (hl : Live b') : ClientAdvance cfg peer s s' := by
  refine ⟨[], by rw [hb]; exact h, ?_, ?_⟩
  · rw [hr, clientMessages_append, hnone]
  · rw [hidle, hb]
    exact hl

/-- `end_session` of a session that is over. -/
theorem ClientAdvance.endSession {out : State Transcript} {b' : Inbox}
    (h : Keeps cfg.maxFrame cfg.cobs.decode peer s.inbox b' []) (ho : Over b')
    (error : TransportError) :
    ClientAdvance cfg peer s (Client.endSession { s with out, inbox := b' } error) := by
  unfold Client.endSession
  cases hsealer : s.sealer with
  | some c => exact .quiet h rfl rfl ho
  | none => exact .returns (h.trans (.close h.sound ho)) rfl rfl rfl rfl (live_of_none rfl)

/-- A frame comes in `recv`. -/
theorem ClientAdvance.heard (hideal : Ideal opens peer)
    (hs : Sound cfg.maxFrame cfg.cobs.decode peer s.inbox) (hl : Live s.inbox) {reader : Reader}
    (hg : Good cfg.maxFrame reader) {result : Result}
    (hres : isIoError result = true ∧ Kept cfg.maxFrame s.inbox.reader reader [] ∨
      ∃ f, result = report cfg.maxFrame cfg.cobs.decode f ∧
        Kept cfg.maxFrame s.inbox.reader reader [f])
    (hnext : Client.heard opens { s with inbox := { s.inbox with reader } } result = .next s') :
    ClientAdvance cfg peer s s' := by
  rcases hres with ⟨hio, hk⟩ | ⟨f, rfl, hk⟩
  · obtain ⟨error, rfl⟩ : ∃ error, result = .error error := by
      cases result with
      | error error => exact ⟨error, rfl⟩
      | ok packet => cases packet <;> cases hio
    dsimp only [Client.heard] at hnext
    rw [hio, if_pos rfl] at hnext
    cases hnext
    have hread := hs.read hg hk
    have hkeep : Keeps cfg.maxFrame cfg.cobs.decode peer s.inbox { s.inbox with reader } [] :=
      .same hread
    exact .endSession (hkeep.trans (.mark (hread.leave .readFailed) hl.whole))
      (over_mark (.inr ⟨_, rfl⟩)) error
  · generalize hr : report cfg.maxFrame cfg.cobs.decode f = result at hnext
    have hbreak : (∀ packet, result ≠ .ok (some packet)) →
        Keeps cfg.maxFrame cfg.cobs.decode peer s.inbox
          ({ s.inbox with reader }.mark .broken) [] := by
      intro hne
      refine .breaks hs hl hg hk fun rx _ => deviates_of_ne ?_
      rw [hr]
      exact hne
    rcases result with error | _ | packet
    · have hio : isIoError (.error error) = false := by
        rw [← hr]
        exact report_not_io _ _ f
      dsimp only [Client.heard] at hnext
      rw [hio, if_neg (by simp)] at hnext
      cases hnext
      exact .endSession (hbreak (fun _ h => (by cases h))) (over_mark (.inl rfl)) error
    · cases hnext
      exact .endSession (hbreak (fun _ h => (by cases h))) (over_mark (.inl rfl)) _
    · dsimp only [Client.heard] at hnext
      split at hnext
      · rename_i rx c hrx hc
        cases hnext
        have hkeep := Keeps.openPacket hideal hs hl hg hk hr hrx
        refine .quiet hkeep rfl rfl ⟨?_, awaits_openPacket⟩
        obtain ⟨x, hx⟩ := hs.receives rx hrx
        unfold Inbox.openPacket
        cases opens rx.key rx.seq packet with
        | error reason => simp [Inbox.mark, hx]
        | ok message => simp [Inbox.mark, hx]
      · cases hnext

/-- The reader moves before the session. -/
theorem ClientAdvance.outside (hs : Sound cfg.maxFrame cfg.cobs.decode peer s.inbox)
    (hnone : s.inbox.current = none) {reader : Reader} (hg : Good cfg.maxFrame reader)
    {out : State Transcript} {sealer : Option ℕ} {stage : Client.Stage}
    (hst : ClientStage cfg.maxFrame { s.inbox with reader } stage) :
    ClientAdvance cfg peer s
      { s with out, inbox := { s.inbox with reader }, sealer, stage } :=
  .quiet (.same (hs.outside hnone hg)) rfl rfl hst

theorem ClientAdvance.skipped (hs : Sound cfg.maxFrame cfg.cobs.decode peer s.inbox)
    (hnone : s.inbox.current = none) {reader : Reader} (hg : Good cfg.maxFrame reader)
    (hello : HostHello) (deadline : ℕ) (result : Result) :
    ClientAdvance cfg peer s
      (Client.skipped codec { s with inbox := { s.inbox with reader } } hello deadline result) := by
  have hsearch : Asking cfg.maxFrame .search reader := fun h => (by cases h)
  have hnamed : ∀ packet, ClientAdvance cfg peer s (Client.skipped.named codec hello deadline
      { s with inbox := { s.inbox with reader } } packet) := by
    intro packet
    unfold Client.skipped.named
    split_ifs
    · exact .outside hs hnone hg hnone
    · exact .outside hs hnone hg ⟨hnone, hsearch⟩
  unfold Client.skipped
  split
  · exact hnamed _
  · exact hnamed _
  · exact hnamed _
  · exact hnamed _
  · exact .returns (.same (hs.outside hnone hg)) rfl rfl rfl rfl (live_of_none hnone)

theorem ClientAdvance.accepted (hs : Sound cfg.maxFrame cfg.cobs.decode peer s.inbox)
    {opened : Except TransportError Bytes} (hsome : s.inbox.current.isSome)
    (ha : Awaits s.inbox opened) (c : ℕ) :
    ClientAdvance cfg peer s (Client.accepted
      { s with out := s.out.received owner c (s.out.finishReceive c opened) } opened
        (s.out.finishReceive c opened)) := by
  cases hres : s.out.finishReceive c opened with
  | ok message =>
    have hopened : opened = .ok message := by
      unfold State.finishReceive at hres
      split_ifs at hres
      exact hres
    rw [hopened] at ha
    refine ⟨[message], .deliver hs hsome ha, clientMessages_append _ _, fun h hh => ?_⟩
    obtain ⟨x, -, rfl⟩ := Option.map_eq_some_iff.mp hh
    rfl
  | error error =>
    cases opened with
    | ok message =>
      refine .endSession (.mark (hs.leave .unbound) fun h hh hb => ?_)
        (over_mark (.inr ⟨_, rfl⟩)) error
      rw [ha h hh] at hb
      cases hb
    | error e => exact .endSession (.refl hs) (fun h hh => .inl (ha h hh)) error

/-- A send of the handshake returned. -/
theorem ClientAdvance.sent (hs : Sound cfg.maxFrame cfg.cobs.decode peer s.inbox)
    (hnone : s.inbox.current = none) (result : Except TransportError Unit)
    (hok : ClientAdvance cfg peer s s') : ClientAdvance cfg peer s (s.sent result s') := by
  cases result with
  | ok => exact hok
  | error error => exact .returns (.refl hs) rfl rfl rfl rfl (live_of_none hnone)

/-- `connect` and `recv` begin. -/
theorem client_idle (hs : Sound cfg.maxFrame cfg.cobs.decode peer s.inbox)
    (hst : ClientStage cfg.maxFrame s.inbox .idle)
    (hnext : s.resume cfg codec opens value .idle input = .next s') :
    ClientAdvance cfg peer s s' := by
  cases input with
  | connect hello deadline =>
    cases hnext
    unfold Client.connect
    have hleft := Keeps.mark (hs.leave .reconnected) (Live.whole hst)
    dsimp only
    cases codec.encodeHello hello with
    | error reason => exact .endSession hleft (over_mark (.inr ⟨_, rfl⟩)) _
    | ok bytes =>
      exact .quiet (hleft.trans (.close hleft.sound (over_mark (.inr ⟨_, rfl⟩)))) rfl rfl rfl
  | recv =>
    dsimp only [Client.resume] at hnext
    cases hrx : s.inbox.receiver with
    | none =>
      rw [hrx] at hnext
      cases hnext
      exact .returns (.refl hs) rfl rfl rfl rfl hst
    | some rx =>
      rw [hrx] at hnext
      cases hnext
      exact .quiet (.refl hs) rfl rfl ⟨hst, asking_search _ _⟩
  | _ => cases hnext

/-- `connect` skips stale frames. -/
theorem client_skip {hello : HostHello} {deadline : ℕ} {phase : Phase}
    (hs : Sound cfg.maxFrame cfg.cobs.decode peer s.inbox)
    (hst : ClientStage cfg.maxFrame s.inbox (.skip hello deadline phase))
    (hnext : s.resume cfg codec opens value (.skip hello deadline phase) input = .next s') :
    ClientAdvance cfg peer s s' := by
  obtain ⟨hnone, hask⟩ := hst
  cases input with
  | turn t =>
    dsimp only [Client.resume] at hnext
    have hok := turnOk hs.good hask (some deadline) t
    cases hturn : s.inbox.reader.turn cfg.maxFrame (some deadline) t phase with
    | more phase' reader =>
      rw [hturn] at hnext hok
      cases hnext
      exact .outside hs hnone hok.1 ⟨hnone, hok.2.1⟩
    | done result reader =>
      rw [hturn] at hnext hok
      cases hnext
      exact .skipped hs hnone hok.1 hello deadline _
  | _ => cases hnext

theorem client_bind {key : Transcript} (hs : Sound cfg.maxFrame cfg.cobs.decode peer s.inbox)
    (hst : ClientStage cfg.maxFrame s.inbox (.bind key))
    (hnext : s.resume cfg codec opens value (.bind key) input = .next s') :
    ClientAdvance cfg peer s s' := by
  cases input with
  | go =>
    cases value with
    | bound c =>
      cases hnext
      refine .returns (.establish hs hst key c) rfl rfl rfl rfl fun h hh => ?_
      cases hh
      rfl
    | _ => cases hnext
  | _ => cases hnext

/-- `recv` reads. -/
theorem client_read {phase : Phase} (hideal : Ideal opens peer)
    (hs : Sound cfg.maxFrame cfg.cobs.decode peer s.inbox)
    (hst : ClientStage cfg.maxFrame s.inbox (.read phase))
    (hnext : s.resume cfg codec opens value (.read phase) input = .next s') :
    ClientAdvance cfg peer s s' := by
  obtain ⟨hlive, hask⟩ := hst
  cases input with
  | turn t =>
    dsimp only [Client.resume] at hnext
    cases hturn : s.inbox.reader.turn cfg.maxFrame none t phase with
    | more phase' reader =>
      have hok := turnOk hs.good hask none t
      rw [hturn] at hnext hok
      cases hnext
      exact .quiet (.same (hs.read hok.1 hok.2.2)) rfl rfl ⟨hlive, hok.2.1⟩
    | done result reader =>
      rw [hturn] at hnext
      obtain ⟨hg, hres⟩ := turn_done cfg.cobs.decode hs.good hask hturn
      exact .heard hideal hs hlive hg hres hnext
  | _ => cases hnext

theorem client_own (hideal : Ideal opens peer)
    (hs : Sound cfg.maxFrame cfg.cobs.decode peer s.inbox)
    (hst : ClientStage cfg.maxFrame s.inbox s.stage)
    (hnext : s.own cfg codec opens input = .next s') : ClientAdvance cfg peer s s' := by
  unfold Client.own at hnext
  split at hnext
  swap
  · cases hnext
  rename_i value hidle
  cases hstage : s.stage with
  | idle =>
    rw [hstage] at hst hnext
    exact client_idle hs hst hnext
  | reset hello bytes deadline =>
    rw [hstage] at hst hnext
    cases input with
    | go =>
      cases value with
      | sent result =>
        cases hnext
        exact .sent hs hst result (.quiet (.refl hs) rfl rfl hst)
      | _ => cases hnext
    | _ => cases hnext
  | hello hello deadline =>
    rw [hstage] at hst hnext
    cases input with
    | go =>
      cases value with
      | sent result =>
        cases hnext
        exact .sent hs hst result (.quiet (.refl hs) rfl rfl ⟨hst, asking_search _ _⟩)
      | _ => cases hnext
    | _ => cases hnext
  | skip hello deadline phase =>
    rw [hstage] at hst hnext
    exact client_skip hs hst hnext
  | answer hello deadline packet =>
    rw [hstage] at hst hnext
    cases input with
    | answer result =>
      rcases result with error | ⟨ark, ack, bytes⟩
      · cases hnext
        exact .returns (.refl hs) rfl rfl rfl rfl (live_of_none hst)
      · cases hnext
        exact .quiet (.refl hs) rfl rfl hst
    | _ => cases hnext
  | ack key bytes =>
    rw [hstage] at hst hnext
    cases input with
    | go =>
      cases value with
      | sent result =>
        cases hnext
        exact .sent hs hst result (.quiet (.refl hs) rfl rfl hst)
      | _ => cases hnext
    | _ => cases hnext
  | bind key =>
    rw [hstage] at hst hnext
    exact client_bind hs hst hnext
  | read phase =>
    rw [hstage] at hst hnext
    exact client_read hideal hs hst hnext
  | accept c opened =>
    rw [hstage] at hst hnext
    cases input with
    | go =>
      cases hnext
      exact .accepted hs hst.1 hst.2 c
    | _ => cases hnext
  | ending error =>
    rw [hstage] at hst hnext
    cases input with
    | go =>
      cases hnext
      exact .returns (.close hs hst) rfl rfl rfl rfl (live_of_none rfl)
    | _ => cases hnext

end Client

/-! ### The server -/

section Server

variable {s s' : Server} {value : Value} {input : Server.Input}

/-- The messages `recv` returned. -/
def serverMessages (returned : List Server.Returned) : List Bytes :=
  returned.filterMap fun r =>
    match r with
    | .message m => some m
    | _ => none

/-- How far the session is at each stage. Between two calls and at the top of the loop, a pending
handshake means that there is none. -/
def ServerStage (max : ℕ) (b : Inbox) (pending : Option ℕ) : Server.Stage → Prop
  | .idle => Live b ∧ (pending.isSome → b.current = none)
  | .top => Live b ∧ (pending.isSome → b.current = none)
  | .read phase => (Live b ∧ pending = none) ∧ Asking max phase b.reader
  | .accept _ opened => (b.current.isSome ∧ pending = none) ∧ Awaits b opened
  | .ending _ _ => Over b
  | .dropping _ => b.current = none
  | .hello _ phase => (b.current = none ∧ pending = none) ∧ Asking max phase b.reader
  | .ack _ _ _ phase => (b.current = none ∧ pending = none) ∧ Asking max phase b.reader
  | _ => b.current = none ∧ pending = none

/-- A step of the server. -/
def ServerAdvance (cfg : Config Transcript) (peer : Sealed) (s s' : Server) : Prop :=
  ∃ new, Keeps cfg.maxFrame cfg.cobs.decode peer s.inbox s'.inbox new ∧
    serverMessages s'.returned = serverMessages s.returned ++ new ∧
    ServerStage cfg.maxFrame s'.inbox s'.handshakeDeadline s'.stage

theorem serverMessages_append (returned : List Server.Returned) (r : Server.Returned) :
    serverMessages (returned ++ [r]) = serverMessages returned ++ serverMessages [r] := by
  rw [serverMessages, List.filterMap_append]
  rfl

/-- Nothing is returned. -/
theorem ServerAdvance.quiet {b' : Inbox}
    (h : Keeps cfg.maxFrame cfg.cobs.decode peer s.inbox b' []) (hb : s'.inbox = b')
    (hr : s'.returned = s.returned)
    (hst : ServerStage cfg.maxFrame b' s'.handshakeDeadline s'.stage) :
    ServerAdvance cfg peer s s' := by
  refine ⟨[], by rw [hb]; exact h, by rw [hr, List.append_nil], by rw [hb]; exact hst⟩

/-- Something other than a message is returned. -/
theorem ServerAdvance.returns {b' : Inbox} {r : Server.Returned}
    (h : Keeps cfg.maxFrame cfg.cobs.decode peer s.inbox b' []) (hb : s'.inbox = b')
    (hr : s'.returned = s.returned ++ [r]) (hnone : serverMessages [r] = [])
    (hidle : s'.stage = .idle)
    (hl : Live b' ∧ (s'.handshakeDeadline.isSome → b'.current = none)) :
    ServerAdvance cfg peer s s' := by
  refine ⟨[], by rw [hb]; exact h, ?_, ?_⟩
  · rw [hr, serverMessages_append, hnone]
  · rw [hidle, hb]
    exact hl

/-- What follows when the contexts are released. -/
theorem ServerAdvance.follow {out : State Transcript} {b' : Inbox} {sealer pending : Option ℕ}
    (h : Keeps cfg.maxFrame cfg.cobs.decode peer s.inbox b' []) (hnone : b'.current = none)
    (next : Then) : ServerAdvance cfg peer s
      (Server.follow { s with out, inbox := b', sealer, handshakeDeadline := pending } next) := by
  cases next with
  | disconnected => exact .returns h rfl rfl rfl rfl ⟨live_of_none hnone, fun _ => hnone⟩
  | again => exact .quiet h rfl rfl ⟨live_of_none hnone, fun _ => hnone⟩
  | done => exact .returns h rfl rfl rfl rfl ⟨live_of_none hnone, fun _ => hnone⟩

theorem ServerAdvance.released {out : State Transcript} {b' : Inbox} {sealer pending : Option ℕ}
    (h : Keeps cfg.maxFrame cfg.cobs.decode peer s.inbox b' []) (ho : Over b') (drop : Bool)
    (next : Then) : ServerAdvance cfg peer s (Server.released
      { s with out, inbox := b', sealer, handshakeDeadline := pending } drop next) := by
  have hclose := h.trans (.close h.sound ho)
  unfold Server.released
  dsimp only
  split_ifs
  · exact .quiet hclose rfl rfl rfl
  · exact .follow hclose rfl next

/-- `end_session` of a session that is over. -/
theorem ServerAdvance.endSession {out : State Transcript} {b' : Inbox} {pending : Option ℕ}
    (h : Keeps cfg.maxFrame cfg.cobs.decode peer s.inbox b' []) (ho : Over b') (drop : Bool)
    (next : Then) : ServerAdvance cfg peer s (Server.endSession
      { s with out, inbox := b', handshakeDeadline := pending } drop next) := by
  unfold Server.endSession
  dsimp only
  cases s.sealer with
  | some c => exact .quiet h rfl rfl ho
  | none => exact .released h ho drop next

/-- A failed handshake. -/
theorem ServerAdvance.abandon {b' : Inbox} {stage : Server.Stage}
    (h : Keeps cfg.maxFrame cfg.cobs.decode peer s.inbox b' []) (hnone : b'.current = none)
    (hpending : s.handshakeDeadline = none) (deadline : ℕ) (error : TransportError) :
    ServerAdvance cfg peer s (Server.abandon { s with inbox := b', stage } deadline error) := by
  unfold Server.abandon
  split
  · exact .returns h rfl rfl rfl rfl ⟨live_of_none hnone, fun _ => hnone⟩
  · exact .returns h rfl rfl rfl rfl ⟨live_of_none hnone, fun _ => hnone⟩
  · exact .returns h rfl rfl rfl rfl ⟨live_of_none hnone, fun _ => hnone⟩
  · exact .quiet h rfl rfl ⟨hnone, hpending⟩

/-- A frame comes in the loop of `recv`. -/
theorem ServerAdvance.heard (hideal : Ideal opens peer)
    (hs : Sound cfg.maxFrame cfg.cobs.decode peer s.inbox) (hl : Live s.inbox)
    (hpending : s.handshakeDeadline = none) {reader : Reader} (hg : Good cfg.maxFrame reader)
    {result : Result} {deadline : ℕ}
    (hres : isIoError result = true ∧ Kept cfg.maxFrame s.inbox.reader reader [] ∨
      ∃ f, result = report cfg.maxFrame cfg.cobs.decode f ∧
        Kept cfg.maxFrame s.inbox.reader reader [f])
    (hnext : Server.heard opens { s with inbox := { s.inbox with reader } } deadline result =
      .next s') : ServerAdvance cfg peer s s' := by
  have hno : s.handshakeDeadline.isSome → ({ s.inbox with reader } : Inbox).current = none := by
    rw [hpending]
    intro h
    cases h
  rcases hres with ⟨hio, hk⟩ | ⟨f, rfl, hk⟩
  · have hkeep : Keeps cfg.maxFrame cfg.cobs.decode peer s.inbox { s.inbox with reader } [] :=
      .same (hs.read hg hk)
    unfold isIoError at hio
    split at hio
    · cases hnext
      exact .returns hkeep rfl rfl rfl rfl ⟨hl, hno⟩
    · cases hnext
      exact .returns hkeep rfl rfl rfl rfl ⟨hl, hno⟩
    · cases hio
  · have hnio := report_not_io cfg.maxFrame cfg.cobs.decode f
    generalize hr : report cfg.maxFrame cfg.cobs.decode f = result at hnext hnio
    have hbreak : (∀ packet, result ≠ .ok (some packet)) →
        Keeps cfg.maxFrame cfg.cobs.decode peer s.inbox
          ({ s.inbox with reader }.mark .broken) [] := by
      intro hne
      refine .breaks hs hl hg hk fun rx _ => deviates_of_ne ?_
      rw [hr]
      exact hne
    unfold Server.heard at hnext
    split at hnext
    · cases hnio
    · cases hnio
    · cases hnext
      exact .endSession (hbreak (fun _ h => (by cases h))) (over_mark (.inl rfl)) _ _
    · cases hnext
      exact .endSession (hbreak (fun _ h => (by cases h))) (over_mark (.inl rfl)) _ _
    · rename_i packet
      split at hnext
      · rename_i hrx
        cases hnext
        have hnone : s.inbox.current = none := by
          by_contra hne
          obtain ⟨h, hh⟩ := Option.ne_none_iff_exists'.mp hne
          obtain ⟨rx, -, hsome, -⟩ := hs.current h hh
          have hrx' : s.inbox.receiver = none := hrx
          rw [hrx'] at hsome
          cases hsome
        exact .quiet (.same (hs.outside hnone hg)) rfl rfl hnone
      · rename_i rx c hrx hc
        cases hnext
        refine .quiet (.openPacket hideal hs hl hg hk hr hrx) rfl rfl
          ⟨⟨?_, hpending⟩, awaits_openPacket⟩
        obtain ⟨x, hx⟩ := hs.receives rx hrx
        unfold Inbox.openPacket
        cases opens rx.key rx.seq packet with
        | error reason => simp [Inbox.mark, hx]
        | ok message => simp [Inbox.mark, hx]
      · cases hnext

theorem ServerAdvance.accepted (hs : Sound cfg.maxFrame cfg.cobs.decode peer s.inbox)
    {opened : Except TransportError Bytes} (hsome : s.inbox.current.isSome)
    (hpending : s.handshakeDeadline = none) (ha : Awaits s.inbox opened) (c : ℕ) :
    ServerAdvance cfg peer s (Server.accepted
      { s with out := s.out.received owner c (s.out.finishReceive c opened) } opened
        (s.out.finishReceive c opened)) := by
  cases hres : s.out.finishReceive c opened with
  | ok message =>
    have hopened : opened = .ok message := by
      unfold State.finishReceive at hres
      split_ifs at hres
      exact hres
    rw [hopened] at ha
    refine ⟨[message], .deliver hs hsome ha, serverMessages_append _ _, fun h hh => ?_, fun h => ?_⟩
    · obtain ⟨x, -, rfl⟩ := Option.map_eq_some_iff.mp hh
      rfl
    · change s.handshakeDeadline.isSome = true at h
      rw [hpending] at h
      cases h
  | error error =>
    cases opened with
    | ok message =>
      refine .endSession (.mark (hs.leave .unbound) fun h hh hb => ?_)
        (over_mark (.inr ⟨_, rfl⟩)) _ _
      rw [ha h hh] at hb
      cases hb
    | error e => exact .endSession (.refl hs) (fun h hh => .inl (ha h hh)) _ _

/-- The reader moves before the session. -/
theorem ServerAdvance.outside (hs : Sound cfg.maxFrame cfg.cobs.decode peer s.inbox)
    (hnone : s.inbox.current = none) {reader : Reader} (hg : Good cfg.maxFrame reader)
    {stage : Server.Stage}
    (hst : ServerStage cfg.maxFrame { s.inbox with reader } s.handshakeDeadline stage) :
    ServerAdvance cfg peer s { s with inbox := { s.inbox with reader }, stage } :=
  .quiet (.same (hs.outside hnone hg)) rfl rfl hst

theorem server_idle (hs : Sound cfg.maxFrame cfg.cobs.decode peer s.inbox)
    (hst : ServerStage cfg.maxFrame s.inbox s.handshakeDeadline .idle)
    (hnext : s.resume cfg codec opens value .idle input = .next s') :
    ServerAdvance cfg peer s s' := by
  cases input with
  | recv =>
    cases hnext
    exact .quiet (.refl hs) rfl rfl hst
  | disconnect =>
    cases hnext
    exact .endSession (.mark (hs.leave .disconnected) (Live.whole hst.1))
      (over_mark (.inr ⟨_, rfl⟩)) _ _
  | _ => cases hnext

theorem server_top (hs : Sound cfg.maxFrame cfg.cobs.decode peer s.inbox)
    (hst : ServerStage cfg.maxFrame s.inbox s.handshakeDeadline .top)
    (hnext : s.resume cfg codec opens value .top input = .next s') :
    ServerAdvance cfg peer s s' := by
  cases input with
  | go now =>
    cases hnext
    unfold Server.loop
    cases hpending : s.handshakeDeadline with
    | none => exact .quiet (.refl hs) rfl rfl ⟨⟨hst.1, rfl⟩, asking_search _ _⟩
    | some deadline =>
      rw [hpending] at hst
      exact .quiet (.refl hs) rfl rfl ⟨hst.2 rfl, rfl⟩
  | _ => cases hnext

/-- `recv` reads. -/
theorem server_read {phase : Phase} (hideal : Ideal opens peer)
    (hs : Sound cfg.maxFrame cfg.cobs.decode peer s.inbox)
    (hst : ServerStage cfg.maxFrame s.inbox s.handshakeDeadline (.read phase))
    (hnext : s.resume cfg codec opens value (.read phase) input = .next s') :
    ServerAdvance cfg peer s s' := by
  obtain ⟨⟨hlive, hpending⟩, hask⟩ := hst
  cases input with
  | turn t deadline =>
    dsimp only [Server.resume] at hnext
    cases hturn : s.inbox.reader.turn cfg.maxFrame none t phase with
    | more phase' reader =>
      have hok := turnOk hs.good hask none t
      rw [hturn] at hnext hok
      cases hnext
      exact .quiet (.same (hs.read hok.1 hok.2.2)) rfl rfl ⟨⟨hlive, hpending⟩, hok.2.1⟩
    | done result reader =>
      rw [hturn] at hnext
      obtain ⟨hg, hres⟩ := turn_done cfg.cobs.decode hs.good hask hturn
      exact .heard hideal hs hlive hpending hg hres hnext
  | _ => cases hnext

/-- `handshake` reads the HostHello. -/
theorem server_hello {deadline : ℕ} {phase : Phase}
    (hs : Sound cfg.maxFrame cfg.cobs.decode peer s.inbox)
    (hst : ServerStage cfg.maxFrame s.inbox s.handshakeDeadline (.hello deadline phase))
    (hnext : s.resume cfg codec opens value (.hello deadline phase) input = .next s') :
    ServerAdvance cfg peer s s' := by
  obtain ⟨⟨hnone, hpending⟩, hask⟩ := hst
  cases input with
  | turn t now =>
    dsimp only [Server.resume] at hnext
    have hok := turnOk hs.good hask (some deadline) t
    cases hturn : s.inbox.reader.turn cfg.maxFrame (some deadline) t phase with
    | more phase' reader =>
      rw [hturn] at hnext hok
      cases hnext
      exact .outside hs hnone hok.1 ⟨⟨hnone, hpending⟩, hok.2.1⟩
    | done result reader =>
      rw [hturn] at hnext hok
      cases hnext
      have hkeep : Keeps cfg.maxFrame cfg.cobs.decode peer s.inbox { s.inbox with reader } [] :=
        .same (hs.outside hnone hok.1)
      unfold Server.greeted
      split
      · exact .abandon hkeep hnone hpending deadline _
      · exact .outside hs hnone hok.1 ⟨⟨hnone, hpending⟩, asking_search _ _⟩
      · split
        · exact .outside hs hnone hok.1 ⟨hnone, hpending⟩
        · exact .abandon hkeep hnone hpending deadline _
  | _ => cases hnext

theorem server_send {deadline : ℕ} {hello : HostHello} {ark : ArkHello} {bytes : Bytes}
    (hs : Sound cfg.maxFrame cfg.cobs.decode peer s.inbox)
    (hst : ServerStage cfg.maxFrame s.inbox s.handshakeDeadline (.send deadline hello ark bytes))
    (hnext : s.resume cfg codec opens value (.send deadline hello ark bytes) input = .next s') :
    ServerAdvance cfg peer s s' := by
  cases input with
  | go now =>
    cases value with
    | sent result =>
      cases result with
      | ok =>
        cases hnext
        exact .quiet (.refl hs) rfl rfl ⟨hst, asking_search _ _⟩
      | error error =>
        cases hnext
        exact .abandon (.refl hs) hst.1 hst.2 deadline error
    | _ => cases hnext
  | _ => cases hnext

/-- `handshake` reads the HostAck. -/
theorem server_ack {deadline : ℕ} {hello : HostHello} {ark : ArkHello} {phase : Phase}
    (hs : Sound cfg.maxFrame cfg.cobs.decode peer s.inbox)
    (hst : ServerStage cfg.maxFrame s.inbox s.handshakeDeadline (.ack deadline hello ark phase))
    (hnext : s.resume cfg codec opens value (.ack deadline hello ark phase) input = .next s') :
    ServerAdvance cfg peer s s' := by
  obtain ⟨⟨hnone, hpending⟩, hask⟩ := hst
  cases input with
  | turn t now =>
    dsimp only [Server.resume] at hnext
    have hok := turnOk hs.good hask (some deadline) t
    cases hturn : s.inbox.reader.turn cfg.maxFrame (some deadline) t phase with
    | more phase' reader =>
      rw [hturn] at hnext hok
      cases hnext
      exact .outside hs hnone hok.1 ⟨⟨hnone, hpending⟩, hok.2.1⟩
    | done result reader =>
      rw [hturn] at hnext hok
      cases hnext
      unfold Server.acked
      split
      · exact .abandon (.same (hs.outside hnone hok.1)) hnone hpending deadline _
      · exact .outside hs hnone hok.1 ⟨⟨hnone, hpending⟩, asking_search _ _⟩
      · exact .outside hs hnone hok.1 ⟨hnone, hpending⟩
  | _ => cases hnext

theorem server_answer {deadline : ℕ} {hello : HostHello} {ark : ArkHello} {packet : Bytes}
    (hs : Sound cfg.maxFrame cfg.cobs.decode peer s.inbox)
    (hst : ServerStage cfg.maxFrame s.inbox s.handshakeDeadline (.answer deadline hello ark packet))
    (hnext : s.resume cfg codec opens value (.answer deadline hello ark packet) input = .next s') :
    ServerAdvance cfg peer s s' := by
  cases input with
  | opened result =>
    cases result with
    | error error =>
      cases hnext
      exact .abandon (.refl hs) hst.1 hst.2 deadline error
    | ok ack =>
      cases hnext
      exact .quiet (.refl hs) rfl rfl hst
  | _ => cases hnext

theorem server_bind {key : Transcript} (hs : Sound cfg.maxFrame cfg.cobs.decode peer s.inbox)
    (hst : ServerStage cfg.maxFrame s.inbox s.handshakeDeadline (.bind key))
    (hnext : s.resume cfg codec opens value (.bind key) input = .next s') :
    ServerAdvance cfg peer s s' := by
  cases input with
  | go now =>
    cases value with
    | bound c =>
      cases hnext
      refine .returns (.establish hs hst.1 key c) rfl rfl rfl rfl ⟨fun h hh => ?_, fun h => ?_⟩
      · cases hh
        rfl
      · change s.handshakeDeadline.isSome = true at h
        rw [hst.2] at h
        cases h
    | _ => cases hnext
  | _ => cases hnext

theorem server_failed {deadline : ℕ} (hs : Sound cfg.maxFrame cfg.cobs.decode peer s.inbox)
    (hst : ServerStage cfg.maxFrame s.inbox s.handshakeDeadline (.failed deadline))
    (hnext : s.resume cfg codec opens value (.failed deadline) input = .next s') :
    ServerAdvance cfg peer s s' := by
  cases input with
  | go now =>
    dsimp only [Server.resume] at hnext
    split_ifs at hnext
    · cases hnext
      exact .returns (.refl hs) rfl rfl rfl rfl ⟨live_of_none hst.1, fun _ => hst.1⟩
    · cases hnext
      exact .quiet (.refl hs) rfl rfl ⟨live_of_none hst.1, fun _ => hst.1⟩
  | _ => cases hnext

theorem server_own (hideal : Ideal opens peer)
    (hs : Sound cfg.maxFrame cfg.cobs.decode peer s.inbox)
    (hst : ServerStage cfg.maxFrame s.inbox s.handshakeDeadline s.stage)
    (hnext : s.own cfg codec opens input = .next s') : ServerAdvance cfg peer s s' := by
  unfold Server.own at hnext
  split at hnext
  swap
  · cases hnext
  rename_i value hidle
  cases hstage : s.stage with
  | idle =>
    rw [hstage] at hst hnext
    exact server_idle hs hst hnext
  | top =>
    rw [hstage] at hst hnext
    exact server_top hs hst hnext
  | read phase =>
    rw [hstage] at hst hnext
    exact server_read hideal hs hst hnext
  | accept c opened =>
    rw [hstage] at hst hnext
    cases input with
    | go now =>
      cases hnext
      exact .accepted hs hst.1.1 hst.1.2 hst.2 c
    | _ => cases hnext
  | ending drop next =>
    rw [hstage] at hst hnext
    cases input with
    | go now =>
      cases hnext
      exact .released (.refl hs) hst drop next
    | _ => cases hnext
  | dropping next =>
    rw [hstage] at hst hnext
    cases input with
    | go now =>
      cases hnext
      exact .follow (.refl hs) hst next
    | _ => cases hnext
  | unbind deadline =>
    rw [hstage] at hst hnext
    cases input with
    | go now =>
      cases hnext
      exact .quiet (.refl hs) rfl rfl ⟨hst, asking_search _ _⟩
    | _ => cases hnext
  | hello deadline phase =>
    rw [hstage] at hst hnext
    exact server_hello hs hst hnext
  | greet deadline hello =>
    rw [hstage] at hst hnext
    cases input with
    | seals result =>
      rcases result with error | ⟨ark, bytes⟩
      · cases hnext
        exact .abandon (.refl hs) hst.1 hst.2 deadline error
      · cases hnext
        exact .quiet (.refl hs) rfl rfl hst
    | _ => cases hnext
  | send deadline hello ark bytes =>
    rw [hstage] at hst hnext
    exact server_send hs hst hnext
  | ack deadline hello ark phase =>
    rw [hstage] at hst hnext
    exact server_ack hs hst hnext
  | answer deadline hello ark packet =>
    rw [hstage] at hst hnext
    exact server_answer hs hst hnext
  | bind key =>
    rw [hstage] at hst hnext
    exact server_bind hs hst hnext
  | failed deadline =>
    rw [hstage] at hst hnext
    exact server_failed hs hst hnext

end Server

/-! ### Runs -/

section Runs

variable {framer : Writer} {supply : Bytes}

theorem asking_feed {max : ℕ} {phase : Phase} {b : Inbox} (bytes : Bytes)
    (h : Asking max phase b.reader) : Asking max phase (b.feed bytes).reader := h

theorem live_feed {b : Inbox} (bytes : Bytes) (h : Live b) : Live (b.feed bytes) := by
  intro x hx
  obtain ⟨y, hy, rfl⟩ := Option.map_eq_some_iff.mp hx
  exact h y hy

theorem none_feed {b : Inbox} (bytes : Bytes) (h : b.current = none) :
    (b.feed bytes).current = none := by
  rw [Inbox.feed, h]
  rfl

theorem over_feed {b : Inbox} (bytes : Bytes) (h : Over b) : Over (b.feed bytes) := by
  intro x hx
  obtain ⟨y, hy, rfl⟩ := Option.map_eq_some_iff.mp hx
  exact h y hy

theorem awaits_feed {b : Inbox} (bytes : Bytes) {opened : Except TransportError Bytes}
    (h : Awaits b opened) : Awaits (b.feed bytes) opened := by
  cases opened with
  | ok message =>
    intro x hx
    obtain ⟨y, hy, rfl⟩ := Option.map_eq_some_iff.mp hx
    exact h y hy
  | error error =>
    intro x hx
    obtain ⟨y, hy, rfl⟩ := Option.map_eq_some_iff.mp hx
    exact h y hy

theorem some_feed {b : Inbox} (bytes : Bytes) (h : b.current.isSome) :
    (b.feed bytes).current.isSome := by
  rw [Inbox.feed, Option.isSome_map]
  exact h

theorem clientStage_feed {max : ℕ} {b : Inbox} (bytes : Bytes) {stage : Client.Stage}
    (h : ClientStage max b stage) : ClientStage max (b.feed bytes) stage := by
  cases stage with
  | idle => exact live_feed bytes h
  | skip => exact ⟨none_feed bytes h.1, asking_feed bytes h.2⟩
  | read => exact ⟨live_feed bytes h.1, asking_feed bytes h.2⟩
  | accept => exact ⟨some_feed bytes h.1, awaits_feed bytes h.2⟩
  | ending => exact over_feed bytes h
  | _ => exact none_feed bytes h

theorem serverStage_feed {max : ℕ} {b : Inbox} (bytes : Bytes) {pending : Option ℕ}
    {stage : Server.Stage} (h : ServerStage max b pending stage) :
    ServerStage max (b.feed bytes) pending stage := by
  cases stage with
  | idle => exact ⟨live_feed bytes h.1, fun hp => none_feed bytes (h.2 hp)⟩
  | top => exact ⟨live_feed bytes h.1, fun hp => none_feed bytes (h.2 hp)⟩
  | read => exact ⟨⟨live_feed bytes h.1.1, h.1.2⟩, asking_feed bytes h.2⟩
  | accept => exact ⟨⟨some_feed bytes h.1.1, h.1.2⟩, awaits_feed bytes h.2⟩
  | ending => exact over_feed bytes h
  | dropping => exact none_feed bytes h
  | hello => exact ⟨⟨none_feed bytes h.1.1, h.1.2⟩, asking_feed bytes h.2⟩
  | ack => exact ⟨⟨none_feed bytes h.1.1, h.1.2⟩, asking_feed bytes h.2⟩
  | _ => exact ⟨none_feed bytes h.1, h.2⟩

/-- Packets that open by comparison with those sealed. -/
def openSealed (peer : Sealed) : Opens := fun key seq packet =>
  match (peer key)[seq]? with
  | some (message, p) => if p = packet then .ok message else .error "decryption failed"
  | none => .error "decryption failed"

/-- Frames of at most eight bytes; a HostHello and a packet that names a key are that key's byte. -/
def smallConfig (side : Side) : Config Transcript where
  side := side
  cobs := .standard
  maxFrame := 8
  maxMessage := 4
  sealMessage _ seq message := some (UInt8.ofNat seq :: message)

def smallCodec : Codec where
  encodeHello hello := .ok [UInt8.ofNat hello.crypto]
  decodeHello bytes := .ok ⟨0, bytes.length⟩
  recipient bytes := bytes.head?.map UInt8.toNat

/-- A thread goes on, with an adapter that accepts everything in time. -/
def advance (t : ℕ) : Outbound.Action Transcript :=
  .advance t 9 ⟨0, true, .ok (), [⟨0, true, .ok 9⟩], 0, true, .ok (), 0⟩

/-- A turn that reads all there is. -/
def reads : Turn := ⟨0, true, .ok (), .ok 9⟩

/-- A client connects, receives a message, and then a frame that is no packet. -/
def badFrame : List Client.Action :=
  [.own (.connect ⟨0, 5⟩ 50), .handle (advance 0), .handle (advance 0), .handle (advance 0),
    .handle (advance 0), .own .go, .handle (advance 0), .handle (advance 0), .handle (advance 0),
    .handle (advance 0), .own .go, .own (.turn reads), .own (.turn reads), .own (.turn reads),
    .own (.answer (.ok (⟨1, 2⟩, ⟨3⟩, [4]))), .handle (advance 0), .handle (advance 0),
    .handle (advance 0), .handle (advance 0), .own .go, .handle (advance 0), .handle (advance 0),
    .own .go, .own .recv, .own (.turn reads), .own .go, .own .recv, .own (.turn reads),
    .own (.turn reads), .own (.turn reads), .own .go, .handle (advance 0), .handle (advance 0),
    .own .go]

end Runs

end ArkWire.Transport.Integrity
