import ArkWire.Transport.Endpoint

/-! # The server

`Server::recv` with its handshake, and `Server::disconnect`, as a program of the owner. `Stage` is
where the owner is between two of its steps, as for the client.

`seals` is what generating the keys of an exchange and sealing its ArkHello gives, `opened` what
opening a HostAck gives, and `returned` is ghost. -/

namespace ArkWire.Transport

open ArkWire.Lib.Machines
open ArkWire.Transport.Errors ArkWire.Transport.FrameReader ArkWire.Transport.FrameWriter
open ArkWire.Transport.Outbound ArkWire.Transport.Endpoint

namespace Server

/-- What follows when the session is ended or the client was notified. -/
inductive Then where
  | disconnected
  /-- The loop of `recv` goes on. -/
  | again
  /-- `disconnect` returns. -/
  | done
  deriving DecidableEq

/-- Where the owner is. -/
inductive Stage where
  | idle
  /-- At the top of the loop of `recv`. -/
  | top
  /-- In `recv`, reading. -/
  | read (phase : Phase)
  /-- To finish a receive. -/
  | accept (c : ℕ) (opened : Except TransportError Bytes)
  /-- In `end_session`; `drop` says that a notification follows. -/
  | ending (drop : Bool) (next : Then)
  /-- In `send_dropped`. -/
  | dropping (next : Then)
  /-- In `unbind`, at the start of `handshake`. -/
  | unbind (deadline : ℕ)
  /-- Reading the HostHello. -/
  | hello (deadline : ℕ) (phase : Phase)
  /-- To set up and seal the ArkHello. -/
  | greet (deadline : ℕ) (hello : HostHello)
  /-- In `send_packet` of the ArkHello. -/
  | send (deadline : ℕ) (hello : HostHello) (ark : ArkHello) (bytes : Bytes)
  /-- Reading the HostAck. -/
  | ack (deadline : ℕ) (hello : HostHello) (ark : ArkHello) (phase : Phase)
  /-- To open the HostAck. -/
  | answer (deadline : ℕ) (hello : HostHello) (ark : ArkHello) (packet : Bytes)
  /-- In `new_session`. -/
  | bind (key : Transcript)
  /-- In `send_dropped` after a failed handshake. -/
  | failed (deadline : ℕ)

/-- What `recv` returned, and `left` where `disconnect` returned. -/
inductive Returned where
  | connected (c : ℕ)
  | message (message : Bytes)
  | disconnected
  | failed (error : TransportError)
  | left

end Server

structure Server where
  out : State Transcript
  inbox : Inbox
  sealer : Option ℕ := none
  handshakeDeadline : Option ℕ := none
  stage : Server.Stage := .idle
  returned : List Server.Returned := []

namespace Server

/-- What moves the owner. `now` is the clock where the source reads it. -/
inductive Input where
  | recv
  | disconnect
  | turn (t : Turn) (deadline : ℕ)
  | seals (result : Except TransportError (ArkHello × Bytes))
  | opened (result : Except TransportError HostAck)
  | go (now : ℕ)

def returns (s : Server) (result : Returned) : Server :=
  { s with stage := .idle, returned := s.returned ++ [result] }

def follow (s : Server) : Then → Server
  | .disconnected => s.returns .disconnected
  | .again => { s with stage := .top }
  | .done => s.returns .left

/-- `send_dropped`. -/
def dropped (s : Server) (next : Then) : Server :=
  { s with out := calls s.out (.sendDropped none), stage := .dropping next }

/-- The contexts are released. -/
def released (s : Server) (drop : Bool) (next : Then) : Server :=
  let s := { s with inbox := s.inbox.close, sealer := none }
  if drop then s.dropped next else s.follow next

/-- `end_session`, and what follows it. -/
def endSession (s : Server) (drop : Bool) (next : Then) : Server :=
  match s.sealer with
  | some c => { s with out := calls s.out (.finish c), stage := .ending drop next }
  | none => s.released drop next

/-- `Disconnected` is returned if there was a session. -/
def ended (s : Server) : Then := if s.inbox.receiver.isSome then .disconnected else .again

/-- The top of the loop of `recv`. -/
def loop (s : Server) : Server :=
  match s.handshakeDeadline with
  | some deadline =>
    { s with
      handshakeDeadline := none, out := calls s.out .unbind, stage := .unbind deadline }
  | none => { s with stage := .read .search }

/-- A failed handshake: failures of the stream are returned, others are answered and skipped. -/
def abandon (s : Server) (deadline : ℕ) : TransportError → Server
  | .terminated => s.returns (.failed .terminated)
  | .recvFailed error => s.returns (.failed (.recvFailed error))
  | .sendFailed error => s.returns (.failed (.sendFailed error))
  | _ => { s with out := calls s.out (.sendDropped (some deadline)), stage := .failed deadline }

/-- A frame, or a failure of the input, comes in the loop of `recv`. -/
def heard (opens : Opens) (s : Server) (deadline : ℕ) :
    Except TransportError (Option Bytes) → Outcome Fault Server
  | .error .terminated => .next (s.returns (.failed .terminated))
  | .error (.recvFailed error) => .next (s.returns (.failed (.recvFailed error)))
  | .error _ => .next ({ s with inbox := s.inbox.mark .broken }.endSession true s.ended)
  | .ok none =>
    .next ({ s with
      handshakeDeadline := some deadline, inbox := s.inbox.mark .broken }.endSession false s.ended)
  | .ok (some packet) =>
    match s.inbox.receiver, s.sealer with
    | none, _ => .next (s.dropped .again)
    | some rx, some c =>
      let (inbox, opened) := s.inbox.openPacket opens rx packet
      .next { s with inbox, stage := .accept c opened }
    | some _, none => .panic .missingContext

/-- `finish_receive` returns. -/
def accepted (s : Server) (opened : Except TransportError Bytes) :
    Except TransportError Bytes → Server
  | .ok message => { s with inbox := s.inbox.deliver message }.returns (.message message)
  | .error _ =>
    match opened with
    | .ok _ => { s with inbox := s.inbox.mark (.left .unbound) }.endSession true .disconnected
    | .error _ => s.endSession true .disconnected

/-- A frame comes in place of the HostHello. -/
def greeted (codec : Codec) (s : Server) (deadline : ℕ) :
    Except TransportError (Option Bytes) → Server
  | .error error => s.abandon deadline error
  | .ok none => { s with stage := .hello deadline .search }
  | .ok (some packet) =>
    match codec.decodeHello packet with
    | .ok hello => { s with stage := .greet deadline hello }
    | .error reason => s.abandon deadline (.handshakeFailed ("invalid client hello: " ++ reason))

/-- A frame comes in place of the HostAck: an empty one restarts the exchange. -/
def acked (s : Server) (deadline : ℕ) (hello : HostHello) (ark : ArkHello) :
    Except TransportError (Option Bytes) → Server
  | .error error => s.abandon deadline error
  | .ok none => { s with stage := .hello deadline .search }
  | .ok (some packet) => { s with stage := .answer deadline hello ark packet }

/-- The owner goes on, where its last call of the outbound transport returned `value`. -/
def resume (cfg : Config Transcript) (codec : Codec) (opens : Opens) (s : Server) (value : Value) :
    Stage → Input → Outcome Fault Server
  | .idle, .recv => .next { s with stage := .top }
  | .idle, .disconnect =>
    .next ({ s with inbox := s.inbox.mark (.left .disconnected) }.endSession true .done)
  | .top, .go _ => .next s.loop
  | .read phase, .turn t deadline =>
    match s.inbox.reader.turn cfg.maxFrame none t phase with
    | .more phase reader => .next { s with inbox := { s.inbox with reader }, stage := .read phase }
    | .done result reader =>
      { s with inbox := { s.inbox with reader } }.heard opens deadline
        (reader.packet cfg.cobs.decode result)
  | .accept c opened, .go _ =>
    let result := s.out.finishReceive c opened
    .next ({ s with out := s.out.received owner c result }.accepted opened result)
  | .ending drop next, .go _ => .next (s.released drop next)
  | .dropping next, .go _ => .next (s.follow next)
  | .unbind deadline, .go _ => .next { s with stage := .hello deadline .search }
  | .hello deadline phase, .turn t _ =>
    match s.inbox.reader.turn cfg.maxFrame (some deadline) t phase with
    | .more phase reader =>
      .next { s with inbox := { s.inbox with reader }, stage := .hello deadline phase }
    | .done result reader =>
      .next ({ s with inbox := { s.inbox with reader } }.greeted codec deadline
        (reader.packet cfg.cobs.decode result))
  | .greet deadline hello, .seals result =>
    match result with
    | .error error => .next (s.abandon deadline error)
    | .ok (ark, bytes) =>
      .next { s with
        out := calls s.out (.sendPacket bytes (some deadline))
        stage := .send deadline hello ark bytes }
  | .send deadline hello ark _, .go _ =>
    match value with
    | .sent (.ok _) => .next { s with stage := .ack deadline hello ark .search }
    | .sent (.error error) => .next (s.abandon deadline error)
    | _ => .blocked
  | .ack deadline hello ark phase, .turn t _ =>
    match s.inbox.reader.turn cfg.maxFrame (some deadline) t phase with
    | .more phase reader =>
      .next { s with inbox := { s.inbox with reader }, stage := .ack deadline hello ark phase }
    | .done result reader =>
      .next ({ s with inbox := { s.inbox with reader } }.acked deadline hello ark
        (reader.packet cfg.cobs.decode result))
  | .answer deadline hello ark _, .opened result =>
    match result with
    | .error error => .next (s.abandon deadline error)
    | .ok ack =>
      .next { s with
        out := calls s.out (.bind ⟨hello, ark, ack⟩), stage := .bind ⟨hello, ark, ack⟩ }
  | .bind key, .go _ =>
    match value with
    | .bound c =>
      .next ({ s with inbox := s.inbox.establish key c, sealer := some c }.returns (.connected c))
    | _ => .blocked
  | .failed deadline, .go now =>
    if deadline ≤ now then .next (s.returns (.failed (.recvFailed deadlineExpired)))
    else .next { s with stage := .top }
  | _, _ => .blocked

/-- A step of the owner, while it is not in a call of the outbound transport. -/
def own (cfg : Config Transcript) (codec : Codec) (opens : Opens) (s : Server) (input : Input) :
    Outcome Fault Server :=
  match s.out.threads owner with
  | .idle value => s.resume cfg codec opens value s.stage input
  | _ => .blocked

/-- The owner moves, another thread or a call of the owner goes on, or bytes arrive. -/
inductive Action where
  | own (input : Input)
  | handle (a : Outbound.Action Transcript)
  | feed (bytes : Bytes)

/-- **A server, its senders and an adapter that delivers any bytes.** -/
def server (cfg : Config Transcript) (codec : Codec) (opens : Opens) (framer : Writer)
    (supply : Bytes) : Machine Server Action Fault where
  init := { out := { framer }, inbox := { reader := .new cfg.maxFrame supply } }
  step s
    | .own input => s.own cfg codec opens input
    | .handle a =>
      match handles cfg s.out a with
      | .next out => .next { s with out }
      | .panic panic => .panic panic
      | .blocked => .blocked
    | .feed bytes => .next { s with inbox := s.inbox.feed bytes }

end Server

end ArkWire.Transport
