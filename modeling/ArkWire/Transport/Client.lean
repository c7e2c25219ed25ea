import ArkWire.Transport.Endpoint

/-! # The client

`Client::connect` and `Client::recv` as a program of the owner. `Stage` is where the owner is
between two of its steps; a stage that waits for a call of the outbound transport goes on when
thread `owner` is idle again, with what the call returned. Everything other threads and the peer can
do in between is a step of its own: reading a frame is a step for each turn of the reader's loops.

`answer` is what decrypting, verifying and acknowledging an ArkHello gives, and `returned` is
ghost. -/

namespace ArkWire.Transport

open ArkWire.Lib.Machines
open ArkWire.Transport.Errors ArkWire.Transport.FrameReader ArkWire.Transport.FrameWriter
open ArkWire.Transport.Grammar (isIoError)
open ArkWire.Transport.Outbound ArkWire.Transport.Endpoint

namespace Client

/-- Where the owner is. -/
inductive Stage where
  | idle
  /-- In `send_reset`, with the HostHello to send. -/
  | reset (hello : HostHello) (bytes : Bytes) (deadline : ℕ)
  /-- In `send_packet` of the HostHello. -/
  | hello (hello : HostHello) (deadline : ℕ)
  /-- In the loop over stale frames. -/
  | skip (hello : HostHello) (deadline : ℕ) (phase : Phase)
  /-- To open a packet that names this attempt's key. -/
  | answer (hello : HostHello) (deadline : ℕ) (packet : Bytes)
  /-- In `send_packet` of the HostAck. -/
  | ack (key : Transcript) (bytes : Bytes)
  /-- In `new_session`. -/
  | bind (key : Transcript)
  /-- In `recv`, reading. -/
  | read (phase : Phase)
  /-- To finish a receive. -/
  | accept (c : ℕ) (opened : Except TransportError Bytes)
  /-- In `end_session`, to return an error. -/
  | ending (error : TransportError)

/-- What `connect` and `recv` returned. -/
inductive Returned where
  | connected (c : ℕ)
  | message (message : Bytes)
  | failed (error : TransportError)

end Client

structure Client where
  out : State Transcript
  inbox : Inbox
  sealer : Option ℕ := none
  stage : Client.Stage := .idle
  returned : List Client.Returned := []

namespace Client

/-- What moves the owner: a call of the client, a turn of the reader, the outcome of the
cryptography, or nothing but its turn. -/
inductive Input where
  | connect (hello : HostHello) (deadline : ℕ)
  | recv
  | turn (t : Turn)
  | answer (result : Except TransportError (ArkHello × HostAck × Bytes))
  | go

def returns (s : Client) (result : Returned) : Client :=
  { s with stage := .idle, returned := s.returned ++ [result] }

/-- The contexts are released. -/
def released (s : Client) : Client := { s with inbox := s.inbox.close, sealer := none }

/-- `end_session`, and the error to return after it. -/
def endSession (s : Client) (error : TransportError) : Client :=
  match s.sealer with
  | some c => { s with out := calls s.out (.finish c), stage := .ending error }
  | none => s.released.returns (.failed error)

/-- `connect` begins: the old contexts are released and the reset is sent. -/
def connect (codec : Codec) (s : Client) (hello : HostHello) (deadline : ℕ) : Client :=
  let s := { s with inbox := s.inbox.mark (.left .reconnected) }
  match codec.encodeHello hello with
  | .error reason => s.endSession (.handshakeFailed ("failed to encode client hello: " ++ reason))
  | .ok bytes =>
    { s.released with
      out := calls s.out (.sendReset deadline), stage := .reset hello bytes deadline }

/-- A call that returns a result lets the owner go on, or fails the attempt. -/
def sent (s : Client) (result : Except TransportError Unit) (next : Client) : Client :=
  match result with
  | .ok _ => next
  | .error error => s.returns (.failed error)

/-- A frame comes in the loop over stale frames. -/
def skipped (codec : Codec) (s : Client) (hello : HostHello) (deadline : ℕ) :
    Except TransportError (Option Bytes) → Client
  | .ok (some packet) => named s packet
  | .ok none => named s []
  | .error (.frameDecodingFailed _) => named s []
  | .error (.frameTooLarge _) => named s []
  | .error error => s.returns (.failed error)
where
  named (s : Client) (packet : Bytes) : Client :=
    if codec.recipient packet = some hello.crypto then
      { s with stage := .answer hello deadline packet }
    else { s with stage := .skip hello deadline .search }

/-- A frame, or a failure of the input, comes in `recv`. -/
def heard (opens : Opens) (s : Client) : Except TransportError (Option Bytes) → Outcome Fault Client
  | .error error =>
    let status := if isIoError (.error error) then .left .readFailed else .broken
    .next ({ s with inbox := s.inbox.mark status }.endSession error)
  | .ok none => .next ({ s with inbox := s.inbox.mark .broken }.endSession .sessionReset)
  | .ok (some packet) =>
    match s.inbox.receiver, s.sealer with
    | some rx, some c =>
      let (inbox, opened) := s.inbox.openPacket opens rx packet
      .next { s with inbox, stage := .accept c opened }
    | _, _ => .panic .missingContext

/-- `finish_receive` returns. -/
def accepted (s : Client) (opened : Except TransportError Bytes) :
    Except TransportError Bytes → Client
  | .ok message => { s with inbox := s.inbox.deliver message }.returns (.message message)
  | .error error =>
    match opened with
    | .ok _ => { s with inbox := s.inbox.mark (.left .unbound) }.endSession error
    | .error _ => s.endSession error

/-- The owner goes on, where its last call of the outbound transport returned `value`. -/
def resume (cfg : Config Transcript) (codec : Codec) (opens : Opens) (s : Client) (value : Value) :
    Stage → Input → Outcome Fault Client
  | .idle, .connect hello deadline => .next (s.connect codec hello deadline)
  | .idle, .recv =>
    match s.inbox.receiver with
    | none => .next (s.returns (.failed (.encryptionFailed "no active session")))
    | some _ => .next { s with stage := .read .search }
  | .reset hello bytes deadline, .go =>
    match value with
    | .sent result => .next (s.sent result { s with
        out := calls s.out (.sendPacket bytes (some deadline)), stage := .hello hello deadline })
    | _ => .blocked
  | .hello hello deadline, .go =>
    match value with
    | .sent result => .next (s.sent result { s with stage := .skip hello deadline .search })
    | _ => .blocked
  | .skip hello deadline phase, .turn t =>
    match s.inbox.reader.turn cfg.maxFrame (some deadline) t phase with
    | .more phase reader =>
      .next { s with inbox := { s.inbox with reader }, stage := .skip hello deadline phase }
    | .done result reader =>
      .next ({ s with inbox := { s.inbox with reader } }.skipped codec hello deadline
        (reader.packet cfg.cobs.decode result))
  | .answer hello deadline _, .answer result =>
    match result with
    | .error error => .next (s.returns (.failed error))
    | .ok (ark, ack, bytes) =>
      .next { s with
        out := calls s.out (.sendPacket bytes (some deadline))
        stage := .ack ⟨hello, ark, ack⟩ bytes }
  | .ack key _, .go =>
    match value with
    | .sent result =>
      .next (s.sent result { s with out := calls s.out (.bind key), stage := .bind key })
    | _ => .blocked
  | .bind key, .go =>
    match value with
    | .bound c =>
      .next ({ s with inbox := s.inbox.establish key c, sealer := some c }.returns (.connected c))
    | _ => .blocked
  | .read phase, .turn t =>
    match s.inbox.reader.turn cfg.maxFrame none t phase with
    | .more phase reader => .next { s with inbox := { s.inbox with reader }, stage := .read phase }
    | .done result reader =>
      { s with inbox := { s.inbox with reader } }.heard opens (reader.packet cfg.cobs.decode result)
  | .accept c opened, .go =>
    let result := s.out.finishReceive c opened
    .next ({ s with out := s.out.received owner c result }.accepted opened result)
  | .ending error, .go => .next (s.released.returns (.failed error))
  | _, _ => .blocked

/-- A step of the owner, while it is not in a call of the outbound transport. -/
def own (cfg : Config Transcript) (codec : Codec) (opens : Opens) (s : Client) (input : Input) :
    Outcome Fault Client :=
  match s.out.threads owner with
  | .idle value => s.resume cfg codec opens value s.stage input
  | _ => .blocked

/-- The owner moves, another thread or a call of the owner goes on, or bytes arrive. -/
inductive Action where
  | own (input : Input)
  | handle (a : Outbound.Action Transcript)
  | feed (bytes : Bytes)

/-- **A client, its senders and an adapter that delivers any bytes.** -/
def client (cfg : Config Transcript) (codec : Codec) (opens : Opens) (framer : Writer)
    (supply : Bytes) : Machine Client Action Fault where
  init := { out := { framer }, inbox := { reader := .new cfg.maxFrame supply } }
  step s
    | .own input => s.own cfg codec opens input
    | .handle a =>
      match handles cfg s.out a with
      | .next out => .next { s with out }
      | .panic panic => .panic panic
      | .blocked => .blocked
    | .feed bytes => .next { s with inbox := s.inbox.feed bytes }

end Client

end ArkWire.Transport
