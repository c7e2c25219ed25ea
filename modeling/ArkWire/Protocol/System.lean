import ArkWire.Protocol.Session
import ArkWire.Lib.Machines

/-! # A session with its threads

`Sys` is a session together with what its threads hold between two critical sections: responders of
requests taken by `recv`, an envelope `recv` has taken and not decoded, automatic replies on their
way into the queue, threads that have an error to close the session with, queues of a closed session
not dropped yet, and the message in the writer's hands. One `Action` is one critical section, or one
access to a promise's channel or to the byte counter; every clock reading and every result of the
transport is part of the action. All orders of actions are allowed, which includes every
interleaving of the session's worker and application threads.

A handle whose session is already dropped does what it does on a closed one: nothing. -/

namespace ArkWire.Protocol.System

open ArkWire.Lib.Machines
open ArkWire.Transport.Errors ArkWire.Protocol.Errors ArkWire.Protocol.Envelope
open ArkWire.Protocol.Promise ArkWire.Protocol.Operation ArkWire.Protocol.Session

variable {M : Type}

/-- The `UNANSWERED` error of `reply_unanswered`. -/
def unansweredError : SchemaError := .reserved .unanswered "request left unanswered"

/-- The `UNKNOWN` error of `reply_unknown`. -/
def unknownError : SchemaError := .reserved .unknown "request not known"

/-- An automatic reply in progress: before `autoreply` has fixed its deadline, and after. -/
structure Autoreply where
  id : ℕ
  error : SchemaError
  deadline : Option ℕ
  deriving DecidableEq, Repr

/-- A thread that is about to close the session with this error. A failed `recv` also holds the
responder of the request, which it drops afterwards. -/
structure OwedClose where
  error : Error
  responder : Option ℕ
  deriving DecidableEq, Repr

/-- Where `run_writer` is. -/
inductive Writer (M : Type) where
  /-- About to call `next_outgoing`. -/
  | idle
  /-- Holds a message under its wire ID, to be encoded and sent. -/
  | holding (id : ℕ) (message : OutgoingMessage M)
  /-- The encoding was refused. -/
  | refused (id : ℕ) (message : OutgoingMessage M) (error : EncodeError)
  /-- About to report a write result. -/
  | reporting (key : ℕ) (result : Except Error Unit)
  /-- The transport failed; about to close the session. -/
  | failed (error : TransportError)
  | stopped

/-- A message given to the transport: its encoding, and what it encodes. -/
structure Sent (M : Type) where
  id : ℕ
  message : OutgoingMessage M
  bytes : Bytes

/-- A session and its threads. `outbox` lists the messages given to the transport. -/
structure Sys (M : Type) where
  session : SessionInner M
  responders : List ℕ
  receiving : Option (ℕ × IncomingEnvelope)
  autoreplies : List Autoreply
  owed : List OwedClose
  discarded : List IncomingEnvelope
  writer : Writer M
  outbox : List (Sent M)

/-- A fresh session. -/
def Sys.new (side : Side) : Sys M where
  session := .new side
  responders := []
  receiving := none
  autoreplies := []
  owed := []
  discarded := []
  writer := .idle
  outbox := []

/-- One step of some thread. -/
inductive Action (M : Type) where
  /-- `Requester::request`. -/
  | request (message : M) (deadline now : ℕ)
  /-- `Responder::reply` or `Responder::fail`. -/
  | respond (id : ℕ) (result : Except SchemaError M) (deadline now : ℕ)
  /-- A responder is dropped unanswered. -/
  | dropResponder (id : ℕ)
  /-- `recv` takes the next request from the queue. -/
  | recv
  /-- `recv` decodes the request it has taken. -/
  | decode
  /-- `autoreply` reads the clock and the timeout. -/
  | autoreplyTimeout (i : ℕ) (now : ℕ)
  /-- `autoreply` queues its reply. -/
  | autoreplyQueue (i : ℕ) (now : ℕ)
  /-- The reader hands a message to `handle_message`. -/
  | message (bytes : Bytes) (now : ℕ)
  /-- The reader or the server closes the session after a transport failure or a replacement. -/
  | lost (error : TransportError) (now : ℕ)
  /-- `Session::close`, a closer, or the owner dropped. -/
  | close (now : ℕ)
  /-- A thread closes the session with the error it found. -/
  | closeOwed (i : ℕ) (now : ℕ)
  /-- The next envelope of a closed session's queue is dropped. -/
  | discard
  | setInboundLimits (requests bytes : ℕ) (now : ℕ)
  | setAutoreplyTimeout (timeout : ℕ)
  /-- The deadline worker, or a promise about to wait. -/
  | expire (now : ℕ)
  /-- The writer in `next_outgoing`. -/
  | pickup (now : ℕ)
  /-- The writer encodes and sends what it holds. A failed send may still have delivered it. -/
  | send (result : Except TransportError Unit) (delivered : Bool)
  /-- The writer withdraws a request that was not sent. -/
  | withdraw
  /-- The writer reports a write result. -/
  | report (now : ℕ)
  /-- The writer closes the session after a transport failure. -/
  | fail (now : ℕ)
  /-- `Promise::notify`. -/
  | notify (c : ℕ) (callback : ℕ)
  /-- A settling thread runs a callback it has taken. -/
  | callback
  /-- `Promise::drop` clears the hook. -/
  | dropPromise (c : ℕ)
  /-- The channel's receiver is dropped with what it buffers. -/
  | dropReceiver (c : ℕ)
  /-- `Promise::wait` takes the result from the channel. -/
  | wait (c : ℕ)
  /-- `Promise::wait` decodes the result it has taken. -/
  | read (c : ℕ)

/-- The outcomes of a step of a session. -/
abbrev Result (M : Type) := Outcome Panic (Sys M)

namespace Sys

/-- Sets the session of a system. -/
def withSession (s : Sys M) (session : SessionInner M) : Sys M := { s with session := session }

/-- Changes what the session shares with others. -/
def withShared (s : Sys M) (w : Shared) : Sys M :=
  { s with session := { s.session with shared := w } }

/-- Appends to the ghost log. -/
def logged (s : Sys M) (e : Event M) : Sys M :=
  { s with session := { s.session with log := s.session.log ++ [e] } }

/-- After `State::close`, the caller drops the removed queues outside the lock. -/
def finishClose (s : Sys M) (removed : SessionInner M × Option (OpenState M)) : Sys M :=
  { s with
    session := removed.1
    discarded := s.discarded ++ (removed.2.elim [] fun o => o.incoming.map Prod.snd) }

/-- `SessionInner::close`. -/
def close (s : Sys M) (error : Error) (now : ℕ) : Sys M :=
  s.finishClose (s.session.close error now)

/-- A thread enters `autoreply`. -/
def enterAutoreply (s : Sys M) (id : ℕ) (error : SchemaError) : Sys M :=
  { s with autoreplies := s.autoreplies ++ [⟨id, error, none⟩] }

/-- `IncomingEnvelope::decode` of a request taken by `recv`. The charge is released first. A
malformed body closes the session before the responder is dropped. -/
def decodeRequest (codec : Codec M) (s : Sys M) (id : ℕ) (message : IncomingEnvelope) : Sys M :=
  let s := { s.withShared (s.session.shared.release message) with receiving := none }
  match codec.decode s.session.side message.bytes with
  | some (_, .ok body) => { s.logged (.received id body) with responders := s.responders ++ [id] }
  -- a request with an error body never gets here, its header being refused by the reader
  | some (_, .error _) => s.enterAutoreply id unansweredError
  | none => { s with owed := s.owed ++ [⟨.malformed, some id⟩] }

/-- The result `Promise::wait` returns, after decoding a response. -/
def readResult (codec : Codec M) (s : Sys M) (c : ℕ) (response : Bool)
    (result : Except Error PromiseResult) : Result M :=
  let s' := s.withShared (s.session.shared.modify c fun ch => { ch with holder := .gone })
  match result with
  | .error _ => .next s'
  | .ok (.response message) =>
    if response then
      let s' := s'.withShared (s'.session.shared.release message)
      match codec.decode s'.session.side message.bytes with
      | some _ => .next s'
      | none => .next { s' with owed := s'.owed ++ [⟨.malformed, none⟩] }
    else .panic .replyResponded
  | .ok .written => if response then .panic .requestWritten else .next s'

/-- Queues an automatic reply, whose promise is dropped by the thread afterwards. -/
def queueAutoreply (s : Sys M) (reply : Autoreply) (deadline now : ℕ) : Sys M :=
  match s.session.reply reply.id (.error reply.error) deadline now with
  | .error _ => s
  | .ok session => (s.withSession session).logged (.replied reply.id (.error reply.error) true)

/-- The actions of the application on requests, replies and received requests. -/
def submitStep (codec : Codec M) (s : Sys M) : Action M → Result M
  | .request message deadline now =>
    match s.session.request message deadline now with
    | .error _ => .next s
    | .ok session => .next (s.withSession session)
  | .respond id result deadline now =>
    if id ∈ s.responders then
      let s := { s with responders := s.responders.erase id }
      match s.session.reply id result deadline now with
      -- a refused responder is dropped and finds the session closed again
      | .error _ => .next (s.enterAutoreply id unansweredError)
      | .ok session => .next ((s.withSession session).logged (.replied id result false))
    else .blocked
  | .dropResponder id =>
    if id ∈ s.responders then
      .next ({ s with responders := s.responders.erase id }.enterAutoreply id unansweredError)
    else .blocked
  | .recv =>
    if s.receiving.isSome then .blocked
    else
      match s.session.takeIncoming with
      | none => .blocked
      | some (session, taken) => .next { s.withSession session with receiving := some taken }
  | .decode =>
    match s.receiving with
    | none => .blocked
    | some (id, message) => .next (s.decodeRequest codec id message)
  | .autoreplyTimeout i now =>
    match s.autoreplies[i]? with
    | some ⟨id, error, none⟩ =>
      match s.session.autoreplyTimeout with
      | none => .next { s with autoreplies := s.autoreplies.eraseIdx i }
      | some timeout => .next { s with
          autoreplies := s.autoreplies.eraseIdx i ++
            [⟨id, error, some (deadlineAfter now timeout)⟩] }
    | _ => .blocked
  | .autoreplyQueue i now =>
    match s.autoreplies[i]? with
    | some ⟨id, error, some deadline⟩ =>
      .next ({ s with autoreplies := s.autoreplies.eraseIdx i }.queueAutoreply
        ⟨id, error, some deadline⟩ deadline now)
    | _ => .blocked
  | _ => .blocked

/-- The actions of the reader, of closers and of the policy setters. -/
def readerStep (codec : Codec M) (s : Sys M) : Action M → Result M
  | .message bytes now =>
    match s.session.handleMessage codec bytes now with
    | .error panic => .panic panic
    | .ok (session, .error error) =>
      .next { s.withSession session with owed := s.owed ++ [⟨error, none⟩] }
    | .ok (session, .ok none) => .next (s.withSession session)
    | .ok (session, .ok (some id)) =>
      .next ((s.withSession session).enterAutoreply id unknownError)
  | .lost error now => .next (s.close (.transport error) now)
  | .close now => .next (s.close .closed now)
  | .closeOwed i now =>
    match s.owed[i]? with
    | none => .blocked
    | some ⟨error, responder⟩ =>
      let s := { s with owed := s.owed.eraseIdx i }.close error now
      match responder with
      | none => .next s
      | some id => .next (s.enterAutoreply id unansweredError)
  | .discard =>
    match s.discarded with
    | [] => .blocked
    | envelope :: rest =>
      .next { s.withShared (s.session.shared.release envelope) with discarded := rest }
  | .setInboundLimits requests bytes now =>
    .next (s.finishClose (s.session.setInboundLimits requests bytes now))
  | .setAutoreplyTimeout timeout => .next (s.withSession (s.session.setAutoreplyTimeout timeout))
  | .expire now => .next (s.withSession (s.session.expire now))
  | _ => .blocked

/-- The actions of `run_writer`. -/
def writerStep (codec : Codec M) (s : Sys M) : Action M → Result M
  | .pickup now =>
    match s.writer with
    | .idle =>
      match s.session.nextOutgoing now with
      | .error panic => .panic panic
      | .ok (session, .closed) => .next { s.withSession session with writer := .stopped }
      | .ok (session, .again) => .next (s.withSession session)
      | .ok (session, .wait) => .next (s.withSession session)
      | .ok (session, .taken id message) =>
        .next { s.withSession session with writer := .holding id message }
    | _ => .blocked
  | .send result delivered =>
    match s.writer with
    | .holding id message =>
      match codec.encode s.session.side id message.body.result with
      | .error error => .next { s with writer := .refused id message error }
      | .ok bytes =>
        match result with
        | .ok _ => .next { s with
            writer := .reporting message.key (.ok ())
            outbox := s.outbox ++ [⟨id, message, bytes⟩] }
        | .error error => .next { s with
            writer := .failed error
            outbox := if delivered then s.outbox ++ [⟨id, message, bytes⟩] else s.outbox }
    | _ => .blocked
  | .withdraw =>
    match s.writer with
    | .refused id message error =>
      let session := if message.body.isRequest then s.session.withdraw id else s.session
      .next { s.withSession session with writer := .reporting message.key (.error error.error) }
    | _ => .blocked
  | .report now =>
    match s.writer with
    | .reporting key result =>
      .next { s.withSession (s.session.recordWrite key result now) with writer := .idle }
    | _ => .blocked
  | .fail now =>
    match s.writer with
    | .failed error => .next { s.close (.transport error) now with writer := .stopped }
    | _ => .blocked
  | _ => .blocked

/-- The actions on promises. -/
def promiseStep (codec : Codec M) (s : Sys M) : Action M → Result M
  | .notify c callback =>
    let w := s.session.shared
    let channel := w.channels c
    if c < w.nextChannel ∧ channel.holder = .caller then
      if channel.registered then .panic .notifiedTwice
      else if channel.done then
        .next (s.withShared { w.modify c (fun ch => { ch with registered := true }) with
          callbacks := w.callbacks ++ [callback] })
      else
        .next (s.withShared (w.modify c fun ch =>
          { ch with registered := true, hook := some callback }))
    else .blocked
  | .callback =>
    let w := s.session.shared
    match w.callbacks with
    | [] => .blocked
    | _ :: rest => .next (s.withShared { w with callbacks := rest })
  | .dropPromise c =>
    let w := s.session.shared
    if c < w.nextChannel ∧ (w.channels c).holder = .caller then
      .next (s.withShared (w.modify c fun ch => { ch with holder := .dropping, hook := none }))
    else .blocked
  | .dropReceiver c =>
    let w := s.session.shared
    if c < w.nextChannel ∧ (w.channels c).holder = .dropping then
      let released := (w.channels c).buffer.elim w w.releaseResult
      .next (s.withShared (released.modify c fun ch =>
        { ch with holder := .gone, receiver := false, buffer := none }))
    else .blocked
  | .wait c =>
    let w := s.session.shared
    let channel := w.channels c
    if c < w.nextChannel ∧ channel.holder = .caller then
      match channel.buffer with
      | some result =>
        .next (s.withShared (w.modify c fun ch =>
          { ch with holder := .taken result, receiver := false, buffer := none, hook := none }))
      | none =>
        -- the channel is disconnected once no operation holds its sender
        match s.session.state with
        | .closed _ => .panic .senderReleased
        | .opened o =>
          if o.operations.entries.any fun e => e.2.sender.channel = c then .blocked
          else .panic .senderReleased
    else .blocked
  | .read c =>
    let channel := s.session.shared.channels c
    if c < s.session.shared.nextChannel then
      match channel.holder with
      | .taken result => s.readResult codec c channel.response result
      | _ => .blocked
    else .blocked
  | _ => .blocked

/-- **One step of a session and its threads.** -/
def step (codec : Codec M) (s : Sys M) (a : Action M) : Result M :=
  match a with
  | .request .. | .respond .. | .dropResponder _ | .recv | .decode | .autoreplyTimeout ..
  | .autoreplyQueue .. => s.submitStep codec a
  | .message .. | .lost .. | .close _ | .closeOwed .. | .discard | .setInboundLimits ..
  | .setAutoreplyTimeout _ | .expire _ => s.readerStep codec a
  | .pickup _ | .send .. | .withdraw | .report _ | .fail _ => s.writerStep codec a
  | .notify .. | .callback | .dropPromise _ | .dropReceiver _ | .wait _ | .read _ =>
    s.promiseStep codec a

end Sys

/-- The machine of one session of a side, against an arbitrary peer. -/
def machine (codec : Codec M) (side : Side) : Machine (Sys M) (Action M) Panic where
  init := .new side
  step := Sys.step codec

/-- A codec of one-byte messages to run sessions with: the ID, whether the body is an error, and the
message or which of the two automatic errors it is. -/
def tinyCodec : Codec UInt8 where
  decodeHeader _ bytes :=
    match bytes with
    | [id, 0, _] => some ⟨id.toNat, false, none, false⟩
    | [id, 1, _] => some ⟨id.toNat, true, none, false⟩
    | _ => none
  encode _ id body :=
    if 256 ≤ id then .error (.tooLarge id)
    else
      match body with
      | .ok message => .ok [UInt8.ofNat id, 0, message]
      | .error error =>
        if error = unansweredError then .ok [UInt8.ofNat id, 1, 0]
        else if error = unknownError then .ok [UInt8.ofNat id, 1, 1]
        else .error (.tooLarge error.msg.length)
  decode _ bytes :=
    match bytes with
    | [id, 0, message] => some (id.toNat, .ok message)
    | [id, 1, 0] => some (id.toNat, .error unansweredError)
    | [id, 1, 1] => some (id.toNat, .error unknownError)
    | _ => none

end ArkWire.Protocol.System
