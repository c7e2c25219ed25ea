import ArkWire.Lib.Machines
import ArkWire.Transport.FrameWriter

/-! # Output and session boundaries of one byte stream

`Outbound` shares one frame writer between any number of threads. Three locks are involved: each
session's encryption context has one, the writer lock orders frames, handshakes and session ending,
and the binding lock guards which context may write and receive. A sender seals under its context's
lock and takes the writer lock before it releases that one.

`Pc` is where a thread is between two steps. A step takes or releases a lock, reads or changes the
binding, seals, or calls the frame writer; everything another thread can do in between is a step of
its own. A call of the frame writer is two steps, so that others, the peer among them, can act
between what it put on the stream and its return. The binding lock is only ever held within a step.

A handle whose transport or context was released returns at once and takes no step. Contexts are
numbered in the order of their binding: `bind` allocates a fresh one each time. `log` is ghost. -/

namespace ArkWire.Transport.Outbound

open ArkWire.Lib.Machines
open ArkWire.Transport.Errors ArkWire.Transport.FrameReader ArkWire.Transport.FrameWriter

/-- `Side`. -/
inductive Side where
  | client
  | server
  deriving DecidableEq

/-- The side, the frame format, and what `xhpke::Sender::seal` returns for a key, a sequence number
and a message. `sealMessage` fails only when the context is unusable. -/
structure Config (K : Type) where
  side : Side
  cobs : Cobs
  maxFrame : ℕ
  maxMessage : ℕ
  sealMessage : K → ℕ → Bytes → Option Bytes

/-- `Mutex<xhpke::Sender>`: a sending context and the thread that holds its lock. -/
structure Context (K : Type) where
  key : K
  seq : ℕ
  holder : Option ℕ

/-- A sealed packet: its context, its sequence number and its bytes. -/
structure Packet where
  context : ℕ
  seq : ℕ
  bytes : Bytes
  deriving DecidableEq

/-- The calls that do their work under the writer lock. `finish` is `Outbound::end`. -/
inductive Locked (K : Type) where
  | disconnect (c : ℕ)
  | finish (c : ℕ)
  | bind (key : K)
  | unbind
  | sendReset (deadline : ℕ)
  | sendDropped (limit : Option ℕ)
  | sendPacket (packet : Bytes) (limit : Option ℕ)

inductive Call (K : Type) where
  /-- `Sender::send`. -/
  | send (c : ℕ) (message : Bytes)
  | finishReceive (c : ℕ) (result : Except TransportError Bytes)
  | locked (call : Locked K)

/-- What a call returned. -/
inductive Value where
  | unit
  | sent (result : Except TransportError Unit)
  | received (result : Except TransportError Bytes)
  | bound (c : ℕ)

/-- A call of the frame writer. A notification is for the end of a session, or for a failed frame
of a handshake; it returns the error of a failed frame in place of its own. -/
inductive Job where
  | packet (p : Packet)
  | notification (c : Option ℕ) (error : Option TransportError)
  | reset
  | dropped
  | unsealed (bytes : Bytes)

def Job.send : Job → Send
  | .packet p => .packet p.bytes
  | .notification _ _ => .dropped
  | .reset => .reset
  | .dropped => .dropped
  | .unsealed bytes => .packet bytes

/-- Where a thread is. -/
inductive Pc (K : Type) where
  | idle (last : Value)
  /-- Waits for the encryption lock. -/
  | lockContext (c : ℕ) (message : Bytes)
  | sealing (c : ℕ) (message : Bytes)
  /-- In `refuse_oversized`. -/
  | refuse (c size : ℕ)
  /-- Waits for the writer lock with a sealed packet, holding the encryption lock. -/
  | lockWriter (p : Packet)
  | unlockContext (p : Packet)
  /-- In `Writer::send`, to check the binding. -/
  | check (p : Packet)
  /-- The write failed: to end the session. -/
  | failed (p : Packet) (deadline : ℕ) (error : TransportError)
  | waitWriter (call : Locked K)
  | holdWriter (call : Locked K)
  /-- To call the frame writer. -/
  | output (job : Job) (limit : Option ℕ)
  | returning (job : Job) (deadline : ℕ) (result : Option (Except TransportError Unit))

/-- Why a binding was removed. -/
inductive Cause where
  | replaced
  | unbound
  | finished
  | failed
  | disconnected
  deriving DecidableEq

/-- What happened, in order. -/
inductive Event where
  | bound (c : ℕ)
  | removed (c : ℕ) (cause : Cause)
  | sealed (p : Packet) (message : Bytes)
  | oversized (c : ℕ)
  /-- A sealed packet was refused as its session had ended. -/
  | refused (p : Packet)
  /-- A call of the frame writer had these bytes accepted. -/
  | wrote (job : Job) (bytes : Bytes)
  /-- A `Sender::send` returned `Ok`. -/
  | sent (p : Packet)
  | failed (p : Packet)
  /-- A `finish_receive`, and whether it returned `Ok`. -/
  | received (c : ℕ) (accepted : Bool)

/-- `Outbound` and the threads that use it. -/
structure State (K : Type) where
  framer : Writer
  writer : Option ℕ := none
  binding : Option ℕ := none
  contexts : List (Context K) := []
  threads : ℕ → Pc K := fun _ => .idle .unit
  log : List Event := []

/-- A panic of `Sender::send`, after which the transport is unusable. -/
inductive Panic where
  | encryptionFailed

/-- One step: a thread that is idle begins a call, or a thread in a call goes on. `budget` is the
deadline `deadline_after` returns, and `output` what the adapter does. -/
inductive Action (K : Type) where
  | call (t : ℕ) (call : Call K)
  | advance (t : ℕ) (budget : ℕ) (output : Output)

variable {K : Type}

/-- The error of a send or receive without a current session. -/
def sessionEnded : TransportError := .encryptionFailed "session ended"

/-- Whether `notify_failure` sends a notification. -/
def notifies (side : Side) : TransportError → Bool
  | .sendFailed error => side = .server ∧ error.kind ≠ .timedOut
  | _ => side = .server

/-- The deadline of a frame: a notification of a failed frame gets what is left of that one's. -/
def deadlineOf (job : Job) (limit : Option ℕ) (budget : ℕ) : ℕ :=
  match job, limit with
  | .notification _ (some _), some deadline => deadline
  | _, some limit => min limit budget
  | _, none => budget

namespace State

def goto (s : State K) (t : ℕ) (pc : Pc K) : State K :=
  { s with threads := Function.update s.threads t pc }

def logged (s : State K) (e : Event) : State K := { s with log := s.log ++ [e] }

/-- A thread returns and releases the writer lock. -/
def unlock (s : State K) (t : ℕ) (value : Value) : State K :=
  { s with writer := none }.goto t (.idle value)

/-- Changes one context. -/
def modify (s : State K) (c : ℕ) (f : Context K → Context K) : State K :=
  { s with contexts := s.contexts.modify c f }

/-- `Writer::unbind`, and the removal part of `Writer::bind`. -/
def remove (s : State K) (cause : Cause) : State K :=
  match s.binding with
  | some c => { s with binding := none }.logged (.removed c cause)
  | none => s

/-- `Writer::bind` of a fresh context. -/
def bind (s : State K) (key : K) : State K :=
  let c := s.contexts.length
  { s.remove .replaced with
    contexts := s.contexts ++ [Context.mk key 0 none]
    binding := some c }.logged (.bound c)

/-- `finish_receive`. -/
def finishReceive (s : State K) (c : ℕ) (result : Except TransportError Bytes) :
    Except TransportError Bytes :=
  if s.binding = some c then result else .error sessionEnded

/-- A `finish_receive` returns. -/
def received (s : State K) (t c : ℕ) (result : Except TransportError Bytes) : State K :=
  (s.goto t (.idle (.received result))).logged (.received c result.isOk)

/-- A call begins. -/
def begin (s : State K) (t : ℕ) : Call K → Outcome Panic (State K)
  | .send c message =>
    if c < s.contexts.length then .next (s.goto t (.lockContext c message)) else .blocked
  | .finishReceive c result => .next (s.received t c (s.finishReceive c result))
  | .locked call => .next (s.goto t (.waitWriter call))

/-- The frame writer is called. -/
def output (cfg : Config K) (s : State K) (t : ℕ) (job : Job) (deadline : ℕ) (o : Output) :
    State K :=
  let (framer, result) := s.framer.call cfg.cobs cfg.maxFrame ⟨job.send, deadline, o⟩
  let bytes := framer.accepted.drop s.framer.accepted.length
  ({ s with framer }.logged (.wrote job bytes)).goto t (.returning job deadline result)

/-- The frame writer has returned. -/
def returned (cfg : Config K) (s : State K) (t : ℕ) (deadline : ℕ)
    (result : Except TransportError Unit) : Job → State K
  | .packet p =>
    match result with
    | .ok _ => (s.logged (.sent p)).unlock t (.sent result)
    | .error error => (s.logged (.failed p)).goto t (.failed p deadline error)
  | .notification _ error => s.unlock t (.sent (error.elim result .error))
  | .reset => s.unlock t (.sent result)
  | .dropped => s.unlock t (.sent result)
  | .unsealed _ =>
    match result with
    | .error (.sendFailed error) =>
      if notifies cfg.side (.sendFailed error) then
        s.goto t (.output (.notification none (some (.sendFailed error))) (some deadline))
      else s.unlock t (.sent result)
    | _ => s.unlock t (.sent result)

/-- The work of a call under the writer lock. -/
def locked (cfg : Config K) (s : State K) (t : ℕ) : Locked K → State K
  | .disconnect c =>
    if s.binding = some c then
      if cfg.side = .server then
        (s.remove .disconnected).goto t (.output (.notification (some c) none) none)
      else (s.remove .disconnected).unlock t (.sent (.ok ()))
    else s.unlock t (.sent (.ok ()))
  | .finish c =>
    if s.binding = some c then (s.remove .finished).unlock t .unit else s.unlock t .unit
  | .bind key => (s.bind key).unlock t (.bound s.contexts.length)
  | .unbind => (s.remove .unbound).unlock t .unit
  | .sendReset deadline => (s.remove .unbound).goto t (.output .reset (some deadline))
  | .sendDropped limit => (s.remove .unbound).goto t (.output .dropped limit)
  | .sendPacket packet limit => s.goto t (.output (.unsealed packet) limit)

/-- A thread in a call goes on. -/
def advance (cfg : Config K) (s : State K) (t budget : ℕ) (o : Output) :
    Pc K → Outcome Panic (State K)
  | .idle _ => .blocked
  | .lockContext c message =>
    match s.contexts[c]? with
    | some ⟨_, _, none⟩ =>
      .next ((s.modify c ({ · with holder := some t })).goto t (.sealing c message))
    | _ => .blocked
  | .sealing c message =>
    match s.contexts[c]? with
    | none => .blocked
    | some context =>
      if cfg.maxMessage < message.length then .next (s.goto t (.refuse c message.length))
      else
        match cfg.sealMessage context.key context.seq message with
        | none => .panic .encryptionFailed
        | some bytes =>
          let p : Packet := ⟨c, context.seq, bytes⟩
          .next (((s.modify c ({ · with seq := context.seq + 1 })).logged
            (.sealed p message)).goto t (.lockWriter p))
  | .refuse c size =>
    let error := if s.binding = some c then .packetTooLarge size else sessionEnded
    .next (((s.modify c ({ · with holder := none })).logged (.oversized c)).goto t
      (.idle (.sent (.error error))))
  | .lockWriter p =>
    if s.writer = none then .next ({ s with writer := some t }.goto t (.unlockContext p))
    else .blocked
  | .unlockContext p =>
    .next ((s.modify p.context ({ · with holder := none })).goto t (.check p))
  | .check p =>
    if s.binding = some p.context then .next (s.goto t (.output (.packet p) none))
    else .next ((s.logged (.refused p)).unlock t (.sent (.error sessionEnded)))
  | .failed p deadline error =>
    if s.binding = some p.context then
      if notifies cfg.side error then
        .next ((s.remove .failed).goto t
          (.output (.notification (some p.context) (some error)) (some deadline)))
      else .next ((s.remove .failed).unlock t (.sent (.error error)))
    else .next (s.unlock t (.sent (.error error)))
  | .waitWriter call =>
    if s.writer = none then .next ({ s with writer := some t }.goto t (.holdWriter call))
    else .blocked
  | .holdWriter call => .next (s.locked cfg t call)
  | .output job limit => .next (s.output cfg t job (deadlineOf job limit budget) o)
  | .returning _ _ none => .blocked
  | .returning job deadline (some result) => .next (s.returned cfg t deadline result job)

def step (cfg : Config K) (s : State K) : Action K → Outcome Panic (State K)
  | .call t call =>
    match s.threads t with
    | .idle _ => s.begin t call
    | _ => .blocked
  | .advance t budget o => s.advance cfg t budget o (s.threads t)

end State

theorem binding_remove (s : State K) (cause : Cause) : (s.remove cause).binding = none := by
  unfold State.remove
  split
  · rfl
  · assumption

theorem threads_goto (s : State K) (t : ℕ) (pc : Pc K) : (s.goto t pc).threads t = pc :=
  Function.update_self ..

theorem threads_unlock (s : State K) (t : ℕ) (value : Value) :
    (s.unlock t value).threads t = .idle value :=
  Function.update_self ..

theorem threads_received (s : State K) (t c : ℕ) (result : Except TransportError Bytes) :
    (s.received t c result).threads t = .idle (.received result) :=
  Function.update_self ..

/-- **The threads of an outbound transport**, in any interleaving. -/
def outbound (cfg : Config K) (framer : Writer) : Machine (State K) (Action K) Panic where
  init := { framer }
  step := State.step cfg

/-! ### A small configuration -/

/-- Frames of at most eight bytes, messages of at most four, and a cipher that puts the key and the
sequence number in front. -/
def toyConfig (side : Side) : Config UInt8 where
  side := side
  cobs := .standard
  maxFrame := 8
  maxMessage := 4
  sealMessage key seq message := some (key :: UInt8.ofNat seq :: message)

/-- A thread goes on, with an adapter that accepts everything in time. -/
def step (t : ℕ) : Action UInt8 :=
  .advance t 9 ⟨0, true, .ok (), [⟨0, true, .ok 9⟩], 0, true, .ok (), 0⟩

end ArkWire.Transport.Outbound
