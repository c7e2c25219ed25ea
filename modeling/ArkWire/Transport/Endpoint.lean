import ArkWire.Transport.Grammar
import ArkWire.Transport.Outbound

/-! # What a client and a server share

A transport endpoint is one outbound transport, one frame reader and one owner: `Client` and
`Server` are used by a single thread at a time, thread `owner` of the outbound transport. Every
other thread holds `Sender`s, and sends or disconnects through them.

Keys and encapsulations are names. A handshake is named by its transcript, which determines the
sending and the receiving context of both sides. What the CBOR, COSE and HPKE libraries answer is
either a parameter (`Codec`, `Opens`) or part of the owner's input.

`Heard` is ghost: what the receiving side of one session did. -/

namespace ArkWire.Transport.Endpoint

open ArkWire.Lib.Machines
open ArkWire.Transport.Errors ArkWire.Transport.FrameReader ArkWire.Transport.FrameWriter
open ArkWire.Transport.Outbound

/-! ### The handshake messages -/

structure HostHello where
  signer : ℕ
  crypto : ℕ
  deriving DecidableEq, Repr

/-- The attestation is left out: what the verifier makes of it is an input. -/
structure ArkHello where
  crypto : ℕ
  encap : ℕ
  deriving DecidableEq, Repr

structure HostAck where
  encap : ℕ
  deriving DecidableEq, Repr

structure Transcript where
  hello : HostHello
  ark : ArkHello
  ack : HostAck
  deriving DecidableEq, Repr

/-- `cbor::encode` and `cbor::decode` of a `HostHello`, and the key that `cose::recipient` names. -/
structure Codec where
  encodeHello : HostHello → Except String Bytes
  decodeHello : Bytes → Except String HostHello
  recipient : Bytes → Option ℕ

/-- `sealing::open`: the message of a packet in a context at a sequence number. -/
abbrev Opens := Transcript → ℕ → Bytes → Except String Bytes

/-! ### The receiving half -/

/-- `xhpke::Receiver`. -/
structure Receiver where
  key : Transcript
  seq : ℕ

/-- Why a session was left although no bad frame had come. -/
inductive Leave where
  | readFailed
  /-- The binding was gone when a message was to be accepted. -/
  | unbound
  | reconnected
  | disconnected
  deriving DecidableEq

inductive Status where
  | live
  /-- A packet was opened, and its message is not accepted yet. -/
  | opened (message : Bytes)
  /-- A frame was not the next packet. -/
  | broken
  | left (why : Leave)
  deriving DecidableEq

/-- The receiving side of a session: the reader at its start, what has been fed since, and the
messages returned. -/
structure Heard where
  key : Transcript
  context : ℕ
  start : Reader
  fed : Bytes := []
  delivered : List Bytes := []
  status : Status := .live

/-- The reader and the receive context of an endpoint. -/
structure Inbox where
  reader : Reader
  receiver : Option Receiver := none
  current : Option Heard := none
  past : List Heard := []

namespace Inbox

/-- Bytes arrive at the adapter. -/
def feed (b : Inbox) (bytes : Bytes) : Inbox :=
  { b with
    reader := { b.reader with supply := b.reader.supply ++ bytes }
    current := b.current.map fun h => { h with fed := h.fed ++ bytes } }

def mark (b : Inbox) (status : Status) : Inbox :=
  { b with current := b.current.map ({ · with status }) }

/-- The receive context of a new session. -/
def establish (b : Inbox) (key : Transcript) (c : ℕ) : Inbox :=
  { b with
    receiver := some ⟨key, 0⟩
    current := some { key, context := c, start := b.reader }
    past := b.past ++ b.current.toList }

/-- The receive context is released. -/
def close (b : Inbox) : Inbox :=
  { b with receiver := none, current := none, past := b.past ++ b.current.toList }

/-- `sealing::open`. A failed open leaves the sequence unchanged. -/
def openPacket (opens : Opens) (b : Inbox) (rx : Receiver) (packet : Bytes) :
    Inbox × Except TransportError Bytes :=
  match opens rx.key rx.seq packet with
  | .ok message =>
    ({ b with receiver := some { rx with seq := rx.seq + 1 } }.mark (.opened message), .ok message)
  | .error reason => (b.mark .broken, .error (.encryptionFailed reason))

/-- A message is accepted. -/
def deliver (b : Inbox) (message : Bytes) : Inbox :=
  { b with
    current := b.current.map fun h =>
      { h with delivered := h.delivered ++ [message], status := .live } }

end Inbox

/-! ### The owner and the handles -/

/-- The thread of the endpoint's owner. -/
def owner : ℕ := 0

/-- The owner calls the outbound transport. -/
def calls (out : State Transcript) (call : Locked Transcript) : State Transcript :=
  out.goto owner (.waitWriter call)

/-- What other threads can do: begin a `Sender::send` or `Sender::disconnect`. Any thread in a call
goes on. -/
def permitted : Action Transcript → Bool
  | .call t (.send _ _) => t ≠ owner
  | .call t (.locked (.disconnect _)) => t ≠ owner
  | .call _ _ => false
  | .advance _ _ _ => true

/-- A panic of an owner or of a sender. -/
inductive Fault where
  | send (panic : Outbound.Panic)
  /-- "receiver has a sending context". -/
  | missingContext

/-- A step of the outbound transport that is not the beginning of an owner's call. -/
def handles (cfg : Config Transcript) (out : State Transcript) (a : Action Transcript) :
    Outcome Fault (State Transcript) :=
  if permitted a then
    match out.step cfg a with
    | .next out => .next out
    | .panic panic => .panic (.send panic)
    | .blocked => .blocked
  else .blocked

theorem handles_next {cfg : Config Transcript} {o o' : State Transcript}
    {a : Action Transcript} (h : handles cfg o a = .next o') :
    permitted a = true ∧ o.step cfg a = .next o' := by
  unfold handles at h
  split_ifs at h with hp
  refine ⟨hp, ?_⟩
  split at h
  · next hs =>
    cases h
    exact hs
  · cases h
  · cases h

end ArkWire.Transport.Endpoint
