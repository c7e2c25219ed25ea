import ArkWire.Transport.Client
import ArkWire.Transport.Server

/-! # A client and a server on two byte streams

What one side has accepted by its adapter is what the other side's adapter has to deliver: two
lossless streams, in order. Each may hold bytes from before the run. Threads, partial writes,
failures, deadlines and the cutting of the reads are those of the two endpoints.

The cryptography is ideal. A packet of a session opens exactly if the peer sealed it in a context of
the same key with that number. A handshake packet opens only if the peer sealed it: an ArkHello for
the hello of this attempt, a HostAck for this exchange. Sealing draws fresh keys, and its result is
not a packet that the stream already holds. `greetings` and `acks` are the handshake packets sealed
so far, and ghost; `place` is the number of frames on the stream before the packet. -/

namespace ArkWire.Transport

open ArkWire.Lib.Machines ArkWire.Lib.Delimited
open ArkWire.Transport.Errors ArkWire.Transport.FrameReader ArkWire.Transport.FrameWriter
open ArkWire.Transport.Outbound ArkWire.Transport.Endpoint

namespace Pair

/-- What the two sides share. -/
structure Setup where
  cobs : Cobs
  maxFrame : ℕ
  maxMessage : ℕ
  codec : Codec
  clientSeal : Transcript → ℕ → Bytes → Option Bytes
  serverSeal : Transcript → ℕ → Bytes → Option Bytes

def Setup.client (u : Setup) : Config Transcript :=
  ⟨.client, u.cobs, u.maxFrame, u.maxMessage, u.clientSeal⟩

def Setup.server (u : Setup) : Config Transcript :=
  ⟨.server, u.cobs, u.maxFrame, u.maxMessage, u.serverSeal⟩

/-- An ArkHello that the server sealed. -/
structure Greeting where
  hello : HostHello
  ark : ArkHello
  bytes : Bytes
  place : ℕ

/-- A HostAck that the client sealed. -/
structure Ack where
  key : Transcript
  bytes : Bytes
  place : ℕ

end Pair

structure Pair where
  client : Client
  server : Server
  greetings : List Pair.Greeting := []
  acks : List Pair.Ack := []

namespace Pair

/-- The message of an event that seals the packet at the number in a context of the key. -/
def sealedMessage (o : State Transcript) (key : Transcript) (seq : ℕ) (packet : Bytes) :
    Event → Option Bytes
  | .sealed p message =>
    if p.seq = seq ∧ p.bytes = packet ∧ (o.contexts[p.context]?).map (·.key) = some key then
      some message
    else none
  | _ => none

/-- `sealing::open`, where the peer's outbound transport is `o`. -/
def openedBy (o : State Transcript) : Opens := fun key seq packet =>
  match o.log.findSome? (sealedMessage o key seq packet) with
  | some message => .ok message
  | none => .error "decryption failed"

/-- A packet is not empty, and no frame that the stream holds, terminated or not, is its. -/
def fresh (cobs : Cobs) (packet accepted : Bytes) : Bool :=
  packet ≠ [] ∧ ∀ piece ∈ pieces 0 (accepted ++ [0]),
    (cobs.decode piece).toOption ≠ some packet

/-- How many frames are on the stream before the next packet. -/
def place (cfg : Config Transcript) (o : State Transcript) : ℕ :=
  (frames 0 cfg.maxFrame (o.framer.accepted ++ lead o.framer)).length

/-- What the client's cryptography can give: an ArkHello opens if the server sealed it for this
attempt, and its ack is fresh. -/
def answers (u : Setup) (p : Pair) : Client.Input → Option (List Ack)
  | .answer (.ok (ark, ack, bytes)) =>
    match p.client.stage with
    | .answer hello _ packet =>
      if (∃ g ∈ p.greetings, g.hello = hello ∧ g.ark = ark ∧ g.bytes = packet) ∧
          (∀ a ∈ p.acks, a.key ≠ ⟨hello, ark, ack⟩) ∧
          fresh u.cobs bytes p.client.out.framer.accepted = true then
        some [⟨⟨hello, ark, ack⟩, bytes, place u.client p.client.out⟩]
      else none
    | _ => none
  | _ => some []

/-- What the server's cryptography can give: an ArkHello is sealed for fresh keys, and a HostAck
opens if the client sealed it for this exchange. -/
def greets (u : Setup) (p : Pair) : Server.Input → Option (List Greeting)
  | .seals (.ok (ark, bytes)) =>
    match p.server.stage with
    | .greet _ hello =>
      if (∀ g ∈ p.greetings, g.ark ≠ ark) ∧
          fresh u.cobs bytes p.server.out.framer.accepted = true then
        some [⟨hello, ark, bytes, place u.server p.server.out⟩]
      else none
    | _ => none
  | .opened (.ok ack) =>
    match p.server.stage with
    | .answer _ hello ark packet =>
      if ∃ a ∈ p.acks, a.key = ⟨hello, ark, ack⟩ ∧ a.bytes = packet then some [] else none
    | _ => none
  | _ => some []

/-- What was put on a stream by a step. -/
def sent (o o' : State Transcript) : Bytes := o'.framer.accepted.drop o.framer.accepted.length

/-- The client moves, and what it put on its stream is there for the server. -/
def clientMoves (p : Pair) (client : Client) (acks : List Ack) : Pair :=
  { p with
    client
    acks := p.acks ++ acks
    server := { p.server with inbox := p.server.inbox.feed (sent p.client.out client.out) } }

def serverMoves (p : Pair) (server : Server) (greetings : List Greeting) : Pair :=
  { p with
    server
    greetings := p.greetings ++ greetings
    client := { p.client with inbox := p.client.inbox.feed (sent p.server.out server.out) } }

/-- An owner moves, or another thread or a call of an owner goes on. -/
inductive Action where
  | client (input : Client.Input)
  | clientThread (a : Outbound.Action Transcript)
  | server (input : Server.Input)
  | serverThread (a : Outbound.Action Transcript)

/-- **A client and a server**, where the streams hold what the two writers have accepted. -/
def pair (u : Setup) (toServer toClient : Writer) : Machine Pair Action Fault where
  init :=
    { client :=
        { out := { framer := toServer }
          inbox := { reader := .new u.maxFrame toClient.accepted } }
      server :=
        { out := { framer := toClient }
          inbox := { reader := .new u.maxFrame toServer.accepted } } }
  step p
    | .client input =>
      match p.answers u input, p.client.own u.client u.codec (openedBy p.server.out) input with
      | some acks, .next client => .next (p.clientMoves client acks)
      | some _, .panic fault => .panic fault
      | _, _ => .blocked
    | .clientThread a =>
      match handles u.client p.client.out a with
      | .next out => .next (p.clientMoves { p.client with out } [])
      | .panic fault => .panic fault
      | .blocked => .blocked
    | .server input =>
      match p.greets u input, p.server.own u.server u.codec (openedBy p.client.out) input with
      | some greetings, .next server => .next (p.serverMoves server greetings)
      | some _, .panic fault => .panic fault
      | _, _ => .blocked
    | .serverThread a =>
      match handles u.server p.server.out a with
      | .next out => .next (p.serverMoves { p.server with out } [])
      | .panic fault => .panic fault
      | .blocked => .blocked

end Pair

end ArkWire.Transport
