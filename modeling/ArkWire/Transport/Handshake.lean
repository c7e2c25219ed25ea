import ArkWire.Lib.Symbolic

/-! # The handshake against an attacker on the streams

Any number of clients and servers run `Client::handshake` and `Server::handshake` in any order. The
attacker holds both byte streams of each: it hears every packet, and every frame that comes in is
one it can make of what it has heard (`Step`). COSE, xDSA and xHPKE are ideal: packets are terms
(`Lib.Symbolic`), and what is drawn at random is a name of its own.

Each connect attempt and each exchange of a server is numbered and leaves a record. A client gives
up an attempt, and a server an exchange, whenever it likes: a timeout, a failed write, a malformed
size or a local disconnect. A reset in place of the acknowledgement starts over with another
exchange. -/

namespace ArkWire.Transport.Handshake

open ArkWire.Lib.Symbolic (Derives)

/-! ### Names and domains -/

/-- `b"wire-v1"`, `b"wire-v1:ark-to-host"`, `b"wire-v1:host-to-ark"` and those of other programs. -/
inductive Domain where
  | wire
  | arkToHost
  | hostToArk
  | other (domain : List UInt8)
  deriving DecidableEq

/-- What is drawn at random: secret keys, the randomness of encapsulations and of seals, and the
secret part of a message. -/
inductive Name where
  /-- The signing key of an Ark. -/
  | identity (n : ℕ)
  | hostSigner (attempt : ℕ)
  | hostCrypto (attempt : ℕ)
  | hostEncap (attempt : ℕ)
  | hostSeal (attempt : ℕ)
  | arkCrypto (exchange : ℕ)
  | arkEncap (exchange : ℕ)
  | arkSeal (exchange : ℕ)
  | message (k : ℕ)
  /-- All that is not drawn by a client or a server. -/
  | attacker (n : ℕ)
  deriving DecidableEq

abbrev Term := Lib.Symbolic.Term Name Domain

open Lib.Symbolic.Term

/-! ### The encodings -/

/-- A CBOR array. -/
def array : List Term → Term
  | [] => text []
  | t :: ts => pair t (array ts)

structure HostHello where
  signer : Term
  crypto : Term
  deriving DecidableEq

def HostHello.encode (m : HostHello) : Term := array [m.signer, m.crypto]

def HostHello.decode : Term → Option HostHello
  | pair signer (pair crypto (text [])) => some ⟨signer, crypto⟩
  | _ => none

structure ArkHello where
  attest : Term
  crypto : Term
  encap : Term
  deriving DecidableEq

def ArkHello.encode (m : ArkHello) : Term := array [m.attest, m.crypto, m.encap]

def ArkHello.decode : Term → Option ArkHello
  | pair attest (pair crypto (pair e (text []))) => some ⟨attest, crypto, e⟩
  | _ => none

structure ArkHelloAuth where
  signer : Term
  crypto : Term

def ArkHelloAuth.encode (m : ArkHelloAuth) : Term := array [m.signer, m.crypto]

structure HostAck where
  encap : Term
  deriving DecidableEq

def HostAck.encode (m : HostAck) : Term := array [m.encap]

def HostAck.decode : Term → Option HostAck
  | pair e (text []) => some ⟨e⟩
  | _ => none

structure HostAckAuth where
  signer : Term
  crypto : Term

def HostAckAuth.encode (m : HostAckAuth) : Term := array [m.signer, m.crypto]

/-! ### COSE and xHPKE -/

/-- `new_sender`: the context and the encapsulated key. -/
def newSender (key r : Term) (domain : Domain) : Term × Term :=
  (context domain key (encap key r), encap key r)

/-- `new_receiver`. It accepts any encapsulated key. -/
def newReceiver (sk e : Term) (domain : Domain) : Term := context domain (encryptKey sk) e

/-- A `COSE_Encrypt0`: the recipient, an encapsulated key and what is sealed. -/
def encrypt (body aad key r : Term) (domain : Domain) : Term :=
  let (sender, e) := newSender key r domain
  pair (fingerprint key) (pair e (aead sender 0 aad body))

/-- `cose::recipient`. -/
def recipient : Term → Option Term
  | pair key _ => some key
  | _ => none

def decrypt (packet aad sk : Term) (domain : Domain) : Option Term :=
  match packet with
  | pair key (pair e (aead sender 0 aad' body)) =>
    if key = fingerprint (encryptKey sk) ∧ sender = newReceiver sk e domain ∧ aad' = aad then
      some body
    else none
  | _ => none

/-- The payload of a `COSE_Sign1`, unverified. -/
def peek : Term → Option Term
  | sign _ _ _ payload _ => some payload
  | _ => none

/-- `cose::verify_at` without a drift check: the signing time is not looked at. -/
def verifyAt (sign1 aad key : Term) (domain : Domain) : Option Term :=
  match sign1 with
  | sign sk domain' aad' payload _ =>
    if key = verifyKey sk ∧ domain' = domain ∧ aad' = aad then some payload else none
  | _ => none

/-- `cose::seal_at`. -/
def sealAt (payload aad signer key r : Term) (domain : Domain) (time : ℤ) : Term :=
  encrypt (sign signer domain aad payload time) aad key r domain

/-- `cose::open_at`: what was signed, and its payload. -/
def openAt (packet aad sk signer : Term) (domain : Domain) : Option (Term × Term) := do
  let sign1 ← decrypt packet aad sk domain
  let payload ← verifyAt sign1 aad signer domain
  some (sign1, payload)

/-! ### The client -/

/-- What the verifier makes of an attestation at a wall time: an identity, or a refusal. What is no
attestation is refused. -/
abbrev Verifier := Term → ℤ → Option Term

/-- The keys of an attempt, in its hello. -/
def hostHello (i : ℕ) : HostHello where
  signer := verifyKey (name (.hostSigner i))
  crypto := encryptKey (name (.hostCrypto i))

/-- An `ArkHello` that passed every check. -/
structure Accepted where
  packet : Term
  sign1 : Term
  identity : Term
  hello : ArkHello
  deriving DecidableEq

/-- Message 2 of `Client::handshake`, steps 2a to 2d. -/
def accept (i : ℕ) (verifier : Verifier) (now : ℤ) (packet : Term) : Option Accepted := do
  let auth : ArkHelloAuth := ⟨(hostHello i).signer, (hostHello i).crypto⟩
  let sign1 ← decrypt packet auth.encode (name (.hostCrypto i)) .wire
  let unverified ← (peek sign1).bind ArkHello.decode
  let identity ← verifier unverified.attest now
  let hello ← (verifyAt sign1 auth.encode identity .wire).bind ArkHello.decode
  some ⟨packet, sign1, identity, hello⟩

/-- The contexts of an attempt. -/
def Accepted.receiver (acc : Accepted) (i : ℕ) : Term :=
  newReceiver (name (.hostCrypto i)) acc.hello.encap .arkToHost

def Accepted.sender (acc : Accepted) (i : ℕ) : Term × Term :=
  newSender acc.hello.crypto (name (.hostEncap i)) .hostToArk

/-- Message 3: what is signed, and its packet. -/
def Accepted.ack (acc : Accepted) (i : ℕ) : HostAck := ⟨(acc.sender i).2⟩

def Accepted.auth (acc : Accepted) : HostAckAuth := ⟨acc.identity, acc.hello.crypto⟩

def Accepted.ackSign1 (acc : Accepted) (i : ℕ) (time : ℤ) : Term :=
  sign (name (.hostSigner i)) .wire acc.auth.encode (acc.ack i).encode time

def Accepted.ackPacket (acc : Accepted) (i : ℕ) (time : ℤ) : Term :=
  sealAt (acc.ack i).encode acc.auth.encode (name (.hostSigner i)) acc.hello.crypto
    (name (.hostSeal i)) .wire time

/-- How far an attempt got. -/
inductive Attempt where
  | hello (verifier : Verifier)
  /-- The acknowledgement was sealed. -/
  | acked (acc : Accepted) (time : ℤ)
  /-- `connect` returned `Ok`. -/
  | established (acc : Accepted) (time : ℤ)

/-- What an attempt accepted. -/
def Attempt.accepted : Attempt → Option Accepted
  | .hello _ => none
  | .acked acc _ => some acc
  | .established acc _ => some acc

def Attempt.isEstablished : Attempt → Bool
  | .established _ _ => true
  | _ => false

/-! ### The server -/

/-- A `HostAck` that passed every check. -/
structure Acked where
  packet : Term
  sign1 : Term
  ack : HostAck
  deriving DecidableEq

/-- One pass of the loop of `Server::handshake`: the server and its identity, the hello it answered,
its attestation and signing time, and the acknowledgement with which it returned `Ok`. -/
structure Exchange where
  server : ℕ
  identity : ℕ
  hello : HostHello
  attest : Term
  time : ℤ
  acked : Option Acked := none

/-- The public half of an identity. -/
def identityKey (n : ℕ) : Term := verifyKey (name (.identity n))

/-- The ephemeral key of an exchange. -/
def arkCrypto (j : ℕ) : Term := encryptKey (name (.arkCrypto j))

namespace Exchange

variable (x : Exchange) (j : ℕ)

def sender : Term × Term := newSender x.hello.crypto (name (.arkEncap j)) .arkToHost

/-- Message 2. -/
def arkHello : ArkHello := ⟨x.attest, arkCrypto j, (x.sender j).2⟩

def helloAuth : ArkHelloAuth := ⟨x.hello.signer, x.hello.crypto⟩

/-- What the server signed. -/
def sign1 : Term :=
  sign (name (.identity x.identity)) .wire x.helloAuth.encode (x.arkHello j).encode x.time

def packet : Term :=
  sealAt (x.arkHello j).encode x.helloAuth.encode (name (.identity x.identity)) x.hello.crypto
    (name (.arkSeal j)) .wire x.time

/-- Message 3 of `Server::handshake`. -/
def acknowledge (packet : Term) : Option Acked := do
  let auth : HostAckAuth := ⟨identityKey x.identity, arkCrypto j⟩
  let (sign1, payload) ← openAt packet auth.encode (name (.arkCrypto j)) x.hello.signer .wire
  let ack ← HostAck.decode payload
  some ⟨packet, sign1, ack⟩

def receiver (acked : Acked) : Term := newReceiver (name (.arkCrypto j)) acked.ack.encap .hostToArk

end Exchange

/-! ### The system -/

/-- Whose session a message was sealed in. -/
inductive Source where
  | attempt (i : ℕ)
  | exchange (j : ℕ)
  deriving DecidableEq

/-- A message sealed: its session, and the part that is not secret. -/
structure Sent where
  source : Source
  rest : Term

/-- A message has a secret part of its own. -/
def plaintext (k : ℕ) (rest : Term) : Term := pair (name (.message k)) rest

/-- What a server waits for. -/
inductive Stage where
  /-- A reset. -/
  | reset
  | hello
  /-- The acknowledgement of an exchange, or else its session. -/
  | exchange (j : ℕ)
  deriving DecidableEq

/-- The current attempt of each client, the stage of each server, all attempts, exchanges and
messages so far, and what was on the streams. -/
structure State where
  clients : ℕ → Option ℕ := fun _ => none
  servers : ℕ → Stage := fun _ => .reset
  attempts : List Attempt := []
  exchanges : List Exchange := []
  sent : List Sent := []
  heard : List Term := []

/-- The attacker has every name of its own and the identities. -/
def initial : Set Term := {t | ∃ n, t = name (.attacker n) ∨ t = identityKey n}

def State.knowledge (s : State) : Set Term := {t | t ∈ initial ∨ t ∈ s.heard}

/-- `connect`: draws keys and sends the reset and the hello. -/
def State.connect (s : State) (c : ℕ) (verifier : Verifier) : State :=
  { s with
    clients := Function.update s.clients c (some s.attempts.length)
    attempts := s.attempts ++ [.hello verifier]
    heard := s.heard ++ [(hostHello s.attempts.length).encode] }

/-- A client between its hello and its acknowledgement takes a frame: it skips what is not addressed
to it, and gives up on the first packet that is and does not pass. -/
def State.clientFrame (s : State) (c : ℕ) (frame : Option Term) (now time : ℤ) : State :=
  match s.clients c, frame with
  | some i, some packet =>
    match s.attempts[i]? with
    | some (.hello verifier) =>
      if recipient packet = some (fingerprint (hostHello i).crypto) then
        match accept i verifier now packet with
        | none => { s with clients := Function.update s.clients c none }
        | some acc =>
          { s with
            attempts := s.attempts.set i (.acked acc time)
            heard := s.heard ++ [acc.ackPacket i time] }
      else s
    | _ => s
  | _, _ => s

/-- The acknowledgement was sent in time. -/
def State.establish (s : State) (c : ℕ) : State :=
  match s.clients c with
  | none => s
  | some i =>
    match s.attempts[i]? with
    | some (.acked acc time) => { s with attempts := s.attempts.set i (.established acc time) }
    | _ => s

/-- A server takes a frame, `none` being a reset. Data of a session is left to its owner. -/
def State.serverFrame (identity : ℕ → ℕ) (s : State) (k : ℕ) (frame : Option Term) (attest : Term)
    (time : ℤ) : State :=
  match frame with
  | none => { s with servers := Function.update s.servers k .hello }
  | some packet =>
    match s.servers k with
    | .reset => s
    | .hello =>
      match HostHello.decode packet with
      | none => { s with servers := Function.update s.servers k .reset }
      | some hello =>
        let x : Exchange := { server := k, identity := identity k, hello, attest, time }
        { s with
          servers := Function.update s.servers k (.exchange s.exchanges.length)
          exchanges := s.exchanges ++ [x]
          heard := s.heard ++ [x.packet s.exchanges.length] }
    | .exchange j =>
      match s.exchanges[j]? with
      | none => s
      | some x =>
        if x.acked.isSome then s
        else
          match x.acknowledge j packet with
          | none => { s with servers := Function.update s.servers k .reset }
          | some acked =>
            { s with exchanges := s.exchanges.set j { x with acked := some acked } }

/-- The sending context of a session, once its handshake returned `Ok`. -/
def State.sessionSender (s : State) : Source → Option Term
  | .attempt i =>
    match s.attempts[i]? with
    | some (.established acc _) => some (acc.sender i).1
    | _ => none
  | .exchange j =>
    match s.exchanges[j]? with
    | some x => if x.acked.isSome then some (x.sender j).1 else none
    | none => none

/-- `sealing::seal`: the packet of the next message. -/
def State.seal (s : State) (source : Source) (context rest : Term) : State :=
  { s with
    sent := s.sent ++ [⟨source, rest⟩]
    heard := s.heard ++
      [aead context (s.sent.countP fun m => m.source = source) (text [])
        (plaintext s.sent.length rest)] }

/-- **One step.** `identity` says whose key a server has, and its attestations are public. A key of
an Ark may also be used elsewhere, in other domains. -/
inductive Step (identity : ℕ → ℕ) (s : State) : State → Prop
  | connect (c : ℕ) (verifier : Verifier) : Step identity s (s.connect c verifier)
  | clientFrame (c : ℕ) (frame : Option Term) (now time : ℤ) :
    (∀ packet, frame = some packet → Derives s.knowledge packet) →
    Step identity s (s.clientFrame c frame now time)
  | establish (c : ℕ) : Step identity s (s.establish c)
  | clientEnds (c : ℕ) : Step identity s { s with clients := Function.update s.clients c none }
  | serverFrame (k : ℕ) (frame : Option Term) (attest : Term) (time : ℤ) :
    (∀ packet, frame = some packet → Derives s.knowledge packet) → Derives s.knowledge attest →
    Step identity s (s.serverFrame identity k frame attest time)
  | serverEnds (k : ℕ) : Step identity s { s with servers := Function.update s.servers k .reset }
  | sends (source : Source) (context rest : Term) : s.sessionSender source = some context →
    Derives s.knowledge rest → Step identity s (s.seal source context rest)
  | elsewhere (n : ℕ) (domain : Domain) (aad payload : Term) (time : ℤ) : domain ≠ .wire →
    Derives s.knowledge payload →
    Step identity s
      { s with heard := s.heard ++ [sign (name (.identity n)) domain aad payload time] }

/-- The states of all runs. -/
inductive Reachable (identity : ℕ → ℕ) : State → Prop
  | init : Reachable identity {}
  | step {s s' : State} : Reachable identity s → Step identity s s' → Reachable identity s'

end ArkWire.Transport.Handshake
