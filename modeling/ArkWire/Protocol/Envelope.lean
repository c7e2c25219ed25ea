import ArkWire.Protocol.Errors

/-! # Envelopes: sides, request parity, routing headers and retained bytes

A request carries an ID chosen by its sender and the response echoes it. Clients choose odd IDs and
servers even ones, so an incoming ID of our own parity is a response (`MessageKind.fromId`). The
protobuf codec is a parameter (`Codec`): the session only ever calls its three functions.

`IncomingEnvelope` is an encoded envelope whose bytes are charged to the session's counter
(`ByteCharge.reserve`) until it is decoded or dropped (`ByteCharge.release`, the wrapping
`fetch_sub` of the destructor). -/

namespace ArkWire.Protocol.Envelope

open ArkWire.Protocol.Errors

abbrev Bytes := List UInt8

/-- Role deciding envelope direction and request parity. -/
inductive Side where
  | client
  | server
  deriving DecidableEq, Repr

/-- The other role. -/
def Side.peer : Side → Side
  | client => server
  | server => client

@[simp] theorem Side.peer_peer (side : Side) : side.peer.peer = side := by cases side <;> rfl

/-- Parity of the IDs a side allocates. -/
inductive Parity where
  | odd
  | even
  deriving DecidableEq, Repr

/-- The parity of an ID, zero being even. -/
def Parity.of (id : ℕ) : Parity := if id % 2 = 1 then odd else even

/-- The lowest positive ID of this parity. -/
def Parity.first : Parity → ℕ
  | odd => 1
  | even => 2

/-- `From<Side> for Parity`. -/
def Side.parity : Side → Parity
  | client => .odd
  | server => .even

/-- Kind of an incoming envelope. -/
inductive MessageKind where
  | request
  | response
  deriving DecidableEq, Repr

/-- `MessageKind::from_id`: matching parity means a response. -/
def MessageKind.fromId (id : ℕ) (parity : Parity) : MessageKind :=
  if Parity.of id = parity then response else request

/-- Routing fields of an envelope whose nested body has not been decoded yet. -/
structure Header where
  id : ℕ
  failed : Bool
  payload : Option String
  unknown : Bool
  deriving DecidableEq, Repr

/-- The refusals of `Side::encode`. -/
inductive EncodeError where
  | wrongDirection (name : String)
  | tooLarge (size : ℕ)
  deriving DecidableEq, Repr

/-- The refusal as a `protocol::Error`. -/
def EncodeError.error : EncodeError → Error
  | wrongDirection name => .wrongDirection name
  | tooLarge size => .tooLarge size

/-- **The envelope codec** of either side. Every failure of `decodeHeader` and of `decode` ends in
`Error::Malformed`, so a failure is `none`. -/
structure Codec (M : Type) where
  decodeHeader : Side → Bytes → Option Header
  encode : Side → ℕ → Except SchemaError M → Except EncodeError Bytes
  decode : Side → Bytes → Option (ℕ × Except SchemaError M)

/-! ### Retained bytes -/

/-- `usize::MAX`. -/
def usizeMax : ℕ := 2 ^ 64 - 1

/-- `usize::checked_add`. -/
def checkedAdd (a b : ℕ) : Option ℕ := if a + b ≤ usizeMax then some (a + b) else none

/-- One encoded envelope held by the request queue or a completed response promise. Its `charge` is
the length taken at admission, never recomputed. -/
structure IncomingEnvelope where
  bytes : Bytes
  header : Header
  charge : ℕ
  deriving DecidableEq, Repr

/-- `ByteCharge::reserve`: the new byte count, or none where it would exceed the limit. -/
def ByteCharge.reserve (used bytes limit : ℕ) : Option ℕ :=
  (checkedAdd used bytes).filter (· ≤ limit)

/-- The `fetch_sub` of the charge's destructor, which wraps below zero. -/
def ByteCharge.release (used bytes : ℕ) : ℕ :=
  if bytes ≤ used then used - bytes else used + (usizeMax + 1) - bytes

/-- `IncomingEnvelope::new`: charges the full encoded length, returning the new byte count. -/
def IncomingEnvelope.new (bytes : Bytes) (header : Header) (used limit : ℕ) :
    Except Error (IncomingEnvelope × ℕ) :=
  match ByteCharge.reserve used bytes.length limit with
  | some total => .ok (⟨bytes, header, bytes.length⟩, total)
  | none => .error (.inboundByteLimitExceeded limit)

/-! ### Lemmas -/

theorem reserve_eq_some {used bytes limit total : ℕ} :
    ByteCharge.reserve used bytes limit = some total ↔
      total = used + bytes ∧ used + bytes ≤ usizeMax ∧ used + bytes ≤ limit := by
  unfold ByteCharge.reserve checkedAdd
  split_ifs with h
  · simp only [Option.filter_some, decide_eq_true_eq]
    constructor
    · intro h'
      split_ifs at h' with hl
      · simp only [Option.some.injEq] at h'
        exact ⟨h'.symm, h, hl⟩
    · rintro ⟨rfl, -, hl⟩
      rw [if_pos hl]
  · simp [h]

/-- Within the count, releasing is subtraction. -/
theorem release_eq {used bytes : ℕ} (h : bytes ≤ used) :
    ByteCharge.release used bytes = used - bytes := if_pos h

theorem new_eq_ok {bytes : Bytes} {header : Header} {used limit total : ℕ}
    {envelope : IncomingEnvelope} :
    IncomingEnvelope.new bytes header used limit = .ok (envelope, total) ↔
      envelope = ⟨bytes, header, bytes.length⟩ ∧ total = used + bytes.length ∧
        used + bytes.length ≤ usizeMax ∧ used + bytes.length ≤ limit := by
  unfold IncomingEnvelope.new
  split
  · next t ht =>
    rw [reserve_eq_some] at ht
    simp only [Except.ok.injEq, Prod.mk.injEq]
    constructor
    · rintro ⟨rfl, rfl⟩; exact ⟨rfl, ht⟩
    · rintro ⟨rfl, rfl, -, -⟩; exact ⟨rfl, ht.1⟩
  · next hn =>
    refine ⟨fun h => (by cases h), ?_⟩
    rintro ⟨-, -, hu, hl⟩
    have hs : ByteCharge.reserve used bytes.length limit = some (used + bytes.length) :=
      reserve_eq_some.mpr ⟨rfl, hu, hl⟩
    rw [hs] at hn
    cases hn

theorem fromId_eq_response {id : ℕ} {parity : Parity} :
    MessageKind.fromId id parity = .response ↔ Parity.of id = parity := by
  unfold MessageKind.fromId; split_ifs with h <;> simp [h]

end ArkWire.Protocol.Envelope
