import ArkWire.Transport.Errors

/-! # Errors of the protocol layer

The variants of `protocol::Error`, and the reserved errors a session answers with by itself. -/

namespace ArkWire.Protocol.Errors

open ArkWire.Transport.Errors

/-- `schema::Error`: the code and the text a request is refused with. -/
structure SchemaError where
  code : ℕ
  msg : String
  deriving DecidableEq, Repr

/-- `schema::ReservedErrors`. -/
inductive ReservedErrors where
  | unspecified
  | unanswered
  | unknown
  | unsupported
  | unavailable
  | unauthorized
  | unconfirmed
  | undelivered
  deriving DecidableEq, Repr

/-- The discriminants of `schema::ReservedErrors`. -/
def ReservedErrors.code : ReservedErrors → ℕ
  | unspecified => 0
  | unanswered => 1
  | unknown => 2
  | unsupported => 3
  | unavailable => 4
  | unauthorized => 5
  | unconfirmed => 6
  | undelivered => 7

/-- `schema::Error::reserved`. -/
def SchemaError.reserved (code : ReservedErrors) (msg : String) : SchemaError := ⟨code.code, msg⟩

/-- `protocol::Error`. -/
inductive Error where
  | closed
  | timeout
  | transport (error : TransportError)
  | remote (error : SchemaError)
  | unexpectedResponse (expected received : String)
  | wrongDirection (name : String)
  | tooLarge (size : ℕ)
  | malformed
  | inboundRequestLimitExceeded (limit : ℕ)
  | inboundByteLimitExceeded (limit : ℕ)
  deriving DecidableEq, Repr

end ArkWire.Protocol.Errors
