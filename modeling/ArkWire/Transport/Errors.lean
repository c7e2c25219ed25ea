import Mathlib.Tactic

/-! # Errors of the transport layer

The kinds of `io::Error` the transport distinguishes and the variants of `transport::Error`. -/

namespace ArkWire.Transport.Errors

/-- The `io::ErrorKind`s the transport tells apart; every other kind is `other`. -/
inductive ErrorKind where
  | timedOut
  | interrupted
  | notConnected
  | writeZero
  | other (kind : ℕ)
  deriving DecidableEq, Repr

/-- `io::Error`. -/
structure IoError where
  kind : ErrorKind
  msg : String
  deriving DecidableEq, Repr

/-- `transport::Error`. -/
inductive TransportError where
  | packetTooLarge (size : ℕ)
  | frameTooLarge (size : ℕ)
  | frameDecodingFailed (reason : String)
  | sendFailed (error : IoError)
  | recvFailed (error : IoError)
  | terminated
  | sessionReset
  | invalidAttestation
  | handshakeFailed (reason : String)
  | encryptionFailed (reason : String)
  deriving DecidableEq, Repr

end ArkWire.Transport.Errors
