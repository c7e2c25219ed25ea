import ArkWire.Protocol.Envelope

/-! # Promises, their result channels and the inbound byte counter

A promise and the `ResultSender` of its operation share a one-slot channel and a notification state.
`Channel` is that shared part together with what the application has done with the promise
(`holder`); `sent` is ghost and records every result given to `ResultSender::send`, delivered or
not.

`Shared` is everything the critical sections of a session change outside its state: the channels,
the byte counter `retained_bytes`, and the callbacks taken by settlement and not yet run. Channels
and callbacks are named by numbers; clock readings are nanoseconds. -/

namespace ArkWire.Protocol.Promise

open ArkWire.Protocol.Errors ArkWire.Protocol.Envelope

/-- The largest `Instant`, whose seconds are an `i64`. -/
def instantMax : ℕ := 2 ^ 63 * 10 ^ 9 - 1

/-- `now.checked_add(timeout).unwrap_or(now)`: an unrepresentable deadline expires at once. -/
def deadlineAfter (now timeout : ℕ) : ℕ :=
  if now + timeout ≤ instantMax then now + timeout else now

/-- An operation result before the application waits on its promise. -/
inductive PromiseResult where
  | response (message : IncomingEnvelope)
  | written
  deriving DecidableEq, Repr

/-- What the application has done with its promise. -/
inductive Holder where
  /-- The promise exists and can be waited on, registered on or dropped. -/
  | caller
  /-- `Drop::drop` has cleared the hook; the receiver is dropped next. -/
  | dropping
  /-- `wait_result` has returned this result, which is not decoded yet. -/
  | taken (result : Except Error PromiseResult)
  /-- Waited on or dropped. -/
  | gone
  deriving DecidableEq

/-- The state shared by a promise and its sender. `response` is the type of the promise:
`Promise<Message>` of a request, or `Promise<()>` of a reply. -/
structure Channel where
  response : Bool
  buffer : Option (Except Error PromiseResult) := none
  receiver : Bool := true
  done : Bool := false
  hook : Option ℕ := none
  registered : Bool := false
  holder : Holder := .caller
  sent : List (Except Error PromiseResult) := []

/-- Single-use result sender of a request (`response`) or a reply. -/
structure ResultSender where
  response : Bool
  channel : ℕ
  deriving DecidableEq, Repr

/-- What the critical sections of a session change outside its state. -/
structure Shared where
  channels : ℕ → Channel
  nextChannel : ℕ
  retainedBytes : ℕ
  callbacks : List ℕ

namespace Shared

/-- Changes one channel. -/
def modify (w : Shared) (c : ℕ) (f : Channel → Channel) : Shared :=
  { w with channels := Function.update w.channels c (f (w.channels c)) }

/-- Drops an envelope, returning its bytes to the counter. -/
def release (w : Shared) (envelope : IncomingEnvelope) : Shared :=
  { w with retainedBytes := ByteCharge.release w.retainedBytes envelope.charge }

/-- Drops a result, with the envelope it may carry. -/
def releaseResult (w : Shared) : Except Error PromiseResult → Shared
  | .ok (.response envelope) => w.release envelope
  | _ => w

/-- `Promise::pair`: a promise and the sender its operation will own. -/
def pair (w : Shared) (response : Bool) : ResultSender × Shared :=
  (⟨response, w.nextChannel⟩,
    { w with
      channels := Function.update w.channels w.nextChannel { response }
      nextChannel := w.nextChannel + 1 })

end Shared

/-- `ResultSender::send`: publishes the result and hands its callback to the settling thread. The
flag is `Notification::delivered`. A result whose receiver is gone is dropped on the spot. -/
def ResultSender.send (sender : ResultSender) (w : Shared) (result : Except Error PromiseResult) :
    Shared × Bool :=
  let channel := w.channels sender.channel
  let w := { w with callbacks := w.callbacks ++ channel.hook.toList }
  if channel.receiver then
    (w.modify sender.channel fun c =>
      { c with buffer := some result, done := true, hook := none, sent := c.sent ++ [result] },
        true)
  else
    ((w.releaseResult result).modify sender.channel fun c =>
      { c with hook := none, sent := c.sent ++ [result] }, false)

/-! ### Lemmas -/

namespace Shared

variable (w : Shared)

@[simp] theorem modify_nextChannel (c : ℕ) (f : Channel → Channel) :
    (w.modify c f).nextChannel = w.nextChannel := rfl

@[simp] theorem modify_retainedBytes (c : ℕ) (f : Channel → Channel) :
    (w.modify c f).retainedBytes = w.retainedBytes := rfl

@[simp] theorem modify_channels_self (c : ℕ) (f : Channel → Channel) :
    (w.modify c f).channels c = f (w.channels c) := by simp [modify]

theorem modify_channels_of_ne {c c' : ℕ} (f : Channel → Channel) (h : c' ≠ c) :
    (w.modify c f).channels c' = w.channels c' := by simp [modify, h]

@[simp] theorem release_channels (e : IncomingEnvelope) : (w.release e).channels = w.channels := rfl

@[simp] theorem release_nextChannel (e : IncomingEnvelope) :
    (w.release e).nextChannel = w.nextChannel := rfl

@[simp] theorem releaseResult_channels (r : Except Error PromiseResult) :
    (w.releaseResult r).channels = w.channels := by
  unfold releaseResult; split <;> rfl

@[simp] theorem releaseResult_nextChannel (r : Except Error PromiseResult) :
    (w.releaseResult r).nextChannel = w.nextChannel := by
  unfold releaseResult; split <;> rfl

end Shared

section Send
variable (sender : ResultSender) (w : Shared) (result : Except Error PromiseResult)

@[simp] theorem send_nextChannel : (sender.send w result).1.nextChannel = w.nextChannel := by
  unfold ResultSender.send; dsimp only; split_ifs <;> simp

theorem send_channels_of_ne {c : ℕ} (h : c ≠ sender.channel) :
    (sender.send w result).1.channels c = w.channels c := by
  unfold ResultSender.send
  dsimp only
  split_ifs
  · rw [Shared.modify_channels_of_ne _ _ h]
  · rw [Shared.modify_channels_of_ne _ _ h, Shared.releaseResult_channels]

@[simp] theorem send_sent : ((sender.send w result).1.channels sender.channel).sent =
    (w.channels sender.channel).sent ++ [result] := by
  unfold ResultSender.send; dsimp only; split_ifs <;> simp

@[simp] theorem send_response : ((sender.send w result).1.channels sender.channel).response =
    (w.channels sender.channel).response := by
  unfold ResultSender.send; dsimp only; split_ifs <;> simp

@[simp] theorem send_holder : ((sender.send w result).1.channels sender.channel).holder =
    (w.channels sender.channel).holder := by
  unfold ResultSender.send; dsimp only; split_ifs <;> simp

@[simp] theorem send_receiver : ((sender.send w result).1.channels sender.channel).receiver =
    (w.channels sender.channel).receiver := by
  unfold ResultSender.send; dsimp only; split_ifs <;> simp

theorem send_buffer : ((sender.send w result).1.channels sender.channel).buffer =
    if (w.channels sender.channel).receiver then some result
    else (w.channels sender.channel).buffer := by
  unfold ResultSender.send; dsimp only; split_ifs <;> simp

@[simp] theorem send_delivered :
    (sender.send w result).2 = (w.channels sender.channel).receiver := by
  unfold ResultSender.send; dsimp only; split_ifs with h <;> simp [h]

end Send

end ArkWire.Protocol.Promise
