import ArkWire.Protocol.Promise
import Mathlib.Data.List.AList

/-! # Pending operations and queued messages

An operation waits in the session's `operations` map, under a key of its own, until its promise gets
a result: a request waits for the peer's answer, a reply for its write. An `OperationKey` is the
identity of the allocation behind its `Arc`, here a number, so a new operation gets a key no other
one ever had. -/

namespace ArkWire.Protocol.Operation

open ArkWire.Protocol.Errors ArkWire.Protocol.Envelope ArkWire.Protocol.Promise

/-- The panics of the session code: failed assertions, `expect`s and `unreachable!` arms. -/
inductive Panic where
  /-- `complete_response`: only requests accept peer answers. -/
  | replyAnswered
  /-- `wait_result`: a registered operation settles before its sender is released. -/
  | senderReleased
  /-- `PromiseResult::response`: requests complete with responses. -/
  | requestWritten
  /-- `PromiseResult::written`: replies complete with write results. -/
  | replyResponded
  /-- `notify`: promise notification already registered. -/
  | notifiedTwice
  /-- `next_outgoing`: wire request IDs exhausted. -/
  | idsExhausted
  deriving DecidableEq, Repr

/-- Request waiting for an answer, or reply waiting for its write to finish. -/
structure PendingOperation where
  deadline : ℕ
  sender : ResultSender
  deriving DecidableEq, Repr

/-- `PendingOperation::fail`: expiry takes precedence over the given error. -/
def PendingOperation.fail (operation : PendingOperation) (error : Error) (now : ℕ)
    (w : Shared) : Shared :=
  let error := if operation.deadline ≤ now then .timeout else error
  (operation.sender.send w (.error error)).1

/-- `PendingOperation::complete_response`: sends the answer, or `Timeout` past the deadline. Only an
on-time answer reserves bytes. An answer that does not fit closes the session (the error returned)
if its promise still exists. -/
def PendingOperation.completeResponse (operation : PendingOperation) (now : ℕ) (w : Shared)
    (bytes : Bytes) (header : Header) (limit : ℕ) : Except Panic (Shared × Except Error Unit) :=
  if operation.deadline ≤ now then .ok (operation.fail .timeout now w, .ok ())
  else if operation.sender.response = false then .error .replyAnswered
  else
    match IncomingEnvelope.new bytes header w.retainedBytes limit with
    | .ok (message, total) =>
      -- if the promise was dropped, the failed send releases the bytes
      .ok ((operation.sender.send { w with retainedBytes := total } (.ok (.response message))).1,
        .ok ())
    | .error error =>
      let (w, delivered) := operation.sender.send w (.error error)
      .ok (w, if delivered then .error error else .ok ())

/-- Outgoing message before it is put in a wire envelope. -/
inductive OutgoingBody (M : Type) where
  | request (message : M)
  | reply (id : ℕ) (result : Except SchemaError M)

namespace OutgoingBody

variable {M : Type}

/-- The peer request a reply answers. -/
def replyId : OutgoingBody M → Option ℕ
  | request _ => none
  | reply id _ => some id

def isRequest : OutgoingBody M → Bool
  | request _ => true
  | reply _ _ => false

/-- The body handed to `Side::encode`. -/
def result : OutgoingBody M → Except SchemaError M
  | request message => .ok message
  | reply _ result => result

end OutgoingBody

/-- Request or reply in the `outgoing` queue, with the key of its operation. -/
structure OutgoingMessage (M : Type) where
  body : OutgoingBody M
  key : ℕ

/-- The `operations` map. -/
abbrev Operations := AList fun _ : ℕ => PendingOperation

/-- Removes the operations of these keys one by one and fails their promises. -/
def failAll (error : Error) (now : ℕ) :
    List ℕ → Operations × Shared → Operations × Shared
  | [], st => st
  | key :: keys, (operations, w) =>
    match operations.lookup key with
    | some operation =>
      failAll error now keys (operations.erase key, operation.fail error now w)
    | none => failAll error now keys (operations, w)

/-- The keys of the operations whose deadline has passed. -/
def expiredKeys (operations : Operations) (now : ℕ) : List ℕ :=
  (operations.entries.filter fun e => e.2.deadline ≤ now).map Sigma.fst

/-! ### Lemmas -/

theorem lookup_erase_eq {β : Type} (a b : ℕ) (s : AList fun _ : ℕ => β) :
    (s.erase b).lookup a = if a = b then none else s.lookup a := by
  split_ifs with h
  · rw [h, AList.lookup_erase]
  · exact AList.lookup_erase_ne h

theorem lookup_insert_eq {β : Type} (a b : ℕ) (v : β) (s : AList fun _ : ℕ => β) :
    (s.insert b v).lookup a = if a = b then some v else s.lookup a := by
  split_ifs with h
  · rw [h, AList.lookup_insert]
  · exact AList.lookup_insert_ne h

theorem mem_expiredKeys {operations : Operations} {now : ℕ} {key : ℕ} :
    key ∈ expiredKeys operations now ↔
      ∃ operation, operations.lookup key = some operation ∧ operation.deadline ≤ now := by
  simp only [expiredKeys, List.mem_map, List.mem_filter, decide_eq_true_eq]
  constructor
  · rintro ⟨⟨k, op⟩, ⟨hm, hd⟩, rfl⟩
    exact ⟨op, AList.mem_lookup_iff.mpr hm, hd⟩
  · rintro ⟨op, hl, hd⟩
    exact ⟨⟨key, op⟩, ⟨AList.mem_lookup_iff.mp hl, hd⟩, rfl⟩

/-- **The rule for `failAll`**: what failing one removed operation keeps, failing all keeps. -/
theorem failAll_rule {error : Error} {now : ℕ} {P : Operations → Shared → Prop}
    (hP : ∀ operations w key operation, operations.lookup key = some operation →
      P operations w → P (operations.erase key) (operation.fail error now w)) :
    ∀ (keys : List ℕ) (operations : Operations) (w : Shared), P operations w →
      P (failAll error now keys (operations, w)).1 (failAll error now keys (operations, w)).2
  | [], _, _, h => h
  | key :: keys, operations, w, h => by
    simp only [failAll]
    split
    · next operation hl => exact failAll_rule hP keys _ _ (hP _ _ _ _ hl h)
    · exact failAll_rule hP keys _ _ h

theorem failAll_lookup (error : Error) (now : ℕ) (key : ℕ) :
    ∀ (keys : List ℕ) (operations : Operations) (w : Shared),
      (failAll error now keys (operations, w)).1.lookup key =
        if key ∈ keys then none else operations.lookup key
  | [], _, _ => by simp [failAll]
  | k :: keys, operations, w => by
    simp only [failAll]
    split
    · rw [failAll_lookup error now key keys, lookup_erase_eq]
      by_cases hk : key = k <;> by_cases hm : key ∈ keys <;> simp [hk, hm]
    · next hn =>
      rw [failAll_lookup error now key keys]
      by_cases hk : key = k
      · subst hk; simp [hn]
      · simp [hk]

/-- Failing every key empties the map. -/
theorem failAll_keys_lookup (error : Error) (now : ℕ) (operations : Operations) (w : Shared)
    (key : ℕ) :
    (failAll error now operations.keys (operations, w)).1.lookup key = none := by
  rw [failAll_lookup]
  split_ifs with h
  · rfl
  · rwa [AList.lookup_eq_none, AList.mem_keys]

theorem failAll_expired_lookup (now : ℕ) (operations : Operations) (w : Shared)
    (key : ℕ) :
    (failAll .timeout now (expiredKeys operations now) (operations, w)).1.lookup key =
      (operations.lookup key).filter fun operation => now < operation.deadline := by
  rw [failAll_lookup]
  cases hl : operations.lookup key with
  | none => simp
  | some operation =>
    have hm : key ∈ expiredKeys operations now ↔ operation.deadline ≤ now := by
      simp [mem_expiredKeys, hl]
    by_cases hd : operation.deadline ≤ now
    · simp [hm, hd, Option.filter_some]
    · simp [hm, hd, Option.filter_some, not_le.mp hd]

end ArkWire.Protocol.Operation
