import ArkWire.Protocol.Session

/-! # What one critical section can do

Each inductive predicate lists the outcomes of one critical section of `Session`, with the
conditions they are taken under, and the theorem after it says that these are all. Proofs about the
session use these and do not unfold the sections. -/

namespace ArkWire.Protocol.Sections

open ArkWire.Protocol.Errors ArkWire.Protocol.Envelope ArkWire.Protocol.Promise
open ArkWire.Protocol.Operation ArkWire.Protocol.Session

variable {M : Type} {codec : Codec M} {s s' : SessionInner M}

/-! ### Closing and expiry -/

/-- The outcomes of `close`. -/
inductive Closed (s : SessionInner M) (error : Error) (now : ℕ) :
    SessionInner M × Option (OpenState M) → Prop
  | already {e} : s.state = .closed e → Closed s error now (s, none)
  | closed {o} : s.state = .opened o → Closed s error now
      ({ s with
        state := .closed error
        shared := (failAll error now o.operations.keys (o.operations, s.shared)).2 }, some o)

theorem close_cases (s : SessionInner M) (error : Error) (now : ℕ) :
    Closed s error now (s.close error now) := by
  unfold SessionInner.close
  split
  · next hs => exact .already hs
  · next hs => exact .closed hs

/-- The replies of a queue that have no operation left. -/
def discardedIds (left : Operations) (outgoing : List (OutgoingMessage M)) : List ℕ :=
  (outgoing.filter fun m => !(left.lookup m.key).isSome).filterMap (·.body.replyId)

/-- Releasing IDs only shrinks the reserved set. -/
theorem foldl_erase_subset : ∀ (ids : List ℕ) (reserved : Finset ℕ),
    ids.foldl Finset.erase reserved ⊆ reserved
  | [], _ => subset_rfl
  | id :: ids, reserved => (foldl_erase_subset ids _).trans (Finset.erase_subset id reserved)

/-- An open session after expiry, `left` being the operations that have not expired. -/
def expireTo (s : SessionInner M) (o : OpenState M) (left : Operations) (w : Shared) :
    SessionInner M :=
  { s with
    state := .opened { o with
      operations := left
      outgoing := o.outgoing.filter fun m => (left.lookup m.key).isSome
      reservedIds := (discardedIds left o.outgoing).foldl Finset.erase o.reservedIds }
    shared := w
    log := s.log ++ (discardedIds left o.outgoing).map .expired }

/-- The outcomes of `expire`. -/
inductive Expired (s : SessionInner M) (now : ℕ) : SessionInner M → Prop
  | closed {e} : s.state = .closed e → Expired s now s
  | expired {o} : s.state = .opened o → Expired s now (expireTo s o
      (failAll .timeout now (expiredKeys o.operations now) (o.operations, s.shared)).1
      (failAll .timeout now (expiredKeys o.operations now) (o.operations, s.shared)).2)

theorem expire_cases (s : SessionInner M) (now : ℕ) : Expired s now (s.expire now) := by
  unfold SessionInner.expire
  split
  · next hs => exact .closed hs
  · next hs => exact .expired hs

/-- The outcomes of `set_inbound_limits`: a session over a new limit is closed. -/
inductive Limited (s : SessionInner M) (requests bytes now : ℕ) :
    SessionInner M × Option (OpenState M) → Prop
  | closed {e} : s.state = .closed e → Limited s requests bytes now (s, none)
  | exceeded {o error} : s.state = .opened o →
      error = .inboundRequestLimitExceeded requests ∨ error = .inboundByteLimitExceeded bytes →
      Limited s requests bytes now (SessionInner.close { s with
        state := .opened { o with maxInboundRequests := requests, maxInboundBytes := bytes } }
        error now)
  | limited {o} : s.state = .opened o → o.reservedIds.card ≤ requests →
      s.shared.retainedBytes ≤ bytes → Limited s requests bytes now ({ s with
        state := .opened { o with maxInboundRequests := requests, maxInboundBytes := bytes } },
        none)

theorem setInboundLimits_cases (s : SessionInner M) (requests bytes now : ℕ) :
    Limited s requests bytes now (s.setInboundLimits requests bytes now) := by
  unfold SessionInner.setInboundLimits
  split
  · next hs => exact .closed hs
  · next o hs =>
    dsimp only
    split_ifs with h1 h2
    · exact .exceeded hs (.inl rfl)
    · exact .exceeded hs (.inr rfl)
    · exact .limited hs (not_lt.mp h1) (not_lt.mp h2)

theorem setAutoreplyTimeout_cases (s : SessionInner M) (timeout : ℕ) :
    (∃ e, s.state = .closed e ∧ s.setAutoreplyTimeout timeout = s) ∨
    ∃ o, s.state = .opened o ∧ s.setAutoreplyTimeout timeout =
      { s with state := .opened { o with autoreplyTimeout := timeout } } := by
  unfold SessionInner.setAutoreplyTimeout
  split
  · next e hs => exact .inl ⟨e, hs, rfl⟩
  · next o hs => exact .inr ⟨o, hs, rfl⟩

/-! ### Submitting -/

/-- The outcomes of an accepted `request` or `reply`. -/
inductive Submitted (s : SessionInner M) (body : OutgoingBody M) (deadline now : ℕ) :
    SessionInner M → Prop
  /-- Past the deadline, the promise fails and the ID of a reply is released. -/
  | late {o} : s.state = .opened o → deadline ≤ now → Submitted s body deadline now
      { s with
        state := .opened { o with
          reservedIds := body.replyId.toList.foldl Finset.erase o.reservedIds }
        shared := PendingOperation.fail ⟨deadline, (s.shared.pair body.isRequest).1⟩ .timeout now
          (s.shared.pair body.isRequest).2
        log := s.log ++ body.replyId.toList.map .expired }
  | queued {o} : s.state = .opened o → now < deadline → Submitted s body deadline now
      { s with
        state := .opened { o with
          outgoing := o.outgoing ++ [⟨body, s.nextKey⟩]
          operations := o.operations.insert s.nextKey
            ⟨deadline, (s.shared.pair body.isRequest).1⟩ }
        shared := (s.shared.pair body.isRequest).2
        nextKey := s.nextKey + 1
        log := s.log ++ [.queued s.nextKey s.shared.nextChannel body] }

theorem submit_cases {body : OutgoingBody M} {deadline now : ℕ}
    (h : s.submit body deadline now = .ok s') : Submitted s body deadline now s' := by
  unfold SessionInner.submit SessionInner.enqueue at h
  dsimp only at h
  split at h
  · cases h
  · next o hs =>
    split_ifs at h with hd
    · cases h; exact .late hs hd
    · cases h; exact .queued hs (not_le.mp hd)

/-- Only a closed session refuses. -/
theorem submit_error {body : OutgoingBody M} {deadline now : ℕ} {e : Error}
    (h : s.submit body deadline now = .error e) : s.state = .closed e := by
  unfold SessionInner.submit SessionInner.enqueue at h
  dsimp only at h
  split at h
  · next hs => cases h; exact hs
  · split_ifs at h

/-! ### Incoming messages -/

/-- The outcomes of `handle_message`, with what it returns to the reader. -/
inductive Handled (codec : Codec M) (s : SessionInner M) (bytes : Bytes) (now : ℕ) :
    SessionInner M → Except Error (Option ℕ) → Prop
  | unparsed : codec.decodeHeader s.side bytes = none →
      Handled codec s bytes now s (.error .malformed)
  | failedRequest {header} : codec.decodeHeader s.side bytes = some header →
      MessageKind.fromId header.id s.side.parity = .request → header.failed = true →
      Handled codec s bytes now s (.error .malformed)
  | closed {error} : s.state = .closed error → Handled codec s bytes now s (.error error)
  | duplicate {header o} : codec.decodeHeader s.side bytes = some header →
      MessageKind.fromId header.id s.side.parity = .request → s.state = .opened o →
      header.id ∈ o.reservedIds → Handled codec s bytes now s (.error .malformed)
  /-- A limit refuses the request and leaves the queues untouched. -/
  | refused {o error} : s.state = .opened o →
      error = .inboundRequestLimitExceeded o.maxInboundRequests ∨
        error = .inboundByteLimitExceeded o.maxInboundBytes →
      Handled codec s bytes now s (.error error)
  | unknown {header o} : codec.decodeHeader s.side bytes = some header →
      MessageKind.fromId header.id s.side.parity = .request → s.state = .opened o →
      header.id ∉ o.reservedIds → o.reservedIds.card < o.maxInboundRequests →
      header.unknown = true → Handled codec s bytes now
        { s with
          state := .opened { o with reservedIds := insert header.id o.reservedIds }
          log := s.log ++ [.admitted header.id] } (.ok (some header.id))
  | admitted {header o} : codec.decodeHeader s.side bytes = some header →
      MessageKind.fromId header.id s.side.parity = .request → header.failed = false →
      s.state = .opened o →
      header.id ∉ o.reservedIds → o.reservedIds.card < o.maxInboundRequests →
      header.unknown = false → s.shared.retainedBytes + bytes.length ≤ usizeMax →
      s.shared.retainedBytes + bytes.length ≤ o.maxInboundBytes → Handled codec s bytes now
        { s with
          state := .opened { o with
            reservedIds := insert header.id o.reservedIds
            incoming := o.incoming ++ [(header.id, ⟨bytes, header, bytes.length⟩)] }
          shared := { s.shared with retainedBytes := s.shared.retainedBytes + bytes.length }
          log := s.log ++ [.admitted header.id] } (.ok none)
  | unmatched {header o} : codec.decodeHeader s.side bytes = some header →
      MessageKind.fromId header.id s.side.parity = .response → s.state = .opened o →
      o.outstanding.lookup header.id = none → Handled codec s bytes now s (.ok none)
  /-- The request has already timed out. -/
  | late {header o key} : codec.decodeHeader s.side bytes = some header →
      MessageKind.fromId header.id s.side.parity = .response → s.state = .opened o →
      o.outstanding.lookup header.id = some key → o.operations.lookup key = none →
      Handled codec s bytes now
        { s with state := .opened { o with outstanding := o.outstanding.erase header.id } }
        (.ok none)
  /-- The operation is removed and its promise gets a result. -/
  | completed {header o key operation w result} :
      codec.decodeHeader s.side bytes = some header →
      MessageKind.fromId header.id s.side.parity = .response → s.state = .opened o →
      o.outstanding.lookup header.id = some key → o.operations.lookup key = some operation →
      operation.completeResponse now s.shared bytes header o.maxInboundBytes = .ok (w, result) →
      Handled codec s bytes now
        { s with
          state := .opened { o with
            outstanding := o.outstanding.erase header.id
            operations := o.operations.erase key }
          shared := w } (result.map fun _ => none)

theorem handleMessage_cases {bytes : Bytes} {now : ℕ} {result : Except Error (Option ℕ)}
    (h : s.handleMessage codec bytes now = .ok (s', result)) :
    Handled codec s bytes now s' result := by
  unfold SessionInner.handleMessage at h
  split at h
  · next hd => cases h; exact .unparsed hd
  · next header hd =>
    unfold SessionInner.route at h
    split at h
    · next hk =>
      by_cases hf : header.failed = true
      · rw [if_pos hf] at h; cases h; exact .failedRequest hd hk hf
      · rw [if_neg hf] at h
        split at h
        · next hs => cases h; exact .closed hs
        · next o hs =>
          unfold SessionInner.admitRequest at h
          by_cases h1 : header.id ∈ o.reservedIds
          · simp only [h1, if_true] at h; cases h; exact .duplicate hd hk hs h1
          by_cases h2 : o.maxInboundRequests ≤ o.reservedIds.card
          · simp only [h1, h2, if_true, if_false] at h; cases h; exact .refused hs (.inl rfl)
          cases h3 : header.unknown with
          | true =>
            simp only [h1, h2, h3, if_true, if_false] at h
            cases h
            exact .unknown hd hk hs h1 (not_le.mp h2) h3
          | false =>
            simp only [h1, h2, h3, if_false, Bool.false_eq_true] at h
            cases hn : IncomingEnvelope.new bytes header s.shared.retainedBytes
                o.maxInboundBytes with
            | error e =>
              rw [hn] at h
              cases h
              unfold IncomingEnvelope.new at hn
              split at hn
              · cases hn
              · cases hn; exact .refused hs (.inr rfl)
            | ok p =>
              obtain ⟨message, total⟩ := p
              rw [hn] at h
              cases h
              obtain ⟨rfl, rfl, hu, hl⟩ := new_eq_ok.mp hn
              exact .admitted hd hk (by simpa using hf) hs h1 (not_le.mp h2) h3 hu hl
    · next hk =>
      split at h
      · next hs => cases h; exact .closed hs
      · next o hs =>
        split at h
        · next hl => cases h; exact .unmatched hd hk hs hl
        · next key hl =>
          dsimp only at h
          split at h
          · next ho => cases h; exact .late hd hk hs hl ho
          · next operation ho =>
            split at h
            · cases h
            · next w result hc => cases h; exact .completed hd hk hs hl ho hc

/-- The outcomes of `complete_response`. -/
inductive Completed (operation : PendingOperation) (now : ℕ) (w : Shared) (bytes : Bytes)
    (header : Header) (limit : ℕ) : Shared → Except Error Unit → Prop
  | late : operation.deadline ≤ now →
      Completed operation now w bytes header limit (operation.fail .timeout now w) (.ok ())
  | answered : now < operation.deadline → operation.sender.response = true →
      w.retainedBytes + bytes.length ≤ usizeMax → w.retainedBytes + bytes.length ≤ limit →
      Completed operation now w bytes header limit
        (operation.sender.send { w with retainedBytes := w.retainedBytes + bytes.length }
          (.ok (.response ⟨bytes, header, bytes.length⟩))).1 (.ok ())
  /-- The bytes do not fit; only a promise that still exists makes this close the session. -/
  | refused : now < operation.deadline → operation.sender.response = true →
      Completed operation now w bytes header limit
        (operation.sender.send w (.error (.inboundByteLimitExceeded limit))).1
        (if (w.channels operation.sender.channel).receiver then
          .error (.inboundByteLimitExceeded limit) else .ok ())

theorem completeResponse_cases {operation : PendingOperation} {now : ℕ} {w w' : Shared}
    {bytes : Bytes} {header : Header} {limit : ℕ} {result : Except Error Unit}
    (h : operation.completeResponse now w bytes header limit = .ok (w', result)) :
    Completed operation now w bytes header limit w' result := by
  unfold PendingOperation.completeResponse at h
  by_cases hd : operation.deadline ≤ now
  · rw [if_pos hd] at h; cases h; exact .late hd
  · rw [if_neg hd] at h
    cases hr : operation.sender.response with
    | false => rw [hr, if_pos rfl] at h; cases h
    | true =>
      simp only [hr, Bool.true_eq_false, if_false] at h
      cases hn : IncomingEnvelope.new bytes header w.retainedBytes limit with
      | error e =>
        have he : e = .inboundByteLimitExceeded limit := by
          unfold IncomingEnvelope.new at hn
          split at hn
          · cases hn
          · cases hn; rfl
        rw [hn, he] at h
        simp only [send_delivered, Except.ok.injEq, Prod.mk.injEq] at h
        obtain ⟨rfl, rfl⟩ := h
        exact .refused (not_le.mp hd) hr
      | ok p =>
        obtain ⟨message, total⟩ := p
        rw [hn] at h
        cases h
        obtain ⟨rfl, rfl, hu, hl⟩ := new_eq_ok.mp hn
        exact .answered (not_le.mp hd) hr hu hl

/-- Answering panics only for an operation that is not a request. -/
theorem handleMessage_panic {bytes : Bytes} {now : ℕ} {p : Panic}
    (h : s.handleMessage codec bytes now = .error p) :
    p = .replyAnswered ∧ ∃ o id key operation, s.state = .opened o ∧
      o.outstanding.lookup id = some key ∧ o.operations.lookup key = some operation ∧
      operation.sender.response = false := by
  unfold SessionInner.handleMessage at h
  split at h
  · cases h
  · next header _ =>
    unfold SessionInner.route at h
    split at h
    · split at h
      · cases h
      · split at h
        · cases h
        · split at h <;> cases h
    · split at h
      · cases h
      · next o hs =>
        split at h
        · cases h
        · next key hl =>
          dsimp only at h
          split at h
          · cases h
          · next operation ho =>
            split at h
            · next hc =>
              cases h
              unfold PendingOperation.completeResponse at hc
              split_ifs at hc with _ hr
              · cases hc; exact ⟨rfl, o, header.id, key, operation, hs, hl, ho, hr⟩
              · split at hc <;> cases hc
            · cases h

theorem takeIncoming_cases {id : ℕ} {message : IncomingEnvelope}
    (h : s.takeIncoming = some (s', id, message)) :
    ∃ o rest, s.state = .opened o ∧ o.incoming = (id, message) :: rest ∧
      s' = { s with state := .opened { o with incoming := rest } } := by
  unfold SessionInner.takeIncoming at h
  split at h
  · cases h
  · next o hs =>
    split at h
    · cases h
    · next i m rest hi => cases h; exact ⟨o, rest, hs, hi, rfl⟩

/-! ### The writer -/

/-- The outcomes of `next_outgoing`, after its expiry pass. -/
inductive PickedUp (s : SessionInner M) (now : ℕ) :
    SessionInner M → SessionInner.Pickup M → Prop
  | closed {e} : (s.expire now).state = .closed e → PickedUp s now (s.expire now) .closed
  | again : PickedUp s now (s.expire now) .again
  | wait : PickedUp s now (s.expire now) .wait
  | request {o m rest message id} : (s.expire now).state = .opened o → o.outgoing = m :: rest →
      m.body = .request message → o.nextId = some id → PickedUp s now
        { s.expire now with
          state := .opened { o with
            outgoing := rest
            nextId := if id + 2 ≤ u64Max then some (id + 2) else none
            outstanding := o.outstanding.insert id m.key }
          log := (s.expire now).log ++ [.assigned id m.key] } (.taken id m)
  | reply {o m rest id result} : (s.expire now).state = .opened o → o.outgoing = m :: rest →
      m.body = .reply id result → PickedUp s now
        { s.expire now with
          state := .opened { o with
            outgoing := rest
            reservedIds := o.reservedIds.erase id }
          log := (s.expire now).log ++ [.taken id] } (.taken id m)

theorem nextOutgoing_cases {now : ℕ} {pickup : SessionInner.Pickup M}
    (h : s.nextOutgoing now = .ok (s', pickup)) : PickedUp s now s' pickup := by
  unfold SessionInner.nextOutgoing at h
  dsimp only at h
  split_ifs at h
  · cases h; exact .again
  · split at h
    · next hs => cases h; exact .closed hs
    · next o hs =>
      split at h
      · cases h; exact .wait
      · next m rest hq =>
        split at h
        · next hb =>
          split at h
          · cases h
          · next id hi => cases h; exact .request hs hq hb hi
        · next hb => cases h; exact .reply hs hq hb

/-- Picking up panics only when the IDs are exhausted. -/
theorem nextOutgoing_panic {now : ℕ} {p : Panic} (h : s.nextOutgoing now = .error p) :
    p = .idsExhausted := by
  unfold SessionInner.nextOutgoing at h
  dsimp only at h
  split_ifs at h
  split at h
  · cases h
  · split at h
    · cases h
    · split at h
      · split at h
        · cases h; rfl
        · cases h
      · cases h

theorem withdraw_cases (s : SessionInner M) (id : ℕ) :
    (∃ e, s.state = .closed e ∧ s.withdraw id = s) ∨
    ∃ o, s.state = .opened o ∧ s.withdraw id =
      { s with state := .opened { o with outstanding := o.outstanding.erase id } } := by
  unfold SessionInner.withdraw
  split
  · next e hs => exact .inl ⟨e, hs, rfl⟩
  · next o hs => exact .inr ⟨o, hs, rfl⟩

/-- The outcomes of `record_write`. -/
inductive Recorded (s : SessionInner M) (key : ℕ) (result : Except Error Unit) (now : ℕ) :
    SessionInner M → Prop
  /-- Closed, settled by something else, or a request written in time. -/
  | kept : Recorded s key result now s
  | failed {o operation error} : s.state = .opened o →
      o.operations.lookup key = some operation → Recorded s key result now
        { s with
          state := .opened { o with operations := o.operations.erase key }
          shared := operation.fail error now s.shared }
  | written {o operation} : s.state = .opened o → o.operations.lookup key = some operation →
      now < operation.deadline → operation.sender.response = false → Recorded s key result now
        { s with
          state := .opened { o with operations := o.operations.erase key }
          shared := (operation.sender.send s.shared (.ok .written)).1 }

theorem recordWrite_cases (s : SessionInner M) (key : ℕ) (result : Except Error Unit) (now : ℕ) :
    Recorded s key result now (s.recordWrite key result now) := by
  unfold SessionInner.recordWrite
  split
  · exact .kept
  · next o hs =>
    split
    · exact .kept
    · next operation ho =>
      dsimp only
      split
      · exact .failed hs ho
      · split_ifs with hd hr
        · exact .failed hs ho
        · exact .kept
        · exact .written hs ho (not_le.mp hd) (by simpa using hr)

end ArkWire.Protocol.Sections
