import ArkWire.Protocol.Session

/-! # What a section does under the state lock, and what it publishes

`Session` takes each critical section as one step, settled included. Here a section is taken
apart: what it does to the queues, and the results it then publishes one by one under the
notification locks of their promises, with steps of other threads in between. Published without
interruption, they give the sections of `Session` (`close_eq`, `expire_eq`, `enqueue_eq`,
`recordWrite_eq`, `setInboundLimits_eq`, `route_eq`).

The byte counter is an argument: consumers change it without the state lock. -/

namespace ArkWire.Protocol.Publication

open ArkWire.Protocol.Errors ArkWire.Protocol.Envelope ArkWire.Protocol.Promise
open ArkWire.Protocol.Operation ArkWire.Protocol.Session

variable {M : Type}

/-- A result on its way to a promise. -/
structure Settled where
  sender : ResultSender
  result : Except Error PromiseResult

/-- What `PendingOperation::fail` publishes. -/
def failure (operation : PendingOperation) (error : Error) (now : ℕ) : Settled :=
  ⟨operation.sender, .error (if operation.deadline ≤ now then .timeout else error)⟩

/-- What a section answers: the results to publish, the error to return, and what it took. -/
structure Report (M : Type) where
  settled : List Settled := []
  /-- The error the function returns. -/
  error : Option Error := none
  /-- The error it returns if the result it publishes is delivered. -/
  overLimit : Option Error := none
  /-- A request to answer as unknown. -/
  unknown : Option ℕ := none
  incoming : Option (ℕ × IncomingEnvelope) := none
  outgoing : Option (ℕ × OutgoingMessage M) := none
  timeout : ℕ := 0
  closed : Bool := false

/-! ### The sections -/

/-- `State::close`. -/
def close (error : Error) (now : ℕ) : State M → State M × Report M
  | .closed first => (.closed first, {})
  | .opened o =>
    (.closed error,
      { settled := o.operations.entries.map fun e => failure e.2 error now, closed := true })

/-- `State::expire`. -/
def expire (now : ℕ) : State M → State M × Report M
  | .closed first => (.closed first, { closed := true })
  | .opened o =>
    let operations :=
      (expiredKeys o.operations now).foldl (fun ops key => ops.erase key) o.operations
    let retained := fun m : OutgoingMessage M => (operations.lookup m.key).isSome
    let discarded := (o.outgoing.filter fun m => !retained m).filterMap (·.body.replyId)
    (.opened { o with
        operations
        outgoing := o.outgoing.filter retained
        reservedIds := discarded.foldl Finset.erase o.reservedIds },
      { settled := (o.operations.entries.filter fun e => e.2.deadline ≤ now).map fun e =>
          failure e.2 .timeout now })

/-- The section of `set_inbound_limits`. -/
def setInboundLimits (requests bytes now retained : ℕ) : State M → State M × Report M
  | .closed first => (.closed first, {})
  | .opened o =>
    let o := { o with maxInboundRequests := requests, maxInboundBytes := bytes }
    if requests < o.reservedIds.card then
      close (.inboundRequestLimitExceeded requests) now (.opened o)
    else if bytes < retained then close (.inboundByteLimitExceeded bytes) now (.opened o)
    else (.opened o, {})

/-- The section of `set_autoreply_timeout`. -/
def setAutoreplyTimeout (timeout : ℕ) : State M → State M × Report M
  | .closed first => (.closed first, {})
  | .opened o => (.opened { o with autoreplyTimeout := timeout }, {})

/-- The section of `enqueue`, for an operation under a fresh key. -/
def enqueue (body : OutgoingBody M) (operation : PendingOperation) (key now : ℕ) :
    State M → State M × Report M
  | .closed first => (.closed first, { error := some first })
  | .opened o =>
    if operation.deadline ≤ now then
      (.opened { o with reservedIds := body.replyId.toList.foldl Finset.erase o.reservedIds },
        { settled := [failure operation .timeout now] })
    else
      (.opened { o with
        outgoing := o.outgoing ++ [⟨body, key⟩]
        operations := o.operations.insert key operation }, {})

/-- The section of `autoreply` that reads the timeout. -/
def autoreplyTimeout : State M → State M × Report M
  | .closed first => (.closed first, { closed := true })
  | .opened o => (.opened o, { timeout := o.autoreplyTimeout })

/-- The section of `record_write`. -/
def recordWrite (key : ℕ) (result : Except Error Unit) (now : ℕ) : State M → State M × Report M
  | .closed first => (.closed first, {})
  | .opened o =>
    match o.operations.lookup key with
    | none => (.opened o, {})
    | some operation =>
      let removed := { o with operations := o.operations.erase key }
      match result with
      | .error error => (.opened removed, { settled := [failure operation error now] })
      | .ok _ =>
        if operation.deadline ≤ now then
          (.opened removed, { settled := [failure operation .timeout now] })
        else if operation.sender.response then (.opened o, {})
        else (.opened removed, { settled := [⟨operation.sender, .ok .written⟩] })

/-- `admit_request`. -/
def admitRequest (o : OpenState M) (header : Header) (bytes : Bytes) (retained : ℕ) :
    Except Error (OpenState M) :=
  if header.id ∈ o.reservedIds then .error .malformed
  else if o.maxInboundRequests ≤ o.reservedIds.card then
    .error (.inboundRequestLimitExceeded o.maxInboundRequests)
  else if header.unknown then .ok { o with reservedIds := insert header.id o.reservedIds }
  else
    match IncomingEnvelope.new bytes header retained o.maxInboundBytes with
    | .error error => .error error
    | .ok (message, _) =>
      .ok { o with
        reservedIds := insert header.id o.reservedIds
        incoming := o.incoming ++ [(header.id, message)] }

/-- `complete_response`. -/
def completeResponse (operation : PendingOperation) (bytes : Bytes) (header : Header)
    (limit now retained : ℕ) : Except Panic (Report M) :=
  if operation.deadline ≤ now then .ok { settled := [failure operation .timeout now] }
  else if operation.sender.response = false then .error .replyAnswered
  else
    match IncomingEnvelope.new bytes header retained limit with
    | .ok (message, _) => .ok { settled := [⟨operation.sender, .ok (.response message)⟩] }
    | .error error =>
      .ok { settled := [⟨operation.sender, .error error⟩], overLimit := some error }

/-- The section of `handle_message` for a decoded header. -/
def route (side : Side) (header : Header) (bytes : Bytes) (now retained : ℕ) :
    State M → Except Panic (State M × Report M)
  | .closed first =>
    match MessageKind.fromId header.id side.parity with
    | .request =>
      .ok (.closed first, { error := some (if header.failed then .malformed else first) })
    | .response => .ok (.closed first, { error := some first })
  | .opened o =>
    match MessageKind.fromId header.id side.parity with
    | .request =>
      if header.failed then .ok (.opened o, { error := some .malformed })
      else
        match admitRequest o header bytes retained with
        | .error error => .ok (.opened o, { error := some error })
        | .ok o =>
          .ok (.opened o, { unknown := if header.unknown then some header.id else none })
    | .response =>
      match o.outstanding.lookup header.id with
      | none => .ok (.opened o, {})
      | some key =>
        let o := { o with outstanding := o.outstanding.erase header.id }
        match o.operations.lookup key with
        | none => .ok (.opened o, {})
        | some operation =>
          let o := { o with operations := o.operations.erase key }
          (completeResponse operation bytes header o.maxInboundBytes now retained).map
            fun report => (.opened o, report)

/-- The section of `recv`. -/
def takeIncoming : State M → State M × Report M
  | .closed first => (.closed first, { error := some first })
  | .opened o =>
    match o.incoming with
    | [] => (.opened o, {})
    | next :: rest => (.opened { o with incoming := rest }, { incoming := some next })

/-- What `next_outgoing` does once no callback is waiting. -/
def nextOutgoing : State M → Except Panic (State M × Report M)
  | .closed first => .ok (.closed first, { closed := true })
  | .opened o =>
    match o.outgoing with
    | [] => .ok (.opened o, {})
    | message :: rest =>
      match message.body with
      | .request _ =>
        match o.nextId with
        | none => .error .idsExhausted
        | some id =>
          .ok (.opened { o with
            outgoing := rest
            nextId := if id + 2 ≤ u64Max then some (id + 2) else none
            outstanding := o.outstanding.insert id message.key },
              { outgoing := some (id, message) })
      | .reply id _ =>
        .ok (.opened { o with outgoing := rest, reservedIds := o.reservedIds.erase id },
          { outgoing := some (id, message) })

/-- The section of `run_writer` after a refused encoding. -/
def withdraw (id : ℕ) : State M → State M × Report M
  | .closed first => (.closed first, {})
  | .opened o => (.opened { o with outstanding := o.outstanding.erase id }, {})

/-! ### The sections of `Session` -/

/-- Publishes results in turn, without interruption. -/
def publishAll (settled : List Settled) (w : Shared) : Shared :=
  settled.foldl (fun w p => (p.sender.send w p.result).1) w

/-- A section and its publications in one step. -/
def joined (w : Shared) (x : State M × Report M) : State M × Shared :=
  (x.1, publishAll x.2.settled w)

/-- `failAll` removes the operations, and publishes their failures. -/
theorem failAll_eq (error : Error) (now : ℕ) :
    ∀ (es : List (Sigma fun _ : ℕ => PendingOperation)) (operations : Operations) (w : Shared),
      (es.map Sigma.fst).Nodup → (∀ e ∈ es, operations.lookup e.1 = some e.2) →
      failAll error now (es.map Sigma.fst) (operations, w) =
        ((es.map Sigma.fst).foldl (fun ops key => ops.erase key) operations,
          publishAll (es.map fun e => failure e.2 error now) w)
  | [], _, _, _, _ => rfl
  | e :: es, operations, w, hnodup, hlookup => by
    obtain ⟨hnotin, hrest⟩ := List.nodup_cons.mp hnodup
    have hhead : operations.lookup e.1 = some e.2 := hlookup e List.mem_cons_self
    have htail : ∀ e' ∈ es, (operations.erase e.1).lookup e'.1 = some e'.2 := by
      intro e' he'
      have hne : e'.1 ≠ e.1 := fun heq => hnotin (heq ▸ List.mem_map_of_mem he')
      rw [AList.lookup_erase_ne hne]
      exact hlookup e' (List.mem_cons_of_mem _ he')
    rw [List.map_cons, failAll, hhead]
    exact failAll_eq error now es _ _ hrest htail

variable (s : SessionInner M)

theorem close_eq (error : Error) (now : ℕ) :
    ((s.close error now).1.state, (s.close error now).1.shared) =
      joined s.shared (close error now s.state) := by
  obtain ⟨side, state, w, nextKey, log⟩ := s
  cases state with
  | closed first => rfl
  | opened o =>
    have hfail := failAll_eq error now o.operations.entries o.operations w
      o.operations.nodupKeys fun e he => AList.mem_lookup_iff.mpr he
    exact congrArg (fun x => (State.closed error, x.2)) hfail

theorem expire_eq (now : ℕ) : ((s.expire now).state, (s.expire now).shared) =
    joined s.shared (expire now s.state) := by
  obtain ⟨side, state, w, nextKey, log⟩ := s
  cases state with
  | closed first => rfl
  | opened o =>
    have hsub : ((o.operations.entries.filter fun e => e.2.deadline ≤ now).map Sigma.fst).Nodup :=
      List.Nodup.sublist (List.filter_sublist.map _) o.operations.nodupKeys
    have hfail := failAll_eq .timeout now (o.operations.entries.filter fun e => e.2.deadline ≤ now)
      o.operations w hsub fun e he => AList.mem_lookup_iff.mpr (List.mem_filter.mp he).1
    have hexpired : failAll .timeout now (expiredKeys o.operations now) (o.operations, w) = _ :=
      hfail
    simp only [SessionInner.expire, SessionInner.expireOpen, hexpired, joined, expire]
    rfl

theorem setInboundLimits_eq (requests bytes now : ℕ) :
    ((s.setInboundLimits requests bytes now).1.state,
      (s.setInboundLimits requests bytes now).1.shared) =
      joined s.shared (setInboundLimits requests bytes now s.shared.retainedBytes s.state) := by
  obtain ⟨side, state, w, nextKey, log⟩ := s
  cases state with
  | closed first => rfl
  | opened o =>
    simp only [SessionInner.setInboundLimits, setInboundLimits]
    split_ifs
    · exact close_eq _ _ _
    · exact close_eq _ _ _
    · rfl

theorem enqueue_eq (body : OutgoingBody M) (operation : PendingOperation) (now : ℕ) :
    (s.enqueue body operation now).map (fun s' => (s'.state, s'.shared)) =
      match (enqueue body operation s.nextKey now s.state).2.error with
      | some error => .error error
      | none => .ok (joined s.shared (enqueue body operation s.nextKey now s.state)) := by
  obtain ⟨side, state, w, nextKey, log⟩ := s
  cases state with
  | closed first => rfl
  | opened o =>
    simp only [SessionInner.enqueue, enqueue]
    split_ifs <;> rfl

theorem recordWrite_eq (key : ℕ) (result : Except Error Unit) (now : ℕ) :
    ((s.recordWrite key result now).state, (s.recordWrite key result now).shared) =
      joined s.shared (recordWrite key result now s.state) := by
  obtain ⟨side, state, w, nextKey, log⟩ := s
  cases state with
  | closed first => rfl
  | opened o =>
    simp only [SessionInner.recordWrite, recordWrite]
    cases o.operations.lookup key with
    | none => rfl
    | some operation =>
      cases result with
      | error error => rfl
      | ok _ =>
        dsimp only
        split_ifs <;> rfl

/-- What `handle_message` makes of a report: the error for its caller, or a request to answer. -/
def answer (delivered : Bool) (report : Report M) : Except Error (Option ℕ) :=
  match report.error, report.overLimit with
  | some error, _ => .error error
  | none, some error => if delivered then .error error else .ok report.unknown
  | none, none => .ok report.unknown

/-- A publication does the same to the channels whatever the byte counter. -/
theorem send_retainedBytes (sender : ResultSender) (w : Shared) (n : ℕ)
    (result : Except Error PromiseResult) :
    (sender.send { w with retainedBytes := n } result).1.channels =
    (sender.send w result).1.channels ∧
      (sender.send { w with retainedBytes := n } result).1.callbacks =
        (sender.send w result).1.callbacks := by
  have hrelease : ∀ w : Shared, (w.releaseResult result).channels = w.channels ∧
      (w.releaseResult result).callbacks = w.callbacks := by
    intro w
    unfold Shared.releaseResult
    split <;> exact ⟨rfl, rfl⟩
  unfold ResultSender.send
  dsimp only
  split_ifs
  · exact ⟨rfl, rfl⟩
  · simp [Shared.modify, hrelease]

theorem route_eq (header : Header) (bytes : Bytes) (now : ℕ) :
    (s.route header bytes now).map
        (fun x => (x.1.state, x.1.shared.channels, x.1.shared.callbacks, x.2)) =
      (route s.side header bytes now s.shared.retainedBytes s.state).map fun x =>
        (x.1, (publishAll x.2.settled s.shared).channels,
          (publishAll x.2.settled s.shared).callbacks,
          answer (x.2.settled.any fun p => (s.shared.channels p.sender.channel).receiver) x.2) := by
  obtain ⟨side, state, w, nextKey, log⟩ := s
  unfold SessionInner.route
  cases state with
  | closed first =>
    simp only [route]
    cases MessageKind.fromId header.id side.parity with
    | request => cases header.failed <;> rfl
    | response => rfl
  | opened o =>
    simp only [route]
    cases MessageKind.fromId header.id side.parity with
    | request =>
      cases header.failed with
      | true => rfl
      | false =>
        simp only [SessionInner.admitRequest, admitRequest, Bool.false_eq_true, if_false]
        by_cases hreserved : header.id ∈ o.reservedIds
        · simp only [if_pos hreserved]
          rfl
        by_cases hlimit : o.maxInboundRequests ≤ o.reservedIds.card
        · simp only [if_neg hreserved, if_pos hlimit]
          rfl
        simp only [if_neg hreserved, if_neg hlimit]
        cases header.unknown with
        | true => rfl
        | false =>
          simp only [Bool.false_eq_true, if_false]
          cases IncomingEnvelope.new bytes header w.retainedBytes o.maxInboundBytes with
          | error error => rfl
          | ok x => rfl
    | response =>
      cases o.outstanding.lookup header.id with
      | none => rfl
      | some key =>
        dsimp only
        cases o.operations.lookup key with
        | none => rfl
        | some operation =>
          simp only [PendingOperation.completeResponse, completeResponse]
          by_cases hlate : operation.deadline ≤ now
          · simp only [if_pos hlate]
            rfl
          by_cases hreply : operation.sender.response = false
          · simp only [if_neg hlate, if_pos hreply]
            rfl
          simp only [if_neg hlate, if_neg hreply]
          cases IncomingEnvelope.new bytes header w.retainedBytes o.maxInboundBytes with
          | error error =>
            cases hreceiver : (w.channels operation.sender.channel).receiver with
            | true => simp [Except.map, publishAll, answer, hreceiver]
            | false => simp [Except.map, publishAll, answer, hreceiver]
          | ok x =>
            obtain ⟨message, total⟩ := x
            have hsend := send_retainedBytes operation.sender w total (.ok (.response message))
            simp [Except.map, publishAll, answer, hsend]

end ArkWire.Protocol.Publication
