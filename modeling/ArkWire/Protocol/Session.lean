import ArkWire.Protocol.Operation

/-! # The critical sections of a session

`SessionInner` is the state behind the session's lock together with what its critical sections share
with promises and consumers. Each function below is one critical section of `session.rs`, taking the
clock readings it makes as arguments. What a thread does between two critical sections is in
`System`.

`log` is ghost: the steps of the requests and replies through the session, in the order of the
critical sections. -/

namespace ArkWire.Protocol.Session

open ArkWire.Protocol.Errors ArkWire.Protocol.Envelope ArkWire.Protocol.Promise
open ArkWire.Protocol.Operation

variable {M : Type}

/-- `DEFAULT_MAX_INBOUND_REQUESTS`. -/
def defaultMaxInboundRequests : ℕ := 1024

/-- `DEFAULT_MAX_INBOUND_BYTES`. -/
def defaultMaxInboundBytes : ℕ := 16 * 1024 * 1024

/-- `DEFAULT_AUTOREPLY_TIMEOUT`, in nanoseconds. -/
def defaultAutoreplyTimeout : ℕ := 5 * 10 ^ 9

/-- `u64::MAX`. -/
def u64Max : ℕ := 2 ^ 64 - 1

/-- Ghost record of one step of a request or a reply. -/
inductive Event (M : Type) where
  /-- Accepted by `enqueue`, with the key and the promise of its operation. -/
  | queued (key : ℕ) (channel : ℕ) (body : OutgoingBody M)
  /-- Given its wire ID by `next_outgoing`. -/
  | assigned (id : ℕ) (key : ℕ)
  /-- Reserved by `admit_request`. -/
  | admitted (id : ℕ)
  /-- Returned by `recv`, with its responder. -/
  | received (id : ℕ) (message : M)
  /-- Answered by its responder, or automatically for it. -/
  | replied (id : ℕ) (result : Except SchemaError M) (automatic : Bool)
  /-- Its reply taken by the writer. -/
  | taken (id : ℕ)
  /-- Its reply discarded at its deadline. -/
  | expired (id : ℕ)

/-- The queues of an open session. -/
structure OpenState (M : Type) where
  maxInboundRequests : ℕ := defaultMaxInboundRequests
  maxInboundBytes : ℕ := defaultMaxInboundBytes
  autoreplyTimeout : ℕ := defaultAutoreplyTimeout
  incoming : List (ℕ × IncomingEnvelope) := []
  reservedIds : Finset ℕ := ∅
  outgoing : List (OutgoingMessage M) := []
  nextId : Option ℕ
  outstanding : AList (fun _ : ℕ => ℕ) := ∅
  operations : Operations := ∅

/-- An open session's queues, or the error that closed the session. -/
inductive State (M : Type) where
  | opened (o : OpenState M)
  | closed (error : Error)

/-- The session behind its lock, with what its critical sections share with others. -/
structure SessionInner (M : Type) where
  side : Side
  state : State M
  shared : Shared
  nextKey : ℕ
  log : List (Event M)

/-- `SessionInner::new`. -/
def SessionInner.new (side : Side) : SessionInner M where
  side := side
  state := .opened { nextId := some side.parity.first }
  shared := { channels := fun _ => { response := true }, nextChannel := 0, retainedBytes := 0,
              callbacks := [] }
  nextKey := 0
  log := []

namespace SessionInner

/-! ### The queues, empty once the session is closed -/

def operations (s : SessionInner M) : Operations :=
  match s.state with
  | .opened o => o.operations
  | .closed _ => ∅

def outgoing (s : SessionInner M) : List (OutgoingMessage M) :=
  match s.state with
  | .opened o => o.outgoing
  | .closed _ => []

def outstanding (s : SessionInner M) : AList fun _ : ℕ => ℕ :=
  match s.state with
  | .opened o => o.outstanding
  | .closed _ => ∅

def incoming (s : SessionInner M) : List (ℕ × IncomingEnvelope) :=
  match s.state with
  | .opened o => o.incoming
  | .closed _ => []

/-! ### Closing and expiry -/

/-- `State::close`: fails every pending operation, returning the old queues; a closed session keeps
its first reason. -/
def close (s : SessionInner M) (error : Error) (now : ℕ) :
    SessionInner M × Option (OpenState M) :=
  match s.state with
  | .closed _ => (s, none)
  | .opened o =>
    let (_, w) := failAll error now o.operations.keys (o.operations, s.shared)
    ({ s with state := .closed error, shared := w }, some o)

/-- `State::expire` on the queues: expired operations leave `operations` with `Timeout`, and the
messages without an operation leave `outgoing`, releasing the IDs of replies. The last component
lists the replies discarded. -/
def expireOpen (o : OpenState M) (now : ℕ) (w : Shared) : OpenState M × Shared × List ℕ :=
  let (operations, w) := failAll .timeout now (expiredKeys o.operations now) (o.operations, w)
  let retained := fun m : OutgoingMessage M => (operations.lookup m.key).isSome
  let discarded := (o.outgoing.filter fun m => !retained m).filterMap (·.body.replyId)
  ({ o with
      operations := operations
      outgoing := o.outgoing.filter retained
      reservedIds := discarded.foldl Finset.erase o.reservedIds }, w, discarded)

/-- `SessionInner::expire`, also the expiry pass of the deadline worker. -/
def expire (s : SessionInner M) (now : ℕ) : SessionInner M :=
  match s.state with
  | .closed _ => s
  | .opened o =>
    let (o, w, discarded) := expireOpen o now s.shared
    { s with state := .opened o, shared := w, log := s.log ++ discarded.map .expired }

/-- `SessionInner::set_inbound_limits`. -/
def setInboundLimits (s : SessionInner M) (requests bytes : ℕ) (now : ℕ) :
    SessionInner M × Option (OpenState M) :=
  match s.state with
  | .closed _ => (s, none)
  | .opened o =>
    let o := { o with maxInboundRequests := requests, maxInboundBytes := bytes }
    let s := { s with state := .opened o }
    if requests < o.reservedIds.card then s.close (.inboundRequestLimitExceeded requests) now
    else if bytes < s.shared.retainedBytes then s.close (.inboundByteLimitExceeded bytes) now
    else (s, none)

/-- `SessionInner::set_autoreply_timeout`. -/
def setAutoreplyTimeout (s : SessionInner M) (timeout : ℕ) : SessionInner M :=
  match s.state with
  | .closed _ => s
  | .opened o => { s with state := .opened { o with autoreplyTimeout := timeout } }

/-! ### Submitting requests and replies -/

/-- `SessionInner::enqueue`: a closed session returns its error; past the deadline the promise
fails at once and a reply's ID is released. -/
def enqueue (s : SessionInner M) (body : OutgoingBody M) (operation : PendingOperation)
    (now : ℕ) : Except Error (SessionInner M) :=
  match s.state with
  | .closed error => .error error
  | .opened o =>
    if operation.deadline ≤ now then
      let released := body.replyId.toList
      .ok { s with
        state := .opened { o with reservedIds := released.foldl Finset.erase o.reservedIds }
        shared := operation.fail .timeout now s.shared
        log := s.log ++ released.map .expired }
    else
      .ok { s with
        state := .opened { o with
          outgoing := o.outgoing ++ [⟨body, s.nextKey⟩]
          operations := o.operations.insert s.nextKey operation }
        nextKey := s.nextKey + 1
        log := s.log ++ [.queued s.nextKey operation.sender.channel body] }

/-- Creates the promise of a body and queues it. When `enqueue` refuses, the promise and its sender
are dropped together and never handed out. -/
def submit (s : SessionInner M) (body : OutgoingBody M) (deadline now : ℕ) :
    Except Error (SessionInner M) :=
  let (sender, w) := s.shared.pair body.isRequest
  enqueue { s with shared := w } body ⟨deadline, sender⟩ now

/-- `SessionInner::request`. -/
def request (s : SessionInner M) (message : M) (deadline now : ℕ) :
    Except Error (SessionInner M) := s.submit (.request message) deadline now

/-- `SessionInner::reply`. -/
def reply (s : SessionInner M) (id : ℕ) (result : Except SchemaError M) (deadline now : ℕ) :
    Except Error (SessionInner M) := s.submit (.reply id result) deadline now

/-- The section of `SessionInner::autoreply` that reads the timeout of an open session. -/
def autoreplyTimeout (s : SessionInner M) : Option ℕ :=
  match s.state with
  | .closed _ => none
  | .opened o => some o.autoreplyTimeout

/-! ### Incoming messages -/

/-- `SessionInner::admit_request`: refuses a duplicate, then a request beyond the limit, then bytes
beyond the limit. Unknown content keeps only its ID. -/
def admitRequest (o : OpenState M) (w : Shared) (header : Header) (bytes : Bytes) :
    Except Error (OpenState M × Shared) :=
  if header.id ∈ o.reservedIds then .error .malformed
  else if o.maxInboundRequests ≤ o.reservedIds.card then
    .error (.inboundRequestLimitExceeded o.maxInboundRequests)
  else if header.unknown then
    .ok ({ o with reservedIds := insert header.id o.reservedIds }, w)
  else
    match IncomingEnvelope.new bytes header w.retainedBytes o.maxInboundBytes with
    | .error error => .error error
    | .ok (message, total) =>
      .ok ({ o with
              reservedIds := insert header.id o.reservedIds
              incoming := o.incoming ++ [(header.id, message)] },
        { w with retainedBytes := total })

/-- The critical section of `SessionInner::handle_message` for a decoded header. It returns the
error the reader closes the session with, or the ID of an unknown request to answer. -/
def route (s : SessionInner M) (header : Header) (bytes : Bytes) (now : ℕ) :
    Except Panic (SessionInner M × Except Error (Option ℕ)) :=
  match MessageKind.fromId header.id s.side.parity with
  | .request =>
    if header.failed then .ok (s, .error .malformed)
    else
      match s.state with
      | .closed error => .ok (s, .error error)
      | .opened o =>
        match admitRequest o s.shared header bytes with
        | .error error => .ok (s, .error error)
        | .ok (o, w) =>
          .ok ({ s with state := .opened o, shared := w, log := s.log ++ [.admitted header.id] },
            .ok (if header.unknown then some header.id else none))
  | .response =>
    match s.state with
    | .closed error => .ok (s, .error error)
    | .opened o =>
      match o.outstanding.lookup header.id with
      | none => .ok (s, .ok none) -- unmatched
      | some key =>
        let o := { o with outstanding := o.outstanding.erase header.id }
        match o.operations.lookup key with
        | none => .ok ({ s with state := .opened o }, .ok none) -- late
        | some operation =>
          let o := { o with operations := o.operations.erase key }
          match operation.completeResponse now s.shared bytes header o.maxInboundBytes with
          | .error panic => .error panic
          | .ok (w, result) =>
            .ok ({ s with state := .opened o, shared := w }, result.map fun _ => none)

/-- `SessionInner::handle_message`. -/
def handleMessage (codec : Codec M) (s : SessionInner M) (bytes : Bytes) (now : ℕ) :
    Except Panic (SessionInner M × Except Error (Option ℕ)) :=
  match codec.decodeHeader s.side bytes with
  | none => .ok (s, .error .malformed)
  | some header => s.route header bytes now

/-- The critical section of `SessionInner::recv`: the next queued request. `none` waits. -/
def takeIncoming (s : SessionInner M) : Option (SessionInner M × ℕ × IncomingEnvelope) :=
  match s.state with
  | .closed _ => none
  | .opened o =>
    match o.incoming with
    | [] => none
    | (id, message) :: rest =>
      some ({ s with state := .opened { o with incoming := rest } }, id, message)

/-! ### The writer -/

/-- What one critical section of `next_outgoing` ends with. -/
inductive Pickup (M : Type) where
  /-- The session is closed. -/
  | closed
  /-- Expiry took callbacks, which run before the queue is looked at again. -/
  | again
  /-- The queue is empty. -/
  | wait
  /-- The message to send, under its wire ID. -/
  | taken (id : ℕ) (message : OutgoingMessage M)

/-- One critical section of `SessionInner::next_outgoing`. -/
def nextOutgoing (s : SessionInner M) (now : ℕ) :
    Except Panic (SessionInner M × Pickup M) :=
  let s' := s.expire now
  if s'.shared.callbacks ≠ s.shared.callbacks then .ok (s', .again)
  else
    match s'.state with
    | .closed _ => .ok (s', .closed)
    | .opened o =>
      match o.outgoing with
      | [] => .ok (s', .wait)
      | message :: rest =>
        match message.body with
        | .request _ =>
          match o.nextId with
          | none => .error .idsExhausted
          | some id =>
            .ok ({ s' with
              state := .opened { o with
                outgoing := rest
                nextId := if id + 2 ≤ u64Max then some (id + 2) else none
                outstanding := o.outstanding.insert id message.key }
              log := s'.log ++ [.assigned id message.key] }, .taken id message)
        | .reply id _ =>
          -- released before writing, since the peer may reuse the ID before our flush returns
          .ok ({ s' with
            state := .opened { o with
              outgoing := rest
              reservedIds := o.reservedIds.erase id }
            log := s'.log ++ [.taken id] }, .taken id message)

/-- The section of `run_writer` after a refused encoding: no answer will come for the request. -/
def withdraw (s : SessionInner M) (id : ℕ) : SessionInner M :=
  match s.state with
  | .closed _ => s
  | .opened o => { s with state := .opened { o with outstanding := o.outstanding.erase id } }

/-- `SessionInner::record_write`: a failed or late write fails the promise, a written reply
completes it, and a written request keeps waiting for its answer. -/
def recordWrite (s : SessionInner M) (key : ℕ) (result : Except Error Unit)
    (now : ℕ) : SessionInner M :=
  match s.state with
  | .closed _ => s
  | .opened o =>
    match o.operations.lookup key with
    | none => s
    | some operation =>
      let removed := { o with operations := o.operations.erase key }
      match result with
      | .error error =>
        { s with state := .opened removed, shared := operation.fail error now s.shared }
      | .ok _ =>
        if operation.deadline ≤ now then
          { s with state := .opened removed, shared := operation.fail .timeout now s.shared }
        else if operation.sender.response then s
        else
          { s with
            state := .opened removed
            shared := (operation.sender.send s.shared (.ok .written)).1 }

end SessionInner

end ArkWire.Protocol.Session
