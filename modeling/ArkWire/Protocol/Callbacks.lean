import ArkWire.Lib.Machines
import ArkWire.Lib.Programs
import ArkWire.Protocol.Publication
import ArkWire.Protocol.Server

/-! # Callbacks and locks

Every function that settles promises, registers a callback or ends a promise, as a program of its
thread. One instruction takes or releases a lock, is a section under one, or a part of a
publication; all other threads can act in between. A guard and a `Notifications` are scopes
(`guarded`, `collecting`): they are dropped where the source's block or early return drops them, a
`Notifications` running the callbacks it has collected.

A callback is named by its promise, which accepts one. While a callback runs, its thread can call
anything: its function goes on afterwards (`Frame`). A promise is used by one call at a time, which
`Owner` records: it is the ownership that the borrow checker enforces.

A thread that waits for a condition variable, or is in the stream to send a message or to close it,
takes no step of its own (`await`): such a wait holds no lock, and ends at any time or never.

Clock readings, the byte counter, failed upgrades of weak references and the results of decoding and
writing are inputs. `log` is ghost. -/

namespace ArkWire.Protocol.Callbacks

open ArkWire.Lib.Machines ArkWire.Lib.Programs
open ArkWire.Transport.Errors
open ArkWire.Protocol.Errors ArkWire.Protocol.Envelope ArkWire.Protocol.Promise
open ArkWire.Protocol.Operation ArkWire.Protocol.Session
open ArkWire.Protocol.Publication (Settled Report)
open ArkWire.Protocol.System (unansweredError unknownError)

variable {M ρ : Type}

inductive Lock where
  /-- The state of the server. -/
  | server
  /-- The state of a session. -/
  | session (i : ℕ)
  /-- The notification state of a promise. -/
  | notification (c : ℕ)
  deriving DecidableEq

/-- What a thread reads from outside. -/
structure Reading where
  now : ℕ := 0
  retained : ℕ := 0
  /-- The outcome of an upgrade or a decoding. -/
  choice : Bool := false
  /-- The outcome of encoding and sending a message. -/
  written : Except Error Unit := .ok ()

/-- What a section of the server answers. -/
structure Policy where
  reason : Option Error := none
  session : Option ℕ := none
  ready : Option ℕ := none
  requests : ℕ := 0
  bytes : ℕ := 0
  timeout : ℕ := 0

/-! ### Instructions -/

/-- What a thread waits for that the other threads of the machine do not decide. -/
inductive Wait where
  /-- A wait of the condition variable of a state: until it is notified or its time is over, or for
  no reason at all. -/
  | changed (l : Lock)
  /-- A message is sent, or the closer of the stream waits for adapter calls to return. -/
  | stream
  deriving DecidableEq

inductive Instr (M : Type) where
  | acquire (l : Lock)
  | release (l : Lock)
  /-- The thread goes on when the wait is over. -/
  | await (w : Wait)
  /-- `Notifications::default`. -/
  | collect
  /-- `Notifications::drop`. -/
  | flush
  /-- `Notifications::is_empty`. -/
  | isEmpty
  /-- A section of a session, with a fresh key. -/
  | session (i : ℕ) (f : Reading → ℕ → State M → Except Panic (State M × Report M))
  | server (f : Server.State → Server.State × Policy)
  /-- `Promise::pair`. -/
  | pair
  /-- The result goes into the channel. -/
  | put (c : ℕ) (result : Except Error PromiseResult)
  /-- The promise is done and its callback is taken. -/
  | take (c : ℕ) (delivered : Bool)
  /-- `notify` under the notification lock: whether the promise was done. -/
  | register (c : ℕ)
  /-- `notify` runs the callback itself. -/
  | invoke
  /-- `Promise::drop` under the notification lock. -/
  | discard (c : ℕ)
  | dropReceiver (c : ℕ)
  /-- `recv` of the channel. -/
  | receive (c : ℕ)
  /-- The promise is returned to the application. -/
  | handOut (c : ℕ)
  /-- `notify` returns. -/
  | giveBack (c : ℕ)
  | read

/-- What an instruction answers. -/
def Instr.Answer : Instr M → Type
  | .isEmpty => Bool
  | .session _ _ => Report M
  | .server _ => Policy
  | .pair => ℕ
  | .put _ _ => Bool
  | .register _ => Bool
  | .receive _ => Except Error PromiseResult
  | .read => Reading
  | _ => Unit

/-- Where a loop begins. -/
inductive Label where
  | deadlines (i : ℕ)
  /-- The loop of `next_outgoing`. -/
  | pickup (i : ℕ)
  | recv (i : ℕ)
  | accept

abbrev Program (M : Type) := Code (Instr M) Instr.Answer Label

abbrev Fn (M ρ α : Type) := Body (Program M) ρ α

/-- An instruction in the course of a function. -/
def instr (i : Instr M) : Fn M ρ i.Answer := perform i

def readings : Fn M ρ Reading := instr .read

def session (i : ℕ) (f : Reading → ℕ → State M → Except Panic (State M × Report M)) :
    Fn M ρ (Report M) :=
  instr (.session i f)

def server (f : Server.State → Server.State × Policy) : Fn M ρ Policy := instr (.server f)

def register (c : ℕ) : Fn M ρ Bool := instr (.register c)

/-- A lock guard and its scope. -/
def guarded {α : Type} (l : Lock) (body : Fn M ρ α) : Fn M ρ α :=
  bracket (Instr.acquire l) (Instr.release l) body

/-- A `Notifications` and its scope. -/
def collecting {α : Type} (body : Fn M ρ α) : Fn M ρ α := bracket Instr.collect Instr.flush body

/-! ### Publication -/

/-- `ResultSender::send`. -/
def send (p : Settled) : Fn M ρ Bool :=
  guarded (.notification p.sender.channel) do
    let delivered ← instr (.put p.sender.channel p.result)
    let _ ← instr (.take p.sender.channel delivered)
    pure delivered

/-- Publishes results in turn; whether one was delivered. -/
def publish : List Settled → Fn M ρ Bool
  | [] => pure false
  | p :: ps => do
    let delivered ← send p
    let others ← publish ps
    pure (delivered || others)

/-- A section of a session that settles nothing. -/
def inspect (i : ℕ) (f : State M → State M × Report M) : Fn M ρ (Report M) :=
  session i fun _ _ state => .ok (f state)

/-- A section of a session and its publications. -/
def settle (i : ℕ) (f : Reading → State M → State M × Report M) : Fn M ρ (Report M) := do
  let report ← session i fun reading _ state => .ok (f reading state)
  let _ ← publish report.settled
  pure report

/-! ### The functions of a session -/

/-- `SessionInner::expire`. -/
def expire (i : ℕ) : Fn M ρ Unit :=
  collecting <| guarded (.session i) do
    let _ ← settle i fun reading => Publication.expire reading.now

/-- `stream_closer.close()`. The sessions of a server have no closer: there this returns at once. -/
def closeStream : Fn M ρ Unit := instr (.await .stream)

/-- `SessionInner::close`. The stream is closed before the callbacks run. -/
def close (i : ℕ) (error : Error) : Fn M ρ Unit :=
  collecting do
    guarded (.session i) do
      let _ ← settle i fun reading => Publication.close error reading.now
    closeStream

/-- `SessionInner::set_inbound_limits`, which has its callbacks run by the caller: whether it closed
the session. -/
def limit (i requests bytes : ℕ) : Fn M ρ Bool :=
  guarded (.session i) do
    let report ← settle i fun reading =>
      Publication.setInboundLimits requests bytes reading.now reading.retained
    pure report.closed

/-- `Session::set_inbound_limits`. -/
def setInboundLimits (i requests bytes : ℕ) : Fn M ρ Unit :=
  collecting do
    let closed ← limit i requests bytes
    if closed then closeStream else pure ()

/-- `SessionInner::set_autoreply_timeout`. -/
def setAutoreplyTimeout (i timeout : ℕ) : Fn M ρ Unit :=
  guarded (.session i) do
    let _ ← inspect i (Publication.setAutoreplyTimeout timeout)

/-- `SessionInner::enqueue`. -/
def enqueue (i : ℕ) (body : OutgoingBody M) (operation : PendingOperation) :
    Fn M (Except Error Unit) (Except Error Unit) :=
  collecting do
    guarded (.session i) do
      let report ← session i fun reading key state =>
        .ok (Publication.enqueue body operation key reading.now state)
      match report.error with
      | some error => early (.error error)
      | none =>
        let _ ← publish report.settled
        pure ()
    pure (.ok ())

/-- `Promise::drop`, and the receiver after it. -/
def dropPromise (c : ℕ) : Fn M ρ Unit := do
  guarded (.notification c) do
    let _ ← instr (.discard c)
  let _ ← instr (.dropReceiver c)

/-- Creates a promise and queues its operation. If that fails the promise is dropped. -/
def submit (i : ℕ) (body : OutgoingBody M) (deadline : ℕ) : Fn M ρ (Option ℕ) := do
  let c ← instr .pair
  match ← call (enqueue i body ⟨deadline, ⟨body.isRequest, c⟩⟩) with
  | .ok _ => pure (some c)
  | .error _ =>
    dropPromise c
    pure none

/-- `SessionInner::request`. -/
def request (i : ℕ) (message : M) (deadline : ℕ) : Fn M ρ Unit := do
  match ← submit i (.request message) deadline with
  | some c =>
    let _ ← instr (.handOut c)
  | none => pure ()

/-- `SessionInner::autoreply`, which drops its promise at once. -/
def autoreply (i id : ℕ) (error : SchemaError) : Fn M Unit Unit := do
  let reading ← readings
  let timeout ← guarded (.session i) do
    let report ← inspect i Publication.autoreplyTimeout
    if report.closed then early () else pure report.timeout
  match ← submit i (.reply id (.error error)) (deadlineAfter reading.now timeout) with
  | some c => dropPromise c
  | none => pure ()

/-- `Responder::drop`. -/
def dropResponder (i id : ℕ) : Fn M ρ Unit := do
  let reading ← readings
  if reading.choice then call (autoreply i id unansweredError) else pure ()

/-- `Responder::reply` and `Responder::fail`. A refused responder is dropped. -/
def respond (i id : ℕ) (result : Except SchemaError M) (deadline : ℕ) : Fn M ρ Unit := do
  match ← submit i (.reply id result) deadline with
  | some c =>
    let _ ← instr (.handOut c)
  | none => dropResponder i id

/-- `SessionInner::record_write`. -/
def recordWrite (i key : ℕ) (result : Except Error Unit) : Fn M ρ Unit :=
  collecting <| guarded (.session i) do
    let _ ← settle i fun reading => Publication.recordWrite key result reading.now

/-- `SessionInner::handle_message`, from the decoded header. -/
def handleMessage (side : Side) (i : ℕ) (header : Option Header) (bytes : Bytes) :
    Fn M (Except Error Unit) (Except Error Unit) :=
  match header with
  | none => pure (.error .malformed)
  | some header => collecting do
    let unknown ← guarded (.session i) do
      let report ← session i fun reading _ =>
        Publication.route side header bytes reading.now reading.retained
      match report.error with
      | some error => early (.error error)
      | none =>
        let delivered ← publish report.settled
        match report.overLimit with
        | some error => if delivered then early (.error error) else pure report.unknown
        | none => pure report.unknown
    match unknown with
    | some id => call (autoreply i id unknownError)
    | none => pure ()
    pure (.ok ())

/-- The reader handles a message, and closes the session on an error. -/
def readMessage (side : Side) (i : ℕ) (header : Option Header) (bytes : Bytes) : Fn M ρ Unit := do
  match ← call (handleMessage side i header bytes) with
  | .ok _ => pure ()
  | .error error => close i error

/-- `IncomingEnvelope::decode`: a malformed body closes the session, if it still exists. -/
def decode (i : ℕ) : Fn M ρ Unit := do
  let reading ← readings
  if reading.choice then close i .malformed else pure ()

/-! ### The functions of a promise -/

/-- `Promise::notify`. -/
def notify (c : ℕ) : Fn M ρ Unit := do
  let settled ← guarded (.notification c) (register c)
  if settled then
    let _ ← instr .invoke
  else pure ()
  let _ ← instr (.giveBack c)

/-- `recv` of the channel, the end of the promise, and the decoding of a response. -/
def takeResult (c i : ℕ) : Fn M ρ Unit := do
  let result ← instr (.receive c)
  dropPromise c
  match result with
  | .ok (.response _) => decode i
  | _ => pure ()

/-- `Promise::wait`. -/
def wait (c i : ℕ) : Fn M ρ Unit := do
  let reading ← readings
  if reading.choice then expire i else pure ()
  takeResult c i

/-! ### The functions of a server -/

/-- The policy and the attached session of a server, or its reason. -/
def policy : Server.State → Policy
  | .closed reason session => { reason := some reason, session }
  | .opened o =>
    { session := o.session, ready := o.ready, requests := o.maxInboundRequests,
      bytes := o.maxInboundBytes, timeout := o.autoreplyTimeout }

/-- Changes the state of an open server. -/
def setPolicy (f : Server.OpenState → Server.OpenState) (state : Server.State) :
    Server.State × Policy :=
  match state with
  | .closed reason session => (.closed reason session, { reason := some reason })
  | .opened o => (.opened (f o), policy (.opened o))

/-- The attached session, if it can be upgraded. -/
def upgrade (session : Option ℕ) : Fn M ρ (Option ℕ) := do
  let reading ← readings
  pure (if reading.choice then session else none)

/-- `ServerInner::set_inbound_limits`. -/
def serverSetInboundLimits (requests bytes : ℕ) : Fn M ρ Unit :=
  collecting <| guarded .server do
    let answer ← server (setPolicy
      ({ · with maxInboundRequests := requests, maxInboundBytes := bytes }))
    match ← upgrade answer.session with
    | some i =>
      let _ ← limit i requests bytes
    | none => pure ()

/-- `ServerInner::set_autoreply_timeout`. -/
def serverSetAutoreplyTimeout (timeout : ℕ) : Fn M ρ Unit :=
  guarded .server do
    let answer ← server (setPolicy ({ · with autoreplyTimeout := timeout }))
    match ← upgrade answer.session with
    | some i => setAutoreplyTimeout i timeout
    | none => pure ()

/-- The section of `ServerInner::close`. -/
def closeServer (error : Error) (state : Server.State) : Server.State × Policy :=
  match state with
  | .closed reason session => (.closed reason session, policy (.closed reason session))
  | .opened o =>
    (.closed error o.session, { reason := some error, session := o.session, ready := o.ready })

/-- Closes a session, if there is one. -/
def closeSome (session : Option ℕ) (error : Error) : Fn M ρ Unit :=
  match session with
  | some i => close i error
  | none => pure ()

/-- `ServerInner::close`. -/
def serverClose (error : Error) : Fn M ρ Unit := do
  let answer ← guarded .server (server (closeServer error))
  let session ← upgrade answer.session
  closeSome session (answer.reason.getD error)
  closeSome answer.ready .closed
  closeStream

/-- `attach` installs its session, and closes the one that was never accepted. -/
def install (i : ℕ) : Fn M (Except Error Unit) Unit :=
  collecting do
    let ready ← guarded .server do
      let answer ← server fun state => (state, policy state)
      match answer.reason with
      | some reason => early (.error reason)
      | none =>
        let _ ← limit i answer.requests answer.bytes
        setAutoreplyTimeout i answer.timeout
        let _ ← server (setPolicy ({ · with session := some i, ready := some i }))
        pure answer.ready
    closeSome ready .closed

/-- The sections of `attach` up to its return. -/
def attachBody (i : ℕ) : Fn M (Except Error Unit) (Except Error Unit) := do
  let previous ← guarded .server do
    let answer ← server fun state => (state, policy state)
    match answer.reason with
    | some reason => early (.error reason)
    | none => upgrade answer.session
  closeSome previous (.transport .sessionReset)
  install i
  pure (.ok ())

/-- `ServerInner::attach`. A session that is refused is dropped. -/
def attach (i : ℕ) : Fn M ρ Unit := do
  match ← call (attachBody i) with
  | .ok _ => pure ()
  | .error _ => close i .closed

/-! ### The loops -/

/-- Instructions whose answers play no part. -/
def steps (is : List (Instr M)) (k : Program M) : Program M :=
  is.foldr (fun i k => .instr i fun _ => k) k

/-- Waits for the condition variable of a lock, and takes the lock again. -/
def awaitChange (l : Lock) (p : Label) : Program M :=
  steps [.release l, .await (.changed l), .acquire l] (.jump p)

/-- The expiry at the head of a loop, and whether it collected callbacks. -/
def expireFirst (i : ℕ) : Fn M (Report M × Bool) (Report M × Bool) := do
  let report ← settle i fun reading => Publication.expire reading.now
  let empty ← instr .isEmpty
  pure (report, empty)

/-- The loop lets go of the lock to run the callbacks, and goes round. -/
def runCollected (i : ℕ) (p : Label) : Program M :=
  steps [.release (.session i), .flush, .collect, .acquire (.session i)] (.jump p)

/-- A turn of the loop of `run_deadlines`. -/
def deadlines (i : ℕ) : Program M :=
  (expireFirst i).toCode fun (report, empty) =>
    if empty then
      if report.closed then steps [.release (.session i), .flush] .done
      else awaitChange (.session i) (.deadlines i)
    else runCollected i (.deadlines i)

/-- `run_deadlines`. -/
def runDeadlines (i : ℕ) : Program M :=
  steps [.collect, .acquire (.session i)] (.jump (.deadlines i))

/-- `run_writer`, from its next call of `next_outgoing`. -/
def runWriter (i : ℕ) : Program M := steps [.collect, .acquire (.session i)] (.jump (.pickup i))

/-- `run_writer` with a message that `next_outgoing` returned. A transport failure closes the
session and ends the writer. -/
def write (i id : ℕ) (message : OutgoingMessage M) : Fn M Bool Bool := do
  let _ ← instr (.await .stream)
  let reading ← readings
  match reading.written with
  | .error (.transport error) =>
    close i (.transport error)
    pure false
  | result =>
    guarded (.session i) do
      if message.body.isRequest && !result.isOk then
        let _ ← inspect i (Publication.withdraw id)
      else pure ()
    recordWrite i message.key result
    pure true

/-- A turn of the loop of `next_outgoing`. -/
def pickup (i : ℕ) : Program M :=
  (expireFirst i).toCode fun (_, empty) =>
    if empty then
      .instr (.session i fun _ _ => Publication.nextOutgoing) fun report =>
        if report.closed then steps [.release (.session i), .flush] .done
        else
          match report.outgoing with
          | none => awaitChange (.session i) (.pickup i)
          | some (id, message) =>
            steps [.release (.session i), .flush] <|
              (write i id message).toCode fun on => if on then runWriter i else .done
    else runCollected i (.pickup i)

/-- A turn of the loop of `recv`. A responder is left to the caller, or dropped if decoding
fails. -/
def recv (i : ℕ) : Program M :=
  .instr (.session i fun _ _ state => .ok (Publication.takeIncoming state)) fun report =>
    match report.error, report.incoming with
    | some _, _ => steps [.release (.session i)] .done
    | none, none => awaitChange (.session i) (.recv i)
    | none, some (id, _) =>
      steps [.release (.session i)] <|
        (decodeRequest id : Fn M Unit Unit).toCode fun _ => .done
where
  decodeRequest (id : ℕ) : Fn M Unit Unit := do
    let reading ← readings
    if reading.choice then
      close i .malformed
      dropResponder i id
    else pure ()

/-- A turn of the loop of `accept`. -/
def accept : Program M :=
  .instr (.server (setPolicy ({ · with ready := none }))) fun answer =>
    match answer.reason, answer.ready with
    | none, none => awaitChange .server .accept
    | _, _ => steps [.release .server] .done

def program : Label → Program M
  | .deadlines i => deadlines i
  | .pickup i => pickup i
  | .recv i => recv i
  | .accept => accept

/-! ### The threads -/

/-- What an application or a worker calls. -/
inductive Call (M : Type) where
  | request (i : ℕ) (message : M) (deadline : ℕ)
  | respond (i id : ℕ) (result : Except SchemaError M) (deadline : ℕ)
  | dropResponder (i id : ℕ)
  | recv (i : ℕ)
  | message (side : Side) (i : ℕ) (header : Option Header) (bytes : Bytes)
  /-- `Session::close`, a closer, a failed read, or the session dropped. -/
  | close (i : ℕ) (error : Error)
  | setInboundLimits (i requests bytes : ℕ)
  | setAutoreplyTimeout (i timeout : ℕ)
  | runDeadlines (i : ℕ)
  | runWriter (i : ℕ)
  | notify (c : ℕ)
  | drop (c : ℕ)
  | wait (c i : ℕ)
  | serverSetInboundLimits (requests bytes : ℕ)
  | serverSetAutoreplyTimeout (timeout : ℕ)
  | serverClose (error : Error)
  | attach (i : ℕ)
  | accept

/-- A function that returns to its caller. -/
def Call.function : Call M → Option (Fn M Unit Unit)
  | .request i body deadline => some (Callbacks.request i body deadline)
  | .respond i id result deadline => some (Callbacks.respond i id result deadline)
  | .dropResponder i id => some (Callbacks.dropResponder i id)
  | .message side i header bytes => some (readMessage side i header bytes)
  | .close i error => some (Callbacks.close i error)
  | .setInboundLimits i requests bytes => some (Callbacks.setInboundLimits i requests bytes)
  | .setAutoreplyTimeout i timeout => some (Callbacks.setAutoreplyTimeout i timeout)
  | .notify c => some (Callbacks.notify c)
  | .drop c => some (dropPromise c)
  | .wait c i => some (Callbacks.wait c i)
  | .serverSetInboundLimits requests bytes => some (Callbacks.serverSetInboundLimits requests bytes)
  | .serverSetAutoreplyTimeout timeout => some (Callbacks.serverSetAutoreplyTimeout timeout)
  | .serverClose error => some (Callbacks.serverClose error)
  | .attach i => some (Callbacks.attach i)
  | _ => none

/-- The program of a call. -/
def Call.program : Call M → Program M
  | .recv i => steps [.acquire (.session i)] (.jump (.recv i))
  | .accept => steps [.acquire .server] (.jump .accept)
  | .runDeadlines i => Callbacks.runDeadlines i
  | .runWriter i => Callbacks.runWriter i
  | call => call.function.elim .done fun f => f.toCode fun _ => .done

/-- Who can use a promise. -/
inductive Owner where
  | absent
  /-- The thread that creates it. -/
  | made (t : ℕ)
  /-- The application. -/
  | held
  /-- A thread in `notify`. -/
  | lent (t : ℕ)
  /-- A thread in `wait` or about to drop it. -/
  | spent (t : ℕ)
  /-- `Promise::drop` has run. -/
  | gone
  deriving DecidableEq

/-- A promise, its channel and its notification state. -/
structure Channel where
  owner : Owner := .absent
  registered : Bool := false
  buffer : Option (Except Error PromiseResult) := none
  receiver : Bool := false
  done : Bool := false
  hook : Bool := false

/-- What a callback interrupted: the function whose end runs it, and its collected callbacks. -/
structure Frame (M : Type) where
  callback : ℕ
  code : Program M
  collectors : List (List ℕ)

/-- A thread: the rest of its function, its `Notifications`, the innermost first, and the callback
it was given to register. -/
structure Thread (M : Type) where
  code : Program M := .done
  collectors : List (List ℕ) := []
  hand : Option ℕ := none
  frames : List (Frame M) := []

inductive Event where
  /-- `notify` registered a callback on a promise that was settled or not. -/
  | registered (c : ℕ) (settled : Bool)
  /-- The result went into the channel. -/
  | published (c : ℕ)
  /-- `recv` returned it. -/
  | received (c : ℕ)
  /-- `Promise::drop` ran. -/
  | dropped (c : ℕ)
  /-- A thread began to run the callback. -/
  | started (c t : ℕ)
  deriving DecidableEq

structure Sys (M : Type) where
  sessions : ℕ → State M
  server : Server.State := .opened {}
  channels : ℕ → Channel := fun _ => {}
  nextChannel : ℕ := 0
  nextKey : ℕ := 0
  locks : Lock → Option ℕ := fun _ => none
  threads : ℕ → Thread M := fun _ => {}
  log : List Event := []

inductive Action (M : Type) where
  /-- A thread that is idle, or runs a callback, makes a call. -/
  | start (t : ℕ) (call : Call M)
  | advance (t : ℕ) (reading : Reading)
  /-- A callback returns. -/
  | finish (t : ℕ)

namespace Sys

def setThread (s : Sys M) (t : ℕ) (thread : Thread M) : Sys M :=
  { s with threads := Function.update s.threads t thread }

/-- A thread goes on with a program. -/
def goto (s : Sys M) (t : ℕ) (code : Program M) : Sys M :=
  s.setThread t { s.threads t with code }

def modify (s : Sys M) (c : ℕ) (f : Channel → Channel) : Sys M :=
  { s with channels := Function.update s.channels c (f (s.channels c)) }

def logged (s : Sys M) (e : Event) : Sys M := { s with log := s.log ++ [e] }

/-- A thread runs a callback, and comes back to its function after it. -/
def run (s : Sys M) (t c : ℕ) (code : Program M) (collectors : List (List ℕ)) : Sys M :=
  (s.setThread t ⟨.done, [], none, ⟨c, code, collectors⟩ :: (s.threads t).frames⟩).logged
    (.started c t)

/-- A thread makes a call. -/
def start (s : Sys M) (t : ℕ) (call : Call M) : Outcome Panic (Sys M) :=
  match call with
  | .notify c =>
    if (s.channels c).owner = .held then
      if (s.channels c).registered then .panic .notifiedTwice
      else
        .next ((s.modify c ({ · with owner := .lent t, registered := true })).setThread t
          { s.threads t with code := call.program, hand := some c })
    else .blocked
  | .drop c | .wait c _ =>
    if (s.channels c).owner = .held then
      .next ((s.modify c ({ · with owner := .spent t })).goto t call.program)
    else .blocked
  | _ => .next (s.goto t call.program)

/-- Adds a callback to the innermost collector. -/
def push (collectors : List (List ℕ)) (c : ℕ) : List (List ℕ) :=
  match collectors with
  | [] => []
  | pending :: rest => (pending ++ [c]) :: rest

/-- A thread takes an instruction. -/
def execute (s : Sys M) (t : ℕ) (reading : Reading) :
    (i : Instr M) → (i.Answer → Program M) → Outcome Panic (Sys M)
  | .acquire l, k =>
    if s.locks l = none then
      .next ({ s with locks := Function.update s.locks l (some t) }.goto t (k ()))
    else .blocked
  | .release l, k => .next ({ s with locks := Function.update s.locks l none }.goto t (k ()))
  | .await _, k => .next (s.goto t (k ()))
  | .collect, k =>
    .next (s.setThread t
      { s.threads t with code := k (), collectors := [] :: (s.threads t).collectors })
  | .flush, k =>
    match (s.threads t).collectors with
    | [] => .blocked
    | [] :: rest => .next (s.setThread t { s.threads t with code := k (), collectors := rest })
    | (c :: pending) :: rest => .next (s.run t c (.instr .flush k) (pending :: rest))
  | .isEmpty, k => .next (s.goto t (k ((s.threads t).collectors.head?.all List.isEmpty)))
  | .session i f, k =>
    match f reading s.nextKey (s.sessions i) with
    | .error panic => .panic panic
    | .ok (state, report) =>
      .next ({ s with
        sessions := Function.update s.sessions i state
        nextKey := s.nextKey + 1 }.goto t (k report))
  | .server f, k => .next ({ s with server := (f s.server).1 }.goto t (k (f s.server).2))
  | .pair, k =>
    .next ({ s.modify s.nextChannel fun _ => { owner := .made t, receiver := true } with
      nextChannel := s.nextChannel + 1 }.goto t (k s.nextChannel))
  | .put c result, k =>
    if (s.channels c).receiver then
      .next (((s.modify c ({ · with buffer := some result })).logged (.published c)).goto t
        (k true))
    else .next (s.goto t (k false))
  | .take c delivered, k =>
    let collectors := (s.threads t).collectors
    .next
      ((s.modify c fun ch => { ch with done := ch.done || delivered, hook := false }).setThread t
      { s.threads t with
        code := k (), collectors := if (s.channels c).hook then push collectors c else collectors })
  | .register c, k =>
    if (s.channels c).done then .next ((s.logged (.registered c true)).goto t (k true))
    else
      .next (((s.modify c ({ · with hook := true })).logged (.registered c false)).setThread t
        { s.threads t with code := k false, hand := none })
  | .invoke, k =>
    match (s.threads t).hand with
    | none => .blocked
    | some c => .next (s.run t c (k ()) (s.threads t).collectors)
  | .discard c, k =>
    if (s.channels c).owner = .made t ∨ (s.channels c).owner = .spent t then
      .next (((s.modify c ({ · with owner := .gone, hook := false })).logged (.dropped c)).goto t
        (k ()))
    else .blocked
  | .dropReceiver c, k =>
    if (s.channels c).owner = .gone then
      .next ((s.modify c ({ · with receiver := false, buffer := none })).goto t (k ()))
    else .blocked
  | .receive c, k =>
    match (s.channels c).buffer with
    | none => .blocked
    | some result =>
      .next (((s.modify c ({ · with buffer := none })).logged (.received c)).goto t (k result))
  | .handOut c, k =>
    if (s.channels c).owner = .made t then
      .next ((s.modify c ({ · with owner := .held })).goto t (k ()))
    else .blocked
  | .giveBack c, k =>
    if (s.channels c).owner = .lent t then
      .next ((s.modify c ({ · with owner := .held })).goto t (k ()))
    else .blocked
  | .read, k => .next (s.goto t (k reading))

def step (s : Sys M) : Action M → Outcome Panic (Sys M)
  | .start t call =>
    match (s.threads t).code with
    | .done => s.start t call
    | _ => .blocked
  | .advance t reading =>
    match (s.threads t).code with
    | .done => .blocked
    | .jump p => .next (s.goto t (program p))
    | .instr i k => s.execute t reading i k
  | .finish t =>
    match (s.threads t).code, (s.threads t).frames with
    | .done, frame :: frames =>
      .next (s.setThread t ⟨frame.code, frame.collectors, none, frames⟩)
    | _, _ => .blocked

end Sys

/-- **Sessions, a server and the threads that use them.** -/
def machine (side : Side) : Machine (Sys M) (Action M) Panic where
  init := { sessions := fun _ => .opened { nextId := some side.parity.first } }
  step := Sys.step

end ArkWire.Protocol.Callbacks
