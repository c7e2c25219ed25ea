import ArkWire.Protocol.System
import ArkWire.Transport.Server

/-! # The server of successive sessions

`Server` owns one stream. Its reader receives the events of the transport, starts a session for each
`Connected` and attaches it, while other threads accept sessions, close the server, and use the
sessions. Each step is one section under the server's lock or one under a session's; `attach` and
`close` are several, with the steps of all other threads in between.

The transport is the machine of `Transport.Server`, with the reader as its owner, and each session
the machine of `System`. A weak reference to a session can be upgraded until the session is
released: its writer and its deadline worker hold it while it is open, and its owner until it is
dropped.

`attached`, `accepted` and `handled` are ghost. -/

namespace ArkWire.Protocol.Server

open ArkWire.Lib.Machines
open ArkWire.Transport.Errors ArkWire.Transport.FrameWriter ArkWire.Transport.Endpoint
open ArkWire.Transport.Server (Returned)
open ArkWire.Protocol.Errors ArkWire.Protocol.Envelope ArkWire.Protocol.Session
open ArkWire.Protocol.System

variable {M : Type}

/-! ### The state -/

/-- A session started by the reader. `event` is the place of its `Connected` among the results of
the transport. -/
structure Slot (M : Type) where
  sys : Sys M
  event : ℕ
  /-- The owner, `Session`, has been dropped. -/
  dropped : Bool := false
  released : Bool := false

/-- The policy and the current session of an open server. -/
structure OpenState where
  maxInboundRequests : ℕ := defaultMaxInboundRequests
  maxInboundBytes : ℕ := defaultMaxInboundBytes
  autoreplyTimeout : ℕ := defaultAutoreplyTimeout
  session : Option ℕ := none
  ready : Option ℕ := none

inductive State where
  | opened (o : OpenState)
  | closed (reason : Error) (session : Option ℕ)

/-- The attached session. -/
def State.session : State → Option ℕ
  | .opened o => o.session
  | .closed _ session => session

/-- Where the reader is in `run_reader` and `attach`. -/
inductive Reader where
  | idle
  | receiving
  | got (result : Returned)
  /-- In `pause_reader`. -/
  | paused
  /-- Before the first section of `attach`. -/
  | attach (i : ℕ)
  /-- To close the previous session. -/
  | replace (i previous : ℕ)
  /-- Before the second section of `attach`. -/
  | install (i : ℕ)
  /-- To drop the owner of a session that was never accepted. -/
  | installed (previous : Option ℕ)
  /-- `attach` has failed: to drop the new session. -/
  | refused (i : ℕ)
  | stopped

/-- A call of `ServerInner::close`. -/
inductive Closing where
  | outside
  | entering (error : Error)
  /-- To close the session that was attached. -/
  | session (target : Option ℕ) (reason : Error) (ready : Option ℕ)
  /-- To drop a session nobody accepted. -/
  | drop (ready : Option ℕ)
  /-- In `stream_closer.close()`. -/
  | stream
  | returned

structure ServerInner (M : Type) where
  transport : Transport.Server
  state : State := .opened {}
  sessions : List (Slot M) := []
  reader : Reader := .idle
  current : Option ℕ := none
  closers : ℕ → Closing := fun _ => .outside
  attached : List ℕ := []
  accepted : List ℕ := []
  handled : List (ℕ × Bytes) := []

/-- The machine of the transport. -/
abbrev Transporter :=
  Machine Transport.Server Transport.Server.Action Transport.Endpoint.Fault

inductive Fault where
  | transport (fault : Transport.Endpoint.Fault)
  | session (panic : Operation.Panic)

inductive Action (M : Type) where
  /-- The transport goes on: in `recv`, in a call of a sender, or with bytes that arrive. -/
  | transport (a : Transport.Server.Action)
  /-- The next step of the reader. -/
  | read (now : ℕ)
  /-- The reader finds the server released. -/
  | quit
  /-- The reader ends the server after a failure of the stream, in call `k`. -/
  | fail (k : ℕ)
  | accept
  | setInboundLimits (requests bytes now : ℕ)
  | setAutoreplyTimeout (timeout : ℕ)
  /-- `Server::close`, a closer, or the server dropped. -/
  | close (k : ℕ)
  /-- The next step of a call of `close`. -/
  | closer (k : ℕ) (now : ℕ)
  /-- A thread of a session, or one that uses it. -/
  | session (i : ℕ) (a : System.Action M)
  /-- The owner of an accepted session is dropped. -/
  | dropSession (i : ℕ) (now : ℕ)
  | release (i : ℕ)

/-! ### The steps -/

/-- `set_inbound_limits` and `set_autoreply_timeout` of a session. -/
def Slot.limit (slot : Slot M) (requests bytes now : ℕ) : Slot M :=
  { slot with sys := slot.sys.finishClose (slot.sys.session.setInboundLimits requests bytes now) }

def Slot.setTimeout (slot : Slot M) (timeout : ℕ) : Slot M :=
  { slot with sys := slot.sys.withSession (slot.sys.session.setAutoreplyTimeout timeout) }

def Slot.close (slot : Slot M) (error : Error) (now : ℕ) : Slot M :=
  { slot with sys := slot.sys.close error now }

/-- `Session::drop`. -/
def Slot.drop (slot : Slot M) (now : ℕ) : Slot M := { slot.close .closed now with dropped := true }

/-- What only the reader and the server do to a session. -/
def reserved : System.Action M → Bool
  | .message _ _ => true
  | .lost _ _ => true
  | _ => false

namespace ServerInner

def modify (s : ServerInner M) (i : ℕ) (f : Slot M → Slot M) : ServerInner M :=
  { s with sessions := s.sessions.modify i f }

def modify? (s : ServerInner M) (i : Option ℕ) (f : Slot M → Slot M) : ServerInner M :=
  { s with sessions := i.elim s.sessions fun i => s.sessions.modify i f }

/-- `Weak::upgrade`. -/
def upgrade (s : ServerInner M) (i : Option ℕ) : Option ℕ :=
  i.filter fun i => s.sessions[i]?.any fun slot => !slot.released

/-- A step of the transport. The reader gets what `recv` returns. -/
def transportStep (m : Transporter) (s : ServerInner M) (a : Transport.Server.Action) :
    Outcome Fault (ServerInner M) :=
  match m.step s.transport a with
  | .panic fault => .panic (.transport fault)
  | .blocked => .blocked
  | .next transport =>
    .next { s with
      transport
      reader := match transport.returned.drop s.transport.returned.length with
        | [] => s.reader
        | result :: _ => .got result }

/-- The sections of `attach`. -/
def attachStep (s : ServerInner M) (now : ℕ) : Outcome Fault (ServerInner M) :=
  match s.reader with
  | .attach i =>
    match s.state with
    | .closed _ _ => .next { s with reader := .refused i }
    | .opened o =>
      match s.upgrade o.session with
      | some previous => .next { s with reader := .replace i previous }
      | none => .next { s with reader := .install i }
  | .replace i previous =>
    .next { s.modify previous (·.close (.transport .sessionReset) now) with reader := .install i }
  | .install i =>
    match s.state with
    | .closed _ _ => .next { s with reader := .refused i }
    | .opened o =>
      .next { s.modify i fun slot =>
          (slot.limit o.maxInboundRequests o.maxInboundBytes now).setTimeout o.autoreplyTimeout with
        state := .opened { o with session := some i, ready := some i }
        reader := .installed o.ready
        attached := s.attached ++ [i] }
  | .installed previous => .next { s.modify? previous (·.drop now) with reader := .idle }
  | .refused i => .next { s.modify i (·.drop now) with reader := .stopped }
  | _ => .blocked

/-- What `run_reader` does with a result of the transport. -/
def resultStep (codec : Envelope.Codec M) (s : ServerInner M) (now : ℕ) :
    Returned → Outcome Fault (ServerInner M)
  | .connected _ =>
    .next { s with
      sessions := s.sessions ++ [⟨.new .server, s.transport.returned.length - 1, false, false⟩]
      current := some s.sessions.length
      reader := .attach s.sessions.length }
  | .disconnected =>
    .next { s.modify? (s.upgrade s.current) (·.close (.transport .sessionReset) now) with
      current := none, reader := .idle }
  | .message bytes =>
    match s.upgrade s.current with
    | none => .next { s with reader := .idle }
    | some i =>
      match s.sessions[i]? with
      | none => .blocked
      | some slot =>
        -- the reader closes the session after an error: `System` owes it a close
        match slot.sys.step codec (.message bytes now) with
        | .next sys =>
          .next { s.modify i ({ · with sys }) with
            reader := .idle, handled := s.handled ++ [(i, bytes)] }
        | .panic panic => .panic (.session panic)
        | .blocked => .blocked
  | .failed (.recvFailed _) => .next { s with reader := .paused }
  | .failed (.sendFailed _) => .next { s with reader := .idle }
  | _ => .blocked

/-- The steps of `run_reader`. -/
def readStep (m : Transporter) (codec : Envelope.Codec M) (s : ServerInner M) (now : ℕ) :
    Outcome Fault (ServerInner M) :=
  match s.reader with
  | .idle => { s with reader := .receiving }.transportStep m (.own .recv)
  | .got result => s.resultStep codec now result
  | .paused =>
    match s.state with
    | .closed _ _ => .next { s with reader := .stopped }
    | .opened _ => .next { s with reader := .idle }
  | _ => s.attachStep now

/-- The steps of `ServerInner::close`. -/
def closerStep (s : ServerInner M) (k : ℕ) (now : ℕ) : Outcome Fault (ServerInner M) :=
  match s.closers k with
  | .entering error =>
    match s.state with
    | .closed reason session =>
      .next { s with
        closers := Function.update s.closers k (.session (s.upgrade session) reason none) }
    | .opened o =>
      .next { s with
        state := .closed error o.session
        closers := Function.update s.closers k (.session (s.upgrade o.session) error o.ready) }
  | .session target reason ready =>
    .next { s.modify? target (·.close reason now) with
      closers := Function.update s.closers k (.drop ready) }
  | .drop ready =>
    .next { s.modify? ready (·.drop now) with closers := Function.update s.closers k .stream }
  | .stream => .next { s with closers := Function.update s.closers k .returned }
  | _ => .blocked

/-- A call of `close` begins. -/
def beginClose (s : ServerInner M) (k : ℕ) (error : Error) : Outcome Fault (ServerInner M) :=
  match s.closers k with
  | .outside => .next { s with closers := Function.update s.closers k (.entering error) }
  | _ => .blocked

/-- `Server::accept`. While no session is ready it waits. -/
def acceptStep (s : ServerInner M) : Outcome Fault (ServerInner M) :=
  match s.state with
  | .closed _ _ => .next s
  | .opened o =>
    match o.ready with
    | none => .blocked
    | some i =>
      .next { s with state := .opened { o with ready := none }, accepted := s.accepted ++ [i] }

/-- The policy setters of the server. -/
def policyStep (s : ServerInner M) (set : OpenState → OpenState) (f : Slot M → Slot M) :
    Outcome Fault (ServerInner M) :=
  match s.state with
  | .closed _ _ => .next s
  | .opened o => .next ({ s with state := .opened (set o) }.modify? (s.upgrade o.session) f)

/-- A step of the threads of a session, or of those that use it. -/
def sessionStep (codec : Envelope.Codec M) (s : ServerInner M) (i : ℕ) (a : System.Action M) :
    Outcome Fault (ServerInner M) :=
  match s.sessions[i]? with
  | none => .blocked
  | some slot =>
    if reserved a then .blocked
    else
      match slot.sys.step codec a with
      | .next sys => .next (s.modify i ({ · with sys }))
      | .panic panic => .panic (.session panic)
      | .blocked => .blocked

/-- The last strong reference to a session goes. -/
def releaseStep (s : ServerInner M) (i : ℕ) : Outcome Fault (ServerInner M) :=
  match s.sessions[i]? with
  | some slot =>
    match slot.sys.session.state, slot.sys.writer, slot.dropped with
    | .closed _, .stopped, true => .next (s.modify i ({ · with released := true }))
    | _, _, _ => .blocked
  | none => .blocked

/-- **One step of a server and its threads.** -/
def step (m : Transporter) (codec : Envelope.Codec M) (s : ServerInner M) :
    Action M → Outcome Fault (ServerInner M)
  | .transport (.own input) =>
    match s.reader, input with
    | _, .recv => .blocked
    | _, .disconnect => .blocked
    | .receiving, input => s.transportStep m (.own input)
    | _, _ => .blocked
  | .transport a => s.transportStep m a
  | .read now => s.readStep m codec now
  | .quit =>
    match s.state, s.reader with
    | .closed _ _, .got _ => .next { s with reader := .stopped }
    | _, _ => .blocked
  | .fail k =>
    match s.reader with
    | .got (.failed (.recvFailed _)) => .blocked
    | .got (.failed (.sendFailed _)) => .blocked
    | .got (.failed error) => { s with reader := .stopped }.beginClose k (.transport error)
    | _ => .blocked
  | .accept => s.acceptStep
  | .setInboundLimits requests bytes now =>
    s.policyStep ({ · with maxInboundRequests := requests, maxInboundBytes := bytes })
      (·.limit requests bytes now)
  | .setAutoreplyTimeout timeout =>
    s.policyStep ({ · with autoreplyTimeout := timeout }) (·.setTimeout timeout)
  | .close k => s.beginClose k .closed
  | .closer k now => s.closerStep k now
  | .session i a => s.sessionStep codec i a
  | .dropSession i now =>
    if i ∈ s.accepted ∧ s.sessions[i]?.any (!·.dropped) then .next (s.modify i (·.drop now))
    else .blocked
  | .release i => s.releaseStep i

end ServerInner

/-- **A server, its sessions and its transport.** -/
def machine (m : Transporter) (codec : Envelope.Codec M) :
    Machine (ServerInner M) (Action M) Fault where
  init := { transport := m.init }
  step := ServerInner.step m codec

end ArkWire.Protocol.Server
