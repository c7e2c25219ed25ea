import ArkWire.Transport.Ledger

/-! # The steps of a server's owner

`Move` lists them with what they do to the reader, the records and the outbound transport, as for
the client. -/

namespace ArkWire.Transport.ServerMoves

open ArkWire.Lib.Machines ArkWire.Lib.Delimited
open ArkWire.Transport.Errors ArkWire.Transport.FrameReader ArkWire.Transport.FrameWriter
open ArkWire.Transport.Grammar hiding Good
open ArkWire.Transport.Outbound ArkWire.Transport.OutboundSteps ArkWire.Transport.Endpoint
open ArkWire.Transport.Server ArkWire.Transport.Pair
open ArkWire.Transport.Hearing (sessions Live turn_done)
open ArkWire.Transport.Integrity (ServerStage Awaits Over over_mark live_of_none report_not_io)
open ArkWire.Transport.Company ArkWire.Transport.Flow ArkWire.Transport.Ledger

variable {u : Setup} {opens : Opens} {s s' : Server} {value : Value} {input : Input}

/-! ### The steps of the owner -/

/-- The owner is out of session: `recv` or `disconnect` returns or goes on, or the client is to be
notified first. -/
inductive Rests (o : State Transcript) (b : Inbox) (s' : Server) : Prop
  | stays : s'.out = o → s'.inbox = b → s'.stage = .idle ∨ s'.stage = .top → Rests o b s'
  | notifies {limit : Option ℕ} : s'.out = calls o (.sendDropped limit) → s'.inbox = b →
      (∃ next, s'.stage = .dropping next) ∨
        (∃ deadline, s'.stage = .failed deadline) ∧ s'.handshakeDeadline = none → Rests o b s'

/-- The owner ends a session: it calls `end`, or had no sending context. -/
inductive Ends (o : State Transcript) (b : Inbox) (s' : Server) : Prop
  | calls {c : ℕ} {drop : Bool} {next : Then} : s'.out = Endpoint.calls o (.finish c) →
      s'.inbox = b → s'.stage = .ending drop next → Ends o b s'
  | closed : Rests o b.close s' → Ends o b s'

/-- **What a step of the owner does.** -/
inductive Move (u : Setup) (opens : Opens) (s : Server) (input : Input) (s' : Server) : Prop
  | begins : s.stage = .idle → s'.stage = .top → s'.out = s.out → s'.inbox = s.inbox →
      s'.handshakeDeadline = s.handshakeDeadline → Move u opens s input s'
  | leaves : s.stage = .idle → Ends s.out (s.inbox.mark (.left .disconnected)) s' →
      Move u opens s input s'
  | unbinds {deadline : ℕ} : s.stage = .top → s.handshakeDeadline = some deadline →
      s'.stage = .unbind deadline → s'.out = calls s.out .unbind → s'.inbox = s.inbox →
      s'.handshakeDeadline = none → Move u opens s input s'
  | listens : s.stage = .top → s.handshakeDeadline = none → s'.stage = .read .search →
      s'.out = s.out → s'.inbox = s.inbox → s'.handshakeDeadline = none → Move u opens s input s'
  | reads {phase phase' : Phase} {reader : Reader} : s.stage = .read phase →
      Reads u.maxFrame s.inbox.reader reader [] → Asking u.maxFrame phase' reader →
      s'.stage = .read phase' → s'.out = s.out → s'.inbox = { s.inbox with reader } →
      s'.handshakeDeadline = s.handshakeDeadline → Move u opens s input s'
  /-- The input failed. -/
  | cut {phase : Phase} {reader : Reader} : s.stage = .read phase →
      Reads u.maxFrame s.inbox.reader reader [] → s'.stage = .idle → s'.out = s.out →
      s'.inbox = { s.inbox with reader } → s'.handshakeDeadline = s.handshakeDeadline →
      Move u opens s input s'
  /-- A frame is no packet. -/
  | breaks {phase : Phase} {reader : Reader} {f : Frame UInt8} : s.stage = .read phase →
      Reads u.maxFrame s.inbox.reader reader [f] →
      (∀ packet, report u.maxFrame u.cobs.decode f ≠ .ok (some packet)) →
      Ends s.out ({ s.inbox with reader }.mark .broken) s' → Move u opens s input s'
  /-- A packet does not open. -/
  | refuses {phase : Phase} {reader : Reader} {f : Frame UInt8} {packet : Bytes} {rx : Receiver}
      {reason : String} {c : ℕ} {error : TransportError} : s.stage = .read phase →
      Reads u.maxFrame s.inbox.reader reader [f] →
      report u.maxFrame u.cobs.decode f = .ok (some packet) → s.inbox.receiver = some rx →
      opens rx.key rx.seq packet = .error reason → s'.stage = .accept c (.error error) →
      s'.out = s.out → s'.inbox = { s.inbox with reader }.mark .broken →
      s'.handshakeDeadline = s.handshakeDeadline → Move u opens s input s'
  | opens {phase : Phase} {reader : Reader} {f : Frame UInt8} {packet message : Bytes}
      {rx : Receiver} {c : ℕ} : s.stage = .read phase →
      Reads u.maxFrame s.inbox.reader reader [f] →
      report u.maxFrame u.cobs.decode f = .ok (some packet) → s.inbox.receiver = some rx →
      opens rx.key rx.seq packet = .ok message → s'.stage = .accept c (.ok message) →
      s'.out = s.out →
      s'.inbox = { { s.inbox with reader } with
        receiver := some { rx with seq := rx.seq + 1 } }.mark (.opened message) →
      s'.handshakeDeadline = s.handshakeDeadline → Move u opens s input s'
  | delivers {c : ℕ} {message : Bytes} : s.stage = .accept c (.ok message) → s'.stage = .idle →
      s'.out = s.out.received owner c (s.out.finishReceive c (.ok message)) →
      s'.inbox = s.inbox.deliver message → s'.handshakeDeadline = s.handshakeDeadline →
      Move u opens s input s'
  /-- A message is not accepted. -/
  | drops {c : ℕ} {opened : Except TransportError Bytes} {b : Inbox} :
      s.stage = .accept c opened →
      (b = s.inbox.mark (.left .unbound) ∨ b = s.inbox ∧ ∃ error, opened = .error error) →
      Ends (s.out.received owner c (s.out.finishReceive c opened)) b s' → Move u opens s input s'
  | releases {drop : Bool} {next : Then} : s.stage = .ending drop next →
      Rests s.out s.inbox.close s' → Move u opens s input s'
  /-- Out of session the owner goes on, or a handshake fails. -/
  | rests {reader : Reader} {read : List (Frame UInt8)} : s.inbox.current = none →
      Reads u.maxFrame s.inbox.reader reader read → Rests s.out { s.inbox with reader } s' →
      Move u opens s input s'
  | asks {deadline : ℕ} {value : Value} : s.stage = .unbind deadline →
      s.out.threads owner = .idle value → s'.stage = .hello deadline .search → s'.out = s.out →
      s'.inbox = s.inbox → s'.handshakeDeadline = s.handshakeDeadline → Move u opens s input s'
  /-- The HostHello is still to come, or the exchange restarts. -/
  | searches {deadline deadline' : ℕ} {phase phase' : Phase} {reader : Reader}
      {read : List (Frame UInt8)} :
      s.stage = .hello deadline phase ∨ (∃ hello ark, s.stage = .ack deadline hello ark phase) →
      Reads u.maxFrame s.inbox.reader reader read → Asking u.maxFrame phase' reader →
      s'.stage = .hello deadline' phase' → s'.out = s.out → s'.inbox = { s.inbox with reader } →
      s'.handshakeDeadline = s.handshakeDeadline → Move u opens s input s'
  | greets {deadline : ℕ} {phase : Phase} {reader : Reader} {f : Frame UInt8} {hello : HostHello} :
      s.stage = .hello deadline phase → Reads u.maxFrame s.inbox.reader reader [f] →
      s'.stage = .greet deadline hello → s'.out = s.out → s'.inbox = { s.inbox with reader } →
      s'.handshakeDeadline = s.handshakeDeadline → Move u opens s input s'
  | seals {deadline : ℕ} {hello : HostHello} {ark : ArkHello} {bytes : Bytes} :
      s.stage = .greet deadline hello → input = .seals (.ok (ark, bytes)) →
      s'.stage = .send deadline hello ark bytes →
      s'.out = calls s.out (.sendPacket bytes (some deadline)) → s'.inbox = s.inbox →
      s'.handshakeDeadline = s.handshakeDeadline → Move u opens s input s'
  | sent {deadline : ℕ} {hello : HostHello} {ark : ArkHello} {bytes : Bytes} :
      s.stage = .send deadline hello ark bytes → s.out.threads owner = .idle (.sent (.ok ())) →
      s'.stage = .ack deadline hello ark .search → s'.out = s.out → s'.inbox = s.inbox →
      s'.handshakeDeadline = s.handshakeDeadline → Move u opens s input s'
  | waits {deadline : ℕ} {hello : HostHello} {ark : ArkHello} {phase phase' : Phase}
      {reader : Reader} : s.stage = .ack deadline hello ark phase →
      Reads u.maxFrame s.inbox.reader reader [] → Asking u.maxFrame phase' reader →
      s'.stage = .ack deadline hello ark phase' → s'.out = s.out →
      s'.inbox = { s.inbox with reader } → s'.handshakeDeadline = s.handshakeDeadline →
      Move u opens s input s'
  | hears {deadline : ℕ} {hello : HostHello} {ark : ArkHello} {phase : Phase} {reader : Reader}
      {f : Frame UInt8} {packet : Bytes} : s.stage = .ack deadline hello ark phase →
      Reads u.maxFrame s.inbox.reader reader [f] →
      report u.maxFrame u.cobs.decode f = .ok (some packet) →
      s'.stage = .answer deadline hello ark packet → s'.out = s.out →
      s'.inbox = { s.inbox with reader } → s'.handshakeDeadline = s.handshakeDeadline →
      Move u opens s input s'
  | binds {deadline : ℕ} {key : Transcript} {packet : Bytes} :
      s.stage = .answer deadline key.hello key.ark packet → input = .opened (.ok key.ack) →
      s'.stage = .bind key → s'.out = calls s.out (.bind key) → s'.inbox = s.inbox →
      s'.handshakeDeadline = s.handshakeDeadline → Move u opens s input s'
  | establishes {key : Transcript} {c : ℕ} : s.stage = .bind key →
      s.out.threads owner = .idle (.bound c) → s'.stage = .idle → s'.out = s.out →
      s'.inbox = s.inbox.establish key c → s'.handshakeDeadline = s.handshakeDeadline →
      Move u opens s input s'

theorem rests_follow (s : Server) (next : Then) : Rests s.out s.inbox (s.follow next) := by
  cases next with
  | disconnected => exact .stays rfl rfl (.inl rfl)
  | again => exact .stays rfl rfl (.inr rfl)
  | done => exact .stays rfl rfl (.inl rfl)

theorem rests_released (s : Server) (drop : Bool) (next : Then) :
    Rests s.out s.inbox.close (s.released drop next) := by
  unfold Server.released
  dsimp only
  split_ifs
  · exact .notifies rfl rfl (.inl ⟨next, rfl⟩)
  · exact rests_follow { s with inbox := s.inbox.close, sealer := none } next

theorem ends_endSession {o : State Transcript} {b : Inbox} (s : Server) (pending : Option ℕ)
    (drop : Bool) (next : Then) : Ends o b (Server.endSession
      { s with out := o, inbox := b, handshakeDeadline := pending } drop next) := by
  unfold Server.endSession
  cases s.sealer with
  | some c => exact .calls rfl rfl rfl
  | none =>
    exact .closed (rests_released { s with out := o, inbox := b, handshakeDeadline := pending }
      drop next)

/-- A handshake fails. -/
theorem rests_abandon {b : Inbox} (s : Server) (deadline : ℕ) (error : TransportError)
    (h : s.handshakeDeadline = none) :
    Rests s.out b (Server.abandon { s with inbox := b } deadline error) := by
  unfold Server.abandon
  split
  · exact .stays rfl rfl (.inl rfl)
  · exact .stays rfl rfl (.inl rfl)
  · exact .stays rfl rfl (.inl rfl)
  · exact .notifies rfl rfl (.inr ⟨⟨deadline, rfl⟩, h⟩)

/-- A frame, or a failure of the input, comes in the loop of `recv`. -/
theorem move_heard {p : State Transcript} {phase : Phase} {reader : Reader}
    {result : Hearing.Result}
    {deadline : ℕ} (hrec : Recorded s.out p s.inbox) (hst : s.stage = .read phase)
    (hg : Grammar.Good u.maxFrame reader)
    (hres : isIoError result = true ∧ Kept u.maxFrame s.inbox.reader reader [] ∨
      ∃ f, result = report u.maxFrame u.cobs.decode f ∧
        Kept u.maxFrame s.inbox.reader reader [f])
    (hnext : Server.heard opens { s with inbox := { s.inbox with reader } } deadline result =
      .next s') : Move u opens s input s' := by
  rcases hres with ⟨hio, hk⟩ | ⟨f, rfl, hk⟩
  · unfold Server.heard at hnext
    split at hnext
    · cases hnext
      exact .cut hst ⟨hg, hk⟩ rfl rfl rfl rfl
    · cases hnext
      exact .cut hst ⟨hg, hk⟩ rfl rfl rfl rfl
    · next hterminated hrecv =>
      unfold isIoError at hio
      split at hio
      · next h => exact (hrecv _ (Except.error.inj h)).elim
      · next h => exact (hterminated (Except.error.inj h)).elim
      · cases hio
    · cases hio
    · cases hio
  · have hnot := report_not_io u.maxFrame u.cobs.decode f
    have hbreaks : ∀ (drop : Bool) (next : Then) (pending : Option ℕ),
        (∀ packet, report u.maxFrame u.cobs.decode f ≠ .ok (some packet)) →
        Move u opens s input (Server.endSession { s with
          handshakeDeadline := pending, inbox := { s.inbox with reader }.mark .broken }
          drop next) :=
      fun drop next pending hne => .breaks hst ⟨hg, hk⟩ hne (ends_endSession s pending drop next)
    generalize hr : report u.maxFrame u.cobs.decode f = result at hnext hnot
    unfold Server.heard at hnext
    split at hnext
    · cases hnot
    · cases hnot
    · cases hnext
      exact hbreaks _ _ _ fun packet h => by rw [hr] at h; cases h
    · cases hnext
      exact hbreaks _ _ _ fun packet h => by rw [hr] at h; cases h
    · next packet =>
      split at hnext
      · next hrx =>
        cases hnext
        exact .rests (hrec.none hrx) ⟨hg, hk⟩ (.notifies rfl rfl (.inl ⟨_, rfl⟩))
      · next rx c hrx hc =>
        have hrx' : s.inbox.receiver = some rx := hrx
        dsimp only [Inbox.openPacket] at hnext
        cases hopen : opens rx.key rx.seq packet with
        | ok message =>
          rw [hopen] at hnext
          cases hnext
          exact .opens hst ⟨hg, hk⟩ hr hrx' hopen rfl rfl rfl rfl
        | error reason =>
          rw [hopen] at hnext
          cases hnext
          exact .refuses hst ⟨hg, hk⟩ hr hrx' hopen rfl rfl rfl rfl
      · cases hnext

theorem move_accepted {c : ℕ} {opened : Except TransportError Bytes}
    (hst : s.stage = .accept c opened) :
    Move u opens s input (Server.accepted
      { s with out := s.out.received owner c (s.out.finishReceive c opened) } opened
        (s.out.finishReceive c opened)) := by
  cases hres : s.out.finishReceive c opened with
  | ok message =>
    have hopened : opened = .ok message := by
      unfold State.finishReceive at hres
      split_ifs at hres
      exact hres
    subst hopened
    exact .delivers hst rfl (by rw [hres]; rfl) rfl rfl
  | error error =>
    cases opened with
    | ok message =>
      refine .drops hst (.inl rfl) ?_
      rw [hres]
      exact ends_endSession s _ _ _
    | error e =>
      refine .drops hst (.inr ⟨rfl, e, rfl⟩) ?_
      rw [hres]
      exact ends_endSession s _ _ _

/-- A frame comes in place of the HostHello. -/
theorem move_greeted {deadline : ℕ} {phase : Phase} {reader : Reader} {result : Hearing.Result}
    {read : List (Frame UInt8)} (hst : s.stage = .hello deadline phase)
    (hnone : s.inbox.current = none ∧ s.handshakeDeadline = none)
    (hread : Reads u.maxFrame s.inbox.reader reader read)
    (hone : ∀ packet, result = .ok (some packet) → ∃ f, read = [f]) :
    Move u opens s input
      (Server.greeted u.codec { s with inbox := { s.inbox with reader } } deadline result) := by
  unfold Server.greeted
  split
  · exact .rests hnone.1 hread (rests_abandon s _ _ hnone.2)
  · exact .searches (.inl hst) hread (fun h => (by cases h)) rfl rfl rfl rfl
  · next packet =>
    obtain ⟨f, rfl⟩ := hone packet rfl
    split
    · exact .greets hst hread rfl rfl rfl rfl
    · exact .rests hnone.1 hread (rests_abandon s _ _ hnone.2)

/-- A frame comes in place of the HostAck. -/
theorem move_acked {deadline : ℕ} {hello : HostHello} {ark : ArkHello} {phase : Phase}
    {reader : Reader} {result : Hearing.Result} {read : List (Frame UInt8)}
    (hst : s.stage = .ack deadline hello ark phase)
    (hnone : s.inbox.current = none ∧ s.handshakeDeadline = none)
    (hread : Reads u.maxFrame s.inbox.reader reader read)
    (hone : ∀ packet, result = .ok (some packet) →
      ∃ f, read = [f] ∧ result = report u.maxFrame u.cobs.decode f) :
    Move u opens s input
      (Server.acked { s with inbox := { s.inbox with reader } } deadline hello ark result) := by
  unfold Server.acked
  split
  · exact .rests hnone.1 hread (rests_abandon s _ _ hnone.2)
  · exact .searches (.inr ⟨hello, ark, hst⟩) hread (fun h => (by cases h)) rfl rfl rfl rfl
  · next packet =>
    obtain ⟨f, rfl, hf⟩ := hone packet rfl
    exact .hears hst hread hf.symm rfl rfl rfl rfl

/-- `recv` reads. -/
theorem move_read {phase : Phase} {p : State Transcript} (hrec : Recorded s.out p s.inbox)
    (hg : Grammar.Good u.maxFrame s.inbox.reader) (hstage : s.stage = .read phase)
    (hst : ServerStage u.maxFrame s.inbox s.handshakeDeadline (.read phase))
    (hnext : s.resume u.server u.codec opens value (.read phase) input = .next s') :
    Move u opens s input s' := by
  obtain ⟨-, hask⟩ := hst
  cases input with
  | turn t deadline =>
    dsimp only [Server.resume] at hnext
    cases hturn : s.inbox.reader.turn u.maxFrame none t phase with
    | more phase' reader =>
      have hok := turnOk hg hask none t
      rw [show u.server.maxFrame = u.maxFrame from rfl, hturn] at hnext
      rw [hturn] at hok
      cases hnext
      exact .reads hstage ⟨hok.1, hok.2.2⟩ hok.2.1 rfl rfl rfl rfl
    | done result reader =>
      rw [show u.server.maxFrame = u.maxFrame from rfl, hturn] at hnext
      obtain ⟨hg', hres⟩ := turn_done u.cobs.decode hg hask hturn
      exact move_heard hrec hstage hg' hres hnext
  | _ => cases hnext

/-- `handshake` reads the HostHello. -/
theorem move_hello {deadline : ℕ} {phase : Phase} (hg : Grammar.Good u.maxFrame s.inbox.reader)
    (hstage : s.stage = .hello deadline phase)
    (hst : ServerStage u.maxFrame s.inbox s.handshakeDeadline (.hello deadline phase))
    (hnext : s.resume u.server u.codec opens value (.hello deadline phase) input = .next s') :
    Move u opens s input s' := by
  obtain ⟨hout, hask⟩ := hst
  cases input with
  | turn t now =>
    dsimp only [Server.resume] at hnext
    cases hturn : s.inbox.reader.turn u.maxFrame (some deadline) t phase with
    | more phase' reader =>
      have hok := turnOk hg hask (some deadline) t
      rw [show u.server.maxFrame = u.maxFrame from rfl, hturn] at hnext
      rw [hturn] at hok
      cases hnext
      exact .searches (.inl hstage) ⟨hok.1, hok.2.2⟩ hok.2.1 rfl rfl rfl rfl
    | done result reader =>
      rw [show u.server.maxFrame = u.maxFrame from rfl, hturn] at hnext
      obtain ⟨hg', hres⟩ := turn_done u.cobs.decode hg hask hturn
      cases hnext
      rcases hres with ⟨hio, hk⟩ | ⟨f, hf, hk⟩
      · refine move_greeted hstage hout ⟨hg', hk⟩ fun packet hp => ?_
        rw [show reader.packet u.cobs.decode result = .ok (some packet) from hp] at hio
        cases hio
      · exact move_greeted hstage hout ⟨hg', hk⟩ fun packet hp => ⟨f, rfl⟩
  | _ => cases hnext

theorem move_send {deadline : ℕ} {hello : HostHello} {ark : ArkHello} {bytes : Bytes}
    (hidle : s.out.threads owner = .idle value) (hg : Grammar.Good u.maxFrame s.inbox.reader)
    (hstage : s.stage = .send deadline hello ark bytes)
    (hst : ServerStage u.maxFrame s.inbox s.handshakeDeadline (.send deadline hello ark bytes))
    (hnext : s.resume u.server u.codec opens value (.send deadline hello ark bytes)
      input = .next s') :
    Move u opens s input s' := by
  cases input with
  | go now =>
    cases value with
    | sent result =>
      cases result with
      | ok =>
        cases hnext
        exact .sent hstage hidle rfl rfl rfl rfl
      | error error =>
        cases hnext
        exact .rests hst.1 (reads_nothing hg) (rests_abandon s _ _ hst.2)
    | _ => cases hnext
  | _ => cases hnext

/-- `handshake` reads the HostAck. -/
theorem move_ack {deadline : ℕ} {hello : HostHello} {ark : ArkHello} {phase : Phase}
    (hg : Grammar.Good u.maxFrame s.inbox.reader)
    (hstage : s.stage = .ack deadline hello ark phase)
    (hst : ServerStage u.maxFrame s.inbox s.handshakeDeadline (.ack deadline hello ark phase))
    (hnext : s.resume u.server u.codec opens value (.ack deadline hello ark phase)
      input = .next s') :
    Move u opens s input s' := by
  obtain ⟨hout, hask⟩ := hst
  cases input with
  | turn t now =>
    dsimp only [Server.resume] at hnext
    cases hturn : s.inbox.reader.turn u.maxFrame (some deadline) t phase with
    | more phase' reader =>
      have hok := turnOk hg hask (some deadline) t
      rw [show u.server.maxFrame = u.maxFrame from rfl, hturn] at hnext
      rw [hturn] at hok
      cases hnext
      exact .waits hstage ⟨hok.1, hok.2.2⟩ hok.2.1 rfl rfl rfl rfl
    | done result reader =>
      rw [show u.server.maxFrame = u.maxFrame from rfl, hturn] at hnext
      obtain ⟨hg', hres⟩ := turn_done u.cobs.decode hg hask hturn
      cases hnext
      rcases hres with ⟨hio, hk⟩ | ⟨f, hf, hk⟩
      · refine move_acked hstage hout ⟨hg', hk⟩ fun packet hp => ?_
        rw [show reader.packet u.cobs.decode result = .ok (some packet) from hp] at hio
        cases hio
      · exact move_acked hstage hout ⟨hg', hk⟩ fun packet hp => ⟨f, rfl, hf⟩
  | _ => cases hnext

theorem move_answer {deadline : ℕ} {hello : HostHello} {ark : ArkHello} {packet : Bytes}
    (hg : Grammar.Good u.maxFrame s.inbox.reader)
    (hstage : s.stage = .answer deadline hello ark packet)
    (hst : ServerStage u.maxFrame s.inbox s.handshakeDeadline (.answer deadline hello ark packet))
    (hnext : s.resume u.server u.codec opens value (.answer deadline hello ark packet)
      input = .next s') :
    Move u opens s input s' := by
  cases input with
  | opened result =>
    rcases result with error | ack
    · cases hnext
      exact .rests hst.1 (reads_nothing hg) (rests_abandon s _ _ hst.2)
    · cases hnext
      have hs : s.stage = .answer deadline (Transcript.mk hello ark ack).hello
          (Transcript.mk hello ark ack).ark packet := hstage
      exact .binds hs rfl rfl rfl rfl rfl
  | _ => cases hnext

theorem move_failed {deadline : ℕ} (hg : Grammar.Good u.maxFrame s.inbox.reader)
    (hst : ServerStage u.maxFrame s.inbox s.handshakeDeadline (.failed deadline))
    (hnext : s.resume u.server u.codec opens value (.failed deadline) input = .next s') :
    Move u opens s input s' := by
  cases input with
  | go now =>
    dsimp only [Server.resume] at hnext
    split_ifs at hnext
    · cases hnext
      exact .rests hst.1 (reads_nothing hg) (.stays rfl rfl (.inl rfl))
    · cases hnext
      exact .rests hst.1 (reads_nothing hg) (.stays rfl rfl (.inr rfl))
  | _ => cases hnext

/-- **There are no other steps of the owner.** -/
theorem move_own {p : State Transcript} (hrec : Recorded s.out p s.inbox)
    (hg : Grammar.Good u.maxFrame s.inbox.reader)
    (hst : ServerStage u.maxFrame s.inbox s.handshakeDeadline s.stage)
    (hnext : s.own u.server u.codec opens input = .next s') :
    (∃ value, s.out.threads owner = .idle value) ∧ Move u opens s input s' := by
  unfold Server.own at hnext
  split at hnext
  swap
  · cases hnext
  rename_i value hidle
  refine ⟨⟨value, hidle⟩, ?_⟩
  cases hstage : s.stage with
  | idle =>
    rw [hstage] at hnext
    cases input with
    | recv =>
      cases hnext
      exact .begins hstage rfl rfl rfl rfl
    | disconnect =>
      cases hnext
      exact .leaves hstage (ends_endSession s _ _ _)
    | _ => cases hnext
  | top =>
    rw [hstage] at hnext
    cases input with
    | go now =>
      cases hnext
      unfold Server.loop
      cases hpending : s.handshakeDeadline with
      | some deadline => exact .unbinds hstage hpending rfl rfl rfl rfl
      | none => exact .listens hstage hpending rfl rfl rfl rfl
    | _ => cases hnext
  | read phase =>
    rw [hstage] at hst hnext
    exact move_read hrec hg hstage hst hnext
  | accept c opened =>
    rw [hstage] at hnext
    cases input with
    | go now =>
      cases hnext
      exact move_accepted hstage
    | _ => cases hnext
  | ending drop next =>
    rw [hstage] at hnext
    cases input with
    | go now =>
      cases hnext
      exact .releases hstage (rests_released s drop next)
    | _ => cases hnext
  | dropping next =>
    rw [hstage] at hst hnext
    cases input with
    | go now =>
      cases hnext
      exact .rests hst (reads_nothing hg) (rests_follow s next)
    | _ => cases hnext
  | unbind deadline =>
    rw [hstage] at hnext
    cases input with
    | go now =>
      cases hnext
      exact .asks hstage hidle rfl rfl rfl rfl
    | _ => cases hnext
  | hello deadline phase =>
    rw [hstage] at hst hnext
    exact move_hello hg hstage hst hnext
  | greet deadline hello =>
    rw [hstage] at hst hnext
    cases input with
    | seals result =>
      rcases result with error | ⟨ark, bytes⟩
      · cases hnext
        exact .rests hst.1 (reads_nothing hg) (rests_abandon s _ _ hst.2)
      · cases hnext
        exact .seals hstage rfl rfl rfl rfl rfl
    | _ => cases hnext
  | send deadline hello ark bytes =>
    rw [hstage] at hst hnext
    exact move_send hidle hg hstage hst hnext
  | ack deadline hello ark phase =>
    rw [hstage] at hst hnext
    exact move_ack hg hstage hst hnext
  | answer deadline hello ark packet =>
    rw [hstage] at hst hnext
    exact move_answer hg hstage hst hnext
  | bind key =>
    rw [hstage] at hnext
    cases input with
    | go now =>
      cases value with
      | bound c =>
        cases hnext
        exact .establishes hstage hidle rfl rfl rfl rfl
      | _ => cases hnext
    | _ => cases hnext
  | failed deadline =>
    rw [hstage] at hst hnext
    exact move_failed hg hst hnext

/-! ### The session at each stage -/

theorem stage_rests {o : State Transcript} {b : Inbox} (h : Rests o b s') (hnone : b.current = none)
    (max : ℕ) : ServerStage max s'.inbox s'.handshakeDeadline s'.stage := by
  cases h with
  | stays hout hb hs' =>
    rw [hb]
    rcases hs' with hs' | hs'
    · rw [hs']
      exact ⟨live_of_none hnone, fun _ => hnone⟩
    · rw [hs']
      exact ⟨live_of_none hnone, fun _ => hnone⟩
  | notifies hout hb hs' =>
    rw [hb]
    rcases hs' with ⟨next, hs'⟩ | ⟨⟨deadline, hs'⟩, hpending⟩
    · rw [hs']
      exact hnone
    · rw [hs']
      exact ⟨hnone, hpending⟩

theorem stage_ends {o : State Transcript} {b : Inbox} (h : Ends o b s') (ho : Over b) (max : ℕ) :
    ServerStage max s'.inbox s'.handshakeDeadline s'.stage := by
  cases h with
  | calls hout hb hs' =>
    rw [hb, hs']
    exact ho
  | closed h => exact stage_rests h rfl max

theorem stage_move {p : State Transcript} (hrec : Recorded s.out p s.inbox)
    (hst : ServerStage u.maxFrame s.inbox s.handshakeDeadline s.stage)
    (h : Move u opens s input s') :
    ServerStage u.maxFrame s'.inbox s'.handshakeDeadline s'.stage := by
  have hsearch : Asking u.maxFrame .search s.inbox.reader := fun h => (by cases h)
  cases h with
  | begins hs hs' hout hb hpending =>
    rw [hs] at hst
    rw [hs', hb, hpending]
    exact hst
  | leaves hs he => exact stage_ends he (over_mark (.inr ⟨_, rfl⟩)) _
  | unbinds hs hsome hs' hout hb hpending =>
    rw [hs, hsome] at hst
    rw [hs', hb, hpending]
    exact ⟨hst.2 rfl, rfl⟩
  | listens hs hnone hs' hout hb hpending =>
    rw [hs] at hst
    rw [hs', hb, hpending]
    exact ⟨⟨hst.1, rfl⟩, hsearch⟩
  | reads hs hread hask hs' hout hb hpending =>
    rw [hs] at hst
    rw [hs', hb, hpending]
    exact ⟨hst.1, hask⟩
  | cut hs hread hs' hout hb hpending =>
    rw [hs] at hst
    rw [hs', hb, hpending, hst.1.2]
    exact ⟨hst.1.1, fun h => (by cases h)⟩
  | breaks hs hread hne he => exact stage_ends he (over_mark (.inl rfl)) _
  | refuses hs hread hf hrx hopen hs' hout hb hpending =>
    rw [hs] at hst
    obtain ⟨x, hx⟩ := hrec.receives _ hrx
    rw [hs', hb, hpending]
    refine ⟨⟨by simp [Inbox.mark, hx], hst.1.2⟩, fun y hy => ?_⟩
    obtain ⟨z, -, rfl⟩ := Option.map_eq_some_iff.mp hy
    rfl
  | opens hs hread hf hrx hopen hs' hout hb hpending =>
    rw [hs] at hst
    obtain ⟨x, hx⟩ := hrec.receives _ hrx
    rw [hs', hb, hpending]
    refine ⟨⟨by simp [Inbox.mark, hx], hst.1.2⟩, fun y hy => ?_⟩
    obtain ⟨z, -, rfl⟩ := Option.map_eq_some_iff.mp hy
    rfl
  | delivers hs hs' hout hb hpending =>
    rw [hs] at hst
    rw [hs', hb, hpending, hst.1.2]
    refine ⟨fun y hy => ?_, fun h => (by cases h)⟩
    obtain ⟨z, -, rfl⟩ := Option.map_eq_some_iff.mp hy
    rfl
  | drops hs hbox he =>
    refine stage_ends he ?_ _
    rcases hbox with rfl | ⟨rfl, error, rfl⟩
    · exact over_mark (.inr ⟨_, rfl⟩)
    · rw [hs] at hst
      exact fun y hy => .inl (hst.2 y hy)
  | releases hs h => exact stage_rests h rfl _
  | rests hnone hread h => exact stage_rests h hnone _
  | asks hs hidle hs' hout hb hpending =>
    rw [hs] at hst
    rw [hs', hb, hpending]
    exact ⟨hst, hsearch⟩
  | searches hs hread hask hs' hout hb hpending =>
    rw [hs', hb, hpending]
    rcases hs with hs | ⟨hello, ark, hs⟩
    · rw [hs] at hst
      exact ⟨hst.1, hask⟩
    · rw [hs] at hst
      exact ⟨hst.1, hask⟩
  | greets hs hread hs' hout hb hpending =>
    rw [hs] at hst
    rw [hs', hb, hpending]
    exact hst.1
  | seals hs hin hs' hout hb hpending =>
    rw [hs] at hst
    rw [hs', hb, hpending]
    exact hst
  | sent hs hpc hs' hout hb hpending =>
    rw [hs] at hst
    rw [hs', hb, hpending]
    exact ⟨hst, hsearch⟩
  | waits hs hread hask hs' hout hb hpending =>
    rw [hs] at hst
    rw [hs', hb, hpending]
    exact ⟨hst.1, hask⟩
  | hears hs hread hf hs' hout hb hpending =>
    rw [hs] at hst
    rw [hs', hb, hpending]
    exact hst.1
  | binds hs hin hs' hout hb hpending =>
    rw [hs] at hst
    rw [hs', hb, hpending]
    exact hst
  | establishes hs hpc hs' hout hb hpending =>
    rw [hs] at hst
    rw [hs', hb, hpending, hst.2]
    refine ⟨fun h hh => ?_, fun h => (by cases h)⟩
    cases hh
    rfl

/-! ### What is left alone -/

theorem calm_rests {o : State Transcript} {b : Inbox} (h : Rests o b s') : Calm o s'.out := by
  cases h with
  | stays hout hb hs' => exact hout ▸ calm_refl _
  | notifies hout hb hs' => exact hout ▸ calm_calls _ _

theorem calm_ends {o : State Transcript} {b : Inbox} (h : Ends o b s') : Calm o s'.out := by
  cases h with
  | calls hout hb hs' => exact hout ▸ calm_calls _ _
  | closed h => exact calm_rests h

theorem calm_move (h : Move u opens s input s') : Calm s.out s'.out := by
  cases h with
  | begins hs hs' hout => exact hout ▸ calm_refl _
  | leaves hs he => exact calm_ends he
  | unbinds hs hsome hs' hout => exact hout ▸ calm_calls _ _
  | listens hs hnone hs' hout => exact hout ▸ calm_refl _
  | reads hs hread hask hs' hout => exact hout ▸ calm_refl _
  | cut hs hread hs' hout => exact hout ▸ calm_refl _
  | breaks hs hread hne he => exact calm_ends he
  | refuses hs hread hf hrx hopen hs' hout => exact hout ▸ calm_refl _
  | opens hs hread hf hrx hopen hs' hout => exact hout ▸ calm_refl _
  | delivers hs hs' hout => exact hout ▸ calm_received _ _ _
  | drops hs hbox he => exact (calm_received _ _ _).trans (calm_ends he)
  | releases hs h => exact calm_rests h
  | rests hnone hread h => exact calm_rests h
  | asks hs hidle hs' hout => exact hout ▸ calm_refl _
  | searches hs hread hask hs' hout => exact hout ▸ calm_refl _
  | greets hs hread hs' hout => exact hout ▸ calm_refl _
  | seals hs hin hs' hout => exact hout ▸ calm_calls _ _
  | sent hs hpc hs' hout => exact hout ▸ calm_refl _
  | waits hs hread hask hs' hout => exact hout ▸ calm_refl _
  | hears hs hread hf hs' hout => exact hout ▸ calm_refl _
  | binds hs hin hs' hout => exact hout ▸ calm_calls _ _
  | establishes hs hpc hs' hout => exact hout ▸ calm_refl _

/-! ### What the owner reads -/

/-- The next packet of the session has this number, once the session is received in. -/
def Holds (s : Server) (key : Transcript) (seq : ℕ) : Prop :=
  s.inbox.receiver = some ⟨key, seq⟩ ∨ seq = 0 ∧ s.stage = .bind key

/-- The owner has opened the HostAck of the key. -/
def Starts (s : Server) (input : Input) (key : Transcript) : Prop :=
  ∃ deadline packet, s.stage = .answer deadline key.hello key.ark packet ∧
    input = .opened (.ok key.ack)

/-- What the owner reads in a step. -/
def Moved (u : Setup) (opens : Opens) (s : Server) (input : Input) (s' : Server) : Prop :=
  ∃ read, Reads u.maxFrame s.inbox.reader s'.inbox.reader read ∧
    Takes u.maxFrame u.cobs.decode opens (Starts s input) (Holds s) (Holds s') s.inbox s'.inbox read

theorem Holds.receiver {key : Transcript} {seq : ℕ} (h : Holds s key seq)
    (hst : s.stage ≠ .bind key) : s.inbox.receiver = some ⟨key, seq⟩ := by
  rcases h with h | ⟨-, h⟩
  · exact h
  · exact absurd h hst

/-- Where the owner rests it is in no `new_session`. -/
theorem holds_rests {o : State Transcript} {b : Inbox} {key : Transcript} {seq : ℕ}
    (h : Rests o b s') (hk : Holds s' key seq) : b.receiver = some ⟨key, seq⟩ := by
  cases h with
  | stays hout hb hs' =>
    rw [← hb]
    refine hk.receiver ?_
    rcases hs' with hs' | hs'
    · simp [hs']
    · simp [hs']
  | notifies hout hb hs' =>
    rw [← hb]
    refine hk.receiver ?_
    rcases hs' with ⟨next, hs'⟩ | ⟨⟨deadline, hs'⟩, -⟩
    · simp [hs']
    · simp [hs']

theorem inbox_rests {o : State Transcript} {b : Inbox} (h : Rests o b s') : s'.inbox = b := by
  cases h with
  | stays hout hb hs' => exact hb
  | notifies hout hb hs' => exact hb

theorem moved_ends {o : State Transcript} {b : Inbox} {read : List (Frame UInt8)} (he : Ends o b s')
    (hread : Reads u.maxFrame s.inbox.reader b.reader read)
    (ht : ∀ s' : Server, (∀ key seq, Holds s' key seq → b.receiver = some ⟨key, seq⟩) →
      (∀ key, Broken s'.inbox key → Broken b key) →
      Takes u.maxFrame u.cobs.decode opens (Starts s input) (Holds s) (Holds s') s.inbox s'.inbox
        read) :
    Moved u opens s input s' := by
  cases he with
  | calls hout hb hs' =>
    refine ⟨read, by rw [hb]; exact hread, ht s' (fun key seq h => ?_) fun key h => ?_⟩
    · rw [← hb]
      exact h.receiver (by simp [hs'])
    · rw [← hb]
      exact h
  | closed h =>
    have hb := inbox_rests h
    refine ⟨read, by rw [hb]; exact hread, ht s' (fun key seq hk => ?_) fun key hk => ?_⟩
    · cases holds_rests h hk
    · rw [hb] at hk
      exact broken_close hk

/-- Nothing is received and no session is held in addition. -/
theorem moved_quiet {p : State Transcript} (hrec : Recorded s.out p s.inbox) {b : Inbox}
    {reader : Reader} {read : List (Frame UInt8)} (hb : s'.inbox = b) (hreader : b.reader = reader)
    (hrx : b.receiver = s.inbox.receiver) (hbind : ∀ key, s'.stage ≠ .bind key)
    (hbr : ∀ key, Broken b key → Broken s.inbox key)
    (hread : Reads u.maxFrame s.inbox.reader reader read)
    (hquiet : read = [] ∨ s.inbox.current = none) : Moved u opens s input s' := by
  subst hb hreader
  refine ⟨read, hread, ?_⟩
  rcases hquiet with rfl | hcur
  · refine .keeps rfl (fun key seq h => .inl ?_) hbr
    rw [← hrx]
    exact h.receiver (hbind key)
  · refine .outside (fun key seq h => ?_) hbr
    have hrx' := h.receiver (hbind key)
    rw [hrx, hrec.no_receiver hcur] at hrx'
    cases hrx'

/-- The session ends with no frame, by a reset or because it was noticed to be over. -/
theorem moved_left {o : State Transcript} {why : Leave}
    (hnone : Reads u.maxFrame s.inbox.reader s.inbox.reader [])
    (he : Ends o (s.inbox.mark (.left why)) s') : Moved u opens s input s' := by
  refine moved_ends he hnone fun s' hr hbr => .keeps rfl (fun key seq h => .inl (hr key seq h)) ?_
  intro key h
  exact broken_left (hbr key h)

theorem moved_refuses {p : State Transcript} (hrec : Recorded s.out p s.inbox) {reader : Reader}
    {f : Frame UInt8} {packet : Bytes} {rx : Receiver} {reason : String}
    (hread : Reads u.maxFrame s.inbox.reader reader [f])
    (hf : report u.maxFrame u.cobs.decode f = .ok (some packet))
    (hrx : s.inbox.receiver = some rx) (hopen : opens rx.key rx.seq packet = .error reason)
    (hbind : ∀ key, s'.stage ≠ .bind key) (hb : s'.inbox = { s.inbox with reader }.mark .broken) :
    Moved u opens s input s' := by
  refine ⟨[f], by rw [hb]; exact hread, takes_broken hrec (fun rx' packet' message hrx' hf' => ?_)
    (fun rx h => .inl h) (fun key seq h => ?_) fun key h => ?_⟩
  · rw [hrx] at hrx'
    rw [hf] at hf'
    cases hrx'
    cases hf'
    simp [hopen]
  · have hrx' := h.receiver (hbind key)
    rw [hb] at hrx'
    exact hrx'
  · rw [hb] at h
    exact broken_current h

theorem moved_opens {reader : Reader} {f : Frame UInt8} {packet message : Bytes} {rx : Receiver}
    (hread : Reads u.maxFrame s.inbox.reader reader [f])
    (hf : report u.maxFrame u.cobs.decode f = .ok (some packet))
    (hrx : s.inbox.receiver = some rx) (hopen : opens rx.key rx.seq packet = .ok message)
    (hbind : ∀ key, s'.stage ≠ .bind key)
    (hb : s'.inbox = { { s.inbox with reader } with
      receiver := some { rx with seq := rx.seq + 1 } }.mark (.opened message)) :
    Moved u opens s input s' := by
  refine ⟨[f], by rw [hb]; exact hread, .opens (.inl hrx) rfl hf hopen (fun key seq h => ?_)
    fun key h => ?_⟩
  · have hrx' := h.receiver (hbind key)
    rw [hb] at hrx'
    cases hrx'
    exact ⟨rfl, rfl⟩
  · rw [hb] at h
    rcases broken_mark h with h | ⟨h, -⟩
    · exact h
    · cases h

theorem moved_rests {o : State Transcript} {reader : Reader} {read : List (Frame UInt8)}
    {p : State Transcript} (hrec : Recorded s.out p s.inbox) (hcur : s.inbox.current = none)
    (hread : Reads u.maxFrame s.inbox.reader reader read)
    (h : Rests o { s.inbox with reader } s') : Moved u opens s input s' := by
  have hb := inbox_rests h
  refine ⟨read, by rw [hb]; exact hread, .outside (fun key seq hk => ?_) fun key hk => ?_⟩
  · have hrx := holds_rests h hk
    have hsame : s.inbox.receiver = some ⟨key, seq⟩ := hrx
    rw [hrec.no_receiver hcur] at hsame
    cases hsame
  · rw [hb] at hk
    exact hk

theorem moved_binds {p : State Transcript} (hrec : Recorded s.out p s.inbox) {key : Transcript}
    (hnone : Reads u.maxFrame s.inbox.reader s.inbox.reader []) (hcur : s.inbox.current = none)
    (hstarts : Starts s input key) (hs' : s'.stage = .bind key) (hb : s'.inbox = s.inbox) :
    Moved u opens s input s' := by
  refine ⟨[], by rw [hb]; exact hnone, .starts rfl hstarts (fun key' seq h => ?_) fun key h => ?_⟩
  · rcases h with h | ⟨hseq, h⟩
    · rw [hb, hrec.no_receiver hcur] at h
      cases h
    · rw [hs', Stage.bind.injEq] at h
      exact ⟨h.symm, hseq⟩
  · rw [hb] at h
    exact h

theorem moved_establishes {key : Transcript} {c : ℕ}
    (hnone : Reads u.maxFrame s.inbox.reader s.inbox.reader []) (hs : s.stage = .bind key)
    (hbind : ∀ key, s'.stage ≠ .bind key) (hb : s'.inbox = s.inbox.establish key c) :
    Moved u opens s input s' := by
  refine ⟨[], by rw [hb]; exact hnone, .keeps rfl (fun key' seq h => ?_) fun key' h => ?_⟩
  · have hrx := h.receiver (hbind key')
    rw [hb] at hrx
    cases hrx
    exact .inr ⟨rfl, hs⟩
  · rw [hb] at h
    exact broken_establish h

theorem takes_move {p : State Transcript} (hg : Grammar.Good u.maxFrame s.inbox.reader)
    (hrec : Recorded s.out p s.inbox)
    (hst : ServerStage u.maxFrame s.inbox s.handshakeDeadline s.stage)
    (h : Move u opens s input s') : Moved u opens s input s' := by
  have hnone : Reads u.maxFrame s.inbox.reader s.inbox.reader [] := reads_nothing hg
  cases h with
  | begins hs hs' hout hb =>
    exact moved_quiet hrec hb rfl rfl (by simp [hs']) (fun _ h => h) hnone (.inl rfl)
  | leaves hs he => exact moved_left hnone he
  | unbinds hs hsome hs' hout hb =>
    exact moved_quiet hrec hb rfl rfl (by simp [hs']) (fun _ h => h) hnone (.inl rfl)
  | listens hs hno hs' hout hb =>
    exact moved_quiet hrec hb rfl rfl (by simp [hs']) (fun _ h => h) hnone (.inl rfl)
  | reads hs hread hask hs' hout hb =>
    exact moved_quiet hrec hb rfl rfl (by simp [hs']) (fun _ h => h) hread (.inl rfl)
  | cut hs hread hs' hout hb =>
    exact moved_quiet hrec hb rfl rfl (by simp [hs']) (fun _ h => h) hread (.inl rfl)
  | breaks hs hread hne he =>
    exact moved_ends he hread fun s' hr hbr =>
      takes_broken hrec (fun _ packet _ _ h => absurd h (hne packet)) (fun rx h => .inl h) hr
        fun key h => broken_current (hbr key h)
  | refuses hs hread hf hrx hopen hs' hout hb =>
    exact moved_refuses hrec hread hf hrx hopen (by simp [hs']) hb
  | opens hs hread hf hrx hopen hs' hout hb =>
    exact moved_opens hread hf hrx hopen (by simp [hs']) hb
  | delivers hs hs' hout hb =>
    exact moved_quiet hrec hb rfl rfl (by simp [hs']) (fun key h => broken_deliver h) hnone
      (.inl rfl)
  | drops hs hbox he =>
    rcases hbox with rfl | ⟨rfl, -⟩
    · exact moved_left hnone he
    · exact moved_ends he hnone fun s' hr hbr =>
        .keeps rfl (fun key seq h => .inl (hr key seq h)) hbr
  | releases hs h =>
    have hb := inbox_rests h
    refine ⟨[], by rw [hb]; exact hnone, .keeps rfl (fun key seq hk => ?_) fun key hk => ?_⟩
    · cases holds_rests h hk
    · rw [hb] at hk
      exact broken_close hk
  | rests hcur hread h => exact moved_rests hrec hcur hread h
  | asks hs hidle hs' hout hb =>
    exact moved_quiet hrec hb rfl rfl (by simp [hs']) (fun _ h => h) hnone (.inl rfl)
  | searches hs hread hask hs' hout hb =>
    refine moved_quiet hrec hb rfl rfl (by simp [hs']) (fun _ h => h) hread (.inr ?_)
    rcases hs with hs | ⟨hello, ark, hs⟩
    · rw [hs] at hst
      exact hst.1.1
    · rw [hs] at hst
      exact hst.1.1
  | greets hs hread hs' hout hb =>
    rw [hs] at hst
    exact moved_quiet hrec hb rfl rfl (by simp [hs']) (fun _ h => h) hread (.inr hst.1.1)
  | seals hs hin hs' hout hb =>
    exact moved_quiet hrec hb rfl rfl (by simp [hs']) (fun _ h => h) hnone (.inl rfl)
  | sent hs hpc hs' hout hb =>
    exact moved_quiet hrec hb rfl rfl (by simp [hs']) (fun _ h => h) hnone (.inl rfl)
  | waits hs hread hask hs' hout hb =>
    exact moved_quiet hrec hb rfl rfl (by simp [hs']) (fun _ h => h) hread (.inl rfl)
  | hears hs hread hf hs' hout hb =>
    rw [hs] at hst
    exact moved_quiet hrec hb rfl rfl (by simp [hs']) (fun _ h => h) hread (.inr hst.1.1)
  | @binds deadline key packet hs hin hs' hout hb =>
    rw [hs] at hst
    exact moved_binds hrec hnone hst.1 ⟨deadline, packet, hs, hin⟩ hs' hb
  | establishes hs hpc hs' hout hb => exact moved_establishes hnone hs (by simp [hs']) hb

/-! ### The exchange -/

/-- Where the HostAck of an exchange is still to be opened, and how many frames were read in its
place. -/
def slack (hello : HostHello) (ark : ArkHello) : Stage → Option ℕ
  | .send _ h a _ => if h = hello ∧ a = ark then some 0 else none
  | .ack _ h a _ => if h = hello ∧ a = ark then some 0 else none
  | .answer _ h a _ => if h = hello ∧ a = ark then some 1 else none
  | _ => none

/-- The owner seals the ArkHello of an exchange. -/
def Greets (s : Server) (input : Input) (hello : HostHello) (ark : ArkHello) : Prop :=
  ∃ deadline bytes, s.stage = .greet deadline hello ∧ input = .seals (.ok (ark, bytes))

theorem slack_rests {hello : HostHello} {ark : ArkHello} {o : State Transcript} {b : Inbox}
    (h : Rests o b s') : slack hello ark s'.stage = none := by
  cases h with
  | stays hout hb hs' =>
    rcases hs' with hs' | hs'
    · rw [hs']
      rfl
    · rw [hs']
      rfl
  | notifies hout hb hs' =>
    rcases hs' with ⟨next, hs'⟩ | ⟨⟨deadline, hs'⟩, -⟩
    · rw [hs']
      rfl
    · rw [hs']
      rfl

theorem slack_ends {hello : HostHello} {ark : ArkHello} {o : State Transcript} {b : Inbox}
    (h : Ends o b s') : slack hello ark s'.stage = none := by
  cases h with
  | calls hout hb hs' =>
    rw [hs']
    rfl
  | closed h => exact slack_rests h

/-- **The owner reads one frame for the HostAck.** -/
theorem slack_move {hello : HostHello} {ark : ArkHello} {n' : ℕ}
    (hg : Grammar.Good u.maxFrame s.inbox.reader) (h : Move u opens s input s')
    (hk : slack hello ark s'.stage = some n') :
    Greets s input hello ark ∨ s'.out = s.out ∧ ∃ n read, slack hello ark s.stage = some n ∧
      Reads u.maxFrame s.inbox.reader s'.inbox.reader read ∧ read.length + n = n' := by
  have hnone : Reads u.maxFrame s.inbox.reader s.inbox.reader [] := reads_nothing hg
  have hnot : slack hello ark s'.stage = none → False := fun h => by rw [h] at hk; cases hk
  cases h with
  | begins hs hs' => exact (hnot (by rw [hs']; rfl)).elim
  | leaves hs he => exact (hnot (slack_ends he)).elim
  | unbinds hs hsome hs' => exact (hnot (by rw [hs']; rfl)).elim
  | listens hs hno hs' => exact (hnot (by rw [hs']; rfl)).elim
  | reads hs hread hask hs' => exact (hnot (by rw [hs']; rfl)).elim
  | cut hs hread hs' => exact (hnot (by rw [hs']; rfl)).elim
  | breaks hs hread hne he => exact (hnot (slack_ends he)).elim
  | refuses hs hread hf hrx hopen hs' => exact (hnot (by rw [hs']; rfl)).elim
  | opens hs hread hf hrx hopen hs' => exact (hnot (by rw [hs']; rfl)).elim
  | delivers hs hs' => exact (hnot (by rw [hs']; rfl)).elim
  | drops hs hbox he => exact (hnot (slack_ends he)).elim
  | releases hs h => exact (hnot (slack_rests h)).elim
  | rests hcur hread h => exact (hnot (slack_rests h)).elim
  | asks hs hidle hs' => exact (hnot (by rw [hs']; rfl)).elim
  | searches hs hread hask hs' => exact (hnot (by rw [hs']; rfl)).elim
  | greets hs hread hs' => exact (hnot (by rw [hs']; rfl)).elim
  | seals hs hin hs' hout hb =>
    rw [hs'] at hk
    dsimp only [slack] at hk
    split_ifs at hk with heq
    obtain ⟨rfl, rfl⟩ := heq
    exact .inl ⟨_, _, hs, hin⟩
  | sent hs hpc hs' hout hb =>
    rw [hs'] at hk
    exact .inr ⟨hout, n', [], by rw [hs]; exact hk, by rw [hb]; exact hnone, by simp⟩
  | waits hs hread hask hs' hout hb =>
    rw [hs'] at hk
    exact .inr ⟨hout, n', [], by rw [hs]; exact hk, by rw [hb]; exact hread, by simp⟩
  | hears hs hread hf hs' hout hb =>
    rw [hs'] at hk
    dsimp only [slack] at hk
    split_ifs at hk with heq
    cases hk
    exact .inr ⟨hout, 0, _, by rw [hs]; exact if_pos heq, by rw [hb]; exact hread, rfl⟩
  | binds hs hin hs' => exact (hnot (by rw [hs']; rfl)).elim
  | establishes hs hpc hs' => exact (hnot (by rw [hs']; rfl)).elim

/-- Where the owner rests or ends a session, it is in no exchange. -/
theorem stage_of_rests {o : State Transcript} {b : Inbox} (h : Rests o b s') :
    (∀ deadline hello ark packet, s'.stage ≠ .answer deadline hello ark packet) ∧
      ∀ key, s'.stage ≠ .bind key := by
  cases h with
  | stays hout hb hs' =>
    rcases hs' with hs' | hs'
    · simp [hs']
    · simp [hs']
  | notifies hout hb hs' =>
    rcases hs' with ⟨next, hs'⟩ | ⟨⟨deadline, hs'⟩, -⟩
    · simp [hs']
    · simp [hs']

theorem stage_of_ends {o : State Transcript} {b : Inbox} (h : Ends o b s') :
    (∀ deadline hello ark packet, s'.stage ≠ .answer deadline hello ark packet) ∧
      ∀ key, s'.stage ≠ .bind key := by
  cases h with
  | calls hout hb hs' => simp [hs']
  | closed h => exact stage_of_rests h

/-- The packet of an answer was the last frame that was read. -/
theorem answer_move {deadline : ℕ} {hello : HostHello} {ark : ArkHello} {packet : Bytes}
    (h : Move u opens s input s') (hk : s'.stage = .answer deadline hello ark packet) :
    ∃ f, Reads u.maxFrame s.inbox.reader s'.inbox.reader [f] ∧
      report u.maxFrame u.cobs.decode f = .ok (some packet) := by
  have hnot : ∀ {stage}, s'.stage = stage → stage ≠ .answer deadline hello ark packet → False := by
    intro stage hst hne
    exact hne (hst.symm.trans hk)
  cases h with
  | begins hs hs' => exact (hnot hs' (by simp)).elim
  | leaves hs he => exact ((stage_of_ends he).1 _ _ _ _ hk).elim
  | unbinds hs hsome hs' => exact (hnot hs' (by simp)).elim
  | listens hs hno hs' => exact (hnot hs' (by simp)).elim
  | reads hs hread hask hs' => exact (hnot hs' (by simp)).elim
  | cut hs hread hs' => exact (hnot hs' (by simp)).elim
  | breaks hs hread hne he => exact ((stage_of_ends he).1 _ _ _ _ hk).elim
  | refuses hs hread hf hrx hopen hs' => exact (hnot hs' (by simp)).elim
  | opens hs hread hf hrx hopen hs' => exact (hnot hs' (by simp)).elim
  | delivers hs hs' => exact (hnot hs' (by simp)).elim
  | drops hs hbox he => exact ((stage_of_ends he).1 _ _ _ _ hk).elim
  | releases hs h => exact ((stage_of_rests h).1 _ _ _ _ hk).elim
  | rests hcur hread h => exact ((stage_of_rests h).1 _ _ _ _ hk).elim
  | asks hs hidle hs' => exact (hnot hs' (by simp)).elim
  | searches hs hread hask hs' => exact (hnot hs' (by simp)).elim
  | greets hs hread hs' => exact (hnot hs' (by simp)).elim
  | seals hs hin hs' => exact (hnot hs' (by simp)).elim
  | sent hs hpc hs' => exact (hnot hs' (by simp)).elim
  | waits hs hread hask hs' => exact (hnot hs' (by simp)).elim
  | hears hs hread hf hs' hout hb =>
    rw [hs'] at hk
    cases hk
    exact ⟨_, by rw [hb]; exact hread, hf⟩
  | binds hs hin hs' => exact (hnot hs' (by simp)).elim
  | establishes hs hpc hs' => exact (hnot hs' (by simp)).elim

/-- A session is bound where its HostAck was opened. -/
theorem bind_move {key : Transcript} (h : Move u opens s input s') (hk : s'.stage = .bind key) :
    Starts s input key := by
  have hnot : ∀ {stage}, s'.stage = stage → stage ≠ .bind key → False := by
    intro stage hst hne
    exact hne (hst.symm.trans hk)
  cases h with
  | begins hs hs' => exact (hnot hs' (by simp)).elim
  | leaves hs he => exact ((stage_of_ends he).2 _ hk).elim
  | unbinds hs hsome hs' => exact (hnot hs' (by simp)).elim
  | listens hs hno hs' => exact (hnot hs' (by simp)).elim
  | reads hs hread hask hs' => exact (hnot hs' (by simp)).elim
  | cut hs hread hs' => exact (hnot hs' (by simp)).elim
  | breaks hs hread hne he => exact ((stage_of_ends he).2 _ hk).elim
  | refuses hs hread hf hrx hopen hs' => exact (hnot hs' (by simp)).elim
  | opens hs hread hf hrx hopen hs' => exact (hnot hs' (by simp)).elim
  | delivers hs hs' => exact (hnot hs' (by simp)).elim
  | drops hs hbox he => exact ((stage_of_ends he).2 _ hk).elim
  | releases hs h => exact ((stage_of_rests h).2 _ hk).elim
  | rests hcur hread h => exact ((stage_of_rests h).2 _ hk).elim
  | asks hs hidle hs' => exact (hnot hs' (by simp)).elim
  | searches hs hread hask hs' => exact (hnot hs' (by simp)).elim
  | greets hs hread hs' => exact (hnot hs' (by simp)).elim
  | seals hs hin hs' => exact (hnot hs' (by simp)).elim
  | sent hs hpc hs' => exact (hnot hs' (by simp)).elim
  | waits hs hread hask hs' => exact (hnot hs' (by simp)).elim
  | hears hs hread hf hs' => exact (hnot hs' (by simp)).elim
  | binds hs hin hs' =>
    rw [hs'] at hk
    cases hk
    exact ⟨_, _, hs, hin⟩
  | establishes hs hpc hs' => exact (hnot hs' (by simp)).elim

end ArkWire.Transport.ServerMoves
