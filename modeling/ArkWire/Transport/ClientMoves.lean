import ArkWire.Transport.Ledger

/-! # The steps of a client's owner

`Move` lists them with what they do to the reader, the records and the outbound transport. Of each
kind of step it is then shown once what it keeps of the session (`stage_move`), what it leaves alone
(`calm_move`) and what it does with the frames it reads (`takes_move`). -/

namespace ArkWire.Transport.ClientMoves

open ArkWire.Lib.Machines ArkWire.Lib.Delimited
open ArkWire.Transport.Errors ArkWire.Transport.FrameReader ArkWire.Transport.FrameWriter
open ArkWire.Transport.Grammar hiding Good
open ArkWire.Transport.Outbound ArkWire.Transport.OutboundSteps ArkWire.Transport.Endpoint
open ArkWire.Transport.Client ArkWire.Transport.Pair
open ArkWire.Transport.Hearing (sessions Live turn_done)
open ArkWire.Transport.Integrity (ClientStage Awaits Over over_mark live_of_none)
open ArkWire.Transport.Company ArkWire.Transport.Flow ArkWire.Transport.Ledger

variable {u : Setup} {opens : Opens} {s s' : Client} {value : Value} {input : Input}

/-! ### The steps of the owner -/

/-- The owner ends a session: it calls `end`, or had no sending context. -/
inductive Ends (o : State Transcript) (b : Inbox) (s' : Client) : Prop
  | calls {c : ℕ} {error : TransportError} : s'.out = Endpoint.calls o (.finish c) → s'.inbox = b →
      s'.stage = .ending error → Ends o b s'
  | closed : s'.out = o → s'.inbox = b.close → s'.stage = .idle → Ends o b s'

/-- **What a step of the owner does.** -/
inductive Move (u : Setup) (opens : Opens) (s : Client) (input : Input) (s' : Client) : Prop
  /-- A `recv` begins. -/
  | begins : s.stage = .idle → s'.stage = .read .search → s'.out = s.out → s'.inbox = s.inbox →
      Move u opens s input s'
  /-- There is no session to receive in. -/
  | refused : s.stage = .idle → s'.stage = .idle → s'.out = s.out → s'.inbox = s.inbox →
      Move u opens s input s'
  /-- The hello of a `connect` could not be encoded. -/
  | unencoded : s.stage = .idle → Ends s.out (s.inbox.mark (.left .reconnected)) s' →
      Move u opens s input s'
  | resets {hello : HostHello} {bytes : Bytes} {deadline : ℕ} : s.stage = .idle →
      s'.stage = .reset hello bytes deadline → s'.out = calls s.out (.sendReset deadline) →
      s'.inbox = (s.inbox.mark (.left .reconnected)).close → Move u opens s input s'
  /-- An attempt fails, outside the loop over stale frames. -/
  | fails : s.inbox.current = none → s'.stage = .idle → s'.out = s.out → s'.inbox = s.inbox →
      Move u opens s input s'
  | hellos {hello : HostHello} {bytes : Bytes} {deadline : ℕ} :
      s.stage = .reset hello bytes deadline → s.out.threads owner = .idle (.sent (.ok ())) →
      s'.stage = .hello hello deadline → s'.out = calls s.out (.sendPacket bytes (some deadline)) →
      s'.inbox = s.inbox → Move u opens s input s'
  | skips {hello : HostHello} {deadline : ℕ} : s.stage = .hello hello deadline →
      s.out.threads owner = .idle (.sent (.ok ())) → s'.stage = .skip hello deadline .search →
      s'.out = s.out → s'.inbox = s.inbox → Move u opens s input s'
  /-- The loop over stale frames goes on, or an input failure ends it. -/
  | searches {hello : HostHello} {deadline : ℕ} {phase : Phase} {reader : Reader}
      {read : List (Frame UInt8)} : s.stage = .skip hello deadline phase →
      Reads u.maxFrame s.inbox.reader reader read →
      ((∃ phase', s'.stage = .skip hello deadline phase' ∧ Asking u.maxFrame phase' reader) ∨
        s'.stage = .idle) →
      s'.out = s.out → s'.inbox = { s.inbox with reader } → Move u opens s input s'
  | finds {hello : HostHello} {deadline : ℕ} {phase : Phase} {reader : Reader} {packet : Bytes}
      {f : Frame UInt8} : s.stage = .skip hello deadline phase →
      Reads u.maxFrame s.inbox.reader reader [f] →
      (packet ≠ [] → report u.maxFrame u.cobs.decode f = .ok (some packet)) →
      s'.stage = .answer hello deadline packet → s'.out = s.out →
      s'.inbox = { s.inbox with reader } → Move u opens s input s'
  | answers {hello : HostHello} {deadline : ℕ} {packet bytes : Bytes} {ark : ArkHello}
      {ack : HostAck} : s.stage = .answer hello deadline packet →
      input = .answer (.ok (ark, ack, bytes)) → s'.stage = .ack ⟨hello, ark, ack⟩ bytes →
      s'.out = calls s.out (.sendPacket bytes (some deadline)) → s'.inbox = s.inbox →
      Move u opens s input s'
  | binds {key : Transcript} {bytes : Bytes} : s.stage = .ack key bytes →
      s.out.threads owner = .idle (.sent (.ok ())) → s'.stage = .bind key →
      s'.out = calls s.out (.bind key) → s'.inbox = s.inbox → Move u opens s input s'
  | establishes {key : Transcript} {c : ℕ} : s.stage = .bind key →
      s.out.threads owner = .idle (.bound c) → s'.stage = .idle → s'.out = s.out →
      s'.inbox = s.inbox.establish key c → Move u opens s input s'
  | reads {phase phase' : Phase} {reader : Reader} : s.stage = .read phase →
      Reads u.maxFrame s.inbox.reader reader [] → Asking u.maxFrame phase' reader →
      s'.stage = .read phase' → s'.out = s.out → s'.inbox = { s.inbox with reader } →
      Move u opens s input s'
  /-- The input failed. -/
  | cut {phase : Phase} {reader : Reader} : s.stage = .read phase →
      Reads u.maxFrame s.inbox.reader reader [] →
      Ends s.out ({ s.inbox with reader }.mark (.left .readFailed)) s' → Move u opens s input s'
  /-- A frame is no packet. -/
  | breaks {phase : Phase} {reader : Reader} {f : Frame UInt8} : s.stage = .read phase →
      Reads u.maxFrame s.inbox.reader reader [f] →
      (∀ packet, report u.maxFrame u.cobs.decode f ≠ .ok (some packet)) →
      Ends s.out ({ s.inbox with reader }.mark .broken) s' → Move u opens s input s'
  /-- A packet does not open. -/
  | refuses {phase : Phase} {reader : Reader} {f : Frame UInt8} {packet : Bytes} {rx : Receiver}
      {reason : String} {c : ℕ} {error : TransportError} : s.stage = .read phase →
      Reads u.maxFrame s.inbox.reader reader [f] →
      report u.maxFrame u.cobs.decode f = .ok (some packet) → s.inbox.receiver = some rx →
      opens rx.key rx.seq packet = .error reason → s'.stage = .accept c (.error error) →
      s'.out = s.out → s'.inbox = { s.inbox with reader }.mark .broken → Move u opens s input s'
  | opens {phase : Phase} {reader : Reader} {f : Frame UInt8} {packet message : Bytes}
      {rx : Receiver} {c : ℕ} : s.stage = .read phase →
      Reads u.maxFrame s.inbox.reader reader [f] →
      report u.maxFrame u.cobs.decode f = .ok (some packet) → s.inbox.receiver = some rx →
      opens rx.key rx.seq packet = .ok message → s'.stage = .accept c (.ok message) →
      s'.out = s.out →
      s'.inbox = { { s.inbox with reader } with
        receiver := some { rx with seq := rx.seq + 1 } }.mark (.opened message) →
      Move u opens s input s'
  | delivers {c : ℕ} {message : Bytes} : s.stage = .accept c (.ok message) → s'.stage = .idle →
      s'.out = s.out.received owner c (s.out.finishReceive c (.ok message)) →
      s'.inbox = s.inbox.deliver message → Move u opens s input s'
  /-- A message is not accepted. -/
  | drops {c : ℕ} {opened : Except TransportError Bytes} {b : Inbox} :
      s.stage = .accept c opened →
      (b = s.inbox.mark (.left .unbound) ∨ b = s.inbox ∧ ∃ error, opened = .error error) →
      Ends (s.out.received owner c (s.out.finishReceive c opened)) b s' → Move u opens s input s'
  | releases {error : TransportError} : s.stage = .ending error → s'.stage = .idle →
      s'.out = s.out → s'.inbox = s.inbox.close → Move u opens s input s'

theorem ends_endSession {o : State Transcript} {b : Inbox} (s : Client) (error : TransportError) :
    Ends o b (Client.endSession { s with out := o, inbox := b } error) := by
  unfold Client.endSession
  cases s.sealer with
  | some c => exact .calls rfl rfl rfl
  | none => exact .closed rfl rfl rfl

theorem move_skipped {hello : HostHello} {deadline : ℕ} {phase : Phase} {reader : Reader}
    {result : Hearing.Result} (hst : s.stage = .skip hello deadline phase)
    (hg : Grammar.Good u.maxFrame reader)
    (hres : isIoError result = true ∧ Kept u.maxFrame s.inbox.reader reader [] ∨
      ∃ f, result = report u.maxFrame u.cobs.decode f ∧
        Kept u.maxFrame s.inbox.reader reader [f]) :
    Move u opens s input
      (Client.skipped u.codec { s with inbox := { s.inbox with reader } } hello
          deadline result) := by
  have hnamed : ∀ (packet : Bytes) (f : Frame UInt8), Kept u.maxFrame s.inbox.reader reader [f] →
      (packet ≠ [] → report u.maxFrame u.cobs.decode f = .ok (some packet)) →
      Move u opens s input (Client.skipped.named u.codec hello deadline
        { s with inbox := { s.inbox with reader } } packet) := by
    intro packet f hk hpacket
    unfold Client.skipped.named
    split_ifs
    · exact .finds hst ⟨hg, hk⟩ hpacket rfl rfl rfl
    · exact .searches hst ⟨hg, hk⟩ (.inl ⟨.search, rfl, fun h => (by cases h)⟩) rfl rfl
  have hread : ∀ {error}, result = .error error →
      ∃ read, Kept u.maxFrame s.inbox.reader reader read := by
    intro error _
    rcases hres with ⟨-, hk⟩ | ⟨f, -, hk⟩
    · exact ⟨_, hk⟩
    · exact ⟨_, hk⟩
  have hframe : isIoError result = false → ∃ f, result = report u.maxFrame u.cobs.decode f ∧
      Kept u.maxFrame s.inbox.reader reader [f] := by
    intro hio
    rcases hres with ⟨hio', -⟩ | hf
    · rw [hio] at hio'
      cases hio'
    · exact hf
  unfold Client.skipped
  split
  · next packet =>
    obtain ⟨f, hf, hk⟩ := hframe rfl
    exact hnamed packet f hk fun _ => hf.symm
  · obtain ⟨f, hf, hk⟩ := hframe rfl
    exact hnamed [] f hk fun hne => absurd rfl hne
  · obtain ⟨f, hf, hk⟩ := hframe rfl
    exact hnamed [] f hk fun hne => absurd rfl hne
  · obtain ⟨f, hf, hk⟩ := hframe rfl
    exact hnamed [] f hk fun hne => absurd rfl hne
  · obtain ⟨read, hk⟩ := hread rfl
    exact .searches hst ⟨hg, hk⟩ (.inr rfl) rfl rfl

theorem move_heard {phase : Phase} {reader : Reader} {result : Hearing.Result}
    (hst : s.stage = .read phase) (hg : Grammar.Good u.maxFrame reader)
    (hres : isIoError result = true ∧ Kept u.maxFrame s.inbox.reader reader [] ∨
      ∃ f, result = report u.maxFrame u.cobs.decode f ∧
        Kept u.maxFrame s.inbox.reader reader [f])
    (hnext : Client.heard opens { s with inbox := { s.inbox with reader } } result = .next s') :
    Move u opens s input s' := by
  rcases hres with ⟨hio, hk⟩ | ⟨f, rfl, hk⟩
  · cases result with
    | ok packet => cases packet <;> cases hio
    | error error =>
      dsimp only [Client.heard] at hnext
      rw [hio, if_pos rfl] at hnext
      cases hnext
      exact .cut hst ⟨hg, hk⟩ (ends_endSession s _)
  · generalize hr : report u.maxFrame u.cobs.decode f = result at hnext
    rcases result with error | _ | packet
    · have hio : isIoError (.error error) = false := by
        rw [← hr]
        exact Integrity.report_not_io _ _ f
      dsimp only [Client.heard] at hnext
      rw [hio, if_neg (by simp)] at hnext
      cases hnext
      refine .breaks hst ⟨hg, hk⟩ (fun packet h => ?_) (ends_endSession s _)
      rw [hr] at h
      cases h
    · cases hnext
      refine .breaks hst ⟨hg, hk⟩ (fun packet h => ?_) (ends_endSession s _)
      rw [hr] at h
      cases h
    · dsimp only [Client.heard] at hnext
      split at hnext
      · rename_i rx c hrx hc
        have hrx' : s.inbox.receiver = some rx := hrx
        dsimp only [Inbox.openPacket] at hnext
        cases hopen : opens rx.key rx.seq packet with
        | ok message =>
          rw [hopen] at hnext
          cases hnext
          exact .opens hst ⟨hg, hk⟩ hr hrx' hopen rfl rfl rfl
        | error reason =>
          rw [hopen] at hnext
          cases hnext
          exact .refuses hst ⟨hg, hk⟩ hr hrx' hopen rfl rfl rfl
      · cases hnext

theorem move_accepted {c : ℕ} {opened : Except TransportError Bytes}
    (hst : s.stage = .accept c opened) :
    Move u opens s input (Client.accepted
      { s with out := s.out.received owner c (s.out.finishReceive c opened) } opened
        (s.out.finishReceive c opened)) := by
  cases hres : s.out.finishReceive c opened with
  | ok message =>
    have hopened : opened = .ok message := by
      unfold State.finishReceive at hres
      split_ifs at hres
      exact hres
    subst hopened
    exact .delivers hst rfl (by rw [hres]; rfl) rfl
  | error error =>
    rw [← hres]
    cases opened with
    | ok message =>
      refine .drops hst (.inl rfl) ?_
      rw [hres]
      exact ends_endSession s _
    | error e =>
      refine .drops hst (.inr ⟨rfl, e, rfl⟩) ?_
      rw [hres]
      exact ends_endSession s _

/-- `connect` and `recv` begin. -/
theorem move_idle (hstage : s.stage = .idle)
    (hnext : s.resume u.client u.codec opens value .idle input = .next s') :
    Move u opens s input s' := by
  cases input with
  | connect hello deadline =>
    cases hnext
    unfold Client.connect
    dsimp only
    cases u.codec.encodeHello hello with
    | error reason => exact .unencoded hstage (ends_endSession s _)
    | ok bytes => exact .resets hstage rfl rfl rfl
  | recv =>
    dsimp only [Client.resume] at hnext
    cases hrx : s.inbox.receiver with
    | none =>
      rw [hrx] at hnext
      cases hnext
      exact .refused hstage rfl rfl rfl
    | some rx =>
      rw [hrx] at hnext
      cases hnext
      exact .begins hstage rfl rfl rfl
  | _ => cases hnext

theorem move_reset {hello : HostHello} {bytes : Bytes} {deadline : ℕ}
    (hidle : s.out.threads owner = .idle value) (hstage : s.stage = .reset hello bytes deadline)
    (hst : ClientStage u.maxFrame s.inbox (.reset hello bytes deadline))
    (hnext : s.resume u.client u.codec opens value (.reset hello bytes deadline) input = .next s') :
    Move u opens s input s' := by
  cases input with
  | go =>
    cases value with
    | sent result =>
      cases hnext
      cases result with
      | ok => exact .hellos hstage hidle rfl rfl rfl
      | error error => exact .fails hst rfl rfl rfl
    | _ => cases hnext
  | _ => cases hnext

theorem move_hello {hello : HostHello} {deadline : ℕ} (hidle : s.out.threads owner = .idle value)
    (hstage : s.stage = .hello hello deadline)
    (hst : ClientStage u.maxFrame s.inbox (.hello hello deadline))
    (hnext : s.resume u.client u.codec opens value (.hello hello deadline) input = .next s') :
    Move u opens s input s' := by
  cases input with
  | go =>
    cases value with
    | sent result =>
      cases hnext
      cases result with
      | ok => exact .skips hstage hidle rfl rfl rfl
      | error error => exact .fails hst rfl rfl rfl
    | _ => cases hnext
  | _ => cases hnext

/-- `connect` skips stale frames. -/
theorem move_skip {hello : HostHello} {deadline : ℕ} {phase : Phase}
    (hg : Grammar.Good u.maxFrame s.inbox.reader) (hstage : s.stage = .skip hello deadline phase)
    (hst : ClientStage u.maxFrame s.inbox (.skip hello deadline phase))
    (hnext : s.resume u.client u.codec opens value (.skip hello deadline phase) input = .next s') :
    Move u opens s input s' := by
  obtain ⟨hnone, hask⟩ := hst
  cases input with
  | turn t =>
    dsimp only [Client.resume] at hnext
    cases hturn : s.inbox.reader.turn u.maxFrame (some deadline) t phase with
    | more phase' reader =>
      have hok := turnOk hg hask (some deadline) t
      rw [show u.client.maxFrame = u.maxFrame from rfl, hturn] at hnext
      rw [hturn] at hok
      cases hnext
      exact .searches hstage ⟨hok.1, hok.2.2⟩ (.inl ⟨phase', rfl, hok.2.1⟩) rfl rfl
    | done result reader =>
      rw [show u.client.maxFrame = u.maxFrame from rfl, hturn] at hnext
      obtain ⟨hg', hres⟩ := turn_done u.cobs.decode hg hask hturn
      cases hnext
      exact move_skipped hstage hg' hres
  | _ => cases hnext

theorem move_ack {key : Transcript} {bytes : Bytes} (hidle : s.out.threads owner = .idle value)
    (hstage : s.stage = .ack key bytes) (hst : ClientStage u.maxFrame s.inbox (.ack key bytes))
    (hnext : s.resume u.client u.codec opens value (.ack key bytes) input = .next s') :
    Move u opens s input s' := by
  cases input with
  | go =>
    cases value with
    | sent result =>
      cases hnext
      cases result with
      | ok => exact .binds hstage hidle rfl rfl rfl
      | error error => exact .fails hst rfl rfl rfl
    | _ => cases hnext
  | _ => cases hnext

/-- `recv` reads. -/
theorem move_read {phase : Phase} (hg : Grammar.Good u.maxFrame s.inbox.reader)
    (hstage : s.stage = .read phase) (hst : ClientStage u.maxFrame s.inbox (.read phase))
    (hnext : s.resume u.client u.codec opens value (.read phase) input = .next s') :
    Move u opens s input s' := by
  obtain ⟨hlive, hask⟩ := hst
  cases input with
  | turn t =>
    dsimp only [Client.resume] at hnext
    cases hturn : s.inbox.reader.turn u.maxFrame none t phase with
    | more phase' reader =>
      have hok := turnOk hg hask none t
      rw [show u.client.maxFrame = u.maxFrame from rfl, hturn] at hnext
      rw [hturn] at hok
      cases hnext
      exact .reads hstage ⟨hok.1, hok.2.2⟩ hok.2.1 rfl rfl rfl
    | done result reader =>
      rw [show u.client.maxFrame = u.maxFrame from rfl, hturn] at hnext
      obtain ⟨hg', hres⟩ := turn_done u.cobs.decode hg hask hturn
      exact move_heard hstage hg' hres hnext
  | _ => cases hnext

/-- **There are no other steps of the owner.** -/
theorem move_own (hg : Grammar.Good u.maxFrame s.inbox.reader)
    (hst : ClientStage u.maxFrame s.inbox s.stage)
    (hnext : s.own u.client u.codec opens input = .next s') :
    (∃ value, s.out.threads owner = .idle value) ∧ Move u opens s input s' := by
  unfold Client.own at hnext
  split at hnext
  swap
  · cases hnext
  rename_i value hidle
  refine ⟨⟨value, hidle⟩, ?_⟩
  cases hstage : s.stage with
  | idle =>
    rw [hstage] at hnext
    exact move_idle hstage hnext
  | reset hello bytes deadline =>
    rw [hstage] at hst hnext
    exact move_reset hidle hstage hst hnext
  | hello hello deadline =>
    rw [hstage] at hst hnext
    exact move_hello hidle hstage hst hnext
  | skip hello deadline phase =>
    rw [hstage] at hst hnext
    exact move_skip hg hstage hst hnext
  | answer hello deadline packet =>
    rw [hstage] at hst hnext
    cases input with
    | answer result =>
      rcases result with error | ⟨ark, ack, bytes⟩
      · cases hnext
        exact .fails hst rfl rfl rfl
      · cases hnext
        exact .answers hstage rfl rfl rfl rfl
    | _ => cases hnext
  | ack key bytes =>
    rw [hstage] at hst hnext
    exact move_ack hidle hstage hst hnext
  | bind key =>
    rw [hstage] at hst hnext
    cases input with
    | go =>
      cases value with
      | bound c =>
        cases hnext
        exact .establishes hstage hidle rfl rfl rfl
      | _ => cases hnext
    | _ => cases hnext
  | read phase =>
    rw [hstage] at hst hnext
    exact move_read hg hstage hst hnext
  | accept c opened =>
    rw [hstage] at hnext
    cases input with
    | go =>
      cases hnext
      exact move_accepted hstage
    | _ => cases hnext
  | ending error =>
    rw [hstage] at hnext
    cases input with
    | go =>
      cases hnext
      exact .releases hstage rfl rfl rfl
    | _ => cases hnext

/-! ### The session at each stage -/

theorem stage_ends {o : State Transcript} {b : Inbox} (h : Ends o b s') (ho : Over b) (max : ℕ) :
    ClientStage max s'.inbox s'.stage := by
  cases h with
  | calls hout hb hst =>
    rw [hst, hb]
    exact ho
  | closed hout hb hst =>
    rw [hst, hb]
    exact live_of_none rfl

theorem stage_move {p : State Transcript} (hrec : Recorded s.out p s.inbox)
    (hst : ClientStage u.maxFrame s.inbox s.stage) (h : Move u opens s input s') :
    ClientStage u.maxFrame s'.inbox s'.stage := by
  have hsearch : Asking u.maxFrame .search s.inbox.reader := fun h => (by cases h)
  cases h with
  | begins hs hs' hout hb =>
    rw [hs] at hst
    rw [hs', hb]
    exact ⟨hst, hsearch⟩
  | refused hs hs' hout hb =>
    rw [hs] at hst
    rw [hs', hb]
    exact hst
  | unencoded hs he => exact stage_ends he (over_mark (.inr ⟨_, rfl⟩)) _
  | resets hs hs' hout hb =>
    rw [hs', hb]
    rfl
  | fails hnone hs' hout hb =>
    rw [hs', hb]
    exact live_of_none hnone
  | hellos hs hpc hs' hout hb =>
    rw [hs] at hst
    rw [hs', hb]
    exact hst
  | skips hs hpc hs' hout hb =>
    rw [hs] at hst
    rw [hs', hb]
    exact ⟨hst, hsearch⟩
  | searches hs hread hs' hout hb =>
    rw [hs] at hst
    rcases hs' with ⟨phase', hs', hask⟩ | hs'
    · rw [hs', hb]
      exact ⟨hst.1, hask⟩
    · rw [hs', hb]
      exact live_of_none hst.1
  | finds hs hread hpacket hs' hout hb =>
    rw [hs] at hst
    rw [hs', hb]
    exact hst.1
  | answers hs hin hs' hout hb =>
    rw [hs] at hst
    rw [hs', hb]
    exact hst
  | binds hs hpc hs' hout hb =>
    rw [hs] at hst
    rw [hs', hb]
    exact hst
  | establishes hs hpc hs' hout hb =>
    rw [hs', hb]
    intro h hh
    cases hh
    rfl
  | reads hs hread hask hs' hout hb =>
    rw [hs] at hst
    rw [hs', hb]
    exact ⟨hst.1, hask⟩
  | cut hs hread he => exact stage_ends he (over_mark (.inr ⟨_, rfl⟩)) _
  | breaks hs hread hne he => exact stage_ends he (over_mark (.inl rfl)) _
  | refuses hs hread hf hrx hopen hs' hout hb =>
    obtain ⟨x, hx⟩ := hrec.receives _ hrx
    rw [hs', hb]
    refine ⟨by simp [Inbox.mark, hx], fun y hy => ?_⟩
    obtain ⟨z, -, rfl⟩ := Option.map_eq_some_iff.mp hy
    rfl
  | opens hs hread hf hrx hopen hs' hout hb =>
    obtain ⟨x, hx⟩ := hrec.receives _ hrx
    rw [hs', hb]
    refine ⟨by simp [Inbox.mark, hx], fun y hy => ?_⟩
    obtain ⟨z, -, rfl⟩ := Option.map_eq_some_iff.mp hy
    rfl
  | delivers hs hs' hout hb =>
    rw [hs', hb]
    intro y hy
    obtain ⟨z, -, rfl⟩ := Option.map_eq_some_iff.mp hy
    rfl
  | drops hs hbox he =>
    refine stage_ends he ?_ _
    rcases hbox with rfl | ⟨rfl, error, rfl⟩
    · exact over_mark (.inr ⟨_, rfl⟩)
    · rw [hs] at hst
      exact fun y hy => .inl (hst.2 y hy)
  | releases hs hs' hout hb =>
    rw [hs', hb]
    exact live_of_none rfl

/-! ### What is left alone -/

theorem calm_ends {o : State Transcript} {b : Inbox} (h : Ends o b s') : Calm o s'.out := by
  cases h with
  | calls hout hb hst =>
    rw [hout]
    exact calm_calls _ _
  | closed hout hb hst =>
    rw [hout]
    exact calm_refl _

theorem calm_move (h : Move u opens s input s') : Calm s.out s'.out := by
  cases h with
  | begins hs hs' hout hb => exact hout ▸ calm_refl _
  | refused hs hs' hout hb => exact hout ▸ calm_refl _
  | unencoded hs he => exact calm_ends he
  | resets hs hs' hout hb => exact hout ▸ calm_calls _ _
  | fails hnone hs' hout hb => exact hout ▸ calm_refl _
  | hellos hs hpc hs' hout hb => exact hout ▸ calm_calls _ _
  | skips hs hpc hs' hout hb => exact hout ▸ calm_refl _
  | searches hs hread hs' hout hb => exact hout ▸ calm_refl _
  | finds hs hread hpacket hs' hout hb => exact hout ▸ calm_refl _
  | answers hs hin hs' hout hb => exact hout ▸ calm_calls _ _
  | binds hs hpc hs' hout hb => exact hout ▸ calm_calls _ _
  | establishes hs hpc hs' hout hb => exact hout ▸ calm_refl _
  | reads hs hread hask hs' hout hb => exact hout ▸ calm_refl _
  | cut hs hread he => exact calm_ends he
  | breaks hs hread hne he => exact calm_ends he
  | refuses hs hread hf hrx hopen hs' hout hb => exact hout ▸ calm_refl _
  | opens hs hread hf hrx hopen hs' hout hb => exact hout ▸ calm_refl _
  | delivers hs hs' hout hb => exact hout ▸ calm_received _ _ _
  | drops hs hbox he => exact (calm_received _ _ _).trans (calm_ends he)
  | releases hs hs' hout hb => exact hout ▸ calm_refl _

/-! ### What the owner reads -/

/-- The ArkHello was answered, and the session is not received in yet. -/
def Answered (key : Transcript) : Stage → Prop
  | .ack k _ => k = key
  | .bind k => k = key
  | _ => False

/-- The next packet of the session has this number, once the session is received in. -/
def Holds (s : Client) (key : Transcript) (seq : ℕ) : Prop :=
  s.inbox.receiver = some ⟨key, seq⟩ ∨ seq = 0 ∧ Answered key s.stage

/-- The owner answers an ArkHello with a HostAck of the key. -/
def Starts (s : Client) (input : Input) (key : Transcript) : Prop :=
  ∃ deadline packet bytes, s.stage = .answer key.hello deadline packet ∧
    input = .answer (.ok (key.ark, key.ack, bytes))

/-- What the owner reads in a step. -/
def Moved (u : Setup) (opens : Opens) (s : Client) (input : Input) (s' : Client) : Prop :=
  ∃ read, Reads u.maxFrame s.inbox.reader s'.inbox.reader read ∧
    Takes u.maxFrame u.cobs.decode opens (Starts s input) (Holds s) (Holds s') s.inbox s'.inbox read

theorem Holds.receiver {key : Transcript} {seq : ℕ} (h : Holds s key seq)
    (hst : ¬ Answered key s.stage) : s.inbox.receiver = some ⟨key, seq⟩ := by
  rcases h with h | ⟨-, h⟩
  · exact h
  · exact absurd h hst

theorem moved_ends {o : State Transcript} {b : Inbox} {read : List (Frame UInt8)} (he : Ends o b s')
    (hread : Reads u.maxFrame s.inbox.reader b.reader read)
    (ht : ∀ s' : Client, (∀ key seq, Holds s' key seq → b.receiver = some ⟨key, seq⟩) →
      (∀ key, Broken s'.inbox key → Broken b key) →
      Takes u.maxFrame u.cobs.decode opens (Starts s input) (Holds s) (Holds s') s.inbox s'.inbox
        read) :
    Moved u opens s input s' := by
  cases he with
  | calls hout hb hs' =>
    refine ⟨read, by rw [hb]; exact hread, ht s' (fun key seq h => ?_) fun key h => ?_⟩
    · rw [← hb]
      exact h.receiver (by rw [hs']; exact id)
    · rw [← hb]
      exact h
  | closed hout hb hs' =>
    refine ⟨read, by rw [hb]; exact hread, ht s' (fun key seq h => ?_) fun key h => ?_⟩
    · have hrx := h.receiver (by rw [hs']; exact id)
      rw [hb] at hrx
      cases hrx
    · rw [hb] at h
      exact broken_close h

/-- Nothing is received and no session is held in addition. -/
theorem moved_quiet {b : Inbox} (hnone : Reads u.maxFrame s.inbox.reader s.inbox.reader [])
    (hb : s'.inbox = b) (hreader : b.reader = s.inbox.reader)
    (hrx : b.receiver = s.inbox.receiver ∨ b.receiver = none)
    (hans : ∀ key, Answered key s'.stage → Answered key s.stage)
    (hbr : ∀ key, Broken b key → Broken s.inbox key) : Moved u opens s input s' := by
  subst hb
  refine ⟨[], by rw [hreader]; exact hnone, .keeps rfl (fun key seq h => ?_) hbr⟩
  rcases h with h | ⟨hseq, h⟩
  · rcases hrx with hrx | hrx
    · exact .inl (by rw [← hrx]; exact h)
    · rw [hrx] at h
      cases h
  · exact .inr ⟨hseq, hans key h⟩

/-- The session ends with no frame. -/
theorem moved_left {o : State Transcript} {reader : Reader} {why : Leave}
    (hread : Reads u.maxFrame s.inbox.reader reader [])
    (he : Ends o ({ s.inbox with reader }.mark (.left why)) s') : Moved u opens s input s' := by
  refine moved_ends he hread fun s' hr hbr => .keeps rfl (fun key seq h => .inl (hr key seq h)) ?_
  intro key h
  exact broken_left (hbr key h)

/-- The reader looks for the ArkHello, outside every session. -/
theorem moved_outside {p : State Transcript} (hrec : Recorded s.out p s.inbox) {reader : Reader}
    {read : List (Frame UInt8)} (hread : Reads u.maxFrame s.inbox.reader reader read)
    (hcur : s.inbox.current = none) (hans : ∀ key, ¬ Answered key s'.stage)
    (hb : s'.inbox = { s.inbox with reader }) : Moved u opens s input s' := by
  refine ⟨read, by rw [hb]; exact hread, .outside (fun key seq h => ?_) fun key h => ?_⟩
  · have hrx := h.receiver (hans key)
    rw [hb, show ({ s.inbox with reader } : Inbox).receiver = s.inbox.receiver from rfl,
      hrec.no_receiver hcur] at hrx
    cases hrx
  · rw [hb] at h
    exact h

theorem moved_answers {p : State Transcript} (hrec : Recorded s.out p s.inbox) {key : Transcript}
    (hnone : Reads u.maxFrame s.inbox.reader s.inbox.reader []) (hcur : s.inbox.current = none)
    (hstarts : Starts s input key) (hans : ∀ key', Answered key' s'.stage → key = key')
    (hb : s'.inbox = s.inbox) : Moved u opens s input s' := by
  refine ⟨[], by rw [hb]; exact hnone, .starts rfl hstarts (fun key seq h => ?_) fun key h => ?_⟩
  · rcases h with h | ⟨hseq, h⟩
    · rw [hb, hrec.no_receiver hcur] at h
      cases h
    · exact ⟨(hans key h).symm, hseq⟩
  · rw [hb] at h
    exact h

theorem moved_establishes {key : Transcript} {c : ℕ}
    (hnone : Reads u.maxFrame s.inbox.reader s.inbox.reader []) (hs : Answered key s.stage)
    (hans : ∀ key, ¬ Answered key s'.stage) (hb : s'.inbox = s.inbox.establish key c) :
    Moved u opens s input s' := by
  refine ⟨[], by rw [hb]; exact hnone, .keeps rfl (fun key' seq h => ?_) fun key' h => ?_⟩
  · have hrx := h.receiver (hans key')
    rw [hb] at hrx
    cases hrx
    exact .inr ⟨rfl, hs⟩
  · rw [hb] at h
    exact broken_establish h

theorem moved_refuses {p : State Transcript} (hrec : Recorded s.out p s.inbox) {reader : Reader}
    {f : Frame UInt8} {packet : Bytes} {rx : Receiver} {reason : String}
    (hread : Reads u.maxFrame s.inbox.reader reader [f])
    (hf : report u.maxFrame u.cobs.decode f = .ok (some packet))
    (hrx : s.inbox.receiver = some rx) (hopen : opens rx.key rx.seq packet = .error reason)
    (hans : ∀ key, ¬ Answered key s'.stage)
    (hb : s'.inbox = { s.inbox with reader }.mark .broken) : Moved u opens s input s' := by
  refine ⟨[f], by rw [hb]; exact hread, takes_broken hrec (fun rx' packet' message hrx' hf' => ?_)
    (fun rx h => .inl h) (fun key seq h => ?_) fun key h => ?_⟩
  · rw [hrx] at hrx'
    rw [hf] at hf'
    cases hrx'
    cases hf'
    simp [hopen]
  · have hrx' := h.receiver (hans key)
    rw [hb] at hrx'
    exact hrx'
  · rw [hb] at h
    exact broken_current h

theorem moved_opens {reader : Reader} {f : Frame UInt8} {packet message : Bytes} {rx : Receiver}
    (hread : Reads u.maxFrame s.inbox.reader reader [f])
    (hf : report u.maxFrame u.cobs.decode f = .ok (some packet))
    (hrx : s.inbox.receiver = some rx) (hopen : opens rx.key rx.seq packet = .ok message)
    (hans : ∀ key, ¬ Answered key s'.stage)
    (hb : s'.inbox = { { s.inbox with reader } with
      receiver := some { rx with seq := rx.seq + 1 } }.mark (.opened message)) :
    Moved u opens s input s' := by
  refine ⟨[f], by rw [hb]; exact hread, .opens (.inl hrx) rfl hf hopen (fun key seq h => ?_)
    fun key h => ?_⟩
  · have hrx' := h.receiver (hans key)
    rw [hb] at hrx'
    cases hrx'
    exact ⟨rfl, rfl⟩
  · rw [hb] at h
    rcases broken_mark h with h | ⟨h, -⟩
    · exact h
    · cases h

theorem takes_move {p : State Transcript} (hg : Grammar.Good u.maxFrame s.inbox.reader)
    (hrec : Recorded s.out p s.inbox) (hst : ClientStage u.maxFrame s.inbox s.stage)
    (h : Move u opens s input s') : Moved u opens s input s' := by
  have hnone : Reads u.maxFrame s.inbox.reader s.inbox.reader [] := reads_nothing hg
  cases h with
  | begins hs hs' hout hb =>
    exact moved_quiet hnone hb rfl (.inl rfl) (fun _ h => by rw [hs'] at h; exact h.elim)
      fun _ h => h
  | refused hs hs' hout hb =>
    exact moved_quiet hnone hb rfl (.inl rfl) (fun _ h => by rw [hs'] at h; exact h.elim)
      fun _ h => h
  | unencoded hs he => exact moved_left hnone he
  | resets hs hs' hout hb =>
    exact moved_quiet hnone hb rfl (.inr rfl) (fun _ h => by rw [hs'] at h; exact h.elim)
      fun key h => broken_left (broken_close h)
  | fails hcur hs' hout hb =>
    exact moved_quiet hnone hb rfl (.inl rfl) (fun _ h => by rw [hs'] at h; exact h.elim)
      fun _ h => h
  | hellos hs hpc hs' hout hb =>
    exact moved_quiet hnone hb rfl (.inl rfl) (fun _ h => by rw [hs'] at h; exact h.elim)
      fun _ h => h
  | skips hs hpc hs' hout hb =>
    exact moved_quiet hnone hb rfl (.inl rfl) (fun _ h => by rw [hs'] at h; exact h.elim)
      fun _ h => h
  | searches hs hread hs' hout hb =>
    rw [hs] at hst
    refine moved_outside hrec hread hst.1 (fun key => ?_) hb
    rcases hs' with ⟨_, hs', -⟩ | hs'
    · rw [hs']
      exact id
    · rw [hs']
      exact id
  | finds hs hread hpacket hs' hout hb =>
    rw [hs] at hst
    exact moved_outside hrec hread hst.1 (fun key => by rw [hs']; exact id) hb
  | @answers hello deadline packet bytes ark ack hs hin hs' hout hb =>
    rw [hs] at hst
    have hstarts : Starts s input ⟨hello, ark, ack⟩ := ⟨deadline, packet, bytes, hs, hin⟩
    exact moved_answers hrec hnone hst hstarts (fun key h => by rw [hs'] at h; exact h) hb
  | binds hs hpc hs' hout hb =>
    refine moved_quiet hnone hb rfl (.inl rfl) (fun key h => ?_) fun _ h => h
    rw [hs'] at h
    rw [hs]
    exact h
  | @establishes key c hs hpc hs' hout hb =>
    have hans : Answered key s.stage := by
      rw [hs]
      rfl
    exact moved_establishes hnone hans (fun key => by rw [hs']; exact id) hb
  | @reads phase phase' reader hs hread hask hs' hout hb =>
    refine ⟨[], by rw [hb]; exact hread, .keeps rfl (fun key seq h => .inl ?_) fun key h => ?_⟩
    · have hrx := h.receiver (by rw [hs']; exact id)
      rw [hb] at hrx
      exact hrx
    · rw [hb] at h
      exact h
  | cut hs hread he => exact moved_left hread he
  | breaks hs hread hne he =>
    exact moved_ends he hread fun s' hr hbr =>
      takes_broken hrec (fun _ packet _ _ h => absurd h (hne packet)) (fun rx h => .inl h) hr
        fun key h => broken_current (hbr key h)
  | refuses hs hread hf hrx hopen hs' hout hb =>
    exact moved_refuses hrec hread hf hrx hopen (fun key => by rw [hs']; exact id) hb
  | opens hs hread hf hrx hopen hs' hout hb =>
    exact moved_opens hread hf hrx hopen (fun key => by rw [hs']; exact id) hb
  | delivers hs hs' hout hb =>
    exact moved_quiet hnone hb rfl (.inl rfl) (fun _ h => by rw [hs'] at h; exact h.elim)
      fun key h => broken_deliver h
  | drops hs hbox he =>
    rcases hbox with rfl | ⟨rfl, -⟩
    · exact moved_left hnone he
    · exact moved_ends he hnone fun s' hr hbr =>
        .keeps rfl (fun key seq h => .inl (hr key seq h)) hbr
  | releases hs hs' hout hb =>
    exact moved_quiet hnone hb rfl (.inr rfl) (fun _ h => by rw [hs'] at h; exact h.elim)
      fun key h => broken_close h

/-- An ArkHello is answered, or the HostAck was sent. -/
theorem answered_move {key : Transcript} (h : Move u opens s input s')
    (hk : Answered key s'.stage) : Starts s input key ∨
      ∃ bytes, s.stage = .ack key bytes ∧ s.out.threads owner = .idle (.sent (.ok ())) := by
  have hnot : ∀ {stage}, s'.stage = stage → ¬ Answered key stage → False := by
    intro stage hs' hne
    rw [hs'] at hk
    exact hne hk
  have hends : ∀ {o b}, Ends o b s' → False := by
    intro o b he
    cases he with
    | calls hout hb hs' => exact hnot hs' id
    | closed hout hb hs' => exact hnot hs' id
  cases h with
  | begins hs hs' hout hb => exact (hnot hs' id).elim
  | refused hs hs' hout hb => exact (hnot hs' id).elim
  | unencoded hs he => exact (hends he).elim
  | resets hs hs' hout hb => exact (hnot hs' id).elim
  | fails hcur hs' hout hb => exact (hnot hs' id).elim
  | hellos hs hpc hs' hout hb => exact (hnot hs' id).elim
  | skips hs hpc hs' hout hb => exact (hnot hs' id).elim
  | searches hs hread hs' hout hb =>
    rcases hs' with ⟨phase, hs', -⟩ | hs'
    · exact (hnot hs' id).elim
    · exact (hnot hs' id).elim
  | finds hs hread hpacket hs' hout hb => exact (hnot hs' id).elim
  | answers hs hin hs' hout hb =>
    rw [hs'] at hk
    subst hk
    exact .inl ⟨_, _, _, hs, hin⟩
  | binds hs hpc hs' hout hb =>
    rw [hs'] at hk
    subst hk
    exact .inr ⟨_, hs, hpc⟩
  | establishes hs hpc hs' hout hb => exact (hnot hs' id).elim
  | reads hs hread hask hs' hout hb => exact (hnot hs' id).elim
  | cut hs hread he => exact (hends he).elim
  | breaks hs hread hne he => exact (hends he).elim
  | refuses hs hread hf hrx hopen hs' hout hb => exact (hnot hs' id).elim
  | opens hs hread hf hrx hopen hs' hout hb => exact (hnot hs' id).elim
  | delivers hs hs' hout hb => exact (hnot hs' id).elim
  | drops hs hbox he => exact (hends he).elim
  | releases hs hs' hout hb => exact (hnot hs' id).elim

/-- The packet of an answer was the last frame that was read. -/
theorem answer_move {hello : HostHello} {deadline : ℕ} {packet : Bytes}
    (h : Move u opens s input s') (hs' : s'.stage = .answer hello deadline packet) :
    ∃ f, Reads u.maxFrame s.inbox.reader s'.inbox.reader [f] ∧
      (packet ≠ [] → report u.maxFrame u.cobs.decode f = .ok (some packet)) := by
  have hnot : ∀ {stage}, s'.stage = stage → stage ≠ .answer hello deadline packet → False := by
    intro stage hst hne
    exact hne (hst.symm.trans hs')
  have hends : ∀ {o b}, Ends o b s' → False := by
    intro o b he
    cases he with
    | calls hout hb hst => exact hnot hst (by simp)
    | closed hout hb hst => exact hnot hst (by simp)
  cases h with
  | begins hs hst hout hb => exact (hnot hst (by simp)).elim
  | refused hs hst hout hb => exact (hnot hst (by simp)).elim
  | unencoded hs he => exact (hends he).elim
  | resets hs hst hout hb => exact (hnot hst (by simp)).elim
  | fails hcur hst hout hb => exact (hnot hst (by simp)).elim
  | hellos hs hpc hst hout hb => exact (hnot hst (by simp)).elim
  | skips hs hpc hst hout hb => exact (hnot hst (by simp)).elim
  | searches hs hread hst hout hb =>
    rcases hst with ⟨phase, hst, -⟩ | hst
    · exact (hnot hst (by simp)).elim
    · exact (hnot hst (by simp)).elim
  | @finds hello' deadline' phase reader packet' f hs hread hpacket hst hout hb =>
    rw [hst] at hs'
    cases hs'
    exact ⟨f, by rw [hb]; exact hread, hpacket⟩
  | answers hs hin hst hout hb => exact (hnot hst (by simp)).elim
  | binds hs hpc hst hout hb => exact (hnot hst (by simp)).elim
  | establishes hs hpc hst hout hb => exact (hnot hst (by simp)).elim
  | reads hs hread hask hst hout hb => exact (hnot hst (by simp)).elim
  | cut hs hread he => exact (hends he).elim
  | breaks hs hread hne he => exact (hends he).elim
  | refuses hs hread hf hrx hopen hst hout hb => exact (hnot hst (by simp)).elim
  | opens hs hread hf hrx hopen hst hout hb => exact (hnot hst (by simp)).elim
  | delivers hs hst hout hb => exact (hnot hst (by simp)).elim
  | drops hs hbox he => exact (hends he).elim
  | releases hs hst hout hb => exact (hnot hst (by simp)).elim

end ArkWire.Transport.ClientMoves
