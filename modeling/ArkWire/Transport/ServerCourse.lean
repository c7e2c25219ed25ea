import ArkWire.Transport.ServerMoves

/-! # The course of a server's handshakes

As for the client: what the server's stream holds at each stage of a handshake, that the packets of
a bound session follow its ArkHello, and at which session the server is. A server that was
interrupted in a frame resynchronises before its first packet (`Sane`). -/

namespace ArkWire.Transport.ServerCourse

open ArkWire.Lib.Machines ArkWire.Lib.Delimited
open ArkWire.Transport.Errors ArkWire.Transport.FrameReader ArkWire.Transport.FrameWriter
open ArkWire.Transport.Outbound ArkWire.Transport.OutboundSteps ArkWire.Transport.Endpoint
open ArkWire.Transport.Server ArkWire.Transport.Pair
open ArkWire.Transport.Integrity (ServerStage)
open ArkWire.Transport.Company ArkWire.Transport.Flow ArkWire.Transport.Ledger
open ArkWire.Transport.ServerMoves

variable {u : Setup} {opens : Opens} {s s' : Server} {input : Input}

/-! ### A handshake, from its reset to its binding -/

/-- The owner is in no handshake. -/
def loose : Stage → Bool
  | .idle => true
  | .top => true
  | .read _ => true
  | .accept _ _ => true
  | .ending _ _ => true
  | .dropping _ => true
  | .failed _ => true
  | _ => false

/-- No session of the exchange is bound, or was. -/
def Unmet (hello : HostHello) (ark : ArkHello) (o : State Transcript) : Prop :=
  ∀ key, key.hello = hello ∧ key.ark = ark → Unused key o

/-- **Where the owner is in a handshake**, with what its stream holds. -/
inductive Attempt (u : Setup) (greetings : List Greeting) (acks : List Ack) (o : State Transcript) :
    Stage → Prop
  | rest {stage : Stage} : loose stage = true → plain (o.threads owner) = true →
      Attempt u greetings acks o stage
  | unbind {deadline : ℕ} : Unbinds o → Attempt u greetings acks o (.unbind deadline)
  | hello {deadline : ℕ} {phase : Phase} {value : Value} : o.threads owner = .idle value → Solo o →
      Attempt u greetings acks o (.hello deadline phase)
  | greet {deadline : ℕ} {hello : HostHello} {value : Value} : o.threads owner = .idle value →
      Solo o → Attempt u greetings acks o (.greet deadline hello)
  | send {deadline : ℕ} {hello : HostHello} {ark : ArkHello} {bytes : Bytes} {g : Greeting} :
      g ∈ greetings → g.hello = hello ∧ g.ark = ark → Unmet hello ark o →
      Packing u.server (Before u.server g.bytes g.place) g.bytes o →
      Attempt u greetings acks o (.send deadline hello ark bytes)
  | ack {deadline : ℕ} {hello : HostHello} {ark : ArkHello} {g : Greeting} {phase : Phase} :
      g ∈ greetings → g.hello = hello ∧ g.ark = ark → Unmet hello ark o →
      o.threads owner = .idle (.sent (.ok ())) →
      Opened u.server (Before u.server g.bytes g.place) g.bytes o →
      Attempt u greetings acks o (.ack deadline hello ark phase)
  | answer {deadline : ℕ} {hello : HostHello} {ark : ArkHello} {g : Greeting} {packet : Bytes} :
      g ∈ greetings → g.hello = hello ∧ g.ark = ark → Unmet hello ark o →
      o.threads owner = .idle (.sent (.ok ())) →
      Opened u.server (Before u.server g.bytes g.place) g.bytes o →
      Attempt u greetings acks o (.answer deadline hello ark packet)
  | binding {key : Transcript} {g : Greeting} : g ∈ greetings → g.hello = key.hello ∧
      g.ark = key.ark →
      Unused key o → (∃ a ∈ acks, a.key = key) → Binding key (o.threads owner) →
      Opened u.server (Before u.server g.bytes g.place) g.bytes o →
      Attempt u greetings acks o (.bind key)
  | bound {key : Transcript} {c : ℕ} {x : Context Transcript} :
      o.threads owner = .idle (.bound c) → o.contexts[c]? = some x → x.key = key →
      Attempt u greetings acks o (.bind key)

/-- The bound context is one of an exchange, and its packets follow the ArkHello on the stream. -/
def Follows (u : Setup) (greetings : List Greeting) (o : State Transcript) : Prop :=
  ∀ c, o.binding = some c → ∃ x g, o.contexts[c]? = some x ∧ g ∈ greetings ∧
    (g.hello = x.key.hello ∧ g.ark = x.key.ark) ∧
    Flows u.server (Before u.server g.bytes g.place) g.bytes c o

/-- **What holds of a server**, with the peer's outbound transport. -/
structure Local (u : Setup) (greetings : List Greeting) (acks : List Ack) (p : State Transcript)
    (s : Server) : Prop where
  steady : Steady u.server s.out
  sane : Sane s.out
  reader : Grammar.Good u.maxFrame s.inbox.reader
  stage : ServerStage u.maxFrame s.inbox s.handshakeDeadline s.stage
  records : Recorded s.out p s.inbox
  attempt : Attempt u greetings acks s.out s.stage
  follows : Follows u greetings s.out
  keys : ∀ (c : ℕ) (x : Context Transcript), s.out.contexts[c]? = some x → ∃ a ∈ acks, a.key = x.key
  met : ∀ (c : ℕ) (x : Context Transcript), s.out.contexts[c]? = some x →
    ∃ g ∈ greetings, g.ark = x.key.ark
  distinct : (greetings.map (·.ark)).Nodup
  single : Single s.out

theorem local_init {toClient : Writer} (h : FrameWriter.Good u.maxFrame toClient)
    (hsane : rest 0 toClient.accepted = [] ∨ toClient.resync = true) (p : State Transcript)
    (supply : Bytes) : Local u [] [] p
      { out := { framer := toClient }, inbox := { reader := .new u.maxFrame supply } } where
  steady := steady_init h
  sane := hsane
  reader := Grammar.good_new _ _
  stage := ⟨fun _ hx => (by cases hx), fun hx => (by cases hx)⟩
  records := recorded_new _ _ _
  attempt := .rest rfl rfl
  follows _ hb := by cases hb
  keys _ _ hx := by cases hx
  met _ _ hx := by cases hx
  distinct := List.nodup_nil
  single _ _ _ _ hx := by cases hx

/-! ### The outbound transport goes on -/

section Thread

variable {greetings : List Greeting} {acks : List Ack} {o o' : State Transcript} {stage : Stage}
  {a : Outbound.Action Transcript}

/-- The owner only binds the session of its exchange. -/
theorem Attempt.of_bind (h : Attempt u greetings acks o stage) {key : Transcript}
    (hpc : o.threads owner = .holdWriter (.bind key)) :
    stage = .bind key ∧ Unused key o ∧ (∃ a ∈ acks, a.key = key) ∧
      ∃ g ∈ greetings, (g.hello = key.hello ∧ g.ark = key.ark) ∧
        Opened u.server (Before u.server g.bytes g.place) g.bytes o := by
  cases h with
  | rest hloose hplain => rw [hpc] at hplain; cases hplain
  | unbind hunbinds =>
    cases hunbinds with
    | waits h => rw [hpc] at h; cases h
    | holds h => rw [hpc] at h; cases h
    | done h => rw [hpc] at h; cases h
  | hello h => rw [hpc] at h; cases h
  | greet h => rw [hpc] at h; cases h
  | send hmem hname hunmet hpack =>
    cases hpack with
    | sends h => rw [hpc] at h; cases h
    | sent h => rw [hpc] at h; cases h
    | lost h => rw [hpc] at h; cases h
  | ack hmem hname hunmet h => rw [hpc] at h; cases h
  | answer hmem hname hunmet h => rw [hpc] at h; cases h
  | binding hmem hname hunused hack hbinding hopened =>
    rcases hbinding with h | h
    · rw [hpc] at h
      cases h
    · rw [hpc] at h
      cases h
      exact ⟨rfl, hunused, hack, _, hmem, hname, hopened⟩
  | bound h => rw [hpc] at h; cases h

theorem attempt_thread (hcobs : u.cobs.Lawful) (hmax : 0 < u.maxFrame) (hst : Steady u.server o)
    (h : Attempt u greetings acks o stage) (hp : permitted a = true)
    (hs : o.step u.server a = .next o') : Attempt u greetings acks o' stage := by
  cases h with
  | rest hloose hplain => exact .rest hloose (plain_step hp hs hplain)
  | unbind hunbinds => exact .unbind (unbinds_step hst hunbinds hp hs)
  | hello hidle hsolo => exact .hello (idle_step hidle hp hs) (solo_rest hst hsolo hidle hp hs).1
  | greet hidle hsolo => exact .greet (idle_step hidle hp hs) (solo_rest hst hsolo hidle hp hs).1
  | send hmem hname hunmet hpack =>
    refine .send hmem hname (fun key hk => unused_step hst (hunmet key hk) (.inr fun k hk => ?_)
      (step_cases hs)) (packing_step hcobs hmax hst hpack hp hs)
    cases hpack with
    | sends h => rw [hk] at h; cases h
    | sent h => rw [hk] at h; cases h
    | lost h => rw [hk] at h; cases h
  | ack hmem hname hunmet hidle hopened =>
    obtain ⟨hopened', hidle'⟩ := opened_rest hst hopened hidle hp hs
    exact .ack hmem hname (fun key hk => unused_step hst (hunmet key hk)
      (.inl hopened'.solo.unbound)
      (step_cases hs)) hidle' hopened'
  | answer hmem hname hunmet hidle hopened =>
    obtain ⟨hopened', hidle'⟩ := opened_rest hst hopened hidle hp hs
    exact .answer hmem hname (fun key hk => unused_step hst (hunmet key hk)
      (.inl hopened'.solo.unbound) (step_cases hs)) hidle' hopened'
  | binding hmem hname hunused hack hbinding hopened =>
    rcases binding_step hst hopened hbinding hp hs with ⟨hbinding', hopened'⟩ | rfl
    · exact .binding hmem hname (unused_step hst hunused (.inl hopened'.solo.unbound)
        (step_cases hs)) hack hbinding' hopened'
    · exact .bound (threads_unlock ..) (List.getElem?_concat_length ..) rfl
  | bound hidle hx hkey =>
    obtain ⟨x', hx', hkey'⟩ := keepsKeys_step (step_cases hs) _ _ hx
    exact .bound (idle_step hidle hp hs) hx' (hkey'.trans hkey)

theorem follows_thread (hcobs : u.cobs.Lawful) (hmax : 0 < u.maxFrame) (hst : Steady u.server o)
    (ha : Attempt u greetings acks o stage) (h : Follows u greetings o) (hp : permitted a = true)
    (hs : o.step u.server a = .next o') : Follows u greetings o' := by
  intro c hb
  rcases binding_cases (step_cases hs) with hb' | hb' | ⟨t, key, value, ht, rfl⟩
  · rw [hb'] at hb
    obtain ⟨x, g, hx, hmem, hname, hflows⟩ := h c hb
    obtain ⟨x', hx', hkey'⟩ := keepsKeys_step (step_cases hs) _ _ hx
    exact ⟨x', g, hx', hmem, by rw [hkey']; exact hname,
      flows_step hcobs hmax hst hflows hp hs (hb'.trans hb)⟩
  · rw [hb'] at hb
    cases hb
  · have hown := bind_owner hst ht
    subst hown
    obtain ⟨-, -, -, g, hmem, hname, hopened⟩ := ha.of_bind ht
    have hc : c = o.contexts.length := by
      have hlast : some o.contexts.length = some c := hb
      cases hlast
      rfl
    subst hc
    exact ⟨_, g, List.getElem?_concat_length .., hmem, hname, flows_bind hst hopened key value⟩

theorem keys_thread (hst : Steady u.server o) (ha : Attempt u greetings acks o stage)
    (h : ∀ (c : ℕ) (x : Context Transcript), o.contexts[c]? = some x → ∃ a ∈ acks, a.key = x.key)
    (hs : o.step u.server a = .next o') (c : ℕ) (x : Context Transcript)
    (hx : o'.contexts[c]? = some x) : ∃ a ∈ acks, a.key = x.key := by
  rcases context_cases (step_cases hs) hx with ⟨x₀, hx₀, hkey⟩ | ⟨t, ht, -⟩
  · obtain ⟨a, hmem, hk⟩ := h c x₀ hx₀
    exact ⟨a, hmem, hk.trans hkey⟩
  · have hown := bind_owner hst ht
    subst hown
    exact (ha.of_bind ht).2.2.1

theorem met_thread (hst : Steady u.server o) (ha : Attempt u greetings acks o stage)
    (h : ∀ (c : ℕ) (x : Context Transcript), o.contexts[c]? = some x →
      ∃ g ∈ greetings, g.ark = x.key.ark)
    (hs : o.step u.server a = .next o') (c : ℕ) (x : Context Transcript)
    (hx : o'.contexts[c]? = some x) : ∃ g ∈ greetings, g.ark = x.key.ark := by
  rcases context_cases (step_cases hs) hx with ⟨x₀, hx₀, hkey⟩ | ⟨t, ht, -⟩
  · rw [← hkey]
    exact h c x₀ hx₀
  · have hown := bind_owner hst ht
    subst hown
    obtain ⟨-, -, -, g, hmem, hname, -⟩ := ha.of_bind ht
    exact ⟨g, hmem, hname.2⟩

end Thread

/-- **Another thread, or a call of the owner, goes on.** -/
theorem Local.thread (hcobs : u.cobs.Lawful) (hmax : 0 < u.maxFrame) {greetings : List Greeting}
    {acks : List Ack} {p o' : State Transcript} (h : Local u greetings acks p s)
    {a : Outbound.Action Transcript} (hp : permitted a = true)
    (hs : s.out.step u.server a = .next o') : Local u greetings acks p { s with out := o' } where
  steady := steady_step hcobs hmax h.steady hp hs
  sane := sane_step hcobs hmax h.steady.good h.sane (step_cases hs)
  reader := h.reader
  stage := h.stage
  records := h.records.mono (keepsKeys_step (step_cases hs)) (fun _ he => he) (.of_eq rfl)
  attempt := attempt_thread hcobs hmax h.steady h.attempt hp hs
  follows := follows_thread hcobs hmax h.steady h.attempt h.follows hp hs
  keys := keys_thread h.steady h.attempt h.keys hs
  met := met_thread h.steady h.attempt h.met hs
  distinct := h.distinct
  single := single_step h.steady h.single (fun _ ht => (h.attempt.of_bind ht).2.1) (step_cases hs)

/-! ### The owner moves -/

/-- The greetings that a step of the owner adds, and what it opens. -/
inductive Adds (u : Setup) (greetings : List Greeting) (acks : List Ack) (s : Server)
    (input : Input) : List Greeting → Prop
  | nothing : (∀ sealed, input ≠ .seals (.ok sealed)) →
      (∀ key, Starts s input key → ∃ a ∈ acks, a.key = key) →
      (∀ key deadline packet, Starts s input key →
        s.stage = .answer deadline key.hello key.ark packet →
        ∃ a ∈ acks, a.key = key ∧ a.bytes = packet) → Adds u greetings acks s input []
  | greeting {deadline : ℕ} {hello : HostHello} {ark : ArkHello} {bytes : Bytes} :
      input = .seals (.ok (ark, bytes)) → s.stage = .greet deadline hello →
      (∀ g ∈ greetings, g.ark ≠ ark) → fresh u.cobs bytes s.out.framer.accepted = true →
      Adds u greetings acks s input [⟨hello, ark, bytes, place u.server s.out⟩]

theorem adds_greets {p : Pair} {new : List Greeting} (h : p.greets u input = some new) :
    Adds u p.greetings p.acks p.server input new := by
  unfold Pair.greets at h
  split at h
  · split at h
    · next hstage =>
      split_ifs at h with hguard
      cases h
      exact .greeting rfl hstage hguard.1 hguard.2
    · cases h
  · next ack =>
    split at h
    · next deadline hello ark packet hstage =>
      split_ifs at h with hguard
      cases h
      have hstarts : ∀ key deadline' packet', Starts p.server (.opened (.ok ack)) key →
          p.server.stage = .answer deadline' key.hello key.ark packet' →
          ∃ a ∈ p.acks, a.key = key ∧ a.bytes = packet' := by
        rintro key deadline' packet' ⟨-, -, -, hin⟩ hs
        rw [hstage] at hs
        cases hs
        cases hin
        exact hguard
      refine .nothing (fun sealed heq => by cases heq) (fun key hk => ?_) hstarts
      obtain ⟨deadline', packet', hs, hin⟩ := hk
      obtain ⟨a, hmem, hkey, -⟩ := hstarts key deadline' packet' ⟨_, _, hs, hin⟩ hs
      exact ⟨a, hmem, hkey⟩
    · cases h
  · next hseals hopened =>
    cases h
    refine .nothing (fun sealed heq => hseals sealed.1 sealed.2 heq) ?_ ?_
    · rintro key ⟨-, -, -, hin⟩
      exact absurd hin (hopened _)
    · rintro key deadline packet ⟨-, -, -, hin⟩
      exact absurd hin (hopened _)

section Own

variable {greetings new : List Greeting} {acks : List Ack} {value : Value}

theorem Attempt.mono {o : State Transcript} {stage : Stage} (h : Attempt u greetings acks o stage) :
    Attempt u (greetings ++ new) acks o stage := by
  cases h with
  | rest hloose hplain => exact .rest hloose hplain
  | unbind hunbinds => exact .unbind hunbinds
  | hello hidle hsolo => exact .hello hidle hsolo
  | greet hidle hsolo => exact .greet hidle hsolo
  | send hmem hname hunmet hpack => exact .send (List.mem_append_left _ hmem) hname hunmet hpack
  | ack hmem hname hunmet hidle hopened =>
    exact .ack (List.mem_append_left _ hmem) hname hunmet hidle hopened
  | answer hmem hname hunmet hidle hopened =>
    exact .answer (List.mem_append_left _ hmem) hname hunmet hidle hopened
  | binding hmem hname hunused hack hbinding hopened =>
    exact .binding (List.mem_append_left _ hmem) hname hunused hack hbinding hopened
  | bound hidle hx hkey => exact .bound hidle hx hkey

/-- The client has sealed more acks. -/
theorem Attempt.acked {o : State Transcript} {stage : Stage} (h : Attempt u greetings acks o stage)
    (more : List Ack) : Attempt u greetings (acks ++ more) o stage := by
  cases h with
  | rest hloose hplain => exact .rest hloose hplain
  | unbind hunbinds => exact .unbind hunbinds
  | hello hidle hsolo => exact .hello hidle hsolo
  | greet hidle hsolo => exact .greet hidle hsolo
  | send hmem hname hunmet hpack => exact .send hmem hname hunmet hpack
  | ack hmem hname hunmet hidle hopened => exact .ack hmem hname hunmet hidle hopened
  | answer hmem hname hunmet hidle hopened => exact .answer hmem hname hunmet hidle hopened
  | binding hmem hname hunused hack hbinding hopened =>
    obtain ⟨a, ha, hkey⟩ := hack
    exact .binding hmem hname hunused ⟨a, List.mem_append_left _ ha, hkey⟩ hbinding hopened
  | bound hidle hx hkey => exact .bound hidle hx hkey

/-- The stream and the place of the owner after a step, and that the outbound transport is used
as it should be. -/
def Fits (u : Setup) (greetings : List Greeting) (acks : List Ack) (s' : Server) : Prop :=
  Steady u.server s'.out ∧ Attempt u greetings acks s'.out s'.stage

theorem fits_rests {o : State Transcript} {b : Inbox} (hst : Steady u.server o)
    (hidle : o.threads owner = .idle value) (h : Rests o b s') : Fits u greetings acks s' := by
  cases h with
  | stays hout hb hs' =>
    refine ⟨hout ▸ hst, .rest ?_ (by rw [hout, hidle]; rfl)⟩
    rcases hs' with hs' | hs'
    · rw [hs']
      rfl
    · rw [hs']
      rfl
  | notifies hout hb hs' =>
    refine ⟨hout ▸ steady_calls hst hidle (fun h => (by cases h)),
      .rest ?_ (by rw [hout, threads_calls]; rfl)⟩
    rcases hs' with ⟨next, hs'⟩ | ⟨⟨deadline, hs'⟩, -⟩
    · rw [hs']
      rfl
    · rw [hs']
      rfl

theorem fits_ends {o : State Transcript} {b : Inbox} (hst : Steady u.server o)
    (hidle : o.threads owner = .idle value) (h : Ends o b s') : Fits u greetings acks s' := by
  cases h with
  | calls hout hb hs' =>
    refine ⟨hout ▸ steady_calls hst hidle (fun h => (by cases h)),
      .rest (by rw [hs']; rfl) (by rw [hout, threads_calls]; rfl)⟩
  | closed h => exact fits_rests hst hidle h

/-- The ArkHello of a greeting is none of those before it, and follows what the stream holds. -/
theorem fits_seals {deadline : ℕ} {hello : HostHello} {ark : ArkHello} {bytes : Bytes}
    (hst : Steady u.server s.out) (hsane : Sane s.out) (hidle : s.out.threads owner = .idle value)
    (ha : Attempt u greetings acks s.out (.greet deadline hello))
    (hmet : ∀ (c : ℕ) (x : Context Transcript), s.out.contexts[c]? = some x →
      ∃ g ∈ greetings, g.ark = x.key.ark)
    (hadds : Adds u greetings acks s input new) (hs : s.stage = .greet deadline hello)
    (hin : input = .seals (.ok (ark, bytes))) (hs' : s'.stage = .send deadline hello ark bytes)
    (hout : s'.out = calls s.out (.sendPacket bytes (some deadline))) :
    Fits u (greetings ++ new) acks s' := by
  cases ha with
  | rest hloose hplain => cases hloose
  | greet hpc hsolo =>
    refine ⟨hout ▸ steady_calls hst hidle (fun _ => hsolo.unbound), ?_⟩
    rw [hs', hout]
    cases hadds with
    | nothing hne => exact absurd hin (hne _)
    | greeting hin' hs'' hnew hfresh =>
      rw [hin] at hin'
      cases hin'
      rw [hs] at hs''
      cases hs''
      have hmem : (⟨hello, ark, bytes, place u.server s.out⟩ : Greeting) ∈
          greetings ++ [⟨hello, ark, bytes, place u.server s.out⟩] := by simp
      refine .send (g := ⟨hello, ark, bytes, place u.server s.out⟩) hmem ⟨rfl, rfl⟩
        (fun key hk => (calm_calls _ _).unused fun c x hx heq => ?_) (.sends ?_ ?_)
      · obtain ⟨g, hold, hark⟩ := hmet c x hx
        exact hnew g hold (by rw [hark, heq, hk.2])
      · rw [threads_calls]
        rfl
      · exact ⟨hsolo.calm (calm_calls _ _), hsane, before_of_fresh hfresh⟩

/-- A HostAck that opened is the client's, and its session is bound next. -/
theorem fits_binds {deadline : ℕ} {key : Transcript} {packet : Bytes}
    (hst : Steady u.server s.out) (hidle : s.out.threads owner = .idle value)
    (ha : Attempt u greetings acks s.out (.answer deadline key.hello key.ark packet))
    (hadds : Adds u greetings acks s input new)
    (hs : s.stage = .answer deadline key.hello key.ark packet)
    (hin : input = .opened (.ok key.ack)) (hs' : s'.stage = .bind key)
    (hout : s'.out = calls s.out (.bind key)) : Fits u (greetings ++ new) acks s' := by
  refine ⟨hout ▸ steady_calls hst hidle (fun h => (by cases h)), ?_⟩
  rw [hs', hout]
  have hack : ∃ a ∈ acks, a.key = key := by
    cases hadds with
    | nothing hseals hopened => exact hopened key ⟨deadline, packet, hs, hin⟩
    | greeting hin' => rw [hin] at hin'; cases hin'
  cases ha with
  | rest hloose hplain => cases hloose
  | answer hmem hname hunmet hpc hopened =>
    refine .binding (List.mem_append_left _ hmem) hname
      ((calm_calls _ _).unused (hunmet key ⟨rfl, rfl⟩)) hack (.inl (threads_calls ..)) ?_
    exact hopened.congr (hopened.solo.calm (calm_calls _ _)) rfl

theorem fits_move (hst : Steady u.server s.out) (hsane : Sane s.out)
    (hidle : s.out.threads owner = .idle value) (ha : Attempt u greetings acks s.out s.stage)
    (hmet : ∀ (c : ℕ) (x : Context Transcript), s.out.contexts[c]? = some x →
      ∃ g ∈ greetings, g.ark = x.key.ark)
    (hadds : Adds u greetings acks s input new) (h : Move u opens s input s') :
    Fits u (greetings ++ new) acks s' := by
  have hrest : s'.out = s.out → loose s'.stage = true → Fits u (greetings ++ new) acks s' := by
    intro hout hloose
    exact ⟨hout ▸ hst, .rest hloose (by rw [hout, hidle]; rfl)⟩
  cases h with
  | begins hs hs' hout => exact hrest hout (by rw [hs']; rfl)
  | leaves hs he => exact fits_ends hst hidle he
  | unbinds hs hsome hs' hout =>
    refine ⟨hout ▸ steady_calls hst hidle (fun h => (by cases h)), ?_⟩
    rw [hs', hout]
    exact .unbind (.waits (threads_calls ..))
  | listens hs hnone hs' hout => exact hrest hout (by rw [hs']; rfl)
  | reads hs hread hask hs' hout => exact hrest hout (by rw [hs']; rfl)
  | cut hs hread hs' hout => exact hrest hout (by rw [hs']; rfl)
  | breaks hs hread hne he => exact fits_ends hst hidle he
  | refuses hs hread hf hrx hopen hs' hout => exact hrest hout (by rw [hs']; rfl)
  | opens hs hread hf hrx hopen hs' hout => exact hrest hout (by rw [hs']; rfl)
  | delivers hs hs' hout =>
    refine ⟨hout ▸ steady_received hst hidle _ _, .rest (by rw [hs']; rfl) ?_⟩
    rw [hout, threads_received]
    rfl
  | drops hs hbox he =>
    exact fits_ends (steady_received hst hidle _ _) (threads_received ..) he
  | releases hs h => exact fits_rests hst hidle h
  | rests hcur hread h => exact fits_rests hst hidle h
  | asks hs hpc hs' hout =>
    rw [hs] at ha
    refine ⟨hout ▸ hst, ?_⟩
    rw [hs', hout]
    cases ha with
    | rest hloose hplain => cases hloose
    | unbind hunbinds =>
      cases hunbinds with
      | waits h => rw [hpc] at h; cases h
      | holds h => rw [hpc] at h; cases h
      | done h hsolo => exact .hello h hsolo
  | searches hs hread hask hs' hout =>
    refine ⟨hout ▸ hst, ?_⟩
    rw [hs', hout]
    rcases hs with hs | ⟨hello, ark, hs⟩
    · rw [hs] at ha
      cases ha with
      | rest hloose hplain => cases hloose
      | hello hidle hsolo => exact .hello hidle hsolo
    · rw [hs] at ha
      cases ha with
      | rest hloose hplain => cases hloose
      | ack hmem hname hunmet hidle hopened => exact .hello hidle hopened.solo
  | greets hs hread hs' hout =>
    rw [hs] at ha
    refine ⟨hout ▸ hst, ?_⟩
    rw [hs', hout]
    cases ha with
    | rest hloose hplain => cases hloose
    | hello hidle hsolo => exact .greet hidle hsolo
  | seals hs hin hs' hout =>
    rw [hs] at ha
    exact fits_seals hst hsane hidle ha hmet hadds hs hin hs' hout
  | sent hs hpc hs' hout =>
    rw [hs] at ha
    refine ⟨hout ▸ hst, ?_⟩
    rw [hs', hout]
    cases ha with
    | rest hloose hplain => cases hloose
    | send hmem hname hunmet hpack =>
      refine .ack (List.mem_append_left _ hmem) hname hunmet hpc ?_
      cases hpack with
      | sends h => rw [hpc] at h; cases h
      | sent h hopened => exact hopened
      | lost h => rw [hpc] at h; cases h
  | waits hs hread hask hs' hout =>
    rw [hs] at ha
    refine ⟨hout ▸ hst, ?_⟩
    rw [hs', hout]
    cases ha with
    | rest hloose hplain => cases hloose
    | ack hmem hname hunmet hpc hopened =>
      exact .ack (List.mem_append_left _ hmem) hname hunmet hpc hopened
  | hears hs hread hf hs' hout =>
    rw [hs] at ha
    refine ⟨hout ▸ hst, ?_⟩
    rw [hs', hout]
    cases ha with
    | rest hloose hplain => cases hloose
    | ack hmem hname hunmet hpc hopened =>
      exact .answer (List.mem_append_left _ hmem) hname hunmet hpc hopened
  | binds hs hin hs' hout =>
    rw [hs] at ha
    exact fits_binds hst hidle ha hadds hs hin hs' hout
  | establishes hs hpc hs' hout => exact hrest hout (by rw [hs']; rfl)

theorem records_rests {o p : State Transcript} {b : Inbox} (hrec : Recorded s.out p b)
    (h : Rests o b s') : Recorded s.out p s'.inbox := by
  rw [inbox_rests h]
  exact hrec

theorem records_ends {o p : State Transcript} {b : Inbox} (hrec : Recorded s.out p b)
    (h : Ends o b s') : Recorded s.out p s'.inbox := by
  cases h with
  | calls hout hb hs' => exact hb ▸ hrec
  | closed h => exact records_rests hrec.close h

theorem records_move {p : State Transcript} (hrec : Recorded s.out p s.inbox)
    (hst : ServerStage u.maxFrame s.inbox s.handshakeDeadline s.stage)
    (ha : Attempt u greetings acks s.out s.stage) (h : Move u (openedBy p) s input s') :
    Recorded s.out p s'.inbox := by
  cases h with
  | begins hs hs' hout hb => exact hb ▸ hrec
  | leaves hs he => exact records_ends (hrec.mark (.inr ⟨_, rfl⟩)) he
  | unbinds hs hsome hs' hout hb => exact hb ▸ hrec
  | listens hs hnone hs' hout hb => exact hb ▸ hrec
  | reads hs hread hask hs' hout hb => exact hb ▸ hrec.reader _
  | cut hs hread hs' hout hb => exact hb ▸ hrec.reader _
  | breaks hs hread hne he => exact records_ends ((hrec.reader _).mark (.inl rfl)) he
  | refuses hs hread hf hrx hopen hs' hout hb => exact hb ▸ (hrec.reader _).mark (.inl rfl)
  | @opens phase reader f packet message rx c hs hread hf hrx hopen hs' hout hb =>
    rw [hs] at hst
    have hread := hrec.reader reader
    rw [hb]
    exact hread.opened hst.1.1 hrx (openedBy_ok hopen)
  | delivers hs hs' hout hb =>
    rw [hs] at hst
    exact hb ▸ hrec.deliver hst.2
  | drops hs hbox he =>
    rcases hbox with rfl | ⟨rfl, -⟩
    · exact records_ends (hrec.mark (.inr ⟨_, rfl⟩)) he
    · exact records_ends hrec he
  | releases hs h => exact records_rests hrec.close h
  | rests hcur hread h => exact records_rests (hrec.reader _) h
  | asks hs hidle hs' hout hb => exact hb ▸ hrec
  | searches hs hread hask hs' hout hb => exact hb ▸ hrec.reader _
  | greets hs hread hs' hout hb => exact hb ▸ hrec.reader _
  | seals hs hin hs' hout hb => exact hb ▸ hrec
  | sent hs hpc hs' hout hb => exact hb ▸ hrec
  | waits hs hread hask hs' hout hb => exact hb ▸ hrec.reader _
  | hears hs hread hf hs' hout hb => exact hb ▸ hrec.reader _
  | binds hs hin hs' hout hb => exact hb ▸ hrec
  | establishes hs hpc hs' hout hb =>
    rw [hs] at ha
    cases ha with
    | rest hloose hplain => cases hloose
    | binding hmem hname hunused hack hbinding hopened =>
      rcases hbinding with h | h
      · rw [hpc] at h
        cases h
      · rw [hpc] at h
        cases h
    | bound hidle hx hkey =>
      rw [hpc] at hidle
      cases hidle
      exact hb ▸ hrec.establish hx hkey

/-- **The owner moves.** -/
theorem Local.own {p : State Transcript} (h : Local u greetings acks p s)
    (hadds : Adds u greetings acks s input new) (hidle : s.out.threads owner = .idle value)
    (hmove : Move u (openedBy p) s input s') : Local u (greetings ++ new) acks p s' := by
  have hcalm := calm_move hmove
  obtain ⟨hsteady, hattempt⟩ := fits_move h.steady h.sane hidle h.attempt h.met hadds hmove
  obtain ⟨read, hread, -⟩ := takes_move h.reader h.records h.stage hmove
  refine ⟨hsteady, ?_, hread.good, stage_move h.records h.stage hmove, ?_, hattempt,
    fun c hb => ?_, fun c x hx => ?_, fun c x hx => ?_, ?_, ?_⟩
  · unfold Sane
    rw [hcalm.framer]
    exact h.sane
  · exact (records_move h.records h.stage h.attempt hmove).mono hcalm.keys (fun _ he => he)
      (.of_eq rfl)
  · rw [hcalm.binding] at hb
    obtain ⟨x, g, hx, hmem, hname, hflows⟩ := h.follows c hb
    exact ⟨x, g, by rw [hcalm.contexts]; exact hx, List.mem_append_left _ hmem, hname,
      hflows.calm hidle hcalm⟩
  · rw [hcalm.contexts] at hx
    exact h.keys c x hx
  · rw [hcalm.contexts] at hx
    obtain ⟨g, hmem, hark⟩ := h.met c x hx
    exact ⟨g, List.mem_append_left _ hmem, hark⟩
  · cases hadds with
    | nothing => simpa using h.distinct
    | greeting hin hs hnew hfresh =>
      rw [List.map_append, List.nodup_append]
      refine ⟨h.distinct, by simp, ?_⟩
      intro k hk k' hk' heq
      obtain ⟨g, hmem, rfl⟩ := List.mem_map.mp hk
      rw [List.map_singleton, List.mem_singleton] at hk'
      exact hnew g hmem (heq.trans hk')
  · unfold Single
    rw [hcalm.contexts]
    exact h.single

end Own

/-- The peer's outbound transport goes on with its acks, and bytes arrive. -/
theorem Local.feed {greetings : List Greeting} {acks : List Ack} {p p' : State Transcript}
    (h : Local u greetings acks p s) (hlog : p.log ⊆ p'.log) (hkeys : KeepsKeys p p')
    (bytes : Bytes) (more : List Ack) :
    Local u greetings (acks ++ more) p' { s with inbox := s.inbox.feed bytes } where
  steady := h.steady
  sane := h.sane
  reader := ⟨h.reader.length, h.reader.offset_le, h.reader.search_le, h.reader.filled_le,
    h.reader.searched, h.reader.offers⟩
  stage := Integrity.serverStage_feed bytes h.stage
  records := (h.records.mono (.of_eq rfl) hlog hkeys).feed bytes
  attempt := h.attempt.acked more
  follows := h.follows
  keys c x hx := by
    obtain ⟨a, hmem, hkey⟩ := h.keys c x hx
    exact ⟨a, List.mem_append_left _ hmem, hkey⟩
  met := h.met
  distinct := h.distinct
  single := h.single

/-! ### A session is not begun again -/

/-- **The server is at the session of the key**, from the sending of its ArkHello to the removal of
its context. -/
inductive Pursues (s : Server) (key : Transcript) : Prop
  | exchange {n : ℕ} : slack key.hello key.ark s.stage = some n → ¬ Lost (s.out.threads owner) →
      Pursues s key
  | binding : s.stage = .bind key → Binding key (s.out.threads owner) → Pursues s key
  | bound {c : ℕ} {x : Context Transcript} : s.out.binding = some c →
      s.out.contexts[c]? = some x → x.key = key → Pursues s key

theorem Pursues.of_feed {key : Transcript} {bytes : Bytes}
    (h : Pursues { s with inbox := s.inbox.feed bytes } key) : Pursues s key := by
  cases h with
  | exchange hslack hlost => exact .exchange hslack hlost
  | binding hstage hpc => exact .binding hstage hpc
  | bound hb hx hkey => exact .bound hb hx hkey

section Pursuit

variable {greetings : List Greeting} {acks : List Ack} {p o' : State Transcript} {key : Transcript}
  {seq n : ℕ}

/-- In an exchange the ArkHello is to be sent, or is the last frame, or its call has failed. -/
theorem Local.exchange (h : Local u greetings acks p s) {hello : HostHello} {ark : ArkHello}
    (hk : slack hello ark s.stage = some n) :
    Lost (s.out.threads owner) ∨ s.out.binding = none ∧
      ∃ g ∈ greetings, (g.hello = hello ∧ g.ark = ark) ∧
        ∀ key, Course u.server g.bytes g.place key s.out := by
  have hattempt := h.attempt
  cases hs : s.stage with
  | send deadline hello' ark' bytes =>
    rw [hs] at hk hattempt
    dsimp only [slack] at hk
    split_ifs at hk with heq
    obtain ⟨rfl, rfl⟩ := heq
    cases hattempt with
    | rest hloose hplain => cases hloose
    | send hmem hname hunmet hpack =>
      cases hpack with
      | sends hpc hpend => exact .inr ⟨hpend.solo.unbound, _, hmem, hname, fun _ => .pending hpend⟩
      | sent hpc hopened =>
        exact .inr ⟨hopened.solo.unbound, _, hmem, hname, fun _ => .opened hopened⟩
      | lost hpc => exact .inl hpc
  | ack deadline hello' ark' phase =>
    rw [hs] at hk hattempt
    dsimp only [slack] at hk
    split_ifs at hk with heq
    obtain ⟨rfl, rfl⟩ := heq
    cases hattempt with
    | rest hloose hplain => cases hloose
    | ack hmem hname hunmet hpc hopened =>
      exact .inr ⟨hopened.solo.unbound, _, hmem, hname, fun _ => .opened hopened⟩
  | answer deadline hello' ark' packet =>
    rw [hs] at hk hattempt
    dsimp only [slack] at hk
    split_ifs at hk with heq
    obtain ⟨rfl, rfl⟩ := heq
    cases hattempt with
    | rest hloose hplain => cases hloose
    | answer hmem hname hunmet hpc hopened =>
      exact .inr ⟨hopened.solo.unbound, _, hmem, hname, fun _ => .opened hopened⟩
  | _ =>
    rw [hs] at hk
    cases hk

/-- What is on the stream of a session that the server is at. -/
theorem Local.course (h : Local u greetings acks p s) (hk : Pursues s key) :
    ∃ g ∈ greetings, (g.hello = key.hello ∧ g.ark = key.ark) ∧
      Course u.server g.bytes g.place key s.out := by
  cases hk with
  | exchange hslack hlost =>
    rcases h.exchange hslack with hl | ⟨-, g, hmem, hname, hcourse⟩
    · exact absurd hl hlost
    · exact ⟨g, hmem, hname, hcourse key⟩
  | binding hs hpc =>
    have hattempt := h.attempt
    rw [hs] at hattempt
    cases hattempt with
    | rest hloose hplain => cases hloose
    | binding hmem hname hunused hack hbinding hopened => exact ⟨_, hmem, hname, .opened hopened⟩
    | bound hidle hx hkey =>
      rcases hpc with hpc | hpc
      · rw [hidle] at hpc
        cases hpc
      · rw [hidle] at hpc
        cases hpc
  | bound hb hx hkey =>
    obtain ⟨x', g, hx', hmem, hname, hflows⟩ := h.follows _ hb
    rw [hx, Option.some.injEq] at hx'
    subst hx' hkey
    exact ⟨g, hmem, hname, .bound hx rfl hflows⟩

/-- Before the client has answered, nothing is bound. -/
theorem Local.unbound (h : Local u greetings acks p s) (hk : Pursues s key)
    (hnew : ∀ a ∈ acks, a.key ≠ key) : s.out.binding = none := by
  cases hk with
  | exchange hslack hlost =>
    rcases h.exchange hslack with hl | ⟨hnone, -⟩
    · exact absurd hl hlost
    · exact hnone
  | binding hs hpc =>
    have hattempt := h.attempt
    rw [hs] at hattempt
    cases hattempt with
    | rest hloose hplain => cases hloose
    | binding hmem hname hunused hack hbinding hopened => exact hopened.solo.unbound
    | bound hidle hx hkey =>
      obtain ⟨a, hmem, ha⟩ := h.keys _ _ hx
      exact absurd (ha.trans hkey) (hnew a hmem)
  | bound hb hx hkey =>
    obtain ⟨a, hmem, ha⟩ := h.keys _ _ hx
    exact absurd (ha.trans hkey) (hnew a hmem)

/-- The client has sealed a HostAck for the session that the server receives in. -/
theorem Local.known (h : Local u greetings acks p s) (hk : Holds s key seq) :
    ∃ a ∈ acks, a.key = key := by
  rcases hk with hrx | ⟨-, hs⟩
  · obtain ⟨x, hx⟩ := h.records.receives _ hrx
    obtain ⟨y, hy, hkey⟩ := h.records.bound x (mem_sessions_of_current hx)
    obtain ⟨a, hmem, ha⟩ := h.keys _ y hy
    exact ⟨a, hmem, (ha.trans hkey).trans (h.records.key_eq hrx hx rfl)⟩
  · have hattempt := h.attempt
    rw [hs] at hattempt
    cases hattempt with
    | rest hloose hplain => cases hloose
    | binding hmem hname hunused hack hbinding hopened => exact hack
    | bound hidle hx hkey =>
      obtain ⟨a, hmem, ha⟩ := h.keys _ _ hx
      exact ⟨a, hmem, ha.trans hkey⟩

/-- Another thread, or a call of the owner, does not bring the server to a session. -/
theorem pursues_thread (h : Local u greetings acks p s) {a : Outbound.Action Transcript}
    (hp : permitted a = true) (hs : s.out.step u.server a = .next o')
    (hk : Pursues { s with out := o' } key) : Pursues s key := by
  cases hk with
  | exchange hslack hlost => exact .exchange hslack fun hl => hlost (lost_step hl hp hs)
  | binding hstage hpc =>
    refine .binding hstage ?_
    have hattempt := h.attempt
    rw [show s.stage = .bind key from hstage] at hattempt
    cases hattempt with
    | rest hloose hplain => cases hloose
    | binding hmem hname hunused hack hbinding hopened => exact hbinding
    | bound hidle hx hkey =>
      have hidle' := idle_step hidle hp hs
      rcases hpc with hpc | hpc
      · rw [show ({ s with out := o' } : Server).out = o' from rfl, hidle'] at hpc
        cases hpc
      · rw [show ({ s with out := o' } : Server).out = o' from rfl, hidle'] at hpc
        cases hpc
  | @bound c x hb hx hkey =>
    change o'.binding = some c at hb
    change o'.contexts[c]? = some x at hx
    rcases binding_cases (step_cases hs) with hb' | hb' | ⟨t, key', value, ht, rfl⟩
    · rw [hb'] at hb
      obtain ⟨y, g, hy, -⟩ := h.follows c hb
      obtain ⟨y', hy', hkey'⟩ := keepsKeys_step (step_cases hs) _ _ hy
      rw [hx, Option.some.injEq] at hy'
      subst hy'
      exact .bound hb hy (hkey'.symm.trans hkey)
    · rw [hb'] at hb
      cases hb
    · have hown := bind_owner h.steady ht
      subst hown
      obtain ⟨hstage, -⟩ := h.attempt.of_bind ht
      have hc : c = s.out.contexts.length := by
        have hlast : some s.out.contexts.length = some c := hb
        cases hlast
        rfl
      subst hc
      have hx' := (List.getElem?_concat_length (l := s.out.contexts)).symm.trans hx
      cases hx'
      subst hkey
      exact .binding hstage (.inr ht)

/-- A context is bound where its session is pursued. -/
theorem binds_thread (h : Local u greetings acks p s) {a : Outbound.Action Transcript}
    (hs : s.out.step u.server a = .next o') {c : ℕ} {x' : Context Transcript}
    (hx : o'.contexts[c]? = some x') :
    (∃ x, s.out.contexts[c]? = some x ∧ x.key = x'.key) ∨ Pursues s x'.key := by
  rcases context_cases (step_cases hs) hx with hold | ⟨t, ht, -⟩
  · exact .inl hold
  · have hown := bind_owner h.steady ht
    subst hown
    exact .inr (.binding (h.attempt.of_bind ht).1 (.inr ht))

/-- The owner comes to a session only where it seals an ArkHello. -/
theorem pursues_move (h : Local u greetings acks p s) (hmove : Move u opens s input s')
    (hk : Pursues s' key) : Pursues s key ∨ Greets s input key.hello key.ark := by
  cases hk with
  | exchange hslack hlost =>
    rcases slack_move h.reader hmove hslack with hgreets | ⟨hout, n, read, hslack', -⟩
    · exact .inr hgreets
    · exact .inl (.exchange hslack' (by rw [← hout]; exact hlost))
  | binding hstage hpc =>
    obtain ⟨deadline, packet, hs, hin⟩ := bind_move hmove hstage
    refine .inl (.exchange (n := 1) ?_ ?_)
    · rw [hs]
      exact if_pos ⟨rfl, rfl⟩
    · have hattempt := h.attempt
      rw [hs] at hattempt
      cases hattempt with
      | rest hloose hplain => cases hloose
      | answer hmem hname hunmet hpc hopened =>
        intro hlost
        rw [hpc] at hlost
        exact hlost
  | bound hb hx hkey =>
    have hcalm := calm_move hmove
    rw [hcalm.binding] at hb
    rw [hcalm.contexts] at hx
    exact .inl (.bound hb hx hkey)

end Pursuit

end ArkWire.Transport.ServerCourse
