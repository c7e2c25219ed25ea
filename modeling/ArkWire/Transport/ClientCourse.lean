import ArkWire.Transport.ClientMoves

/-! # The course of a client's attempts

`Attempt` says what the client's stream holds at each stage of a `connect`, and `Follows` that the
packets of a bound session follow its HostAck. `Local` collects what holds of a client in any run
with a server, and `Pursues` says at which session the client is: at none again that it has left. -/

namespace ArkWire.Transport.ClientCourse

open ArkWire.Lib.Machines ArkWire.Lib.Delimited
open ArkWire.Transport.Errors ArkWire.Transport.FrameReader ArkWire.Transport.FrameWriter
open ArkWire.Transport.Outbound ArkWire.Transport.OutboundSteps ArkWire.Transport.Endpoint
open ArkWire.Transport.Client ArkWire.Transport.Pair
open ArkWire.Transport.Integrity (ClientStage)
open ArkWire.Transport.Company ArkWire.Transport.Flow ArkWire.Transport.Ledger
open ArkWire.Transport.ClientMoves

variable {u : Setup} {opens : Opens} {s s' : Client} {input : Input}

/-! ### An attempt, from its reset to its binding -/

/-- **Where the owner is in an attempt**, with what its stream holds. -/
inductive Attempt (u : Setup) (acks : List Ack) (o : State Transcript) : Stage → Prop
  | idle : plain (o.threads owner) = true → Attempt u acks o .idle
  | read {phase : Phase} : plain (o.threads owner) = true → Attempt u acks o (.read phase)
  | accept {c : ℕ} {opened : Except TransportError Bytes} : plain (o.threads owner) = true →
      Attempt u acks o (.accept c opened)
  | ending {error : TransportError} : plain (o.threads owner) = true →
      Attempt u acks o (.ending error)
  | reset {hello : HostHello} {bytes : Bytes} {deadline : ℕ} : Resets o →
      Attempt u acks o (.reset hello bytes deadline)
  | hello {hello : HostHello} {bytes : Bytes} {deadline : ℕ} :
      Packing u.client (fun _ => True) bytes o → Attempt u acks o (.hello hello deadline)
  | skip {hello : HostHello} {bytes : Bytes} {deadline : ℕ} {phase : Phase} {value : Value} :
      o.threads owner = .idle value → Opened u.client (fun _ => True) bytes o →
      Attempt u acks o (.skip hello deadline phase)
  | answer {hello : HostHello} {bytes packet : Bytes} {deadline : ℕ} {value : Value} :
      o.threads owner = .idle value → Opened u.client (fun _ => True) bytes o →
      Attempt u acks o (.answer hello deadline packet)
  | ack {a : Ack} : a ∈ acks → Unused a.key o →
      Packing u.client (Before u.client a.bytes a.place) a.bytes o →
      Attempt u acks o (.ack a.key a.bytes)
  | binding {a : Ack} : a ∈ acks → Unused a.key o → Binding a.key (o.threads owner) →
      Opened u.client (Before u.client a.bytes a.place) a.bytes o → Attempt u acks o (.bind a.key)
  | bound {key : Transcript} {c : ℕ} {x : Context Transcript} :
      o.threads owner = .idle (.bound c) → o.contexts[c]? = some x → x.key = key →
      Attempt u acks o (.bind key)

/-- The bound context is one of an ack, and its packets follow the ack on the stream. -/
def Follows (u : Setup) (acks : List Ack) (o : State Transcript) : Prop :=
  ∀ c, o.binding = some c → ∃ x a, o.contexts[c]? = some x ∧ a ∈ acks ∧ a.key = x.key ∧
    Flows u.client (Before u.client a.bytes a.place) a.bytes c o

/-- **What holds of a client**, with the peer's outbound transport. -/
structure Local (u : Setup) (acks : List Ack) (p : State Transcript) (s : Client) : Prop where
  steady : Steady u.client s.out
  reader : Grammar.Good u.maxFrame s.inbox.reader
  stage : ClientStage u.maxFrame s.inbox s.stage
  records : Recorded s.out p s.inbox
  attempt : Attempt u acks s.out s.stage
  follows : Follows u acks s.out
  keys : ∀ (c : ℕ) (x : Context Transcript), s.out.contexts[c]? = some x → ∃ a ∈ acks, a.key = x.key
  distinct : (acks.map (·.key)).Nodup
  single : Single s.out

theorem local_init {toServer : Writer} (h : FrameWriter.Good u.maxFrame toServer)
    (p : State Transcript) (supply : Bytes) :
    Local u [] p
      { out := { framer := toServer }, inbox := { reader := .new u.maxFrame supply } } where
  steady := steady_init h
  reader := Grammar.good_new _ _
  stage _ hx := by cases hx
  records := recorded_new _ _ _
  attempt := .idle rfl
  follows _ hb := by cases hb
  keys _ _ hx := by cases hx
  distinct := List.nodup_nil
  single _ _ _ _ hx := by cases hx

/-! ### The outbound transport goes on -/

section Thread

variable {acks : List Ack} {o o' : State Transcript} {stage : Stage}
  {a : Outbound.Action Transcript}

/-- The owner only binds the session of its attempt. -/
theorem Attempt.of_bind (h : Attempt u acks o stage) {key : Transcript}
    (hpc : o.threads owner = .holdWriter (.bind key)) :
    stage = .bind key ∧ Unused key o ∧
      ∃ a ∈ acks, a.key = key ∧ Opened u.client (Before u.client a.bytes a.place) a.bytes o := by
  cases h with
  | idle hplain => rw [hpc] at hplain; cases hplain
  | read hplain => rw [hpc] at hplain; cases hplain
  | accept hplain => rw [hpc] at hplain; cases hplain
  | ending hplain => rw [hpc] at hplain; cases hplain
  | reset hresets =>
    cases hresets with
    | waits h => rw [hpc] at h; cases h
    | holds h => rw [hpc] at h; cases h
    | outputs h => rw [hpc] at h; cases h
    | returns h => rw [hpc] at h; cases h
    | done h => rw [hpc] at h; cases h
  | hello hpack =>
    cases hpack with
    | sends h => rw [hpc] at h; cases h
    | sent h => rw [hpc] at h; cases h
    | lost h => rw [hpc] at h; cases h
  | skip h => rw [hpc] at h; cases h
  | answer h => rw [hpc] at h; cases h
  | ack hmem hunused hpack =>
    cases hpack with
    | sends h => rw [hpc] at h; cases h
    | sent h => rw [hpc] at h; cases h
    | lost h => rw [hpc] at h; cases h
  | @binding a hmem hunused hbinding hopened =>
    rcases hbinding with h | h
    · rw [hpc] at h
      cases h
    · rw [hpc] at h
      cases h
      exact ⟨rfl, hunused, a, hmem, rfl, hopened⟩
  | bound h => rw [hpc] at h; cases h

theorem attempt_thread (hcobs : u.cobs.Lawful) (hmax : 0 < u.maxFrame) (hst : Steady u.client o)
    (h : Attempt u acks o stage) (hp : permitted a = true) (hs : o.step u.client a = .next o') :
    Attempt u acks o' stage := by
  cases h with
  | idle hplain => exact .idle (plain_step hp hs hplain)
  | read hplain => exact .read (plain_step hp hs hplain)
  | accept hplain => exact .accept (plain_step hp hs hplain)
  | ending hplain => exact .ending (plain_step hp hs hplain)
  | reset hresets => exact .reset (resets_step hcobs hmax hst hresets hp hs)
  | hello hpack => exact .hello (packing_step hcobs hmax hst hpack hp hs)
  | skip hidle hopened =>
    obtain ⟨hopened', hidle'⟩ := opened_rest hst hopened hidle hp hs
    exact .skip hidle' hopened'
  | answer hidle hopened =>
    obtain ⟨hopened', hidle'⟩ := opened_rest hst hopened hidle hp hs
    exact .answer hidle' hopened'
  | ack hmem hunused hpack =>
    refine .ack hmem (unused_step hst hunused (.inr fun k hk => ?_) (step_cases hs))
      (packing_step hcobs hmax hst hpack hp hs)
    cases hpack with
    | sends h => rw [hk] at h; cases h
    | sent h => rw [hk] at h; cases h
    | lost h => rw [hk] at h; cases h
  | binding hmem hunused hbinding hopened =>
    rcases binding_step hst hopened hbinding hp hs with ⟨hbinding', hopened'⟩ | rfl
    · exact .binding hmem (unused_step hst hunused (.inl hopened'.solo.unbound) (step_cases hs))
        hbinding' hopened'
    · exact .bound (threads_unlock ..) (List.getElem?_concat_length ..) rfl
  | bound hidle hx hkey =>
    obtain ⟨x', hx', hkey'⟩ := keepsKeys_step (step_cases hs) _ _ hx
    exact .bound (idle_step hidle hp hs) hx' (hkey'.trans hkey)

theorem follows_thread (hcobs : u.cobs.Lawful) (hmax : 0 < u.maxFrame) (hst : Steady u.client o)
    (ha : Attempt u acks o stage) (h : Follows u acks o) (hp : permitted a = true)
    (hs : o.step u.client a = .next o') : Follows u acks o' := by
  intro c hb
  rcases binding_cases (step_cases hs) with hb' | hb' | ⟨t, key, value, ht, rfl⟩
  · rw [hb'] at hb
    obtain ⟨x, a, hx, hmem, hkey, hflows⟩ := h c hb
    obtain ⟨x', hx', hkey'⟩ := keepsKeys_step (step_cases hs) _ _ hx
    exact ⟨x', a, hx', hmem, hkey.trans hkey'.symm,
      flows_step hcobs hmax hst hflows hp hs (hb'.trans hb)⟩
  · rw [hb'] at hb
    cases hb
  · have hown := bind_owner hst ht
    subst hown
    obtain ⟨-, -, a, hmem, hkey, hopened⟩ := ha.of_bind ht
    have hc : c = o.contexts.length := by
      have hlast : some o.contexts.length = some c := hb
      cases hlast
      rfl
    subst hc
    exact ⟨_, a, List.getElem?_concat_length .., hmem, hkey, flows_bind hst hopened key value⟩

theorem keys_thread (hst : Steady u.client o) (ha : Attempt u acks o stage)
    (h : ∀ (c : ℕ) (x : Context Transcript), o.contexts[c]? = some x → ∃ a ∈ acks, a.key = x.key)
    (hs : o.step u.client a = .next o') (c : ℕ) (x : Context Transcript)
    (hx : o'.contexts[c]? = some x) : ∃ a ∈ acks, a.key = x.key := by
  rcases context_cases (step_cases hs) hx with ⟨x₀, hx₀, hkey⟩ | ⟨t, ht, -⟩
  · obtain ⟨a, hmem, hk⟩ := h c x₀ hx₀
    exact ⟨a, hmem, hk.trans hkey⟩
  · have hown := bind_owner hst ht
    subst hown
    obtain ⟨-, -, a, hmem, hkey, -⟩ := ha.of_bind ht
    exact ⟨a, hmem, hkey⟩

end Thread

/-- **Another thread, or a call of the owner, goes on.** -/
theorem Local.thread (hcobs : u.cobs.Lawful) (hmax : 0 < u.maxFrame) {acks : List Ack}
    {p o' : State Transcript} (h : Local u acks p s) {a : Outbound.Action Transcript}
    (hp : permitted a = true) (hs : s.out.step u.client a = .next o') :
    Local u acks p { s with out := o' } where
  steady := steady_step hcobs hmax h.steady hp hs
  reader := h.reader
  stage := h.stage
  records := h.records.mono (keepsKeys_step (step_cases hs)) (fun _ he => he) (.of_eq rfl)
  attempt := attempt_thread hcobs hmax h.steady h.attempt hp hs
  follows := follows_thread hcobs hmax h.steady h.attempt h.follows hp hs
  keys := keys_thread h.steady h.attempt h.keys hs
  distinct := h.distinct
  single := single_step h.steady h.single (fun _ ht => (h.attempt.of_bind ht).2.1) (step_cases hs)

/-! ### The owner moves -/

/-- The acks that a step of the owner adds. -/
inductive Adds (u : Setup) (acks : List Ack) (s : Client) (input : Input) : List Ack → Prop
  | nothing : (∀ answer, input ≠ .answer (.ok answer)) → Adds u acks s input []
  | ack {hello : HostHello} {deadline : ℕ} {packet bytes : Bytes} {ark : ArkHello} {ack : HostAck} :
      input = .answer (.ok (ark, ack, bytes)) → s.stage = .answer hello deadline packet →
      (∀ a ∈ acks, a.key ≠ ⟨hello, ark, ack⟩) →
      fresh u.cobs bytes s.out.framer.accepted = true →
      Adds u acks s input [⟨⟨hello, ark, ack⟩, bytes, place u.client s.out⟩]

theorem adds_answers {p : Pair} {new : List Ack} (h : p.answers u input = some new) :
    Adds u p.acks p.client input new := by
  unfold Pair.answers at h
  split at h
  · split at h
    · next hstage =>
      split_ifs at h with hguard
      cases h
      exact .ack rfl hstage hguard.2.1 hguard.2.2
    · cases h
  · next hne =>
    cases h
    exact .nothing fun answer heq => hne answer.1 answer.2.1 answer.2.2 heq

section Own

variable {acks new : List Ack} {value : Value}

theorem Attempt.mono {o : State Transcript} {stage : Stage} (h : Attempt u acks o stage) :
    Attempt u (acks ++ new) o stage := by
  cases h with
  | idle hplain => exact .idle hplain
  | read hplain => exact .read hplain
  | accept hplain => exact .accept hplain
  | ending hplain => exact .ending hplain
  | reset hresets => exact .reset hresets
  | hello hpack => exact .hello hpack
  | skip hidle hopened => exact .skip hidle hopened
  | answer hidle hopened => exact .answer hidle hopened
  | ack hmem hunused hpack => exact .ack (List.mem_append_left _ hmem) hunused hpack
  | binding hmem hunused hbinding hopened =>
    exact .binding (List.mem_append_left _ hmem) hunused hbinding hopened
  | bound hidle hx hkey => exact .bound hidle hx hkey

/-- The stream and the place of the owner after a step, and that the outbound transport is used
as it should be. -/
def Fits (u : Setup) (acks : List Ack) (s' : Client) : Prop :=
  Steady u.client s'.out ∧ Attempt u acks s'.out s'.stage

theorem fits_ends {o : State Transcript} {b : Inbox} {last : Value} (hst : Steady u.client o)
    (hidle : o.threads owner = .idle last) (h : Ends o b s') : Fits u acks s' := by
  cases h with
  | calls hout hb hs' =>
    refine ⟨hout ▸ steady_calls hst hidle (fun h => (by cases h)), ?_⟩
    rw [hs', hout]
    exact .ending (by rw [threads_calls]; rfl)
  | closed hout hb hs' =>
    refine ⟨hout ▸ hst, ?_⟩
    rw [hs', hout]
    exact .idle (by rw [hidle]; rfl)

/-- The packet of a call that returned `Ok` is the last frame. -/
theorem opened_of_packing {cfg : Config Transcript} {o : State Transcript}
    {P : List (Frame UInt8) → Prop} {packet : Bytes} (h : Packing cfg P packet o)
    (hidle : o.threads owner = .idle (.sent (.ok ()))) : Opened cfg P packet o := by
  cases h with
  | sends hpc => rw [hidle] at hpc; cases hpc
  | sent hpc hopened => exact hopened
  | lost hpc => rw [hidle] at hpc; cases hpc

/-- After the reset the HostHello is the owner's next packet. -/
theorem fits_hellos {hello : HostHello} {bytes : Bytes} {deadline : ℕ}
    (hst : Steady u.client s.out) (hpc : s.out.threads owner = .idle (.sent (.ok ())))
    (ha : Attempt u acks s.out (.reset hello bytes deadline))
    (hs' : s'.stage = .hello hello deadline)
    (hout : s'.out = calls s.out (.sendPacket bytes (some deadline))) :
    Fits u (acks ++ new) s' := by
  cases ha with
  | reset hresets =>
    obtain ⟨hsolo, hclean⟩ : Solo s.out ∧ Clean s.out := by
      cases hresets with
      | waits h => rw [hpc] at h; cases h
      | holds h => rw [hpc] at h; cases h
      | outputs h => rw [hpc] at h; cases h
      | returns h => rw [hpc] at h; cases h
      | done h hsolo hclean =>
        rw [hpc, Pc.idle.injEq] at h
        exact ⟨hsolo, hclean h.symm⟩
    refine ⟨hout ▸ steady_calls hst hpc (fun _ => hsolo.unbound), ?_⟩
    rw [hs', hout]
    have hsends :
        Sends bytes ((calls s.out (.sendPacket bytes (some deadline))).threads owner) := by
      rw [threads_calls]
      rfl
    exact .hello (.sends hsends ⟨hsolo.calm (calm_calls _ _), hclean.sane, trivial⟩)

/-- The HostAck of an answer is none of the acks before it, and follows what the stream holds. -/
theorem fits_answers {hello : HostHello} {deadline : ℕ} {packet bytes : Bytes} {ark : ArkHello}
    {ack : HostAck} (hst : Steady u.client s.out) (hidle : s.out.threads owner = .idle value)
    (ha : Attempt u acks s.out (.answer hello deadline packet))
    (hkeys : ∀ (c : ℕ) (x : Context Transcript), s.out.contexts[c]? = some x → ∃ a ∈ acks,
      a.key = x.key)
    (hadds : Adds u acks s input new) (hs : s.stage = .answer hello deadline packet)
    (hin : input = .answer (.ok (ark, ack, bytes))) (hs' : s'.stage = .ack ⟨hello, ark, ack⟩ bytes)
    (hout : s'.out = calls s.out (.sendPacket bytes (some deadline))) :
    Fits u (acks ++ new) s' := by
  cases ha with
  | answer hpc hopened =>
    refine ⟨hout ▸ steady_calls hst hidle (fun _ => hopened.solo.unbound), ?_⟩
    rw [hs', hout]
    cases hadds with
    | nothing hne => exact absurd hin (hne _)
    | ack hin' hs'' hnew hfresh =>
      rw [hin] at hin'
      cases hin'
      rw [hs] at hs''
      cases hs''
      have hmem : (⟨⟨hello, ark, ack⟩, bytes, place u.client s.out⟩ : Ack) ∈
          acks ++ [⟨⟨hello, ark, ack⟩, bytes, place u.client s.out⟩] := by simp
      refine .ack (a := ⟨⟨hello, ark, ack⟩, bytes, place u.client s.out⟩) hmem
        ((calm_calls _ _).unused fun c x hx heq => ?_) (.sends ?_ ?_)
      · obtain ⟨a, hold, hkey⟩ := hkeys c x hx
        exact hnew a hold (hkey.trans heq)
      · rw [threads_calls]
        rfl
      · exact ⟨hopened.solo.calm (calm_calls _ _), hopened.clean.sane, before_of_fresh hfresh⟩

/-- The session of a sent HostAck is bound next, under a key no context has. -/
theorem fits_binds {key : Transcript} {bytes : Bytes} (hst : Steady u.client s.out)
    (hpc : s.out.threads owner = .idle (.sent (.ok ())))
    (ha : Attempt u acks s.out (.ack key bytes)) (hs' : s'.stage = .bind key)
    (hout : s'.out = calls s.out (.bind key)) :
    Fits u (acks ++ new) s' := by
  cases ha with
  | ack hmem hunused hpack =>
    refine ⟨hout ▸ steady_calls hst hpc (fun h => (by cases h)), ?_⟩
    rw [hs', hout]
    refine .binding (List.mem_append_left _ hmem) ((calm_calls _ _).unused hunused)
      (.inl (threads_calls ..)) ?_
    have hopened := opened_of_packing hpack hpc
    exact hopened.congr (hopened.solo.calm (calm_calls _ _)) rfl

theorem fits_move (hst : Steady u.client s.out) (hidle : s.out.threads owner = .idle value)
    (ha : Attempt u acks s.out s.stage)
    (hkeys : ∀ (c : ℕ) (x : Context Transcript), s.out.contexts[c]? = some x → ∃ a ∈ acks,
      a.key = x.key)
    (hadds : Adds u acks s input new)
    (h : Move u opens s input s') : Fits u (acks ++ new) s' := by
  have hplain : plain (s.out.threads owner) = true := by
    rw [hidle]
    rfl
  cases h with
  | begins hs hs' hout hb =>
    refine ⟨hout ▸ hst, ?_⟩
    rw [hs', hout]
    exact .read hplain
  | refused hs hs' hout hb =>
    refine ⟨hout ▸ hst, ?_⟩
    rw [hs', hout]
    exact .idle hplain
  | unencoded hs he => exact fits_ends hst hidle he
  | resets hs hs' hout hb =>
    refine ⟨hout ▸ steady_calls hst hidle (fun h => (by cases h)), ?_⟩
    rw [hs', hout]
    exact .reset (.waits (threads_calls ..))
  | fails hnone hs' hout hb =>
    refine ⟨hout ▸ hst, ?_⟩
    rw [hs', hout]
    exact .idle hplain
  | hellos hs hpc hs' hout hb =>
    rw [hs] at ha
    exact fits_hellos hst hpc ha hs' hout
  | skips hs hpc hs' hout hb =>
    rw [hs] at ha
    cases ha with
    | hello hpack =>
      refine ⟨hout ▸ hst, ?_⟩
      rw [hs', hout]
      exact .skip hpc (opened_of_packing hpack hpc)
  | searches hs hread hs' hout hb =>
    rw [hs] at ha
    cases ha with
    | skip hpc hopened =>
      refine ⟨hout ▸ hst, ?_⟩
      rcases hs' with ⟨phase', hs', -⟩ | hs'
      · rw [hs', hout]
        exact .skip hpc hopened
      · rw [hs', hout]
        exact .idle hplain
  | finds hs hread hpacket hs' hout hb =>
    rw [hs] at ha
    cases ha with
    | skip hpc hopened =>
      refine ⟨hout ▸ hst, ?_⟩
      rw [hs', hout]
      exact .answer hpc hopened
  | answers hs hin hs' hout hb =>
    rw [hs] at ha
    exact fits_answers hst hidle ha hkeys hadds hs hin hs' hout
  | binds hs hpc hs' hout hb =>
    rw [hs] at ha
    exact fits_binds hst hpc ha hs' hout
  | establishes hs hpc hs' hout hb =>
    refine ⟨hout ▸ hst, ?_⟩
    rw [hs', hout]
    exact .idle hplain
  | reads hs hread hask hs' hout hb =>
    refine ⟨hout ▸ hst, ?_⟩
    rw [hs', hout]
    exact .read hplain
  | cut hs hread he => exact fits_ends hst hidle he
  | breaks hs hread hne he => exact fits_ends hst hidle he
  | refuses hs hread hf hrx hopen hs' hout hb =>
    refine ⟨hout ▸ hst, ?_⟩
    rw [hs', hout]
    exact .accept hplain
  | opens hs hread hf hrx hopen hs' hout hb =>
    refine ⟨hout ▸ hst, ?_⟩
    rw [hs', hout]
    exact .accept hplain
  | delivers hs hs' hout hb =>
    refine ⟨hout ▸ steady_received hst hidle _ _, ?_⟩
    rw [hs', hout]
    exact .idle (by rw [threads_received]; rfl)
  | drops hs hbox he =>
    exact fits_ends (steady_received hst hidle _ _) (threads_received ..) he
  | releases hs hs' hout hb =>
    refine ⟨hout ▸ hst, ?_⟩
    rw [hs', hout]
    exact .idle hplain

theorem records_ends {o p : State Transcript} {b : Inbox} (hrec : Recorded s.out p b)
    (h : Ends o b s') : Recorded s.out p s'.inbox := by
  cases h with
  | calls hout hb hs' => exact hb ▸ hrec
  | closed hout hb hs' => exact hb ▸ hrec.close

theorem records_move {p : State Transcript} (hrec : Recorded s.out p s.inbox)
    (hst : ClientStage u.maxFrame s.inbox s.stage) (ha : Attempt u acks s.out s.stage)
    (h : Move u (openedBy p) s input s') : Recorded s.out p s'.inbox := by
  cases h with
  | begins hs hs' hout hb => exact hb ▸ hrec
  | refused hs hs' hout hb => exact hb ▸ hrec
  | unencoded hs he => exact records_ends (hrec.mark (.inr ⟨_, rfl⟩)) he
  | resets hs hs' hout hb => exact hb ▸ (hrec.mark (.inr ⟨_, rfl⟩)).close
  | fails hnone hs' hout hb => exact hb ▸ hrec
  | hellos hs hpc hs' hout hb => exact hb ▸ hrec
  | skips hs hpc hs' hout hb => exact hb ▸ hrec
  | searches hs hread hs' hout hb => exact hb ▸ hrec.reader _
  | finds hs hread hpacket hs' hout hb => exact hb ▸ hrec.reader _
  | answers hs hin hs' hout hb => exact hb ▸ hrec
  | binds hs hpc hs' hout hb => exact hb ▸ hrec
  | establishes hs hpc hs' hout hb =>
    rw [hs] at ha
    cases ha with
    | binding hmem hunused hbinding hopened =>
      rcases hbinding with h | h
      · rw [hpc] at h
        cases h
      · rw [hpc] at h
        cases h
    | bound hidle hx hkey =>
      rw [hpc] at hidle
      cases hidle
      exact hb ▸ hrec.establish hx hkey
  | reads hs hread hask hs' hout hb => exact hb ▸ hrec.reader _
  | cut hs hread he => exact records_ends ((hrec.reader _).mark (.inr ⟨_, rfl⟩)) he
  | breaks hs hread hne he => exact records_ends ((hrec.reader _).mark (.inl rfl)) he
  | refuses hs hread hf hrx hopen hs' hout hb => exact hb ▸ (hrec.reader _).mark (.inl rfl)
  | @opens phase reader f packet message rx c hs hread hf hrx hopen hs' hout hb =>
    rw [hs] at hst
    have hread := hrec.reader reader
    rw [hb]
    exact hread.opened hst.1 hrx (openedBy_ok hopen)
  | delivers hs hs' hout hb =>
    rw [hs] at hst
    exact hb ▸ hrec.deliver hst.2
  | drops hs hbox he =>
    rcases hbox with rfl | ⟨rfl, -⟩
    · exact records_ends (hrec.mark (.inr ⟨_, rfl⟩)) he
    · exact records_ends hrec he
  | releases hs hs' hout hb => exact hb ▸ hrec.close

/-- **The owner moves.** -/
theorem Local.own {p : State Transcript} (h : Local u acks p s) (hadds : Adds u acks s input new)
    (hidle : s.out.threads owner = .idle value) (hmove : Move u (openedBy p) s input s') :
    Local u (acks ++ new) p s' := by
  have hcalm := calm_move hmove
  obtain ⟨hsteady, hattempt⟩ := fits_move h.steady hidle h.attempt h.keys hadds hmove
  obtain ⟨read, hread, -⟩ := takes_move h.reader h.records h.stage hmove
  refine ⟨hsteady, hread.good, stage_move h.records h.stage hmove, ?_, hattempt, fun c hb => ?_,
    fun c x hx => ?_, ?_, ?_⟩
  · exact (records_move h.records h.stage h.attempt hmove).mono hcalm.keys (fun _ he => he)
      (.of_eq rfl)
  · rw [hcalm.binding] at hb
    obtain ⟨x, a, hx, hmem, hkey, hflows⟩ := h.follows c hb
    exact ⟨x, a, by rw [hcalm.contexts]; exact hx, List.mem_append_left _ hmem, hkey,
      hflows.calm hidle hcalm⟩
  · rw [hcalm.contexts] at hx
    obtain ⟨a, hmem, hkey⟩ := h.keys c x hx
    exact ⟨a, List.mem_append_left _ hmem, hkey⟩
  · cases hadds with
    | nothing => simpa using h.distinct
    | ack hin hs hnew hfresh =>
      rw [List.map_append, List.nodup_append]
      refine ⟨h.distinct, by simp, ?_⟩
      intro k hk k' hk' heq
      obtain ⟨a, hmem, rfl⟩ := List.mem_map.mp hk
      rw [List.map_singleton, List.mem_singleton] at hk'
      exact hnew a hmem (heq.trans hk')
  · unfold Single
    rw [hcalm.contexts]
    exact h.single

end Own

/-! ### A session is not begun again -/

/-- **The client is at the session of the key**, from the sending of its HostAck to the removal of
its context. -/
inductive Pursues (s : Client) (key : Transcript) : Prop
  | ack {bytes : Bytes} : s.stage = .ack key bytes → ¬ Lost (s.out.threads owner) → Pursues s key
  | binding : s.stage = .bind key → Binding key (s.out.threads owner) → Pursues s key
  | bound {c : ℕ} {x : Context Transcript} : s.out.binding = some c →
      s.out.contexts[c]? = some x → x.key = key → Pursues s key

theorem Pursues.of_feed {key : Transcript} {bytes : Bytes}
    (h : Pursues { s with inbox := s.inbox.feed bytes } key) : Pursues s key := by
  cases h with
  | ack hstage hlost => exact .ack hstage hlost
  | binding hstage hpc => exact .binding hstage hpc
  | bound hb hx hkey => exact .bound hb hx hkey

section Pursuit

variable {acks : List Ack} {p o' : State Transcript} {key : Transcript} {seq : ℕ}

/-- What is on the stream of a session that the client is at. -/
theorem Local.course (h : Local u acks p s) (hk : Pursues s key) :
    ∃ a ∈ acks, a.key = key ∧ Course u.client a.bytes a.place key s.out := by
  cases hk with
  | ack hs hlost =>
    have hattempt := h.attempt
    rw [hs] at hattempt
    cases hattempt with
    | @ack a hmem hunused hpack =>
      cases hpack with
      | sends hpc hpend => exact ⟨a, hmem, rfl, .pending hpend⟩
      | sent hpc hopened => exact ⟨a, hmem, rfl, .opened hopened⟩
      | lost hpc => exact absurd hpc hlost
  | binding hs hpc =>
    have hattempt := h.attempt
    rw [hs] at hattempt
    cases hattempt with
    | @binding a hmem hunused hbinding hopened => exact ⟨a, hmem, rfl, .opened hopened⟩
    | bound hidle hx hkey =>
      rcases hpc with hpc | hpc
      · rw [hidle] at hpc
        cases hpc
      · rw [hidle] at hpc
        cases hpc
  | bound hb hx hkey =>
    obtain ⟨x', a, hx', hmem, hkey', hflows⟩ := h.follows _ hb
    rw [hx, Option.some.injEq] at hx'
    subst hx'
    exact ⟨a, hmem, hkey'.trans hkey, .bound hx hkey hflows⟩

/-- The client has sealed a HostAck for the session it receives in. -/
theorem Local.known (h : Local u acks p s) (hk : Holds s key seq) : ∃ a ∈ acks, a.key = key := by
  have hattempt := h.attempt
  rcases hk with hrx | ⟨-, hk⟩
  · obtain ⟨x, hx⟩ := h.records.receives _ hrx
    obtain ⟨rx, hrx', hkey, -⟩ := h.records.current x hx
    rw [hrx, Option.some.injEq] at hrx'
    subst hrx'
    obtain ⟨y, hy, hkey'⟩ := h.records.bound x (mem_sessions_of_current hx)
    obtain ⟨a, hmem, ha⟩ := h.keys _ y hy
    exact ⟨a, hmem, by rw [ha, hkey', ← hkey]⟩
  · cases hs : s.stage with
    | ack k bytes =>
      rw [hs] at hattempt hk
      cases hattempt with
      | @ack a hmem hunused hpack => exact ⟨a, hmem, hk⟩
    | bind k =>
      rw [hs] at hattempt hk
      cases hattempt with
      | @binding a hmem hunused hbinding hopened => exact ⟨a, hmem, hk⟩
      | bound hidle hx hkey =>
        obtain ⟨a, hmem, ha⟩ := h.keys _ _ hx
        exact ⟨a, hmem, by rw [ha, hkey, hk]⟩
    | _ =>
      rw [hs] at hk
      exact hk.elim

/-- Another thread, or a call of the owner, does not bring the client to a session. -/
theorem pursues_thread (h : Local u acks p s) {a : Outbound.Action Transcript}
    (hp : permitted a = true) (hs : s.out.step u.client a = .next o')
    (hk : Pursues { s with out := o' } key) : Pursues s key := by
  cases hk with
  | ack hstage hlost => exact .ack hstage fun hl => hlost (lost_step hl hp hs)
  | binding hstage hpc =>
    refine .binding hstage ?_
    have hattempt := h.attempt
    rw [show s.stage = .bind key from hstage] at hattempt
    cases hattempt with
    | binding hmem hunused hbinding hopened => exact hbinding
    | bound hidle hx hkey =>
      have hidle' := idle_step hidle hp hs
      rcases hpc with hpc | hpc
      · rw [show ({ s with out := o' } : Client).out = o' from rfl, hidle'] at hpc
        cases hpc
      · rw [show ({ s with out := o' } : Client).out = o' from rfl, hidle'] at hpc
        cases hpc
  | @bound c x hb hx hkey =>
    change o'.binding = some c at hb
    change o'.contexts[c]? = some x at hx
    rcases binding_cases (step_cases hs) with hb' | hb' | ⟨t, key', value, ht, rfl⟩
    · rw [hb'] at hb
      obtain ⟨y, a, hy, -⟩ := h.follows c hb
      obtain ⟨y', hy', hkey'⟩ := keepsKeys_step (step_cases hs) _ _ hy
      rw [hx, Option.some.injEq] at hy'
      subst hy'
      exact .bound hb hy (hkey'.symm.trans hkey)
    · rw [hb'] at hb
      cases hb
    · have hown := bind_owner h.steady ht
      subst hown
      obtain ⟨hstage, -⟩ := h.attempt.of_bind ht
      have hc : c = s.out.contexts.length := by
        have hlast : some s.out.contexts.length = some c := hb
        cases hlast
        rfl
      subst hc
      have hx' := (List.getElem?_concat_length (l := s.out.contexts)).symm.trans hx
      cases hx'
      subst hkey
      exact .binding hstage (.inr ht)

/-- A context is bound where its session is pursued. -/
theorem binds_thread (h : Local u acks p s) {a : Outbound.Action Transcript}
    (hs : s.out.step u.client a = .next o') {c : ℕ} {x' : Context Transcript}
    (hx : o'.contexts[c]? = some x') :
    (∃ x, s.out.contexts[c]? = some x ∧ x.key = x'.key) ∨ Pursues s x'.key := by
  rcases context_cases (step_cases hs) hx with hold | ⟨t, ht, -⟩
  · exact .inl hold
  · have hown := bind_owner h.steady ht
    subst hown
    exact .inr (.binding (h.attempt.of_bind ht).1 (.inr ht))

/-- The owner comes to a session only where it answers an ArkHello. -/
theorem pursues_move (h : Move u opens s input s') (hk : Pursues s' key) :
    Pursues s key ∨ Starts s input key := by
  have hans : Answered key s'.stage → Pursues s key ∨ Starts s input key := by
    intro hans
    rcases answered_move h hans with hstarts | ⟨bytes, hs, hpc⟩
    · exact .inr hstarts
    · refine .inl (.ack hs fun hlost => ?_)
      rw [hpc] at hlost
      exact hlost
  cases hk with
  | ack hstage hlost => exact hans (by rw [hstage]; rfl)
  | binding hstage hpc => exact hans (by rw [hstage]; rfl)
  | bound hb hx hkey =>
    have hcalm := calm_move h
    rw [hcalm.binding] at hb
    rw [hcalm.contexts] at hx
    exact .inl (.bound hb hx hkey)

end Pursuit

/-! ### The server goes on -/

/-- The peer's outbound transport goes on, and bytes arrive. -/
theorem Local.feed {acks : List Ack} {p p' : State Transcript} (h : Local u acks p s)
    (hlog : p.log ⊆ p'.log) (hkeys : KeepsKeys p p') (bytes : Bytes) :
    Local u acks p' { s with inbox := s.inbox.feed bytes } where
  steady := h.steady
  reader := ⟨h.reader.length, h.reader.offset_le, h.reader.search_le, h.reader.filled_le,
    h.reader.searched, h.reader.offers⟩
  stage := Integrity.clientStage_feed bytes h.stage
  records := (h.records.mono (.of_eq rfl) hlog hkeys).feed bytes
  attempt := h.attempt
  follows := h.follows
  keys := h.keys
  distinct := h.distinct
  single := h.single

end ArkWire.Transport.ClientCourse
