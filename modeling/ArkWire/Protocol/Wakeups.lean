import ArkWire.Protocol.Steps
import ArkWire.Lib.Monitors

/-! # The condition variable of a session

`changed` is the one condition variable of a session. Three threads wait on it: `recv`, the writer
in `next_outgoing` and the deadline worker in `run_deadlines`. All of them wait for the same lock,
and each parks only at the end of a section of its own.

`session` is the session of `System` with these waits: `notifies` says which sections a `notify_all`
follows, and `parks` how a section of a waiter ends. -/

namespace ArkWire.Protocol.Wakeups

open ArkWire.Lib.Machines ArkWire.Lib.Monitors
open ArkWire.Transport.Errors ArkWire.Protocol.Errors ArkWire.Protocol.Envelope
open ArkWire.Protocol.Promise ArkWire.Protocol.Operation ArkWire.Protocol.Session
open ArkWire.Protocol.System ArkWire.Protocol.Sections ArkWire.Protocol.Steps

variable {M : Type}

/-! ### Waits and notifications -/

inductive Waiter where
  | recv
  | writer
  | deadlines
  deriving DecidableEq

inductive Section (M : Type) where
  | sys (a : System.Action M)
  /-- A pass of the loop of `recv`. -/
  | recv
  /-- A pass of the loop of `next_outgoing`. -/
  | pickup (now : ℕ)
  /-- A pass of the loop of `run_deadlines`. -/
  | watch (now : ℕ)

/-- `enqueue` has queued the message. -/
def queues (s : Sys M) (deadline now : ℕ) : Bool :=
  match s.session.state with
  | .opened _ => now < deadline
  | .closed _ => false

/-- Whether a `notify_all` follows: `enqueue` and `handle_message` skip it on their early returns,
`set_inbound_limits` where it closes nothing. -/
def notifies (codec : Codec M) (s : Sys M) : Section M → Bool
  | .sys (.request _ deadline now) => queues s deadline now
  | .sys (.respond _ _ deadline now) => queues s deadline now
  | .sys (.autoreplyQueue i now) =>
    match s.autoreplies[i]? with
    | some ⟨_, _, some deadline⟩ => queues s deadline now
    | _ => false
  | .sys (.message bytes now) =>
    match s.session.handleMessage codec bytes now with
    | .ok (_, .ok _) => true
    | _ => false
  | .sys (.lost _ _) => true
  | .sys (.close _) => true
  | .sys (.closeOwed _ _) => true
  | .sys (.fail _) => true
  | .sys (.setInboundLimits requests bytes now) =>
    (s.session.setInboundLimits requests bytes now).2.isSome
  | _ => false

/-- The earliest deadline of the pending operations. -/
def minDeadline (operations : Operations) : Option ℕ :=
  (operations.entries.map fun e => e.2.deadline).min?

/-- How a section of a waiter ends. The timer is that of `wait_deadline`. -/
def parks (s : Sys M) : Section M → Option (Option ℕ)
  | .sys _ => none
  | .recv =>
    match s.session.state with
    | .closed _ => none
    | .opened o => if o.incoming = [] then some none else none
  | .pickup now =>
    match s.session.nextOutgoing now with
    | .ok (_, .wait) => some none
    | _ => none
  | .watch now =>
    let s' := s.session.expire now
    if s'.shared.callbacks ≠ s.session.shared.callbacks then none
    else
      match s'.state with
      | .closed _ => none
      | .opened o => some (minDeadline o.operations)

/-- The waiter a section belongs to. -/
def waiter : Section M → Option Waiter
  | .sys .decode => some .recv
  | .sys (.send _ _) => some .writer
  | .sys .withdraw => some .writer
  | .sys (.report _) => some .writer
  | .sys (.fail _) => some .writer
  | .sys _ => none
  | .recv => some .recv
  | .pickup _ => some .writer
  | .watch _ => some .deadlines

/-- A section. A pass of `recv` that takes nothing returns an error or parks. -/
def step (codec : Codec M) (s : Sys M) : Section M → Outcome Panic (Sys M)
  | .sys .recv => .blocked
  | .sys (.pickup _) => .blocked
  | .sys a => s.step codec a
  | .recv =>
    if s.receiving.isSome then .blocked
    else
      match s.session.takeIncoming with
      | none => .next s
      | some _ => s.step codec .recv
  | .pickup now => s.step codec (.pickup now)
  | .watch now => s.step codec (.expire now)

/-- **A session and its condition variable.** -/
def session (codec : Codec M) (side : Side) :
    Monitor (Sys M) (Section M) Panic Waiter (Option ℕ) where
  init := .new side
  step := step codec
  waiter := waiter
  notifies := notifies codec
  parks := parks

/-- A waiter may sleep. -/
def Sleeps (s : Sys M) : Waiter → Option ℕ → Prop
  | .recv, _ => ∃ o, s.session.state = .opened o ∧ o.incoming = []
  | .writer, _ => ∃ o, s.session.state = .opened o ∧ o.outgoing = []
  | .deadlines, none => ∃ o, s.session.state = .opened o ∧ ∀ key, o.operations.lookup key = none
  | .deadlines, some d => ∃ o, s.session.state = .opened o ∧
      ∀ key operation, o.operations.lookup key = some operation → d ≤ operation.deadline

/-! ### Sections without a notification -/

/-- **The session stays open, and nothing comes in to wait for.** -/
def Calm (s s' : SessionInner M) : Prop :=
  ∀ o, s.state = .opened o → ∃ o', s'.state = .opened o' ∧ o'.incoming ⊆ o.incoming ∧
    o'.outgoing ⊆ o.outgoing ∧ ∀ key operation, o'.operations.lookup key = some operation →
      o.operations.lookup key = some operation

namespace Calm

variable {s s' s'' : SessionInner M}

theorem of_state (h : s'.state = s.state) : Calm s s' :=
  fun o ho => ⟨o, h.trans ho, List.Subset.refl _, List.Subset.refl _, fun _ _ hl => hl⟩

theorem trans (h : Calm s s') (h' : Calm s' s'') : Calm s s'' := by
  intro o ho
  obtain ⟨o', ho', hi, hq, hl⟩ := h o ho
  obtain ⟨o'', ho'', hi', hq', hl'⟩ := h' o' ho'
  exact ⟨o'', ho'', fun _ hm => hi (hi' hm), fun _ hm => hq (hq' hm),
    fun key operation hk => hl _ _ (hl' _ _ hk)⟩

/-- An open session changes. -/
theorem of_opened {o o' : OpenState M} (ho : s.state = .opened o) (ho' : s'.state = .opened o')
    (hi : o'.incoming ⊆ o.incoming) (hq : o'.outgoing ⊆ o.outgoing)
    (hl : ∀ key operation, o'.operations.lookup key = some operation →
      o.operations.lookup key = some operation) : Calm s s' := by
  intro o₁ ho₁
  rw [ho] at ho₁
  cases ho₁
  exact ⟨o', ho', hi, hq, hl⟩

theorem of_closed {e : Error} (h : s.state = .closed e) : Calm s s' := by
  intro o ho
  rw [h] at ho
  cases ho

theorem expire (now : ℕ) : Calm s (s.expire now) := by
  have hc := expire_cases s now
  generalize s.expire now = r at hc ⊢
  cases hc with
  | closed hs => exact of_closed hs
  | expired hs =>
    refine of_opened hs rfl (List.Subset.refl _) (List.filter_subset_self _) fun key op hl => ?_
    dsimp only at hl
    rw [failAll_expired_lookup] at hl
    exact Option.eq_some_of_filter_eq_some hl

theorem takeIncoming {taken : ℕ × IncomingEnvelope} (hs' : s.takeIncoming = some (s', taken)) :
    Calm s s' := by
  obtain ⟨o, rest, ho, hi, rfl⟩ := takeIncoming_cases hs'
  refine of_opened ho rfl ?_ (List.Subset.refl _) fun _ _ hl => hl
  rw [hi]
  exact List.subset_cons_self _ _

/-- A submission that queues nothing. -/
theorem submit {body : OutgoingBody M} {deadline now : ℕ}
    (hs' : s.submit body deadline now = .ok s') (hd : deadline ≤ now) : Calm s s' := by
  cases submit_cases hs' with
  | late ho _ => exact of_opened ho rfl (List.Subset.refl _) (List.Subset.refl _) fun _ _ hl => hl
  | queued _ hlt => omega

/-- A refused message. -/
theorem handleMessage {codec : Codec M} {bytes : Bytes} {now : ℕ} {error : Error}
    (hs' : s.handleMessage codec bytes now = .ok (s', .error error)) : Calm s s' := by
  generalize hr : (Except.error error : Except Error (Option ℕ)) = result at hs'
  cases handleMessage_cases hs' with
  | unknown => cases hr
  | admitted => cases hr
  | late => cases hr
  | completed _ _ ho =>
    refine of_opened ho rfl (List.Subset.refl _) (List.Subset.refl _) fun key op hl => ?_
    dsimp only at hl
    rw [lookup_erase_eq] at hl
    split_ifs at hl
    exact hl
  | _ => exact of_state rfl

theorem nextOutgoing {now : ℕ} {pickup : SessionInner.Pickup M}
    (hs' : s.nextOutgoing now = .ok (s', pickup)) : Calm s s' := by
  have he : Calm s (s.expire now) := expire now
  cases nextOutgoing_cases hs' with
  | request ho hq =>
    refine he.trans (of_opened ho rfl (List.Subset.refl _) ?_ fun _ _ hl => hl)
    rw [hq]
    exact List.subset_cons_self _ _
  | reply ho hq =>
    refine he.trans (of_opened ho rfl (List.Subset.refl _) ?_ fun _ _ hl => hl)
    rw [hq]
    exact List.subset_cons_self _ _
  | _ => exact he

theorem withdraw (id : ℕ) : Calm s (s.withdraw id) := by
  rcases withdraw_cases s id with ⟨e, hs, he⟩ | ⟨o, ho, he⟩
  · exact of_closed hs
  · rw [he]
    exact of_opened ho rfl (List.Subset.refl _) (List.Subset.refl _) fun _ _ hl => hl

theorem recordWrite (key : ℕ) (result : Except Error Unit) (now : ℕ) :
    Calm s (s.recordWrite key result now) := by
  have herase : ∀ {operations : Operations} (k : ℕ) (op : PendingOperation),
      (operations.erase key).lookup k = some op → operations.lookup k = some op := by
    intro operations k op hl
    rw [lookup_erase_eq] at hl
    split_ifs at hl
    exact hl
  have hc := recordWrite_cases s key result now
  generalize s.recordWrite key result now = r at hc ⊢
  cases hc with
  | kept => exact of_state rfl
  | failed ho => exact of_opened ho rfl (List.Subset.refl _) (List.Subset.refl _) herase
  | written ho => exact of_opened ho rfl (List.Subset.refl _) (List.Subset.refl _) herase

theorem setAutoreplyTimeout (timeout : ℕ) : Calm s (s.setAutoreplyTimeout timeout) := by
  rcases setAutoreplyTimeout_cases s timeout with ⟨e, hs, he⟩ | ⟨o, ho, he⟩
  · exact of_closed hs
  · rw [he]
    exact of_opened ho rfl (List.Subset.refl _) (List.Subset.refl _) fun _ _ hl => hl

/-- Limits that close nothing. -/
theorem setInboundLimits {requests bytes now : ℕ}
    (h : (s.setInboundLimits requests bytes now).2.isSome = false) :
    Calm s (s.setInboundLimits requests bytes now).1 := by
  have hc := setInboundLimits_cases s requests bytes now
  generalize s.setInboundLimits requests bytes now = r at hc h ⊢
  cases hc with
  | closed hs => exact of_closed hs
  | exceeded ho => cases h
  | limited ho => exact of_opened ho rfl (List.Subset.refl _) (List.Subset.refl _) fun _ _ hl => hl

end Calm

section Quiet

variable {codec : Codec M} {s s' : Sys M}

theorem readResult_state {c : ℕ} {response : Bool} {result : Except Error PromiseResult}
    (h : s.readResult codec c response result = .next s') :
    s'.session.state = s.session.state := by
  unfold Sys.readResult at h
  dsimp only at h
  split at h
  · cases h; rfl
  · split at h
    · split at h <;> cases h <;> rfl
    · cases h
  · split at h
    · cases h
    · cases h; rfl

/-- Promises are outside the lock of the session. -/
theorem promiseStep_state {a : System.Action M} (h : s.promiseStep codec a = .next s') :
    s'.session.state = s.session.state := by
  cases a with
  | notify c callback =>
    simp only [Sys.promiseStep] at h
    split at h
    · split at h
      · cases h
      · split at h <;> cases h <;> rfl
    · cases h
  | wait c =>
    simp only [Sys.promiseStep] at h
    split at h
    · split at h
      · cases h; rfl
      · split at h
        · cases h
        · split at h <;> cases h
    · cases h
  | read c =>
    simp only [Sys.promiseStep] at h
    split at h
    · split at h
      · exact readResult_state h
      · cases h
    · cases h
  | callback =>
    simp only [Sys.promiseStep] at h
    split at h <;> cases h
    rfl
  | dropPromise c =>
    simp only [Sys.promiseStep] at h
    split at h <;> cases h
    rfl
  | dropReceiver c =>
    simp only [Sys.promiseStep] at h
    split at h
    · cases h; rfl
    · cases h
  | _ => simp [Sys.promiseStep] at h

theorem decodeRequest_state (id : ℕ) (message : IncomingEnvelope) :
    (s.decodeRequest codec id message).session.state = s.session.state := by
  unfold Sys.decodeRequest
  dsimp only
  split <;> rfl

/-- A submission that notifies nobody has come too late. -/
theorem calm_submit {body : OutgoingBody M} {deadline now : ℕ} {session : SessionInner M}
    (h : s.session.submit body deadline now = .ok session) (hn : queues s deadline now = false) :
    Calm s.session session := by
  refine Calm.submit h ?_
  cases hs : s.session.state with
  | closed e =>
    cases submit_cases h with
    | late ho _ =>
      rw [hs] at ho
      cases ho
    | queued ho _ =>
      rw [hs] at ho
      cases ho
  | opened o =>
    simp only [queues, hs, decide_eq_false_iff_not, not_lt] at hn
    exact hn

theorem calm_submitStep {a : System.Action M} (h : s.submitStep codec a = .next s')
    (hn : notifies codec s (.sys a) = false) : Calm s.session s'.session := by
  cases a with
  | request message deadline now =>
    simp only [Sys.submitStep] at h
    split at h
    · cases h; exact .of_state rfl
    · next session hs => cases h; exact calm_submit hs hn
  | respond id result deadline now =>
    simp only [Sys.submitStep] at h
    split at h
    · split at h
      · cases h; exact .of_state rfl
      · next session hs => cases h; exact (calm_submit (s := s) hs hn).trans (.of_state rfl)
    · cases h
  | dropResponder id =>
    simp only [Sys.submitStep] at h
    split at h <;> cases h
    exact .of_state rfl
  | recv =>
    simp only [Sys.submitStep] at h
    split at h
    · cases h
    · split at h
      · cases h
      · next session taken hs => cases h; exact .takeIncoming hs
  | decode =>
    simp only [Sys.submitStep] at h
    split at h
    · cases h
    · cases h; exact .of_state (decodeRequest_state _ _)
  | autoreplyTimeout i now =>
    simp only [Sys.submitStep] at h
    split at h
    · split at h <;> cases h <;> exact .of_state rfl
    · cases h
  | autoreplyQueue i now =>
    simp only [Sys.submitStep] at h
    split at h
    · next id error deadline ha =>
      cases h
      simp only [notifies, ha] at hn
      simp only [Sys.queueAutoreply]
      split
      · exact .of_state rfl
      · next session hs => exact (calm_submit (s := s) hs hn).trans (.of_state rfl)
    · cases h
  | _ => simp [Sys.submitStep] at h

theorem calm_readerStep {a : System.Action M} (h : s.readerStep codec a = .next s')
    (hn : notifies codec s (.sys a) = false) : Calm s.session s'.session := by
  cases a with
  | message bytes now =>
    simp only [Sys.readerStep] at h
    split at h
    · cases h
    · next session error hm => cases h; exact .handleMessage hm
    · next session hm => simp only [notifies, hm] at hn; cases hn
    · next session id hm => simp only [notifies, hm] at hn; cases hn
  | discard =>
    simp only [Sys.readerStep] at h
    split at h
    · cases h
    · cases h; exact .of_state rfl
  | setInboundLimits requests bytes now =>
    cases h
    exact .setInboundLimits hn
  | setAutoreplyTimeout timeout =>
    cases h
    exact .setAutoreplyTimeout timeout
  | expire now =>
    cases h
    exact .expire now
  | lost error now => cases hn
  | close now => cases hn
  | closeOwed i now => cases hn
  | _ => simp [Sys.readerStep] at h

theorem calm_writerStep {a : System.Action M} (h : s.writerStep codec a = .next s')
    (hn : notifies codec s (.sys a) = false) : Calm s.session s'.session := by
  cases a with
  | pickup now =>
    simp only [Sys.writerStep] at h
    split at h
    · split at h
      · cases h
      all_goals
        next hp => cases h; exact .nextOutgoing hp
    · cases h
  | send result delivered =>
    simp only [Sys.writerStep] at h
    split at h
    · split at h
      · cases h; exact .of_state rfl
      · split at h <;> cases h <;> exact .of_state rfl
    · cases h
  | withdraw =>
    simp only [Sys.writerStep] at h
    split at h
    · next id message error hw =>
      cases h
      dsimp only [Sys.withSession]
      split_ifs
      · exact .withdraw id
      · exact .of_state rfl
    · cases h
  | report now =>
    simp only [Sys.writerStep] at h
    split at h
    · cases h; exact .recordWrite _ _ _
    · cases h
  | fail now => cases hn
  | _ => simp [Sys.writerStep] at h

theorem calm_sys {a : System.Action M} (h : s.step codec a = .next s')
    (hn : notifies codec s (.sys a) = false) : Calm s.session s'.session := by
  unfold Sys.step at h
  split at h
  iterate 7 exact calm_submitStep h hn
  iterate 8 exact calm_readerStep h hn
  iterate 5 exact calm_writerStep h hn
  all_goals exact .of_state (promiseStep_state h)

/-- **A section without a notification is calm.** -/
theorem calm_step {a : Section M} (h : step codec s a = .next s')
    (hn : notifies codec s a = false) : Calm s.session s'.session := by
  cases a with
  | sys a =>
    unfold step at h
    split at h
    · cases h
    · cases h
    · next heq => cases heq; exact calm_sys h hn
    all_goals next heq => cases heq
  | recv =>
    simp only [step] at h
    split at h
    · cases h
    · split at h
      · cases h; exact .of_state rfl
      · exact calm_sys (a := .recv) h rfl
  | pickup now =>
    simp only [step] at h
    exact calm_sys h rfl
  | watch now =>
    cases h
    exact .expire now

end Quiet

/-! ### Waiters that sleep -/

theorem sleeps_calm {s s' : Sys M} {w : Waiter} {timer : Option ℕ}
    (hc : Calm s.session s'.session) (h : Sleeps s w timer) : Sleeps s' w timer := by
  cases w with
  | recv =>
    obtain ⟨o, ho, hi⟩ := h
    obtain ⟨o', ho', hi', _, _⟩ := hc o ho
    rw [hi] at hi'
    exact ⟨o', ho', List.subset_nil.mp hi'⟩
  | writer =>
    obtain ⟨o, ho, hq⟩ := h
    obtain ⟨o', ho', _, hq', _⟩ := hc o ho
    rw [hq] at hq'
    exact ⟨o', ho', List.subset_nil.mp hq'⟩
  | deadlines =>
    cases timer with
    | none =>
      obtain ⟨o, ho, hl⟩ := h
      obtain ⟨o', ho', _, _, hl'⟩ := hc o ho
      refine ⟨o', ho', fun key => ?_⟩
      rw [Option.eq_none_iff_forall_ne_some]
      intro operation hk
      have hold := hl' key operation hk
      rw [hl key] at hold
      cases hold
    | some d =>
      obtain ⟨o, ho, hl⟩ := h
      obtain ⟨o', ho', _, _, hl'⟩ := hc o ho
      exact ⟨o', ho', fun key operation hk => hl key operation (hl' key operation hk)⟩

theorem nextOutgoing_wait {s s' : SessionInner M} {now : ℕ}
    (h : s.nextOutgoing now = .ok (s', .wait)) :
    ∃ o, s'.state = .opened o ∧ o.outgoing = [] := by
  unfold SessionInner.nextOutgoing at h
  dsimp only at h
  split_ifs at h
  · cases h
  · split at h
    · cases h
    · next o ho =>
      split at h
      · next hq => cases h; exact ⟨o, ho, hq⟩
      · split at h
        · split at h <;> cases h
        · cases h

theorem minDeadline_none {operations : Operations} (h : minDeadline operations = none) (key : ℕ) :
    operations.lookup key = none := by
  have hnil : operations.entries = [] := by
    rw [minDeadline, List.min?_eq_none_iff, List.map_eq_nil_iff] at h
    exact h
  rw [Option.eq_none_iff_forall_ne_some]
  intro operation hl
  have hm := AList.mem_lookup_iff.mp hl
  rw [hnil] at hm
  cases hm

theorem minDeadline_le {operations : Operations} {d : ℕ} (h : minDeadline operations = some d)
    {key : ℕ} {operation : PendingOperation} (hl : operations.lookup key = some operation) :
    d ≤ operation.deadline := by
  rw [minDeadline, List.min?_eq_some_iff] at h
  have hm := AList.mem_lookup_iff.mp hl
  exact h.2 _ (List.mem_map.mpr ⟨_, hm, rfl⟩)

/-- **A waiter parks only where it may sleep.** -/
theorem sleeps_parks {codec : Codec M} {s s' : Sys M} {a : Section M} {w : Waiter}
    {timer : Option ℕ} (h : step codec s a = .next s') (hw : waiter a = some w)
    (hp : parks s a = some timer) : Sleeps s' w timer := by
  cases a with
  | sys a => cases hp
  | recv =>
    cases hw
    simp only [parks] at hp
    split at hp
    · cases hp
    · next o ho =>
      split_ifs at hp with hi
      have htake : s.session.takeIncoming = none := by
        simp only [SessionInner.takeIncoming, ho, hi]
      simp only [step, htake] at h
      split_ifs at h
      cases h
      exact ⟨o, ho, hi⟩
  | pickup now =>
    cases hw
    simp only [parks] at hp
    split at hp
    · next session hn =>
      simp only [step, Sys.step, Sys.writerStep, hn] at h
      split at h
      · cases h; exact nextOutgoing_wait hn
      · cases h
    · cases hp
  | watch now =>
    cases hw
    cases h
    simp only [parks] at hp
    split_ifs at hp
    split at hp
    · cases hp
    · next o ho =>
      cases hp
      cases hm : minDeadline o.operations with
      | none => exact ⟨o, ho, minDeadline_none hm⟩
      | some d => exact ⟨o, ho, fun _ _ hl => minDeadline_le hm hl⟩

/-- **No lost wakeup.** While no `notify_all` is owed, a parked waiter of a session has nothing to
do: the session is open, with no request queued for `recv`, no message queued for the writer, and no
operation pending before the time the deadline worker sleeps to. -/
theorem wakeups (codec : Codec M) (side : Side) {x : Watched (Sys M) Waiter (Option ℕ)}
    (h : (session codec side).machine.Reachable x) (howed : x.owed = 0) {w : Waiter}
    {timer : Option ℕ} (hw : x.sleep w = .parked timer) : Sleeps x.state w timer := by
  refine (session codec side).no_lost_wakeup (I := fun _ => True)
    (P := fun w timer s => Sleeps s w timer) trivial (fun _ _ _ _ _ => trivial) ?_ ?_ h howed hw
  · intro s a s' w timer _ hstep hactor hparks _
    exact sleeps_parks hstep hactor hparks
  · intro s a s' w timer _ hstep hn hs
    exact sleeps_calm (calm_step hstep hn) hs

/-- The worker sleeps to the deadline of one request and is woken for the earlier one of the next.
-/
theorem wakeups_earlierDeadline :
    ∃ x : Watched (Sys UInt8) Waiter (Option ℕ), (session tinyCodec .client).machine.Reachable x ∧
      x.owed = 0 ∧ x.sleep .deadlines = .parked (some 5) ∧ x.sleep .recv = .parked none ∧
      Sleeps x.state .deadlines (some 5) ∧ Sleeps x.state .recv none := by
  have hrun : ∃ x, (session tinyCodec .client).machine.run
      [.act (.watch 0), .act .recv, .act (.pickup 0), .act (.sys (.request 7 10 0)), .notify,
        .act (.watch 1), .act (.sys (.request 8 5 1)), .notify, .act (.watch 2), .act .recv]
      (session tinyCodec .client).machine.init = some x ∧ x.owed = 0 ∧
      x.sleep .deadlines = .parked (some 5) ∧ x.sleep .recv = .parked none :=
    ⟨_, rfl, rfl, rfl, rfl⟩
  obtain ⟨x, hx, howed, hd, hr⟩ := hrun
  have hreach := Machine.reachable_of_run hx
  exact ⟨x, hreach, howed, hd, hr, wakeups _ _ hreach howed hd, wakeups _ _ hreach howed hr⟩

end ArkWire.Protocol.Wakeups
