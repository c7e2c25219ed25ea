import ArkWire.Lib.Histories
import ArkWire.Transport.OutboundSteps

/-! # Session isolation at the output

The log of an outbound transport obeys a rule: a context is bound once, only the current binding is
removed, written to or received from, and a notification follows the removal it is for with nothing
written and no binding changed in between. From it: whatever old handles do and whenever their
threads go on, a session that has ended stays ended and silent. -/

namespace ArkWire.Transport.Isolation

open ArkWire.Lib.Machines ArkWire.Lib.Locks ArkWire.Lib.Histories
open ArkWire.Transport.Errors ArkWire.Transport.FrameReader ArkWire.Transport.FrameWriter
open ArkWire.Transport.Outbound ArkWire.Transport.OutboundSteps

variable {K : Type} {cfg : Config K} {s s' : State K} {log : List Event}

/-! ### The rule -/

/-- The binding after an event. -/
def after (binding : Option ℕ) : Event → Option ℕ
  | .bound c => some c
  | .removed _ _ => none
  | _ => binding

/-- The binding after a history. -/
def current (log : List Event) : Option ℕ := log.foldl after none

/-- Events of threads that do not hold the writer lock. -/
def quiet : Event → Bool
  | .sealed _ _ => true
  | .oversized _ => true
  | .received _ _ => true
  | _ => false

/-- A session ended by a failed send or a disconnect, and not notified yet. -/
def Owed (c : ℕ) (log : List Event) : Prop :=
  ∃ pre cause mid, log = pre ++ .removed c cause :: mid ∧
    (cause = .failed ∨ cause = .disconnected) ∧ ∀ e ∈ mid, quiet e = true

/-- **When an event may follow.** -/
def Allowed (log : List Event) : Event → Prop
  | .bound c => .bound c ∉ log
  | .removed c _ => current log = some c
  | .wrote (.packet p) _ => current log = some p.context
  | .wrote (.notification (some c) _) _ => Owed c log
  | .received c accepted => accepted = true → current log = some c
  | _ => True

@[simp] theorem current_append (log : List Event) (e : Event) :
    current (log ++ [e]) = after (current log) e := by
  rw [current, List.foldl_append]
  rfl

theorem bound_of_current : ∀ {log : List Event} {c : ℕ}, current log = some c → .bound c ∈ log := by
  intro log
  induction log using List.reverseRecOn with
  | nil => rintro c ⟨⟩
  | append_singleton log e ih =>
    intro c h
    rw [current_append] at h
    rw [List.mem_append]
    cases e with
    | bound c' =>
      cases h
      exact .inr (by simp)
    | removed c' cause => cases h
    | _ => exact .inl (ih h)

theorem current_of_quiet {mid : List Event} (h : ∀ e ∈ mid, quiet e = true) (log : List Event) :
    current (log ++ mid) = current log := by
  induction mid using List.reverseRecOn with
  | nil => rw [List.append_nil]
  | append_singleton mid e ih =>
    rw [← List.append_assoc, current_append, ih fun e he => h e (by simp [he])]
    have hq := h e (by simp)
    cases e with
    | bound c => cases hq
    | removed c cause => cases hq
    | _ => rfl

/-- **A removed binding never comes back.** -/
theorem current_ne_of_removed {c : ℕ} {cause : Cause} : ∀ {log : List Event}, Legal Allowed log →
    .removed c cause ∈ log → current log ≠ some c := by
  intro log
  induction log using List.reverseRecOn with
  | nil =>
    intro _ h
    cases h
  | append_singleton log e ih =>
    intro hl h
    have hrule := hl log e [] rfl
    rw [current_append]
    rcases List.mem_append.mp h with h | h
    · have hne := ih hl.of_append h
      obtain ⟨pre, post, hsplit, hcur⟩ := hl.of_append.of_mem h
      have hbound : Event.bound c ∈ log := by
        rw [hsplit, List.mem_append]
        exact .inl (bound_of_current hcur)
      cases e with
      | bound c' =>
        intro heq
        rw [after, Option.some.injEq] at heq
        rw [heq] at hrule
        exact hrule hbound
      | removed c' cause' => simp [after]
      | _ => exact hne
    · rw [← List.mem_singleton.mp h]
      simp [after]

theorem Owed.quiet {c : ℕ} (h : Owed c log) {e : Event} (he : quiet e = true) :
    Owed c (log ++ [e]) := by
  obtain ⟨pre, cause, mid, rfl, hcause, hmid⟩ := h
  refine ⟨pre, cause, mid ++ [e], by simp, hcause, ?_⟩
  rw [List.forall_mem_append]
  exact ⟨hmid, by simpa using he⟩

/-! ### The invariant -/

/-- What a thread about to write relies on. -/
def Ready (s : State K) : Pc K → Prop
  | .output (.packet p) _ => s.binding = some p.context
  | .output (.notification (some c) _) _ => Owed c s.log
  | _ => True

structure Isolated (s : State K) : Prop where
  current : current s.log = s.binding
  known : ∀ c, .bound c ∈ s.log → c < s.contexts.length
  legal : Legal Allowed s.log
  ready : ∀ t, Ready s (s.threads t)

theorem ready_of_free {pc : Pc K} (h : holdsWriter pc = false) : Ready s pc := by
  cases pc with
  | output job limit => cases h
  | _ => trivial

theorem ready_of_session {job : Job} (h : session job = none) (limit : Option ℕ) :
    Ready s (.output job limit) := by
  cases job with
  | packet p => simp [session] at h
  | notification c error =>
    cases c with
    | some c => simp [session] at h
    | none => trivial
  | _ => trivial

theorem isolated_init (framer : Writer) : Isolated ({ framer } : State K) :=
  ⟨rfl, fun c h => (by cases h), .nil, fun _ => trivial⟩

namespace Isolated

variable {t : ℕ} {pc : Pc K}

/-- A step without an event that keeps the binding. -/
theorem move (h : Isolated s) (hl : s'.log = s.log) (hb : s'.binding = s.binding)
    (hc : s'.contexts.length = s.contexts.length) (ht : s'.threads = Function.update s.threads t pc)
    (hpc : Ready s' pc) : Isolated s' := by
  refine ⟨by rw [hl, hb]; exact h.current, by rw [hl, hc]; exact h.known, by rw [hl]; exact h.legal,
    fun u => ?_⟩
  rw [ht]
  by_cases hu : u = t
  · rw [hu, Function.update_self]
    exact hpc
  · rw [Function.update_of_ne hu]
    have hready := h.ready u
    unfold Ready at hready ⊢
    rw [hl, hb]
    exact hready

/-- A step of a thread that does not hold the writer lock, with an event. -/
theorem quietly (h : Isolated s) {e : Event} (hl : s'.log = s.log ++ [e])
    (hq : quiet e = true) (ha : Allowed s.log e) (hb : s'.binding = s.binding)
    (hc : s'.contexts.length = s.contexts.length) (ht : s'.threads = Function.update s.threads t pc)
    (hpc : holdsWriter pc = false) : Isolated s' := by
  refine ⟨?_, ?_, ?_, fun u => ?_⟩
  · have hmid : ∀ e' ∈ [e], quiet e' = true := by simpa using hq
    rw [hl, hb, current_of_quiet hmid, h.current]
  · intro c hbound
    rw [hl, List.mem_append] at hbound
    rw [hc]
    rcases hbound with hbound | hbound
    · exact h.known c hbound
    · rw [← List.mem_singleton.mp hbound] at hq
      cases hq
  · rw [hl]
    exact h.legal.append ha
  · rw [ht]
    by_cases hu : u = t
    · rw [hu, Function.update_self]
      exact ready_of_free hpc
    · rw [Function.update_of_ne hu]
      have hready := h.ready u
      generalize s.threads u = upc at hready ⊢
      unfold Ready at hready ⊢
      split at hready
      · rwa [hb]
      · rw [hl]
        exact hready.quiet hq
      · trivial

/-- A step of the thread that holds the writer lock: no other thread is about to write. -/
theorem of_held (hx : Exclusive s) (hold : holdsWriter (s.threads t) = true)
    (hcur : Isolation.current s'.log = s'.binding)
    (hknown : ∀ c, .bound c ∈ s'.log → c < s'.contexts.length) (hlegal : Legal Allowed s'.log)
    (ht : s'.threads = Function.update s.threads t pc) (hpc : Ready s' pc) : Isolated s' := by
  refine ⟨hcur, hknown, hlegal, fun u => ?_⟩
  rw [ht]
  by_cases hu : u = t
  · rw [hu, Function.update_self]
    exact hpc
  · rw [Function.update_of_ne hu]
    refine ready_of_free (Bool.eq_false_iff.mpr fun hold' => hu ?_)
    exact hx.writer.unique hold hold'

/-- An event of the thread that holds the writer lock, which keeps the contexts. -/
theorem held_event (h : Isolated s) (hx : Exclusive s) (hold : holdsWriter (s.threads t) = true)
    {e : Event} (hl : s'.log = s.log ++ [e]) (ha : Allowed s.log e) (hne : ∀ c, e ≠ .bound c)
    (hb : s'.binding = after s.binding e) (hc : s'.contexts = s.contexts)
    (ht : s'.threads = Function.update s.threads t pc) (hpc : Ready s' pc) : Isolated s' := by
  refine of_held hx hold ?_ ?_ ?_ ht hpc
  · rw [hl, current_append, h.current, hb]
  · intro c hbound
    rw [hl, List.mem_append] at hbound
    rw [hc]
    rcases hbound with hbound | hbound
    · exact h.known c hbound
    · exact absurd (List.mem_singleton.mp hbound).symm (hne c)
  · rw [hl]
    exact h.legal.append ha

/-- The binding is removed. -/
theorem removed (h : Isolated s) (hx : Exclusive s) (hold : holdsWriter (s.threads t) = true)
    {c : ℕ}
    (hb : s.binding = some c) (cause : Cause)
    (hl : s'.log = s.log ++ [.removed c cause]) (hb' : s'.binding = none)
    (hc : s'.contexts = s.contexts) (ht : s'.threads = Function.update s.threads t pc)
    (hpc : Ready s' pc) : Isolated s' := by
  refine h.held_event hx hold hl ?_ (fun _ => (by simp)) hb' hc ht hpc
  show Isolation.current s.log = some c
  rw [h.current, hb]

end Isolated

theorem isolated_bind (h : Isolated s) (hx : Exclusive s) {t : ℕ} {key : K} {value : Value}
    (ht : s.threads t = .holdWriter (.bind key)) : Isolated ((s.bind key).unlock t value) := by
  have hold : holdsWriter (s.threads t) = true := by
    rw [ht]
    rfl
  have hfresh : Event.bound s.contexts.length ∉ s.log := by
    intro hmem
    exact absurd (h.known _ hmem) (lt_irrefl _)
  have hbound : ∀ {log : List Event}, (∀ c, Event.bound c ∈ log → c < s.contexts.length) → ∀ c,
      Event.bound c ∈ log ++ [.bound s.contexts.length] → c < (s.bind key).contexts.length := by
    intro log hlog c hmem
    show c < (s.contexts ++ [Context.mk key 0 none]).length
    rw [List.length_append, List.length_singleton]
    rcases List.mem_append.mp hmem with hmem | hmem
    · have := hlog c hmem
      omega
    · have hc : Event.bound c = Event.bound s.contexts.length := List.mem_singleton.mp hmem
      cases hc
      omega
  cases hb : s.binding with
  | none =>
    have hlog : (s.bind key).log = s.log ++ [.bound s.contexts.length] := by
      unfold State.bind
      rw [remove_of_unbound hb]
      rfl
    have hthreads : (s.bind key).threads = s.threads := by
      unfold State.bind
      rw [remove_of_unbound hb]
      rfl
    refine .of_held (t := t) hx hold ?_ ?_ ?_ ?_ (show Ready _ (.idle value) from trivial)
    · show current (s.bind key).log = some s.contexts.length
      rw [hlog, current_append]
      rfl
    · show ∀ c, Event.bound c ∈ (s.bind key).log → _
      rw [hlog]
      exact hbound h.known
    · show Legal Allowed (s.bind key).log
      rw [hlog]
      exact h.legal.append hfresh
    · show Function.update (s.bind key).threads t _ = _
      rw [hthreads]
  | some c =>
    have hlog : (s.bind key).log =
        (s.log ++ [.removed c .replaced]) ++ [.bound s.contexts.length] := by
      unfold State.bind
      rw [remove_of_bound hb]
      rfl
    have hthreads : (s.bind key).threads = s.threads := by
      unfold State.bind
      rw [remove_of_bound hb]
      rfl
    refine .of_held (t := t) hx hold ?_ ?_ ?_ ?_ (show Ready _ (.idle value) from trivial)
    · show current (s.bind key).log = some s.contexts.length
      rw [hlog, current_append]
      rfl
    · show ∀ c, Event.bound c ∈ (s.bind key).log → _
      rw [hlog]
      refine hbound fun c' hmem => ?_
      rw [List.mem_append] at hmem
      rcases hmem with hmem | hmem
      · exact h.known c' hmem
      · simp at hmem
    · show Legal Allowed (s.bind key).log
      rw [hlog]
      have hrem : Legal Allowed (s.log ++ [.removed c .replaced]) := by
        refine h.legal.append ?_
        show current s.log = some c
        rw [h.current, hb]
      refine hrem.append ?_
      show Event.bound s.contexts.length ∉ s.log ++ [.removed c .replaced]
      rw [List.mem_append, not_or]
      exact ⟨hfresh, by simp⟩
    · show Function.update (s.bind key).threads t _ = _
      rw [hthreads]

/-- What the thread relied on allows its write. -/
theorem allowed_wrote (hcur : current s.log = s.binding) {job : Job} {limit : Option ℕ}
    (h : Ready s (.output job limit)) (bytes : Bytes) : Allowed s.log (.wrote job bytes) := by
  cases job with
  | packet p =>
    show current s.log = some p.context
    rw [hcur]
    exact h
  | notification c error =>
    cases c with
    | some c => exact h
    | none => trivial
  | _ => trivial

theorem isolated_step (hx : Exclusive s) (h : Isolated s) (hs : Step cfg s s') : Isolated s' := by
  cases hs with
  | beginSend ht hc => exact h.move rfl rfl rfl rfl trivial
  | receive ht hb =>
    refine h.quietly rfl rfl ?_ rfl rfl rfl rfl
    intro hacc
    rw [h.current, hb hacc]
  | beginLocked ht => exact h.move rfl rfl rfl rfl trivial
  | lockContext ht hc hfree => exact h.move rfl rfl (List.length_modify ..) rfl trivial
  | tooLarge ht hlen => exact h.move rfl rfl rfl rfl trivial
  | sealed ht hlen hc hseal =>
    exact h.quietly rfl rfl trivial rfl (List.length_modify ..) rfl rfl
  | refuse ht => exact h.quietly rfl rfl trivial rfl (List.length_modify ..) rfl rfl
  | lockWriter ht hfree => exact h.move rfl rfl rfl rfl trivial
  | unlockContext ht => exact h.move rfl rfl (List.length_modify ..) rfl trivial
  | check ht hb => exact h.move rfl rfl rfl rfl hb
  | refused ht hb =>
    exact h.held_event hx (by rw [ht]; rfl) rfl trivial (fun _ => (by simp)) rfl rfl rfl trivial
  | waitWriter ht hfree => exact h.move rfl rfl rfl rfl trivial
  | @endNotify t c cause error limit hpc hb hside =>
    have hcause : cause = .failed ∨ cause = .disconnected := by
      rcases hpc with ⟨_, _, _, -, -, rfl⟩ | ⟨-, rfl⟩
      · exact .inl rfl
      · exact .inr rfl
    have hold : holdsWriter (s.threads t) = true := by
      rcases hpc with ⟨_, _, _, ht, -, -⟩ | ⟨ht, -⟩
      · rw [ht]; rfl
      · rw [ht]; rfl
    refine h.removed hx hold hb cause rfl rfl rfl rfl ?_
    exact ⟨s.log, cause, [], rfl, hcause, fun e he => (by cases he)⟩
  | @endUnlock t c cause value hpc hb =>
    have hold : holdsWriter (s.threads t) = true := by
      rcases hpc with ⟨_, _, _, ht, -, -⟩ | ⟨_, ht⟩
      · rw [ht]; rfl
      · rw [ht]; rfl
    exact h.removed hx hold hb cause rfl rfl rfl rfl trivial
  | keepUnlock hpc => exact h.move rfl rfl rfl rfl trivial
  | bind ht => exact isolated_bind h hx ht
  | @removeOutput t c call job limit ht hb hjob =>
    exact h.removed hx (by rw [ht]; rfl) hb _ rfl rfl rfl rfl (ready_of_session hjob limit)
  | @keepOutput t job limit hpc hjob =>
    exact h.move rfl rfl rfl rfl (ready_of_session hjob limit)
  | @output t deadline job limit o ht =>
    have hready := h.ready t
    rw [ht] at hready
    refine h.held_event hx (by rw [ht]; rfl) rfl ?_ (fun _ => (by simp)) rfl rfl rfl trivial
    exact allowed_wrote h.current hready _
  | sent ht =>
    exact h.held_event hx (by rw [ht]; rfl) rfl trivial (fun _ => (by simp)) rfl rfl rfl trivial
  | failed ht =>
    exact h.held_event hx (by rw [ht]; rfl) rfl trivial (fun _ => (by simp)) rfl rfl rfl trivial

theorem exclusive_init (framer : Writer) : Exclusive ({ framer } : State K) := by
  refine ⟨fun t => ?_, fun c x hx => (by cases hx), fun t c hc => (by cases hc)⟩
  exact ⟨fun h => (by cases h), fun h => (by cases h)⟩

theorem reachable_invariant {framer : Writer} (h : (outbound cfg framer).Reachable s) :
    Exclusive s ∧ Isolated s := by
  refine h.invariant (I := fun s => Exclusive s ∧ Isolated s)
    ⟨exclusive_init framer, isolated_init framer⟩ ?_
  rintro s a s' - ⟨hx, hi⟩ hstep
  have hs := step_cases hstep
  exact ⟨exclusive_step hx hs, isolated_step hx hi hs⟩

/-! ### All bytes are logged -/

/-- The bytes that the calls of a history had accepted. -/
def written (log : List Event) : Bytes :=
  log.flatMap fun e =>
    match e with
    | .wrote _ bytes => bytes
    | _ => []

theorem written_append (log : List Event) (e : Event) :
    written (log ++ [e]) = written log ++ written [e] := by
  rw [written, List.flatMap_append]
  rfl

theorem written_step (hs : Step cfg s s') {start : Bytes}
    (h : s.framer.accepted = start ++ written s.log) :
    s'.framer.accepted = start ++ written s'.log := by
  have hquiet : ∀ {e : Event}, written [e] = [] → s'.framer = s.framer → s'.log = s.log ++ [e] →
      s'.framer.accepted = start ++ written s'.log := by
    intro e he hf hl
    rw [hf, hl, written_append, he, List.append_nil, h]
  cases hs with
  | receive ht hb => exact hquiet rfl rfl rfl
  | sealed ht hlen hc hseal => exact hquiet rfl rfl rfl
  | refuse ht => exact hquiet rfl rfl rfl
  | refused ht hb => exact hquiet rfl rfl rfl
  | endNotify hpc hb hside => exact hquiet rfl rfl rfl
  | endUnlock hpc hb => exact hquiet rfl rfl rfl
  | removeOutput ht hb hjob => exact hquiet rfl rfl rfl
  | sent ht => exact hquiet rfl rfl rfl
  | failed ht => exact hquiet rfl rfl rfl
  | @bind t key value ht =>
    show (s.bind key).framer.accepted = start ++ written (s.bind key).log
    unfold State.bind
    cases hb : s.binding with
    | none =>
      rw [remove_of_unbound hb]
      show s.framer.accepted = start ++ written (s.log ++ [.bound _])
      rw [written_append, h]
      simp [written]
    | some c =>
      rw [remove_of_bound hb]
      show s.framer.accepted = start ++ written ((s.log ++ [.removed c .replaced]) ++ [.bound _])
      rw [written_append, written_append, h]
      simp [written]
  | @output t deadline job limit o ht =>
    obtain ⟨bytes, hbytes⟩ :=
      call_accepted cfg.cobs cfg.maxFrame ⟨job.send, deadline, o⟩ s.framer
    show (s.framer.call cfg.cobs cfg.maxFrame ⟨job.send, deadline, o⟩).1.accepted =
      start ++ written (s.log ++ [.wrote job ((s.framer.call cfg.cobs cfg.maxFrame
        ⟨job.send, deadline, o⟩).1.accepted.drop s.framer.accepted.length)])
    rw [written_append, ← List.append_assoc, ← h, ← hbytes, List.drop_left]
    simp [written]
  | _ => exact h

theorem written_reachable {framer : Writer} (h : (outbound cfg framer).Reachable s) :
    s.framer.accepted = framer.accepted ++ written s.log := by
  refine h.invariant (I := fun s => s.framer.accepted = framer.accepted ++ written s.log) ?_ ?_
  · exact (List.append_nil _).symm
  · exact fun s a s' _ hi hstep => written_step (step_cases hstep) hi

/-! ### Calls through handles -/

/-- The session whose handle a call is made through. The owner's calls have none. -/
def lockedThrough : Locked K → Option ℕ
  | .disconnect c => some c
  | .finish c => some c
  | _ => none

def callThrough : Call K → Option ℕ
  | .send c _ => some c
  | .finishReceive c _ => some c
  | .locked call => lockedThrough call

/-- The session through whose handle a thread is in a call. -/
def pcThrough : Pc K → Option ℕ
  | .idle _ => none
  | .lockContext c _ => some c
  | .sealing c _ => some c
  | .refuse c _ => some c
  | .lockWriter p => some p.context
  | .unlockContext p => some p.context
  | .check p => some p.context
  | .failed p _ _ => some p.context
  | .waitWriter call => lockedThrough call
  | .holdWriter call => lockedThrough call
  | .output job _ => session job
  | .returning job _ _ => session job

/-- The session through whose handle a step is taken. -/
def through (s : State K) : Action K → Option ℕ
  | .call _ call => callThrough call
  | .advance t _ _ => pcThrough (s.threads t)

/-- **What a step of thread `t` through a handle of session `c` may do.** -/
structure Confined (s s' : State K) (t c : ℕ) : Prop where
  /-- It removes no binding but its own. -/
  binding : s'.binding = s.binding ∨ s.binding = some c ∧ s'.binding = none
  /-- It writes while its session is bound, or the notification it owes for the end of it. -/
  output : s'.framer = s.framer ∨ s.binding = some c ∨
    Owed c s.log ∧ ∃ error limit, s.threads t = .output (.notification (some c) error) limit
  /-- Only the step that removes the binding leads to a notification. -/
  notification : ∀ error limit, s'.threads t = .output (.notification (some c) error) limit →
    s.binding = some c ∧ s'.binding = none

namespace Confined

variable {t c : ℕ} {pc : Pc K}

/-- A step that leaves the binding and the stream alone. -/
theorem still (hb : s'.binding = s.binding) (hf : s'.framer = s.framer)
    (ht : s'.threads = Function.update s.threads t pc)
    (hpc : ∀ error limit, pc ≠ .output (.notification (some c) error) limit) :
    Confined s s' t c := by
  refine ⟨.inl hb, .inl hf, fun error limit h => ?_⟩
  rw [ht, Function.update_self] at h
  exact absurd h (hpc error limit)

/-- A step that ends its session. -/
theorem ended (hc : s.binding = some c) (hb : s'.binding = none) (hf : s'.framer = s.framer) :
    Confined s s' t c :=
  ⟨.inr ⟨hc, hb⟩, .inl hf, fun _ _ _ => ⟨hc, hb⟩⟩

end Confined

theorem confined_begin {t c : ℕ} {call : Call K} (hc : callThrough call = some c)
    (h : s.begin t call = .next s') : Confined s s' t c := by
  cases call with
  | send c' message =>
    dsimp only [State.begin] at h
    split_ifs at h
    cases h
    exact .still rfl rfl rfl fun _ _ => (by simp)
  | finishReceive c' result =>
    cases h
    exact .still rfl rfl rfl fun _ _ => (by simp)
  | locked call =>
    cases h
    exact .still rfl rfl rfl fun _ _ => (by simp)

/-- `disconnect` and `Outbound::end` remove the binding of their own session only. -/
theorem confined_locked {t c : ℕ} {call : Locked K} (hc : lockedThrough call = some c) :
    Confined s (s.locked cfg t call) t c := by
  cases call with
  | disconnect c' =>
    cases hc
    dsimp only [State.locked]
    split_ifs with hb hside
    · rw [remove_of_bound hb]
      exact .ended hb rfl rfl
    · rw [remove_of_bound hb]
      exact .ended hb rfl rfl
    · exact .still rfl rfl rfl fun _ _ => (by simp)
  | finish c' =>
    cases hc
    dsimp only [State.locked]
    split_ifs with hb
    · rw [remove_of_bound hb]
      exact .ended hb rfl rfl
    · exact .still rfl rfl rfl fun _ _ => (by simp)
  | _ => cases hc

/-- The frame writer has returned to a sender or to the call that ended the session. -/
theorem confined_returned {t c deadline : ℕ} {job : Job} {result : Except TransportError Unit}
    (hc : session job = some c) : Confined s (s.returned cfg t deadline result job) t c := by
  cases job with
  | packet p =>
    cases result with
    | ok _ => exact .still rfl rfl rfl fun _ _ => (by simp)
    | error error => exact .still rfl rfl rfl fun _ _ => (by simp)
  | notification c' error => exact .still rfl rfl rfl fun _ _ => (by simp)
  | _ => cases hc

/-- A thread writes a packet of the bound session, or the notification it owes. -/
theorem confined_output (h : Isolated s) {t c deadline : ℕ} {job : Job} {limit : Option ℕ}
    {o : Output} (ht : s.threads t = .output job limit) (hc : session job = some c) :
    Confined s (s.output cfg t job deadline o) t c := by
  have hready := h.ready t
  rw [ht] at hready
  refine ⟨.inl rfl, .inr ?_, fun error limit h => ?_⟩
  · cases job with
    | packet p =>
      cases hc
      exact .inl hready
    | notification c' error =>
      cases hc
      exact .inr ⟨hready, error, limit, ht⟩
    | _ => cases hc
  · have hself : (s.output cfg t job deadline o).threads t = _ := Function.update_self ..
    rw [hself] at h
    cases h

theorem confined_advance (h : Isolated s) {t budget c : ℕ} {o : Output}
    (hc : pcThrough (s.threads t) = some c)
    (hstep : s.advance cfg t budget o (s.threads t) = .next s') : Confined s s' t c := by
  cases ht : s.threads t with
  | idle last =>
    rw [ht] at hc
    cases hc
  | lockContext c' message =>
    rw [ht] at hstep
    dsimp only [State.advance] at hstep
    split at hstep
    · cases hstep
      exact .still rfl rfl rfl fun _ _ => (by simp)
    · cases hstep
  | sealing c' message =>
    rw [ht] at hstep
    dsimp only [State.advance] at hstep
    split at hstep
    · cases hstep
    split_ifs at hstep
    · cases hstep
      exact .still rfl rfl rfl fun _ _ => (by simp)
    split at hstep
    · cases hstep
    cases hstep
    exact .still rfl rfl rfl fun _ _ => (by simp)
  | refuse c' size =>
    rw [ht] at hstep
    cases hstep
    exact .still rfl rfl rfl fun _ _ => (by simp)
  | lockWriter p =>
    rw [ht] at hstep
    dsimp only [State.advance] at hstep
    split_ifs at hstep
    cases hstep
    exact .still rfl rfl rfl fun _ _ => (by simp)
  | unlockContext p =>
    rw [ht] at hstep
    cases hstep
    exact .still rfl rfl rfl fun _ _ => (by simp)
  | check p =>
    rw [ht] at hstep
    dsimp only [State.advance] at hstep
    split_ifs at hstep
    · cases hstep
      exact .still rfl rfl rfl fun _ _ => (by simp)
    · cases hstep
      exact .still rfl rfl rfl fun _ _ => (by simp)
  | failed p deadline error =>
    rw [ht] at hc hstep
    cases hc
    dsimp only [State.advance] at hstep
    split_ifs at hstep with hb
    · rw [remove_of_bound hb] at hstep
      cases hstep
      exact .ended hb rfl rfl
    · rw [remove_of_bound hb] at hstep
      cases hstep
      exact .ended hb rfl rfl
    · cases hstep
      exact .still rfl rfl rfl fun _ _ => (by simp)
  | waitWriter call =>
    rw [ht] at hstep
    dsimp only [State.advance] at hstep
    split_ifs at hstep
    cases hstep
    exact .still rfl rfl rfl fun _ _ => (by simp)
  | holdWriter call =>
    rw [ht] at hc hstep
    cases hstep
    exact confined_locked hc
  | output job limit =>
    rw [ht] at hc hstep
    cases hstep
    exact confined_output h ht hc
  | returning job deadline result =>
    rw [ht] at hc hstep
    cases result with
    | none => cases hstep
    | some result =>
      cases hstep
      exact confined_returned hc

theorem confined_step (h : Isolated s) {a : Action K} {c : ℕ} (hc : through s a = some c)
    (hstep : s.step cfg a = .next s') : Confined s s' (actor a) c := by
  cases a with
  | call t call =>
    unfold State.step at hstep
    dsimp only at hstep
    split at hstep
    · exact confined_begin hc hstep
    · cases hstep
  | advance t budget o => exact confined_advance h hc hstep

/-! ### What it gives -/

/-- The removal a notification is owed for is the only one. -/
theorem owed_removed {pre mid : List Event} {c : ℕ} {cause : Cause}
    (hl : Legal Allowed (pre ++ .removed c cause :: mid))
    (h : Owed c (pre ++ .removed c cause :: mid)) :
    (cause = .failed ∨ cause = .disconnected) ∧ ∀ e ∈ mid, quiet e = true := by
  obtain ⟨pre', cause', mid', heq, hcause, hquiet⟩ := h
  rcases List.append_eq_append_iff.mp heq with ⟨x, rfl, hx⟩ | ⟨x, rfl, hx⟩
  · cases x with
    | nil =>
      rw [List.nil_append, List.cons.injEq] at hx
      obtain ⟨he, rfl⟩ := hx
      cases he
      exact ⟨hcause, hquiet⟩
    | cons e x =>
      -- a second removal would find the binding gone
      rw [List.cons_append, List.cons.injEq] at hx
      obtain ⟨rfl, rfl⟩ := hx
      obtain ⟨later, more, hsplit, hcur⟩ :=
        hl.after rfl (show Event.removed c cause' ∈ x ++ .removed c cause' :: mid' by simp)
      have hpre : Legal Allowed (pre ++ .removed c cause :: later) := by
        rw [hsplit] at hl
        have hall : Legal Allowed ((pre ++ .removed c cause :: later) ++
            .removed c cause' :: more) := by simpa using hl
        exact hall.of_append
      have hmem : Event.removed c cause ∈ pre ++ .removed c cause :: later := by simp
      exact absurd hcur (current_ne_of_removed hpre hmem)
  · cases x with
    | nil =>
      rw [List.nil_append, List.cons.injEq] at hx
      obtain ⟨he, rfl⟩ := hx
      cases he
      exact ⟨hcause, hquiet⟩
    | cons e x =>
      rw [List.cons_append, List.cons.injEq] at hx
      obtain ⟨-, rfl⟩ := hx
      have := hquiet (.removed c cause) (by simp)
      cases this

/-- What follows the removal of a binding. -/
structure Ended (c : ℕ) (cause : Cause) (post : List Event) : Prop where
  /-- It is never bound again. -/
  unbound : .bound c ∉ post
  /-- No call through its handles changes the binding. -/
  removedOnce : ∀ cause', .removed c cause' ∉ post
  /-- No packet of it reaches the adapter. -/
  silent : ∀ p bytes, p.context = c → .wrote (.packet p) bytes ∉ post
  /-- No message is received in it. -/
  unheard : .received c true ∉ post
  /-- Only the call that ended it notifies, once and before anything else is written or bound. -/
  notified : ∀ mid error bytes later,
    post = mid ++ .wrote (.notification (some c) error) bytes :: later →
      (cause = .failed ∨ cause = .disconnected) ∧ (∀ e ∈ mid, quiet e = true) ∧
        ∀ error' bytes', .wrote (.notification (some c) error') bytes' ∉ later

theorem ended_of_legal {pre post : List Event} {c : ℕ} {cause : Cause}
    (hl : Legal Allowed (pre ++ .removed c cause :: post)) : Ended c cause post := by
  have hpre : ∀ {mid later}, post = mid ++ later →
      Legal Allowed (pre ++ .removed c cause :: mid) := by
    rintro mid later rfl
    have hall : Legal Allowed ((pre ++ .removed c cause :: mid) ++ later) := by simpa using hl
    exact hall.of_append
  have hgone : ∀ {mid later}, post = mid ++ later →
      current (pre ++ .removed c cause :: mid) ≠ some c := by
    intro mid later hsplit
    have hmem : Event.removed c cause ∈ pre ++ .removed c cause :: mid := by simp
    exact current_ne_of_removed (hpre hsplit) hmem
  have hbound : .bound c ∈ pre := bound_of_current (hl pre _ post rfl)
  refine ⟨fun h => ?_, fun cause' h => ?_, fun p bytes hp h => ?_, fun h => ?_, ?_⟩
  · obtain ⟨mid, later, -, hrule⟩ := hl.after rfl h
    exact hrule (by simp [hbound])
  · obtain ⟨mid, later, hsplit, hrule⟩ := hl.after rfl h
    exact hgone hsplit hrule
  · obtain ⟨mid, later, hsplit, hrule⟩ := hl.after rfl h
    have hcur : current (pre ++ .removed c cause :: mid) = some p.context := hrule
    rw [hp] at hcur
    exact hgone hsplit hcur
  · obtain ⟨mid, later, hsplit, hrule⟩ := hl.after rfl h
    exact hgone hsplit (hrule rfl)
  · intro mid error bytes later hsplit
    have howed : Owed c (pre ++ .removed c cause :: mid) := by
      refine hl _ (.wrote (.notification (some c) error) bytes) later ?_
      rw [hsplit]
      simp
    obtain ⟨hcause, hquiet⟩ := owed_removed (hpre hsplit) howed
    refine ⟨hcause, hquiet, fun error' bytes' hlater => ?_⟩
    obtain ⟨a, b, rfl⟩ := List.append_of_mem hlater
    have hagain : Owed c (pre ++ .removed c cause ::
        (mid ++ .wrote (.notification (some c) error) bytes :: a)) := by
      refine hl _ (.wrote (.notification (some c) error') bytes') b ?_
      rw [hsplit]
      simp
    have hcut : post = (mid ++ .wrote (.notification (some c) error) bytes :: a) ++
        .wrote (.notification (some c) error') bytes' :: b := by
      rw [hsplit]
      simp
    have hq := (owed_removed (hpre hcut) hagain).2
      (.wrote (.notification (some c) error) bytes) (by simp)
    cases hq

/-- **Sessions are isolated at the output.** In any interleaving of calls through handles of any
session and of the owner's calls: every byte on the stream and every change of the binding is an
event of the log, and once a binding was removed, its context is never bound again, none of its
packets reaches the adapter, nothing removes it again and nothing is received in it. A notification
of its end is written at most once, by the call that ended it after a failed send or a disconnect,
and before any other frame or binding. -/
theorem isolation {framer : Writer} (h : (outbound cfg framer).Reachable s) :
    s.framer.accepted = framer.accepted ++ written s.log ∧
    s.binding = current s.log ∧
    (∀ pre c cause post, s.log = pre ++ .removed c cause :: post →
      s.binding ≠ some c ∧ Ended c cause post) ∧
    (∀ pre c error bytes post,
      s.log = pre ++ .wrote (.notification (some c) error) bytes :: post →
        ∃ cause, .removed c cause ∈ pre) ∧
    ∀ a s' c, (outbound cfg framer).step s a = .next s' → through s a = some c →
      Confined s s' (actor a) c ∧
      ∀ cause, .removed c cause ∈ s.log → s'.binding = s.binding ∧ (s'.framer = s.framer ∨
        Owed c s.log ∧ ∃ error limit,
          s.threads (actor a) = .output (.notification (some c) error) limit) := by
  obtain ⟨-, hi⟩ := reachable_invariant h
  refine ⟨written_reachable h, hi.current.symm, fun pre c cause post hsplit => ⟨?_, ?_⟩, ?_, ?_⟩
  · rw [← hi.current]
    have hmem : Event.removed c cause ∈ s.log := by
      rw [hsplit]
      simp
    exact current_ne_of_removed hi.legal hmem
  · have hl := hi.legal
    rw [hsplit] at hl
    exact ended_of_legal hl
  · intro pre c error bytes post hsplit
    obtain ⟨pre', cause, mid, rfl, -, -⟩ := hi.legal pre _ post hsplit
    exact ⟨cause, by simp⟩
  · intro a s' c hstep hc
    have hconf := confined_step hi hc hstep
    refine ⟨hconf, fun cause hmem => ?_⟩
    have hgone : s.binding ≠ some c := by
      rw [← hi.current]
      exact current_ne_of_removed hi.legal hmem
    refine ⟨?_, ?_⟩
    · rcases hconf.binding with hb | ⟨hb, -⟩
      · exact hb
      · exact absurd hb hgone
    · rcases hconf.output with hf | hb | howed
      · exact .inl hf
      · exact absurd hb hgone
      · exact .inr howed

/-- A message is sealed, its session disconnected and replaced before it gets the writer, and the
old handle is about to disconnect again. -/
def delayedSend : List (Action UInt8) :=
  [.call 0 (.locked (.bind 5)), step 0, step 0, .call 1 (.send 0 [1]), step 1, step 1,
    .call 2 (.locked (.disconnect 0)), step 2, step 2, step 2, step 2, .call 0 (.locked (.bind 6)),
    step 0, step 0, step 1, step 1, step 1, .call 2 (.locked (.disconnect 0)), step 2]

theorem isolation_delayedSend :
    ∃ s s', (outbound (toyConfig .server) (.new 8)).run delayedSend { framer := .new 8 } = some s ∧
      s.framer.accepted = [0] ∧ s.binding = some 1 ∧
      s.log = [.bound 0, .sealed ⟨0, 0, [5, 0, 1]⟩ [1]] ++ .removed 0 .disconnected ::
        [.wrote (.notification (some 0) none) [0], .bound 1, .refused ⟨0, 0, [5, 0, 1]⟩] ∧
      Ended 0 .disconnected
        [.wrote (.notification (some 0) none) [0], .bound 1, .refused ⟨0, 0, [5, 0, 1]⟩] ∧
      through s (step 2) = some 0 ∧
      (outbound (toyConfig .server) (.new 8)).step s (step 2) = .next s' ∧
      Confined s s' 2 0 ∧ s'.binding = some 1 := by
  obtain ⟨s, s', hr, hf, hb, hl, hold, hstep⟩ : ∃ s s',
      (outbound (toyConfig .server) (.new 8)).run delayedSend { framer := .new 8 } = some s ∧
      s.framer.accepted = [0] ∧ s.binding = some 1 ∧
      s.log = [.bound 0, .sealed ⟨0, 0, [5, 0, 1]⟩ [1]] ++ .removed 0 .disconnected ::
        [.wrote (.notification (some 0) none) [0], .bound 1, .refused ⟨0, 0, [5, 0, 1]⟩] ∧
      through s (step 2) = some 0 ∧
      (outbound (toyConfig .server) (.new 8)).step s (step 2) = .next s' :=
    ⟨_, _, rfl, rfl, rfl, rfl, rfl, rfl⟩
  obtain ⟨-, -, hended, -, hconfined⟩ := isolation (Machine.reachable_of_run hr)
  obtain ⟨hconf, hafter⟩ := hconfined _ _ _ hstep hold
  obtain ⟨hkeep, -⟩ := hafter .disconnected (by rw [hl]; simp)
  exact ⟨s, s', hr, hf, hb, hl, (hended _ _ _ _ hl).2, hold, hstep, hconf, hkeep.trans hb⟩

end ArkWire.Transport.Isolation
