import ArkWire.Lib.Machines

/-! # Shutdown of a byte stream

`Shutdown` orders the admission of adapter calls and the closing of a stream. Any number of threads
call `Closer::close`, and any number read and write through `ReadHalf` and `WriteHalf`, which enter
anew for every adapter call. A step is one section under the state lock, or what a thread does
between two: the callback returns, an adapter call returns, a deadline check fails.

Both notifications are made under the lock, so a section that notifies wakes the parked closers in
the same step. An operation that unwinds drops its guard like one that returns, and the lock it
takes then is not poisoned. `runs` is ghost. -/

namespace ArkWire.Transport.Shutdown

open ArkWire.Lib.Machines

/-! ### The state -/

inductive Phase where
  | opened
  | closing
  | closed
  deriving DecidableEq

/-- A call of `Closer::close`. -/
inductive Caller where
  | outside
  /-- Before the lock of the first loop, for the first time or woken. -/
  | entering
  /-- Waiting in the first loop. -/
  | parked
  /-- The first closer runs the callback. -/
  | running
  /-- Before the lock of the second loop. -/
  | draining
  /-- Waiting in the second loop. -/
  | drainParked
  | returned (first : Bool)
  /-- The callback has unwound through `close`. -/
  | unwound
  deriving DecidableEq

/-- What `ReadHalf::read` and `WriteHalf::write` enter for, with the bytes still to write. -/
inductive Entry where
  | read
  | setter (bytes : ℕ)
  | write (bytes : ℕ)
  | flush
  deriving DecidableEq

/-- An adapter call. -/
inductive Call where
  | setReadDeadline
  | read
  | setWriteDeadline (bytes : ℕ)
  | write (bytes : ℕ)
  | flush
  deriving DecidableEq

/-- A thread that reads or writes. -/
inductive Operation where
  | idle
  | entering (entry : Entry)
  /-- An adapter call runs under its `Activity`. -/
  | within (call : Call)
  /-- The `Activity` is dropped, and the operation goes on or returns. -/
  | leaving (next : Option Entry)
  deriving DecidableEq

/-- How an adapter call ends. -/
inductive Result where
  | ok (count : ℕ)
  | timedOut
  | interrupted
  | failed
  | unwound
  deriving DecidableEq

/-- The stream and its threads. `runs` lists the closers that have called the callback. -/
structure Sys where
  phase : Phase
  active : ℕ
  /-- The callback is still there to be taken. -/
  action : Bool
  closers : ℕ → Caller
  operations : ℕ → Operation
  runs : List ℕ

/-- `Closer::new`. -/
def Sys.new : Sys where
  phase := .opened
  active := 0
  action := true
  closers := fun _ => .outside
  operations := fun _ => .idle
  runs := []

inductive Panic where
  /-- `active -= 1` at zero. -/
  | underflow
  /-- `shutdown called once`. -/
  | calledTwice

inductive Action where
  /-- A thread calls `close`. -/
  | close (i : ℕ)
  /-- A closer takes the lock. -/
  | lock (i : ℕ)
  /-- The callback returns, or unwinds. -/
  | callback (i : ℕ) (unwinds : Bool)
  /-- A parked closer wakes by itself. -/
  | wake (i : ℕ)
  | read (i : ℕ)
  | write (i : ℕ) (bytes : ℕ)
  /-- The deadline of an operation has passed. -/
  | expire (i : ℕ)
  /-- `Closer::enter`. -/
  | enter (i : ℕ)
  /-- An adapter call ends. -/
  | finish (i : ℕ) (result : Result)
  /-- `Activity::drop`. -/
  | leave (i : ℕ)

/-! ### The steps -/

/-- The first adapter call made under a guard. -/
def Entry.call : Entry → Call
  | .read => .setReadDeadline
  | .setter bytes => .setWriteDeadline bytes
  | .write bytes => .write bytes
  | .flush => .flush

/-- The loop of `WriteHalf::write`: flush once nothing is left. -/
def Entry.output (bytes : ℕ) : Entry := if bytes = 0 then .flush else .write bytes

/-- What follows an adapter call. Only `set_read_deadline` keeps its guard for the next one. -/
def Call.next : Call → Result → Operation
  | .setReadDeadline, .ok _ => .within .read
  | .read, .timedOut => .leaving (some .read)
  | .read, .interrupted => .leaving (some .read)
  | .setWriteDeadline bytes, .ok _ => .leaving (some (.output bytes))
  | .write bytes, .ok count =>
    -- no progress fails with `WriteZero`, and a count beyond the slice panics
    if count = 0 ∨ bytes < count then .leaving none
    else .leaving (some (.output (bytes - count)))
  | .write bytes, .interrupted => .leaving (some (.write bytes))
  | _, _ => .leaving none

/-- An operation holds an `Activity`. -/
def Operation.guarded : Operation → Bool
  | .within _ => true
  | .leaving _ => true
  | _ => false

/-- The closer that took the callback, from then on. -/
def Caller.first : Caller → Bool
  | .running => true
  | .draining => true
  | .drainParked => true
  | .returned first => first
  | .unwound => true
  | _ => false

def Caller.notify : Caller → Caller
  | .parked => .entering
  | .drainParked => .draining
  | c => c

namespace Sys

def setCloser (s : Sys) (i : ℕ) (c : Caller) : Sys :=
  { s with closers := Function.update s.closers i c }

def setOperation (s : Sys) (i : ℕ) (o : Operation) : Sys :=
  { s with operations := Function.update s.operations i o }

/-- `changed.notify_all()`. -/
def notifyAll (s : Sys) : Sys := { s with closers := fun i => (s.closers i).notify }

/-- The sections of `Closer::close`. -/
def lockStep (s : Sys) (i : ℕ) : Outcome Panic Sys :=
  match s.closers i with
  | .entering =>
    match s.phase with
    | .closed => .next (s.setCloser i (.returned false))
    | .closing => .next (s.setCloser i .parked)
    | .opened =>
      if s.action then
        .next { s.setCloser i .running with
          phase := .closing, action := false, runs := s.runs ++ [i] }
      else .panic .calledTwice
  | .draining =>
    if s.active ≠ 0 then .next (s.setCloser i .drainParked)
    else .next { (s.setCloser i (.returned true)).notifyAll with phase := .closed }
  | _ => .blocked

/-- `Activity::drop`. -/
def leaveStep (s : Sys) (i : ℕ) : Outcome Panic Sys :=
  match s.operations i with
  | .leaving next =>
    if s.active = 0 then .panic .underflow
    else
      let s' := { s.setOperation i (next.elim .idle .entering) with active := s.active - 1 }
      .next (if s'.active = 0 then s'.notifyAll else s')
  | _ => .blocked

def step (s : Sys) : Action → Outcome Panic Sys
  | .close i =>
    match s.closers i with
    | .outside => .next (s.setCloser i .entering)
    | _ => .blocked
  | .lock i => s.lockStep i
  | .callback i unwinds =>
    match s.closers i with
    | .running => .next (s.setCloser i (if unwinds then .unwound else .draining))
    | _ => .blocked
  | .wake i => .next (s.setCloser i (s.closers i).notify)
  | .read i =>
    match s.operations i with
    | .idle => .next (s.setOperation i (.entering .read))
    | _ => .blocked
  | .write i bytes =>
    match s.operations i with
    | .idle => .next (s.setOperation i (.entering (.setter bytes)))
    | _ => .blocked
  | .expire i =>
    match s.operations i with
    | .entering _ => .next (s.setOperation i .idle)
    | _ => .blocked
  | .enter i =>
    match s.operations i with
    | .entering entry =>
      if s.phase ≠ .opened then .next (s.setOperation i .idle)
      else .next { s.setOperation i (.within entry.call) with active := s.active + 1 }
    | _ => .blocked
  | .finish i result =>
    match s.operations i with
    | .within call => .next (s.setOperation i (call.next result))
    | _ => .blocked
  | .leave i => s.leaveStep i

end Sys

/-- **The threads of one stream**, in any interleaving. -/
def stream : Machine Sys Action Panic where
  init := .new
  step := Sys.step

/-! ### What one step can do -/

theorem guarded_next (call : Call) (result : Result) : (call.next result).guarded = true := by
  cases call with
  | write bytes =>
    cases result with
    | ok count =>
      dsimp only [Call.next]
      split_ifs <;> rfl
    | _ => rfl
  | _ => cases result <;> rfl

theorem guarded_elim (next : Option Entry) :
    (next.elim Operation.idle Operation.entering).guarded = false := by
  cases next <;> rfl

/-- The effects of a step. -/
inductive Step (s : Sys) : Sys → Prop
  | call {i} : s.closers i = .outside → Step s (s.setCloser i .entering)
  | late {i} : s.closers i = .entering → s.phase = .closed →
    Step s (s.setCloser i (.returned false))
  | park {i} : s.closers i = .entering → s.phase = .closing → Step s (s.setCloser i .parked)
  | begin {i} : s.closers i = .entering → s.phase = .opened →
    Step s { s.setCloser i .running with
      phase := .closing, action := false, runs := s.runs ++ [i] }
  | callback {i c} : s.closers i = .running → c = .unwound ∨ c = .draining →
    Step s (s.setCloser i c)
  | drainPark {i} : s.closers i = .draining → s.active ≠ 0 → Step s (s.setCloser i .drainParked)
  | close {i} : s.closers i = .draining → s.active = 0 →
    Step s { (s.setCloser i (.returned true)).notifyAll with phase := .closed }
  | wake {i} : Step s (s.setCloser i (s.closers i).notify)
  /-- Outside the guards. -/
  | outside {i o} : (s.operations i).guarded = false → o.guarded = false →
    Step s (s.setOperation i o)
  | enter {i o} : (s.operations i).guarded = false → o.guarded = true → s.phase = .opened →
    Step s { s.setOperation i o with active := s.active + 1 }
  /-- Within a guard. -/
  | inside {i o} : (s.operations i).guarded = true → o.guarded = true →
    Step s (s.setOperation i o)
  | leave {i o} : (s.operations i).guarded = true → o.guarded = false → 1 < s.active →
    Step s { s.setOperation i o with active := s.active - 1 }
  | last {i o} : (s.operations i).guarded = true → o.guarded = false → s.active = 1 →
    Step s { (s.setOperation i o).notifyAll with active := 0 }

theorem lockStep_cases {s s' : Sys} {i : ℕ} (h : s.lockStep i = .next s') : Step s s' := by
  unfold Sys.lockStep at h
  split at h
  · next hc =>
    split at h
    · next hp => cases h; exact .late hc hp
    · next hp => cases h; exact .park hc hp
    · next hp =>
      split_ifs at h with ha
      cases h
      exact .begin hc hp
  · next hc =>
    split_ifs at h with ha
    · cases h; exact .drainPark hc ha
    · cases h; exact .close hc (not_not.mp ha)
  · cases h

theorem leaveStep_cases {s s' : Sys} {i : ℕ} (h : s.leaveStep i = .next s') : Step s s' := by
  unfold Sys.leaveStep at h
  split at h
  · next next ho =>
    have hg : (s.operations i).guarded = true := by rw [ho]; rfl
    dsimp only at h
    split_ifs at h with ha hz
    · cases h
      have h1 : s.active = 1 := by omega
      have hlast := Step.last hg (guarded_elim next) h1
      rw [← hz] at hlast
      exact hlast
    · cases h
      exact .leave hg (guarded_elim next) (by omega)
  · cases h

/-- **A step has one of the effects listed.** -/
theorem step_cases {s s' : Sys} {a : Action} (h : s.step a = .next s') : Step s s' := by
  cases a with
  | close i =>
    simp only [Sys.step] at h
    split at h
    · next hc => cases h; exact .call hc
    · cases h
  | lock i => exact lockStep_cases h
  | callback i unwinds =>
    simp only [Sys.step] at h
    split at h
    · next hc =>
      cases h
      refine .callback hc ?_
      cases unwinds
      · exact .inr rfl
      · exact .inl rfl
    · cases h
  | wake i => cases h; exact .wake
  | read i =>
    simp only [Sys.step] at h
    split at h
    · next ho => cases h; exact .outside (by rw [ho]; rfl) rfl
    · cases h
  | write i bytes =>
    simp only [Sys.step] at h
    split at h
    · next ho => cases h; exact .outside (by rw [ho]; rfl) rfl
    · cases h
  | expire i =>
    simp only [Sys.step] at h
    split at h
    · next ho => cases h; exact .outside (by rw [ho]; rfl) rfl
    · cases h
  | enter i =>
    simp only [Sys.step] at h
    split at h
    · next entry ho =>
      have hg : (s.operations i).guarded = false := by rw [ho]; rfl
      split_ifs at h with hp
      · cases h; exact .outside hg rfl
      · cases h; exact .enter hg rfl (not_not.mp hp)
    · cases h
  | finish i result =>
    simp only [Sys.step] at h
    split at h
    · next call ho => cases h; exact .inside (by rw [ho]; rfl) (guarded_next call result)
    · cases h
  | leave i => exact leaveStep_cases h

/-! ### The invariant -/

/-- Where a closer can be in a phase, with a number of operations active. -/
def Fits (phase : Phase) (active : ℕ) (c : Caller) : Prop :=
  match phase with
  | .opened => c = .outside ∨ c = .entering
  | .closing => (∀ first, c ≠ .returned first) ∧ (c = .drainParked → active ≠ 0)
  | .closed => c = .outside ∨ c = .entering ∨ ∃ first, c = .returned first

/-- Who has run the callback. -/
def Runs (s : Sys) : Prop :=
  if s.phase = .opened then s.runs = []
  else ∃ i, s.runs = [i] ∧ (s.closers i).first = true ∧ ∀ j, (s.closers j).first = true → j = i

/-- `active` counts the operations with a guard. -/
def Counts (s : Sys) : Prop :=
  ∃ guards : Finset ℕ, guards.card = s.active ∧ ∀ i, i ∈ guards ↔ (s.operations i).guarded = true

structure Inv (s : Sys) : Prop where
  counts : Counts s
  runs : Runs s
  fits : ∀ i, Fits s.phase s.active (s.closers i)
  action : s.phase = .opened → s.action = true
  closed : s.phase = .closed → s.active = 0

theorem first_notify (c : Caller) : c.notify.first = c.first := by
  cases c <;> rfl

theorem fits_notify {phase : Phase} {active active' : ℕ} {c : Caller} (h : Fits phase active c) :
    Fits phase active' c.notify := by
  cases phase with
  | opened =>
    rcases h with rfl | rfl
    · exact .inl rfl
    · exact .inr rfl
  | closing =>
    refine ⟨fun first hf => ?_, fun hd => ?_⟩
    · refine h.1 first ?_
      cases c <;> first | exact hf | cases hf
    · cases c <;> cases hd
  | closed =>
    rcases h with rfl | rfl | ⟨first, rfl⟩
    · exact .inl rfl
    · exact .inr (.inl rfl)
    · exact .inr (.inr ⟨first, rfl⟩)

/-- A closer on its way is in the phase `Closing`. -/
theorem closing_of_fits {phase : Phase} {active : ℕ} {c : Caller} (h : Fits phase active c)
    (hc : c ≠ .outside ∧ c ≠ .entering ∧ ∀ first, c ≠ .returned first) : phase = .closing := by
  obtain ⟨ho, he, hr⟩ := hc
  cases phase with
  | opened =>
    rcases h with h | h
    · exact absurd h ho
    · exact absurd h he
  | closing => rfl
  | closed =>
    rcases h with h | h | ⟨first, h⟩
    · exact absurd h ho
    · exact absurd h he
    · exact absurd h (hr first)

theorem fits_setCloser {s : Sys} {i : ℕ} {c : Caller} (h : ∀ j, Fits s.phase s.active (s.closers j))
    (hc : Fits s.phase s.active c) (j : ℕ) :
    Fits (s.setCloser i c).phase (s.setCloser i c).active ((s.setCloser i c).closers j) := by
  by_cases hj : j = i
  · subst hj
    rw [show (s.setCloser j c).closers j = c from Function.update_self ..]
    exact hc
  · rw [show (s.setCloser i c).closers j = s.closers j from Function.update_of_ne hj ..]
    exact h j

/-- A closer that goes on in its place. -/
theorem runs_setCloser {s : Sys} {i : ℕ} {c : Caller} (h : Runs s)
    (hc : c.first = (s.closers i).first) : Runs (s.setCloser i c) := by
  have hfirst : ∀ j, ((s.setCloser i c).closers j).first = (s.closers j).first := by
    intro j
    by_cases hj : j = i
    · subst hj
      rw [show (s.setCloser j c).closers j = c from Function.update_self ..]
      exact hc
    · rw [show (s.setCloser i c).closers j = s.closers j from Function.update_of_ne hj ..]
  unfold Runs at h ⊢
  dsimp only [Sys.setCloser] at hfirst ⊢
  simp only [hfirst]
  exact h

theorem runs_notifyAll {s : Sys} (h : Runs s) : Runs s.notifyAll := by
  unfold Runs at h ⊢
  simp only [Sys.notifyAll, first_notify]
  exact h

/-- An operation that keeps, or keeps out of, its guard. -/
theorem counts_setOperation {s : Sys} {i : ℕ} {o : Operation} (h : Counts s)
    (ho : o.guarded = (s.operations i).guarded) : Counts (s.setOperation i o) := by
  obtain ⟨guards, hcard, hmem⟩ := h
  refine ⟨guards, hcard, fun j => ?_⟩
  by_cases hj : j = i
  · subst hj
    rw [show (s.setOperation j o).operations j = o from Function.update_self .., ho]
    exact hmem j
  · rw [show (s.setOperation i o).operations j = s.operations j from Function.update_of_ne hj ..]
    exact hmem j

theorem counts_enter {s : Sys} {i : ℕ} {o : Operation} (h : Counts s)
    (hi : (s.operations i).guarded = false) (ho : o.guarded = true) :
    Counts { s.setOperation i o with active := s.active + 1 } := by
  obtain ⟨guards, hcard, hmem⟩ := h
  have hnot : i ∉ guards := by
    rw [hmem, hi]
    exact Bool.false_ne_true
  refine ⟨insert i guards, by rw [Finset.card_insert_of_notMem hnot, hcard], fun j => ?_⟩
  dsimp only [Sys.setOperation]
  by_cases hj : j = i
  · subst hj
    simp only [Finset.mem_insert_self, Function.update_self, ho]
  · rw [Function.update_of_ne hj, Finset.mem_insert, hmem]
    simp only [hj, false_or]

theorem counts_leave {s : Sys} {i : ℕ} {o : Operation} (h : Counts s)
    (hi : (s.operations i).guarded = true) (ho : o.guarded = false) :
    Counts { s.setOperation i o with active := s.active - 1 } := by
  obtain ⟨guards, hcard, hmem⟩ := h
  have hin : i ∈ guards := (hmem i).mpr hi
  refine ⟨guards.erase i, by rw [Finset.card_erase_of_mem hin, hcard], fun j => ?_⟩
  dsimp only [Sys.setOperation]
  by_cases hj : j = i
  · subst hj
    simp only [Finset.notMem_erase, Function.update_self, ho, Bool.false_eq_true]
  · rw [Function.update_of_ne hj, Finset.mem_erase, hmem]
    simp only [ne_eq, hj, not_false_eq_true, true_and]

/-- **A step keeps the invariant.** -/
theorem inv_step {s s' : Sys} (hi : Inv s) (hs : Step s s') : Inv s' := by
  obtain ⟨hcounts, hruns, hfits, haction, hclosed⟩ := hi
  cases hs with
  | @call i hc =>
    refine ⟨hcounts, runs_setCloser hruns (by rw [hc]; rfl), fits_setCloser hfits ?_, haction,
      hclosed⟩
    cases s.phase with
    | opened => exact .inr rfl
    | closing => exact ⟨fun _ h => (by cases h), fun h => (by cases h)⟩
    | closed => exact .inr (.inl rfl)
  | late hc hp =>
    refine ⟨hcounts, runs_setCloser hruns (by rw [hc]; rfl), fits_setCloser hfits ?_, haction,
      hclosed⟩
    rw [hp]
    exact .inr (.inr ⟨false, rfl⟩)
  | park hc hp =>
    refine ⟨hcounts, runs_setCloser hruns (by rw [hc]; rfl), fits_setCloser hfits ?_, haction,
      hclosed⟩
    rw [hp]
    exact ⟨fun _ h => (by cases h), fun h => (by cases h)⟩
  | @begin i hc hp =>
    have houtside : ∀ j, s.closers j = .outside ∨ s.closers j = .entering := by
      intro j
      have hj := hfits j
      rw [hp] at hj
      exact hj
    refine ⟨hcounts, ?_, fun j => ?_, fun h => (by cases h), fun h => (by cases h)⟩
    · simp only [Runs, hp, if_true] at hruns
      refine ⟨i, by simp only [hruns, List.nil_append], by simp only [Sys.setCloser,
        Function.update_self, Caller.first], fun j hj => ?_⟩
      by_contra hne
      dsimp only [Sys.setCloser] at hj
      rw [Function.update_of_ne hne] at hj
      rcases houtside j with h | h
      all_goals
        rw [h] at hj
        cases hj
    · dsimp only [Sys.setCloser]
      by_cases hj : j = i
      · subst hj
        rw [Function.update_self]
        exact ⟨fun _ h => (by cases h), fun h => (by cases h)⟩
      · rw [Function.update_of_ne hj]
        rcases houtside j with h | h
        all_goals
          rw [h]
          exact ⟨fun _ h => (by cases h), fun h => (by cases h)⟩
  | @callback i c hc hcase =>
    have hp : s.phase = .closing := closing_of_fits (hfits i) (by simp [hc])
    have hfirst : c.first = (s.closers i).first := by
      rw [hc]
      rcases hcase with rfl | rfl <;> rfl
    refine ⟨hcounts, runs_setCloser hruns hfirst, fits_setCloser hfits ?_, haction, hclosed⟩
    rw [hp]
    rcases hcase with rfl | rfl
    all_goals exact ⟨fun _ h => (by cases h), fun h => (by cases h)⟩
  | @drainPark i hc ha =>
    have hp : s.phase = .closing := closing_of_fits (hfits i) (by simp [hc])
    refine ⟨hcounts, runs_setCloser hruns (by rw [hc]; rfl), fits_setCloser hfits ?_, haction,
      hclosed⟩
    rw [hp]
    exact ⟨fun _ h => (by cases h), fun _ => ha⟩
  | @close i hc ha =>
    have hp : s.phase = .closing := closing_of_fits (hfits i) (by simp [hc])
    have hfirst : (Caller.returned true).first = (s.closers i).first := by rw [hc]; rfl
    refine ⟨hcounts, ?_, fun j => ?_, fun h => (by cases h), fun _ => ha⟩
    · have hr := runs_notifyAll (runs_setCloser hruns hfirst)
      simp only [Runs, Sys.notifyAll, Sys.setCloser, hp, reduceCtorEq, if_false] at hr ⊢
      exact hr
    · -- only the first closer is past the first loop
      simp only [Runs, hp, reduceCtorEq, if_false] at hruns
      obtain ⟨k, -, -, hunique⟩ := hruns
      have hik : i = k := hunique i (by rw [hc]; rfl)
      dsimp only [Sys.notifyAll, Sys.setCloser]
      by_cases hj : j = i
      · subst hj
        rw [Function.update_self]
        exact .inr (.inr ⟨true, rfl⟩)
      · rw [Function.update_of_ne hj]
        have hnot : (s.closers j).first ≠ true := fun h => hj ((hunique j h).trans hik.symm)
        have hret := (hp ▸ hfits j).1
        cases hcj : s.closers j with
        | outside => exact .inl rfl
        | entering => exact .inr (.inl rfl)
        | parked => exact .inr (.inl rfl)
        | returned first => exact absurd hcj (hret first)
        | _ =>
          rw [hcj] at hnot
          exact absurd rfl hnot
  | @wake i =>
    refine ⟨hcounts, runs_setCloser hruns (first_notify _), fits_setCloser hfits ?_, haction,
      hclosed⟩
    exact fits_notify (hfits i)
  | outside hg ho =>
    exact ⟨counts_setOperation hcounts (ho.trans hg.symm), hruns, hfits, haction, hclosed⟩
  | enter hg ho hp =>
    refine ⟨counts_enter hcounts hg ho, hruns, fun j => ?_, haction, fun h => ?_⟩
    · have hj := hfits j
      dsimp only [Sys.setOperation]
      rw [hp] at hj ⊢
      exact hj
    · exact absurd (hp.symm.trans h) (by decide)
  | inside hg ho =>
    exact ⟨counts_setOperation hcounts (ho.trans hg.symm), hruns, hfits, haction, hclosed⟩
  | leave hg ho ha =>
    refine ⟨counts_leave hcounts hg ho, hruns, fun j => ?_, haction, fun h => ?_⟩
    · have hj := hfits j
      dsimp only [Sys.setOperation]
      cases hp : s.phase with
      | closing =>
        rw [hp] at hj
        refine ⟨hj.1, fun _ => ?_⟩
        omega
      | _ =>
        rw [hp] at hj
        exact hj
    · have h0 := hclosed h
      omega
  | last hg ho ha =>
    refine ⟨?_, runs_notifyAll hruns, fun j => fits_notify (hfits j), haction, fun _ => rfl⟩
    have hc := counts_leave hcounts hg ho
    rw [ha] at hc
    exact hc

theorem inv_new : Inv Sys.new := by
  refine ⟨⟨∅, rfl, fun i => ?_⟩, rfl, fun _ => .inl rfl, fun _ => rfl, fun h => (by cases h)⟩
  simp only [Finset.notMem_empty, Sys.new, Operation.guarded, Bool.false_eq_true]

theorem inv_reachable {s : Sys} (h : stream.Reachable s) : Inv s :=
  h.invariant (I := Inv) inv_new fun _ _ _ _ hi hs => inv_step hi (step_cases hs)

/-! ### Shutdown is coordinated -/

/-- `Open → Closing → Closed`. -/
def Moves (phase phase' : Phase) : Prop :=
  phase' = phase ∨ phase = .opened ∧ phase' = .closing ∨ phase = .closing ∧ phase' = .closed

/-- Only a closer that leaves `Open` starts the callback, and only an open stream admits. -/
def Ordered (s s' : Sys) : Prop :=
  Moves s.phase s'.phase ∧
  (∀ i, s'.closers i = .running → s.closers i ≠ .running →
    s.phase = .opened ∧ s'.phase = .closing ∧ s'.runs = s.runs ++ [i]) ∧
  (s.phase = .opened → s'.phase ≠ .opened →
    ∃ i, s.closers i = .entering ∧ s'.closers i = .running) ∧
  (∀ i, (s'.operations i).guarded = true → (s.operations i).guarded = false → s.phase = .opened)

theorem running_of_notify {c : Caller} (h : c.notify = .running) : c = .running := by
  cases c <;> first | rfl | cases h

/-- A step within a phase. -/
theorem ordered_of_phase {s s' : Sys} (hp : s'.phase = s.phase)
    (hc : ∀ i, s'.closers i = .running → s.closers i = .running)
    (ho : ∀ i, (s'.operations i).guarded = true → (s.operations i).guarded = false →
      s.phase = .opened) : Ordered s s' := by
  refine ⟨.inl hp, fun i hi hne => absurd (hc i hi) hne, fun h h' => ?_, ho⟩
  exact absurd (hp.trans h) h'

theorem ordered_setCloser {s : Sys} {i : ℕ} {c : Caller}
    (hc : c = .running → s.closers i = .running) : Ordered s (s.setCloser i c) := by
  refine ordered_of_phase rfl (fun j hj => ?_) fun j hj hne => ?_
  · by_cases hji : j = i
    · subst hji
      rw [show (s.setCloser j c).closers j = c from Function.update_self ..] at hj
      exact hc hj
    · rwa [show (s.setCloser i c).closers j = s.closers j from Function.update_of_ne hji ..] at hj
  · exact absurd (hj.symm.trans hne) (by decide)

/-- A guard that appears is the one of the operation that moves. -/
theorem guarded_setOperation {s : Sys} {i j : ℕ} {o : Operation}
    (hj : ((s.setOperation i o).operations j).guarded = true)
    (hne : (s.operations j).guarded = false) : j = i ∧ o.guarded = true := by
  by_cases hji : j = i
  · subst hji
    rw [show (s.setOperation j o).operations j = o from Function.update_self ..] at hj
    exact ⟨rfl, hj⟩
  · rw [show (s.setOperation i o).operations j = s.operations j from
      Function.update_of_ne hji .., hne] at hj
    cases hj

theorem ordered_step {s s' : Sys} (hi : Inv s) (hs : Step s s') : Ordered s s' := by
  cases hs with
  | call hc => exact ordered_setCloser fun h => (by cases h)
  | late hc hp => exact ordered_setCloser fun h => (by cases h)
  | park hc hp => exact ordered_setCloser fun h => (by cases h)
  | @begin i hc hp =>
    refine ⟨.inr (.inl ⟨hp, rfl⟩), fun j hj hne => ?_, fun _ _ => ⟨i, hc, ?_⟩, fun _ _ _ => hp⟩
    · by_cases hji : j = i
      · subst hji
        exact ⟨hp, rfl, rfl⟩
      · dsimp only [Sys.setCloser] at hj
        rw [Function.update_of_ne hji] at hj
        exact absurd hj hne
    · exact Function.update_self ..
  | callback hc hcase =>
    refine ordered_setCloser fun h => ?_
    rcases hcase with rfl | rfl <;> cases h
  | drainPark hc ha => exact ordered_setCloser fun h => (by cases h)
  | @close i hc ha =>
    have hp : s.phase = .closing := closing_of_fits (hi.fits i) (by simp [hc])
    refine ⟨.inr (.inr ⟨hp, rfl⟩), fun j hj hne => ?_,
      fun h => absurd (hp.symm.trans h) (by decide), fun j hj hne => ?_⟩
    · have hj' := running_of_notify hj
      by_cases hji : j = i
      · subst hji
        rw [show (s.setCloser j (.returned true)).closers j = .returned true from
          Function.update_self ..] at hj'
        cases hj'
      · rw [show (s.setCloser i (.returned true)).closers j = s.closers j from
          Function.update_of_ne hji ..] at hj'
        exact absurd hj' hne
    · exact absurd (hj.symm.trans hne) (by decide)
  | wake => exact ordered_setCloser running_of_notify
  | outside hg ho =>
    refine ordered_of_phase rfl (fun _ h => h) fun j hj hne => ?_
    exact absurd ((guarded_setOperation hj hne).2.symm.trans ho) (by decide)
  | enter hg ho hp => exact ordered_of_phase rfl (fun _ h => h) fun _ _ _ => hp
  | inside hg ho =>
    refine ordered_of_phase rfl (fun _ h => h) fun j hj hne => ?_
    rw [(guarded_setOperation hj hne).1] at hne
    exact absurd (hg.symm.trans hne) (by decide)
  | leave hg ho ha =>
    refine ordered_of_phase rfl (fun _ h => h) fun j hj hne => ?_
    exact absurd ((guarded_setOperation hj hne).2.symm.trans ho) (by decide)
  | last hg ho ha =>
    refine ordered_of_phase rfl (fun _ h => running_of_notify h) fun j hj hne => ?_
    exact absurd ((guarded_setOperation hj hne).2.symm.trans ho) (by decide)

/-- Nothing panics: `active` is not zero while a guard is dropped, and the callback is there while
the stream is open. -/
theorem step_panic {s : Sys} (hi : Inv s) (a : Action) (p : Panic) : s.step a ≠ .panic p := by
  intro h
  cases a with
  | lock i =>
    simp only [Sys.step, Sys.lockStep] at h
    split at h
    · split at h
      · cases h
      · cases h
      · next hp =>
        rw [hi.action hp, if_pos rfl] at h
        cases h
    · split_ifs at h
    · cases h
  | leave i =>
    simp only [Sys.step, Sys.leaveStep] at h
    split at h
    · next next ho =>
      split_ifs at h with ha
      obtain ⟨guards, hcard, hmem⟩ := hi.counts
      have hin : i ∈ guards := (hmem i).mpr (by rw [ho]; rfl)
      have hpos := Finset.card_pos.mpr ⟨i, hin⟩
      omega
    · cases h
  | enter i =>
    simp only [Sys.step] at h
    split at h
    · split_ifs at h
    · cases h
  | wake i => cases h
  | _ =>
    simp only [Sys.step] at h
    split at h <;> cases h

/-- The callback has returned, and no adapter call is running. -/
def Finished (s : Sys) : Prop :=
  s.phase = .closed ∧ (∃ i, s.runs = [i] ∧ s.closers i = .returned true) ∧
  (∀ i, s.closers i ≠ .running) ∧ ∀ i, (s.operations i).guarded = false

theorem finished_of_closed {s : Sys} (hi : Inv s) (hp : s.phase = .closed) : Finished s := by
  obtain ⟨⟨guards, hcard, hmem⟩, hruns, hfits, -, hclosed⟩ := hi
  simp only [Runs, hp, reduceCtorEq, if_false] at hruns
  obtain ⟨i, hr, hfirst, -⟩ := hruns
  have hplace : ∀ j, s.closers j = .outside ∨ s.closers j = .entering ∨
      ∃ first, s.closers j = .returned first := fun j => (hp ▸ hfits j : Fits .closed _ _)
  refine ⟨hp, ⟨i, hr, ?_⟩, fun j hj => ?_, fun j => ?_⟩
  · rcases hplace i with h | h | ⟨first, h⟩
    · rw [h] at hfirst
      cases hfirst
    · rw [h] at hfirst
      cases hfirst
    · rw [h] at hfirst ⊢
      rw [show first = true from hfirst]
  · rcases hplace j with h | h | ⟨first, h⟩ <;> cases h.symm.trans hj
  · have hempty : guards = ∅ := by
      rw [← Finset.card_eq_zero, hcard]
      exact hclosed hp
    rw [Bool.eq_false_iff, ne_eq, ← hmem, hempty]
    exact Finset.notMem_empty j

theorem closed_of_returned {s : Sys} (hi : Inv s) {i : ℕ} {first : Bool}
    (h : s.closers i = .returned first) : s.phase = .closed := by
  have hfits := hi.fits i
  rw [h] at hfits
  cases hp : s.phase with
  | opened =>
    rw [hp] at hfits
    rcases hfits with h | h <;> cases h
  | closing =>
    rw [hp] at hfits
    exact absurd rfl (hfits.1 first)
  | closed => rfl

theorem closed_run {s s' : Sys} (hs : stream.Reachable s) (hp : s.phase = .closed)
    {as : List Action} (hr : stream.run as s = some s') : s'.phase = .closed := by
  refine (Machine.run_invariant (I := fun s => stream.Reachable s ∧ s.phase = .closed) ?_ ⟨hs, hp⟩
    hr).2
  rintro s a s' ⟨hs, hp⟩ hstep
  refine ⟨hs.step hstep, ?_⟩
  rcases (ordered_step (inv_reachable hs) (step_cases hstep)).1 with h | ⟨h, -⟩ | ⟨h, -⟩
  · exact h.trans hp
  all_goals cases hp.symm.trans h

/-- **Shutdown of a stream is coordinated.** The phase only moves forward, one closer runs the
callback, `active` counts the guards, nothing is admitted once closing begins, and no closer sleeps
through what it waits for. Once a call of `close` has returned, the callback has too, no adapter
call is running, and in no continuation will one run again. -/
theorem shutdown {s : Sys} (h : stream.Reachable s) :
    (∀ a s', stream.step s a = .next s' → Ordered s s') ∧
    (∀ a p, stream.step s a ≠ .panic p) ∧ Runs s ∧ Counts s ∧
    (∀ i first, s.closers i = .returned first →
      ∀ as s', stream.run as s = some s' → Finished s') ∧
    (∀ i, s.closers i = .parked ∨ s.closers i = .drainParked → s.phase = .closing) ∧
    (∀ i, s.closers i = .drainParked → s.active ≠ 0) := by
  have hi := inv_reachable h
  refine ⟨fun a s' hs => ordered_step hi (step_cases hs), step_panic hi, hi.runs, hi.counts,
    fun i first hr as s' hrun => ?_, fun i hc => ?_, fun i hc => ?_⟩
  · exact finished_of_closed (inv_reachable (h.run hrun))
      (closed_run h (closed_of_returned hi hr) hrun)
  · refine closing_of_fits (hi.fits i) ?_
    rcases hc with hc | hc <;> simp [hc]
  · have hp : s.phase = .closing := closing_of_fits (hi.fits i) (by simp [hc])
    have hfits := hi.fits i
    rw [hp] at hfits
    exact hfits.2 hc

/-- Two closers and a writer: the second closer waits for the first, which waits for the write. -/
theorem shutdown_twoClosers :
    ∃ s s' : Sys, stream.Reachable s ∧ s.closers 0 = .drainParked ∧ s.closers 1 = .parked ∧
      s.active ≠ 0 ∧ stream.run [.finish 0 (.ok 3), .leave 0, .lock 0, .lock 1, .enter 0] s =
        some s' ∧ s'.closers 1 = .returned false ∧ Finished s' := by
  have hrun : ∃ s, stream.run [.write 0 3, .enter 0, .finish 0 (.ok 0), .leave 0, .enter 0,
      .close 0, .close 1, .lock 0, .lock 1, .callback 0 false, .lock 0] stream.init = some s ∧
      s.closers 0 = .drainParked ∧ s.closers 1 = .parked ∧
      ∃ s', stream.run [.finish 0 (.ok 3), .leave 0, .lock 0, .lock 1, .enter 0] s = some s' ∧
        s'.closers 1 = .returned false :=
    ⟨_, rfl, rfl, rfl, _, rfl, rfl⟩
  obtain ⟨s, hs, h0, h1, s', hs', hr⟩ := hrun
  have hreach := Machine.reachable_of_run hs
  have hactive := (shutdown hreach).2.2.2.2.2.2 0 h0
  have hfinished := (shutdown (hreach.run hs')).2.2.2.2.1 1 false hr [] s' rfl
  exact ⟨s, s', hreach, h0, h1, hactive, hs', hr, hfinished⟩

end ArkWire.Transport.Shutdown
