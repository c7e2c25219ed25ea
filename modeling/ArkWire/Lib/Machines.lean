import Mathlib.Tactic

/-! # Machines: executable transition systems

A machine has a state, takes one labelled step at a time, and a step may be blocked (its guard does
not hold, or the caller has to wait), may panic, or may lead to a next state. Interleaving is the
choice of the labels: a label names the thread or the call that moves and every value it reads from
outside (clock readings, results of I/O). `Reachable` are the states of all finite runs. -/

namespace ArkWire.Lib.Machines

/-- What one step can do. -/
inductive Outcome (π σ : Type*) where
  | blocked
  | panic (p : π)
  | next (s : σ)

/-- An executable transition system with states `σ`, labels `α` and panics `π`. -/
structure Machine (σ α π : Type*) where
  init : σ
  step : σ → α → Outcome π σ

namespace Machine

variable {σ α π : Type*} {m : Machine σ α π}

/-- The states of all finite runs. -/
inductive Reachable (m : Machine σ α π) : σ → Prop
  | init : Reachable m m.init
  | step {s s' : σ} {a : α} : Reachable m s → m.step s a = .next s' → Reachable m s'

/-- **The invariant rule**: what holds at the start and is kept by every step out of a reachable
state holds in every reachable state. -/
theorem Reachable.invariant {I : σ → Prop} (h0 : I m.init)
    (hs : ∀ s a s', Reachable m s → I s → m.step s a = .next s' → I s') {s : σ}
    (h : Reachable m s) : I s := by
  induction h with
  | init => exact h0
  | step hr hstep ih => exact hs _ _ _ hr ih hstep

/-- What is reached from a reachable state is reachable. -/
theorem Reachable.later {s s' : σ} (h : Reachable m s) (h' : Reachable { m with init := s } s') :
    Reachable m s' :=
  h'.invariant h fun _ _ _ _ hr hstep => hr.step hstep

/-- The run of a list of labels, if none of them blocks or panics. -/
def run (m : Machine σ α π) : List α → σ → Option σ
  | [], s => some s
  | a :: as, s =>
    match m.step s a with
    | .next s' => run m as s'
    | _ => none

theorem Reachable.run {s s' : σ} (h : Reachable m s) :
    ∀ {as : List α}, m.run as s = some s' → Reachable m s'
  | [], hr => by
    simp only [Machine.run, Option.some.injEq] at hr
    exact hr ▸ h
  | a :: as, hr => by
    simp only [Machine.run] at hr
    split at hr
    · next s1 h1 => exact Reachable.run (h.step h1) hr
    · cases hr

/-- What every step keeps, every run keeps. -/
theorem run_invariant {I : σ → Prop} (hs : ∀ s a s', I s → m.step s a = .next s' → I s') :
    ∀ {as : List α} {s s' : σ}, I s → m.run as s = some s' → I s'
  | [], s, s', hi, hr => by
    simp only [Machine.run, Option.some.injEq] at hr
    exact hr ▸ hi
  | a :: as, s, s', hi, hr => by
    simp only [Machine.run] at hr
    split at hr
    · next s1 h1 => exact run_invariant hs (hs _ _ _ hi h1) hr
    · cases hr

theorem reachable_of_run {as : List α} {s : σ} (h : m.run as m.init = some s) : Reachable m s :=
  Reachable.init.run h

end Machine

end ArkWire.Lib.Machines
