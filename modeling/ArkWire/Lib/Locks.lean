import Mathlib.Tactic

/-! # Mutexes and the threads that hold them

`pc` says where each thread is in its code and `holds` where it holds the mutex. The mutex records
its holder; `Guarded` says that the record is right, which makes the mutex exclusive. A thread moves
by an update of `pc`: it keeps, takes or releases the mutex. -/

namespace ArkWire.Lib.Locks

variable {τ σ : Type*} {holds : σ → Prop} {pc : τ → σ} {holder : Option τ} {t : τ}

/-- The mutex is held by the thread it records. -/
def Guarded (holds : σ → Prop) (pc : τ → σ) (holder : Option τ) : Prop :=
  ∀ t, holds (pc t) ↔ holder = some t

/-- **Exclusion.** -/
theorem Guarded.unique (h : Guarded holds pc holder) {u : τ} (ht : holds (pc t))
    (hu : holds (pc u)) :
    u = t := by
  have h1 := (h t).mp ht
  have h2 := (h u).mp hu
  rw [h1, Option.some.injEq] at h2
  exact h2.symm

theorem Guarded.free (h : Guarded holds pc none) (u : τ) : ¬ holds (pc u) := by
  intro hu
  have hn := (h u).mp hu
  cases hn

variable [DecidableEq τ]

/-- A move between two places where the thread holds the mutex, or two where it does not. -/
theorem Guarded.keep (h : Guarded holds pc holder) {s : σ} (hs : holds s ↔ holds (pc t)) :
    Guarded holds (Function.update pc t s) holder := by
  intro u
  by_cases hu : u = t
  · rw [hu, Function.update_self, hs]
    exact h t
  · rw [Function.update_of_ne hu]
    exact h u

theorem Guarded.acquire (h : Guarded holds pc none) {s : σ} (hs : holds s) :
    Guarded holds (Function.update pc t s) (some t) := by
  intro u
  by_cases hu : u = t
  · rw [hu, Function.update_self]
    exact ⟨fun _ => rfl, fun _ => hs⟩
  · rw [Function.update_of_ne hu]
    refine ⟨fun hold => absurd hold (h.free u), fun he => ?_⟩
    rw [Option.some.injEq] at he
    exact absurd he.symm hu

theorem Guarded.release (h : Guarded holds pc holder) (ht : holds (pc t)) {s : σ} (hs : ¬ holds s) :
    Guarded holds (Function.update pc t s) none := by
  intro u
  refine ⟨fun hold => ?_, fun he => (by cases he)⟩
  by_cases hu : u = t
  · rw [hu, Function.update_self] at hold
    exact absurd hold hs
  · rw [Function.update_of_ne hu] at hold
    exact absurd (h.unique ht hold) hu

end ArkWire.Lib.Locks
