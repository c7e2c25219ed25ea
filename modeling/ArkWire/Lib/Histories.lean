import Mathlib.Tactic

/-! # Histories

A history is a list of events, the latest last. A rule says when an event may follow a history, and
a history is legal if each of its events was allowed by the events before it. Legality is kept by
appending allowed events, and gives back the rule at every event; this turns what a step knows of
the present state into what holds between any two events of a run. -/

namespace ArkWire.Lib.Histories

variable {ε : Type*} {A : List ε → ε → Prop} {log : List ε}

/-- Every event was allowed by those before it. -/
def Legal (A : List ε → ε → Prop) (log : List ε) : Prop :=
  ∀ pre e post, log = pre ++ e :: post → A pre e

theorem Legal.nil : Legal A [] := by
  intro pre e post h
  have hne : pre ++ e :: post ≠ [] := by simp
  exact absurd h.symm hne

theorem Legal.append (h : Legal A log) {e : ε} (he : A log e) : Legal A (log ++ [e]) := by
  intro pre e' post hsplit
  rcases List.eq_nil_or_concat post with rfl | ⟨post', last, rfl⟩
  · obtain ⟨rfl, hlast⟩ := List.append_inj' hsplit rfl
    rw [List.cons.injEq] at hlast
    exact hlast.1 ▸ he
  · refine h pre e' post' ?_
    have hlen : log ++ [e] = (pre ++ e' :: post') ++ [last] := by simpa using hsplit
    exact (List.append_inj' hlen rfl).1

theorem Legal.of_append {later : List ε} (h : Legal A (log ++ later)) : Legal A log := by
  intro pre e post hsplit
  refine h pre e (post ++ later) ?_
  rw [hsplit, List.append_assoc, List.cons_append]

/-- The rule at a later event. -/
theorem Legal.after (h : Legal A log) {pre post : List ε} {e e' : ε}
    (hsplit : log = pre ++ e :: post) (he : e' ∈ post) :
    ∃ mid later, post = mid ++ e' :: later ∧ A (pre ++ e :: mid) e' := by
  obtain ⟨mid, later, rfl⟩ := List.append_of_mem he
  refine ⟨mid, later, rfl, h _ e' later ?_⟩
  rw [hsplit, List.append_assoc, List.cons_append]

/-- The rule at some event of the history. -/
theorem Legal.of_mem (h : Legal A log) {e : ε} (he : e ∈ log) :
    ∃ pre post, log = pre ++ e :: post ∧ A pre e := by
  obtain ⟨pre, post, rfl⟩ := List.append_of_mem he
  exact ⟨pre, post, rfl, h pre e post rfl⟩

/-- What may not follow its like happens at most once. -/
theorem Legal.countP_le_one (h : Legal A log) {q : ε → Bool}
    (hq : ∀ pre e, A pre e → q e = true → ∀ e' ∈ pre, q e' = false) : log.countP q ≤ 1 := by
  induction log using List.reverseRecOn with
  | nil => exact Nat.zero_le _
  | append_singleton log e ih =>
    rw [List.countP_append, List.countP_singleton]
    split
    · next he =>
      have hpre : log.countP q = 0 := by
        rw [List.countP_eq_zero]
        intro e' he'
        simpa using hq log e (h log e [] rfl) he e' he'
      omega
    · exact ih h.of_append

end ArkWire.Lib.Histories
