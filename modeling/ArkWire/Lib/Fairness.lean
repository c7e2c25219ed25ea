import ArkWire.Lib.Machines

/-! # Infinite runs, fairness and lock orders

A `Course` is an infinite run of a machine. At each moment a label is taken or nothing happens, so a
run that has come to its end is a course as well (`Course.ofRun`). `Fair` is strong fairness: a
thread that can move again and again moves again and again.

`Orderly` threads take locks in the order of a rank and hold them in sections that end. If they are
fair, then every lock is free again and again (`Orderly.freed`), so no thread waits for one forever
(`Orderly.goes_on`). Nothing is assumed of who gets a lock that several threads wait for. -/

namespace ArkWire.Lib.Fairness

open ArkWire.Lib.Machines

/-! ### Courses -/

section Course

variable {σ α π : Type*}

/-- An infinite run. -/
structure Course (m : Machine σ α π) where
  state : ℕ → σ
  label : ℕ → Option α
  starts : state 0 = m.init
  follows : ∀ n, label n = none ∧ state (n + 1) = state n ∨
    ∃ a, label n = some a ∧ m.step (state n) a = .next (state (n + 1))

variable {m : Machine σ α π}

theorem Course.reachable (r : Course m) (n : ℕ) : m.Reachable (r.state n) := by
  induction n with
  | zero =>
    rw [r.starts]
    exact .init
  | succ n ih =>
    rcases r.follows n with ⟨-, hsame⟩ | ⟨a, -, hstep⟩
    · rw [hsame]
      exact ih
    · exact ih.step hstep

theorem run_append {as bs : List α} {s s' s'' : σ} (h : m.run as s = some s')
    (h' : m.run bs s' = some s'') : m.run (as ++ bs) s = some s'' := by
  induction as generalizing s with
  | nil =>
    simp only [Machine.run, Option.some.injEq] at h
    rw [h]
    exact h'
  | cons a as ih =>
    simp only [List.cons_append, Machine.run] at h ⊢
    split at h
    · next s1 h1 => exact ih h
    · cases h

/-- What comes before the end of a run is a run. -/
theorem run_of_append {as bs : List α} {s s'' : σ} (h : m.run (as ++ bs) s = some s'') :
    ∃ s', m.run as s = some s' ∧ m.run bs s' = some s'' := by
  induction as generalizing s with
  | nil => exact ⟨s, rfl, h⟩
  | cons a as ih =>
    simp only [List.cons_append, Machine.run] at h ⊢
    split at h
    · next s1 h1 => exact ih h
    · cases h

/-- The states of a run, and its last one for ever after. -/
def stateAt (m : Machine σ α π) (as : List α) (n : ℕ) : σ := (m.run (as.take n) m.init).getD m.init

theorem stateAt_zero (m : Machine σ α π) (as : List α) : stateAt m as 0 = m.init := rfl

theorem stateAt_of_length_le {as : List α} {s : σ} (h : m.run as m.init = some s) {n : ℕ}
    (hn : as.length ≤ n) : stateAt m as n = s := by
  rw [stateAt, List.take_of_length_le hn, h, Option.getD_some]

/-- From one moment of a run to the next. -/
theorem stateAt_succ {as : List α} {s : σ} (h : m.run as m.init = some s) (n : ℕ) :
    as[n]? = none ∧ stateAt m as (n + 1) = stateAt m as n ∨
      ∃ a, as[n]? = some a ∧ m.step (stateAt m as n) a = .next (stateAt m as (n + 1)) := by
  rcases Nat.lt_or_ge n as.length with hlt | hlength
  · have hsplit : m.run (as.take n ++ as.drop n) m.init = some s := by
      rw [List.take_append_drop]
      exact h
    obtain ⟨s', hs', hrest⟩ := run_of_append hsplit
    refine .inr ⟨as[n], List.getElem?_eq_getElem hlt, ?_⟩
    rw [List.drop_eq_getElem_cons hlt, Machine.run] at hrest
    split at hrest
    · next s1 h1 =>
      have hone : m.run [as[n]] s' = some s1 := by simp only [Machine.run, h1]
      rw [stateAt, stateAt, List.take_succ_eq_append_getElem hlt, run_append hs' hone, hs']
      exact h1
    · cases hrest
  · refine .inl ⟨List.getElem?_eq_none hlength, ?_⟩
    rw [stateAt_of_length_le h hlength, stateAt_of_length_le h (by omega)]

/-- A run, and nothing after it. -/
def Course.ofRun {as : List α} {s : σ} (h : m.run as m.init = some s) : Course m where
  state := stateAt m as
  label n := as[n]?
  starts := stateAt_zero m as
  follows := stateAt_succ h

theorem Course.ofRun_state {as : List α} {s : σ} (h : m.run as m.init = some s) {n : ℕ}
    (hn : as.length ≤ n) : (Course.ofRun h).state n = s :=
  stateAt_of_length_le h hn

end Course

/-! ### Fairness and locks -/

variable {τ κ θ : Type*}

/-- Strong fairness. -/
def Fair (can moves : ℕ → τ → Prop) : Prop :=
  ∀ t, (∀ n, ∃ m, n ≤ m ∧ can m t) → ∀ n, ∃ m, n ≤ m ∧ moves m t

/-- **Threads that take locks in an order.** Each thread is at a place of its program, which says
which lock it is to take next. Its own steps take it on, and on the way to the release of a lock it
holds they come to an end (`shrinks`). -/
structure Orderly (place : ℕ → τ → θ) (holder : ℕ → κ → Option τ) (can moves : ℕ → τ → Prop)
    (wants : θ → Option κ) (shrinks : κ → θ → θ → Prop) (rank : κ → ℕ) (bound : ℕ) : Prop where
  stays : ∀ n t, ¬moves n t → place (n + 1) t = place n t
  keeps : ∀ n t l, ¬moves n t → holder n l = some t → holder (n + 1) l = some t
  frees : ∀ n t l, moves n t → holder n l = some t → holder (n + 1) l = none ∨
    holder (n + 1) l = some t ∧ shrinks l (place (n + 1) t) (place n t)
  ends : ∀ n t l, holder n l = some t → Acc (shrinks l) (place n t)
  able : ∀ n t l, holder n l = some t →
    (∀ l', wants (place n t) = some l' → holder n l' = none) → can n t
  order : ∀ n t l l', holder n l = some t → wants (place n t) = some l' → rank l < rank l'
  bounded : ∀ l, rank l < bound

variable {place : ℕ → τ → θ} {holder : ℕ → κ → Option τ} {can moves : ℕ → τ → Prop}
  {wants : θ → Option κ} {shrinks : κ → θ → θ → Prop} {rank : κ → ℕ} {bound n m : ℕ} {t : τ}

/-- The next move of a thread. -/
theorem first_move (hm : ∃ m, n ≤ m ∧ moves m t) :
    ∃ m, n ≤ m ∧ moves m t ∧ ∀ k, n ≤ k → k < m → ¬moves k t := by
  classical
  refine ⟨Nat.find hm, (Nat.find_spec hm).1, (Nat.find_spec hm).2, fun k hk hlt hmove => ?_⟩
  exact Nat.find_min hm hlt ⟨hk, hmove⟩

/-- A thread that can go on whenever the lock it wants is free goes on, if the lock is free again
and again. -/
theorem Fair.moves_of_free (hfair : Fair can moves) {want : Option κ}
    (hable : ∀ m, n ≤ m → (∀ k, n ≤ k → k < m → ¬moves k t) →
      (∀ l, want = some l → holder m l = none) → can m t)
    (hfree : ∀ l, want = some l → ∀ k, ∃ m, k ≤ m ∧ holder m l = none) :
    ∃ m, n ≤ m ∧ moves m t := by
  by_contra hnever
  have hstill : ∀ k, n ≤ k → ¬moves k t := fun k hk hmove => hnever ⟨k, hk, hmove⟩
  refine hnever (hfair t (fun k => ?_) n)
  cases want with
  | none =>
    refine ⟨max n k, le_max_right n k, hable _ (le_max_left n k) (fun j hj _ => hstill j hj) ?_⟩
    intro l hl
    cases hl
  | some l =>
    obtain ⟨m, hm, hl⟩ := hfree l rfl (max n k)
    have hnm : n ≤ m := (le_max_left n k).trans hm
    refine ⟨m, (le_max_right n k).trans hm, hable m hnm (fun j hj _ => hstill j hj) ?_⟩
    intro l' hl'
    rw [Option.some.injEq] at hl'
    exact hl' ▸ hl

namespace Orderly

variable (h : Orderly place holder can moves wants shrinks rank bound)

include h

/-- A thread that does not move stays where it is, with its locks. -/
theorem still (hnm : n ≤ m) (hmoves : ∀ k, n ≤ k → k < m → ¬moves k t) :
    place m t = place n t ∧ ∀ l, holder n l = some t → holder m l = some t := by
  induction m, hnm using Nat.le_induction with
  | base => exact ⟨rfl, fun _ hl => hl⟩
  | succ m hnm ih =>
    obtain ⟨hplace, hlocks⟩ := ih fun k hk hlt => hmoves k hk (by omega)
    have hstill : ¬moves m t := hmoves m hnm (Nat.lt_succ_self m)
    exact ⟨(h.stays m t hstill).trans hplace, fun l hl => h.keeps m t l hstill (hlocks l hl)⟩

/-- **Every lock is free again and again.** -/
theorem freed (hfair : Fair can moves) (l : κ) (n : ℕ) : ∃ m, n ≤ m ∧ holder m l = none := by
  -- The outer induction is on how many ranks are left above the lock.
  induction hd : bound - rank l using Nat.strong_induction_on generalizing l n with
  | _ d ih =>
    have habove : ∀ l', rank l < rank l' → ∀ k, ∃ m, k ≤ m ∧ holder m l' = none := by
      intro l' hlt k
      have := h.bounded l'
      exact ih (bound - rank l') (by omega) l' k rfl
    -- The inner induction is on what is left of the section of the holder.
    have hsection : ∀ x, Acc (shrinks l) x → ∀ n t, holder n l = some t → place n t = x →
        ∃ m, n ≤ m ∧ holder m l = none := by
      intro x hx
      induction hx with
      | intro x _ ihx =>
        intro n t hl hplace
        have hmove : ∃ m, n ≤ m ∧ moves m t := by
          refine hfair.moves_of_free (fun m hm hstill hwants => ?_) fun l' hl' =>
            habove l' (h.order n t l l' hl hl')
          obtain ⟨hsame, hlocks⟩ := h.still hm hstill
          refine h.able m t l (hlocks l hl) fun l' hl' => hwants l' ?_
          rw [← hsame]
          exact hl'
        obtain ⟨m, hm, hmove, hstill⟩ := first_move hmove
        obtain ⟨hsame, hlocks⟩ := h.still hm hstill
        rcases h.frees m t l hmove (hlocks l hl) with hnone | ⟨hkept, hshrinks⟩
        · exact ⟨m + 1, by omega, hnone⟩
        · rw [hsame, hplace] at hshrinks
          obtain ⟨m', hm', hnone⟩ := ihx _ hshrinks (m + 1) t hkept rfl
          exact ⟨m', by omega, hnone⟩
    cases hl : holder n l with
    | none => exact ⟨n, le_rfl, hl⟩
    | some t => exact hsection _ (h.ends n t l hl) n t hl rfl

/-- **No thread waits for a lock forever.** -/
theorem goes_on (hfair : Fair can moves)
    (hable : ∀ m, n ≤ m → (∀ k, n ≤ k → k < m → ¬moves k t) →
      (∀ l, wants (place n t) = some l → holder m l = none) → can m t) :
    ∃ m, n ≤ m ∧ moves m t :=
  hfair.moves_of_free hable fun l _ => h.freed hfair l

end Orderly

end ArkWire.Lib.Fairness
