import ArkWire.Lib.Machines

/-! # Lock orders, and runs that use themselves up

* `exists_mover`: threads take locks in the order of a rank. If a thread waits only for a lock that
  some thread holds, and only for one of a higher rank than all it holds, then behind every waiting
  thread there is one that does not wait.
* `Machine.run_length_le` and `Machine.exists_last`: labels that lower a measure can only be taken
  so often, and taking them as long as possible ends where none of them can be taken. -/

namespace ArkWire.Lib.Waiting

open ArkWire.Lib.Machines

/-! ### Lock orders -/

section Order

variable {τ κ : Type*} {waits : τ → Option κ} {holds : τ → κ → Prop} {rank : κ → ℕ} {bound : ℕ}

/-- **Behind every thread is one that does not wait**: the thread itself, or the holder of a
lock. -/
theorem exists_mover (hheld : ∀ t l, waits t = some l → ∃ u, holds u l)
    (horder : ∀ u l l', holds u l → waits u = some l' → rank l < rank l')
    (hbound : ∀ l, rank l < bound) (t : τ) :
    ∃ u, waits u = none ∧ (u = t ∨ ∃ l, holds u l) := by
  -- The induction is on how many ranks are left above the lock a holder has.
  have key : ∀ n u l, holds u l → bound - rank l ≤ n → ∃ v, waits v = none ∧ ∃ l, holds v l := by
    intro n
    induction n with
    | zero =>
      intro u l _ hn
      have := hbound l
      omega
    | succ n ih =>
      intro u l hu hn
      cases hw : waits u with
      | none => exact ⟨u, hw, l, hu⟩
      | some l' =>
        obtain ⟨v, hv⟩ := hheld u l' hw
        have hlt := horder u l l' hu hw
        have := hbound l
        exact ih v l' hv (by omega)
  cases hw : waits t with
  | none => exact ⟨t, hw, .inl rfl⟩
  | some l =>
    obtain ⟨u, hu⟩ := hheld t l hw
    obtain ⟨v, hv, hl⟩ := key (bound - rank l) u l hu le_rfl
    exact ⟨v, hv, .inr hl⟩

end Order

/-! ### Runs that use themselves up -/

section Measure

variable {σ α π : Type*} {m : Machine σ α π} {P : α → Prop} {I : σ → Prop} {μ : σ → ℕ}

/-- **A run whose steps all lower a measure is no longer than the measure.** -/
theorem run_length_le
    (hstep : ∀ s a s', I s → P a → m.step s a = .next s' → I s' ∧ μ s' < μ s) {as : List α} :
    ∀ {s s' : σ}, I s → (∀ a ∈ as, P a) → m.run as s = some s' → I s' ∧ as.length + μ s' ≤ μ s := by
  induction as with
  | nil =>
    intro s s' hi _ hr
    simp only [Machine.run, Option.some.injEq] at hr
    subst hr
    exact ⟨hi, by simp⟩
  | cons a as ih =>
    intro s s' hi hp hr
    simp only [Machine.run] at hr
    split at hr
    · next s1 h1 =>
      obtain ⟨hi1, hlt⟩ := hstep s a s1 hi (hp a List.mem_cons_self) h1
      obtain ⟨hi', hle⟩ := ih hi1 (fun b hb => hp b (List.mem_cons_of_mem _ hb)) hr
      refine ⟨hi', ?_⟩
      rw [List.length_cons]
      omega
    · cases hr

/-- **Taking such labels as long as possible comes to an end.** -/
theorem exists_last
    (hstep : ∀ s a s', I s → P a → m.step s a = .next s' → I s' ∧ μ s' < μ s) {s : σ} (hi : I s) :
    ∃ as s', (∀ a ∈ as, P a) ∧ m.run as s = some s' ∧
      ∀ a, P a → ∀ s'', m.step s' a ≠ .next s'' := by
  induction hn : μ s using Nat.strong_induction_on generalizing s with
  | _ n ih =>
    by_cases hmove : ∃ a s1, P a ∧ m.step s a = .next s1
    · obtain ⟨a, s1, ha, h1⟩ := hmove
      obtain ⟨hi1, hlt⟩ := hstep s a s1 hi ha h1
      obtain ⟨as, s', has, hrun, hlast⟩ := ih (μ s1) (by omega) hi1 rfl
      refine ⟨a :: as, s', ?_, ?_, hlast⟩
      · intro b hb
        rcases List.mem_cons.mp hb with rfl | hb
        · exact ha
        · exact has b hb
      · simp only [Machine.run, h1]
        exact hrun
    · refine ⟨[], s, by simp, rfl, fun a ha s'' hs => hmove ⟨a, s'', ha, hs⟩⟩

end Measure

end ArkWire.Lib.Waiting
