import Mathlib.Data.List.Sort
import Mathlib.Data.List.Forall2

/-! # Order-preserving matchings of lists

Two lists in increasing order, and a relation that matches every element of the first with one of
the second and follows their orders: the elements matched are a sublist of the second list. This is
how "in the same order, each at most once" is shown for what one party receives of what another
sent. -/

namespace ArkWire.Lib.Sequences

variable {α β : Type*} {R : α → β → Prop} {r : α → α → Prop} {t : β → β → Prop}

/-- Choosing a match for every element. -/
theorem exists_forall₂ {ys : List β} : ∀ {xs : List α}, (∀ x ∈ xs, ∃ y ∈ ys, R x y) →
    ∃ zs, List.Forall₂ R xs zs ∧ zs ⊆ ys
  | [], _ => ⟨[], .nil, List.nil_subset _⟩
  | x :: xs, h => by
    obtain ⟨y, hy, hr⟩ := h x (by simp)
    have hmatch : ∀ x ∈ xs, ∃ y ∈ ys, R x y := fun x hx => h x (List.mem_cons_of_mem _ hx)
    obtain ⟨zs, hf, hs⟩ := exists_forall₂ hmatch
    exact ⟨y :: zs, .cons hr hf, List.cons_subset.mpr ⟨hy, hs⟩⟩

/-- A match is found in the second list. -/
theorem mem_of_forall₂ {xs : List α} {ys : List β} (h : List.Forall₂ R xs ys) {y : β}
    (hy : y ∈ ys) : ∃ x ∈ xs, R x y := by
  induction h with
  | nil => cases hy
  | @cons x y' xs ys hr _ ih =>
    rcases List.mem_cons.mp hy with rfl | hy
    · exact ⟨x, by simp, hr⟩
    · obtain ⟨x', hx', hr'⟩ := ih hy
      exact ⟨x', List.mem_cons_of_mem _ hx', hr'⟩

/-- Matches follow the order. -/
theorem pairwise_of_forall₂ (hm : ∀ x x' y y', R x y → R x' y' → r x x' → t y y') {xs : List α}
    {ys : List β} (h : List.Forall₂ R xs ys) (hp : xs.Pairwise r) : ys.Pairwise t := by
  induction h with
  | nil => exact .nil
  | @cons x y xs ys hr hf ih =>
    obtain ⟨hx, hp⟩ := List.pairwise_cons.mp hp
    refine List.pairwise_cons.mpr ⟨fun y' hy' => ?_, ih hp⟩
    obtain ⟨x', hx', hr'⟩ := mem_of_forall₂ hf hy'
    exact hm x x' y y' hr hr' (hx x' hx')

/-- **An order-preserving matching** picks a sublist. -/
theorem exists_sublist_forall₂ [Std.Irrefl t] [Std.Antisymm t] {xs : List α} {ys : List β}
    (h : ∀ x ∈ xs, ∃ y ∈ ys, R x y) (hm : ∀ x x' y y', R x y → R x' y' → r x x' → t y y')
    (hx : xs.Pairwise r) (hy : ys.Pairwise t) :
    ∃ zs, List.Forall₂ R xs zs ∧ zs.Sublist ys := by
  obtain ⟨zs, hf, hs⟩ := exists_forall₂ h
  have hz := pairwise_of_forall₂ hm hf hx
  exact ⟨zs, hf, List.sublist_of_subperm_of_pairwise (List.subperm_of_subset hz.nodup hs) hz hy⟩

/-! ### Increasing lists of numbers -/

/-- Elements of an increasing list with the same value are the same. -/
theorem eq_of_increasing {l : List α} {f : α → ℕ} (h : l.Pairwise fun a b => f a < f b) {a b : α}
    (ha : a ∈ l) (hb : b ∈ l) (he : f a = f b) : a = b := by
  have hn : (l.map f).Nodup := (List.pairwise_map.mpr h).imp Nat.ne_of_lt
  exact List.inj_on_of_nodup_map hn ha hb he

/-- Two values that increase together order the elements alike. -/
theorem lt_of_increasing {l : List α} {f g : α → ℕ}
    (h : l.Pairwise fun a b => f a < f b ∧ g a < g b) {a b : α} (ha : a ∈ l) (hb : b ∈ l)
    (hab : f a < f b) : g a < g b := by
  induction l with
  | nil => cases ha
  | cons x l ih =>
    obtain ⟨hx, hl⟩ := List.pairwise_cons.mp h
    rcases List.mem_cons.mp ha with ha' | ha'
    · rcases List.mem_cons.mp hb with hb' | hb'
      · rw [ha', hb'] at hab
        omega
      · rw [ha']
        exact (hx b hb').2
    · rcases List.mem_cons.mp hb with hb' | hb'
      · have hba := hx a ha'
        rw [hb'] at hab
        omega
      · exact ih hl ha' hb'

end ArkWire.Lib.Sequences
