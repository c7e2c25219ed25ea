import ArkWire.Lib.Programs

/-! # Contracts of bodies, and sections that end

A `Contract` says in which static state a body starts, and in which it ends with a value and with an
early return, where `Sound` has it end in the state it started in. Contracts compose as the bodies
do.

`Within` is one step of a program before an instruction of a kind: a program from which these steps
come to an end (`Ends`) reaches such an instruction on every path. -/

namespace ArkWire.Lib.Programs

variable {I : Type} {R : I → Type} {P Q ρ σ α β : Type} {D : Discipline I R P Q} {q : Q}

/-! ### Contracts -/

/-- A body that follows the discipline from `q`, to `post` with a value and to `exit` with a
return. -/
def Contract (D : Discipline I R P Q) (q : Q) (body : Body (Code I R P) ρ α) (post : α → Q)
    (exit : ρ → Q) : Prop :=
  ∀ norm ret, (∀ a, Checked D (post a) (norm a)) → (∀ r, Checked D (exit r) (ret r)) →
    Checked D q (body norm ret)

variable {post : α → Q} {exit : ρ → Q}

theorem contract_pure {a : α} (ha : post a = q) :
    Contract D q (pure a : Body (Code I R P) ρ α) post exit := by
  intro norm ret hnorm _
  rw [← ha]
  exact hnorm a

theorem contract_early {r : ρ} (hr : exit r = q) :
    Contract D q (early r : Body (Code I R P) ρ α) post exit := by
  intro norm ret _ hret
  rw [← hr]
  exact hret r

theorem Contract.bind {x : Body (Code I R P) ρ β} {f : β → Body (Code I R P) ρ α} {mid : β → Q}
    (hx : Contract D q x mid exit) (hf : ∀ b, Contract D (mid b) (f b) post exit) :
    Contract D q (x >>= f) post exit :=
  fun norm ret hnorm hret => hx _ ret (fun b => hf b norm ret hnorm hret) hret

theorem Contract.call {body : Body (Code I R P) α α} (h : Contract D q body post post) :
    Contract D q (call body : Body (Code I R P) ρ α) post exit :=
  fun norm _ hnorm _ => h norm norm hnorm hnorm

theorem contract_perform {i : I} {post : R i → Q} (ha : D.allowed q i)
    (hq : ∀ r, D.after q i r = post r) :
    Contract D q (perform i : Body (Code I R P) ρ (R i)) post exit := by
  intro norm ret hnorm _
  refine ⟨ha, fun r => ?_⟩
  rw [hq]
  exact hnorm r

/-- A scope whose instructions leave every state as it is. -/
theorem Contract.bracket {i j : I} {body : Body (Code I R P) ρ α}
    (hi : ∀ q, D.allowed q i ∧ ∀ r, D.after q i r = q)
    (hj : ∀ q, D.allowed q j ∧ ∀ r, D.after q j r = q) (h : Contract D q body post exit) :
    Contract D q (bracket i j body) post exit := by
  have hout : ∀ (q : Q) (k : Code I R P), Checked D q k → Checked D q (.instr j fun _ => k) := by
    intro q k hk
    refine ⟨(hj q).1, fun r => ?_⟩
    rw [(hj q).2]
    exact hk
  intro norm ret hnorm hret
  refine ⟨(hi q).1, fun r => ?_⟩
  rw [(hi q).2]
  exact h _ _ (fun a => hout _ _ (hnorm a)) fun r => hout _ _ (hret r)

/-- A function, and what its caller does next. -/
theorem Contract.checked {body : Body (Code I R P) ρ ρ} {post : ρ → Q}
    (h : Contract D q body post post)
    {k : ρ → Code I R P} (hk : ∀ r, Checked D (post r) (k r)) : Checked D q (body.toCode k) :=
  h k k hk hk

/-! ### Sections that end -/

variable {program : P → Code I R P} {stop : I → Prop}

/-- What follows a place of a program that has not come to an instruction of the kind. -/
inductive Within (program : P → Code I R P) (stop : I → Prop) : Code I R P → Code I R P → Prop
  | instr {i : I} {k : R i → Code I R P} (r : R i) : ¬stop i →
      Within program stop (k r) (.instr i k)
  | jump (p : P) : Within program stop (program p) (.jump p)

/-- A program that comes to an instruction of the kind, or to its end. -/
def Ends (program : P → Code I R P) (stop : I → Prop) (code : Code I R P) : Prop :=
  Acc (Within program stop) code

theorem ends_stop {i : I} {k : R i → Code I R P} (hi : stop i) :
    Ends program stop (.instr i k) := by
  refine Acc.intro _ fun code h => ?_
  cases h with
  | instr r hstop => exact absurd hi hstop

theorem ends_instr {i : I} {k : R i → Code I R P} (h : ∀ r, Ends program stop (k r)) :
    Ends program stop (.instr i k) := by
  refine Acc.intro _ fun code hcode => ?_
  cases hcode with
  | instr r hstop => exact h r

theorem ends_jump {p : P} (h : Ends program stop (program p)) : Ends program stop (.jump p) := by
  refine Acc.intro _ fun code hcode => ?_
  cases hcode with
  | jump p => exact h

/-- A body that comes to its end. -/
def Passes (program : P → Code I R P) (stop : I → Prop) (body : Body (Code I R P) ρ α) : Prop :=
  ∀ norm ret, (∀ a, Ends program stop (norm a)) → (∀ r, Ends program stop (ret r)) →
    Ends program stop (body norm ret)

theorem passes_pure (a : α) : Passes program stop (pure a : Body (Code I R P) ρ α) :=
  fun _ _ hnorm _ => hnorm a

theorem Passes.bind {x : Body (Code I R P) ρ α} {f : α → Body (Code I R P) ρ β}
    (hx : Passes program stop x) (hf : ∀ a, Passes program stop (f a)) :
    Passes program stop (x >>= f) :=
  fun norm ret hnorm hret => hx _ ret (fun a => hf a norm ret hnorm hret) hret

theorem passes_perform (i : I) : Passes program stop (perform i : Body (Code I R P) ρ (R i)) :=
  fun _ _ hnorm _ => ends_instr hnorm

theorem Passes.bracket {i j : I} {body : Body (Code I R P) ρ α} (h : Passes program stop body) :
    Passes program stop (bracket i j body) :=
  fun _ _ hnorm hret => ends_instr fun _ =>
    h _ _ (fun a => ends_instr fun _ => hnorm a) fun r => ends_instr fun _ => hret r

theorem Passes.ends {body : Body (Code I R P) ρ ρ} (h : Passes program stop body)
    {k : ρ → Code I R P}
    (hk : ∀ r, Ends program stop (k r)) : Ends program stop (body.toCode k) :=
  h k k hk hk

end ArkWire.Lib.Programs
