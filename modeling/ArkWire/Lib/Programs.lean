import Mathlib.Tactic

/-! # Programs with scopes, and a discipline for them

A program is a tree of instructions: each takes one step of a thread, and its answer selects what
comes next. `Body` is a piece of a function, with what follows it when it falls through and when it
returns early. `bracket` is a scope: its last instruction is taken on both ways out, as a local
variable is dropped at the end of its block and at an early return from it.

A `Discipline` says which instructions are allowed in which static states. `Checked` programs follow
it on every path; a body is `Sound` in a state if both ways out lead back to that state, and sound
bodies compose. -/

namespace ArkWire.Lib.Programs

/-- Programs of instructions `I`, which are answered by `R`, with jumps to the labels `P`. -/
inductive Code (I : Type) (R : I → Type) (P : Type) where
  | done
  | instr (i : I) (k : R i → Code I R P)
  | jump (p : P)

/-- A piece of a function that returns `ρ`: what follows its own value, and what follows a
return. -/
def Body (C ρ α : Type) : Type := (α → C) → (ρ → C) → C

instance {C ρ : Type} : Monad (Body C ρ) where
  pure a := fun norm _ => norm a
  bind x f := fun norm ret => x (fun a => f a norm ret) ret

variable {I : Type} {R : I → Type} {P Q ρ σ α β : Type}

/-- `return`. -/
def early {C : Type} (r : ρ) : Body C ρ α := fun _ ret => ret r

/-- A call: the returns of the callee are its value. -/
def call {C : Type} (body : Body C ρ ρ) : Body C σ ρ := fun norm _ => body norm norm

/-- One instruction. -/
def perform (i : I) : Body (Code I R P) ρ (R i) := fun norm _ => .instr i norm

/-- A scope: `i` at its start, and `j` on every way out. -/
def bracket (i j : I) (body : Body (Code I R P) ρ α) : Body (Code I R P) ρ α := fun norm ret =>
  .instr i fun _ =>
    body (fun a => .instr j fun _ => norm a) fun r => .instr j fun _ => ret r

/-- A function as a program, with what its caller does next. -/
def Body.toCode {C : Type} (body : Body C ρ ρ) (k : ρ → C) : C := body k k

/-! ### The discipline -/

/-- Which instructions are allowed in a static state, what state they lead to, in which states a
program may end, and in which state a label is entered. -/
structure Discipline (I : Type) (R : I → Type) (P Q : Type) where
  allowed : Q → I → Prop
  after : Q → (i : I) → R i → Q
  final : Q → Prop
  entry : P → Q

variable {D : Discipline I R P Q} {q q' : Q}

/-- A program that follows the discipline from a state, whatever it is answered. -/
def Checked (D : Discipline I R P Q) : Q → Code I R P → Prop
  | q, .done => D.final q
  | q, .instr i k => D.allowed q i ∧ ∀ r, Checked D (D.after q i r) (k r)
  | q, .jump p => q = D.entry p

/-- A body that follows the discipline and leaves the state as it was. -/
def Sound (D : Discipline I R P Q) (q : Q) (body : Body (Code I R P) ρ α) : Prop :=
  ∀ norm ret, (∀ a, Checked D q (norm a)) → (∀ r, Checked D q (ret r)) → Checked D q (body norm ret)

theorem sound_pure (a : α) : Sound D q (pure a : Body (Code I R P) ρ α) :=
  fun _ _ hnorm _ => hnorm a

theorem Sound.bind {x : Body (Code I R P) ρ α} {f : α → Body (Code I R P) ρ β} (hx : Sound D q x)
    (hf : ∀ a, Sound D q (f a)) : Sound D q (x >>= f) :=
  fun norm ret hnorm hret => hx _ ret (fun a => hf a norm ret hnorm hret) hret

theorem sound_early (r : ρ) : Sound D q (early r : Body (Code I R P) ρ α) :=
  fun _ _ _ hret => hret r

theorem Sound.call {body : Body (Code I R P) ρ ρ} (h : Sound D q body) :
    Sound D q (call body : Body (Code I R P) σ ρ) :=
  fun norm _ hnorm _ => h norm norm hnorm hnorm

theorem sound_perform {i : I} (ha : D.allowed q i) (hq : ∀ r, D.after q i r = q) :
    Sound D q (perform i : Body (Code I R P) ρ (R i)) := by
  intro norm ret hnorm hret
  refine ⟨ha, fun r => ?_⟩
  rw [hq]
  exact hnorm r

theorem Sound.bracket {i j : I} {body : Body (Code I R P) ρ α} (hi : D.allowed q i)
    (hq' : ∀ r, D.after q i r = q') (h : Sound D q' body) (hj : D.allowed q' j)
    (hq : ∀ r, D.after q' j r = q) : Sound D q (bracket i j body) := by
  have hout : ∀ k : Code I R P, Checked D q k → Checked D q' (.instr j fun _ => k) := by
    intro k hk
    refine ⟨hj, fun r => ?_⟩
    rw [hq]
    exact hk
  intro norm ret hnorm hret
  refine ⟨hi, fun r => ?_⟩
  rw [hq']
  exact h _ _ (fun a => hout _ (hnorm a)) (fun r => hout _ (hret r))

theorem Sound.checked {body : Body (Code I R P) ρ ρ} (h : Sound D q body) {k : ρ → Code I R P}
    (hk : ∀ r, Checked D q (k r)) : Checked D q (body.toCode k) :=
  h k k hk hk

end ArkWire.Lib.Programs
