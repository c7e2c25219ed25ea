import ArkWire.Lib.Machines

/-! # Monitors: condition variables without lost wakeups

Threads share a state behind one lock and wait on one condition variable. A section under the lock
may leave its thread owing a `notify_all`, which comes after the lock is released, and a waiter may
end its section by parking, which releases the lock in the same step. A parked waiter runs no
section until it is notified; it may also wake by itself, or at the time it waits for.

The rule: if a waiter parks only where it may sleep, and only sections that owe a notification can
change that, then a parked waiter may sleep whenever no notification is owed. -/

namespace ArkWire.Lib.Monitors

open ArkWire.Lib.Machines

/-- Where a waiter is; `timer` is what it waits for besides a notification. -/
inductive Sleep (τ : Type*) where
  | awake
  | parked (timer : τ)
  | notified
  deriving DecidableEq

/-- The sections of a monitor with waiters `W`. -/
structure Monitor (σ α π W τ : Type*) where
  init : σ
  step : σ → α → Outcome π σ
  /-- The waiter that runs a section. -/
  waiter : α → Option W
  /-- Whether a `notify_all` follows the section. -/
  notifies : σ → α → Bool
  /-- Whether the waiter parks at the end of the section. -/
  parks : σ → α → Option τ

/-- The state, the waiters, and the number of notifications owed. -/
structure Watched (σ W τ : Type*) where
  state : σ
  sleep : W → Sleep τ
  owed : ℕ

inductive Action (α W : Type*) where
  | act (a : α)
  | notify
  /-- A waiter wakes by itself. -/
  | wake (w : W)

variable {σ α π W τ : Type*} [DecidableEq W]

def Sleep.notify : Sleep τ → Sleep τ
  | .parked _ => .notified
  | sleep => sleep

/-- A waiter ends its section. -/
def settle (sleep : W → Sleep τ) : Option W → Option τ → W → Sleep τ
  | none, _ => sleep
  | some w, none => Function.update sleep w .awake
  | some w, some timer => Function.update sleep w (.parked timer)

/-- Whether the thread of a section can run. -/
def ready (sleep : W → Sleep τ) : Option W → Bool
  | none => true
  | some w =>
    match sleep w with
    | .parked _ => false
    | _ => true

/-- The threads of a monitor, in any interleaving. -/
def Monitor.machine (m : Monitor σ α π W τ) : Machine (Watched σ W τ) (Action α W) π where
  init := ⟨m.init, fun _ => .awake, 0⟩
  step x
    | .act a =>
      if ready x.sleep (m.waiter a) then
        match m.step x.state a with
        | .next s' => .next
            ⟨s', settle x.sleep (m.waiter a) (m.parks x.state a),
              if m.notifies x.state a then x.owed + 1 else x.owed⟩
        | .panic p => .panic p
        | .blocked => .blocked
      else .blocked
    | .notify =>
      if x.owed = 0 then .blocked
      else .next ⟨x.state, fun w => (x.sleep w).notify, x.owed - 1⟩
    | .wake w => .next { x with sleep := Function.update x.sleep w (x.sleep w).notify }

theorem notify_ne_parked (sleep : Sleep τ) (timer : τ) : sleep.notify ≠ .parked timer := by
  cases sleep <;> exact fun h => by cases h

/-- A waiter that is parked after a section was so before, or has just parked. -/
theorem parked_settle {sleep : W → Sleep τ} {actor : Option W} {parks : Option τ}
    {w : W} {timer : τ}
    (h : settle sleep actor parks w = .parked timer) :
    sleep w = .parked timer ∨ actor = some w ∧ parks = some timer := by
  cases actor with
  | none => exact .inl h
  | some w' =>
    by_cases hw : w = w'
    · subst hw
      cases parks with
      | none =>
        simp only [settle, Function.update_self] at h
        cases h
      | some timer' =>
        simp only [settle, Function.update_self] at h
        cases h
        exact .inr ⟨rfl, rfl⟩
    · left
      cases parks with
      | none => rwa [settle, Function.update_of_ne hw] at h
      | some timer' => rwa [settle, Function.update_of_ne hw] at h

/-- The states of a monitor are those of its sections. -/
theorem Monitor.invariant (m : Monitor σ α π W τ) {I : σ → Prop} (h0 : I m.init)
    (hstep : ∀ s a s', I s → m.step s a = .next s' → I s') {x : Watched σ W τ}
    (h : m.machine.Reachable x) : I x.state := by
  refine h.invariant (I := fun x => I x.state) h0 ?_
  intro x a x' _ hi hs
  cases a with
  | act a =>
    dsimp only [Monitor.machine] at hs
    split at hs
    swap
    · cases hs
    cases hnext : m.step x.state a with
    | next s' =>
      rw [hnext] at hs
      cases hs
      exact hstep _ _ _ hi hnext
    | _ =>
      rw [hnext] at hs
      cases hs
  | notify =>
    dsimp only [Monitor.machine] at hs
    split_ifs at hs
    cases hs
    exact hi
  | wake w =>
    cases hs
    exact hi

omit [DecidableEq W] in
/-- A waiter that is parked runs no section. -/
theorem waiter_ne_of_ready {sleep : W → Sleep τ} {actor : Option W} {w : W} {timer : τ}
    (hready : ready sleep actor = true) (hw : sleep w = .parked timer) : actor ≠ some w := by
  rintro rfl
  simp only [ready, hw] at hready
  cases hready

/-- **The rule of no lost wakeup, for sections of other threads.** `P w timer s` says that the
waiter may sleep. -/
theorem Monitor.no_lost_wakeup_others (m : Monitor σ α π W τ) {I : σ → Prop} {P : W → τ → σ → Prop}
    (h0 : I m.init) (hstep : ∀ s a s', I s → m.step s a = .next s' → I s')
    (hpark : ∀ s a s' w timer, I s → m.step s a = .next s' → m.waiter a = some w →
      m.parks s a = some timer → m.notifies s a = false → P w timer s')
    (hkeep : ∀ s a s' w timer, I s → m.step s a = .next s' → m.waiter a ≠ some w →
      m.notifies s a = false → P w timer s → P w timer s')
    {x : Watched σ W τ} (h : m.machine.Reachable x) (howed : x.owed = 0) {w : W} {timer : τ}
    (hw : x.sleep w = .parked timer) : P w timer x.state := by
  refine h.invariant (I := fun x => x.owed = 0 → ∀ w timer, x.sleep w = .parked timer →
    P w timer x.state) ?_ ?_ howed w timer hw
  · intro _ w timer hw
    cases hw
  · intro x a x' hr hi hs howed w timer hw
    have hinv := m.invariant h0 hstep hr
    cases a with
    | act a =>
      dsimp only [Monitor.machine] at hs
      split at hs
      swap
      · cases hs
      next hready =>
      cases hnext : m.step x.state a with
      | next s' =>
        rw [hnext] at hs
        cases hs
        dsimp only at howed hw ⊢
        cases hn : m.notifies x.state a with
        | true =>
          rw [hn, if_pos rfl] at howed
          omega
        | false =>
          rw [hn, if_neg Bool.false_ne_true] at howed
          rcases parked_settle hw with hold | ⟨hactor, hparks⟩
          · exact hkeep _ _ _ _ _ hinv hnext (waiter_ne_of_ready hready hold) hn
              (hi howed w timer hold)
          · exact hpark _ _ _ _ _ hinv hnext hactor hparks hn
      | _ =>
        rw [hnext] at hs
        cases hs
    | notify =>
      dsimp only [Monitor.machine] at hs
      split_ifs at hs
      cases hs
      exact absurd hw (notify_ne_parked _ _)
    | wake w' =>
      cases hs
      dsimp only at hw
      by_cases hww : w = w'
      · subst hww
        rw [Function.update_self] at hw
        exact absurd hw (notify_ne_parked _ _)
      · rw [Function.update_of_ne hww] at hw
        exact hi howed w timer hw

/-- **The rule of no lost wakeup**, where no section at all can end the sleep silently. -/
theorem Monitor.no_lost_wakeup (m : Monitor σ α π W τ) {I : σ → Prop} {P : W → τ → σ → Prop}
    (h0 : I m.init) (hstep : ∀ s a s', I s → m.step s a = .next s' → I s')
    (hpark : ∀ s a s' w timer, I s → m.step s a = .next s' → m.waiter a = some w →
      m.parks s a = some timer → m.notifies s a = false → P w timer s')
    (hkeep : ∀ s a s' w timer, I s → m.step s a = .next s' → m.notifies s a = false →
      P w timer s → P w timer s')
    {x : Watched σ W τ} (h : m.machine.Reachable x) (howed : x.owed = 0) {w : W} {timer : τ}
    (hw : x.sleep w = .parked timer) : P w timer x.state :=
  m.no_lost_wakeup_others h0 hstep hpark
    (fun s a s' w timer hi hs _ hn hp => hkeep s a s' w timer hi hs hn hp) h howed hw

end ArkWire.Lib.Monitors
