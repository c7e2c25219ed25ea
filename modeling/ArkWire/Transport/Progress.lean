import ArkWire.Lib.Waiting
import ArkWire.Transport.Isolation

/-! # Every call of the outbound transport comes to an end

A sender waits for the writer lock while it holds the encryption lock of its context, and nobody
waits for an encryption lock while it holds the writer lock. So the threads cannot wait for each
other in a circle: `exists_advance`. Every step of a thread in a call leaves it fewer of its own
steps to go, `remaining`, whatever the others do. `progress` puts the two together: a run in which
no call begins ends, and it ends with every thread returned unless the adapter keeps a thread or the
cipher fails. -/

namespace ArkWire.Transport.Progress

open ArkWire.Lib.Machines ArkWire.Lib.Locks ArkWire.Lib.Waiting
open ArkWire.Transport.Errors ArkWire.Transport.FrameReader ArkWire.Transport.FrameWriter
open ArkWire.Transport.Outbound ArkWire.Transport.OutboundSteps ArkWire.Transport.Isolation

variable {K : Type} {cfg : Config K} {s s' : State K}

/-! ### Who waits for whom -/

/-- The locks a thread can wait for. -/
inductive Lock where
  | context (c : ℕ)
  | writer
  deriving DecidableEq

/-- The order in which the locks are taken. -/
def Lock.rank : Lock → ℕ
  | .context _ => 0
  | .writer => 1

/-- The lock a thread waits for, where another thread has it. -/
def waitsFor (s : State K) (t : ℕ) : Option Lock :=
  match s.threads t with
  | .lockContext c _ =>
    if (s.contexts[c]?.bind (·.holder)).isSome then some (.context c) else none
  | .lockWriter _ => if s.writer.isSome then some .writer else none
  | .waitWriter _ => if s.writer.isSome then some .writer else none
  | _ => none

/-- The locks a thread holds. -/
def holds (s : State K) (t : ℕ) : Lock → Prop
  | .context c => holdsContext c (s.threads t) = true
  | .writer => holdsWriter (s.threads t) = true

def isIdle : Pc K → Bool
  | .idle _ => true
  | _ => false

/-- A call of the adapter that has not come back. -/
def isAway : Pc K → Bool
  | .returning _ _ none => true
  | _ => false

/-- The cipher refuses the message a thread is about to seal. -/
def Unsealable (cfg : Config K) (s : State K) (t : ℕ) : Prop :=
  ∃ c message x, s.threads t = .sealing c message ∧ s.contexts[c]? = some x ∧
    cfg.sealMessage x.key x.seq message = none

/-- A lock that is waited for has a holder. -/
theorem exists_holder (hx : Exclusive s) {t : ℕ} {l : Lock} (h : waitsFor s t = some l) :
    ∃ u, holds s u l := by
  have hwriter : s.writer.isSome → ∃ u, holds s u .writer := by
    intro hw
    obtain ⟨u, hu⟩ := Option.isSome_iff_exists.mp hw
    exact ⟨u, (hx.writer u).mpr hu⟩
  unfold waitsFor at h
  split at h
  · next c message _ =>
    split_ifs at h with hc
    cases h
    obtain ⟨u, hu⟩ := Option.isSome_iff_exists.mp hc
    obtain ⟨x, hxc, hxu⟩ := Option.bind_eq_some_iff.mp hu
    exact ⟨u, (hx.context c x hxc u).mpr hxu⟩
  · split_ifs at h with hw
    cases h
    exact hwriter hw
  · split_ifs at h with hw
    cases h
    exact hwriter hw
  · cases h

/-- The locks are taken in their order. -/
theorem rank_lt {u : ℕ} {l l' : Lock} (hl : holds s u l) (hw : waitsFor s u = some l') :
    l.rank < l'.rank := by
  unfold waitsFor at hw
  split at hw
  · next c message hpc =>
    cases l <;> simp [holds, hpc, holdsContext, holdsWriter] at hl
  · next p hpc =>
    split_ifs at hw
    cases hw
    cases l with
    | context c => exact Nat.zero_lt_one
    | writer => simp [holds, hpc, holdsWriter] at hl
  · next call hpc =>
    cases l <;> simp [holds, hpc, holdsContext, holdsWriter] at hl
  · cases hw

/-- A thread in a call that waits for nobody goes on. -/
theorem advance_of_free (hx : Exclusive s) {t : ℕ} (hidle : isIdle (s.threads t) = false)
    (haway : isAway (s.threads t) = false) (hfree : waitsFor s t = none) :
    Unsealable cfg s t ∨ ∀ budget o, ∃ s', s.step cfg (.advance t budget o) = .next s' := by
  unfold waitsFor at hfree
  cases hpc : s.threads t with
  | idle last =>
    rw [hpc] at hidle
    cases hidle
  | lockContext c message =>
    have hc : c < s.contexts.length := hx.known t c (by rw [hpc]; rfl)
    have hget : s.contexts[c]? = some s.contexts[c] := List.getElem?_eq_getElem hc
    rw [hpc] at hfree
    simp only [hget, Option.bind_some, ite_eq_right_iff, reduceCtorEq, imp_false,
      Bool.not_eq_true, Option.isSome_eq_false_iff, Option.isNone_iff_eq_none] at hfree
    refine .inr fun budget o => ?_
    unfold State.step
    simp only [hpc, State.advance, hget]
    generalize s.contexts[c] = x at hfree ⊢
    obtain ⟨key, seq, holder⟩ := x
    dsimp only at hfree
    subst hfree
    exact ⟨_, rfl⟩
  | sealing c message =>
    have hc : c < s.contexts.length := hx.known t c (by rw [hpc]; rfl)
    have hget : s.contexts[c]? = some s.contexts[c] := List.getElem?_eq_getElem hc
    cases hseal : cfg.sealMessage s.contexts[c].key s.contexts[c].seq message with
    | none => exact .inl ⟨c, message, _, hpc, hget, hseal⟩
    | some bytes =>
      refine .inr fun budget o => ?_
      unfold State.step
      simp only [hpc, State.advance, hget]
      split_ifs
      · exact ⟨_, rfl⟩
      · simp only [hseal]
        exact ⟨_, rfl⟩
  | lockWriter p =>
    rw [hpc] at hfree
    simp only [ite_eq_right_iff, reduceCtorEq, imp_false, Bool.not_eq_true,
      Option.isSome_eq_false_iff, Option.isNone_iff_eq_none] at hfree
    refine .inr fun budget o => ?_
    simp only [State.step, hpc, State.advance, hfree, if_pos]
    exact ⟨_, rfl⟩
  | waitWriter call =>
    rw [hpc] at hfree
    simp only [ite_eq_right_iff, reduceCtorEq, imp_false, Bool.not_eq_true,
      Option.isSome_eq_false_iff, Option.isNone_iff_eq_none] at hfree
    refine .inr fun budget o => ?_
    simp only [State.step, hpc, State.advance, hfree, if_pos]
    exact ⟨_, rfl⟩
  | check p =>
    refine .inr fun budget o => ?_
    simp only [State.step, hpc, State.advance]
    split_ifs <;> exact ⟨_, rfl⟩
  | failed p deadline error =>
    refine .inr fun budget o => ?_
    simp only [State.step, hpc, State.advance]
    split_ifs <;> exact ⟨_, rfl⟩
  | returning job deadline result =>
    cases result with
    | none =>
      rw [hpc] at haway
      cases haway
    | some result =>
      refine .inr fun budget o => ?_
      simp only [State.step, hpc, State.advance]
      exact ⟨_, rfl⟩
  | refuse c size =>
    refine .inr fun budget o => ?_
    simp only [State.step, hpc, State.advance]
    exact ⟨_, rfl⟩
  | unlockContext p =>
    refine .inr fun budget o => ?_
    simp only [State.step, hpc, State.advance]
    exact ⟨_, rfl⟩
  | holdWriter call =>
    refine .inr fun budget o => ?_
    simp only [State.step, hpc, State.advance]
    exact ⟨_, rfl⟩
  | output job limit =>
    refine .inr fun budget o => ?_
    simp only [State.step, hpc, State.advance]
    exact ⟨_, rfl⟩

/-- A thread that holds a lock is in a call. -/
theorem not_idle_of_holds {u : ℕ} {l : Lock} (h : holds s u l) : isIdle (s.threads u) = false := by
  cases hpc : s.threads u with
  | idle last =>
    cases l with
    | context c =>
      have h' : holdsContext c (s.threads u) = true := h
      rw [hpc] at h'
      cases h'
    | writer =>
      have h' : holdsWriter (s.threads u) = true := h
      rw [hpc] at h'
      cases h'
  | _ => rfl

/-- **No deadlock**: behind every call is a thread that goes on, one whose adapter call has not come
back, or one whose message the cipher refuses. -/
theorem exists_advance (hx : Exclusive s) {t : ℕ} (hidle : isIdle (s.threads t) = false) :
    ∃ u, isAway (s.threads u) = true ∨ Unsealable cfg s u ∨
      ∀ budget o, ∃ s', s.step cfg (.advance u budget o) = .next s' := by
  have hbound : ∀ l : Lock, l.rank < 2 := fun l => by cases l <;> simp [Lock.rank]
  obtain ⟨u, hfree, hu⟩ := exists_mover
    (fun _ _ h => exists_holder hx h) (fun _ _ _ hl hw => rank_lt hl hw) hbound t
  have hbusy : isIdle (s.threads u) = false := by
    rcases hu with rfl | ⟨l, hl⟩
    · exact hidle
    · exact not_idle_of_holds hl
  cases haway : isAway (s.threads u) with
  | true => exact ⟨u, .inl haway⟩
  | false => exact ⟨u, .inr (advance_of_free hx hbusy haway hfree)⟩

/-! ### How many steps a call has left -/

/-- The most steps a thread has left in its call. -/
def remaining : Pc K → ℕ
  | .idle _ => 0
  | .lockContext _ _ => 10
  | .sealing _ _ => 9
  | .refuse _ _ => 1
  | .lockWriter _ => 8
  | .unlockContext _ => 7
  | .check _ => 6
  | .failed _ _ _ => 3
  | .waitWriter _ => 6
  | .holdWriter _ => 5
  | .output (.packet _) _ => 5
  | .output (.unsealed _) _ => 4
  | .output _ _ => 2
  | .returning (.packet _) _ _ => 4
  | .returning (.unsealed _) _ _ => 3
  | .returning _ _ _ => 1

theorem remove_threads (s : State K) (cause : Cause) : (s.remove cause).threads = s.threads := by
  unfold State.remove
  cases s.binding <;> rfl

/-- A thread goes to a place with fewer steps left. -/
def Lowers (s s' : State K) (t : ℕ) : Prop :=
  ∃ pc, s'.threads = Function.update s.threads t pc ∧ remaining pc < remaining (s.threads t)

theorem lowers_goto (s' : State K) {t : ℕ} {pc : Pc K} (h : s'.threads = s.threads)
    (hlt : remaining pc < remaining (s.threads t)) : Lowers s (s'.goto t pc) t :=
  ⟨pc, by rw [State.goto, h], hlt⟩

theorem lowers_unlock (s' : State K) {t : ℕ} {value : Value} (h : s'.threads = s.threads)
    (hlt : 0 < remaining (s.threads t)) : Lowers s (s'.unlock t value) t :=
  ⟨.idle value, by rw [State.unlock, State.goto, h], hlt⟩

theorem lowers_locked {t : ℕ} {call : Locked K} (h : s.threads t = .holdWriter call) :
    Lowers s (s.locked cfg t call) t := by
  have hfive : remaining (s.threads t) = 5 := by rw [h]; rfl
  cases call with
  | disconnect c =>
    dsimp only [State.locked]
    split_ifs
    · exact lowers_goto _ (remove_threads s _) (by rw [hfive]; simp [remaining])
    · exact lowers_unlock _ (remove_threads s _) (by omega)
    · exact lowers_unlock _ rfl (by omega)
  | finish c =>
    dsimp only [State.locked]
    split_ifs
    · exact lowers_unlock _ (remove_threads s _) (by omega)
    · exact lowers_unlock _ rfl (by omega)
  | bind key => exact lowers_unlock (s.bind key) (remove_threads s _) (by omega)
  | unbind => exact lowers_unlock _ (remove_threads s _) (by omega)
  | sendReset deadline =>
    exact lowers_goto _ (remove_threads s _) (by rw [hfive]; simp [remaining])
  | sendDropped limit =>
    exact lowers_goto _ (remove_threads s _) (by rw [hfive]; simp [remaining])
  | sendPacket packet limit => exact lowers_goto _ rfl (by rw [hfive]; simp [remaining])

theorem lowers_returned {t deadline : ℕ} {job : Job} {result : Except TransportError Unit}
    (h : s.threads t = .returning job deadline (some result)) :
    Lowers s (s.returned cfg t deadline result job) t := by
  have hpos : 0 < remaining (s.threads t) := by
    rw [h]
    cases job <;> simp [remaining]
  cases job with
  | packet p =>
    cases result with
    | ok u => exact lowers_unlock (s.logged (.sent p)) rfl hpos
    | error e => exact lowers_goto (s.logged (.failed p)) rfl (by rw [h]; simp [remaining])
  | notification c error => exact lowers_unlock _ rfl hpos
  | reset => exact lowers_unlock _ rfl hpos
  | dropped => exact lowers_unlock _ rfl hpos
  | unsealed bytes =>
    cases result with
    | ok u => exact lowers_unlock _ rfl hpos
    | error e =>
      cases e with
      | sendFailed error =>
        dsimp only [State.returned]
        split_ifs
        · exact lowers_goto _ rfl (by rw [h]; simp [remaining])
        · exact lowers_unlock _ rfl hpos
      | _ => exact lowers_unlock _ rfl hpos

/-- **A step of a thread in a call leaves it fewer steps.** -/
theorem lowers_advance {t budget : ℕ} {o : Output}
    (h : s.step cfg (.advance t budget o) = .next s') : Lowers s s' t := by
  dsimp only [State.step] at h
  cases hpc : s.threads t with
  | idle last =>
    rw [hpc] at h
    cases h
  | lockContext c message =>
    rw [hpc] at h
    dsimp only [State.advance] at h
    split at h
    · cases h
      exact lowers_goto (s.modify c _) rfl (by rw [hpc]; simp [remaining])
    · cases h
  | sealing c message =>
    rw [hpc] at h
    dsimp only [State.advance] at h
    split at h
    · cases h
    · split_ifs at h
      · cases h
        exact lowers_goto _ rfl (by rw [hpc]; simp [remaining])
      · split at h
        · cases h
        · cases h
          exact lowers_goto ((s.modify c _).logged _) rfl (by rw [hpc]; simp [remaining])
  | refuse c size =>
    rw [hpc] at h
    cases h
    exact lowers_goto ((s.modify c _).logged _) rfl (by rw [hpc]; simp [remaining])
  | lockWriter p =>
    rw [hpc] at h
    dsimp only [State.advance] at h
    split_ifs at h
    cases h
    exact lowers_goto { s with writer := some t } rfl (by rw [hpc]; simp [remaining])
  | unlockContext p =>
    rw [hpc] at h
    cases h
    exact lowers_goto (s.modify p.context _) rfl (by rw [hpc]; simp [remaining])
  | check p =>
    rw [hpc] at h
    dsimp only [State.advance] at h
    split_ifs at h
    · cases h
      exact lowers_goto _ rfl (by rw [hpc]; simp [remaining])
    · cases h
      exact lowers_unlock (s.logged (.refused p)) rfl (by rw [hpc]; simp [remaining])
  | failed p deadline error =>
    rw [hpc] at h
    dsimp only [State.advance] at h
    split_ifs at h
    · cases h
      exact lowers_goto _ (remove_threads s _) (by rw [hpc]; simp [remaining])
    · cases h
      exact lowers_unlock _ (remove_threads s _) (by rw [hpc]; simp [remaining])
    · cases h
      exact lowers_unlock _ rfl (by rw [hpc]; simp [remaining])
  | waitWriter call =>
    rw [hpc] at h
    dsimp only [State.advance] at h
    split_ifs at h
    cases h
    exact lowers_goto { s with writer := some t } rfl (by rw [hpc]; simp [remaining])
  | holdWriter call =>
    rw [hpc] at h
    cases h
    exact lowers_locked hpc
  | output job limit =>
    rw [hpc] at h
    cases h
    refine ⟨_, rfl, ?_⟩
    rw [hpc]
    cases job <;> simp [remaining]
  | returning job deadline result =>
    rw [hpc] at h
    cases result with
    | none => cases h
    | some result =>
      cases h
      exact lowers_returned hpc

/-! ### Runs in which no call begins -/

/-- A thread in a call goes on. -/
def Advances (a : Action K) : Prop := ∃ t budget o, a = .advance t budget o

/-- The threads from `n` on are in no call. -/
def IdleFrom (n : ℕ) (s : State K) : Prop := ∀ t, n ≤ t → isIdle (s.threads t) = true

/-- The steps that the first `n` threads have left. -/
def work (n : ℕ) (s : State K) : ℕ := ∑ t ∈ Finset.range n, remaining (s.threads t)

theorem remaining_of_idle {pc : Pc K} (h : isIdle pc = true) : remaining pc = 0 := by
  cases pc with
  | idle last => rfl
  | _ => cases h

/-- The locks stay exclusive, no further thread begins a call, and there is less left to do. -/
theorem work_step {n : ℕ} {a : Action K} (hi : Exclusive s ∧ IdleFrom n s) (ha : Advances a)
    (hs : (outbound cfg (.new 0)).step s a = .next s') :
    (Exclusive s' ∧ IdleFrom n s') ∧ work n s' < work n s := by
  obtain ⟨t, budget, o, rfl⟩ := ha
  have hs' : s.step cfg (.advance t budget o) = .next s' := hs
  obtain ⟨pc, hpc, hlt⟩ := lowers_advance hs'
  have ht : t < n := by
    by_contra hge
    have hidle := hi.2 t (not_lt.mp hge)
    rw [remaining_of_idle hidle] at hlt
    omega
  refine ⟨⟨exclusive_step hi.1 (step_cases hs'), fun u hu => ?_⟩, ?_⟩
  · rw [hpc, Function.update_of_ne (by omega)]
    exact hi.2 u hu
  · unfold work
    refine Finset.sum_lt_sum (fun u _ => ?_) ⟨t, Finset.mem_range.mpr ht, ?_⟩
    · rw [hpc]
      by_cases hu : u = t
      · subst hu
        rw [Function.update_self]
        exact hlt.le
      · rw [Function.update_of_ne hu]
    · rw [hpc, Function.update_self]
      exact hlt

/-- In a run only finitely many threads have begun a call. -/
theorem idleFrom_reachable {framer : Writer} (h : (outbound cfg framer).Reachable s) :
    ∃ n, IdleFrom n s := by
  refine h.invariant (I := fun s => ∃ n, IdleFrom n s) ⟨0, fun t _ => rfl⟩ ?_
  rintro s a s' - ⟨n, hn⟩ hs
  refine ⟨max n (actor a + 1), fun t ht => ?_⟩
  rw [step_threads_of_ne hs (by omega)]
  exact hn t (by omega)

/-- The threads in a call, among the first `n`. -/
def busy (n : ℕ) (s : State K) : Finset ℕ :=
  (Finset.range n).filter fun t => isIdle (s.threads t) = false

theorem remaining_le (pc : Pc K) : remaining pc ≤ 10 := by
  cases pc with
  | output job limit => cases job <;> simp [remaining]
  | returning job deadline result => cases job <;> simp [remaining]
  | _ => simp [remaining]

/-- A call takes at most ten steps of its thread. -/
theorem work_le (n : ℕ) (s : State K) : work n s ≤ 10 * (busy n s).card := by
  have hsum : work n s = ∑ t ∈ busy n s, remaining (s.threads t) := by
    unfold work busy
    rw [Finset.sum_filter]
    refine Finset.sum_congr rfl fun t _ => ?_
    cases hidle : isIdle (s.threads t) with
    | true => simp [remaining_of_idle hidle]
    | false => rw [if_pos rfl]
  have hle : ∑ t ∈ busy n s, remaining (s.threads t) ≤ (busy n s).card • 10 :=
    Finset.sum_le_card_nsmul _ _ _ fun t _ => remaining_le _
  rw [smul_eq_mul] at hle
  omega

/-- No thread in a call can go on. -/
def Stopped (cfg : Config K) (s : State K) : Prop :=
  ∀ a, Advances a → ∀ s', s.step cfg a ≠ .next s'

/-- **Where nothing goes on, every call has returned**, unless the adapter keeps a thread or the
cipher refuses a message. -/
theorem idle_of_stopped (hx : Exclusive s) (h : Stopped cfg s)
    (haway : ∀ t, isAway (s.threads t) = false) (hseal : ∀ t, ¬ Unsealable cfg s t) (t : ℕ) :
    isIdle (s.threads t) = true := by
  by_contra hidle
  have hbusy : isIdle (s.threads t) = false := Bool.not_eq_true _ ▸ hidle
  have hadvance : ∃ u, isAway (s.threads u) = true ∨ Unsealable cfg s u ∨
      ∀ budget o, ∃ s', s.step cfg (.advance u budget o) = .next s' := exists_advance hx hbusy
  obtain ⟨u, hu | hu | hu⟩ := hadvance
  · rw [haway u] at hu
    cases hu
  · exact hseal u hu
  · obtain ⟨s', hs'⟩ := hu 0 ⟨0, true, .ok (), [], 0, true, .ok (), 0⟩
    exact h _ ⟨u, _, _, rfl⟩ s' hs'

/-- **Every call comes to an end.** In every reachable state of any number of threads: a run in
which no further call begins has at most ten steps for each call; there is one that cannot be
prolonged; and where one cannot be prolonged, all threads are idle, unless a call of the adapter has
not come back or the cipher refuses a message. -/
theorem progress {framer : Writer} (h : (outbound cfg framer).Reachable s) :
    ∃ n, IdleFrom n s ∧
      (∀ as s', (∀ a ∈ as, Advances a) → (outbound cfg framer).run as s = some s' →
        as.length ≤ 10 * (busy n s).card ∧
        (Stopped cfg s' → (∀ t, isAway (s'.threads t) = false) → (∀ t, ¬ Unsealable cfg s' t) →
          ∀ t, isIdle (s'.threads t) = true)) ∧
      ∃ as s', (∀ a ∈ as, Advances a) ∧ (outbound cfg framer).run as s = some s' ∧
        Stopped cfg s' := by
  obtain ⟨n, hn⟩ := idleFrom_reachable h
  have hx : Exclusive s := (reachable_invariant h).1
  have hstep : ∀ s a s', (Exclusive s ∧ IdleFrom n s) → Advances a →
      (outbound cfg framer).step s a = .next s' →
      (Exclusive s' ∧ IdleFrom n s') ∧ work n s' < work n s :=
    fun _ _ _ hi ha hs => work_step hi ha hs
  refine ⟨n, hn, fun as s' has hrun => ?_, exists_last hstep ⟨hx, hn⟩⟩
  obtain ⟨⟨hx', -⟩, hlen⟩ := run_length_le hstep ⟨hx, hn⟩ has hrun
  have hwork := work_le n s
  exact ⟨by omega, fun hstop haway hseal t => idle_of_stopped hx' hstop haway hseal t⟩

/-- A sender has sealed and waits for the writer lock, which a disconnecting thread has; a second
sender waits for the encryption lock. -/
def contended : List (Action UInt8) :=
  [.call 0 (.locked (.bind 5)), step 0, step 0, .call 1 (.send 0 [1]), step 1, step 1,
    .call 2 (.locked (.disconnect 0)), step 2, .call 3 (.send 0 [2])]

theorem progress_contended :
    ∃ s, (outbound (toyConfig .server) (.new 8)).run contended { framer := .new 8 } = some s ∧
      waitsFor s 3 = some (.context 0) ∧ waitsFor s 1 = some .writer ∧
      ∃ as s', (∀ a ∈ as, Advances a) ∧
        (outbound (toyConfig .server) (.new 8)).run as s = some s' ∧
        Stopped (toyConfig .server) s' := by
  obtain ⟨s, hr, h3, h1⟩ : ∃ s,
      (outbound (toyConfig .server) (.new 8)).run contended { framer := .new 8 } = some s ∧
      waitsFor s 3 = some (.context 0) ∧ waitsFor s 1 = some .writer := ⟨_, rfl, rfl, rfl⟩
  obtain ⟨n, -, -, hlast⟩ := progress (Machine.reachable_of_run hr)
  exact ⟨s, hr, h3, h1, hlast⟩

end ArkWire.Transport.Progress
