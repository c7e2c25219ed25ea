import ArkWire.Lib.Fairness
import ArkWire.Lib.Waiting
import ArkWire.Protocol.Possession

/-! # No lock is held forever

The threads of `Callbacks` take locks in the order server, session, promise (`Discipline.rank`),
hold them in sections that end, and hold none where they run callbacks, wait for a result, are
parked on a condition variable or are in the stream (`Away`). The guards of all other instructions
hold where a function comes to them (`able`). So a lock holds a thread up only for a time: in every
fair run every lock is free again and again, and a thread in a function goes on unless it waits for
the result of a promise that is never settled, or it is away and its wait never ends
(`never_stuck`). Nothing is assumed of how long a wait lasts, or that it ends. -/

namespace ArkWire.Protocol.Locking

open ArkWire.Lib.Machines ArkWire.Lib.Programs ArkWire.Lib.Fairness
open ArkWire.Protocol.Errors ArkWire.Protocol.Envelope ArkWire.Protocol.Callbacks
open ArkWire.Protocol.Discipline ArkWire.Protocol.Notification ArkWire.Protocol.Possession
open ArkWire.Protocol.Publication (Settled)

variable {M ρ : Type} {s s' : Sys M} {q : ℕ → Static} {t : ℕ} {l : Lock}

/-! ### Sections end -/

/-- A section of a lock, up to its release. -/
abbrev Section (l : Lock) : Program M → Prop := Ends Callbacks.program (· = .release l)

theorem passes_publish (ps : List Settled) :
    Passes Callbacks.program (· = .release l) (publish ps : Fn M ρ Bool) := by
  induction ps with
  | nil => exact passes_pure _
  | cons p ps ih =>
    have hsend : Passes Callbacks.program (· = .release l) (send p : Fn M ρ Bool) :=
      Passes.bracket ((passes_perform _).bind fun _ => (passes_perform _).bind fun _ =>
        passes_pure _)
    exact hsend.bind fun _ => ih.bind fun _ => passes_pure _

theorem passes_expireFirst (i : ℕ) :
    Passes Callbacks.program (· = .release l) (expireFirst i : Fn M _ _) := by
  refine Passes.bind ?_ fun _ => (passes_perform _).bind fun _ => passes_pure _
  exact (passes_perform _).bind fun _ => (passes_publish _).bind fun _ => passes_pure _

/-- A loop releases the lock it begins with on every way back to its beginning. -/
theorem section_program (p : Label) (hl : l ∈ (Static.entry p).held) :
    Section l (Callbacks.program p : Program M) := by
  have hrelease : ∀ k : Program M, Section l (.instr (.release l) fun _ => k) :=
    fun k => ends_stop rfl
  cases p with
  | deadlines i =>
    obtain rfl := List.mem_singleton.mp hl
    refine (passes_expireFirst i).ends fun (report, empty) => ?_
    dsimp only
    split_ifs <;> exact hrelease _
  | pickup i =>
    obtain rfl := List.mem_singleton.mp hl
    refine (passes_expireFirst i).ends fun (report, empty) => ?_
    dsimp only
    split_ifs
    · refine ends_instr fun report => ?_
      split_ifs
      · exact hrelease _
      · split <;> exact hrelease _
    · exact hrelease _
  | recv i =>
    obtain rfl := List.mem_singleton.mp hl
    refine ends_instr fun report => ?_
    split <;> exact hrelease _
  | accept =>
    obtain rfl := List.mem_singleton.mp hl
    refine ends_instr fun answer => ?_
    split <;> exact hrelease _

/-- **A thread that holds a lock comes to its release.** -/
theorem section_of_checked {q : Static} {code : Program M} (h : Checked (discipline M) q code)
    (hl : l ∈ q.held) : Section l code := by
  induction code generalizing q with
  | done =>
    have hq : q = {} := h
    rw [hq] at hl
    exact absurd hl List.not_mem_nil
  | jump p =>
    have hq : q = Static.entry p := h
    rw [hq] at hl
    exact ends_jump (section_program p hl)
  | instr i k ih =>
    by_cases hi : i = .release l
    · exact ends_stop hi
    · refine ends_instr fun r => ih r (h.2 r) ?_
      cases i with
      | acquire l' => exact List.mem_cons_of_mem _ hl
      | release l' =>
        have hne : l ≠ l' := fun heq => hi (by rw [heq])
        exact (List.mem_erase_of_ne hne).mpr hl
      | _ => exact hl

/-! ### What holds a thread up -/

/-- What a thread waits for outside the machine. -/
def awaits : Program M → Option Wait
  | .instr (.await w) _ => some w
  | _ => none

/-- A thread goes on by itself, whatever it reads. The step may be one that panics. -/
def Able (s : Sys M) (t : ℕ) : Prop :=
  awaits (s.threads t).code = none ∧ ∀ reading, s.step (.advance t reading) ≠ .blocked

/-- A thread is parked or in the stream, and holds no lock. -/
def Away (s : Sys M) (t : ℕ) (w : Wait) : Prop :=
  awaits (s.threads t).code = some w ∧ ∀ l, s.locks l ≠ some t

/-- The lock a thread takes next. -/
def wants : Program M → Option Lock
  | .instr (.acquire l) _ => some l
  | _ => none

/-- **Only a lock or a result holds a thread up that is not away.** -/
theorem able (h : Invariant s q) (hp : Possessed s) (hcode : (s.threads t).code ≠ .done)
    (hawaits : awaits (s.threads t).code = none)
    (hlock : ∀ l, wants (s.threads t).code = some l → s.locks l = none)
    (hresult : ∀ c k, (s.threads t).code = .instr (.receive c) k → (s.channels c).buffer ≠ none) :
    Able s t := by
  refine ⟨hawaits, fun reading => ?_⟩
  simp only [Sys.step]
  cases hc : (s.threads t).code with
  | done => exact absurd hc hcode
  | jump p => simp
  | instr i k =>
    obtain ⟨hallowed, -⟩ := h.instr hc
    obtain ⟨x, qs, hfits, hhold, -⟩ := hp.found hc
    have hold := h.threads t
    dsimp only
    cases i with
    | acquire l =>
      rw [hc] at hlock
      simp [Sys.execute, hlock l rfl]
    | flush =>
      obtain ⟨-, -, -, hdepth⟩ := hallowed
      rw [← hold.depth] at hdepth
      simp only [Sys.execute]
      cases hcollectors : (s.threads t).collectors with
      | nil =>
        rw [hcollectors] at hdepth
        exact absurd hdepth (Nat.lt_irrefl 0)
      | cons pending rest => cases pending <;> simp
    | invoke =>
      obtain ⟨-, -, c, hhand⟩ := hallowed
      have hthread : (s.threads t).hand = some c := by
        rw [← hold.hand, hhand]
        rfl
      simp [Sys.execute, hthread]
    | session i f =>
      simp only [Sys.execute]
      split <;> simp
    | put c result =>
      simp only [Sys.execute]
      split_ifs <;> simp
    | register c =>
      simp only [Sys.execute]
      split_ifs <;> simp
    | discard c =>
      have howner : (s.channels c).owner = .made t ∨ (s.channels c).owner = .spent t := by
        rcases hhold with rfl | rfl | rfl
        · exact .inl (hfits.owner c .made List.mem_cons_self)
        · exact .inr (hfits.owner c .spent List.mem_cons_self)
        · exact .inr (hfits.owner c .taken List.mem_cons_self)
      simp [Sys.execute, howner]
    | dropReceiver c =>
      have hgone : x = some (c, .gone) := hhold
      have howner := hfits.owner c .gone (hgone ▸ List.mem_cons_self)
      simp [Sys.execute, howner, Share.owner]
    | receive c =>
      have hsome := hresult c k hc
      simp only [Sys.execute]
      split
      · next hnone => exact absurd hnone hsome
      · simp
    | handOut c =>
      have hmade : x = some (c, .made) := hhold
      have howner := hfits.owner c .made (hmade ▸ List.mem_cons_self)
      simp [Sys.execute, howner, Share.owner]
    | giveBack c =>
      have hlent : x = some (c, .lent) := hhold
      have howner := hfits.owner c .lent (hlent ▸ List.mem_cons_self)
      simp [Sys.execute, howner, Share.owner]
    | _ => simp [Sys.execute]

theorem awaits_eq_some {code : Program M} {w : Wait} (h : awaits code = some w) :
    ∃ k, code = .instr (.await w) k := by
  unfold awaits at h
  split at h
  · next w' k =>
    cases h
    exact ⟨k, rfl⟩
  · cases h

/-- A thread that is parked or in the stream holds no lock. -/
theorem away (h : Invariant s q) {w : Wait} (hw : awaits (s.threads t).code = some w) :
    Away s t w := by
  refine ⟨hw, fun l hl => ?_⟩
  obtain ⟨k, hcode⟩ := awaits_eq_some hw
  obtain ⟨⟨hheld, -⟩, -⟩ := h.instr hcode
  rw [(h.threads t).locks, hheld] at hl
  exact absurd hl List.not_mem_nil

/-- A thread that holds a lock is not away. -/
theorem awaits_of_holder (h : Invariant s q) (hl : s.locks l = some t) :
    awaits (s.threads t).code = none := by
  rw [Option.eq_none_iff_forall_ne_some]
  intro w hw
  exact (away h hw).2 l hl

/-- A thread that waits for a result holds no lock. -/
theorem unlocked_of_receive (h : Invariant s q) {c : ℕ}
    {k : Except Error Promise.PromiseResult → Program M}
    (hcode : (s.threads t).code = .instr (.receive c) k) (l : Lock) : s.locks l ≠ some t := by
  intro hl
  obtain ⟨hheld, -⟩ := h.instr hcode
  rw [(h.threads t).locks, show (q t).held = [] from hheld] at hl
  exact absurd hl List.not_mem_nil

/-- A thread that holds a lock is held up by another lock only. -/
theorem able_of_holder (h : Invariant s q) (hp : Possessed s) (hl : s.locks l = some t)
    (hfree : ∀ l', wants (s.threads t).code = some l' → s.locks l' = none) : Able s t :=
  able h hp (fun hcode => h.unlocked hcode l hl) (awaits_of_holder h hl) hfree fun _ _ hcode =>
    absurd hl (unlocked_of_receive h hcode l)

theorem wants_eq_some {code : Program M} (h : wants code = some l) :
    ∃ k, code = .instr (.acquire l) k := by
  unfold wants at h
  split at h
  · next l' k =>
    cases h
    exact ⟨k, rfl⟩
  · cases h

theorem rank_lt_of_wants {l' : Lock} (h : Invariant s q) (hl : s.locks l = some t)
    (hwants : wants (s.threads t).code = some l') : rank l < rank l' := by
  obtain ⟨k, hcode⟩ := wants_eq_some hwants
  obtain ⟨⟨habove, -⟩, -⟩ := h.instr hcode
  exact habove l (((h.threads t).locks l).mp hl)

theorem rank_lt (l : Lock) : rank l < 3 := by
  cases l <;> simp [rank]

/-- A thread that waits for a result finds it once it is published. -/
theorem able_of_published {side : Side} (h : (machine side).Reachable s) {c : ℕ}
    {k : Except Error Promise.PromiseResult → Program M}
    (hcode : (s.threads t).code = .instr (.receive c) k) (hpublished : .published c ∈ s.log) :
    Able s t := by
  have hp := possessed_of_reachable h
  obtain ⟨q, hinvariant⟩ := invariant_of_reachable h
  obtain ⟨x, qs, hfits, hspent, -⟩ := hp.found hcode
  have hx : x = some (c, .spent) := hspent
  subst hx
  have howner : (s.channels c).owner = .spent t := hfits.owner c .spent List.mem_cons_self
  have hunread : .received c ∉ s.log :=
    hfits.unread c .spent List.mem_cons_self (by simp [Share.Unread])
  obtain ⟨place, hplace⟩ := hinvariant.lives c
  have hreceiver : (s.channels c).receiver ≠ false := by
    intro hfalse
    rcases hplace.receiver hfalse with hnone | hgone
    · exact absurd (howner.symm.trans hnone) (by simp)
    · exact absurd (howner.symm.trans hgone) (by simp)
  refine able hinvariant hp (by simp [hcode]) (by simp [hcode, awaits]) (by simp [hcode, wants])
    fun c' k' hcode' => ?_
  rw [hcode] at hcode'
  cases hcode'
  have havailable := hplace.available ((mem_history rfl).mpr hpublished)
  rcases havailable with hbuffer | hreceived | hfalse
  · exact Option.isSome_iff_ne_none.mp hbuffer
  · exact absurd ((mem_history rfl).mp hreceived) hunread
  · exact absurd hfalse hreceiver

def Holds (s : Sys M) (t : ℕ) (l : Lock) : Prop := s.locks l = some t

/-- A thread waits for the result of a promise that is not settled, and holds no lock. -/
def AwaitsResult (s : Sys M) (t c : ℕ) : Prop :=
  (∃ k, (s.threads t).code = .instr (.receive c) k) ∧ (∀ l, s.locks l ≠ some t) ∧
    .published c ∉ s.log

/-- A thread parks in `recv`. Then there are a request, a `wait` for its response, and a thread that
closes the session, and its stream. -/
def waitRun : List (Action Unit) :=
  let advance (t n : ℕ) : List (Action Unit) := List.replicate n (.advance t { choice := true })
  .start 3 (.recv 0) :: advance 3 4 ++ .start 0 (.request 0 () 10) :: advance 0 7 ++
    .start 1 (.wait 0 0) :: advance 1 2 ++ .start 2 (.close 0 .closed) :: advance 2 10 ++
    advance 1 9 ++ advance 3 5

/-- The thread that takes a step. -/
def mover : Action M → ℕ
  | .start t _ => t
  | .advance t _ => t
  | .finish t => t

variable {action : Action M} {reading : Reading} {i : Instr M} {k : i.Answer → Program M}

/-- What a step of a thread does to the locks. -/
inductive Effect (s s' : Sys M) (t : ℕ) : Prop
  | keeps : s'.locks = s.locks → Effect s s' t
  | acquires (l : Lock) : s.locks l = none → s'.locks = Function.update s.locks l (some t) →
    Effect s s' t
  | releases (l : Lock) (k : Unit → Program M) : (s.threads t).code = .instr (.release l) k →
    s'.locks = Function.update s.locks l none → Effect s s' t

theorem effect_execute (hcode : (s.threads t).code = .instr i k)
    (hstep : s.execute t reading i k = .next s') :
    Effect s s' t ∧ ∃ thread, s'.threads = Function.update s.threads t thread := by
  cases i with
  | acquire l =>
    simp only [Sys.execute] at hstep
    split at hstep
    · next hfree =>
      cases hstep
      exact ⟨.acquires l hfree rfl, _, rfl⟩
    · cases hstep
  | release l =>
    cases hstep
    exact ⟨.releases l k hcode rfl, _, rfl⟩
  | _ =>
    simp only [Sys.execute] at hstep
    first
      | (cases hstep; exact ⟨.keeps rfl, _, rfl⟩)
      | (split at hstep <;> first | (cases hstep; exact ⟨.keeps rfl, _, rfl⟩) | cases hstep)

theorem effect_step (hstep : s.step action = .next s') :
    Effect s s' (mover action) ∧
      ∃ thread, s'.threads = Function.update s.threads (mover action) thread := by
  cases action with
  | start t call =>
    simp only [Sys.step] at hstep
    split at hstep
    · simp only [Sys.start] at hstep
      split at hstep
      · split_ifs at hstep
        cases hstep
        exact ⟨.keeps rfl, _, rfl⟩
      · split_ifs at hstep
        cases hstep
        exact ⟨.keeps rfl, _, rfl⟩
      · split_ifs at hstep
        cases hstep
        exact ⟨.keeps rfl, _, rfl⟩
      · cases hstep
        exact ⟨.keeps rfl, _, rfl⟩
    · cases hstep
  | advance t reading =>
    simp only [Sys.step] at hstep
    split at hstep
    · cases hstep
    · cases hstep
      exact ⟨.keeps rfl, _, rfl⟩
    · next hcode => exact effect_execute hcode hstep
  | finish t =>
    simp only [Sys.step] at hstep
    split at hstep
    · cases hstep
      exact ⟨.keeps rfl, _, rfl⟩
    · cases hstep

/-- A step leaves the other threads where they are. -/
theorem threads_of_ne (hstep : s.step action = .next s') (ht : mover action ≠ t) :
    s'.threads t = s.threads t := by
  obtain ⟨-, thread, hthreads⟩ := effect_step hstep
  rw [hthreads, Function.update_of_ne ht.symm]

/-- A lock stays with its holder, unless the thread that takes the step is at its release. -/
theorem Effect.kept {u : ℕ} (h : Effect s s' t) (hl : s.locks l = some u)
    (hcode : ∀ k, (s.threads t).code ≠ .instr (.release l) k) : s'.locks l = some u := by
  cases h with
  | keeps hlocks => rw [hlocks, hl]
  | acquires l' hfree hlocks =>
    have hne : l ≠ l' := by
      rintro rfl
      rw [hl] at hfree
      cases hfree
    rw [hlocks, Function.update_of_ne hne, hl]
  | releases l' k hrelease hlocks =>
    have hne : l ≠ l' := by
      rintro rfl
      exact hcode k hrelease
    rw [hlocks, Function.update_of_ne hne, hl]

/-- A step leaves the other threads their locks. -/
theorem locks_of_ne (h : Invariant s q) (hstep : s.step action = .next s') (ht : mover action ≠ t)
    (hl : s.locks l = some t) : s'.locks l = some t := by
  refine (effect_step hstep).1.kept hl fun k hcode => ht ?_
  obtain ⟨⟨hmem, -⟩, -⟩ := h.instr hcode
  have hheld : s.locks l = some (mover action) := ((h.threads _).locks l).mpr hmem
  rw [hl, Option.some.injEq] at hheld
  exact hheld.symm

theorem code_of_update {thread : Thread M} {code : Program M}
    (hthreads : s'.threads = Function.update s.threads t thread) (hcode : thread.code = code) :
    (s'.threads t).code = code := by
  rw [hthreads, Function.update_self, hcode]

/-- An instruction at which no callback runs is followed by what its answer selects. -/
theorem code_execute (hflush : i ≠ .flush) (hinvoke : i ≠ .invoke)
    (hstep : s.execute t reading i k = .next s') : ∃ r, (s'.threads t).code = k r := by
  cases i with
  | flush => exact absurd rfl hflush
  | invoke => exact absurd rfl hinvoke
  | _ =>
    simp only [Sys.execute] at hstep
    first
      | (cases hstep; exact ⟨_, code_of_update rfl rfl⟩)
      | (split at hstep <;> first | (cases hstep; exact ⟨_, code_of_update rfl rfl⟩) | cases hstep)

/-- A thread in a function takes the steps of its function. -/
theorem advance_of_busy (hbusy : (s.threads t).code ≠ .done) (ht : mover action = t)
    (hstep : s.step action = .next s') : ∃ reading, action = .advance t reading := by
  cases action with
  | start t' call =>
    obtain rfl : t' = t := ht
    simp only [Sys.step] at hstep
    cases hstep
  | advance t' reading =>
    obtain rfl : t' = t := ht
    exact ⟨reading, rfl⟩
  | finish t' =>
    obtain rfl : t' = t := ht
    simp only [Sys.step] at hstep
    split at hstep
    · next hcode _ => exact absurd hcode hbusy
    · cases hstep

/-- **A step of a thread that holds a lock releases it, or goes on in its section.** -/
theorem section_step (h : Invariant s q) (hstep : s.step action = .next s') (ht : mover action = t)
    (hl : s.locks l = some t) : s'.locks l = none ∨ s'.locks l = some t ∧
      Within Callbacks.program (· = .release l) (s'.threads t).code (s.threads t).code := by
  have hmem : l ∈ (q t).held := ((h.threads t).locks l).mp hl
  have hbusy : (s.threads t).code ≠ .done := fun hcode => h.unlocked hcode l hl
  obtain ⟨heffect, -⟩ := effect_step hstep
  obtain ⟨reading, rfl⟩ := advance_of_busy hbusy ht hstep
  simp only [Sys.step] at hstep
  split at hstep
  · cases hstep
  · next p hcode =>
    cases hstep
    refine .inr ⟨hl, ?_⟩
    rw [hcode]
    simpa [Sys.goto, Sys.setThread] using Within.jump p
  · next i k hcode =>
    obtain ⟨hallowed, -⟩ := h.instr hcode
    by_cases hi : i = .release l
    · subst hi
      cases hstep
      exact .inl (by simp [Sys.goto, Sys.setThread])
    · have hflush : i ≠ .flush := by
        rintro rfl
        rw [show (q t).held = [] from hallowed.1] at hmem
        exact absurd hmem List.not_mem_nil
      have hinvoke : i ≠ .invoke := by
        rintro rfl
        rw [show (q t).held = [] from hallowed.1] at hmem
        exact absurd hmem List.not_mem_nil
      obtain ⟨r, hr⟩ := code_execute hflush hinvoke hstep
      refine .inr ⟨?_, ?_⟩
      · refine heffect.kept hl fun k' hcode' => ?_
        rw [show mover (Action.advance t reading) = t from rfl, hcode] at hcode'
        cases hcode'
        exact hi rfl
      · rw [hr, hcode]
        exact .instr r hi

/-! ### Fair runs -/

section Course

variable {side : Side} (r : Course (machine (M := M) side))

/-- A thread takes a step. -/
def moves (n t : ℕ) : Prop := (r.label n).map mover = some t

/-- **Fairness**: a thread that can take a step again and again takes one again and again. Of a
thread that is away nothing is asked. -/
def FairRun : Prop := Fair (fun n t => Able (r.state n) t) (moves r)

/-- A thread waits for the result of a promise that is never settled, and holds no lock. -/
def AwaitsForever (n t : ℕ) : Prop := ∃ c, ∀ m, n ≤ m → AwaitsResult (r.state m) t c

/-- A thread is parked or in the stream, and its wait never ends. -/
def AwayForever (n t : ℕ) : Prop := ∃ w, ∀ m, n ≤ m → Away (r.state m) t w

/-- A moment at which a thread does not move: nothing happens, or another thread takes a step. -/
theorem stays_or_other {n : ℕ} (hmoves : ¬moves r n t) : r.state (n + 1) = r.state n ∨
    ∃ a, mover a ≠ t ∧ (r.state n).step a = .next (r.state (n + 1)) := by
  rcases r.follows n with ⟨-, hsame⟩ | ⟨a, ha, hstep⟩
  · exact .inl hsame
  · refine .inr ⟨a, fun hmover => hmoves ?_, hstep⟩
    rw [moves, ha, Option.map_some, hmover]

/-- **The threads of a run take their locks in order, in sections that end.** -/
theorem orderly : Orderly (fun n t => ((r.state n).threads t).code) (fun n l => (r.state n).locks l)
    (fun n t => Able (r.state n) t) (moves r) wants
    (fun l => Within Callbacks.program (· = .release l)) rank 3 where
  stays n t hmoves := by
    rcases stays_or_other r hmoves with hsame | ⟨a, ha, hstep⟩
    · rw [hsame]
    · rw [threads_of_ne hstep ha]
  keeps n t l hmoves hl := by
    rcases stays_or_other r hmoves with hsame | ⟨a, ha, hstep⟩
    · rw [hsame]
      exact hl
    · obtain ⟨q, h⟩ := invariant_of_reachable (r.reachable n)
      exact locks_of_ne h hstep ha hl
  frees n t l hmoves hl := by
    obtain ⟨q, h⟩ := invariant_of_reachable (r.reachable n)
    rcases r.follows n with ⟨hnone, -⟩ | ⟨a, ha, hstep⟩
    · rw [moves, hnone] at hmoves
      cases hmoves
    · rw [moves, ha, Option.map_some, Option.some.injEq] at hmoves
      exact section_step h hstep hmoves hl
  ends n t l hl := by
    obtain ⟨q, h⟩ := invariant_of_reachable (r.reachable n)
    exact section_of_checked (h.threads t).checked (((h.threads t).locks l).mp hl)
  able n t l hl hfree := by
    obtain ⟨q, h⟩ := invariant_of_reachable (r.reachable n)
    exact able_of_holder h (possessed_of_reachable (r.reachable n)) hl hfree
  order n t l l' hl hwants := by
    obtain ⟨q, h⟩ := invariant_of_reachable (r.reachable n)
    exact rank_lt_of_wants h hl hwants
  bounded := rank_lt

/-- What has been published stays published. -/
theorem published_mono {n m c : ℕ} (hnm : n ≤ m) (h : .published c ∈ (r.state n).log) :
    .published c ∈ (r.state m).log := by
  induction m, hnm using Nat.le_induction with
  | base => exact h
  | succ m _ ih =>
    rcases r.follows m with ⟨-, hsame⟩ | ⟨a, -, hstep⟩
    · rw [hsame]
      exact ih
    · rcases logs_step hstep with hlog | ⟨e, hlog, -⟩
      · rw [hlog]
        exact ih
      · rw [hlog]
        exact List.mem_append_left _ ih

variable {r}

/-- A thread goes on once the result it waits for is published. -/
theorem moves_of_published (hfair : FairRun r) {n m0 c : ℕ}
    {k : Except Error Promise.PromiseResult → Program M}
    (hcode : ((r.state n).threads t).code = .instr (.receive c) k) (hm0 : n ≤ m0)
    (hpublished : .published c ∈ (r.state m0).log) : ∃ m, n ≤ m ∧ moves r m t := by
  by_contra hnever
  refine hnever (hfair t (fun j => ⟨max m0 j, le_max_right m0 j, ?_⟩) n)
  have hm : n ≤ max m0 j := hm0.trans (le_max_left m0 j)
  obtain ⟨hsame, -⟩ := (orderly r).still hm fun i hi _ hmove => hnever ⟨i, hi, hmove⟩
  exact able_of_published (r.reachable _) (hsame.trans hcode)
    (published_mono r (le_max_left m0 j) hpublished)

/-- A thread that waits for a result goes on, or waits for it forever. -/
theorem receives (hfair : FairRun r) {n c : ℕ} {k : Except Error Promise.PromiseResult → Program M}
    (hcode : ((r.state n).threads t).code = .instr (.receive c) k) :
    (∃ m, n ≤ m ∧ moves r m t) ∨ AwaitsForever r n t := by
  by_cases hmoves : ∃ m, n ≤ m ∧ moves r m t
  · exact .inl hmoves
  · refine .inr ⟨c, fun m hm => ?_⟩
    obtain ⟨hsame, -⟩ := (orderly r).still hm fun j hj _ hmove => hmoves ⟨j, hj, hmove⟩
    obtain ⟨q, h⟩ := invariant_of_reachable (r.reachable m)
    have hcode' := hsame.trans hcode
    refine ⟨⟨k, hcode'⟩, unlocked_of_receive h hcode', fun hpublished => hmoves ?_⟩
    exact moves_of_published hfair hcode hm hpublished

/-- A thread that is away goes on, or is away forever. -/
theorem returns {n : ℕ} {w : Wait} (hw : awaits ((r.state n).threads t).code = some w) :
    (∃ m, n ≤ m ∧ moves r m t) ∨ AwayForever r n t := by
  by_cases hmoves : ∃ m, n ≤ m ∧ moves r m t
  · exact .inl hmoves
  · refine .inr ⟨w, fun m hm => ?_⟩
    obtain ⟨hsame, -⟩ := (orderly r).still hm fun j hj _ hmove => hmoves ⟨j, hj, hmove⟩
    obtain ⟨q, h⟩ := invariant_of_reachable (r.reachable m)
    exact away h (hsame ▸ hw)

/-- **No lock is held forever, and no thread waits for one forever.** In a fair run every lock is
free again and again, and a thread in a function goes on, unless from then on it waits for the
result of a promise that is never settled, or is parked or in the stream. -/
theorem never_stuck (hfair : FairRun r) :
    (∀ l n, ∃ m, n ≤ m ∧ (r.state m).locks l = none) ∧
    ∀ n t, ((r.state n).threads t).code ≠ .done →
      (∃ m, n ≤ m ∧ moves r m t) ∨ AwaitsForever r n t ∨ AwayForever r n t := by
  have horder := orderly r
  refine ⟨horder.freed hfair, fun n t hbusy => ?_⟩
  by_cases hreceive : ∃ c k, ((r.state n).threads t).code = .instr (.receive c) k
  · obtain ⟨c, k, hcode⟩ := hreceive
    exact (receives hfair hcode).imp_right .inl
  cases hawaits : awaits ((r.state n).threads t).code with
  | some w => exact (returns hawaits).imp_right .inr
  | none =>
    refine .inl (horder.goes_on hfair fun m hm hstill hfree => ?_)
    obtain ⟨hsame, -⟩ := horder.still hm hstill
    obtain ⟨q, h⟩ := invariant_of_reachable (r.reachable m)
    refine able h (possessed_of_reachable (r.reachable m)) (hsame ▸ hbusy) (hsame ▸ hawaits)
      (hsame ▸ hfree) fun c k hcode => ?_
    exact absurd ⟨c, k, hsame ▸ hcode⟩ hreceive

/-- Threads that take no step of a run stay as they are. -/
theorem threads_of_run {as : List (Action M)} {s s' : Sys M}
    (hrun : (machine side).run as s = some s') (has : ∀ a ∈ as, mover a ≠ t) :
    s'.threads t = s.threads t := by
  induction as generalizing s with
  | nil =>
    simp only [Machine.run, Option.some.injEq] at hrun
    rw [hrun]
  | cons a as ih =>
    simp only [Machine.run] at hrun
    split at hrun
    · next s1 hstep =>
      rw [ih hrun fun b hb => has b (List.mem_cons_of_mem _ hb)]
      exact threads_of_ne hstep (has a List.mem_cons_self)
    · cases hrun

/-- A run at whose end every thread is in the application's code is fair. -/
theorem fair_ofRun {as : List (Action M)} {s : Sys M}
    (hrun : (machine side).run as (machine side).init = some s)
    (hidle : ∀ t, (s.threads t).code = .done) : FairRun (Course.ofRun hrun) := by
  intro t hable
  obtain ⟨m, hm, hcan⟩ := hable as.length
  rw [Course.ofRun_state hrun hm] at hcan
  refine absurd ?_ (hcan.2 {})
  simp [Sys.step, hidle t]

/-- Whether a thread is in the application's code. -/
def isDone : Program M → Bool
  | .done => true
  | _ => false

theorem isDone_iff {code : Program M} : isDone code = true ↔ code = .done := by
  cases code <;> simp [isDone]

theorem never_stuck_waitRun : ∃ r : Course (machine (M := Unit) .client), FairRun r ∧
    wants ((r.state 19).threads 1).code = some (.session 0) ∧
    (r.state 19).locks (.session 0) = some 2 ∧
    (∃ m, 19 ≤ m ∧ (r.state m).locks (.session 0) = none) ∧
    ∀ t < 4, ((r.state 19).threads t).code ≠ .done →
      (∃ m, 19 ≤ m ∧ moves r m t) ∨ AwaitsForever r 19 t ∨ AwayForever r 19 t := by
  have hrun : ((machine .client).run waitRun (machine .client).init).map
      (fun s => (isDone (s.threads 0).code, isDone (s.threads 1).code, isDone (s.threads 2).code,
        isDone (s.threads 3).code)) = some (true, true, true, true) := by
    decide +kernel
  obtain ⟨s, hs, hdone⟩ := Option.map_eq_some_iff.mp hrun
  simp only [Prod.mk.injEq, isDone_iff] at hdone
  obtain ⟨hzero, hone, htwo, hthree⟩ := hdone
  have hmovers : ∀ a ∈ waitRun, mover a < 4 := by
    decide +kernel
  have hidle : ∀ t, (s.threads t).code = .done := by
    intro t
    match t with
    | 0 => exact hzero
    | 1 => exact hone
    | 2 => exact htwo
    | 3 => exact hthree
    | t + 4 =>
      rw [threads_of_run hs fun a ha hmover => ?_]
      · rfl
      · have := hmovers a ha
        omega
  have hfair := fair_ofRun hs hidle
  obtain ⟨hfree, hgoes⟩ := never_stuck hfair
  have hmiddle : (((Course.ofRun hs).state 19).locks (.session 0),
      wants (((Course.ofRun hs).state 19).threads 1).code) = (some 2, some (.session 0)) := by
    show ((stateAt (machine .client) waitRun 19).locks (.session 0),
      wants ((stateAt (machine .client) waitRun 19).threads 1).code) = _
    decide +kernel
  obtain ⟨hlock, hwants⟩ := Prod.mk.inj hmiddle
  exact ⟨_, hfair, hwants, hlock, hfree _ 19, fun t _ => hgoes 19 t⟩

end Course

end ArkWire.Protocol.Locking
