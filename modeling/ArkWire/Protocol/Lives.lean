import ArkWire.Lib.Histories
import ArkWire.Protocol.Callbacks

/-! # The life of a promise and its callback

One promise by itself: its channel and notification state, what has happened to it, and where its
callback is. `Step` says what can happen to it; that the threads do nothing else is shown in
`Notification`. A publication excludes registration, drop and other publications, since it is made
under the notification lock: this is in the guards.

`Tracked` is the invariant. It gives that the callback starts at most once (`Located.started`),
after the publication (`Tracked.order`), never after a drop that came first (`Timely.never`), and
that a callback that is due and has not started is in the keeping of one thread
(`Timely.publishing`). -/

namespace ArkWire.Protocol.Lives

open ArkWire.Lib.Histories
open ArkWire.Protocol.Errors ArkWire.Protocol.Callbacks
open ArkWire.Protocol.Promise (PromiseResult)

/-- Where the callback of a promise is. -/
inductive Place where
  | unset
  /-- With a thread in `notify`, which has found the promise settled or has not looked yet. -/
  | offered (t : ℕ) (settled : Bool)
  | hook
  /-- In a `Notifications` of a thread. -/
  | collected (t : ℕ)
  | started
  /-- Dropped with the promise. -/
  | dropped
  deriving DecidableEq

/-- A promise, its events, and what each thread has of it: the publication it is in and whether the
result was delivered, the callback it is to register, and how often it has collected the
callback. -/
structure Life where
  channel : Channel := {}
  history : List Event := []
  sending : ℕ → Option Bool := fun _ => none
  hand : ℕ → Option Bool := fun _ => none
  pending : ℕ → ℕ := fun _ => 0
  place : Place := .unset

/-- The promise was dropped, and not published before. -/
def DroppedFirst (c : ℕ) (history : List Event) : Prop :=
  ∃ pre post, history = pre ++ .dropped c :: post ∧ .published c ∉ pre

/-- Whether an event is the start of a callback. -/
def isStart : Event → Bool
  | .started _ _ => true
  | _ => false

/-- No publication is under way. -/
def Life.Quiet (v : Life) : Prop := ∀ t, v.sending t = none

inductive Step (c : ℕ) : Life → Life → Prop
  | create (v : Life) (t : ℕ) : v.channel.owner = .absent →
    Step c v { v with channel := { owner := .made t, receiver := true } }
  | handOut (v : Life) (t : ℕ) : v.channel.owner = .made t →
    Step c v { v with channel.owner := .held }
  | lend (v : Life) (t : ℕ) : v.channel.owner = .held → v.channel.registered = false →
    Step c v { v with
      channel := { v.channel with owner := .lent t, registered := true }
      hand := Function.update v.hand t (some false)
      place := .offered t false }
  | giveBack (v : Life) (t : ℕ) : v.channel.owner = .lent t → v.hand t = none →
    Step c v { v with channel.owner := .held }
  | spend (v : Life) (t : ℕ) : v.channel.owner = .held →
    Step c v { v with channel.owner := .spent t }
  | put (v : Life) (t : ℕ) (result : Except Error PromiseResult) : v.channel.receiver = true →
    v.Quiet →
    Step c v { v with
      channel.buffer := some result
      history := v.history ++ [.published c]
      sending := Function.update v.sending t (some true) }
  | refuse (v : Life) (t : ℕ) : v.channel.receiver = false → v.Quiet →
    Step c v { v with sending := Function.update v.sending t (some false) }
  | take (v : Life) (t : ℕ) (delivered : Bool) : v.sending t = some delivered →
    (∀ t', t' ≠ t → v.sending t' = none) → v.channel.hook = false →
    Step c v { v with
      channel := { v.channel with done := v.channel.done || delivered, hook := false }
      sending := Function.update v.sending t none }
  | collect (v : Life) (t : ℕ) (delivered : Bool) : v.sending t = some delivered →
    (∀ t', t' ≠ t → v.sending t' = none) → v.channel.hook = true →
    Step c v { v with
      channel := { v.channel with done := v.channel.done || delivered, hook := false }
      sending := Function.update v.sending t none
      pending := Function.update v.pending t (v.pending t + 1)
      place := .collected t }
  | settled (v : Life) (t : ℕ) : v.channel.done = true → v.hand t = some false → v.Quiet →
    Step c v { v with
      history := v.history ++ [.registered c true]
      hand := Function.update v.hand t (some true)
      place := .offered t true }
  | register (v : Life) (t : ℕ) : v.channel.done = false → v.hand t = some false → v.Quiet →
    Step c v { v with
      channel.hook := true
      history := v.history ++ [.registered c false]
      hand := Function.update v.hand t none
      place := .hook }
  | invoke (v : Life) (t : ℕ) : v.hand t = some true →
    Step c v { v with
      history := v.history ++ [.started c t]
      hand := Function.update v.hand t none
      place := .started }
  | run (v : Life) (t n : ℕ) : v.pending t = n + 1 →
    Step c v { v with
      history := v.history ++ [.started c t]
      pending := Function.update v.pending t n
      place := .started }
  | discard (v : Life) (t : ℕ) : v.channel.owner = .made t ∨ v.channel.owner = .spent t → v.Quiet →
    Step c v { v with
      channel := { v.channel with owner := .gone, hook := false }
      history := v.history ++ [.dropped c]
      place := if v.channel.hook then .dropped else v.place }
  | dropReceiver (v : Life) : v.channel.owner = .gone →
    Step c v { v with channel := { v.channel with receiver := false, buffer := none } }
  | receive (v : Life) : v.channel.buffer.isSome →
    Step c v { v with channel.buffer := none, history := v.history ++ [.received c] }

/-! ### The invariant -/

variable {c : ℕ} {v v' : Life}

/-- The channel, its owner and the publication. -/
structure Sane (c : ℕ) (v : Life) : Prop where
  receiver : v.channel.receiver = false → v.channel.owner = .absent ∨ v.channel.owner = .gone
  gone : .dropped c ∈ v.history → v.channel.owner = .gone
  fresh : v.channel.owner = .absent → v.channel.receiver = false ∧ .published c ∉ v.history
  done : v.channel.done = true → .published c ∈ v.history
  sent : ∀ t, v.sending t = some true → .published c ∈ v.history
  published : .published c ∈ v.history → v.channel.done = true ∨ ∃ t, v.sending t = some true
  available : .published c ∈ v.history →
    v.channel.buffer.isSome ∨ .received c ∈ v.history ∨ v.channel.receiver = false

/-- The callback is where its place says and nowhere else. -/
structure Located (c : ℕ) (v : Life) : Prop where
  hook : v.channel.hook = true ↔ v.place = .hook
  hand : ∀ t b, v.hand t = some b ↔ v.place = .offered t b
  pending : ∀ t, v.pending t = if v.place = .collected t then 1 else 0
  started : v.history.countP isStart = if v.place = .started then 1 else 0
  registered : (∃ b, .registered c b ∈ v.history) ↔
    v.place ≠ .unset ∧ ∀ t, v.place ≠ .offered t false
  once : v.channel.registered = false → v.place = .unset

/-- What its place says of the publication and the drop. -/
structure Timely (c : ℕ) (v : Life) : Prop where
  absent : v.channel.owner = .absent → v.place = .unset
  lent : ∀ t b, v.place = .offered t b → v.channel.owner = .lent t
  alive : v.place = .hook → v.channel.owner ≠ .gone
  unsent : ∀ t, v.sending t = some false → v.place ≠ .hook
  publishing : v.place = .hook → .published c ∈ v.history → ∃ t, v.sending t = some true
  due : ∀ t, v.place = .offered t true ∨ v.place = .collected t ∨ v.place = .started →
    .published c ∈ v.history
  settled : .registered c true ∈ v.history → (∃ t, v.place = .offered t true) ∨ v.place = .started
  first : v.place = .dropped → DroppedFirst c v.history
  never : DroppedFirst c v.history → v.place = .unset ∨ v.place = .dropped

/-- A callback starts after its registration and the publication. -/
def Allowed (c : ℕ) (pre : List Event) : Event → Prop
  | .started _ _ => .published c ∈ pre ∧ ∃ b, .registered c b ∈ pre
  | _ => True

/-- **The invariant of a promise.** -/
structure Tracked (c : ℕ) (v : Life) : Prop extends Sane c v, Located c v, Timely c v where
  order : Legal (Allowed c) v.history

theorem droppedFirst_append {history : List Event} {e : Event} (he : e ≠ .dropped c) :
    DroppedFirst c (history ++ [e]) ↔ DroppedFirst c history := by
  constructor
  · rintro ⟨pre, post, hsplit, hpre⟩
    rcases List.eq_nil_or_concat post with rfl | ⟨post', last, rfl⟩
    · obtain ⟨-, hlast⟩ := List.append_inj' hsplit rfl
      exact absurd (List.cons.inj hlast).1 he
    · have hinit : history ++ [e] = (pre ++ .dropped c :: post') ++ [last] := by simpa using hsplit
      exact ⟨pre, post', (List.append_inj' hinit rfl).1, hpre⟩
  · rintro ⟨pre, post, rfl, hpre⟩
    exact ⟨pre, post ++ [e], by simp, hpre⟩

theorem droppedFirst_dropped {history : List Event} :
    DroppedFirst c (history ++ [.dropped c]) ↔
      DroppedFirst c history ∨ .published c ∉ history := by
  constructor
  · rintro ⟨pre, post, hsplit, hpre⟩
    rcases List.eq_nil_or_concat post with rfl | ⟨post', last, rfl⟩
    · obtain ⟨rfl, -⟩ := List.append_inj' hsplit rfl
      exact .inr hpre
    · have hinit : history ++ [.dropped c] = (pre ++ .dropped c :: post') ++ [last] := by
        simpa using hsplit
      exact .inl ⟨pre, post', (List.append_inj' hinit rfl).1, hpre⟩
  · rintro (⟨pre, post, rfl, hpre⟩ | h)
    · exact ⟨pre, post ++ [.dropped c], by simp, hpre⟩
    · exact ⟨history, [], rfl, h⟩

theorem DroppedFirst.mem {history : List Event} (h : DroppedFirst c history) :
    .dropped c ∈ history := by
  obtain ⟨pre, post, rfl, -⟩ := h
  simp

namespace Tracked

/-- A publication that finds a hook has delivered its result. -/
theorem published_of_hook (h : Tracked c v) {t : ℕ} {delivered : Bool}
    (hs : v.sending t = some delivered) (hh : v.channel.hook = true) :
    .published c ∈ v.history := by
  have hplace : v.place = .hook := h.hook.mp hh
  cases delivered with
  | true => exact h.sent t hs
  | false => exact absurd hplace (h.unsent t hs)

/-- A hook that no publication is about to take belongs to a promise that is not settled. -/
theorem unpublished_of_hook (h : Tracked c v) (hq : v.Quiet) (hh : v.channel.hook = true) :
    .published c ∉ v.history := by
  intro hp
  obtain ⟨t, ht⟩ := h.publishing (h.hook.mp hh) hp
  rw [hq t] at ht
  cases ht

/-- The promise that is dropped before its publication has no callback but the hook. -/
theorem place_of_unpublished (h : Tracked c v) {t : ℕ}
    (ho : v.channel.owner = .made t ∨ v.channel.owner = .spent t) (hh : ¬v.channel.hook = true)
    (hp : .published c ∉ v.history) : v.place = .unset ∨ v.place = .dropped := by
  cases hplace : v.place with
  | unset => exact .inl rfl
  | dropped => exact .inr rfl
  | hook => exact absurd (h.hook.mpr hplace) hh
  | offered t' b =>
    have hlent := h.lent t' b hplace
    rcases ho with ho | ho <;> rw [hlent] at ho <;> cases ho
  | collected t' => exact absurd (h.due t' (.inr (.inl hplace))) hp
  | started => exact absurd (h.due t (.inr (.inr hplace))) hp

theorem place_of_pending (h : Tracked c v) {t n : ℕ} (hn : v.pending t = n + 1) :
    v.place = .collected t := by
  by_contra hne
  rw [h.pending t, if_neg hne] at hn
  cases hn

end Tracked

/-! ### The steps keep it -/

theorem mem_logged {e e' : Event} {history : List Event} (h : e ≠ e') :
    e ∈ history ++ [e'] ↔ e ∈ history := by
  simp [h]

/-- The promise passes from an owner to another. -/
theorem Sane.passes (h : Sane c v) {owner : Owner} (habsent : v.channel.owner ≠ .absent)
    (hgone : v.channel.owner ≠ .gone) (howner : owner ≠ .absent) :
    Sane c { v with channel.owner := owner } :=
  { h with
    receiver := fun hr => ((h.receiver hr).elim habsent hgone).elim
    gone := fun hd => absurd (h.gone hd) hgone
    fresh := fun ho => absurd ho howner }

/-- An event other than publication and drop. -/
theorem Sane.logs (h : Sane c v) {e : Event} (hpublished : .published c ≠ e)
    (hdropped : .dropped c ≠ e) : Sane c { v with history := v.history ++ [e] } where
  receiver := h.receiver
  gone hd := h.gone ((mem_logged hdropped).mp hd)
  fresh ho := ⟨(h.fresh ho).1, fun hp => (h.fresh ho).2 ((mem_logged hpublished).mp hp)⟩
  done hd := (mem_logged hpublished).mpr (h.done hd)
  sent t ht := (mem_logged hpublished).mpr (h.sent t ht)
  published hp := h.published ((mem_logged hpublished).mp hp)
  available hp := by
    rcases h.available ((mem_logged hpublished).mp hp) with hbuffer | hreceived | hreceiver
    · exact .inl hbuffer
    · exact .inr (.inl (List.mem_append_left _ hreceived))
    · exact .inr (.inr hreceiver)

/-- A publication ends. -/
theorem Sane.takes (h : Sane c v) {t : ℕ} {delivered : Bool} (hs : v.sending t = some delivered)
    (hothers : ∀ t', t' ≠ t → v.sending t' = none) :
    Sane c { v with
      channel := { v.channel with done := v.channel.done || delivered, hook := false }
      sending := Function.update v.sending t none } :=
  { h with
    done := fun hd => by
      rcases Bool.or_eq_true_iff.mp hd with hd | rfl
      · exact h.done hd
      · exact h.sent t hs
    sent := fun t' ht' => by
      by_cases heq : t' = t
      · subst heq
        simp at ht'
      · simp [heq, hothers t' heq] at ht'
    published := fun hp => by
      refine .inl (Bool.or_eq_true_iff.mpr ((h.published hp).imp_right fun ⟨t', ht'⟩ => ?_))
      by_cases heq : t' = t
      · rw [heq, hs] at ht'
        exact Option.some.inj ht'
      · rw [hothers t' heq] at ht'
        cases ht' }

theorem step_sane (hstep : Step c v v') (h : Tracked c v) : Sane c v' := by
  have hsane := h.toSane
  cases hstep with
  | create t ho =>
    exact { hsane with
      receiver := fun hr => nomatch hr
      gone := fun hd => absurd (ho.symm.trans (h.gone hd)) (by simp)
      fresh := fun ho' => nomatch ho'
      done := fun hd => nomatch hd
      published := fun hp => absurd hp (h.fresh ho).2
      available := fun hp => absurd hp (h.fresh ho).2 }
  | handOut t ho => exact hsane.passes (by simp [ho]) (by simp [ho]) (by simp)
  | lend t ho => exact { hsane.passes (by simp [ho]) (by simp [ho]) (by simp) with }
  | giveBack t ho => exact hsane.passes (by simp [ho]) (by simp [ho]) (by simp)
  | spend t ho => exact hsane.passes (by simp [ho]) (by simp [ho]) (by simp)
  | put t result hr hq =>
    exact { hsane with
      gone := fun hd => h.gone ((mem_logged (by simp)).mp hd)
      fresh := fun ho => absurd hr (by simp [(h.fresh ho).1])
      done := fun _ => List.mem_append_right _ (List.mem_singleton_self _)
      sent := fun _ _ => List.mem_append_right _ (List.mem_singleton_self _)
      published := fun _ => .inr ⟨t, Function.update_self ..⟩
      available := fun _ => .inl rfl }
  | refuse t hr hq =>
    exact { hsane with
      sent := fun t' ht' => by
        by_cases heq : t' = t
        · subst heq
          simp at ht'
        · simp [heq, hq t'] at ht'
      published := fun hp => (h.published hp).imp_right fun ⟨t', ht'⟩ => by
        rw [hq t'] at ht'
        cases ht' }
  | take t delivered hs hothers => exact hsane.takes hs hothers
  | collect t delivered hs hothers => exact { hsane.takes hs hothers with }
  | settled t => exact { hsane.logs (e := .registered c true) (by simp) (by simp) with }
  | register t => exact { hsane.logs (e := .registered c false) (by simp) (by simp) with }
  | invoke t => exact { hsane.logs (e := .started c t) (by simp) (by simp) with }
  | run t n => exact { hsane.logs (e := .started c t) (by simp) (by simp) with }
  | discard t ho hq =>
    exact { hsane with
      receiver := fun _ => .inr rfl
      gone := fun _ => rfl
      fresh := fun ho' => nomatch ho'
      done := fun hd => (mem_logged (by simp)).mpr (h.done hd)
      sent := fun t' ht' => (mem_logged (by simp)).mpr (h.sent t' ht')
      published := fun hp => h.published ((mem_logged (by simp)).mp hp)
      available := fun hp =>
        (h.available ((mem_logged (by simp)).mp hp)).imp_right fun hor =>
          hor.imp_left (List.mem_append_left _) }
  | dropReceiver ho =>
    exact { hsane with
      receiver := fun _ => .inr ho
      fresh := fun ho' => absurd (ho.symm.trans ho') (by simp)
      available := fun _ => .inr (.inr rfl) }
  | receive hb =>
    exact { hsane.logs (e := .received c) (by simp) (by simp) with
      available := fun _ => .inr (.inl (List.mem_append_right _ (List.mem_singleton_self _))) }

/-- An event that is neither a registration nor a start. -/
theorem Located.logs (h : Located c v) {e : Event} (hregistered : ∀ b, .registered c b ≠ e)
    (hstart : isStart e = false) : Located c { v with history := v.history ++ [e] } :=
  { h with
    started := by
      rw [List.countP_append, List.countP_singleton, hstart]
      exact h.started
    registered := by
      rw [← h.registered]
      exact exists_congr fun b => mem_logged (hregistered b) }

/-- A thread puts its callback somewhere else. -/
theorem Located.hand_update (h : Located c v) {t : ℕ} {x : Option Bool} {place : Place}
    (hold : ∀ t' b, t ≠ t' → v.place ≠ .offered t' b)
    (hnew : ∀ t' b, t ≠ t' → place ≠ .offered t' b) (hx : ∀ b, x = some b ↔ place = .offered t b) :
    ∀ t' b, Function.update v.hand t x t' = some b ↔ place = .offered t' b := by
  intro t' b
  by_cases heq : t' = t
  · subst heq
    rw [Function.update_self]
    exact hx b
  · rw [Function.update_of_ne heq, h.hand t' b]
    exact iff_of_false (hold t' b (Ne.symm heq)) (hnew t' b (Ne.symm heq))

theorem step_located (hstep : Step c v v') (h : Tracked c v) : Located c v' := by
  have hlocated := h.toLocated
  cases hstep with
  | create t ho =>
    have hplace := h.absent ho
    exact { hlocated with hook := by simp [hplace], once := fun _ => hplace }
  | handOut t => exact { hlocated with }
  | lend t ho hr =>
    have hplace := h.once hr
    exact {
      hook := by simpa [hplace] using h.hook
      hand := hlocated.hand_update (by simp [hplace]) (by simp) (by simp)
      pending := fun t' => by simpa [hplace] using h.pending t'
      started := by simpa [hplace] using h.started
      registered := by simpa [hplace] using h.registered
      once := fun hr => nomatch hr }
  | giveBack t => exact { hlocated with }
  | spend t => exact { hlocated with }
  | put t => exact { hlocated.logs (e := .published c) (by simp) rfl with }
  | refuse t => exact { hlocated with }
  | take t delivered hs hothers hh => exact { hlocated with hook := by simpa [hh] using h.hook }
  | collect t delivered hs hothers hh =>
    have hplace := h.hook.mp hh
    exact {
      hook := by simp
      hand := fun t' b => by simpa [hplace] using h.hand t' b
      pending := fun t' => by
        by_cases heq : t' = t
        · subst heq
          simpa [hplace] using h.pending t'
        · simpa [heq, Ne.symm heq, hplace] using h.pending t'
      started := by simpa [hplace] using h.started
      registered := by simpa [hplace] using h.registered
      once := fun hr => absurd (h.once hr) (by simp [hplace]) }
  | settled t hd hh =>
    have hplace := (h.hand t false).mp hh
    exact {
      hook := by simpa [hplace] using h.hook
      hand := hlocated.hand_update (by simp [hplace]) (by simp) (by simp)
      pending := fun t' => by simpa [hplace] using h.pending t'
      started := by simpa [hplace, isStart] using h.started
      registered := by simp
      once := fun hr => absurd (h.once hr) (by simp [hplace]) }
  | register t hd hh =>
    have hplace := (h.hand t false).mp hh
    exact {
      hook := by simp
      hand := hlocated.hand_update (by simp [hplace]) (by simp) (by simp)
      pending := fun t' => by simpa [hplace] using h.pending t'
      started := by simpa [hplace, isStart] using h.started
      registered := by simp
      once := fun hr => absurd (h.once hr) (by simp [hplace]) }
  | invoke t hh =>
    have hplace := (h.hand t true).mp hh
    exact {
      hook := by simpa [hplace] using h.hook
      hand := hlocated.hand_update (by simp [hplace]) (by simp) (by simp)
      pending := fun t' => by simpa [hplace] using h.pending t'
      started := by simpa [hplace, isStart] using h.started
      registered := by simpa [hplace] using h.registered
      once := fun hr => absurd (h.once hr) (by simp [hplace]) }
  | run t n hn =>
    have hplace := h.place_of_pending hn
    have hzero : n = 0 := by simpa [hplace, hn] using h.pending t
    exact {
      hook := by simpa [hplace] using h.hook
      hand := fun t' b => by simpa [hplace] using h.hand t' b
      pending := fun t' => by
        by_cases heq : t' = t
        · subst heq
          simpa using hzero
        · simpa [heq, Ne.symm heq, hplace] using h.pending t'
      started := by simpa [hplace, isStart] using h.started
      registered := by simpa [hplace] using h.registered
      once := fun hr => absurd (h.once hr) (by simp [hplace]) }
  | discard t =>
    have hlogs := hlocated.logs (e := .dropped c) (by simp) rfl
    by_cases hh : v.channel.hook = true
    · have hplace := h.hook.mp hh
      simp only [hh, if_true]
      exact {
        hook := by simp
        hand := fun t' b => by simpa [hplace] using h.hand t' b
        pending := fun t' => by simpa [hplace] using h.pending t'
        started := by simpa [hplace] using hlogs.started
        registered := by simpa [hplace] using hlogs.registered
        once := fun hr => absurd (h.once hr) (by simp [hplace]) }
    · simp only [hh]
      exact { hlogs with hook := by simpa [hh] using h.hook }
  | dropReceiver => exact { hlocated with }
  | receive => exact { hlocated.logs (e := .received c) (by simp) rfl with }

/-- The promise passes from an owner to another, with no callback on offer. -/
theorem Timely.passes (h : Timely c v) {owner : Owner} (hoffered : ∀ t b, v.place ≠ .offered t b)
    (habsent : owner ≠ .absent) (hgone : owner ≠ .gone) :
    Timely c { v with channel.owner := owner } :=
  { h with
    absent := fun ho => absurd ho habsent
    lent := fun t b hp => absurd hp (hoffered t b)
    alive := fun _ => hgone }

/-- An event that is neither a publication, a drop nor the registration on a settled promise. -/
theorem Timely.logs (h : Timely c v) {e : Event} (hpublished : .published c ≠ e)
    (hsettled : .registered c true ≠ e) (hdropped : e ≠ .dropped c) :
    Timely c { v with history := v.history ++ [e] } :=
  { h with
    publishing := fun hp hm => h.publishing hp ((mem_logged hpublished).mp hm)
    due := fun t hp => (mem_logged hpublished).mpr (h.due t hp)
    settled := fun hm => h.settled ((mem_logged hsettled).mp hm)
    first := fun hp => (droppedFirst_append hdropped).mpr (h.first hp)
    never := fun hf => h.never ((droppedFirst_append hdropped).mp hf) }

/-- A callback that is due starts. -/
theorem Tracked.starts (h : Tracked c v) {t : ℕ}
    (hplace : v.place = .offered t true ∨ v.place = .collected t) :
    Timely c { v with history := v.history ++ [.started c t], place := .started } where
  absent ho := by
    rw [h.absent ho] at hplace
    simp at hplace
  lent t' b hp := nomatch hp
  alive hp := nomatch hp
  unsent t' _ hp := nomatch hp
  publishing hp := nomatch hp
  due _ _ := List.mem_append_left _ (h.due t (hplace.imp_right .inl))
  settled _ := .inr rfl
  first hp := nomatch hp
  never hf := by
    rcases h.never ((droppedFirst_append (by simp)).mp hf) with hp | hp
    · simp [hp] at hplace
    · simp [hp] at hplace

/-- The promise is lent to a thread in `notify`. -/
theorem Tracked.timely_lend (h : Tracked c v) {t : ℕ} (ho : v.channel.owner = .held)
    (hr : v.channel.registered = false) :
    Timely c { v with
      channel := { v.channel with owner := .lent t, registered := true }
      hand := Function.update v.hand t (some false)
      place := .offered t false } := by
  have hplace := h.once hr
  exact {
    absent := fun ho => nomatch ho
    lent := fun t' b hp => by cases hp; rfl
    alive := fun hp => nomatch hp
    unsent := fun t' _ hp => nomatch hp
    publishing := fun hp => nomatch hp
    due := fun t' hp => by simp at hp
    settled := fun hm => absurd (h.settled hm) (by simp [hplace])
    first := fun hp => nomatch hp
    never := fun hf => absurd (h.gone hf.mem) (by simp [ho]) }

/-- The result goes into the channel. -/
theorem Tracked.timely_put (h : Tracked c v) {t : ℕ} (result : Except Error PromiseResult)
    (hq : v.Quiet) :
    Timely c { v with
      channel.buffer := some result
      history := v.history ++ [.published c]
      sending := Function.update v.sending t (some true) } :=
  { h.toTimely with
    unsent := fun t' ht' => by
      by_cases heq : t' = t
      · subst heq
        simp at ht'
      · simp [heq, hq t'] at ht'
    publishing := fun _ _ => ⟨t, Function.update_self ..⟩
    due := fun _ _ => List.mem_append_right _ (List.mem_singleton_self _)
    settled := fun hm => h.settled ((mem_logged (by simp)).mp hm)
    first := fun hp => (droppedFirst_append (by simp)).mpr (h.first hp)
    never := fun hf => h.never ((droppedFirst_append (by simp)).mp hf) }

/-- A promise whose receiver is gone has no callback. -/
theorem Tracked.unhooked (h : Tracked c v) (hr : v.channel.receiver = false) : v.place ≠ .hook := by
  intro hp
  rcases h.receiver hr with ho | ho
  · rw [h.absent ho] at hp
    cases hp
  · exact h.alive hp ho

/-- A publication takes the callback. -/
theorem Tracked.timely_collect (h : Tracked c v) {t : ℕ} {delivered : Bool}
    (hs : v.sending t = some delivered) (hh : v.channel.hook = true) :
    Timely c { v with
      channel := { v.channel with done := v.channel.done || delivered, hook := false }
      sending := Function.update v.sending t none
      pending := Function.update v.pending t (v.pending t + 1)
      place := .collected t } := by
  have hplace := h.hook.mp hh
  exact {
    absent := fun ho => absurd (h.absent ho) (by simp [hplace])
    lent := fun t' b hp => nomatch hp
    alive := fun hp => nomatch hp
    unsent := fun t' _ hp => nomatch hp
    publishing := fun hp => nomatch hp
    due := fun _ _ => h.published_of_hook hs hh
    settled := fun hm => absurd (h.settled hm) (by simp [hplace])
    first := fun hp => nomatch hp
    never := fun hf => absurd (h.never hf) (by simp [hplace]) }

/-- `notify` finds the promise settled. -/
theorem Tracked.timely_settled (h : Tracked c v) {t : ℕ} (hd : v.channel.done = true)
    (hh : v.hand t = some false) :
    Timely c { v with
      history := v.history ++ [.registered c true]
      hand := Function.update v.hand t (some true)
      place := .offered t true } := by
  have hplace := (h.hand t false).mp hh
  have hlent := h.lent t false hplace
  exact {
    absent := fun ho => absurd (hlent.symm.trans ho) (by simp)
    lent := fun t' b hp => by cases hp; exact hlent
    alive := fun hp => nomatch hp
    unsent := fun t' _ hp => nomatch hp
    publishing := fun hp => nomatch hp
    due := fun _ _ => List.mem_append_left _ (h.done hd)
    settled := fun _ => .inl ⟨t, rfl⟩
    first := fun hp => nomatch hp
    never := fun hf => absurd (h.never ((droppedFirst_append (by simp)).mp hf)) (by simp [hplace]) }

/-- `notify` registers the callback: the result is not published yet. -/
theorem Tracked.timely_register (h : Tracked c v) {t : ℕ} (hd : v.channel.done = false)
    (hh : v.hand t = some false) (hq : v.Quiet) :
    Timely c { v with
      channel.hook := true
      history := v.history ++ [.registered c false]
      hand := Function.update v.hand t none
      place := .hook } := by
  have hplace := (h.hand t false).mp hh
  have hlent := h.lent t false hplace
  have hunpublished : .published c ∉ v.history := by
    intro hp
    rcases h.published hp with hd' | ⟨t', ht'⟩
    · exact absurd (hd.symm.trans hd') (by simp)
    · exact absurd ((hq t').symm.trans ht') (by simp)
  exact {
    absent := fun ho => absurd (hlent.symm.trans ho) (by simp)
    lent := fun t' b hp => nomatch hp
    alive := fun _ ho => absurd (hlent.symm.trans ho) (by simp)
    unsent := fun t' ht' => absurd ((hq t').symm.trans ht') (by simp)
    publishing := fun _ hp => absurd ((mem_logged (by simp)).mp hp) hunpublished
    due := fun t' hp => by simp at hp
    settled := fun hm => absurd (h.settled ((mem_logged (by simp)).mp hm)) (by simp [hplace])
    first := fun hp => nomatch hp
    never := fun hf => absurd (h.never ((droppedFirst_append (by simp)).mp hf)) (by simp [hplace]) }

/-- The promise is dropped with its callback, before a result. -/
theorem Tracked.timely_discardHook (h : Tracked c v) (hq : v.Quiet) (hh : v.channel.hook = true) :
    Timely c { v with
      channel := { v.channel with owner := .gone, hook := false }
      history := v.history ++ [.dropped c]
      place := .dropped } := by
  have hplace := h.hook.mp hh
  have hunpublished := h.unpublished_of_hook hq hh
  exact {
    absent := fun ho => nomatch ho
    lent := fun t' b hp => nomatch hp
    alive := fun hp => nomatch hp
    unsent := fun t' _ hp => nomatch hp
    publishing := fun hp => nomatch hp
    due := fun t' hp => by simp at hp
    settled := fun hm => absurd (h.settled ((mem_logged (by simp)).mp hm)) (by simp [hplace])
    first := fun _ => droppedFirst_dropped.mpr (.inr hunpublished)
    never := fun _ => .inr rfl }

/-- A promise without a callback is dropped. -/
theorem Tracked.timely_discard (h : Tracked c v) {t : ℕ}
    (ho : v.channel.owner = .made t ∨ v.channel.owner = .spent t) (hh : ¬v.channel.hook = true)
    (hunoffered : ∀ t b, v.place ≠ .offered t b) :
    Timely c { v with
      channel := { v.channel with owner := .gone, hook := false }
      history := v.history ++ [.dropped c] } := by
  have hunhooked : v.place ≠ .hook := fun hp => hh (h.hook.mpr hp)
  exact {
    absent := fun ho => nomatch ho
    lent := fun t' b hp => absurd hp (hunoffered t' b)
    alive := fun hp => absurd hp hunhooked
    unsent := fun _ _ => hunhooked
    publishing := fun hp => absurd hp hunhooked
    due := fun t' hp => List.mem_append_left _ (h.due t' hp)
    settled := fun hm => h.settled ((mem_logged (by simp)).mp hm)
    first := fun hp => droppedFirst_dropped.mpr (.inl (h.first hp))
    never := fun hf => (droppedFirst_dropped.mp hf).elim h.never (h.place_of_unpublished ho hh) }

theorem step_timely (hstep : Step c v v') (h : Tracked c v) : Timely c v' := by
  have htimely := h.toTimely
  have hunoffered : ∀ t b, v.channel.owner ≠ .lent t → v.place ≠ .offered t b :=
    fun t b hne hp => hne (h.lent t b hp)
  cases hstep with
  | create t ho =>
    have hplace := h.absent ho
    exact { htimely with
      absent := fun _ => hplace
      lent := fun t b hp => absurd hp (by simp [hplace])
      alive := fun hp => absurd hp (by simp [hplace]) }
  | handOut t ho =>
    exact htimely.passes (fun t b => hunoffered t b (by simp [ho])) (by simp) (by simp)
  | spend t ho =>
    exact htimely.passes (fun t b => hunoffered t b (by simp [ho])) (by simp) (by simp)
  | giveBack t ho hh =>
    refine htimely.passes (fun t' b hp => ?_) (by simp) (by simp)
    have hlent := h.lent t' b hp
    have hhand := (h.hand t' b).mpr hp
    rw [ho] at hlent
    cases hlent
    rw [hh] at hhand
    cases hhand
  | lend t ho hr => exact h.timely_lend ho hr
  | put t result hr hq => exact h.timely_put result hq
  | refuse t hr hq =>
    have hunhooked := h.unhooked hr
    exact { htimely with
      unsent := fun _ _ => hunhooked
      publishing := fun hp => absurd hp hunhooked }
  | take t delivered hs hothers hh =>
    have hunhooked : v.place ≠ .hook := by simpa [hh] using h.hook
    exact { htimely with
      unsent := fun _ _ => hunhooked
      publishing := fun hp => absurd hp hunhooked }
  | collect t delivered hs hothers hh => exact h.timely_collect hs hh
  | settled t hd hh hq => exact h.timely_settled hd hh
  | register t hd hh hq => exact h.timely_register hd hh hq
  | invoke t hh =>
    exact { h.starts (.inl ((h.hand t true).mp hh)) with }
  | run t n hn =>
    exact { h.starts (.inr (h.place_of_pending hn)) with }
  | discard t ho hq =>
    have howner : ∀ t b, v.place ≠ .offered t b := fun t b =>
      hunoffered t b (by rcases ho with ho | ho <;> simp [ho])
    by_cases hh : v.channel.hook = true
    · simp only [hh, if_true]
      exact h.timely_discardHook hq hh
    · simp only [hh]
      exact h.timely_discard ho hh howner
  | dropReceiver => exact { htimely with }
  | receive =>
    exact { htimely.logs (e := .received c) (by simp) (by simp) (by simp) with }

theorem step_order (hstep : Step c v v') (h : Tracked c v) : Legal (Allowed c) v'.history := by
  cases hstep with
  | invoke t hh =>
    have hplace := (h.hand t true).mp hh
    refine h.order.append ⟨h.due t (.inl hplace), h.registered.mpr ?_⟩
    rw [hplace]
    exact ⟨by simp, by simp⟩
  | run t n hn =>
    have hplace := h.place_of_pending hn
    refine h.order.append ⟨h.due t (.inr (.inl hplace)), h.registered.mpr ?_⟩
    rw [hplace]
    exact ⟨by simp, by simp⟩
  | put => exact h.order.append trivial
  | settled => exact h.order.append trivial
  | register => exact h.order.append trivial
  | discard => exact h.order.append trivial
  | receive => exact h.order.append trivial
  | _ => exact h.order

/-- **What can happen to a promise keeps its invariant.** -/
theorem Tracked.step (h : Tracked c v) (hstep : Step c v v') : Tracked c v' :=
  ⟨step_sane hstep h, step_located hstep h, step_timely hstep h, step_order hstep h⟩

theorem tracked_init : Tracked c {} where
  receiver _ := .inl rfl
  gone h := absurd h List.not_mem_nil
  fresh _ := ⟨rfl, List.not_mem_nil⟩
  done h := absurd h Bool.false_ne_true
  sent t h := by cases h
  published h := absurd h List.not_mem_nil
  available h := absurd h List.not_mem_nil
  hook := by simp
  hand := by simp
  pending t := rfl
  started := rfl
  registered := by simp
  once _ := rfl
  absent _ := rfl
  lent t b h := by cases h
  alive h := by cases h
  unsent t h := by cases h
  publishing h := by cases h
  due t h := by simp at h
  settled h := absurd h List.not_mem_nil
  first h := by cases h
  never h := absurd h.mem List.not_mem_nil
  order := Legal.nil

end ArkWire.Protocol.Lives
