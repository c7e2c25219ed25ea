import ArkWire.Protocol.Discipline
import ArkWire.Protocol.Lives

/-! # The promise notification law

The threads of `Callbacks` follow the discipline, and to each promise they do only what is in its
life: `Invariant` joins the static state of every thread with the invariant of every promise, and
each instruction is a step of the life of one promise at most (`Invariant.quiet`,
`Invariant.moves`). Publication, registration and drop exclude each other since they are made under
the notification lock, which one thread holds.

The law (`notification_law`) holds in every state of every run, so for every interleaving of
`notify`, `wait` and drops with all that settles promises. -/

namespace ArkWire.Protocol.Notification

open ArkWire.Lib.Machines ArkWire.Lib.Programs ArkWire.Lib.Histories
open ArkWire.Protocol.Errors ArkWire.Protocol.Envelope ArkWire.Protocol.Session
open ArkWire.Protocol.Callbacks
open ArkWire.Protocol.Discipline ArkWire.Protocol.Lives

variable {M : Type} {s s' : Sys M} {q : ℕ → Static} {q' : Static} {c t : ℕ} {thread : Thread M}

/-! ### The lives of the promises -/

/-- The promise an event is about. -/
def Event.channel : Event → ℕ
  | .registered c _ => c
  | .published c => c
  | .received c => c
  | .dropped c => c
  | .started c _ => c

def history (s : Sys M) (c : ℕ) : List Event := s.log.filter fun e => Event.channel e = c

/-- What concerns one promise. -/
def share (c : ℕ) (x : Option (ℕ × Bool)) : Option Bool :=
  x.bind fun x => if x.1 = c then some x.2 else none

/-- The callbacks a thread has collected and not run. -/
def collected (thread : Thread M) : List ℕ :=
  thread.collectors.flatten ++ thread.frames.flatMap (·.collectors.flatten)

/-- The life of a promise, with the place of its callback. -/
def life (s : Sys M) (q : ℕ → Static) (c : ℕ) (place : Place) : Life where
  channel := s.channels c
  history := history s c
  sending t := share c (q t).sending
  hand t := share c (q t).hand
  pending t := (collected (s.threads t)).count c
  place := place

@[simp] theorem share_none : share c none = none := rfl

@[simp] theorem share_self (b : Bool) : share c (some (c, b)) = some b := by simp [share]

theorem share_ne {c' : ℕ} (h : c' ≠ c) (b : Bool) : share c (some (c', b)) = none := by
  simp [share, h]

theorem share_eq_some {x : Option (ℕ × Bool)} {b : Bool} :
    share c x = some b ↔ x = some (c, b) := by
  cases x with
  | none => simp
  | some x =>
    obtain ⟨c', b'⟩ := x
    simp [share]

/-! ### The invariant -/

/-- A thread is where its static state says. -/
structure Agrees (locks : Lock → Option ℕ) (t : ℕ) (thread : Thread M) (q : Static) : Prop where
  checked : Checked (discipline M) q thread.code
  locks : ∀ l, locks l = some t ↔ l ∈ q.held
  nodup : q.held.Nodup
  depth : thread.collectors.length = q.depth
  hand : q.hand.map Prod.fst = thread.hand
  sending : ∀ c b, q.sending = some (c, b) → .notification c ∈ q.held
  frames : ∀ f ∈ thread.frames, Checked (discipline M) { depth := f.collectors.length } f.code

/-- **The invariant of the machine.** -/
structure Invariant (s : Sys M) (q : ℕ → Static) : Prop where
  threads : ∀ t, Agrees s.locks t (s.threads t) (q t)
  lives : ∀ c, ∃ place, Tracked c (life s q c place)
  fresh : ∀ c, s.nextChannel ≤ c → (s.channels c).owner = .absent

theorem invariant_init (side : Side) : Invariant (machine (M := M) side).init fun _ => {} where
  threads t := ⟨rfl, by simp [machine], List.nodup_nil, rfl, rfl, by simp, by simp [machine]⟩
  lives c := ⟨.unset, tracked_init⟩
  fresh c _ := rfl

/-- The life of a promise after a step of a thread. -/
theorem life_step (hthreads : s'.threads = Function.update s.threads t thread) (place : Place) :
    life s' (Function.update q t q') c place =
      { channel := s'.channels c
        history := history s' c
        sending := Function.update (life s q c place).sending t (share c q'.sending)
        hand := Function.update (life s q c place).hand t (share c q'.hand)
        pending := Function.update (life s q c place).pending t ((collected thread).count c)
        place := place } := by
  simp only [life, Life.mk.injEq, true_and, and_true]
  refine ⟨?_, ?_, ?_⟩
  · funext t'
    by_cases h : t' = t
    · subst h
      simp
    · simp [h]
  · funext t'
    by_cases h : t' = t
    · subst h
      simp
    · simp [h]
  · funext t'
    by_cases h : t' = t
    · subst h
      simp [hthreads]
    · simp [h, hthreads]

/-- A step that does not concern the promise. -/
structure Stutters (s s' : Sys M) (thread thread' : Thread M) (q q' : Static) (c : ℕ) : Prop where
  channel : s'.channels c = s.channels c
  history : history s' c = history s c
  sending : share c q'.sending = share c q.sending
  hand : share c q'.hand = share c q.hand
  pending : (collected thread').count c = (collected thread).count c

theorem Stutters.life (h : Stutters s s' (s.threads t) thread (q t) q' c)
    (hthreads : s'.threads = Function.update s.threads t thread) (place : Place) :
    life s' (Function.update q t q') c place = life s q c place := by
  rw [life_step hthreads, h.channel, h.history, h.sending, h.hand, h.pending]
  simp [Notification.life]

theorem history_of_eq {events : List Event} (hlog : s'.log = s.log ++ events)
    (hevents : ∀ e ∈ events, Event.channel e = c) : history s' c = history s c ++ events := by
  rw [history, hlog, List.filter_append, history, List.append_cancel_left_eq, List.filter_eq_self]
  simpa using hevents

theorem history_of_ne {events : List Event} {c' : ℕ} (hlog : s'.log = s.log ++ events)
    (hevents : ∀ e ∈ events, Event.channel e = c) (hc' : c' ≠ c) :
    history s' c' = history s c' := by
  have hnone : (events.filter fun e => Event.channel e = c') = [] := by
    rw [List.filter_eq_nil_iff]
    intro e he
    simpa [hevents e he] using hc'.symm
  rw [history, hlog, List.filter_append, hnone, List.append_nil, history]

/-- What a thread has of a promise stays as it is. -/
theorem update_same {β : Type} {f : ℕ → β} {x : β} (h : x = f t) : Function.update f t x = f := by
  rw [h, Function.update_eq_self]

/-- What a step of one thread has to keep. -/
theorem Invariant.next (h : Invariant s q)
    (hthreads : s'.threads = Function.update s.threads t thread)
    (hlocks : ∀ t', t' ≠ t → ∀ l, s'.locks l = some t' ↔ s.locks l = some t')
    (ht : Agrees s'.locks t thread q')
    (hlives : ∀ c place, Tracked c (life s q c place) →
      ∃ place', Tracked c (life s' (Function.update q t q') c place'))
    (hfresh : ∀ c, s'.nextChannel ≤ c → (s'.channels c).owner = .absent) :
    Invariant s' (Function.update q t q') := by
  refine ⟨fun t' => ?_, fun c => ?_, hfresh⟩
  · by_cases heq : t' = t
    · subst heq
      rw [hthreads, Function.update_self, Function.update_self]
      exact ht
    · rw [hthreads, Function.update_of_ne heq, Function.update_of_ne heq]
      have hold := h.threads t'
      exact { hold with locks := fun l => (hlocks t' heq l).trans (hold.locks l) }
  · obtain ⟨place, hplace⟩ := h.lives c
    exact hlives c place hplace

/-- A step that concerns no promise. -/
theorem Invariant.quiet (h : Invariant s q) (q' : Static)
    (hthreads : s'.threads = Function.update s.threads t thread)
    (hlocks : ∀ t', t' ≠ t → ∀ l, s'.locks l = some t' ↔ s.locks l = some t')
    (ht : Agrees s'.locks t thread q')
    (hstutters : ∀ c, Stutters s s' (s.threads t) thread (q t) q' c)
    (hnext : s'.nextChannel = s.nextChannel) : Invariant s' (Function.update q t q') := by
  refine h.next hthreads hlocks ht (fun c place hplace => ⟨place, ?_⟩) fun c hc => ?_
  · rw [(hstutters c).life hthreads]
    exact hplace
  · rw [(hstutters c).channel]
    exact h.fresh c (hnext ▸ hc)

/-- A thread's share of a life after a step: its new static state and its collected callbacks. -/
structure Becomes (t : ℕ) (thread : Thread M) (q' : Static) (c : ℕ) (v v' : Life) : Prop where
  sending : Function.update v.sending t (share c q'.sending) = v'.sending
  hand : Function.update v.hand t (share c q'.hand) = v'.hand
  pending : Function.update v.pending t ((collected thread).count c) = v'.pending

/-- A thread's share of the other promises stays. -/
structure Spares (thread thread' : Thread M) (q q' : Static) (c : ℕ) : Prop where
  sending : share c q'.sending = share c q.sending
  hand : share c q'.hand = share c q.hand
  pending : (collected thread').count c = (collected thread).count c

/-- A step that concerns one promise. -/
theorem Invariant.moves (h : Invariant s q) (c : ℕ) (q' : Static) {channel : Channel}
    {events : List Event} (hthreads : s'.threads = Function.update s.threads t thread)
    (hlocks : s'.locks = s.locks) (hchannels : s'.channels = Function.update s.channels c channel)
    (hlog : s'.log = s.log ++ events) (hevents : ∀ e ∈ events, Event.channel e = c)
    (ht : Agrees s.locks t thread q')
    (hstep : ∀ place, Tracked c (life s q c place) → ∃ v', Step c (life s q c place) v' ∧
      channel = v'.channel ∧ history s c ++ events = v'.history ∧
      Becomes t thread q' c (life s q c place) v')
    (hothers : ∀ c', c' ≠ c → Spares (s.threads t) thread (q t) q' c')
    (hfresh : s'.nextChannel ≤ c → channel.owner = .absent)
    (hnext : s.nextChannel ≤ s'.nextChannel) : Invariant s' (Function.update q t q') := by
  have hself : s'.channels c = channel := by rw [hchannels, Function.update_self]
  have hstutters : ∀ c', c' ≠ c → Stutters s s' (s.threads t) thread (q t) q' c' := by
    intro c' hc'
    refine ⟨?_, history_of_ne hlog hevents hc', (hothers c' hc').sending, (hothers c' hc').hand,
      (hothers c' hc').pending⟩
    rw [hchannels, Function.update_of_ne hc']
  refine h.next hthreads (fun t' _ l => by rw [hlocks]) (hlocks ▸ ht) (fun c' place hplace => ?_)
    fun c' hc' => ?_
  · by_cases heq : c' = c
    · subst heq
      obtain ⟨v', hstep', hchannel, hhistory, hv'⟩ := hstep place hplace
      have hlife : life s' (Function.update q t q') c' v'.place = v' := by
        rw [life_step hthreads, hself, history_of_eq hlog hevents, hchannel, hhistory]
        exact congrArg₂ (fun sending x => Life.mk v'.channel v'.history sending x.1 x.2 v'.place)
          hv'.sending (congrArg₂ Prod.mk hv'.hand hv'.pending)
      refine ⟨v'.place, ?_⟩
      rw [hlife]
      exact hplace.step hstep'
    · refine ⟨place, ?_⟩
      rw [(hstutters c' heq).life hthreads]
      exact hplace
  · by_cases heq : c' = c
    · subst heq
      rw [hself]
      exact hfresh hc'
    · rw [(hstutters c' heq).channel]
      exact h.fresh c' (hnext.trans hc')

/-! ### Steps that concern no promise -/

section Steps

variable {reading : Reading} {i : Instr M} {k : i.Answer → Program M}

/-- The next instruction of a thread is allowed, and its function goes on as it should. -/
theorem Invariant.instr (h : Invariant s q) (hcode : (s.threads t).code = .instr i k) :
    (q t).allowed i ∧ ∀ r, Checked (discipline M) ((q t).after i r) (k r) := by
  have hchecked := (h.threads t).checked
  rw [hcode] at hchecked
  exact hchecked

theorem Agrees.goto {locks : Lock → Option ℕ} {q : Static} (h : Agrees locks t thread q)
    {code : Program M} (hcode : Checked (discipline M) q code) :
    Agrees locks t { thread with code } q :=
  { h with checked := hcode }

/-- A thread goes on in the same static state, and no promise has changed. -/
theorem Invariant.goto (h : Invariant s q) {code : Program M}
    (hcode : Checked (discipline M) (q t) code)
    (hthreads : s'.threads = Function.update s.threads t { s.threads t with code })
    (hlocks : s'.locks = s.locks) (hchannels : s'.channels = s.channels) (hlog : s'.log = s.log)
    (hnext : s'.nextChannel = s.nextChannel) : ∃ q', Invariant s' q' := by
  refine ⟨_, h.quiet (q t) hthreads (fun t' _ l => by rw [hlocks]) ?_ (fun c => ?_) hnext⟩
  · rw [hlocks]
    exact (h.threads t).goto hcode
  · exact ⟨by rw [hchannels], by rw [history, hlog, history], rfl, rfl, rfl⟩

theorem next_acquire (h : Invariant s q) {l : Lock} {k : Unit → Program M}
    (hcode : (s.threads t).code = .instr (.acquire l) k)
    (hstep : s.execute t reading (.acquire l) k = .next s') : ∃ q', Invariant s' q' := by
  obtain ⟨⟨-, hs⟩, hk⟩ := h.instr hcode
  have hold := h.threads t
  simp only [Sys.execute] at hstep
  split at hstep
  · next hfree =>
    cases hstep
    have hl : l ∉ (q t).held := by
      intro hl
      rw [← hold.locks, hfree] at hl
      cases hl
    have hlocks : ∀ l', Function.update s.locks l (some t) l' = some t ↔ l' ∈ l :: (q t).held := by
      intro l'
      by_cases heq : l' = l
      · subst heq
        simp
      · simp [heq, hold.locks]
    refine ⟨_, h.quiet { q t with held := l :: (q t).held } rfl (fun t' ht' l' => ?_)
      { hold with
        checked := hk ()
        locks := hlocks
        nodup := List.nodup_cons.mpr ⟨hl, hold.nodup⟩
        sending := fun c b hcb => ?_ } (fun c => ⟨rfl, rfl, rfl, rfl, rfl⟩) rfl⟩
    · show Function.update s.locks l (some t) l' = some t' ↔ _
      by_cases heq : l' = l
      · subst heq
        simp [hfree, Ne.symm ht']
      · simp [heq]
    · rw [hs] at hcb
      cases hcb
  · cases hstep

theorem next_release (h : Invariant s q) {l : Lock} {k : Unit → Program M}
    (hcode : (s.threads t).code = .instr (.release l) k)
    (hstep : s.execute t reading (.release l) k = .next s') : ∃ q', Invariant s' q' := by
  obtain ⟨⟨hl, hs⟩, hk⟩ := h.instr hcode
  have hold := h.threads t
  have hheld : s.locks l = some t := (hold.locks l).mpr hl
  cases hstep
  have hlocks : ∀ l', Function.update s.locks l none l' = some t ↔ l' ∈ (q t).held.erase l := by
    intro l'
    by_cases heq : l' = l
    · subst heq
      simp [hold.nodup.mem_erase_iff]
    · simp [heq, hold.locks, hold.nodup.mem_erase_iff]
  refine ⟨_, h.quiet { q t with held := (q t).held.erase l } rfl (fun t' ht' l' => ?_)
    { hold with
      checked := hk ()
      locks := hlocks
      nodup := hold.nodup.erase l
      sending := fun c b hcb => ?_ } (fun c => ⟨rfl, rfl, rfl, rfl, rfl⟩) rfl⟩
  · show Function.update s.locks l none l' = some t' ↔ _
    by_cases heq : l' = l
    · subst heq
      simp [hheld, Ne.symm ht']
    · simp [heq]
  · rw [hs] at hcb
    cases hcb

theorem next_collect (h : Invariant s q) {k : Unit → Program M}
    (hcode : (s.threads t).code = .instr .collect k)
    (hstep : s.execute t reading .collect k = .next s') : ∃ q', Invariant s' q' := by
  obtain ⟨-, hk⟩ := h.instr hcode
  have hold := h.threads t
  cases hstep
  refine ⟨_, h.quiet { q t with depth := (q t).depth + 1 } rfl (fun _ _ _ => Iff.rfl)
    { hold with checked := hk (), depth := ?_ } (fun c => ⟨rfl, rfl, rfl, rfl, rfl⟩) rfl⟩
  exact congrArg (· + 1) hold.depth

/-- A thread at a place where callbacks run, but for its `Notifications`. -/
theorem calm_eq {q : Static} (h : Calm q) : q = { depth := q.depth } := by
  obtain ⟨held, depth, sending, hand⟩ := q
  obtain ⟨rfl, rfl, rfl⟩ := h
  rfl

/-- A thread that holds no lock runs a callback. -/
theorem Agrees.run {locks : Lock → Option ℕ} {q : Static} (h : Agrees locks t thread q)
    (hheld : q.held = []) (frame : Frame M)
    (hframe : Checked (discipline M) { depth := frame.collectors.length } frame.code) :
    Agrees locks t ⟨.done, [], none, frame :: thread.frames⟩ {} where
  checked := rfl
  locks l := by rw [h.locks, hheld]
  nodup := List.nodup_nil
  depth := rfl
  hand := rfl
  sending c b hcb := by cases hcb
  frames f hf := by
    rcases List.mem_cons.mp hf with rfl | hf
    · exact hframe
    · exact h.frames f hf

theorem next_flush (h : Invariant s q) {k : Unit → Program M}
    (hcode : (s.threads t).code = .instr .flush k)
    (hstep : s.execute t reading .flush k = .next s') : ∃ q', Invariant s' q' := by
  obtain ⟨⟨hheld, hs, hhand, hdepth⟩, hk⟩ := h.instr hcode
  have hold := h.threads t
  simp only [Sys.execute] at hstep
  split at hstep
  · cases hstep
  · next rest hcollectors =>
    cases hstep
    refine ⟨_, h.quiet { q t with depth := (q t).depth - 1 } rfl (fun _ _ _ => Iff.rfl)
      { hold with checked := hk (), depth := ?_ } (fun c => ⟨rfl, rfl, rfl, rfl, ?_⟩) rfl⟩
    · have hlength := hold.depth
      rw [hcollectors, List.length_cons] at hlength
      exact Nat.eq_sub_of_add_eq hlength
    · simp [collected, hcollectors]
  · next c pending rest hcollectors =>
    cases hstep
    have hcalm : q t = { depth := (pending :: rest).length } := by
      have hlength := hold.depth
      rw [hcollectors, List.length_cons] at hlength
      rw [calm_eq ⟨hheld, hs, hhand⟩, ← hlength, List.length_cons]
    have hflush :
        Checked (discipline M) { depth := (pending :: rest).length } (.instr .flush k) := by
      rw [← hcalm, ← hcode]
      exact hold.checked
    have hcollected : collected (s.threads t) = c :: collected (M := M)
        ⟨.done, [], none, ⟨c, .instr .flush k, pending :: rest⟩ :: (s.threads t).frames⟩ := by
      simp [collected, hcollectors]
    refine ⟨_, h.moves c {} rfl rfl (Function.update_eq_self c _).symm rfl (by simp [Event.channel])
      (hold.run hheld ⟨c, .instr .flush k, pending :: rest⟩ hflush)
      (fun place _ => ⟨_, .run _ t _ ?_, rfl, rfl, update_same ?_, update_same ?_, rfl⟩)
      (fun c' hc' => ⟨?_, ?_, ?_⟩) (h.fresh c) le_rfl⟩
    · show (collected (s.threads t)).count c = _
      rw [hcollected, List.count_cons_self]
    · exact congrArg (share c) hs.symm
    · exact congrArg (share c) hhand.symm
    · rw [hs]
    · rw [hhand]
    · rw [hcollected, List.count_cons_of_ne hc'.symm]

/-! ### Steps that concern one promise -/

theorem Invariant.holder (h : Invariant s q) {l : Lock} {t' : ℕ} (hl : l ∈ (q t).held)
    (hl' : l ∈ (q t').held) : t' = t := by
  rw [← (h.threads t).locks] at hl
  rw [← (h.threads t').locks, hl] at hl'
  exact (Option.some.inj hl').symm

/-- A thread under the notification lock that publishes nothing: nobody does. -/
theorem Invariant.nobody (h : Invariant s q) (hheld : .notification c ∈ (q t).held)
    (hs : (q t).sending = none) (place : Place) : (life s q c place).Quiet := by
  intro t'
  show share c (q t').sending = none
  cases hshare : share c (q t').sending with
  | none => rfl
  | some b =>
    have hsending := share_eq_some.mp hshare
    have heq : t' = t := h.holder hheld ((h.threads t').sending c b hsending)
    rw [heq, hs] at hsending
    cases hsending

/-- A thread that publishes is the only one. -/
theorem Invariant.others (h : Invariant s q) {b : Bool} (hs : (q t).sending = some (c, b))
    (place : Place) : ∀ t', t' ≠ t → (life s q c place).sending t' = none := by
  intro t' hne
  show share c (q t').sending = none
  cases hshare : share c (q t').sending with
  | none => rfl
  | some b' =>
    have hsending := (h.threads t').sending c b' (share_eq_some.mp hshare)
    exact absurd (h.holder ((h.threads t).sending c b hs) hsending) hne

/-- The channel of a promise changes, and its thread goes on in the same static state. -/
theorem Invariant.touches (h : Invariant s q) (c : ℕ) {code : Program M} {channel : Channel}
    {events : List Event} (hcode : Checked (discipline M) (q t) code)
    (hthreads : s'.threads = Function.update s.threads t { s.threads t with code })
    (hlocks : s'.locks = s.locks) (hchannels : s'.channels = Function.update s.channels c channel)
    (hlog : s'.log = s.log ++ events) (hevents : ∀ e ∈ events, Event.channel e = c)
    (hstep : ∀ place, Tracked c (life s q c place) → ∃ place', Step c (life s q c place)
      { life s q c place with channel, history := history s c ++ events, place := place' })
    (hfresh : s'.nextChannel ≤ c → channel.owner = .absent)
    (hnext : s.nextChannel ≤ s'.nextChannel) : ∃ q', Invariant s' q' := by
  refine ⟨_, h.moves c (q t) hthreads hlocks hchannels hlog hevents ((h.threads t).goto hcode)
    (fun place hplace => ?_) (fun c' hc' => ⟨rfl, rfl, rfl⟩) hfresh hnext⟩
  obtain ⟨place', hv⟩ := hstep place hplace
  exact ⟨_, hv, rfl, rfl, update_same rfl, update_same rfl, update_same rfl⟩

theorem next_pair (h : Invariant s q) {k : ℕ → Program M}
    (hcode : (s.threads t).code = .instr .pair k)
    (hstep : s.execute t reading .pair k = .next s') : ∃ q', Invariant s' q' := by
  obtain ⟨-, hk⟩ := h.instr hcode
  cases hstep
  refine h.touches s.nextChannel (hk s.nextChannel) rfl rfl rfl (List.append_nil _).symm
    (List.forall_mem_nil _) (fun place _ => ⟨place, ?_⟩)
    (fun hc => absurd hc (Nat.not_succ_le_self _)) (Nat.le_succ _)
  rw [List.append_nil]
  exact .create _ t (h.fresh _ le_rfl)

/-- A promise that exists has its channel already. -/
theorem Invariant.exists_of_owner (h : Invariant s q) (hc : s.nextChannel ≤ c) {owner : Owner}
    (howner : (s.channels c).owner = owner) : owner = .absent := by
  rw [← howner]
  exact h.fresh c hc

theorem next_discard (h : Invariant s q) {k : Unit → Program M}
    (hcode : (s.threads t).code = .instr (.discard c) k)
    (hstep : s.execute t reading (.discard c) k = .next s') : ∃ q', Invariant s' q' := by
  obtain ⟨⟨hheld, hs⟩, hk⟩ := h.instr hcode
  simp only [Sys.execute] at hstep
  split at hstep
  · next howner =>
    cases hstep
    refine h.touches c (hk ()) rfl rfl rfl rfl (by simp [Event.channel])
      (fun place _ => ⟨_, .discard _ t howner (h.nobody hheld hs place)⟩) (fun hc => ?_) le_rfl
    rcases howner with howner | howner <;> cases h.exists_of_owner hc howner
  · cases hstep

theorem next_dropReceiver (h : Invariant s q) {k : Unit → Program M}
    (hcode : (s.threads t).code = .instr (.dropReceiver c) k)
    (hstep : s.execute t reading (.dropReceiver c) k = .next s') : ∃ q', Invariant s' q' := by
  obtain ⟨-, hk⟩ := h.instr hcode
  simp only [Sys.execute] at hstep
  split at hstep
  · next howner =>
    cases hstep
    refine h.touches c (hk ()) rfl rfl rfl (List.append_nil _).symm
      (List.forall_mem_nil _) (fun place _ => ⟨place, ?_⟩) (fun hc => ?_) le_rfl
    · rw [List.append_nil]
      exact .dropReceiver _ howner
    · cases h.exists_of_owner hc howner
  · cases hstep

theorem next_receive (h : Invariant s q) {k : Except Error Promise.PromiseResult → Program M}
    (hcode : (s.threads t).code = .instr (.receive c) k)
    (hstep : s.execute t reading (.receive c) k = .next s') : ∃ q', Invariant s' q' := by
  obtain ⟨-, hk⟩ := h.instr hcode
  simp only [Sys.execute] at hstep
  split at hstep
  · cases hstep
  · next result hbuffer =>
    cases hstep
    have hsome : (s.channels c).buffer.isSome := by rw [hbuffer, Option.isSome_some]
    exact h.touches c (hk result) rfl rfl rfl rfl (by simp [Event.channel])
      (fun place _ => ⟨place, .receive _ hsome⟩) (fun hc => h.fresh c hc) le_rfl

theorem next_handOut (h : Invariant s q) {k : Unit → Program M}
    (hcode : (s.threads t).code = .instr (.handOut c) k)
    (hstep : s.execute t reading (.handOut c) k = .next s') : ∃ q', Invariant s' q' := by
  obtain ⟨-, hk⟩ := h.instr hcode
  simp only [Sys.execute] at hstep
  split at hstep
  · next howner =>
    cases hstep
    refine h.touches c (hk ()) rfl rfl rfl (List.append_nil _).symm
      (List.forall_mem_nil _) (fun place _ => ⟨place, ?_⟩) (fun hc => ?_) le_rfl
    · rw [List.append_nil]
      exact .handOut _ t howner
    · cases h.exists_of_owner hc howner
  · cases hstep

theorem next_giveBack (h : Invariant s q) {k : Unit → Program M}
    (hcode : (s.threads t).code = .instr (.giveBack c) k)
    (hstep : s.execute t reading (.giveBack c) k = .next s') : ∃ q', Invariant s' q' := by
  obtain ⟨hhand, hk⟩ := h.instr hcode
  simp only [Sys.execute] at hstep
  split at hstep
  · next howner =>
    cases hstep
    refine h.touches c (hk ()) rfl rfl rfl (List.append_nil _).symm
      (List.forall_mem_nil _) (fun place _ => ⟨place, ?_⟩) (fun hc => ?_) le_rfl
    · rw [List.append_nil]
      exact .giveBack _ t howner (congrArg (share c) hhand)
    · cases h.exists_of_owner hc howner
  · cases hstep

theorem next_put (h : Invariant s q) {result : Except Error Promise.PromiseResult}
    {k : Bool → Program M} (hcode : (s.threads t).code = .instr (.put c result) k)
    (hstep : s.execute t reading (.put c result) k = .next s') : ∃ q', Invariant s' q' := by
  obtain ⟨⟨hheld, hs⟩, hk⟩ := h.instr hcode
  have hold := h.threads t
  have hsending : ∀ (delivered : Bool) c' b, some (c, delivered) = some (c', b) →
      Lock.notification c' ∈ (q t).held := by
    intro delivered c' b hcb
    cases hcb
    exact hheld
  have hshare : ∀ delivered c', c' ≠ c → share c' (some (c, delivered)) =
      share c' (q t).sending := by
    intro delivered c' hc'
    rw [hs, share_ne hc'.symm, share_none]
  simp only [Sys.execute] at hstep
  split at hstep
  · next hreceiver =>
    cases hstep
    refine ⟨_, h.moves c { q t with sending := some (c, true) } rfl rfl rfl rfl
      (by simp [Event.channel]) { hold with checked := hk true, sending := hsending true }
      (fun place _ => ?_) (fun c' hc' => ⟨hshare true c' hc', rfl, rfl⟩) (h.fresh c) le_rfl⟩
    refine ⟨_, .put _ t result hreceiver (h.nobody hheld hs place), rfl, rfl, ?_, update_same rfl,
      update_same rfl⟩
    rw [share_self]
  · next hreceiver =>
    cases hstep
    have hreceiver' : (s.channels c).receiver = false := by simpa using hreceiver
    refine ⟨_, h.moves c { q t with sending := some (c, false) } rfl rfl
      (Function.update_eq_self c _).symm (List.append_nil _).symm (List.forall_mem_nil _)
      { hold with checked := hk false, sending := hsending false } (fun place _ => ?_)
      (fun c' hc' => ⟨hshare false c' hc', rfl, rfl⟩) (h.fresh c) le_rfl⟩
    refine ⟨_, .refuse _ t hreceiver' (h.nobody hheld hs place), rfl, List.append_nil _, ?_,
      update_same rfl, update_same rfl⟩
    rw [share_self]

/-- What `push` adds to the collected callbacks. -/
theorem count_push (hne : thread.collectors ≠ []) (code : Program M) (c c' : ℕ) :
    (collected { thread with code, collectors := Sys.push thread.collectors c }).count c' =
      (collected thread).count c' + if c = c' then 1 else 0 := by
  obtain ⟨code', collectors, hand, frames⟩ := thread
  cases collectors with
  | nil => exact absurd rfl hne
  | cons pending rest =>
    simp only [collected, Sys.push, List.flatten_cons, List.count_append, List.count_singleton,
      beq_iff_eq]
    omega

theorem length_push (collectors : List (List ℕ)) (c : ℕ) :
    (Sys.push collectors c).length = collectors.length := by
  cases collectors with
  | nil => rfl
  | cons pending rest => rfl

theorem next_take (h : Invariant s q) {delivered : Bool} {k : Unit → Program M}
    (hcode : (s.threads t).code = .instr (.take c delivered) k)
    (hstep : s.execute t reading (.take c delivered) k = .next s') : ∃ q', Invariant s' q' := by
  obtain ⟨⟨hs, hdepth⟩, hk⟩ := h.instr hcode
  have hold := h.threads t
  have hne : (s.threads t).collectors ≠ [] := by
    intro hnil
    have hlength := hold.depth
    rw [hnil] at hlength
    exact hdepth.ne hlength
  have hshare : ∀ c', c' ≠ c → share c' none = share c' (q t).sending := by
    intro c' hc'
    rw [hs, share_ne hc'.symm, share_none]
  have hsending : ∀ c' (b : Bool), none = some (c', b) → Lock.notification c' ∈ (q t).held := by
    intro c' b hcb
    cases hcb
  have hself : ∀ place, (life s q c place).sending t = some delivered := fun place =>
    (congrArg (share c) hs).trans (share_self delivered)
  by_cases hhook : (s.channels c).hook = true
  · simp only [Sys.execute, hhook, if_true] at hstep
    cases hstep
    refine ⟨_, h.moves c { q t with sending := none } rfl rfl rfl (List.append_nil _).symm
      (List.forall_mem_nil _)
      { hold with
        checked := hk ()
        depth := (length_push _ c).trans hold.depth
        sending := hsending } (fun place _ => ?_) (fun c' hc' => ⟨hshare c' hc', rfl, ?_⟩)
      (h.fresh c) le_rfl⟩
    · refine ⟨_, .collect _ t delivered (hself place) (h.others hs place) hhook, rfl,
        List.append_nil _, rfl, update_same rfl, ?_⟩
      rw [count_push hne, if_pos rfl]
      rfl
    · rw [count_push hne, if_neg hc'.symm, Nat.add_zero]
  · simp only [Sys.execute, hhook] at hstep
    cases hstep
    have hhook' : (s.channels c).hook = false := by simpa using hhook
    refine ⟨_, h.moves c { q t with sending := none } rfl rfl rfl (List.append_nil _).symm
      (List.forall_mem_nil _) { hold with checked := hk (), sending := hsending }
        (fun place _ => ?_)
      (fun c' hc' => ⟨hshare c' hc', rfl, rfl⟩) (h.fresh c) le_rfl⟩
    exact ⟨_, .take _ t delivered (hself place) (h.others hs place) hhook', rfl, List.append_nil _,
      rfl, update_same rfl, update_same rfl⟩

theorem next_register (h : Invariant s q) {k : Bool → Program M}
    (hcode : (s.threads t).code = .instr (.register c) k)
    (hstep : s.execute t reading (.register c) k = .next s') : ∃ q', Invariant s' q' := by
  obtain ⟨⟨hheld, hs, hhand⟩, hk⟩ := h.instr hcode
  have hold := h.threads t
  have hthread : (s.threads t).hand = some c := by rw [← hold.hand, hhand]; rfl
  have hself : ∀ place, (life s q c place).hand t = some false := fun place =>
    (congrArg (share c) hhand).trans (share_self false)
  have hshare : ∀ c', c' ≠ c → none = share c' (q t).hand := by
    intro c' hc'
    rw [hhand, share_ne hc'.symm]
  simp only [Sys.execute] at hstep
  split at hstep
  · next hdone =>
    cases hstep
    refine ⟨_, h.moves c { q t with hand := some (c, true) }
      rfl rfl (Function.update_eq_self c _).symm
      rfl (by simp [Event.channel]) { hold with checked := hk true, hand := hthread.symm }
      (fun place _ => ?_) (fun c' hc' => ⟨rfl, ?_, rfl⟩) (h.fresh c) le_rfl⟩
    · refine ⟨_, .settled _ t hdone (hself place) (h.nobody hheld hs place), rfl, rfl,
        update_same rfl, ?_, update_same rfl⟩
      rw [share_self]
    · exact (share_ne hc'.symm true).trans (hshare c' hc')
  · next hdone =>
    cases hstep
    have hdone' : (s.channels c).done = false := by simpa using hdone
    refine ⟨_, h.moves c { q t with hand := none } rfl rfl rfl rfl (by simp [Event.channel])
      { hold with checked := hk false, hand := rfl } (fun place _ => ?_)
      (fun c' hc' => ⟨rfl, hshare c' hc', rfl⟩) (h.fresh c) le_rfl⟩
    exact ⟨_, .register _ t hdone' (hself place) (h.nobody hheld hs place), rfl, rfl,
      update_same rfl, rfl, update_same rfl⟩

theorem next_invoke (h : Invariant s q) {k : Unit → Program M}
    (hcode : (s.threads t).code = .instr .invoke k)
    (hstep : s.execute t reading .invoke k = .next s') : ∃ q', Invariant s' q' := by
  obtain ⟨⟨hheld, hs, c, hhand⟩, hk⟩ := h.instr hcode
  have hold := h.threads t
  have hthread : (s.threads t).hand = some c := by rw [← hold.hand, hhand]; rfl
  have hrest : Checked (discipline M) { depth := (s.threads t).collectors.length } (k ()) := by
    have hcalm : Calm { q t with hand := none } := ⟨hheld, hs, rfl⟩
    rw [hold.depth, ← calm_eq hcalm]
    exact hk ()
  simp only [Sys.execute, hthread] at hstep
  cases hstep
  have hcollected : collected (M := M) ⟨.done, [], none,
      ⟨c, k (), (s.threads t).collectors⟩ :: (s.threads t).frames⟩ = collected (s.threads t) := by
    simp [collected]
  refine ⟨_, h.moves c {} rfl rfl (Function.update_eq_self c _).symm rfl (by simp [Event.channel])
    (hold.run hheld ⟨c, k (), (s.threads t).collectors⟩ hrest) (fun place _ => ?_)
    (fun c' hc' => ⟨?_, ?_, ?_⟩) (h.fresh c) le_rfl⟩
  · refine ⟨_, .invoke _ t ((congrArg (share c) hhand).trans (share_self true)), rfl, rfl,
      update_same (congrArg (share c) hs).symm, rfl, update_same ?_⟩
    exact congrArg (List.count c) hcollected
  · rw [hs]
  · rw [hhand, share_ne hc'.symm, share_none]
  · rw [hcollected]

/-! ### Every step -/

theorem next_execute (h : Invariant s q) (hcode : (s.threads t).code = .instr i k)
    (hstep : s.execute t reading i k = .next s') : ∃ q', Invariant s' q' := by
  have hk := (h.instr hcode).2
  cases i with
  | acquire l => exact next_acquire h hcode hstep
  | release l => exact next_release h hcode hstep
  | await w =>
    cases hstep
    exact h.goto (hk _) rfl rfl rfl rfl rfl
  | collect => exact next_collect h hcode hstep
  | flush => exact next_flush h hcode hstep
  | isEmpty =>
    cases hstep
    exact h.goto (hk _) rfl rfl rfl rfl rfl
  | session i f =>
    simp only [Sys.execute] at hstep
    split at hstep
    · cases hstep
    · cases hstep
      exact h.goto (hk _) rfl rfl rfl rfl rfl
  | server f =>
    cases hstep
    exact h.goto (hk _) rfl rfl rfl rfl rfl
  | pair => exact next_pair h hcode hstep
  | put c result => exact next_put h hcode hstep
  | take c delivered => exact next_take h hcode hstep
  | register c => exact next_register h hcode hstep
  | invoke => exact next_invoke h hcode hstep
  | discard c => exact next_discard h hcode hstep
  | dropReceiver c => exact next_dropReceiver h hcode hstep
  | receive c => exact next_receive h hcode hstep
  | handOut c => exact next_handOut h hcode hstep
  | giveBack c => exact next_giveBack h hcode hstep
  | read =>
    cases hstep
    exact h.goto (hk _) rfl rfl rfl rfl rfl

/-- A thread that runs no function of the library. -/
theorem Invariant.idle (h : Invariant s q) (hcode : (s.threads t).code = .done) : q t = {} := by
  have hchecked := (h.threads t).checked
  rw [hcode] at hchecked
  exact hchecked

theorem next_notify (h : Invariant s q) (hcode : (s.threads t).code = .done)
    (hstep : s.start t (.notify c) = .next s') : ∃ q', Invariant s' q' := by
  have hidle := h.idle hcode
  have hold := h.threads t
  rw [hidle] at hold
  simp only [Sys.start] at hstep
  split at hstep
  · next howner =>
    split at hstep
    · cases hstep
    · next hregistered =>
      cases hstep
      have hregistered' : (s.channels c).registered = false := by simpa using hregistered
      refine ⟨_, h.moves c { hand := some (c, false) } rfl rfl rfl (List.append_nil _).symm
        (List.forall_mem_nil _) { hold with checked := checked_call (.notify c), hand := rfl }
        (fun place _ => ?_) (fun c' hc' => ⟨?_, ?_, rfl⟩) (fun hc => ?_) le_rfl⟩
      · refine ⟨_, .lend _ t howner hregistered', rfl, List.append_nil _, update_same ?_, ?_,
          update_same rfl⟩
        · show share c none = share c (q t).sending
          rw [hidle]
        · rw [share_self]
      · rw [hidle]
      · rw [hidle, share_ne hc'.symm, share_none]
      · cases h.exists_of_owner hc howner
  · cases hstep

/-- A call other than `notify`. -/
theorem Invariant.checked_call (h : Invariant s q) (hcode : (s.threads t).code = .done)
    {call : Call M} (hcall : Call.hand call = none) :
    Checked (discipline M) (q t) call.program := by
  have hchecked := Discipline.checked_call call
  rw [hcall] at hchecked
  rw [h.idle hcode]
  exact hchecked

/-- The promise is given to `wait` or dropped. -/
theorem next_spend (h : Invariant s q) (hcode : (s.threads t).code = .done) {call : Call M}
    (hcall : Call.hand call = none) (howner : (s.channels c).owner = .held) :
    ∃ q', Invariant ((s.modify c ({ · with owner := .spent t })).goto t call.program) q' := by
  refine h.touches c (h.checked_call hcode hcall) rfl rfl rfl (List.append_nil _).symm
    (List.forall_mem_nil _) (fun place _ => ⟨place, ?_⟩) (fun hc => ?_) le_rfl
  · rw [List.append_nil]
    exact .spend _ t howner
  · cases h.exists_of_owner hc howner

theorem next_start (h : Invariant s q) {call : Call M} (hcode : (s.threads t).code = .done)
    (hstep : s.start t call = .next s') : ∃ q', Invariant s' q' := by
  cases call with
  | notify c => exact next_notify h hcode hstep
  | drop c =>
    simp only [Sys.start] at hstep
    split at hstep
    · next howner =>
      cases hstep
      exact next_spend h hcode rfl howner
    · cases hstep
  | wait c i =>
    simp only [Sys.start] at hstep
    split at hstep
    · next howner =>
      cases hstep
      exact next_spend h hcode rfl howner
    · cases hstep
  | _ =>
    cases hstep
    exact h.goto (h.checked_call hcode rfl) rfl rfl rfl rfl rfl

theorem next_finish (h : Invariant s q) (hcode : (s.threads t).code = .done) {frame : Frame M}
    {frames : List (Frame M)} (hframes : (s.threads t).frames = frame :: frames) :
    ∃ q', Invariant (s.setThread t ⟨frame.code, frame.collectors, none, frames⟩) q' := by
  have hidle := h.idle hcode
  have hold := h.threads t
  have hnil : (s.threads t).collectors = [] := by
    rw [← List.length_eq_zero_iff, hold.depth, hidle]
  refine ⟨_, h.quiet { depth := frame.collectors.length } rfl (fun _ _ _ => Iff.rfl) ?_
    (fun c => ⟨rfl, rfl, ?_, ?_, ?_⟩) rfl⟩
  · rw [hidle] at hold
    exact { hold with
      checked := hold.frames frame (hframes ▸ List.mem_cons_self)
      depth := rfl
      hand := rfl
      frames := fun f hf => hold.frames f (hframes ▸ List.mem_cons_of_mem _ hf) }
  · rw [hidle]
  · rw [hidle]
  · simp [collected, hnil, hframes]

end Steps

/-- **Every step keeps the invariant.** -/
theorem invariant_step {action : Action M} (h : ∃ q, Invariant s q)
    (hstep : s.step action = .next s') : ∃ q, Invariant s' q := by
  obtain ⟨q, h⟩ := h
  cases action with
  | start t call =>
    simp only [Sys.step] at hstep
    split at hstep
    · next hcode => exact next_start h hcode hstep
    · cases hstep
  | advance t reading =>
    simp only [Sys.step] at hstep
    split at hstep
    · cases hstep
    · next p hcode =>
      cases hstep
      have hentry := (h.threads t).checked
      rw [hcode] at hentry
      refine h.goto ?_ rfl rfl rfl rfl rfl
      rw [show q t = Static.entry p from hentry]
      exact checked_program p
    · next i k hcode => exact next_execute h hcode hstep
  | finish t =>
    simp only [Sys.step] at hstep
    split at hstep
    · next frame frames hcode hframes =>
      cases hstep
      exact next_finish h hcode hframes
    · cases hstep

theorem invariant_of_reachable {side : Side} (h : (machine side).Reachable s) :
    ∃ q, Invariant s q :=
  h.invariant (I := fun s => ∃ q, Invariant s q) ⟨_, invariant_init side⟩
    fun _ _ _ _ hs hstep => invariant_step hs hstep

/-! ### The law -/

/-- A thread runs a callback: it is in the application's code, called from the end of a function. -/
def Running (s : Sys M) (t c : ℕ) : Prop :=
  (s.threads t).code = .done ∧ (s.threads t).frames.head?.map Frame.callback = some c

/-- A thread is to run a callback: it has collected it, has found its promise settled in `notify`,
or is about to take it from the promise it publishes to. -/
def Owes (s : Sys M) (t c : ℕ) : Prop :=
  c ∈ collected (s.threads t) ∨ (s.threads t).hand = some c ∨
    (s.channels c).hook = true ∧ s.locks (.notification c) = some t

/-- How often the callback of a promise has started. -/
def starts (s : Sys M) (c : ℕ) : ℕ := s.log.countP fun e => isStart e ∧ Event.channel e = c

/-- The notification law of a promise in a state of a run. -/
structure Law (s : Sys M) (c : ℕ) : Prop where
  /-- The callback starts once at most. -/
  once : starts s c ≤ 1
  /-- It starts after its registration, and after the result was published. -/
  order : ∀ pre t post, s.log = pre ++ .started c t :: post →
    .published c ∈ pre ∧ ∃ settled, .registered c settled ∈ pre
  /-- A published result is there for `wait`. -/
  available : .published c ∈ s.log → (s.channels c).buffer.isSome ∨ .received c ∈ s.log ∨
    (s.channels c).receiver = false
  /-- It does not start if the promise was dropped before the publication. -/
  never : DroppedFirst c s.log → starts s c = 0 ∧ ∀ t, ¬Owes s t c
  /-- Otherwise it has run, or one thread is to run it. -/
  due : (∃ settled, .registered c settled ∈ s.log) → .published c ∈ s.log →
    ¬DroppedFirst c s.log →
    starts s c = 1 ∧ (∀ t, ¬Owes s t c) ∨ starts s c = 0 ∧ ∃! t, Owes s t c
  /-- It is due if the promise was settled at the registration. -/
  settled : .registered c true ∈ s.log → .published c ∈ s.log ∧ ¬DroppedFirst c s.log
  /-- A thread returns to its caller when it has run the callbacks it was to run. -/
  returned : ∀ t, (s.threads t).code = .done → (s.threads t).frames = [] → ¬Owes s t c
  /-- The start of a callback is the step into it. -/
  started : ∀ action s' t, s.step action = .next s' → s'.log = s.log ++ [.started c t] →
    Running s' t c
  /-- A thread that runs a callback holds no lock. -/
  unlocked : ∀ t, Running s t c → ∀ l, s.locks l ≠ some t
  /-- Threads take locks in one order, and hold none while they wait for a result. -/
  ordered : ∀ t l k, (s.threads t).code = .instr (.acquire l) k →
    ∀ m, s.locks m = some t → rank m < rank l
  waiting : ∀ t k, (s.threads t).code = .instr (.receive c) k → ∀ l, s.locks l ≠ some t

theorem mem_history {e : Event} (he : Event.channel e = c) : e ∈ history s c ↔ e ∈ s.log := by
  simp [history, he]

theorem countP_history : (history s c).countP isStart = starts s c := by
  simp [history, starts, List.countP_filter]

theorem droppedFirst_history : DroppedFirst c (history s c) ↔ DroppedFirst c s.log := by
  have hpublished : ∀ log : List Event, .published c ∈ log.filter (fun e => Event.channel e = c) ↔
      .published c ∈ log := by
    intro log
    simp [Event.channel]
  constructor
  · rintro ⟨pre, post, hsplit, hpre⟩
    obtain ⟨before, after, hlog, hbefore, hafter⟩ := List.filter_eq_append_iff.mp hsplit
    obtain ⟨skipped, rest, hrest, hskipped, -, -⟩ := List.filter_eq_cons_iff.mp hafter
    refine ⟨before ++ skipped, rest, by rw [hlog, hrest, List.append_assoc], fun hmem => ?_⟩
    rcases List.mem_append.mp hmem with hmem | hmem
    · rw [← hbefore, hpublished] at hpre
      exact hpre hmem
    · exact hskipped _ hmem (by simp [Event.channel])
  · rintro ⟨pre, post, hlog, hpre⟩
    refine ⟨pre.filter fun e => Event.channel e = c, post.filter fun e => Event.channel e = c, ?_,
      ?_⟩
    · rw [history, hlog, List.filter_append, List.filter_cons_of_pos (by simp [Event.channel])]
    · rw [hpublished]
      exact hpre

/-- Who is to run a callback is told by its place. -/
theorem owes_iff (h : Invariant s q) {place : Place} (hplace : Tracked c (life s q c place)) :
    Owes s t c ↔ place = .collected t ∨ (∃ b, place = .offered t b) ∨
      place = .hook ∧ s.locks (.notification c) = some t := by
  have hcollected : c ∈ collected (s.threads t) ↔ place = .collected t := by
    rw [← List.count_pos_iff]
    have hpending : (collected (s.threads t)).count c = _ := hplace.pending t
    rw [hpending]
    split_ifs with heq
    · exact ⟨fun _ => heq, fun _ => Nat.one_pos⟩
    · exact ⟨fun hpos => absurd hpos (Nat.lt_irrefl 0), fun hplace' => absurd hplace' heq⟩
  have hhand : (s.threads t).hand = some c ↔ ∃ b, place = .offered t b := by
    rw [← (h.threads t).hand]
    constructor
    · intro hmap
      obtain ⟨⟨c', b⟩, hq, hc⟩ := Option.map_eq_some_iff.mp hmap
      have hc' : c' = c := hc
      subst hc'
      exact ⟨b, (hplace.hand t b).mp (share_eq_some.mpr hq)⟩
    · rintro ⟨b, hb⟩
      rw [share_eq_some.mp ((hplace.hand t b).mpr hb)]
      rfl
  have hhook : (s.channels c).hook = true ↔ place = .hook := hplace.hook
  rw [Owes, hcollected, hhand, hhook]

/-- What a step adds to the log: nothing, or one event, which is a start only if its thread has come
to run the callback. -/
def Logs (s s' : Sys M) : Prop :=
  s'.log = s.log ∨ ∃ e, s'.log = s.log ++ [e] ∧ ∀ c t, e = .started c t → Running s' t c

theorem logs_execute {reading : Reading} {i : Instr M} {k : i.Answer → Program M}
    (hstep : s.execute t reading i k = .next s') : Logs s s' := by
  have hrun : ∀ c code collectors, Logs s (s.run t c code collectors) := by
    intro c code collectors
    refine .inr ⟨_, rfl, fun c' t' he => ?_⟩
    cases he
    simp [Running, Sys.run, Sys.logged, Sys.setThread]
  cases i with
  | flush =>
    simp only [Sys.execute] at hstep
    split at hstep
    · cases hstep
    · cases hstep
      exact .inl rfl
    · cases hstep
      exact hrun _ _ _
  | invoke =>
    simp only [Sys.execute] at hstep
    split at hstep
    · cases hstep
    · cases hstep
      exact hrun _ _ _
  | put c result =>
    simp only [Sys.execute] at hstep
    split at hstep
    · cases hstep
      exact .inr ⟨_, rfl, fun _ _ he => nomatch he⟩
    · cases hstep
      exact .inl rfl
  | register c =>
    simp only [Sys.execute] at hstep
    split at hstep
    · cases hstep
      exact .inr ⟨_, rfl, fun _ _ he => nomatch he⟩
    · cases hstep
      exact .inr ⟨_, rfl, fun _ _ he => nomatch he⟩
  | discard c =>
    simp only [Sys.execute] at hstep
    split at hstep
    · cases hstep
      exact .inr ⟨_, rfl, fun _ _ he => nomatch he⟩
    · cases hstep
  | receive c =>
    simp only [Sys.execute] at hstep
    split at hstep
    · cases hstep
    · cases hstep
      exact .inr ⟨_, rfl, fun _ _ he => nomatch he⟩
  | _ =>
    simp only [Sys.execute] at hstep
    first
      | (cases hstep; exact .inl rfl)
      | (split at hstep <;> first | (cases hstep; exact .inl rfl) | cases hstep)

theorem logs_step {action : Action M} (hstep : s.step action = .next s') : Logs s s' := by
  cases action with
  | start t call =>
    simp only [Sys.step] at hstep
    split at hstep
    · simp only [Sys.start] at hstep
      split at hstep
      · split_ifs at hstep
        cases hstep
        exact .inl rfl
      · split_ifs at hstep
        cases hstep
        exact .inl rfl
      · split_ifs at hstep
        cases hstep
        exact .inl rfl
      · cases hstep
        exact .inl rfl
    · cases hstep
  | advance t reading =>
    simp only [Sys.step] at hstep
    split at hstep
    · cases hstep
    · cases hstep
      exact .inl rfl
    · exact logs_execute hstep
  | finish t =>
    simp only [Sys.step] at hstep
    split at hstep
    · cases hstep
      exact .inl rfl
    · cases hstep

/-- A step that logs a start has come to run the callback. -/
theorem running_of_started {action : Action M} (hstep : s.step action = .next s')
    (hlog : s'.log = s.log ++ [.started c t]) : Running s' t c := by
  rcases logs_step hstep with hsame | ⟨e, he, hrunning⟩
  · rw [hsame] at hlog
    simp at hlog
  · rw [he, List.append_cancel_left_eq, List.cons.injEq] at hlog
    exact hrunning c t hlog.1

section Law

variable {place : Place}

theorem starts_eq (hplace : Tracked c (life s q c place)) :
    starts s c = if place = .started then 1 else 0 := by
  rw [← countP_history]
  exact hplace.started

/-- A callback that is registered, published and not dropped before. -/
theorem due_place (hplace : Tracked c (life s q c place))
    (hregistered : ∃ settled, .registered c settled ∈ s.log) (hfirst : ¬DroppedFirst c s.log) :
    place = .started ∨ place = .hook ∨ ∃ t, place = .collected t ∨ place = .offered t true := by
  have hevent : ∃ settled, .registered c settled ∈ history s c := by
    obtain ⟨settled, hmem⟩ := hregistered
    exact ⟨settled, (mem_history rfl).mpr hmem⟩
  obtain ⟨hset, hoffered⟩ := hplace.registered.mp hevent
  cases place with
  | unset => exact absurd rfl hset
  | offered t b =>
    cases b with
    | false => exact absurd rfl (hoffered t)
    | true => exact .inr (.inr ⟨t, .inr rfl⟩)
  | hook => exact .inr (.inl rfl)
  | collected t => exact .inr (.inr ⟨t, .inl rfl⟩)
  | started => exact .inl rfl
  | dropped => exact absurd (droppedFirst_history.mp (hplace.first rfl)) hfirst

/-- A thread that takes a hook from a published promise is publishing to it. -/
theorem Invariant.publisher (h : Invariant s q) (hplace : Tracked c (life s q c .hook))
    (hpublished : .published c ∈ s.log) : ∃ t, s.locks (.notification c) = some t := by
  obtain ⟨t, ht⟩ := hplace.publishing rfl ((mem_history rfl).mpr hpublished)
  have hsending : (q t).sending = some (c, true) := share_eq_some.mp ht
  exact ⟨t, ((h.threads t).locks _).mpr ((h.threads t).sending c true hsending)⟩

theorem law_due (h : Invariant s q) (hplace : Tracked c (life s q c place))
    (hregistered : ∃ settled, .registered c settled ∈ s.log) (hpublished : .published c ∈ s.log)
    (hfirst : ¬DroppedFirst c s.log) :
    starts s c = 1 ∧ (∀ t, ¬Owes s t c) ∨ starts s c = 0 ∧ ∃! t, Owes s t c := by
  have howes : ∀ t, _ := fun t => owes_iff (t := t) h hplace
  have hstarts := starts_eq hplace
  rcases due_place hplace hregistered hfirst with rfl | rfl | ⟨t, rfl | rfl⟩
  · refine .inl ⟨hstarts, fun t ht => ?_⟩
    simp [howes] at ht
  · obtain ⟨t, ht⟩ := h.publisher hplace hpublished
    refine .inr ⟨hstarts, t, (howes t).mpr (.inr (.inr ⟨rfl, ht⟩)), fun t' ht' => ?_⟩
    simp only [howes, ht] at ht'
    simpa [eq_comm] using ht'
  · refine .inr ⟨hstarts, t, (howes t).mpr (.inl rfl), fun t' ht' => ?_⟩
    simpa [howes, eq_comm] using ht'
  · refine .inr ⟨hstarts, t, (howes t).mpr (.inr (.inl ⟨true, rfl⟩)), fun t' ht' => ?_⟩
    simpa [howes, eq_comm] using ht'

theorem law_never (h : Invariant s q) (hplace : Tracked c (life s q c place))
    (hfirst : DroppedFirst c s.log) : starts s c = 0 ∧ ∀ t, ¬Owes s t c := by
  have hstarts := starts_eq hplace
  have hnever : place = .unset ∨ place = .dropped :=
    hplace.never (droppedFirst_history.mpr hfirst)
  refine ⟨?_, fun t ht => ?_⟩
  · rcases hnever with rfl | rfl <;> exact hstarts
  · rw [owes_iff h hplace] at ht
    rcases hnever with rfl | rfl <;> simp at ht

theorem law_order (hplace : Tracked c (life s q c place)) {pre post : List Event}
    (hlog : s.log = pre ++ .started c t :: post) :
    .published c ∈ pre ∧ ∃ settled, .registered c settled ∈ pre := by
  have hsplit : history s c = (pre.filter fun e => Event.channel e = c) ++
      .started c t :: post.filter fun e => Event.channel e = c := by
    rw [history, hlog, List.filter_append, List.filter_cons_of_pos (by simp [Event.channel])]
  obtain ⟨hpublished, settled, hsettled⟩ := hplace.order _ _ _ hsplit
  exact ⟨(List.mem_filter.mp hpublished).1, settled, (List.mem_filter.mp hsettled).1⟩

theorem law_settled (hplace : Tracked c (life s q c place)) (hmem : .registered c true ∈ s.log) :
    .published c ∈ s.log ∧ ¬DroppedFirst c s.log := by
  have hsettled : (∃ t, place = .offered t true) ∨ place = .started :=
    hplace.settled ((mem_history rfl).mpr hmem)
  have hpublished : .published c ∈ history s c := by
    rcases hsettled with ⟨t, ht⟩ | ht
    · exact hplace.due t (.inl ht)
    · exact hplace.due 0 (.inr (.inr ht))
  refine ⟨(mem_history rfl).mp hpublished, fun hfirst => ?_⟩
  have hnever : place = .unset ∨ place = .dropped :=
    hplace.never (droppedFirst_history.mpr hfirst)
  rcases hsettled with ⟨t, rfl⟩ | rfl <;> simp at hnever

/-- A thread in the application's code holds no lock. -/
theorem Invariant.unlocked (h : Invariant s q) (hcode : (s.threads t).code = .done) (l : Lock) :
    s.locks l ≠ some t := by
  intro hl
  rw [(h.threads t).locks, h.idle hcode] at hl
  exact absurd hl List.not_mem_nil

theorem law_returned (h : Invariant s q) (hcode : (s.threads t).code = .done)
    (hframes : (s.threads t).frames = []) : ¬Owes s t c := by
  have hidle := h.idle hcode
  have hold := h.threads t
  have hnil : (s.threads t).collectors = [] := by
    rw [← List.length_eq_zero_iff, hold.depth, hidle]
  rintro (hmem | hhand | ⟨-, hlock⟩)
  · simp [collected, hnil, hframes] at hmem
  · rw [← hold.hand, hidle] at hhand
    cases hhand
  · exact h.unlocked hcode _ hlock

end Law

/-- **The promise notification law**: it holds for every promise in every state of every run. -/
theorem notification_law {side : Side} (h : (machine side).Reachable s) (c : ℕ) : Law s c := by
  obtain ⟨q, h⟩ := invariant_of_reachable h
  obtain ⟨place, hplace⟩ := h.lives c
  refine
    { once := ?_
      order := fun pre t post hlog => law_order hplace hlog
      available := fun hpublished => ?_
      never := law_never h hplace
      due := law_due h hplace
      settled := law_settled hplace
      returned := fun t => law_returned h
      started := fun action s' t => running_of_started
      unlocked := fun t ht => h.unlocked ht.1
      ordered := fun t l k hcode m hm => ?_
      waiting := fun t k hcode l hl => ?_ }
  · rw [starts_eq hplace]
    split_ifs <;> simp
  · have havailable := hplace.available ((mem_history rfl).mpr hpublished)
    rcases havailable with hbuffer | hreceived | hreceiver
    · exact .inl hbuffer
    · exact .inr (.inl ((mem_history rfl).mp hreceived))
    · exact .inr (.inr hreceiver)
  · obtain ⟨⟨habove, -⟩, -⟩ := h.instr hcode
    exact habove m (((h.threads t).locks m).mp hm)
  · obtain ⟨hheld, -⟩ := h.instr hcode
    rw [(h.threads t).locks, show (q t).held = [] from hheld] at hl
    exact absurd hl List.not_mem_nil

/-- Two promises get callbacks, the second is dropped, and another thread closes the session. -/
def closeRun : List (Action Unit) :=
  let advance (t n : ℕ) : List (Action Unit) := List.replicate n (.advance t {})
  .start 0 (.request 0 () 10) :: advance 0 7 ++ .start 0 (.request 0 () 10) :: advance 0 7 ++
    .start 0 (.notify 0) :: advance 0 4 ++ .start 0 (.notify 1) :: advance 0 4 ++
    .start 0 (.drop 1) :: advance 0 4 ++
    .start 1 (.close 0 .closed) :: advance 1 14 ++ .finish 1 :: advance 1 1

theorem notification_law_closeRun : ∃ s : Sys Unit, (machine .client).Reachable s ∧
    s.log = [.registered 0 false, .registered 1 false, .dropped 1, .published 0, .started 0 1] ∧
    Law s 0 ∧ Law s 1 := by
  have hrun : ((machine .client).run closeRun (machine .client).init).map Sys.log =
      some [.registered 0 false, .registered 1 false, .dropped 1, .published 0, .started 0 1] := by
    decide +kernel
  obtain ⟨s, hs, hlog⟩ := Option.map_eq_some_iff.mp hrun
  have hreachable := Machine.reachable_of_run hs
  exact ⟨s, hreachable, hlog, notification_law hreachable 0, notification_law hreachable 1⟩

end ArkWire.Protocol.Notification
