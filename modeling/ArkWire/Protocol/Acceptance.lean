import ArkWire.Protocol.Server
import ArkWire.Transport.Integrity
import ArkWire.Lib.Monitors

/-! # The condition variable of the server

Two threads wait on `changed`: the owner in `accept`, for a session or the end of the server, and
the reader in `pause_reader`, for the end of the server but no longer than a delay. `attach`
notifies after it has released the lock, and each call of `close` after it has closed the attached
session.

`acceptance` is the server of `Server` with these waits. -/

namespace ArkWire.Protocol.Acceptance

open ArkWire.Lib.Machines ArkWire.Lib.Monitors
open ArkWire.Protocol.Server

variable {M : Type}

/-! ### Waits and notifications -/

inductive Waiter where
  | owner
  | reader
  deriving DecidableEq

inductive Section (M : Type) where
  | server (a : Server.Action M)
  /-- A pass of the loop of `accept`. -/
  | accept
  /-- A pass of the loop of `pause_reader`; its timeout is the step `read` of the reader. -/
  | pause (now deadline : ℕ)

/-- The thread a section belongs to, where it is one that waits. -/
def waiter : Section M → Option Waiter
  | .accept => some .owner
  | .pause _ _ => some .reader
  | .server (.read _) => some .reader
  | .server .quit => some .reader
  | .server (.fail _) => some .reader
  | .server (.transport (.own _)) => some .reader
  | .server _ => none

/-- Whether a `notify_all` follows: after the second section of `attach`, and in every call of
`close`, also where the server was closed before. -/
def notifies (s : ServerInner M) : Section M → Bool
  | .server (.read _) =>
    match s.reader, s.state with
    | .install _, .opened _ => true
    | _, _ => false
  | .server (.closer k _) =>
    match s.closers k with
    | .entering _ => true
    | _ => false
  | _ => false

/-- How a pass of a waiter's loop ends. The timer is that of `wait_deadline`. -/
def parks (s : ServerInner M) : Section M → Option (Option ℕ)
  | .accept =>
    match s.state with
    | .opened o => if o.ready = none then some none else none
    | .closed _ _ => none
  | .pause _ deadline =>
    match s.state with
    | .opened _ => some (some deadline)
    | .closed _ _ => none
  | .server _ => none

/-- A section. A pass that finds nothing returns an error or parks. -/
def step (m : Transporter) (codec : Envelope.Codec M) (s : ServerInner M) :
    Section M → Outcome Fault (ServerInner M)
  | .server .accept => .blocked
  | .server a => s.step m codec a
  | .accept =>
    match s.acceptStep with
    | .blocked => .next s
    | outcome => outcome
  | .pause now _ =>
    match s.reader, s.state with
    | .paused, .opened _ => .next s
    | .paused, .closed _ _ => s.step m codec (.read now)
    | _, _ => .blocked

/-- **A server and its condition variable.** -/
def acceptance (m : Transporter) (codec : Envelope.Codec M) :
    Monitor (ServerInner M) (Section M) Fault Waiter (Option ℕ) where
  init := { transport := m.init }
  step := step m codec
  waiter := waiter
  notifies := notifies
  parks := parks

/-- A waiter may sleep. -/
def Sleeps (s : ServerInner M) : Waiter → Option ℕ → Prop
  | .owner, _ => ∃ o, s.state = .opened o ∧ o.ready = none
  | .reader, timer => (∃ o, s.state = .opened o) ∧ timer ≠ none

/-! ### Sections without a notification -/

/-- The server stays open, with the same session ready. -/
def Calm (s s' : ServerInner M) : Prop :=
  ∀ o, s.state = .opened o → ∃ o', s'.state = .opened o' ∧ o'.ready = o.ready

variable {m : Transporter} {codec : Envelope.Codec M} {s s' : ServerInner M}

theorem calm_of_state (h : s'.state = s.state) : Calm s s' := fun o ho => ⟨o, h.trans ho, rfl⟩

theorem calm_transport {a : Transport.Server.Action} (hs : s.transportStep m a = .next s') :
    Calm s s' := by
  unfold ServerInner.transportStep at hs
  split at hs
  · cases hs
  · cases hs
  · cases hs
    exact calm_of_state rfl

theorem calm_attach {now : ℕ} (hs : s.attachStep now = .next s')
    (hn : notifies s (.server (.read now)) = false) : Calm s s' := by
  unfold ServerInner.attachStep at hs
  split at hs
  · split at hs
    · cases hs
      exact calm_of_state rfl
    · split at hs <;> cases hs <;> exact calm_of_state rfl
  · cases hs
    exact calm_of_state rfl
  · next i hreader =>
    split at hs
    · cases hs
      exact calm_of_state rfl
    · next o ho =>
      -- the second section of `attach` notifies
      simp only [notifies, hreader, ho] at hn
      cases hn
  · cases hs
    exact calm_of_state rfl
  · cases hs
    exact calm_of_state rfl
  · cases hs

theorem calm_result {now : ℕ} {result : Transport.Server.Returned}
    (hs : s.resultStep codec now result = .next s') : Calm s s' := by
  unfold ServerInner.resultStep at hs
  split at hs
  · cases hs
    exact calm_of_state rfl
  · cases hs
    exact calm_of_state rfl
  · split at hs
    · cases hs
      exact calm_of_state rfl
    · split at hs
      · cases hs
      · split at hs
        · cases hs
          exact calm_of_state rfl
        · cases hs
        · cases hs
  · cases hs
    exact calm_of_state rfl
  · cases hs
    exact calm_of_state rfl
  · cases hs

theorem calm_read {now : ℕ} (hs : s.readStep m codec now = .next s')
    (hn : notifies s (.server (.read now)) = false) : Calm s s' := by
  unfold ServerInner.readStep at hs
  split at hs
  · exact fun o ho => calm_transport hs o ho
  · exact calm_result hs
  · split at hs <;> cases hs <;> exact calm_of_state rfl
  · exact calm_attach hs hn

theorem calm_begin {k : ℕ} {error : Errors.Error} (hs : s.beginClose k error = .next s') :
    Calm s s' := by
  unfold ServerInner.beginClose at hs
  split at hs <;> cases hs
  exact calm_of_state rfl

theorem calm_closer {k now : ℕ} (hs : s.closerStep k now = .next s')
    (hn : notifies s (.server (.closer k now)) = false) : Calm s s' := by
  unfold ServerInner.closerStep at hs
  split at hs
  · next error hc =>
    simp only [notifies, hc] at hn
    cases hn
  · cases hs
    exact calm_of_state rfl
  · cases hs
    exact calm_of_state rfl
  · cases hs
    exact calm_of_state rfl
  · cases hs

theorem calm_policy {set : OpenState → OpenState} {f : Slot M → Slot M}
    (hset : ∀ o, (set o).ready = o.ready) (hs : s.policyStep set f = .next s') : Calm s s' := by
  unfold ServerInner.policyStep at hs
  split at hs
  · cases hs
    exact calm_of_state rfl
  · next o ho =>
    cases hs
    intro o' ho'
    rw [ho] at ho'
    cases ho'
    exact ⟨set o, rfl, hset o⟩

theorem calm_session {i : ℕ} {a : System.Action M} (hs : s.sessionStep codec i a = .next s') :
    Calm s s' := by
  unfold ServerInner.sessionStep at hs
  split at hs
  · cases hs
  · split_ifs at hs
    split at hs
    · cases hs
      exact calm_of_state rfl
    · cases hs
    · cases hs

theorem calm_release {i : ℕ} (hs : s.releaseStep i = .next s') : Calm s s' := by
  unfold ServerInner.releaseStep at hs
  split at hs
  · split at hs
    · cases hs
      exact calm_of_state rfl
    · cases hs
  · cases hs

/-- **Without a notification the server stays open and no session becomes ready.** -/
theorem calm_server {a : Server.Action M} (hne : a ≠ .accept) (hs : s.step m codec a = .next s')
    (hn : notifies s (.server a) = false) : Calm s s' := by
  cases a with
  | transport a =>
    cases a with
    | own input =>
      simp only [ServerInner.step] at hs
      split at hs
      · cases hs
      · cases hs
      · exact calm_transport hs
      · cases hs
    | handle a => exact calm_transport hs
    | feed bytes => exact calm_transport hs
  | read now => exact calm_read hs hn
  | quit =>
    simp only [ServerInner.step] at hs
    split at hs <;> cases hs
    exact calm_of_state rfl
  | fail k =>
    simp only [ServerInner.step] at hs
    split at hs
    · cases hs
    · cases hs
    · exact fun o ho => calm_begin hs o ho
    · cases hs
  | accept => exact absurd rfl hne
  | setInboundLimits requests bytes now =>
    refine calm_policy ?_ hs
    intro o
    rfl
  | setAutoreplyTimeout timeout =>
    refine calm_policy ?_ hs
    intro o
    rfl
  | close k => exact calm_begin hs
  | closer k now => exact calm_closer hs hn
  | session i a => exact calm_session hs
  | dropSession i now =>
    simp only [ServerInner.step] at hs
    split_ifs at hs
    cases hs
    exact calm_of_state rfl
  | release i => exact calm_release hs

theorem sleeps_calm (h : Calm s s') {w : Waiter} {timer : Option ℕ} (hs : Sleeps s w timer) :
    Sleeps s' w timer := by
  cases w with
  | owner =>
    obtain ⟨o, ho, hr⟩ := hs
    obtain ⟨o', ho', hr'⟩ := h o ho
    exact ⟨o', ho', hr'.trans hr⟩
  | reader =>
    obtain ⟨⟨o, ho⟩, hne⟩ := hs
    obtain ⟨o', ho', -⟩ := h o ho
    exact ⟨⟨o', ho'⟩, hne⟩

/-- The owner takes a session: the server stays open. -/
theorem sleeps_accept (hs : step m codec s .accept = .next s') {timer : Option ℕ}
    (h : Sleeps s .reader timer) : Sleeps s' .reader timer := by
  obtain ⟨⟨o, ho⟩, hne⟩ := h
  refine ⟨?_, hne⟩
  cases hr : o.ready with
  | none =>
    simp only [step, ServerInner.acceptStep, ho, hr] at hs
    cases hs
    exact ⟨o, ho⟩
  | some i =>
    simp only [step, ServerInner.acceptStep, ho, hr] at hs
    cases hs
    exact ⟨_, rfl⟩

/-- **A step of another thread that owes no notification leaves a sleeper as it is.** -/
theorem sleeps_step {a : Section M} {w : Waiter} {timer : Option ℕ}
    (hs : step m codec s a = .next s') (hw : waiter a ≠ some w) (hn : notifies s a = false)
    (h : Sleeps s w timer) : Sleeps s' w timer := by
  cases a with
  | server a =>
    by_cases hne : a = .accept
    · rw [hne] at hs
      cases hs
    · have hstep : s.step m codec a = .next s' := by
        unfold step at hs
        split at hs
        · cases hs
        all_goals simp_all
      exact sleeps_calm (calm_server hne hstep hn) h
  | accept =>
    cases w with
    | owner => exact absurd rfl hw
    | reader => exact sleeps_accept hs h
  | pause now deadline =>
    cases w with
    | reader => exact absurd rfl hw
    | owner =>
      obtain ⟨o, ho, hr⟩ := h
      simp only [step, ho] at hs
      split at hs
      · cases hs
        exact ⟨o, ho, hr⟩
      · next hclosed => cases hclosed
      · cases hs

/-- **A waiter parks only where it may sleep.** -/
theorem sleeps_parks {a : Section M} {w : Waiter} {timer : Option ℕ}
    (hs : step m codec s a = .next s') (hw : waiter a = some w) (hp : parks s a = some timer) :
    Sleeps s' w timer := by
  cases a with
  | server a => cases hp
  | accept =>
    cases hw
    unfold parks at hp
    dsimp only at hp
    split at hp
    · next o ho =>
      split_ifs at hp with hr
      simp only [step, ServerInner.acceptStep, ho, hr] at hs
      cases hs
      exact ⟨o, ho, hr⟩
    · cases hp
  | pause now deadline =>
    cases hw
    unfold parks at hp
    dsimp only at hp
    split at hp
    · next o ho =>
      cases hp
      simp only [step, ho] at hs
      split at hs
      · cases hs
        exact ⟨⟨o, ho⟩, nofun⟩
      · next hclosed => cases hclosed
      · cases hs
    · cases hp

/-- **No lost wakeup of the server.** While no `notify_all` is owed, an owner parked in `accept` has
an open server with no session ready, and a reader parked in `pause_reader` an open server and a
time to sleep to. So once the server is closed, neither sleeps on. -/
theorem acceptance_wakes {x : Watched (ServerInner M) Waiter (Option ℕ)}
    (h : (acceptance m codec).machine.Reachable x) (howed : x.owed = 0) {w : Waiter}
    {timer : Option ℕ} (hw : x.sleep w = .parked timer) : Sleeps x.state w timer := by
  refine (acceptance m codec).no_lost_wakeup_others (I := fun _ => True)
    (P := fun w timer s => Sleeps s w timer) trivial (fun _ _ _ _ _ => trivial) ?_ ?_ h howed hw
  · intro s a s' w timer _ hstep hactor hparks _
    exact sleeps_parks hstep hactor hparks
  · intro s a s' w timer _ hstep hactor hn hs
    exact sleeps_step hstep hactor hn hs

open ArkWire.Transport.Integrity (openSealed smallConfig smallCodec) in
/-- The owner waits for a session and the reader pauses after a failed read; then the server is
closed, and both have been notified. -/
theorem acceptance_wakes_failedRead :
    let m := Transport.Server.server (smallConfig .server) smallCodec (openSealed fun _ => [])
      (.new 8) []
    let own := fun input => Section.server (M := UInt8) (.transport (.own input))
    let fails : Transport.FrameReader.Turn := ⟨0, true, .ok (), .error ⟨.other 1, "gone"⟩⟩
    ∃ x y : Watched (ServerInner UInt8) Waiter (Option ℕ),
      (acceptance m System.tinyCodec).machine.run
        [.act .accept, .act (.server (.read 0)), .act (own (.go 1)), .act (own (.turn fails 50)),
          .act (own (.turn fails 50)), .act (.server (.read 2)), .act (.pause 3 100)]
        (acceptance m System.tinyCodec).machine.init = some x ∧
      Sleeps x.state .owner none ∧ Sleeps x.state .reader (some 100) ∧
      (acceptance m System.tinyCodec).machine.run
        [.act (.server (.close 0)), .act (.server (.closer 0 4)), .notify] x = some y ∧
      y.sleep .owner = .notified ∧ y.sleep .reader = .notified := by
  intro m own fails
  obtain ⟨x, y, hx, howed, ho, hr, hy, ho', hr'⟩ :
      ∃ x y : Watched (ServerInner UInt8) Waiter (Option ℕ),
      (acceptance m System.tinyCodec).machine.run
        [.act .accept, .act (.server (.read 0)), .act (own (.go 1)), .act (own (.turn fails 50)),
          .act (own (.turn fails 50)), .act (.server (.read 2)), .act (.pause 3 100)]
        (acceptance m System.tinyCodec).machine.init = some x ∧ x.owed = 0 ∧
      x.sleep .owner = .parked none ∧ x.sleep .reader = .parked (some 100) ∧
      (acceptance m System.tinyCodec).machine.run
        [.act (.server (.close 0)), .act (.server (.closer 0 4)), .notify] x = some y ∧
      y.sleep .owner = .notified ∧ y.sleep .reader = .notified :=
    ⟨_, _, rfl, rfl, rfl, rfl, rfl, rfl, rfl⟩
  have hreach := Machine.reachable_of_run hx
  exact ⟨x, y, hx, acceptance_wakes hreach howed ho, acceptance_wakes hreach howed hr, hy, ho', hr'⟩

end ArkWire.Protocol.Acceptance
