import ArkWire.Lib.Histories
import ArkWire.Lib.Machines
import ArkWire.Transport.FrameWriter

/-! # Writing under one deadline

`WriteHalf::write` step by step: it reads the clock, is admitted by `Closer::enter`, calls the
adapter and drops its `Activity`, first for the deadline setter, then for each partial write and
last for the flush. Between any two of these steps the clock may advance and the stream may close.

What the adapter answers is part of the label of its call. An adapter might take other bytes than it
reports, so a write answers both: how many of the bytes it was offered it took, and its result.
`log` is ghost; every event keeps the time and whether the stream was open. -/

namespace ArkWire.Transport.WriteHalf

open ArkWire.Lib.Machines ArkWire.Lib.Histories
open ArkWire.Transport.Errors ArkWire.Transport.FrameReader ArkWire.Transport.FrameWriter

/-! ### The call -/

/-- What the call did. -/
inductive Act where
  | clock
  | enter (admitted : Bool)
  | leave
  | setter (deadline : ℕ) (result : Except IoError Unit)
  | write (offered : Bytes) (taken : ℕ) (result : Except IoError ℕ)
  | flush (result : Except IoError Unit)

structure Event where
  now : ℕ
  opened : Bool
  act : Act

/-- Where the call is: what it does next. -/
inductive Place where
  | check
  | enterSetter
  | setter
  | leaveSetter (result : Except IoError Unit)
  /-- The head of the loop, and the check after it. -/
  | loop
  | enterWrite
  | write
  | leaveWrite (result : Except IoError ℕ)
  | enterFlush
  | flush
  | leaveFlush (result : Except IoError Unit)
  | returned (result : Except IoError Unit)

/-- A call of `write` in its surroundings; `bytes` are those not yet written. -/
structure Call where
  bytes : Bytes
  place : Place := .check
  now : ℕ := 0
  opened : Bool := true
  log : List Event := []

/-- `bytes[n..]` past the end. -/
inductive Panic where
  | index
  deriving DecidableEq, Repr

/-- The clock advances, a closer begins to close, the call takes a step of its own, or the adapter
answers. -/
inductive Label where
  | advance (d : ℕ)
  | close
  | turn
  | setter (result : Except IoError Unit)
  | write (taken : ℕ) (result : Except IoError ℕ)
  | flush (result : Except IoError Unit)

namespace Call

/-- One step of the call, which goes on at some place. -/
def did (c : Call) (act : Act) (place : Place) : Call :=
  { c with place, log := c.log ++ [⟨c.now, c.opened, act⟩] }

/-- `check_deadline`. -/
def checkDeadline (deadline : ℕ) (c : Call) (next : Place) : Call :=
  c.did .clock (if deadline ≤ c.now then .returned (.error deadlineExpired) else next)

/-- `Closer::enter`, with the error of a refusal. -/
def enter (c : Call) (next : Place) : Call :=
  c.did (.enter c.opened) (if c.opened then next else .returned (.error streamClosed))

/-- A step without the adapter: one line of the source, or the end of a block. -/
def turn (deadline : ℕ) (c : Call) : Outcome Panic Call :=
  match c.place with
  | .check => .next (c.checkDeadline deadline .enterSetter)
  | .enterSetter => .next (c.enter .setter)
  | .leaveSetter (.ok _) => .next (c.did .leave .loop)
  | .leaveSetter (.error error) => .next (c.did .leave (.returned (.error error)))
  | .loop => .next (c.checkDeadline deadline (if c.bytes = [] then .enterFlush else .enterWrite))
  | .enterWrite => .next (c.enter .write)
  | .leaveWrite (.ok n) =>
    if n = 0 then .next (c.did .leave (.returned (.error writeZero)))
    else if c.bytes.length < n then .panic .index
    else .next ({ c with bytes := c.bytes.drop n }.did .leave .loop)
  | .leaveWrite (.error error) =>
    if error.kind = .interrupted then .next (c.did .leave .loop)
    else .next (c.did .leave (.returned (.error error)))
  | .enterFlush => .next (c.enter .flush)
  | .leaveFlush result => .next (c.did .leave (.returned result))
  | .setter | .write | .flush | .returned _ => .blocked

def step (deadline : ℕ) (c : Call) : Label → Outcome Panic Call
  | .advance d => .next { c with now := c.now + d }
  | .close => .next { c with opened := false }
  | .turn => c.turn deadline
  | .setter result =>
    match c.place with
    | .setter => .next (c.did (.setter deadline result) (.leaveSetter result))
    | _ => .blocked
  | .write taken result =>
    match c.place with
    | .write => .next (c.did (.write c.bytes taken result) (.leaveWrite result))
    | _ => .blocked
  | .flush result =>
    match c.place with
    | .flush => .next (c.did (.flush result) (.leaveFlush result))
    | _ => .blocked

end Call

/-- **`WriteHalf::write`** of some bytes under a deadline, called at any time and on any stream. -/
def writeHalf (bytes : Bytes) (deadline now : ℕ) (opened : Bool) : Machine Call Label Panic where
  init := { bytes, now, opened }
  step := Call.step deadline

/-! ### What the history says -/

/-- The bytes the adapter took. -/
def accepted (log : List Event) : Bytes :=
  log.flatMap fun e =>
    match e.act with
    | .write offered taken _ => offered.take taken
    | _ => []

theorem accepted_append (log : List Event) (e : Event) :
    accepted (log ++ [e]) = accepted log ++ accepted [e] := by
  rw [accepted, List.flatMap_append]
  rfl

/-- A write that reports what it took. -/
def Act.Truthful : Act → Prop
  | .write offered taken (.ok n) => taken ≤ offered.length ∧ n = taken
  | .write _ taken (.error _) => taken = 0
  | _ => True

instance : DecidablePred Act.Truthful
  | .write offered taken (.ok n) => inferInstanceAs (Decidable (taken ≤ offered.length ∧ n = taken))
  | .write _ taken (.error _) => inferInstanceAs (Decidable (taken = 0))
  | .clock | .enter _ | .leave | .setter .. | .flush _ => inferInstanceAs (Decidable True)

/-- An adapter that reports what it takes. -/
def Truthful (log : List Event) : Prop := ∀ e ∈ log, e.act.Truthful

instance (log : List Event) : Decidable (Truthful log) :=
  inferInstanceAs (Decidable (∀ e ∈ log, e.act.Truthful))

theorem Truthful.of_append {log later : List Event} (h : Truthful (log ++ later)) : Truthful log :=
  fun e he => h e (List.mem_append_left _ he)

def isSetter (e : Event) : Bool :=
  match e.act with
  | .setter .. => true
  | _ => false

def isWrite (e : Event) : Bool :=
  match e.act with
  | .write .. => true
  | _ => false

def isFlush (e : Event) : Bool :=
  match e.act with
  | .flush _ => true
  | _ => false

/-- The last thing the call did was to read the clock below the deadline. -/
def Checked (deadline : ℕ) (log : List Event) : Prop :=
  ∃ pre c, log = pre ++ [c] ∧ c.act = .clock ∧ c.now < deadline

/-- The last things the call did were to read the clock below the deadline and to be admitted while
the stream was open. -/
def Admitted (deadline : ℕ) (log : List Event) : Prop :=
  ∃ pre c a, log = pre ++ [c, a] ∧ c.act = .clock ∧ c.now < deadline ∧
    a.act = .enter true ∧ a.opened = true

/-- When the call may do what it does. -/
def Allowed (slice : Bytes) (deadline : ℕ) (log : List Event) (e : Event) : Prop :=
  match e.act with
  | .setter installed _ => installed = deadline ∧ Admitted deadline log ∧
      ∀ e ∈ log, isSetter e = false ∧ isWrite e = false ∧ isFlush e = false
  | .write offered _ _ => Admitted deadline log ∧ slice = accepted log ++ offered ∧
      ∀ e ∈ log, isFlush e = false
  | .flush _ => Admitted deadline log ∧ accepted log = slice ∧ ∀ e ∈ log, isFlush e = false
  | _ => True

/-! ### What a step can do -/

variable {slice : Bytes} {deadline : ℕ} {c c' : Call}

/-- The bytes that are left when the answer of the adapter has been taken up. -/
def left (c : Call) : Bytes :=
  match c.place with
  | .leaveWrite (.ok n) => c.bytes.drop n
  | _ => c.bytes

/-- The flush was answered with success. -/
def Flushed (log : List Event) : Prop := ∃ e ∈ log, e.act = .flush (.ok ())

/-- What is known where the call is. -/
def Stands (deadline : ℕ) (c : Call) : Prop :=
  match c.place with
  | .check => c.log = []
  | .enterSetter => Checked deadline c.log ∧
      ∀ e ∈ c.log, isSetter e = false ∧ isWrite e = false ∧ isFlush e = false
  | .setter => Admitted deadline c.log ∧
      ∀ e ∈ c.log, isSetter e = false ∧ isWrite e = false ∧ isFlush e = false
  | .leaveSetter _ | .loop => ∀ e ∈ c.log, isFlush e = false
  | .enterWrite => Checked deadline c.log ∧ ∀ e ∈ c.log, isFlush e = false
  | .write => Admitted deadline c.log ∧ ∀ e ∈ c.log, isFlush e = false
  | .leaveWrite result => (∀ n, result = .ok n → n ≤ c.bytes.length) ∧
      ∀ e ∈ c.log, isFlush e = false
  | .enterFlush => Checked deadline c.log ∧ c.bytes = [] ∧ ∀ e ∈ c.log, isFlush e = false
  | .flush => Admitted deadline c.log ∧ c.bytes = [] ∧ ∀ e ∈ c.log, isFlush e = false
  | .leaveFlush result | .returned result => result = .ok () → c.bytes = [] ∧ Flushed c.log

/-- **The invariant of a call.** -/
structure Guarded (slice : Bytes) (deadline : ℕ) (c : Call) : Prop where
  split : slice = accepted c.log ++ left c
  allowed : Legal (Allowed slice deadline) c.log
  stands : Stands deadline c

/-- An act that is no call of the adapter. -/
def Act.quiet : Act → Bool
  | .clock | .enter _ | .leave => true
  | _ => false

theorem accepted_did {act : Act} (hq : act.quiet = true) (place : Place) :
    accepted (c.did act place).log = accepted c.log := by
  rw [Call.did, accepted_append]
  cases act with
  | clock => exact List.append_nil _
  | enter _ => exact List.append_nil _
  | leave => exact List.append_nil _
  | _ => cases hq

theorem allowed_quiet {act : Act} (hq : act.quiet = true) (log : List Event) (now : ℕ)
    (opened : Bool) : Allowed slice deadline log ⟨now, opened, act⟩ := by
  cases act with
  | clock => trivial
  | enter _ => trivial
  | leave => trivial
  | _ => cases hq

/-- A quiet act is none of the calls. -/
theorem mem_did {act : Act} (hq : act.quiet = true) {place : Place} {e : Event}
    (he : e ∈ (c.did act place).log) :
    e ∈ c.log ∨ isSetter e = false ∧ isWrite e = false ∧ isFlush e = false := by
  rw [Call.did, List.mem_append, List.mem_singleton] at he
  refine he.imp_right ?_
  rintro rfl
  cases act with
  | clock => exact ⟨rfl, rfl, rfl⟩
  | enter _ => exact ⟨rfl, rfl, rfl⟩
  | leave => exact ⟨rfl, rfl, rfl⟩
  | _ => cases hq

theorem noFlush_did {act : Act} (hq : act.quiet = true) {place : Place}
    (h : ∀ e ∈ c.log, isFlush e = false) : ∀ e ∈ (c.did act place).log, isFlush e = false := by
  intro e he
  rcases mem_did hq he with he | he
  · exact h e he
  · exact he.2.2

theorem fresh_did {act : Act} (hq : act.quiet = true) {place : Place}
    (h : ∀ e ∈ c.log, isSetter e = false ∧ isWrite e = false ∧ isFlush e = false) :
    ∀ e ∈ (c.did act place).log, isSetter e = false ∧ isWrite e = false ∧ isFlush e = false := by
  intro e he
  rcases mem_did hq he with he | he
  · exact h e he
  · exact he

/-- A check that passes. -/
theorem checked_did {next : Place} (hnow : c.now < deadline) :
    Checked deadline (c.did .clock next).log :=
  ⟨c.log, _, rfl, rfl, hnow⟩

/-- An admission after a check. -/
theorem admitted_did {next : Place} (h : Checked deadline c.log) (hopen : c.opened = true) :
    Admitted deadline (c.did (.enter c.opened) next).log := by
  obtain ⟨pre, e, hlog, hact, hnow⟩ := h
  refine ⟨pre, e, ⟨c.now, c.opened, .enter c.opened⟩, ?_, hact, hnow, ?_, hopen⟩
  · rw [Call.did, hlog, List.append_assoc]
    rfl
  · rw [hopen]

namespace Guarded

/-- The clock and the closer change nothing of the call. -/
theorem surroundings (h : Guarded slice deadline c) {now : ℕ} {opened : Bool} :
    Guarded slice deadline { c with now, opened } :=
  ⟨h.split, h.allowed, h.stands⟩

/-- A quiet act keeps the history legal, and the bytes if the place keeps them. -/
theorem quiet (h : Guarded slice deadline c) {act : Act} (hq : act.quiet = true) {place : Place}
    (hleft : left (c.did act place) = left c) (hstands : Stands deadline (c.did act place)) :
    Guarded slice deadline (c.did act place) where
  split := by
    rw [accepted_did hq, hleft]
    exact h.split
  allowed := h.allowed.append (allowed_quiet hq _ _ _)
  stands := hstands

theorem checkDeadline (h : Guarded slice deadline c) {next : Place} (hleft : left c = c.bytes)
    (hkeeps : left (c.did .clock next) = c.bytes)
    (hstands : c.now < deadline → Stands deadline (c.did .clock next)) :
    Guarded slice deadline (c.checkDeadline deadline next) := by
  unfold Call.checkDeadline
  split
  · exact h.quiet rfl hleft.symm nofun
  · next hnow => exact h.quiet rfl (hkeeps.trans hleft.symm) (hstands (Nat.lt_of_not_le hnow))

theorem enter (h : Guarded slice deadline c) {next : Place} (hleft : left c = c.bytes)
    (hkeeps : left (c.did (.enter c.opened) next) = c.bytes)
    (hstands : c.opened = true → Stands deadline (c.did (.enter c.opened) next)) :
    Guarded slice deadline (c.enter next) := by
  unfold Call.enter
  split
  · next hopen => exact h.quiet rfl (hkeeps.trans hleft.symm) (hstands hopen)
  · exact h.quiet rfl hleft.symm nofun

theorem turn (h : Guarded slice deadline c) (hstep : c.turn deadline = .next c') :
    Guarded slice deadline c' := by
  have hstands := h.stands
  unfold Call.turn at hstep
  cases hplace : c.place with
  | check =>
    rw [hplace] at hstep
    obtain rfl := Outcome.next.inj hstep
    rw [Stands, hplace] at hstands
    refine h.checkDeadline (by rw [left, hplace]) rfl fun hnow => ⟨checked_did hnow, ?_⟩
    refine fresh_did rfl fun e he => ?_
    rw [show c.log = [] from hstands] at he
    cases he
  | enterSetter =>
    rw [hplace] at hstep
    obtain rfl := Outcome.next.inj hstep
    rw [Stands, hplace] at hstands
    refine h.enter (by rw [left, hplace]) rfl fun hopen => ?_
    exact ⟨admitted_did hstands.1 hopen, fresh_did rfl hstands.2⟩
  | leaveSetter result =>
    rw [hplace] at hstep
    rw [Stands, hplace] at hstands
    have hleft : left c = c.bytes := by rw [left, hplace]
    cases result with
    | ok _ =>
      obtain rfl := Outcome.next.inj hstep
      exact h.quiet rfl hleft.symm (noFlush_did rfl hstands)
    | error error =>
      obtain rfl := Outcome.next.inj hstep
      exact h.quiet rfl hleft.symm nofun
  | loop =>
    rw [hplace] at hstep
    obtain rfl := Outcome.next.inj hstep
    rw [Stands, hplace] at hstands
    have hleft : left c = c.bytes := by rw [left, hplace]
    by_cases hbytes : c.bytes = []
    · rw [if_pos hbytes]
      exact h.checkDeadline hleft rfl fun hnow =>
        ⟨checked_did hnow, hbytes, noFlush_did rfl hstands⟩
    · rw [if_neg hbytes]
      exact h.checkDeadline hleft rfl fun hnow => ⟨checked_did hnow, noFlush_did rfl hstands⟩
  | enterWrite =>
    rw [hplace] at hstep
    obtain rfl := Outcome.next.inj hstep
    rw [Stands, hplace] at hstands
    refine h.enter (by rw [left, hplace]) rfl fun hopen => ?_
    exact ⟨admitted_did hstands.1 hopen, noFlush_did rfl hstands.2⟩
  | leaveWrite result =>
    rw [hplace] at hstep
    rw [Stands, hplace] at hstands
    cases result with
    | ok n =>
      have hleft : left c = c.bytes.drop n := by rw [left, hplace]
      simp only at hstep
      split at hstep
      · next hzero =>
        obtain rfl := Outcome.next.inj hstep
        refine h.quiet rfl ?_ nofun
        rw [hleft, hzero]
        rfl
      · split at hstep
        · cases hstep
        · obtain rfl := Outcome.next.inj hstep
          refine ⟨?_, h.allowed.append (allowed_quiet rfl _ _ _), noFlush_did rfl hstands.2⟩
          rw [accepted_did rfl]
          exact hleft ▸ h.split
    | error error =>
      have hleft : left c = c.bytes := by rw [left, hplace]
      simp only at hstep
      split at hstep
      · obtain rfl := Outcome.next.inj hstep
        exact h.quiet rfl hleft.symm (noFlush_did rfl hstands.2)
      · obtain rfl := Outcome.next.inj hstep
        exact h.quiet rfl hleft.symm nofun
  | enterFlush =>
    rw [hplace] at hstep
    obtain rfl := Outcome.next.inj hstep
    rw [Stands, hplace] at hstands
    refine h.enter (by rw [left, hplace]) rfl fun hopen => ?_
    exact ⟨admitted_did hstands.1 hopen, hstands.2.1, noFlush_did rfl hstands.2.2⟩
  | leaveFlush result =>
    rw [hplace] at hstep
    obtain rfl := Outcome.next.inj hstep
    rw [Stands, hplace] at hstands
    have hleft : left c = c.bytes := by rw [left, hplace]
    refine h.quiet rfl hleft.symm fun hok => ?_
    obtain ⟨hbytes, e, he, hflush⟩ := hstands hok
    exact ⟨hbytes, e, List.mem_append_left _ he, hflush⟩
  | setter => simp only [hplace] at hstep; cases hstep
  | write => simp only [hplace] at hstep; cases hstep
  | flush => simp only [hplace] at hstep; cases hstep
  | returned result => simp only [hplace] at hstep; cases hstep

theorem setter (h : Guarded slice deadline c) (hplace : c.place = .setter)
    (result : Except IoError Unit) :
    Guarded slice deadline (c.did (.setter deadline result) (.leaveSetter result)) := by
  have hstands := h.stands
  rw [Stands, hplace] at hstands
  refine ⟨?_, h.allowed.append ⟨rfl, hstands⟩, ?_⟩
  · rw [Call.did, accepted_append, show accepted [_] = [] from rfl, List.append_nil]
    have hsplit := h.split
    rw [left, hplace] at hsplit
    exact hsplit
  · intro e he
    rw [Call.did, List.mem_append, List.mem_singleton] at he
    rcases he with he | rfl
    · exact (hstands.2 e he).2.2
    · rfl

/-- A truthful write takes the front of what is left. -/
theorem write (h : Guarded slice deadline c) (hplace : c.place = .write) {taken : ℕ}
    {result : Except IoError ℕ} (htrue : (Act.write c.bytes taken result).Truthful) :
    Guarded slice deadline (c.did (.write c.bytes taken result) (.leaveWrite result)) := by
  have hstands := h.stands
  rw [Stands, hplace] at hstands
  have hsplit : slice = accepted c.log ++ c.bytes := by
    have hsplit := h.split
    rw [left, hplace] at hsplit
    exact hsplit
  refine ⟨?_, h.allowed.append ⟨hstands.1, hsplit, hstands.2⟩, ?_⟩
  · rw [Call.did, accepted_append,
      show accepted [⟨c.now, c.opened, .write c.bytes taken result⟩] = c.bytes.take taken from
        List.append_nil _]
    cases result with
    | ok n =>
      obtain ⟨-, rfl⟩ := htrue
      rw [left, List.append_assoc, List.take_append_drop]
      exact hsplit
    | error error =>
      rw [show taken = 0 from htrue, List.take_zero, List.append_nil]
      exact hsplit
  · refine ⟨?_, fun e he => ?_⟩
    · rintro n rfl
      exact htrue.2 ▸ htrue.1
    · rw [Call.did, List.mem_append, List.mem_singleton] at he
      rcases he with he | rfl
      · exact hstands.2 e he
      · rfl

theorem flush (h : Guarded slice deadline c) (hplace : c.place = .flush)
    (result : Except IoError Unit) :
    Guarded slice deadline (c.did (.flush result) (.leaveFlush result)) := by
  have hstands := h.stands
  rw [Stands, hplace] at hstands
  obtain ⟨hadmitted, hbytes, hnone⟩ := hstands
  have hsplit : slice = accepted c.log ++ c.bytes := by
    have hsplit := h.split
    rw [left, hplace] at hsplit
    exact hsplit
  refine ⟨?_, h.allowed.append ⟨hadmitted, ?_, hnone⟩, fun hok => ⟨hbytes, ?_⟩⟩
  · rw [Call.did, accepted_append, show accepted [_] = [] from rfl, List.append_nil]
    exact hsplit
  · rw [hsplit, hbytes, List.append_nil]
  · refine ⟨_, List.mem_append_right _ (List.mem_singleton_self _), ?_⟩
    rw [hok]

theorem step (h : Guarded slice deadline c) {label : Label}
    (hstep : c.step deadline label = .next c') (htrue : Truthful c'.log) :
    Guarded slice deadline c' := by
  cases label with
  | advance d =>
    obtain rfl := Outcome.next.inj hstep
    exact h.surroundings
  | close =>
    obtain rfl := Outcome.next.inj hstep
    exact h.surroundings
  | turn => exact h.turn hstep
  | setter result =>
    simp only [Call.step] at hstep
    split at hstep
    · next hplace =>
      obtain rfl := Outcome.next.inj hstep
      exact h.setter hplace result
    · cases hstep
  | write taken result =>
    simp only [Call.step] at hstep
    split at hstep
    · next hplace =>
      obtain rfl := Outcome.next.inj hstep
      exact h.write hplace (htrue _ (List.mem_append_right _ (List.mem_singleton_self _)))
    · cases hstep
  | flush result =>
    simp only [Call.step] at hstep
    split at hstep
    · next hplace =>
      obtain rfl := Outcome.next.inj hstep
      exact h.flush hplace result
    · cases hstep

theorem ne_panic (h : Guarded slice deadline c) (label : Label) (panic : Panic) :
    c.step deadline label ≠ .panic panic := by
  have hstands := h.stands
  cases label with
  | advance d => exact nofun
  | close => exact nofun
  | turn =>
    simp only [Call.step, Call.turn]
    cases hplace : c.place with
    | leaveWrite result =>
      rw [Stands, hplace] at hstands
      cases result with
      | ok n =>
        have hn : ¬ c.bytes.length < n := Nat.not_lt.2 (hstands.1 n rfl)
        simp only [if_neg hn]
        split <;> exact nofun
      | error error =>
        simp only
        split <;> exact nofun
    | leaveSetter result => cases result <;> exact nofun
    | _ => exact nofun
  | _ =>
    simp only [Call.step]
    split <;> exact nofun

end Guarded

theorem step_log {label : Label} (h : c.step deadline label = .next c') :
    ∃ later, c'.log = c.log ++ later := by
  have hturn : c.turn deadline = .next c' → ∃ later, c'.log = c.log ++ later := by
    intro h
    unfold Call.turn at h
    split at h
    all_goals first
      | exact Outcome.next.inj h ▸ ⟨_, rfl⟩
      | cases h
      | split at h
    all_goals first
      | exact Outcome.next.inj h ▸ ⟨_, rfl⟩
      | split at h
    all_goals first
      | exact Outcome.next.inj h ▸ ⟨_, rfl⟩
      | cases h
  cases label with
  | advance d => exact Outcome.next.inj h ▸ ⟨[], (List.append_nil _).symm⟩
  | close => exact Outcome.next.inj h ▸ ⟨[], (List.append_nil _).symm⟩
  | turn => exact hturn h
  | _ =>
    simp only [Call.step] at h
    split at h
    · exact Outcome.next.inj h ▸ ⟨_, rfl⟩
    · cases h

variable {now : ℕ} {opened : Bool}

theorem Guarded.reachable (h : (writeHalf slice deadline now opened).Reachable c)
    (htrue : Truthful c.log) : Guarded slice deadline c := by
  revert htrue
  refine h.invariant (I := fun c => Truthful c.log → Guarded slice deadline c) ?_ ?_
  · intro _
    exact ⟨rfl, Legal.nil, rfl⟩
  · intro c label c' _ hi hstep htrue
    obtain ⟨later, hlog⟩ := step_log hstep
    rw [hlog] at htrue
    exact (hi htrue.of_append).step hstep (hlog ▸ htrue)

/-! ### The loop of the frame writer

`FrameWriter.write` answers a whole call from an `Output`. Every call that returned is one of these:
the turns of the loop are collected while the call runs. -/

/-- After some turns the loop over `slice` has had `acc` accepted and goes on with `bytes`. -/
def Played (deadline : ℕ) (slice acc bytes : Bytes) : Prop :=
  ∃ ts, ∀ o ts', writeAll deadline o (ts ++ ts') slice =
    (acc ++ (writeAll deadline o ts' bytes).1, (writeAll deadline o ts' bytes).2)

theorem Played.start : Played deadline slice [] slice := ⟨[], fun _ _ => rfl⟩

/-- One more turn. -/
theorem Played.turn {acc bytes taken bytes' : Bytes} (h : Played deadline slice acc bytes)
    {t : WriteTurn} (ht : ∀ o ts, writeAll deadline o (t :: ts) bytes =
      (taken ++ (writeAll deadline o ts bytes').1, (writeAll deadline o ts bytes').2)) :
    Played deadline slice (acc ++ taken) bytes' := by
  obtain ⟨ts, hts⟩ := h
  refine ⟨ts ++ [t], fun o ts' => ?_⟩
  rw [List.append_assoc, hts, List.singleton_append, ht, List.append_assoc]

/-- A turn in which the adapter takes some bytes. -/
theorem Played.taken {acc bytes : Bytes} (h : Played deadline slice acc bytes)
    (hpos : 0 < deadline) (hbytes : bytes ≠ []) {n : ℕ} (hn : n ≠ 0) :
    Played deadline slice (acc ++ bytes.take n) (bytes.drop n) := by
  cases bytes with
  | nil => exact absurd rfl hbytes
  | cons b bs =>
    refine h.turn (t := ⟨0, true, .ok n⟩) fun o ts => ?_
    simp only [writeAll, if_neg (Nat.not_le.2 hpos), Bool.true_eq_false, if_false, if_neg hn]

/-- An interrupted turn. -/
theorem Played.interrupted {acc bytes : Bytes} (h : Played deadline slice acc bytes)
    (hpos : 0 < deadline) (hbytes : bytes ≠ []) {error : IoError}
    (hkind : error.kind = .interrupted) : Played deadline slice acc bytes := by
  cases bytes with
  | nil => exact absurd rfl hbytes
  | cons b bs =>
    rw [← List.append_nil acc]
    refine h.turn (t := ⟨0, true, .error error⟩) fun o ts => ?_
    simp only [writeAll, if_neg (Nat.not_le.2 hpos), Bool.true_eq_false, if_false, if_pos hkind]
    rfl

/-- Some output gives what the call did and returned. -/
def Matched (slice : Bytes) (deadline : ℕ) (acc : Bytes) (result : Except IoError Unit) : Prop :=
  ∃ o, FrameWriter.write deadline o slice = (acc, some result)

/-- A write whose setter succeeds is its loop. -/
theorem write_eq_writeAll (o : Output) (hnow : o.now < deadline) (hopen : o.admitted = true)
    (hsetter : o.setter = .ok ()) :
    FrameWriter.write deadline o slice = writeAll deadline o o.turns slice := by
  rw [FrameWriter.write, if_neg (Nat.not_le.2 hnow), if_neg (by simp [hopen]), hsetter]

/-- A call that returns in its loop. -/
theorem Played.returns {acc bytes : Bytes} (h : Played deadline slice acc bytes)
    (hpos : 0 < deadline) (t : WriteTurn) {result : Except IoError Unit}
    (hlast : ∀ o, writeAll deadline o [t] bytes = ([], some result)) :
    Matched slice deadline acc result := by
  obtain ⟨ts, hts⟩ := h
  refine ⟨⟨0, true, .ok (), ts ++ [t], 0, true, .ok (), 0⟩, ?_⟩
  rw [write_eq_writeAll _ hpos rfl rfl, hts, hlast, List.append_nil]

/-- A call that returns after its loop. -/
theorem Played.flushes {acc : Bytes} (h : Played deadline slice acc []) (hpos : 0 < deadline)
    (flushNow : ℕ) (flushAdmitted : Bool) (flush : Except IoError Unit) :
    Matched slice deadline acc
      (if deadline ≤ flushNow then .error deadlineExpired
      else if flushAdmitted = false then .error streamClosed
      else flush) := by
  obtain ⟨ts, hts⟩ := h
  refine ⟨⟨0, true, .ok (), ts ++ [], flushNow, flushAdmitted, flush, 0⟩, ?_⟩
  rw [write_eq_writeAll _ hpos rfl rfl, hts]
  unfold writeAll
  split_ifs <;> rw [List.append_nil]

/-- What is known of the output where the call is. -/
def Follows (slice : Bytes) (deadline : ℕ) (c : Call) : Prop :=
  match c.place with
  | .check => c.bytes = slice
  | .enterSetter | .setter | .leaveSetter _ => c.bytes = slice ∧ 0 < deadline
  | .loop => 0 < deadline ∧ Played deadline slice (accepted c.log) c.bytes
  | .enterWrite | .write =>
    0 < deadline ∧ c.bytes ≠ [] ∧ Played deadline slice (accepted c.log) c.bytes
  | .leaveWrite result => 0 < deadline ∧ c.bytes ≠ [] ∧ ∃ acc,
      Played deadline slice acc c.bytes ∧ accepted c.log = acc ++ (match result with
        | .ok n => c.bytes.take n
        | .error _ => [])
  | .enterFlush | .flush | .leaveFlush _ =>
    0 < deadline ∧ c.bytes = [] ∧ Played deadline slice (accepted c.log) c.bytes
  | .returned result => Matched slice deadline (accepted c.log) result

/-- Before the first write nothing is accepted. -/
theorem Guarded.accepted_nil (h : Guarded slice deadline c) (hleft : left c = c.bytes)
    (hbytes : c.bytes = slice) : accepted c.log = [] := by
  have hsplit := h.split
  rw [hleft, hbytes] at hsplit
  exact List.append_left_eq_self.1 hsplit.symm

/-- A call returns what its output gives. -/
theorem follows_returned {act : Act} (hq : act.quiet = true) {result : Except IoError Unit}
    (h : Matched slice deadline (accepted c.log) result) :
    Follows slice deadline (c.did act (.returned result)) := by
  rw [Follows, accepted_did hq]
  exact h

theorem follows_check (hg : Guarded slice deadline c) (hplace : c.place = .check)
    (h : c.bytes = slice) : Follows slice deadline (c.checkDeadline deadline .enterSetter) := by
  have hnil := hg.accepted_nil (by rw [left, hplace]) h
  unfold Call.checkDeadline
  split
  · next hlate =>
    refine follows_returned rfl ⟨⟨c.now, true, .ok (), [], 0, true, .ok (), 0⟩, ?_⟩
    rw [hnil, FrameWriter.write, if_pos hlate]
  · next hnow => exact ⟨h, Nat.zero_lt_of_lt (Nat.lt_of_not_le hnow)⟩

theorem follows_enterSetter (hg : Guarded slice deadline c) (hplace : c.place = .enterSetter)
    (h : c.bytes = slice ∧ 0 < deadline) : Follows slice deadline (c.enter .setter) := by
  have hnil := hg.accepted_nil (by rw [left, hplace]) h.1
  unfold Call.enter
  split
  · exact h
  · refine follows_returned rfl ⟨⟨0, false, .ok (), [], 0, true, .ok (), 0⟩, ?_⟩
    rw [hnil, FrameWriter.write, if_neg (Nat.not_le.2 h.2), if_pos rfl]

theorem follows_loop (h : 0 < deadline ∧ Played deadline slice (accepted c.log) c.bytes) :
    Follows slice deadline
      (c.checkDeadline deadline (if c.bytes = [] then .enterFlush else .enterWrite)) := by
  obtain ⟨hpos, hplayed⟩ := h
  by_cases hbytes : c.bytes = []
  · rw [if_pos hbytes, Call.checkDeadline]
    split
    · next hlate =>
      rw [hbytes] at hplayed
      have hmatched := hplayed.flushes hpos c.now true (.ok ())
      rw [if_pos hlate] at hmatched
      exact follows_returned rfl hmatched
    · refine ⟨hpos, hbytes, ?_⟩
      rw [accepted_did rfl]
      exact hplayed
  · rw [if_neg hbytes, Call.checkDeadline]
    split
    · next hlate =>
      refine follows_returned rfl (hplayed.returns hpos ⟨c.now, true, .ok 0⟩ fun o => ?_)
      obtain ⟨b, bs, hcons⟩ := List.exists_cons_of_ne_nil hbytes
      rw [hcons, writeAll, if_pos hlate]
    · refine ⟨hpos, hbytes, ?_⟩
      rw [accepted_did rfl]
      exact hplayed

theorem follows_enterWrite (h : 0 < deadline ∧ c.bytes ≠ [] ∧
    Played deadline slice (accepted c.log) c.bytes) : Follows slice deadline (c.enter .write) := by
  obtain ⟨hpos, hbytes, hplayed⟩ := h
  unfold Call.enter
  split
  · refine ⟨hpos, hbytes, ?_⟩
    rw [accepted_did rfl]
    exact hplayed
  · refine follows_returned rfl (hplayed.returns hpos ⟨0, false, .ok 0⟩ fun o => ?_)
    obtain ⟨b, bs, hcons⟩ := List.exists_cons_of_ne_nil hbytes
    rw [hcons, writeAll, if_neg (Nat.not_le.2 hpos), if_pos rfl]

/-- The answer of a write, taken up. -/
theorem follows_leaveWrite {result : Except IoError ℕ} (hplace : c.place = .leaveWrite result)
    (h : Follows slice deadline c) (hstep : c.turn deadline = .next c') :
    Follows slice deadline c' := by
  rw [Follows, hplace] at h
  obtain ⟨hpos, hbytes, acc, hplayed, hacc⟩ := h
  obtain ⟨b, bs, hcons⟩ := List.exists_cons_of_ne_nil hbytes
  cases result with
  | ok n =>
    replace hacc : accepted c.log = acc ++ c.bytes.take n := hacc
    simp only [Call.turn, hplace] at hstep
    split at hstep
    · next hzero =>
      obtain rfl := Outcome.next.inj hstep
      refine follows_returned rfl ?_
      rw [hacc, hzero, List.take_zero, List.append_nil]
      refine hplayed.returns hpos ⟨0, true, .ok 0⟩ fun o => ?_
      rw [hcons, writeAll, if_neg (Nat.not_le.2 hpos), if_neg (by simp)]
      rfl
    · next hn =>
      split at hstep
      · cases hstep
      · obtain rfl := Outcome.next.inj hstep
        refine ⟨hpos, ?_⟩
        rw [accepted_did rfl]
        exact hacc ▸ hplayed.taken hpos hbytes hn
  | error error =>
    rw [List.append_nil] at hacc
    rw [← hacc] at hplayed
    simp only [Call.turn, hplace] at hstep
    split at hstep
    · obtain rfl := Outcome.next.inj hstep
      refine ⟨hpos, ?_⟩
      rw [accepted_did rfl]
      exact hplayed
    · next hkind =>
      obtain rfl := Outcome.next.inj hstep
      refine follows_returned rfl (hplayed.returns hpos ⟨0, true, .error error⟩ fun o => ?_)
      rw [hcons, writeAll, if_neg (Nat.not_le.2 hpos), if_neg (by simp)]
      exact if_neg hkind

theorem follows_turn (hg : Guarded slice deadline c) (h : Follows slice deadline c)
    (hstep : c.turn deadline = .next c') : Follows slice deadline c' := by
  cases hplace : c.place with
  | leaveWrite result => exact follows_leaveWrite hplace h hstep
  | check =>
    rw [Follows, hplace] at h
    simp only [Call.turn, hplace] at hstep
    obtain rfl := Outcome.next.inj hstep
    exact follows_check hg hplace h
  | enterSetter =>
    rw [Follows, hplace] at h
    simp only [Call.turn, hplace] at hstep
    obtain rfl := Outcome.next.inj hstep
    exact follows_enterSetter hg hplace h
  | leaveSetter result =>
    rw [Follows, hplace] at h
    simp only [Call.turn, hplace] at hstep
    have hnil := hg.accepted_nil (by rw [left, hplace]) h.1
    cases result with
    | ok _ =>
      obtain rfl := Outcome.next.inj hstep
      refine ⟨h.2, ?_⟩
      rw [accepted_did rfl, hnil]
      exact h.1 ▸ Played.start
    | error error =>
      obtain rfl := Outcome.next.inj hstep
      refine follows_returned rfl ⟨⟨0, true, .error error, [], 0, true, .ok (), 0⟩, ?_⟩
      rw [hnil, FrameWriter.write, if_neg (Nat.not_le.2 h.2), if_neg (by simp)]
  | loop =>
    rw [Follows, hplace] at h
    simp only [Call.turn, hplace] at hstep
    obtain rfl := Outcome.next.inj hstep
    exact follows_loop h
  | enterWrite =>
    rw [Follows, hplace] at h
    simp only [Call.turn, hplace] at hstep
    obtain rfl := Outcome.next.inj hstep
    exact follows_enterWrite h
  | enterFlush =>
    rw [Follows, hplace] at h
    simp only [Call.turn, hplace] at hstep
    obtain rfl := Outcome.next.inj hstep
    obtain ⟨hpos, hbytes, hplayed⟩ := h
    unfold Call.enter
    split
    · refine ⟨hpos, hbytes, ?_⟩
      rw [accepted_did rfl]
      exact hplayed
    · rw [hbytes] at hplayed
      have hmatched := hplayed.flushes hpos 0 false (.ok ())
      rw [if_neg (Nat.not_le.2 hpos), if_pos rfl] at hmatched
      exact follows_returned rfl hmatched
  | leaveFlush result =>
    rw [Follows, hplace] at h
    simp only [Call.turn, hplace] at hstep
    obtain rfl := Outcome.next.inj hstep
    obtain ⟨hpos, hbytes, hplayed⟩ := h
    rw [hbytes] at hplayed
    have hmatched := hplayed.flushes hpos 0 true result
    rw [if_neg (Nat.not_le.2 hpos), if_neg (by simp)] at hmatched
    exact follows_returned rfl hmatched
  | setter => simp only [Call.turn, hplace] at hstep; cases hstep
  | write => simp only [Call.turn, hplace] at hstep; cases hstep
  | flush => simp only [Call.turn, hplace] at hstep; cases hstep
  | returned result => simp only [Call.turn, hplace] at hstep; cases hstep

theorem follows_step (hg : Guarded slice deadline c) (h : Follows slice deadline c) {label : Label}
    (hstep : c.step deadline label = .next c') (htrue : Truthful c'.log) :
    Follows slice deadline c' := by
  cases label with
  | advance d => exact Outcome.next.inj hstep ▸ h
  | close => exact Outcome.next.inj hstep ▸ h
  | turn => exact follows_turn hg h hstep
  | setter result =>
    simp only [Call.step] at hstep
    split at hstep
    · next hplace =>
      obtain rfl := Outcome.next.inj hstep
      rw [Follows, hplace] at h
      exact h
    · cases hstep
  | write taken result =>
    simp only [Call.step] at hstep
    split at hstep
    · next hplace =>
      obtain rfl := Outcome.next.inj hstep
      rw [Follows, hplace] at h
      have hact := htrue _ (List.mem_append_right _ (List.mem_singleton_self _))
      refine ⟨h.1, h.2.1, accepted c.log, h.2.2, ?_⟩
      rw [Call.did, accepted_append,
        show accepted [⟨c.now, c.opened, .write c.bytes taken result⟩] = c.bytes.take taken from
          List.append_nil _]
      cases result with
      | ok n =>
        obtain ⟨-, rfl⟩ := hact
        rfl
      | error error =>
        rw [show taken = 0 from hact]
        rfl
    · cases hstep
  | flush result =>
    simp only [Call.step] at hstep
    split at hstep
    · next hplace =>
      obtain rfl := Outcome.next.inj hstep
      rw [Follows, hplace] at h
      refine ⟨h.1, h.2.1, ?_⟩
      rw [Call.did, accepted_append, show accepted [_] = [] from rfl, List.append_nil]
      exact h.2.2
    · cases hstep

/-- **The call refines `FrameWriter.write`**: what a call that returned had accepted, and its
result, are those of `FrameWriter.write` on some output. -/
theorem returned_write (h : (writeHalf slice deadline now opened).Reachable c)
    (htrue : Truthful c.log) {result : Except IoError Unit} (hplace : c.place = .returned result) :
    ∃ o, FrameWriter.write deadline o slice = (accepted c.log, some result) := by
  have hfollows : Follows slice deadline c := by
    revert htrue
    refine (h.invariant (I := fun c => Truthful c.log →
      Guarded slice deadline c ∧ Follows slice deadline c) ?_ ?_ · |>.2)
    · intro _
      exact ⟨⟨rfl, Legal.nil, rfl⟩, rfl⟩
    · intro c label c' _ hi hstep htrue
      obtain ⟨later, hlog⟩ := step_log hstep
      obtain ⟨hg, hf⟩ := hi (Truthful.of_append (hlog ▸ htrue))
      exact ⟨hg.step hstep htrue, follows_step hg hf hstep htrue⟩
  rw [Follows, hplace] at hfollows
  exact hfollows

/-! ### The call keeps its deadline and its order -/

/-- After a flush nothing is written. -/
theorem no_write_after_flush (h : Legal (Allowed slice deadline) c.log) {pre post : List Event}
    {e : Event} (hsplit : c.log = pre ++ e :: post) (he : isFlush e = true) :
    ∀ e' ∈ post, isWrite e' = false := by
  intro e' he'
  obtain ⟨mid, later, -, hrule⟩ := h.after hsplit he'
  rw [Allowed] at hrule
  rw [isWrite]
  split
  · next hact =>
    rw [hact] at hrule
    have hnone := hrule.2.2 e (List.mem_append_right _ List.mem_cons_self)
    rw [he] at hnone
    cases hnone
  · rfl

/-- **One write under one deadline.** With an adapter that reports what it takes, whatever it takes
and however the clock advances and the stream closes: the adapter takes a prefix of the slice, and
all of it before a successful flush if the call succeeds; the setter and the flush are called at
most once, and every adapter call was allowed. -/
theorem write_guarded (slice : Bytes) (deadline now : ℕ) (opened : Bool) (c : Call)
    (h : (writeHalf slice deadline now opened).Reachable c) (htrue : Truthful c.log) :
    accepted c.log <+: slice ∧
      (c.place = .returned (.ok ()) → accepted c.log = slice ∧ ∃ pre e post,
        c.log = pre ++ e :: post ∧ e.act = .flush (.ok ()) ∧ accepted pre = slice ∧
          ∀ e' ∈ post, isWrite e' = false) ∧
      c.log.countP isFlush ≤ 1 ∧ c.log.countP isSetter ≤ 1 ∧
      Legal (Allowed slice deadline) c.log ∧
      ∀ label panic, c.step deadline label ≠ .panic panic := by
  have hc := Guarded.reachable h htrue
  refine ⟨⟨left c, hc.split.symm⟩, fun hplace => ?_, ?_, ?_, hc.allowed, hc.ne_panic⟩
  · have hstands := hc.stands
    rw [Stands, hplace] at hstands
    obtain ⟨hbytes, e, he, hact⟩ := hstands rfl
    have hall : accepted c.log = slice := by
      have hsplit := hc.split
      rw [left, hplace] at hsplit
      rw [hsplit, show c.bytes = [] from hbytes, List.append_nil]
    obtain ⟨pre, post, hlog, hrule⟩ := hc.allowed.of_mem he
    rw [Allowed, hact] at hrule
    refine ⟨hall, pre, e, post, hlog, hact, hrule.2.1, ?_⟩
    exact no_write_after_flush hc.allowed hlog (by rw [isFlush, hact])
  · refine hc.allowed.countP_le_one fun pre e hrule he => ?_
    rw [Allowed] at hrule
    rw [isFlush] at he
    split at he
    · next hact =>
      rw [hact] at hrule
      exact hrule.2.2
    · cases he
  · refine hc.allowed.countP_le_one fun pre e hrule he e' he' => ?_
    rw [Allowed] at hrule
    rw [isSetter] at he
    split at he
    · next hact =>
      rw [hact] at hrule
      exact (hrule.2.2 e' he').1
    · cases he

/-- Two bytes: an interruption, one byte, the other late in the budget, and a flush that succeeds
although the stream closes meanwhile. -/
def twoBytes : List Label :=
  [.turn, .turn, .setter (.ok ()), .turn,
    .turn, .turn, .write 0 (.error ⟨.interrupted, "interrupted"⟩), .turn,
    .turn, .turn, .write 1 (.ok 1), .turn,
    .advance 4, .turn, .turn, .write 1 (.ok 1), .turn,
    .turn, .turn, .close, .flush (.ok ()), .turn]

theorem write_guarded_twoBytes : ∃ c, (writeHalf [1, 2] 5 0 true).run twoBytes
      (writeHalf [1, 2] 5 0 true).init = some c ∧ c.place = .returned (.ok ()) ∧
    accepted c.log = [1, 2] ∧ c.log.countP isWrite = 3 := by
  refine ⟨_, rfl, rfl, ?_, rfl⟩
  have hreach := Machine.reachable_of_run
    (show (writeHalf [1, 2] 5 0 true).run twoBytes (writeHalf [1, 2] 5 0 true).init = _ from rfl)
  exact ((write_guarded [1, 2] 5 0 true _ hreach (by decide)).2.1 rfl).1

end ArkWire.Transport.WriteHalf
