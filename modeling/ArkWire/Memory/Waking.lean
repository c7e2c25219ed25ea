import ArkWire.Memory.Streams
import ArkWire.Lib.Monitors

/-! # The condition variable of an in-memory stream

`changed` is the one condition variable of a pipe: the reader waits on it for bytes, the writer for
room, each at most until its deadline. A call that moves bytes notifies after it has released the
lock, and so does a close of either end.

`stream` is the pipe of `Streams` with these waits. -/

namespace ArkWire.Memory.Waking

open ArkWire.Lib.Machines ArkWire.Lib.Monitors
open ArkWire.Memory.Streams

/-! ### Waits and notifications -/

inductive Waiter where
  | reader
  | writer
  deriving DecidableEq

/-- The half whose thread makes the call. A close comes from any thread. -/
def waiter : Action → Option Waiter
  | .read _ _ => some .reader
  | .reads _ => some .reader
  | .setReadDeadline _ => some .reader
  | .write _ => some .writer
  | .writes => some .writer
  | .flush => some .writer
  | .setWriteDeadline _ => some .writer
  | _ => none

/-- A turn of a read has taken bytes. -/
def takes (p : Pipe) (len wrap : ℕ) : Bool :=
  match p.state.read p.readDeadline p.now len wrap with
  | .done (.ok bytes) _ => bytes ≠ []
  | _ => false

/-- A turn of a write has added bytes. -/
def adds (capacity : ℕ) (p : Pipe) (buf : Bytes) : Bool :=
  match p.state.write capacity p.writeDeadline p.now buf with
  | .done (.ok n) _ => 0 < n
  | _ => false

/-- Whether a `notify_all` follows. -/
def notifies (capacity : ℕ) (p : Pipe) : Action → Bool
  | .read len wrap => takes p len wrap
  | .reads wrap => p.reading.any fun len => takes p len wrap
  | .write buf => adds capacity p buf
  | .writes => p.writing.any fun buf => adds capacity p buf
  | .closeReader => true
  | .closeWriter => true
  | _ => false

/-- A turn of a read ends in `wait`, with the deadline it waits for. -/
def readParks (p : Pipe) (len wrap : ℕ) : Option (Option ℕ) :=
  match p.state.read p.readDeadline p.now len wrap with
  | .wait => some p.readDeadline
  | _ => none

/-- A turn of a write ends in `wait`. -/
def writeParks (capacity : ℕ) (p : Pipe) (buf : Bytes) : Option (Option ℕ) :=
  match p.state.write capacity p.writeDeadline p.now buf with
  | .wait => some p.writeDeadline
  | _ => none

def parks (capacity : ℕ) (p : Pipe) : Action → Option (Option ℕ)
  | .read len wrap => readParks p len wrap
  | .reads wrap => p.reading.bind fun len => readParks p len wrap
  | .write buf => writeParks capacity p buf
  | .writes => p.writing.bind fun buf => writeParks capacity p buf
  | _ => none

/-- **A pipe and its condition variable.** -/
def stream (capacity : ℕ) : Monitor Pipe Action Panic Waiter (Option ℕ) where
  init := {}
  step := Pipe.step capacity
  waiter := waiter
  notifies := notifies capacity
  parks := parks capacity

/-- A half may sleep until the deadline `timer`: its call can neither move a byte nor end. -/
def Sleeps (capacity : ℕ) (p : Pipe) : Waiter → Option ℕ → Prop
  | .reader, timer => p.state.readerOpen = true ∧ p.state.writerOpen = true ∧ p.state.bytes = [] ∧
      timer = p.readDeadline ∧ ∃ len, p.reading = some len ∧ 0 < len
  | .writer, timer => p.state.readerOpen = true ∧ p.state.writerOpen = true ∧
      p.state.bytes.length = capacity ∧ timer = p.writeDeadline ∧
      ∃ buf, p.writing = some buf ∧ buf ≠ []

variable {capacity : ℕ} {p p' : Pipe}

/-! ### Where a half parks -/

/-- A read waits only for bytes that can still come. -/
theorem read_waits {deadline : Option ℕ} {now len wrap : ℕ} {s : State}
    (h : s.read deadline now len wrap = .wait) :
    0 < len ∧ s.readerOpen = true ∧ s.writerOpen = true ∧ s.bytes = [] := by
  unfold State.read at h
  split at h
  · cases h
  next hidle =>
  rw [not_or, Bool.not_eq_false] at hidle
  split at h
  · dsimp only at h
    split at h <;> cases h
  next hbytes =>
  split at h
  · cases h
  next hopen =>
  rw [Bool.not_eq_false] at hopen
  exact ⟨Nat.pos_of_ne_zero hidle.1, hidle.2, hopen, not_not.1 hbytes⟩

/-- A write waits only for room that can still come. -/
theorem write_waits {deadline : Option ℕ} {now : ℕ} {buf : Bytes} {s : State}
    (h : s.write capacity deadline now buf = .wait) :
    buf ≠ [] ∧ s.readerOpen = true ∧ s.writerOpen = true ∧ s.bytes.length = capacity := by
  unfold State.write at h
  split at h
  · cases h
  split at h
  · cases h
  next hempty =>
  split at h
  · cases h
  next hclosed =>
  rw [not_or, Bool.not_eq_false, Bool.not_eq_false] at hclosed
  split at h
  · cases h
  next hover =>
  dsimp only at h
  split at h
  · cases h
  next hcount =>
  have hpos : 0 < buf.length := List.length_pos_of_ne_nil hempty
  refine ⟨hempty, hclosed.1, hclosed.2, ?_⟩
  omega

theorem readTurn_parks {len wrap : ℕ} {timer : Option ℕ} (h : p.readTurn len wrap = .next p')
    (hp : readParks p len wrap = some timer) : Sleeps capacity p' .reader timer := by
  unfold readParks at hp
  split at hp
  swap
  · cases hp
  next hturn =>
  cases hp
  unfold Pipe.readTurn at h
  rw [hturn] at h
  obtain rfl := Outcome.next.inj h
  obtain ⟨hlen, hreader, hwriter, hbytes⟩ := read_waits hturn
  exact ⟨hreader, hwriter, hbytes, rfl, len, rfl, hlen⟩

theorem writeTurn_parks {buf : Bytes} {timer : Option ℕ} (h : p.writeTurn capacity buf = .next p')
    (hp : writeParks capacity p buf = some timer) : Sleeps capacity p' .writer timer := by
  unfold writeParks at hp
  split at hp
  swap
  · cases hp
  next hturn =>
  cases hp
  unfold Pipe.writeTurn at h
  rw [hturn] at h
  obtain rfl := Outcome.next.inj h
  obtain ⟨hne, hreader, hwriter, hfull⟩ := write_waits hturn
  exact ⟨hreader, hwriter, hfull, rfl, buf, rfl, hne⟩

/-- **A half parks only where it may sleep.** -/
theorem sleeps_parks {a : Action} {w : Waiter} {timer : Option ℕ}
    (h : p.step capacity a = .next p') (hw : waiter a = some w)
    (hp : parks capacity p a = some timer) : Sleeps capacity p' w timer := by
  cases a with
  | read len wrap =>
    cases hw
    simp only [Pipe.step] at h
    split_ifs at h
    exact readTurn_parks h hp
  | reads wrap =>
    cases hw
    simp only [Pipe.step] at h
    simp only [parks] at hp
    cases hreading : p.reading with
    | none =>
      rw [hreading] at hp
      cases hp
    | some len =>
      rw [hreading] at h hp
      exact readTurn_parks h hp
  | write buf =>
    cases hw
    simp only [Pipe.step] at h
    split_ifs at h
    exact writeTurn_parks h hp
  | writes =>
    cases hw
    simp only [Pipe.step] at h
    simp only [parks] at hp
    cases hwriting : p.writing with
    | none =>
      rw [hwriting] at hp
      cases hp
    | some buf =>
      rw [hwriting] at h hp
      exact writeTurn_parks h hp
  | _ => cases hp

/-! ### Sections without a notification -/

/-- A turn of a read that takes no byte leaves the writer as it was. -/
theorem readTurn_silent {len wrap : ℕ} (h : p.readTurn len wrap = .next p')
    (hn : takes p len wrap = false) :
    p'.state = p.state ∧ p'.writing = p.writing ∧ p'.writeDeadline = p.writeDeadline := by
  unfold Pipe.readTurn at h
  unfold takes at hn
  split at h
  · obtain rfl := Outcome.next.inj h
    exact ⟨rfl, rfl, rfl⟩
  · next result state hturn =>
    obtain rfl := Outcome.next.inj h
    refine ⟨?_, rfl, rfl⟩
    dsimp only [Pipe.logged]
    rw [hturn] at hn
    unfold State.read at hturn
    split at hturn
    · cases hturn
      rfl
    next hidle =>
    split at hturn
    · next hbytes =>
      -- bytes were taken, so a notification follows
      exfalso
      rw [not_or] at hidle
      have hlen : 0 < p.state.bytes.length := List.length_pos_of_ne_nil hbytes
      dsimp only at hturn
      split at hturn
      · cases hturn
      · cases hturn
        rw [(take_parts p.state.bytes (min len p.state.bytes.length) wrap (min_le_right _ _)).1,
          decide_eq_false_iff_not, not_not, List.take_eq_nil_iff] at hn
        have hpos : 0 < min len p.state.bytes.length := by omega
        rcases hn with hzero | hnil
        · omega
        · exact hbytes hnil
    · split_ifs at hturn <;> cases hturn <;> rfl
  · cases h

/-- A turn of a write that adds no byte leaves the reader as it was. -/
theorem writeTurn_silent {buf : Bytes} (h : p.writeTurn capacity buf = .next p')
    (hn : adds capacity p buf = false) :
    p'.state = p.state ∧ p'.reading = p.reading ∧ p'.readDeadline = p.readDeadline := by
  unfold Pipe.writeTurn at h
  unfold adds at hn
  split at h
  · obtain rfl := Outcome.next.inj h
    exact ⟨rfl, rfl, rfl⟩
  · next result state hturn =>
    obtain rfl := Outcome.next.inj h
    refine ⟨?_, rfl, rfl⟩
    dsimp only [Pipe.logged]
    rw [hturn] at hn
    unfold State.write at hturn
    dsimp only at hturn
    split_ifs at hturn with hlate hempty hclosed hover hcount
    · cases hturn
      rfl
    · cases hturn
      rfl
    · cases hturn
      rfl
    · -- bytes were added, so a notification follows
      cases hturn
      exact absurd hcount (of_decide_eq_false hn)
  · cases h

/-- **A step of another thread that owes no notification leaves a sleeper as it is.** -/
theorem sleeps_silent {a : Action} {w : Waiter} {timer : Option ℕ}
    (h : p.step capacity a = .next p') (hw : waiter a ≠ some w)
    (hn : notifies capacity p a = false) (hs : Sleeps capacity p w timer) :
    Sleeps capacity p' w timer := by
  cases w with
  | reader =>
    suffices hkeep : p'.state = p.state ∧ p'.reading = p.reading ∧
        p'.readDeadline = p.readDeadline by
      unfold Sleeps
      rw [hkeep.1, hkeep.2.1, hkeep.2.2]
      exact hs
    cases a with
    | read => exact absurd rfl hw
    | reads => exact absurd rfl hw
    | setReadDeadline => exact absurd rfl hw
    | write buf =>
      simp only [Pipe.step] at h
      split_ifs at h
      exact writeTurn_silent h hn
    | writes =>
      simp only [Pipe.step] at h
      simp only [notifies] at hn
      cases hwriting : p.writing with
      | none =>
        rw [hwriting] at h
        cases h
      | some buf =>
        rw [hwriting] at h hn
        exact writeTurn_silent h hn
    | flush =>
      simp only [Pipe.step] at h
      split_ifs at h
      obtain rfl := Outcome.next.inj h
      exact ⟨rfl, rfl, rfl⟩
    | setWriteDeadline =>
      simp only [Pipe.step] at h
      split_ifs at h
      obtain rfl := Outcome.next.inj h
      exact ⟨rfl, rfl, rfl⟩
    | advance =>
      obtain rfl := Outcome.next.inj h
      exact ⟨rfl, rfl, rfl⟩
    | closeReader => cases hn
    | closeWriter => cases hn
  | writer =>
    suffices hkeep : p'.state = p.state ∧ p'.writing = p.writing ∧
        p'.writeDeadline = p.writeDeadline by
      unfold Sleeps
      rw [hkeep.1, hkeep.2.1, hkeep.2.2]
      exact hs
    cases a with
    | write => exact absurd rfl hw
    | writes => exact absurd rfl hw
    | flush => exact absurd rfl hw
    | setWriteDeadline => exact absurd rfl hw
    | read len wrap =>
      simp only [Pipe.step] at h
      split_ifs at h
      exact readTurn_silent h hn
    | reads wrap =>
      simp only [Pipe.step] at h
      simp only [notifies] at hn
      cases hreading : p.reading with
      | none =>
        rw [hreading] at h
        cases h
      | some len =>
        rw [hreading] at h hn
        exact readTurn_silent h hn
    | setReadDeadline =>
      simp only [Pipe.step] at h
      split_ifs at h
      obtain rfl := Outcome.next.inj h
      exact ⟨rfl, rfl, rfl⟩
    | advance =>
      obtain rfl := Outcome.next.inj h
      exact ⟨rfl, rfl, rfl⟩
    | closeReader => cases hn
    | closeWriter => cases hn

/-! ### The result -/

/-- **No lost wakeup, and no deadlock.** While no `notify_all` is owed, a parked reader has an empty
buffer and a parked writer a full one, both ends are open, and each sleeps no longer than to the
deadline of its call. So the two halves of a pipe never sleep at once. -/
theorem pipe_wakes (hcap : 0 < capacity) {x : Watched Pipe Waiter (Option ℕ)}
    (h : (stream capacity).machine.Reachable x) (howed : x.owed = 0) :
    (∀ w timer, x.sleep w = .parked timer → Sleeps capacity x.state w timer) ∧
    ∀ timer timer', ¬ (x.sleep .reader = .parked timer ∧ x.sleep .writer = .parked timer') := by
  have hsleeps : ∀ w timer, x.sleep w = .parked timer → Sleeps capacity x.state w timer := by
    intro w timer hw
    refine (stream capacity).no_lost_wakeup_others (I := fun _ => True)
      (P := fun w timer p => Sleeps capacity p w timer) trivial (fun _ _ _ _ _ => trivial) ?_ ?_
      h howed hw
    · intro s a s' w timer _ hstep hactor hparks _
      exact sleeps_parks hstep hactor hparks
    · intro s a s' w timer _ hstep hactor hn hs
      exact sleeps_silent hstep hactor hn hs
  refine ⟨hsleeps, ?_⟩
  rintro timer timer' ⟨hreader, hwriter⟩
  obtain ⟨-, -, hempty, -⟩ := hsleeps _ _ hreader
  obtain ⟨-, -, hfull, -⟩ := hsleeps _ _ hwriter
  rw [hempty, List.length_nil] at hfull
  omega

/-- The reader has slept and is woken for two bytes; the writer then sleeps on a full pipe. -/
theorem pipe_wakes_fullPipe :
    ∃ x : Watched Pipe Waiter (Option ℕ), (stream 2).machine.Reachable x ∧ x.owed = 0 ∧
      x.sleep .writer = .parked (some 9) ∧ x.sleep .reader = .notified ∧
      Sleeps 2 x.state .writer (some 9) := by
  have hrun : ∃ x, (stream 2).machine.run
      [.act (.setWriteDeadline 9), .act (.read 4 0), .act (.write [1, 2, 3]), .notify,
        .act (.write [3])] (stream 2).machine.init = some x ∧ x.owed = 0 ∧
      x.sleep .writer = .parked (some 9) ∧ x.sleep .reader = .notified := ⟨_, rfl, rfl, rfl, rfl⟩
  obtain ⟨x, hx, howed, hw, hr⟩ := hrun
  have hreach := Machine.reachable_of_run hx
  exact ⟨x, hreach, howed, hw, hr, (pipe_wakes (by decide) hreach howed).1 _ _ hw⟩

end ArkWire.Memory.Waking
