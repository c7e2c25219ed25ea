import ArkWire.Lib.Histories
import ArkWire.Lib.Machines

/-! # The in-memory streams

`Pipe` is one direction of a `Duplex`: a bounded buffer between one `Reader` and one `Writer`. A
call of `read` or `write` holds the pipe's lock but for its waits, so a step is one turn of its
loop; a call that waits goes on when it is woken, which may be at any time. Closing either end is a
step of any thread.

`VecDeque::as_slices` cuts the buffer where its storage wraps; where that is does not follow from
the contents, so it is an input of every read. `log` is ghost: the calls that returned, in order. -/

namespace ArkWire.Memory.Streams

open ArkWire.Lib.Machines ArkWire.Lib.Histories

abbrev Bytes := List UInt8

/-- The `io::ErrorKind`s of a pipe. -/
inductive ErrorKind where
  | timedOut
  | brokenPipe
  deriving DecidableEq, Repr

/-- `State`. -/
structure State where
  bytes : Bytes := []
  readerOpen : Bool := true
  writerOpen : Bool := true
  lost : Bool := false
  deriving DecidableEq, Repr

/-- An index out of range, or a subtraction below zero. -/
inductive Panic where
  | index
  | underflow
  deriving DecidableEq, Repr

/-- One turn of the loop of a call: it waits, or returns and may have changed the state. -/
inductive Turn (α : Type) where
  | wait
  | done (result : Except ErrorKind α) (s : State)
  | panic (p : Panic)

/-- `check_deadline`. -/
def expired (deadline : Option ℕ) (now : ℕ) : Bool :=
  match deadline with
  | none => false
  | some deadline => deadline ≤ now

namespace State

/-- One turn of `Reader::read` with a buffer of `len` bytes, where the storage wraps after `wrap`
bytes. -/
def read (deadline : Option ℕ) (now len wrap : ℕ) (s : State) : Turn Bytes :=
  if len = 0 ∨ s.readerOpen = false then .done (.ok []) s
  else if s.bytes ≠ [] then
    let count := min len s.bytes.length
    let front := s.bytes.take wrap
    let back := s.bytes.drop wrap
    let split := min count front.length
    if back.length < count - split then .panic .index
    else .done (.ok (front.take split ++ back.take (count - split)))
      { s with bytes := s.bytes.drop count }
  else if s.writerOpen = false then .done (.ok []) s
  else if expired deadline now then .done (.error .timedOut) s
  else .wait

/-- One turn of `Writer::write`. -/
def write (capacity : ℕ) (deadline : Option ℕ) (now : ℕ) (buf : Bytes) (s : State) : Turn ℕ :=
  if expired deadline now then .done (.error .timedOut) s
  else if buf = [] then .done (.ok 0) s
  else if s.readerOpen = false ∨ s.writerOpen = false then .done (.error .brokenPipe) s
  else if capacity < s.bytes.length then .panic .underflow
  else
    let count := min buf.length (capacity - s.bytes.length)
    if 0 < count then .done (.ok count) { s with bytes := s.bytes ++ buf.take count }
    else .wait

/-- `Writer::flush`. -/
def flush (deadline : Option ℕ) (now : ℕ) (s : State) : Except ErrorKind Unit :=
  if expired deadline now then .error .timedOut
  else if s.writerOpen = false ∨ s.lost = true then .error .brokenPipe
  else .ok ()

/-- `close_reader`. -/
def closeReader (s : State) : State :=
  { s with readerOpen := false, lost := s.lost || decide (s.bytes ≠ []), bytes := [] }

/-- `close_writer`. -/
def closeWriter (s : State) : State := { s with writerOpen := false }

end State

/-- What returned. -/
inductive Event where
  | read (len : ℕ) (result : Except ErrorKind Bytes)
  | write (buf : Bytes) (result : Except ErrorKind ℕ)
  | flush (result : Except ErrorKind Unit)
  | closeReader
  | closeWriter

/-- A pipe with its two ends. `reading` and `writing` are calls that wait. -/
structure Pipe where
  state : State := {}
  now : ℕ := 0
  readDeadline : Option ℕ := none
  writeDeadline : Option ℕ := none
  reading : Option ℕ := none
  writing : Option Bytes := none
  log : List Event := []

/-- A reader and a writer have one call at a time; a call that waits goes on with `reads` or
`writes`. -/
inductive Action where
  | read (len wrap : ℕ)
  | reads (wrap : ℕ)
  | write (buf : Bytes)
  | writes
  | flush
  | setReadDeadline (deadline : Option ℕ)
  | setWriteDeadline (deadline : ℕ)
  | advance (d : ℕ)
  | closeReader
  | closeWriter

namespace Pipe

def logged (p : Pipe) (e : Event) : Pipe := { p with log := p.log ++ [e] }

/-- A turn of a read. -/
def readTurn (p : Pipe) (len wrap : ℕ) : Outcome Panic Pipe :=
  match p.state.read p.readDeadline p.now len wrap with
  | .wait => .next { p with reading := some len }
  | .done result state => .next ({ p with state, reading := none }.logged (.read len result))
  | .panic panic => .panic panic

/-- A turn of a write. -/
def writeTurn (capacity : ℕ) (p : Pipe) (buf : Bytes) : Outcome Panic Pipe :=
  match p.state.write capacity p.writeDeadline p.now buf with
  | .wait => .next { p with writing := some buf }
  | .done result state => .next ({ p with state, writing := none }.logged (.write buf result))
  | .panic panic => .panic panic

def step (capacity : ℕ) (p : Pipe) : Action → Outcome Panic Pipe
  | .read len wrap => if p.reading = none then p.readTurn len wrap else .blocked
  | .reads wrap =>
    match p.reading with
    | some len => p.readTurn len wrap
    | none => .blocked
  | .write buf => if p.writing = none then p.writeTurn capacity buf else .blocked
  | .writes =>
    match p.writing with
    | some buf => p.writeTurn capacity buf
    | none => .blocked
  | .flush =>
    if p.writing = none then .next (p.logged (.flush (p.state.flush p.writeDeadline p.now)))
    else .blocked
  | .setReadDeadline deadline =>
    if p.reading = none then .next { p with readDeadline := deadline } else .blocked
  | .setWriteDeadline deadline =>
    if p.writing = none then .next { p with writeDeadline := some deadline } else .blocked
  | .advance d => .next { p with now := p.now + d }
  | .closeReader => .next ({ p with state := p.state.closeReader }.logged .closeReader)
  | .closeWriter => .next ({ p with state := p.state.closeWriter }.logged .closeWriter)

end Pipe

/-- **A pipe of some capacity**, with its calls and closes in any order. -/
def pipe (capacity : ℕ) : Machine Pipe Action Panic where
  init := {}
  step := Pipe.step capacity

/-! ### What was accepted and what was read -/

/-- The bytes all writes accepted. -/
def accepted (log : List Event) : Bytes :=
  log.flatMap fun e =>
    match e with
    | .write buf (.ok n) => buf.take n
    | _ => []

/-- The bytes all reads returned. -/
def delivered (log : List Event) : Bytes :=
  log.flatMap fun e =>
    match e with
    | .read _ (.ok bytes) => bytes
    | _ => []

@[simp] theorem accepted_append (log : List Event) (e : Event) :
    accepted (log ++ [e]) = accepted log ++ accepted [e] := by
  rw [accepted, List.flatMap_append]
  rfl

@[simp] theorem delivered_append (log : List Event) (e : Event) :
    delivered (log ++ [e]) = delivered log ++ delivered [e] := by
  rw [delivered, List.flatMap_append]
  rfl

/-- The reader was closed while accepted bytes were unread. -/
def Discarded (log : List Event) : Prop :=
  ∃ pre post, log = pre ++ .closeReader :: post ∧ delivered pre ≠ accepted pre

theorem discarded_append (log : List Event) (e : Event) : Discarded (log ++ [e]) ↔
    Discarded log ∨ e = .closeReader ∧ delivered log ≠ accepted log := by
  constructor
  · rintro ⟨pre, post, hsplit, hne⟩
    rcases List.eq_nil_or_concat post with rfl | ⟨post', last, rfl⟩
    · obtain ⟨rfl, hlast⟩ := List.append_inj' hsplit rfl
      rw [List.cons.injEq] at hlast
      exact .inr ⟨hlast.1, hne⟩
    · refine .inl ⟨pre, post', ?_, hne⟩
      have hlen : log ++ [e] = (pre ++ .closeReader :: post') ++ [last] := by simpa using hsplit
      exact (List.append_inj' hlen rfl).1
  · rintro (⟨pre, post, rfl, hne⟩ | ⟨rfl, hne⟩)
    · exact ⟨pre, post ++ [e], by simp, hne⟩
    · exact ⟨log, [], rfl, hne⟩

/-! ### What a step can do -/

variable {capacity : ℕ} {p p' : Pipe}

/-- A call that returned and changed nothing. -/
def Idle (p : Pipe) : Event → Prop
  | .read len (.ok bytes) => bytes = [] ∧ (len = 0 ∨ p.state.readerOpen = false ∨
      p.state.bytes = [] ∧ p.state.writerOpen = false)
  | .write _ (.ok n) => n = 0
  | .closeReader => False
  | .closeWriter => False
  | _ => True

theorem Idle.accepted {e : Event} (h : Idle p e) : accepted [e] = [] := by
  cases e with
  | write buf result =>
    cases result with
    | ok n => simp [Streams.accepted, show n = 0 from h]
    | error e => rfl
  | _ => rfl

theorem Idle.delivered {e : Event} (h : Idle p e) : delivered [e] = [] := by
  cases e with
  | read len result =>
    cases result with
    | ok bytes => simp [Streams.delivered, h.1]
    | error e => rfl
  | _ => rfl

/-- **What a step can do.** -/
inductive Step (capacity : ℕ) (p p' : Pipe) : Prop
  | still : p'.state = p.state → p'.log = p.log → Step capacity p p'
  | idle {e : Event} : p'.state = p.state → p'.log = p.log ++ [e] → Idle p e → Step capacity p p'
  | read {len : ℕ} : 0 < len → p.state.readerOpen = true → p.state.bytes ≠ [] →
      p'.state = { p.state with bytes := p.state.bytes.drop (min len p.state.bytes.length) } →
      p'.log = p.log ++ [.read len (.ok (p.state.bytes.take (min len p.state.bytes.length)))] →
      Step capacity p p'
  | write {buf : Bytes} {n : ℕ} : p.state.readerOpen = true → 0 < n →
      n ≤ buf.length → n ≤ capacity - p.state.bytes.length →
      p'.state = { p.state with bytes := p.state.bytes ++ buf.take n } →
      p'.log = p.log ++ [.write buf (.ok n)] → Step capacity p p'
  | closeReader : p'.state = p.state.closeReader → p'.log = p.log ++ [.closeReader] →
      Step capacity p p'
  | closeWriter : p'.state = p.state.closeWriter → p'.log = p.log ++ [.closeWriter] →
      Step capacity p p'

/-- Copying both parts of the storage is copying the front of the buffer. -/
theorem take_parts (bytes : Bytes) (count wrap : ℕ) (hc : count ≤ bytes.length) :
    (bytes.take wrap).take (min count (bytes.take wrap).length) ++
        (bytes.drop wrap).take (count - min count (bytes.take wrap).length) = bytes.take count ∧
      count - min count (bytes.take wrap).length ≤ (bytes.drop wrap).length := by
  have hparts : (bytes.take wrap ++ bytes.drop wrap).take count = bytes.take count := by
    rw [List.take_append_drop]
  rw [List.take_append] at hparts
  have hfront : (bytes.take wrap).take (min count (bytes.take wrap).length) =
      (bytes.take wrap).take count := by
    rcases Nat.le_total count (bytes.take wrap).length with hle | hle
    · rw [min_eq_left hle]
    · rw [min_eq_right hle, List.take_length, List.take_of_length_le hle]
  have hback : count - min count (bytes.take wrap).length = count - (bytes.take wrap).length := by
    omega
  refine ⟨?_, ?_⟩
  · rw [hfront, hback]
    exact hparts
  · rw [hback, List.length_take, List.length_drop]
    omega

/-- A read that finds bytes takes them from the front, wherever the storage wraps. -/
theorem readTurn_bytes {len : ℕ} (wrap : ℕ) (hlen : 0 < len) (hopen : p.state.readerOpen = true)
    (hbytes : p.state.bytes ≠ []) : ∃ p', p.readTurn len wrap = .next p' ∧ p'.reading = none ∧
      p'.state = { p.state with bytes := p.state.bytes.drop (min len p.state.bytes.length) } ∧
      p'.log = p.log ++ [.read len (.ok (p.state.bytes.take (min len p.state.bytes.length)))] := by
  obtain ⟨hcopy, hin⟩ := take_parts p.state.bytes (min len p.state.bytes.length) wrap
    (min_le_right _ _)
  have hidle : ¬ (len = 0 ∨ p.state.readerOpen = false) := by
    rw [hopen]
    simp [hlen.ne']
  unfold Pipe.readTurn State.read
  simp only [if_neg hidle, if_pos hbytes, hcopy, if_neg (Nat.not_lt.2 hin)]
  exact ⟨_, rfl, rfl, rfl, rfl⟩

theorem readTurn_cases {len wrap : ℕ} (h : p.readTurn len wrap = .next p') :
    Step capacity p p' := by
  by_cases hidle : len = 0 ∨ p.state.readerOpen = false
  · rw [Pipe.readTurn, State.read, if_pos hidle] at h
    obtain rfl := Outcome.next.inj h
    exact .idle rfl rfl ⟨rfl, hidle.imp_right .inl⟩
  obtain ⟨hlen, hopen⟩ : 0 < len ∧ p.state.readerOpen = true := by
    rw [not_or, Bool.not_eq_false] at hidle
    exact ⟨Nat.pos_of_ne_zero hidle.1, hidle.2⟩
  by_cases hbytes : p.state.bytes ≠ []
  · obtain ⟨p₁, hturn, -, hs, hl⟩ := readTurn_bytes wrap hlen hopen hbytes
    obtain rfl := Outcome.next.inj (h.symm.trans hturn)
    exact .read hlen hopen hbytes hs hl
  rw [Pipe.readTurn, State.read, if_neg hidle, if_neg hbytes] at h
  by_cases hclosed : p.state.writerOpen = false
  · rw [if_pos hclosed] at h
    obtain rfl := Outcome.next.inj h
    exact .idle rfl rfl ⟨rfl, .inr (.inr ⟨not_not.1 hbytes, hclosed⟩)⟩
  rw [if_neg hclosed] at h
  split at h
  · next hturn =>
    obtain rfl := Outcome.next.inj h
    exact .still rfl rfl
  · next result state hturn =>
    split at hturn
    · cases hturn
      obtain rfl := Outcome.next.inj h
      exact .idle rfl rfl trivial
    · cases hturn
  · cases h

theorem writeTurn_cases {buf : Bytes} (h : p.writeTurn capacity buf = .next p') :
    Step capacity p p' := by
  unfold Pipe.writeTurn State.write at h
  by_cases hlate : expired p.writeDeadline p.now
  · rw [if_pos hlate] at h
    obtain rfl := Outcome.next.inj h
    exact .idle rfl rfl trivial
  rw [if_neg hlate] at h
  by_cases hempty : buf = []
  · rw [if_pos hempty] at h
    obtain rfl := Outcome.next.inj h
    exact .idle rfl rfl rfl
  rw [if_neg hempty] at h
  by_cases hclosed : p.state.readerOpen = false ∨ p.state.writerOpen = false
  · rw [if_pos hclosed] at h
    obtain rfl := Outcome.next.inj h
    exact .idle rfl rfl trivial
  rw [if_neg hclosed] at h
  rw [not_or] at hclosed
  by_cases hover : capacity < p.state.bytes.length
  · rw [if_pos hover] at h
    cases h
  rw [if_neg hover] at h
  by_cases hcount : 0 < min buf.length (capacity - p.state.bytes.length)
  · simp only [if_pos hcount] at h
    obtain rfl := Outcome.next.inj h
    exact .write (by simpa using hclosed.1) hcount (min_le_left _ _) (min_le_right _ _) rfl rfl
  · simp only [if_neg hcount] at h
    obtain rfl := Outcome.next.inj h
    exact .still rfl rfl

theorem step_cases {a : Action} (h : p.step capacity a = .next p') : Step capacity p p' := by
  cases a with
  | read len wrap =>
    simp only [Pipe.step] at h
    split at h
    · exact readTurn_cases h
    · cases h
  | reads wrap =>
    simp only [Pipe.step] at h
    split at h
    · exact readTurn_cases h
    · cases h
  | write buf =>
    simp only [Pipe.step] at h
    split at h
    · exact writeTurn_cases h
    · cases h
  | writes =>
    simp only [Pipe.step] at h
    split at h
    · exact writeTurn_cases h
    · cases h
  | flush =>
    simp only [Pipe.step] at h
    split at h
    · obtain rfl := Outcome.next.inj h
      exact .idle rfl rfl trivial
    · cases h
  | setReadDeadline deadline =>
    simp only [Pipe.step] at h
    split at h
    · obtain rfl := Outcome.next.inj h
      exact .still rfl rfl
    · cases h
  | setWriteDeadline deadline =>
    simp only [Pipe.step] at h
    split at h
    · obtain rfl := Outcome.next.inj h
      exact .still rfl rfl
    · cases h
  | advance d =>
    obtain rfl := Outcome.next.inj h
    exact .still rfl rfl
  | closeReader =>
    obtain rfl := Outcome.next.inj h
    exact .closeReader rfl rfl
  | closeWriter =>
    obtain rfl := Outcome.next.inj h
    exact .closeWriter rfl rfl

/-! ### The pipe loses nothing while its reader is open -/

/-- When a read and a write may return what they return: a read that has room returns nothing only
after the end, and a write accepts part of what it was given. -/
def Allowed (log : List Event) : Event → Prop
  | .read len (.ok bytes) => bytes.length ≤ len ∧ (0 < len → bytes = [] →
      .closeReader ∈ log ∨ .closeWriter ∈ log ∧ delivered log = accepted log)
  | .write buf (.ok n) => n ≤ buf.length
  | _ => True

/-- **A bounded lossless queue**, with what it lost. -/
structure Lossless (capacity : ℕ) (p : Pipe) : Prop where
  bounded : p.state.bytes.length ≤ capacity
  readerClosed : p.state.readerOpen = false ↔ .closeReader ∈ p.log
  writerClosed : p.state.writerOpen = false ↔ .closeWriter ∈ p.log
  buffered : p.state.readerOpen = true → accepted p.log = delivered p.log ++ p.state.bytes
  emptied : p.state.readerOpen = false → p.state.bytes = []
  ordered : delivered p.log <+: accepted p.log
  exact : p.state.lost = true ↔ Discarded p.log
  missing : p.state.lost = true ↔
    p.state.readerOpen = false ∧ delivered p.log ≠ accepted p.log
  allowed : Legal Allowed p.log

namespace Lossless

theorem init : Lossless capacity {} where
  bounded := Nat.zero_le _
  readerClosed := by simp
  writerClosed := by simp
  buffered _ := rfl
  emptied _ := rfl
  ordered := List.prefix_rfl
  exact := by
    constructor
    · intro h
      cases h
    · rintro ⟨pre, post, hsplit, -⟩
      simp at hsplit
  missing := by simp
  allowed := Legal.nil

/-- What is unread is what is buffered. -/
theorem unread (h : Lossless capacity p) (hopen : p.state.readerOpen = true) :
    delivered p.log ≠ accepted p.log ↔ p.state.bytes ≠ [] := by
  rw [h.buffered hopen, Ne, List.self_eq_append_right]

theorem still (h : Lossless capacity p) (hs : p'.state = p.state) (hl : p'.log = p.log) :
    Lossless capacity p' := by
  constructor <;> simp only [hs, hl]
  exacts [h.bounded, h.readerClosed, h.writerClosed, h.buffered, h.emptied, h.ordered, h.exact,
    h.missing, h.allowed]

theorem idle (h : Lossless capacity p) {e : Event} (hs : p'.state = p.state)
    (hl : p'.log = p.log ++ [e]) (he : Idle p e) : Lossless capacity p' := by
  have hacc : accepted p'.log = accepted p.log := by
    rw [hl, accepted_append, he.accepted, List.append_nil]
  have hdel : delivered p'.log = delivered p.log := by
    rw [hl, delivered_append, he.delivered, List.append_nil]
  have hreader : Event.closeReader ∈ p'.log ↔ Event.closeReader ∈ p.log := by
    rw [hl, List.mem_append, List.mem_singleton]
    refine or_iff_left ?_
    rintro rfl
    exact he
  have hwriter : Event.closeWriter ∈ p'.log ↔ Event.closeWriter ∈ p.log := by
    rw [hl, List.mem_append, List.mem_singleton]
    refine or_iff_left ?_
    rintro rfl
    exact he
  have hdiscard : Discarded p'.log ↔ Discarded p.log := by
    rw [hl, discarded_append]
    refine or_iff_left ?_
    rintro ⟨rfl, -⟩
    exact he
  have hlegal : Legal Allowed p'.log := by
    rw [hl]
    refine h.allowed.append ?_
    cases e with
    | read len result =>
      cases result with
      | ok bytes =>
        obtain ⟨rfl, hend⟩ := he
        refine ⟨Nat.zero_le _, fun hlen _ => ?_⟩
        rcases hend with rfl | hclosed | ⟨hbytes, hclosed⟩
        · cases hlen
        · exact .inl (h.readerClosed.1 hclosed)
        · cases hopen : p.state.readerOpen with
          | false => exact .inl (h.readerClosed.1 hopen)
          | true =>
            refine .inr ⟨h.writerClosed.1 hclosed, ?_⟩
            by_contra hne
            exact (h.unread hopen).1 hne hbytes
      | error e => trivial
    | write buf result =>
      cases result with
      | ok n => exact (show n = 0 from he) ▸ Nat.zero_le _
      | error e => trivial
    | _ => trivial
  refine ⟨?_, ?_, ?_, ?_, ?_, ?_, ?_, ?_, hlegal⟩ <;>
    simp only [hs, hacc, hdel, hreader, hwriter, hdiscard]
  exacts [h.bounded, h.readerClosed, h.writerClosed, h.buffered, h.emptied, h.ordered, h.exact,
    h.missing]

/-- A call that moved bytes while the reader was open. -/
theorem moved (h : Lossless capacity p) (hopen : p.state.readerOpen = true) {bytes : Bytes}
    (hs : p'.state = { p.state with bytes }) {e : Event} (hl : p'.log = p.log ++ [e])
    (hreader : e ≠ .closeReader) (hwriter : e ≠ .closeWriter) (he : Allowed p.log e)
    (hbound : bytes.length ≤ capacity) (hkept : accepted p'.log = delivered p'.log ++ bytes) :
    Lossless capacity p' := by
  have hnotlost : p.state.lost = false := by
    by_contra hlost
    have hclosed := (h.missing.1 (by simpa using hlost)).1
    rw [hopen] at hclosed
    cases hclosed
  constructor
  · rw [hs]
    exact hbound
  · rw [hs, hl, List.mem_append, List.mem_singleton, or_iff_left hreader.symm]
    exact h.readerClosed
  · rw [hs, hl, List.mem_append, List.mem_singleton, or_iff_left hwriter.symm]
    exact h.writerClosed
  · intro _
    rw [hs]
    exact hkept
  · intro hclosed
    rw [hs] at hclosed
    simp [hopen] at hclosed
  · exact ⟨_, hkept.symm⟩
  · rw [hs, hl, discarded_append, or_iff_left fun hclose => hreader hclose.1]
    exact h.exact
  · simp [hs, hopen, hnotlost]
  · rw [hl]
    exact h.allowed.append he

theorem read (h : Lossless capacity p) {len : ℕ} (hopen : p.state.readerOpen = true)
    (hbytes : p.state.bytes ≠ [])
    (hs : p'.state = { p.state with bytes := p.state.bytes.drop (min len p.state.bytes.length) })
    (hl : p'.log =
      p.log ++ [.read len (.ok (p.state.bytes.take (min len p.state.bytes.length)))]) :
    Lossless capacity p' := by
  refine h.moved hopen hs hl nofun nofun ⟨?_, fun hlen hnil => ?_⟩ ?_ ?_
  · rw [List.length_take]
    omega
  · have hpos := List.length_pos_of_ne_nil hbytes
    have hzero := congrArg List.length hnil
    rw [List.length_take, List.length_nil] at hzero
    omega
  · rw [List.length_drop]
    exact (Nat.sub_le _ _).trans h.bounded
  · have hacc : accepted p'.log = accepted p.log := by
      rw [hl, accepted_append]
      exact List.append_nil _
    have hdel : delivered p'.log =
        delivered p.log ++ p.state.bytes.take (min len p.state.bytes.length) := by
      rw [hl, delivered_append]
      simp [delivered]
    rw [hacc, hdel, List.append_assoc, List.take_append_drop]
    exact h.buffered hopen

theorem write (h : Lossless capacity p) {buf : Bytes} {n : ℕ}
    (hopen : p.state.readerOpen = true) (hn : n ≤ buf.length)
    (hroom : n ≤ capacity - p.state.bytes.length)
    (hs : p'.state = { p.state with bytes := p.state.bytes ++ buf.take n })
    (hl : p'.log = p.log ++ [.write buf (.ok n)]) : Lossless capacity p' := by
  refine h.moved hopen hs hl nofun nofun hn ?_ ?_
  · rw [List.length_append, List.length_take]
    have hbound := h.bounded
    omega
  · have hacc : accepted p'.log = accepted p.log ++ buf.take n := by
      rw [hl, accepted_append]
      simp [accepted]
    have hdel : delivered p'.log = delivered p.log := by
      rw [hl, delivered_append]
      exact List.append_nil _
    rw [hacc, hdel, ← List.append_assoc, ← h.buffered hopen]

/-- Closing twice keeps what the first close found. -/
theorem closeReader (h : Lossless capacity p) (hs : p'.state = p.state.closeReader)
    (hl : p'.log = p.log ++ [.closeReader]) : Lossless capacity p' := by
  have hacc : accepted p'.log = accepted p.log := by
    rw [hl, accepted_append]
    exact List.append_nil _
  have hdel : delivered p'.log = delivered p.log := by
    rw [hl, delivered_append]
    exact List.append_nil _
  have hlost : p'.state.lost = true ↔ delivered p.log ≠ accepted p.log := by
    rw [hs, State.closeReader, Bool.or_eq_true, decide_eq_true_iff]
    cases hopen : p.state.readerOpen with
    | true =>
      rw [← h.unread hopen, h.missing, hopen]
      simp
    | false =>
      rw [h.missing, h.emptied hopen, hopen]
      simp
  have hdiscard : Discarded p'.log ↔ delivered p.log ≠ accepted p.log := by
    rw [hl, discarded_append, ← h.exact, h.missing]
    simp only [true_and, or_iff_right_iff_imp]
    exact fun hmissing => hmissing.2
  constructor
  · rw [hs]
    exact Nat.zero_le _
  · simp [hs, hl, State.closeReader]
  · rw [hs, hl, List.mem_append]
    simpa [State.closeReader] using h.writerClosed
  · intro hopen
    rw [hs] at hopen
    cases hopen
  · intro _
    rw [hs]
    rfl
  · rw [hacc, hdel]
    exact h.ordered
  · rw [hlost, hdiscard]
  · rw [hlost, hacc, hdel, hs]
    simp [State.closeReader]
  · rw [hl]
    exact h.allowed.append trivial

theorem closeWriter (h : Lossless capacity p) (hs : p'.state = p.state.closeWriter)
    (hl : p'.log = p.log ++ [.closeWriter]) : Lossless capacity p' := by
  have hacc : accepted p'.log = accepted p.log := by
    rw [hl, accepted_append]
    exact List.append_nil _
  have hdel : delivered p'.log = delivered p.log := by
    rw [hl, delivered_append]
    exact List.append_nil _
  have hdiscard : Discarded p'.log ↔ Discarded p.log := by
    rw [hl, discarded_append]
    exact or_iff_left nofun
  have hreader : Event.closeReader ∈ p'.log ↔ Event.closeReader ∈ p.log := by
    simp [hl]
  refine ⟨?_, ?_, by simp [hs, hl, State.closeWriter], ?_, ?_, ?_, ?_, ?_, ?_⟩
  · rw [hs]
    exact h.bounded
  · rw [hs, hreader]
    exact h.readerClosed
  · rw [hs, hacc, hdel]
    exact h.buffered
  · rw [hs]
    exact h.emptied
  · rw [hacc, hdel]
    exact h.ordered
  · rw [hs, hdiscard]
    exact h.exact
  · rw [hs, hacc, hdel]
    exact h.missing
  · rw [hl]
    exact h.allowed.append trivial

theorem step (h : Lossless capacity p) (hstep : Step capacity p p') : Lossless capacity p' := by
  cases hstep with
  | still hs hl => exact h.still hs hl
  | idle hs hl he => exact h.idle hs hl he
  | read _ hopen hbytes hs hl => exact h.read hopen hbytes hs hl
  | write hopen _ hn hroom hs hl => exact h.write hopen hn hroom hs hl
  | closeReader hs hl => exact h.closeReader hs hl
  | closeWriter hs hl => exact h.closeWriter hs hl

theorem reachable (h : (pipe capacity).Reachable p) : Lossless capacity p := by
  refine h.invariant init ?_
  intro s a s' _ hi hstep
  exact hi.step (step_cases hstep)

end Lossless

/-! ### No call panics -/

theorem readTurn_ne_panic {len wrap : ℕ} {panic : Panic} : p.readTurn len wrap ≠ .panic panic := by
  unfold Pipe.readTurn
  split
  · exact nofun
  · exact nofun
  · next hturn =>
    unfold State.read at hturn
    have hin := (take_parts p.state.bytes (min len p.state.bytes.length) wrap
      (min_le_right _ _)).2
    simp only [if_neg (Nat.not_lt.2 hin)] at hturn
    split_ifs at hturn

/-- The subtraction from the capacity does not underflow. -/
theorem writeTurn_ne_panic (h : p.state.bytes.length ≤ capacity) {buf : Bytes} {panic : Panic} :
    p.writeTurn capacity buf ≠ .panic panic := by
  unfold Pipe.writeTurn
  split
  · exact nofun
  · exact nofun
  · next hturn =>
    unfold State.write at hturn
    simp only [if_neg (Nat.not_lt.2 h)] at hturn
    split_ifs at hturn

theorem step_ne_panic (h : p.state.bytes.length ≤ capacity) (a : Action) (panic : Panic) :
    p.step capacity a ≠ .panic panic := by
  cases a with
  | read len wrap =>
    simp only [Pipe.step]
    split
    · exact readTurn_ne_panic
    · exact nofun
  | reads wrap =>
    simp only [Pipe.step]
    split
    · exact readTurn_ne_panic
    · exact nofun
  | write buf =>
    simp only [Pipe.step]
    split
    · exact writeTurn_ne_panic h
    · exact nofun
  | writes =>
    simp only [Pipe.step]
    split
    · exact writeTurn_ne_panic h
    · exact nofun
  | advance d => exact nofun
  | closeReader => exact nofun
  | closeWriter => exact nofun
  | _ =>
    simp only [Pipe.step]
    split
    · exact nofun
    · exact nofun

/-- A write that fails leaves the pipe as it was. -/
theorem step_failed {a : Action} (h : p.step capacity a = .next p') {buf : Bytes} {e : ErrorKind}
    (hl : p'.log = p.log ++ [.write buf (.error e)]) : p'.state = p.state := by
  cases step_cases h with
  | still hs _ => exact hs
  | idle hs _ _ => exact hs
  | read _ _ _ _ hl' => simp [hl] at hl'
  | write _ _ _ _ _ hl' => simp [hl] at hl'
  | closeReader _ hl' => simp [hl] at hl'
  | closeWriter _ hl' => simp [hl] at hl'

/-! ### What a flush says -/

/-- Some accepted byte is not read, in any way the run can go on. -/
def Stranded (capacity : ℕ) (p : Pipe) : Prop :=
  ∃ i < (accepted p.log).length,
    ∀ as p', (pipe capacity).run as p = some p' → (delivered p'.log).length ≤ i

/-- With the reader closed no byte is read any more. -/
structure Ended (bytes : Bytes) (p : Pipe) : Prop where
  closed : p.state.readerOpen = false
  delivered : delivered p.log = bytes

theorem Ended.step {bytes : Bytes} (h : Ended bytes p) (hstep : Step capacity p p') :
    Ended bytes p' := by
  cases hstep with
  | still hs hl => exact ⟨by rw [hs]; exact h.closed, by rw [hl]; exact h.delivered⟩
  | idle hs hl he =>
    refine ⟨by rw [hs]; exact h.closed, ?_⟩
    rw [hl, delivered_append, h.delivered, he.delivered, List.append_nil]
  | read _ hopen => simp [h.closed] at hopen
  | write hopen => simp [h.closed] at hopen
  | closeReader hs hl =>
    refine ⟨by rw [hs]; rfl, ?_⟩
    rw [hl, delivered_append, h.delivered]
    exact List.append_nil _
  | closeWriter hs hl =>
    refine ⟨by rw [hs]; exact h.closed, ?_⟩
    rw [hl, delivered_append, h.delivered]
    exact List.append_nil _

/-- Only a read with room waits. -/
def Waits (p : Pipe) : Prop := ∀ len, p.reading = some len → 0 < len

theorem readTurn_waits {len wrap : ℕ} (h : p.readTurn len wrap = .next p') : Waits p' := by
  unfold Pipe.readTurn at h
  split at h
  · next hturn =>
    obtain rfl := Outcome.next.inj h
    rintro _ ⟨⟩
    refine Nat.pos_of_ne_zero fun hzero => ?_
    rw [State.read, if_pos (.inl hzero)] at hturn
    cases hturn
  · obtain rfl := Outcome.next.inj h
    exact nofun
  · cases h

theorem writeTurn_reading {buf : Bytes} (h : p.writeTurn capacity buf = .next p') :
    p'.reading = p.reading := by
  unfold Pipe.writeTurn at h
  split at h
  · exact (Outcome.next.inj h) ▸ rfl
  · exact (Outcome.next.inj h) ▸ rfl
  · cases h

theorem step_waits (hp : Waits p) {a : Action} (h : p.step capacity a = .next p') : Waits p' := by
  cases a with
  | read len wrap =>
    simp only [Pipe.step] at h
    split at h
    · exact readTurn_waits h
    · cases h
  | reads wrap =>
    simp only [Pipe.step] at h
    split at h
    · exact readTurn_waits h
    · cases h
  | write buf =>
    simp only [Pipe.step] at h
    split at h
    · rw [Waits, writeTurn_reading h]
      exact hp
    · cases h
  | writes =>
    simp only [Pipe.step] at h
    split at h
    · rw [Waits, writeTurn_reading h]
      exact hp
    · cases h
  | advance d => exact (Outcome.next.inj h) ▸ hp
  | closeReader => exact (Outcome.next.inj h) ▸ hp
  | closeWriter => exact (Outcome.next.inj h) ▸ hp
  | _ =>
    simp only [Pipe.step] at h
    split at h
    · exact (Outcome.next.inj h) ▸ hp
    · cases h

theorem waits_reachable (h : (pipe capacity).Reachable p) : Waits p := by
  refine h.invariant nofun ?_
  intro s a s' _ hi hstep
  exact step_waits hi hstep

/-- One call reads all that the buffer holds. -/
theorem run_drains_idle (hidle : p.reading = none) (hopen : p.state.readerOpen = true) :
    ∃ as p', (pipe capacity).run as p = some p' ∧
      delivered p'.log = delivered p.log ++ p.state.bytes := by
  by_cases hbytes : p.state.bytes = []
  · exact ⟨[], p, rfl, by rw [hbytes, List.append_nil]⟩
  · obtain ⟨p', hturn, -, -, hl⟩ :=
      readTurn_bytes 0 (List.length_pos_of_ne_nil hbytes) hopen hbytes
    refine ⟨[.read p.state.bytes.length 0], p', ?_, ?_⟩
    · simp only [Machine.run, pipe, Pipe.step, if_pos hidle, hturn]
    · rw [hl, delivered_append, min_self, List.take_length]
      simp [delivered]

/-- A call that waits takes its part first. -/
theorem run_drains (hwait : Waits p) (hopen : p.state.readerOpen = true) :
    ∃ as p', (pipe capacity).run as p = some p' ∧
      delivered p'.log = delivered p.log ++ p.state.bytes := by
  cases hreading : p.reading with
  | none => exact run_drains_idle hreading hopen
  | some len =>
    by_cases hbytes : p.state.bytes = []
    · exact ⟨[], p, rfl, by rw [hbytes, List.append_nil]⟩
    obtain ⟨p₁, hturn, hidle, hs, hl⟩ := readTurn_bytes 0 (hwait len hreading) hopen hbytes
    have hopen₁ : p₁.state.readerOpen = true := by
      rw [hs]
      exact hopen
    obtain ⟨as, p', hrun, hdel⟩ := run_drains_idle hidle hopen₁
    refine ⟨.reads 0 :: as, p', ?_, ?_⟩
    · simp only [Machine.run, pipe, Pipe.step, hreading, hturn]
      exact hrun
    · rw [hdel, hl, hs, delivered_append, List.append_assoc]
      simp [delivered]

/-- **A byte is stranded just when the reader closed on it.** -/
theorem stranded_iff (h : Lossless capacity p) (hwait : Waits p) :
    Stranded capacity p ↔ p.state.lost = true := by
  constructor
  · rintro ⟨i, hi, hnever⟩
    rw [h.missing]
    cases hopen : p.state.readerOpen with
    | true =>
      obtain ⟨as, p', hrun, hdel⟩ := run_drains hwait hopen
      have hread := hnever as p' hrun
      rw [hdel, ← h.buffered hopen] at hread
      omega
    | false =>
      refine ⟨rfl, fun hall => ?_⟩
      have hread := hnever [] p rfl
      rw [hall] at hread
      omega
  · intro hlost
    obtain ⟨hclosed, hne⟩ := h.missing.1 hlost
    refine ⟨(delivered p.log).length, ?_, fun as p' hrun => ?_⟩
    · refine lt_of_le_of_ne h.ordered.length_le fun hlen => hne ?_
      exact h.ordered.eq_of_length hlen
    · have hended : Ended (delivered p.log) p' :=
        Machine.run_invariant (fun _ _ _ hi hstep => hi.step (step_cases hstep))
          ⟨hclosed, rfl⟩ hrun
      rw [hended.delivered]

/-- A flush before local closure and within its deadline fails if and only if something is lost. -/
theorem flush_fails_iff (hlate : expired p.writeDeadline p.now = false)
    (hopen : p.state.writerOpen = true) :
    (∃ e, p.state.flush p.writeDeadline p.now = .error e) ↔ p.state.lost = true := by
  unfold State.flush
  cases p.state.lost <;> simp [hlate, hopen]

/-- **The pipe is a bounded lossless queue with exact loss reporting.** Whatever the order of calls,
closes and clock, no call panics, a write that fails accepts nothing, and a flush within its
deadline and before local closure fails just when some accepted byte can never be read. -/
theorem pipe_lossless (capacity : ℕ) (p : Pipe) (h : (pipe capacity).Reachable p) :
    Lossless capacity p ∧
      (∀ a panic, p.step capacity a ≠ .panic panic) ∧
      (∀ a p' buf e, p.step capacity a = .next p' →
        p'.log = p.log ++ [.write buf (.error e)] → p'.state = p.state) ∧
      (expired p.writeDeadline p.now = false → p.state.writerOpen = true →
        ((∃ e, p.state.flush p.writeDeadline p.now = .error e) ↔ Stranded capacity p)) := by
  have hpipe := Lossless.reachable h
  refine ⟨hpipe, step_ne_panic hpipe.bounded, fun a p' buf e hstep hl => step_failed hstep hl, ?_⟩
  intro hlate hopen
  rw [flush_fails_iff hlate hopen, stranded_iff hpipe (waits_reachable h)]

/-- Four bytes into a pipe of three, two of them read around the wrap, then the reader closes
twice: the flush fails. -/
def closesEarly : List Action :=
  [.setWriteDeadline 5, .write [1, 2, 3, 4], .read 2 1, .closeReader, .advance 4, .closeReader]

theorem pipe_lossless_closesEarly : ∃ p, (pipe 3).run closesEarly (pipe 3).init = some p ∧
    accepted p.log = [1, 2, 3] ∧ delivered p.log = [1, 2] ∧ Stranded 3 p := by
  refine ⟨_, rfl, rfl, rfl, ?_⟩
  have hreach := Machine.reachable_of_run (show (pipe 3).run closesEarly (pipe 3).init = _ from rfl)
  exact ((pipe_lossless 3 _ hreach).2.2.2 rfl rfl).1 ⟨.brokenPipe, rfl⟩

end ArkWire.Memory.Streams
