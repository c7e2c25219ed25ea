import ArkWire.Lib.Delimited
import ArkWire.Transport.Errors

/-! # The frame reader

`FrameReader` cuts the byte stream of an adapter into frames at zero bytes. It keeps the bytes it
has received in one buffer with room for the longest frame and its delimiter: `offset` is where the
next frame starts, `search` how far it was searched for a delimiter, `filled` where the received
bytes end, and `discard` says that the frame was already reported as too large.

A call of `next_packet` is a run of turns, one for each turn of the loop of `next_frame` and of the
loop of `ReadHalf::read`; a `Turn` holds what the environment answers there. The adapter is modelled
by the bytes it has not delivered yet (`supply`): a read hands over as many of them as it likes, up
to the buffer offered. `offers` is ghost and lists the lengths of the buffers offered.

`max` is `MAX_FRAME_SIZE`, and `decode` the COBS decoder. -/

namespace ArkWire.Transport.FrameReader

open ArkWire.Lib.Delimited
open ArkWire.Transport.Errors

abbrev Bytes := List UInt8

/-- The bytes `a..b` of a buffer. -/
def slice (bytes : Bytes) (a b : ℕ) : Bytes := (bytes.take b).drop a

/-- `memchr::memchr(0, bytes)`. -/
def memchr (bytes : Bytes) : Option ℕ := bytes.findIdx? (· = 0)

/-- The error of `check_deadline`. -/
def deadlineExpired : IoError := ⟨.timedOut, "I/O deadline expired"⟩

/-- What the environment answers in one turn of a loop: the clock, the admission of `Closer::enter`,
the adapter's deadline setter, and how many bytes its read hands over. -/
structure Turn where
  now : ℕ
  admitted : Bool
  setter : Except IoError Unit
  read : Except IoError ℕ

/-- `FrameReader`, with the bytes its adapter has yet to deliver. -/
structure Reader where
  buffer : Bytes
  filled : ℕ := 0
  offset : ℕ := 0
  search : ℕ := 0
  discard : Bool := false
  supply : Bytes
  offers : List ℕ := []

/-- `FrameReader::new`. -/
def Reader.new (max : ℕ) (supply : Bytes) : Reader :=
  { buffer := List.replicate (max + 1) 0, supply }

/-- Which loop a call is in: that of `next_frame`, or that of `ReadHalf::read` below it. -/
inductive Phase where
  | search
  | read
  deriving DecidableEq

/-- How a turn ends: the call goes on, or returns. -/
inductive Next where
  | more (phase : Phase) (r : Reader)
  | done (result : Except TransportError (ℕ × ℕ)) (r : Reader)

/-- `check_deadline` where there is a deadline. -/
def expired (deadline : Option ℕ) (now : ℕ) : Bool :=
  match deadline with
  | none => false
  | some deadline => deadline ≤ now

namespace Reader

/-- `copy_within(offset..filled, 0)` and the indices after it. -/
def compact (r : Reader) : Reader :=
  let used := r.filled - r.offset
  { r with
    buffer := slice r.buffer r.offset r.filled ++ r.buffer.drop used
    filled := used
    offset := 0
    search := used }

/-- One turn of the loop of `next_frame`. -/
def searchTurn (max : ℕ) (deadline : Option ℕ) (t : Turn) (r : Reader) : Next :=
  if expired deadline t.now then .done (.error (.recvFailed deadlineExpired)) r
  else
    match memchr (slice r.buffer r.search r.filled) with
    | some found =>
      let frame := (r.offset, r.search + found)
      let r := { r with offset := frame.2 + 1, search := frame.2 + 1 }
      -- the oversized frame was already reported
      if r.discard then .more .search { r with discard := false }
      else .done (.ok frame) r
    | none =>
      let r := { r with search := r.filled }
      let r :=
        if r.discard = false then if 0 < r.offset then r.compact else r
        else { r with filled := 0, offset := 0, search := 0 }
      if r.filled = max + 1 then
        .done (.error (.frameTooLarge (max + 1)))
          { r with discard := true, filled := 0, offset := 0, search := 0 }
      else .more .read r

/-- One turn of the loop of `ReadHalf::read`. -/
def readTurn (deadline : Option ℕ) (t : Turn) (r : Reader) : Next :=
  if expired deadline t.now then .done (.error (.recvFailed deadlineExpired)) r
  else if t.admitted = false then .done (.error .terminated) r
  else
    match t.setter with
    | .error error => .done (.error (.recvFailed error)) r
    | .ok _ =>
      let offered := r.buffer.length - r.filled
      let r := { r with offers := r.offers ++ [offered] }
      match t.read with
      | .error error =>
        if error.kind = .timedOut ∨ error.kind = .interrupted then .more .read r
        else .done (.error (.recvFailed error)) r
      | .ok n =>
        let bytes := r.supply.take (min n offered)
        if bytes = [] then .done (.error .terminated) r
        else .more .search { r with
          buffer := r.buffer.take r.filled ++ bytes ++ r.buffer.drop (r.filled + bytes.length)
          filled := r.filled + bytes.length
          supply := r.supply.drop bytes.length }

def turn (max : ℕ) (deadline : Option ℕ) (t : Turn) (r : Reader) : Phase → Next
  | .search => r.searchTurn max deadline t
  | .read => r.readTurn deadline t

/-- `next_frame`, over the turns it takes. It has not returned if they are too few. -/
def nextFrame (max : ℕ) (deadline : Option ℕ) :
    List Turn → Phase → Reader → Reader × Option (Except TransportError (ℕ × ℕ))
  | [], _, r => (r, none)
  | t :: ts, phase, r =>
    match r.turn max deadline t phase with
    | .more phase r => nextFrame max deadline ts phase r
    | .done result r => (r, some result)

/-- What `next_packet` makes of a frame. -/
def packet (decode : Bytes → Except String Bytes) (r : Reader) :
    Except TransportError (ℕ × ℕ) → Except TransportError (Option Bytes)
  | .error error => .error error
  | .ok (start, stop) =>
    if start = stop then .ok none
    else
      match decode (slice r.buffer start stop) with
      | .ok packet => .ok (some packet)
      | .error reason => .error (.frameDecodingFailed reason)

/-- A call of `next_packet`. -/
def nextPacket (max : ℕ) (decode : Bytes → Except String Bytes) (deadline : Option ℕ)
    (ts : List Turn) (r : Reader) : Reader × Option (Except TransportError (Option Bytes)) :=
  match nextFrame max deadline ts .search r with
  | (r, none) => (r, none)
  | (r, some result) => (r, some (r.packet decode result))

end Reader

/-- The deadline of a call and the turns it gets. -/
structure Call where
  deadline : Option ℕ
  turns : List Turn

/-- Successive calls of `next_packet` and their results, up to the first call that does not
return. -/
def Reader.calls (max : ℕ) (decode : Bytes → Except String Bytes) :
    List Call → Reader → Reader × List (Except TransportError (Option Bytes))
  | [], r => (r, [])
  | c :: cs, r =>
    match r.nextPacket max decode c.deadline c.turns with
    | (r, none) => (r, [])
    | (r, some result) => ((calls max decode cs r).1, result :: (calls max decode cs r).2)

/-! ### Slices -/

theorem slice_append {l : Bytes} {a b c : ℕ} (hab : a ≤ b) (hbc : b ≤ c) (hc : c ≤ l.length) :
    slice l a c = slice l a b ++ slice l b c := by
  have hx : b ≤ (l.take c).length := by rw [List.length_take]; omega
  have ht : l.take b = (l.take c).take b := by rw [List.take_take, min_eq_left hbc]
  rw [slice, slice, slice, ht]
  conv_lhs => rw [← List.take_append_drop b (l.take c)]
  rw [List.drop_append_of_le_length (by rw [List.length_take]; omega)]

theorem length_slice {l : Bytes} {a b : ℕ} (hb : b ≤ l.length) : (slice l a b).length = b - a := by
  rw [slice, List.length_drop, List.length_take, min_eq_left hb]

@[simp] theorem slice_self (l : Bytes) (a : ℕ) : slice l a a = [] := by
  rw [slice, List.drop_eq_nil_iff, List.length_take]
  exact min_le_left _ _

theorem memchr_eq_none {l : Bytes} (h : memchr l = none) : 0 ∉ l := by
  rw [memchr, List.findIdx?_eq_none_iff] at h
  intro h0
  simpa using h 0 h0

/-- The first zero. -/
theorem memchr_eq_some {l : Bytes} {i : ℕ} (h : memchr l = some i) :
    ∃ q, l = l.take i ++ 0 :: q ∧ (l.take i).length = i ∧ 0 ∉ l.take i := by
  rw [memchr, List.findIdx?_eq_some_iff_getElem] at h
  obtain ⟨hi, hz, hlt⟩ := h
  refine ⟨l.drop (i + 1), ?_, ?_, ?_⟩
  · have hz' : l[i] = 0 := by simpa using hz
    conv_lhs => rw [← List.take_append_drop i l, List.drop_eq_getElem_cons hi, hz']
  · rw [List.length_take]; omega
  · intro h0
    obtain ⟨j, hj, hje⟩ := List.getElem_of_mem h0
    rw [List.length_take] at hj
    have hjl := hlt j (by omega)
    rw [List.getElem_take] at hje
    simp [hje] at hjl

end ArkWire.Transport.FrameReader
