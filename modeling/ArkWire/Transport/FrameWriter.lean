import ArkWire.Lib.Cobs
import ArkWire.Transport.FrameReader

/-! # The frame writer

`FrameWriter` encodes packets into one buffer whose index zero stays reserved for a recovery
delimiter, and hands the frame to `WriteHalf::write`, which passes it to the adapter piece by piece
and flushes it. A send that fails may leave any part of its frame on the stream; `resync` makes the
next one start with the delimiter.

An `Output` holds what the environment answers during one send: the clock before every adapter call,
the admissions of `Closer::enter` and the results of the adapter. `accepted` is ghost: the bytes the
adapter ever accepted. -/

namespace ArkWire.Transport.FrameWriter

open ArkWire.Transport.Errors ArkWire.Transport.FrameReader

/-- The COBS codec: `cobs::encode_buffer`, `cobs::encode` and `cobs::decode_nonzero`. -/
structure Cobs where
  encodeBuffer : ℕ → ℕ
  encode : Bytes → Bytes
  decode : Bytes → Except String Bytes

/-- What the transport relies on. -/
structure Cobs.Lawful (cobs : Cobs) : Prop where
  length_encode : ∀ p, (cobs.encode p).length ≤ cobs.encodeBuffer p.length
  encode_ne_nil : ∀ p, cobs.encode p ≠ []
  encode_nonzero : ∀ p, 0 ∉ cobs.encode p
  decode_encode : ∀ p, cobs.decode (cobs.encode p) = .ok p

/-- The codec as published. -/
def Cobs.standard : Cobs := ⟨Lib.Cobs.encodeBuffer, Lib.Cobs.encode, Lib.Cobs.decodeNonzero⟩

theorem Cobs.standard_lawful : Cobs.standard.Lawful :=
  ⟨Lib.Cobs.length_encode, Lib.Cobs.encode_ne_nil, Lib.Cobs.encode_nonzero,
    Lib.Cobs.decode_encode⟩

/-- The error of an adapter call that `Closer::enter` refuses. -/
def streamClosed : IoError := ⟨.notConnected, "stream closed"⟩

/-- The error of a write that accepts nothing. -/
def writeZero : IoError := ⟨.writeZero, "write zero"⟩

/-- What the environment answers in one turn of the loop of `WriteHalf::write`. -/
structure WriteTurn where
  now : ℕ
  admitted : Bool
  write : Except IoError ℕ

/-- What the environment answers during one send. -/
structure Output where
  now : ℕ
  admitted : Bool
  setter : Except IoError Unit
  turns : List WriteTurn
  flushNow : ℕ
  flushAdmitted : Bool
  flush : Except IoError Unit
  finished : ℕ

/-- The bytes an operation had accepted, and its result if it returned. -/
abbrev Progress (ε : Type) := Bytes × Option (Except ε Unit)

/-- The loop over partial writes, and the flush after it. -/
def writeAll (deadline : ℕ) (o : Output) : List WriteTurn → Bytes → Progress IoError
  | _, [] =>
    if deadline ≤ o.flushNow then ([], some (.error deadlineExpired))
    else if o.flushAdmitted = false then ([], some (.error streamClosed))
    else ([], some o.flush)
  | [], _ :: _ => ([], none)
  | t :: ts, b :: bs =>
    if deadline ≤ t.now then ([], some (.error deadlineExpired))
    else if t.admitted = false then ([], some (.error streamClosed))
    else
      match t.write with
      | .ok n =>
        if n = 0 then ([], some (.error writeZero))
        else
          let later := writeAll deadline o ts ((b :: bs).drop n)
          ((b :: bs).take n ++ later.1, later.2)
      | .error error =>
        if error.kind = .interrupted then writeAll deadline o ts (b :: bs)
        else ([], some (.error error))

/-- `WriteHalf::write`. -/
def write (deadline : ℕ) (o : Output) (bytes : Bytes) : Progress IoError :=
  if deadline ≤ o.now then ([], some (.error deadlineExpired))
  else if o.admitted = false then ([], some (.error streamClosed))
  else
    match o.setter with
    | .error error => ([], some (.error error))
    | .ok _ => writeAll deadline o o.turns bytes

/-- `FrameWriter`, with the bytes its adapter has accepted. -/
structure Writer where
  resync : Bool := false
  frame : Bytes
  accepted : Bytes := []
  deriving DecidableEq

/-- `FrameWriter::new`. -/
def Writer.new (max : ℕ) : Writer := { frame := List.replicate (max + 2) 0 }

namespace Writer

/-- `send_frame`. -/
def sendFrame (deadline : ℕ) (o : Output) (size : ℕ) (w : Writer) :
    Writer × Option (Except TransportError Unit) :=
  let frame := w.frame.set (size + 1) 0
  let start := if w.resync then 0 else 1
  match write deadline o (slice frame start (size + 2)) with
  | (bytes, none) => ({ resync := true, frame, accepted := w.accepted ++ bytes }, none)
  | (bytes, some result) =>
    let result := if deadline ≤ o.finished then .error deadlineExpired else result
    ({ resync := !result.isOk, frame, accepted := w.accepted ++ bytes },
      some (result.mapError .sendFailed))

def sendReset (deadline : ℕ) (o : Output) (w : Writer) :
    Writer × Option (Except TransportError Unit) :=
  { w with resync := false, frame := w.frame.set 1 0 }.sendFrame deadline o 1

def sendDropped (deadline : ℕ) (o : Output) (w : Writer) :
    Writer × Option (Except TransportError Unit) :=
  w.sendFrame deadline o 0

def sendPacket (cobs : Cobs) (max : ℕ) (packet : Bytes) (deadline : ℕ) (o : Output) (w : Writer) :
    Writer × Option (Except TransportError Unit) :=
  let len := cobs.encodeBuffer packet.length
  if max < len then (w, some (.error (.frameTooLarge len)))
  else
    let encoded := cobs.encode packet
    let frame := w.frame.take 1 ++ encoded ++ w.frame.drop (encoded.length + 1)
    { w with frame }.sendFrame deadline o encoded.length

end Writer

/-- A call on the writer. -/
inductive Send where
  | packet (p : Bytes)
  | dropped
  | reset
  deriving DecidableEq

/-- A call with its deadline and the answers of the environment. -/
structure Call where
  send : Send
  deadline : ℕ
  output : Output

def Writer.call (cobs : Cobs) (max : ℕ) (c : Call) (w : Writer) :
    Writer × Option (Except TransportError Unit) :=
  match c.send with
  | .packet p => w.sendPacket cobs max p c.deadline c.output
  | .dropped => w.sendDropped c.deadline c.output
  | .reset => w.sendReset c.deadline c.output

/-- A call that was made, the writer around it, and the result if it returned. -/
structure Record where
  send : Send
  before : Writer
  after : Writer
  result : Option (Except TransportError Unit)

/-- Successive calls, up to the first that does not return. -/
def Writer.calls (cobs : Cobs) (max : ℕ) : List Call → Writer → Writer × List Record
  | [], w => (w, [])
  | c :: cs, w =>
    let (w', result) := w.call cobs max c
    let record : Record := ⟨c.send, w, w', result⟩
    match result with
    | none => (w', [record])
    | some _ => ((calls cobs max cs w').1, record :: (calls cobs max cs w').2)

/-! ### What one call does -/

/-- The frame buffer has room for the longest frame, and its first byte is the recovery
delimiter. -/
structure Good (max : ℕ) (w : Writer) : Prop where
  length : w.frame.length = max + 2
  first : slice w.frame 0 1 = [0]

theorem good_new (max : ℕ) : Good max (.new max) := by
  refine ⟨List.length_replicate, ?_⟩
  rw [Writer.new, slice, List.drop_zero, List.take_replicate, min_eq_left (by omega)]
  rfl

/-- The recovery delimiter, after a failed send. -/
def lead (w : Writer) : Bytes := if w.resync then [0] else []

/-- The bytes a call passes to the adapter. -/
def wire (cobs : Cobs) (w : Writer) : Send → Bytes
  | .packet p => lead w ++ (cobs.encode p ++ [0])
  | .dropped => lead w ++ [0]
  | .reset => [0, 0]

/-- **What one call does**: an oversized packet changes nothing; otherwise the adapter accepts a
prefix of the frame, all of it if the call succeeds, and the writer is to resynchronise unless it
does. -/
inductive Calls (cobs : Cobs) (max : ℕ) (send : Send) (w : Writer) :
    Writer → Option (Except TransportError Unit) → Prop
  | refused {p : Bytes} : send = .packet p → max < cobs.encodeBuffer p.length →
      Calls cobs max send w w (some (.error (.frameTooLarge (cobs.encodeBuffer p.length))))
  | sent {w' : Writer} : (∀ p, send = .packet p → cobs.encodeBuffer p.length ≤ max) →
      Good max w' → w'.accepted = w.accepted ++ wire cobs w send → w'.resync = false →
      Calls cobs max send w w' (some (.ok ()))
  | failed {w' : Writer} {bytes : Bytes} {result : Option (Except TransportError Unit)} :
      (∀ p, send = .packet p → cobs.encodeBuffer p.length ≤ max) →
      Good max w' → w'.accepted = w.accepted ++ bytes → bytes <+: wire cobs w send →
      w'.resync = true → (result = none ∨ ∃ error, result = some (.error (.sendFailed error))) →
      Calls cobs max send w w' result

theorem writeAll_spec (deadline : ℕ) (o : Output) : ∀ (ts : List WriteTurn) (bytes : Bytes),
    (writeAll deadline o ts bytes).1 <+: bytes ∧
      ((writeAll deadline o ts bytes).2 = some (.ok ()) →
        (writeAll deadline o ts bytes).1 = bytes)
  | ts, [] => by
    unfold writeAll
    split_ifs
    · exact ⟨List.nil_prefix, fun _ => rfl⟩
    · exact ⟨List.nil_prefix, fun _ => rfl⟩
    · exact ⟨List.nil_prefix, fun _ => rfl⟩
  | [], b :: bs => by
    unfold writeAll
    exact ⟨List.nil_prefix, fun h => (by cases h)⟩
  | t :: ts, b :: bs => by
    unfold writeAll
    split_ifs
    · exact ⟨List.nil_prefix, fun h => (by cases h)⟩
    · exact ⟨List.nil_prefix, fun h => (by cases h)⟩
    cases t.write with
    | ok n =>
      dsimp only
      split_ifs
      · exact ⟨List.nil_prefix, fun h => (by cases h)⟩
      · obtain ⟨hp, hok⟩ := writeAll_spec deadline o ts ((b :: bs).drop n)
        obtain ⟨later, hlater⟩ := hp
        refine ⟨⟨later, ?_⟩, fun h => ?_⟩
        · rw [List.append_assoc, hlater, List.take_append_drop]
        · rw [hok h, List.take_append_drop]
    | error error =>
      dsimp only
      split_ifs
      · exact writeAll_spec deadline o ts (b :: bs)
      · exact ⟨List.nil_prefix, fun h => (by cases h)⟩

theorem write_spec (deadline : ℕ) (o : Output) (bytes : Bytes) :
    (write deadline o bytes).1 <+: bytes ∧
      ((write deadline o bytes).2 = some (.ok ()) → (write deadline o bytes).1 = bytes) := by
  unfold write
  split_ifs
  · exact ⟨List.nil_prefix, fun h => (by cases h)⟩
  · exact ⟨List.nil_prefix, fun h => (by cases h)⟩
  cases o.setter with
  | ok => exact writeAll_spec deadline o o.turns bytes
  | error error => exact ⟨List.nil_prefix, fun h => (by cases h)⟩

/-- A call only adds to what the adapter has accepted. -/
theorem call_accepted (cobs : Cobs) (max : ℕ) (c : Call) (w : Writer) :
    w.accepted <+: (w.call cobs max c).1.accepted := by
  have hframe : ∀ v : Writer, v.accepted = w.accepted → ∀ size,
      w.accepted <+: (v.sendFrame c.deadline c.output size).1.accepted := by
    intro v hv size
    dsimp only [Writer.sendFrame]
    rw [← hv]
    split
    · exact List.prefix_append _ _
    · exact List.prefix_append _ _
  unfold Writer.call
  cases c.send with
  | packet p =>
    dsimp only [Writer.sendPacket]
    split_ifs
    · exact List.prefix_rfl
    · apply hframe
      rfl
  | dropped => exact hframe w rfl _
  | reset => exact hframe { w with resync := false, frame := w.frame.set 1 0 } rfl _

theorem slice_set_of_le {l : Bytes} {a b i : ℕ} (h : b ≤ i) (x : UInt8) :
    slice (l.set i x) a b = slice l a b := by
  have hlen : (l.take b).length ≤ i := by
    rw [List.length_take]
    omega
  rw [slice, List.take_set, List.set_eq_of_length_le hlen, slice]

theorem slice_set_self {l : Bytes} {i : ℕ} (h : i < l.length) (x : UInt8) :
    slice (l.set i x) i (i + 1) = [x] := by
  have hlen : (l.take i).length = i := by
    rw [List.length_take]
    omega
  rw [slice, List.set_eq_take_append_cons_drop, if_pos h, List.take_append, hlen,
    List.take_of_length_le (by omega), Nat.add_sub_cancel_left, List.drop_left' hlen]
  rfl

variable {cobs : Cobs} {max : ℕ} {w : Writer}

/-- The slice of the buffer that a send passes on. -/
theorem slice_frame (h : Good max w) {size : ℕ} (hs : size ≤ max) :
    slice (w.frame.set (size + 1) 0) (if w.resync then 0 else 1) (size + 2) =
      lead w ++ (slice w.frame 1 (size + 1) ++ [0]) := by
  have hlen := h.length
  have hset : (w.frame.set (size + 1) 0).length = max + 2 := by rw [List.length_set, hlen]
  have hbody : slice (w.frame.set (size + 1) 0) 1 (size + 2) =
      slice w.frame 1 (size + 1) ++ [0] := by
    rw [slice_append (show 1 ≤ size + 1 by omega) (show size + 1 ≤ size + 2 by omega) (by omega),
      slice_set_of_le le_rfl, slice_set_self (by omega)]
  unfold lead
  split_ifs with hr
  · rw [slice_append (show 0 ≤ 1 by omega) (show 1 ≤ size + 2 by omega) (by omega), hbody,
      slice_set_of_le (by omega), h.first]
  · exact hbody

theorem sendFrame_spec (h : Good max w) {size : ℕ} (hs : size ≤ max) (deadline : ℕ) (o : Output) :
    ∃ bytes, bytes <+: lead w ++ (slice w.frame 1 (size + 1) ++ [0]) ∧
      Good max (w.sendFrame deadline o size).1 ∧
      (w.sendFrame deadline o size).1.accepted = w.accepted ++ bytes ∧
      ((w.sendFrame deadline o size).2 = some (.ok ()) ∧
          (w.sendFrame deadline o size).1.resync = false ∧
          bytes = lead w ++ (slice w.frame 1 (size + 1) ++ [0]) ∨
        (w.sendFrame deadline o size).1.resync = true ∧
          ((w.sendFrame deadline o size).2 = none ∨
            ∃ error, (w.sendFrame deadline o size).2 = some (.error (.sendFailed error)))) := by
  have hgood : ∀ resync accepted, Good max ⟨resync, w.frame.set (size + 1) 0, accepted⟩ := by
    intro resync accepted
    refine ⟨by rw [List.length_set, h.length], ?_⟩
    rw [slice_set_of_le (by omega), h.first]
  obtain ⟨hp, hok⟩ := write_spec deadline o (lead w ++ (slice w.frame 1 (size + 1) ++ [0]))
  unfold Writer.sendFrame
  dsimp only
  rw [slice_frame h hs]
  generalize write deadline o _ = progress at hp hok ⊢
  obtain ⟨bytes, result⟩ := progress
  refine ⟨bytes, hp, ?_⟩
  cases result with
  | none => exact ⟨hgood _ _, rfl, .inr ⟨rfl, .inl rfl⟩⟩
  | some result =>
    dsimp only
    split_ifs with hlate
    · exact ⟨hgood _ _, rfl, .inr ⟨rfl, .inr ⟨_, rfl⟩⟩⟩
    · cases result with
      | ok => exact ⟨hgood _ _, rfl, .inl ⟨rfl, rfl, hok rfl⟩⟩
      | error error => exact ⟨hgood _ _, rfl, .inr ⟨rfl, .inr ⟨error, rfl⟩⟩⟩

theorem calls_of_sendFrame {send : Send} {v : Writer} (hfit : ∀ p, send = .packet p →
    cobs.encodeBuffer p.length ≤ max) (h : Good max v) (ha : v.accepted = w.accepted) {size : ℕ}
    (hs : size ≤ max) (hw : lead v ++ (slice v.frame 1 (size + 1) ++ [0]) = wire cobs w send)
    (deadline : ℕ) (o : Output) :
    Calls cobs max send w (v.sendFrame deadline o size).1 (v.sendFrame deadline o size).2 := by
  obtain ⟨bytes, hp, hg, hacc, ⟨hr, hres, hall⟩ | ⟨hres, hr⟩⟩ := sendFrame_spec h hs deadline o
  · rw [hr]
    rw [hall, hw, ha] at hacc
    exact .sent hfit hg hacc hres
  · rw [hw] at hp
    rw [ha] at hacc
    exact .failed hfit hg hacc hp hres hr

theorem call_spec (hc : cobs.Lawful) (hmax : 0 < max) (h : Good max w) (c : Call) :
    Calls cobs max c.send w (w.call cobs max c).1 (w.call cobs max c).2 := by
  have hlen := h.length
  unfold Writer.call
  cases hsend : c.send with
  | dropped =>
    refine calls_of_sendFrame (w := w) ?_ h rfl (Nat.zero_le _) ?_ _ _
    · rintro p ⟨⟩
    · rw [slice_self]
      rfl
  | reset =>
    have hg : Good max { w with resync := false, frame := w.frame.set 1 0 } := by
      refine ⟨by rw [List.length_set, hlen], ?_⟩
      rw [slice_set_of_le le_rfl, h.first]
    have hs : 1 ≤ max := hmax
    dsimp only [Writer.sendReset]
    refine calls_of_sendFrame (w := w) ?_ hg rfl hs ?_ _ _
    · rintro p ⟨⟩
    · rw [slice_set_self (by omega)]
      rfl
  | packet p =>
    dsimp only
    unfold Writer.sendPacket
    dsimp only
    split_ifs with hbig
    · exact .refused rfl hbig
    have hfit := hc.length_encode p
    have hone : (w.frame.take 1).length = 1 := by
      rw [List.length_take]
      omega
    have hg : Good max { w with
        frame := w.frame.take 1 ++ cobs.encode p ++
          w.frame.drop ((cobs.encode p).length + 1) } := by
      refine ⟨?_, ?_⟩
      · simp only [List.length_append, hone, List.length_drop]
        omega
      · rw [← h.first]
        simp only [slice, List.drop_zero]
        rw [List.append_assoc, List.take_append_of_le_length hone.ge, List.take_take, min_self]
    have hs : (cobs.encode p).length ≤ max := by omega
    refine calls_of_sendFrame (w := w) ?_ hg rfl hs ?_ _ _
    · rintro p' ⟨⟩
      omega
    · have hbody : slice (w.frame.take 1 ++ cobs.encode p ++
          w.frame.drop ((cobs.encode p).length + 1)) 1 ((cobs.encode p).length + 1) =
            cobs.encode p := by
        have hl : (w.frame.take 1 ++ cobs.encode p).length = (cobs.encode p).length + 1 := by
          rw [List.length_append, hone]
          omega
        rw [slice, List.take_left' hl, List.drop_left' hone]
      dsimp only
      rw [hbody]
      rfl

end ArkWire.Transport.FrameWriter
