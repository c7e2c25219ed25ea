import ArkWire.Protocol.Encoding
import ArkWire.Transport.OutboundSteps
import ArkWire.Transport.Recovery

/-! # The size gates nest

An envelope is measured in `Side::encode`, a message in `sealing::seal`, a packet in
`FrameWriter::send_packet` and a frame in `FrameReader::next_frame`, each against a limit of its
own. `MAX_MESSAGE_SIZE` is searched for so that what passes the first gate passes all others.

The buffers of the framers have fixed lengths. `sendPacketChecked` is `send_packet` with every index
and with the result of the encoder checked: it panics where the code would. The codec writes into a
buffer and may find it too short (`Buffers`). -/

namespace ArkWire.Protocol.SizeGates

open ArkWire.Lib.Delimited ArkWire.Lib.Machines
open ArkWire.Transport.Errors
open ArkWire.Transport.FrameReader hiding Call
open ArkWire.Transport.FrameWriter hiding Call
open ArkWire.Protocol.Envelope (Side)

/-! ### The limits -/

/-- `MAX_FRAME_SIZE`. -/
def maxFrameSize : ℕ := 2 * 1024 * 1024

/-- `sealing::OVERHEAD`. -/
def overhead : ℕ := 16

/-- The loop that lowers a size until its sealed worst case fits. Below zero it fails. -/
def search (encodeBuffer : ℕ → ℕ) (max : ℕ) : ℕ → Option ℕ
  | 0 => if max < encodeBuffer (0 + overhead) then none else some 0
  | size + 1 =>
    if max < encodeBuffer (size + 1 + overhead) then search encodeBuffer max size
    else some (size + 1)

/-- `MAX_MESSAGE_SIZE`. -/
def maxMessageSize (encodeBuffer : ℕ → ℕ) : Option ℕ :=
  search encodeBuffer maxFrameSize maxFrameSize

/-- The codec with buffers: what it writes into one of a length, if that is long enough. -/
structure Buffers where
  encode : Bytes → ℕ → Option Bytes
  decode : Bytes → ℕ → Except String Bytes

/-- What the framers rely on: the worst case of the encoder grows with its input and is no less, a
buffer of this length is enough for it, and the decoder does not outgrow its input. -/
structure Buffers.Lawful (buffers : Buffers) (cobs : Cobs) : Prop where
  mono : Monotone cobs.encodeBuffer
  le : ∀ n, n ≤ cobs.encodeBuffer n
  encode : ∀ p n, cobs.encodeBuffer p.length ≤ n → buffers.encode p n = some (cobs.encode p)
  decode : ∀ frame n, frame.length ≤ n → buffers.decode frame n = cobs.decode frame

/-- `sealing::seal`, over a sending context that may fail. -/
def sealMessage (max : ℕ) (sender : Bytes → Except String Bytes) (message : Bytes) :
    Except TransportError Bytes :=
  if max < message.length then .error (.packetTooLarge message.length)
  else (sender message).mapError .encryptionFailed

/-- Where `send_packet` would panic. -/
inductive Panic where
  | buffer
  | encode
  | delimiter
  | frame
  deriving DecidableEq, Repr

/-- `send_frame`, with the indices `frame[size + 1]` and `frame[start..size + 2]`. -/
def sendFrameChecked (deadline : ℕ) (o : Output) (size : ℕ) (w : Writer) :
    Outcome Panic (Writer × Option (Except TransportError Unit)) :=
  if w.frame.length ≤ size + 1 then .panic .delimiter
  else if w.frame.length < size + 2 ∨ size + 2 < (if w.resync then 0 else 1) then .panic .frame
  else .next (w.sendFrame deadline o size)

/-- `send_packet`, with the index `frame[1..=MAX_FRAME_SIZE]` and the `expect` of the encoder. -/
def sendPacketChecked (cobs : Cobs) (buffers : Buffers) (packet : Bytes) (deadline : ℕ) (o : Output)
    (w : Writer) : Outcome Panic (Writer × Option (Except TransportError Unit)) :=
  let len := cobs.encodeBuffer packet.length
  if maxFrameSize < len then .next (w, some (.error (.frameTooLarge len)))
  else if w.frame.length < maxFrameSize + 1 then .panic .buffer
  else
    match buffers.encode packet maxFrameSize with
    | none => .panic .encode
    | some encoded =>
      let frame := w.frame.take 1 ++ encoded ++ w.frame.drop (encoded.length + 1)
      sendFrameChecked deadline o encoded.length { w with frame }

/-- The decoder of a `FrameReader`, into its packet buffer. -/
def decodePacket (buffers : Buffers) (frame : Bytes) : Except String Bytes :=
  buffers.decode frame maxFrameSize

/-! ### The search -/

variable {cobs : Cobs} {buffers : Buffers}

theorem search_eq_some {encodeBuffer : ℕ → ℕ} {max : ℕ} : ∀ {start n : ℕ},
    search encodeBuffer max start = some n ↔
      IsGreatest {size | size ≤ start ∧ encodeBuffer (size + overhead) ≤ max} n
  | 0, n => by
    unfold search
    split_ifs with h
    · simp only [false_iff]
      rintro ⟨⟨hn, hfit⟩, -⟩
      obtain rfl := Nat.le_zero.1 hn
      omega
    · rw [Option.some.injEq]
      constructor
      · rintro rfl
        exact ⟨⟨le_rfl, Nat.le_of_not_lt h⟩, fun size hsize => hsize.1⟩
      · rintro ⟨⟨hn, -⟩, -⟩
        omega
  | start + 1, n => by
    unfold search
    split_ifs with h
    · rw [search_eq_some]
      have hset : {size | size ≤ start + 1 ∧ encodeBuffer (size + overhead) ≤ max} =
          {size | size ≤ start ∧ encodeBuffer (size + overhead) ≤ max} := by
        ext size
        simp only [Set.mem_ofPred_eq, and_congr_left_iff]
        intro hfit
        refine ⟨fun hle => ?_, fun hle => by omega⟩
        rcases Nat.lt_or_eq_of_le hle with hlt | rfl
        · omega
        · omega
      rw [hset]
    · rw [Option.some.injEq]
      constructor
      · rintro rfl
        exact ⟨⟨le_rfl, Nat.le_of_not_lt h⟩, fun size hsize => hsize.1⟩
      · rintro ⟨⟨hn, -⟩, hmax⟩
        have hle := hmax ⟨le_rfl, Nat.le_of_not_lt h⟩
        omega

theorem search_eq_none {encodeBuffer : ℕ → ℕ} {max : ℕ} : ∀ {start : ℕ},
    search encodeBuffer max start = none ↔ ∀ size ≤ start, max < encodeBuffer (size + overhead)
  | 0 => by
    unfold search
    split_ifs with h
    · refine ⟨fun _ size hsize => ?_, fun _ => rfl⟩
      obtain rfl := Nat.le_zero.1 hsize
      exact h
    · simp only [false_iff]
      exact fun hall => h (hall 0 le_rfl)
  | start + 1 => by
    unfold search
    split_ifs with h
    · rw [search_eq_none]
      constructor
      · intro hall size hsize
        rcases Nat.lt_or_eq_of_le hsize with hlt | rfl
        · exact hall size (by omega)
        · exact h
      · exact fun hall size hsize => hall size (by omega)
    · simp only [false_iff]
      exact fun hall => h (hall _ le_rfl)

/-- **The limit is the largest size whose sealed worst case fits a frame.** -/
theorem maxMessageSize_eq_some (hb : buffers.Lawful cobs) {n : ℕ} :
    maxMessageSize cobs.encodeBuffer = some n ↔
      IsGreatest {size | cobs.encodeBuffer (size + overhead) ≤ maxFrameSize} n := by
  have hset : {size | cobs.encodeBuffer (size + overhead) ≤ maxFrameSize} =
      {size | size ≤ maxFrameSize ∧ cobs.encodeBuffer (size + overhead) ≤ maxFrameSize} := by
    ext size
    simp only [Set.mem_ofPred_eq]
    refine ⟨fun hfit => ⟨?_, hfit⟩, fun h => h.2⟩
    have hle := hb.le (size + overhead)
    omega
  rw [hset]
  exact search_eq_some

/-- There is a limit unless not even an empty message fits. -/
theorem maxMessageSize_eq_none (hb : buffers.Lawful cobs) :
    maxMessageSize cobs.encodeBuffer = none ↔ maxFrameSize < cobs.encodeBuffer overhead := by
  rw [maxMessageSize, search_eq_none]
  constructor
  · intro hall
    have hzero := hall 0 (Nat.zero_le _)
    rwa [Nat.zero_add] at hzero
  · intro h size _
    exact h.trans_le (hb.mono (Nat.le_add_left _ _))

/-- What is within the limit fits a frame when sealed. -/
theorem fits (hb : buffers.Lawful cobs) {n : ℕ} (hn : maxMessageSize cobs.encodeBuffer = some n)
    {size : ℕ} (hs : size ≤ n) : cobs.encodeBuffer (size + overhead) ≤ maxFrameSize :=
  (hb.mono (Nat.add_le_add_right hs _)).trans ((maxMessageSize_eq_some hb).1 hn).1

/-! ### The later stages -/

/-- The buffer of a writer holds any frame, with its delimiter and the recovery prefix. -/
theorem sendFrameChecked_eq {w : Writer} (hw : w.frame.length = maxFrameSize + 2) {size : ℕ}
    (hs : size ≤ maxFrameSize) (deadline : ℕ) (o : Output) :
    sendFrameChecked deadline o size w = .next (w.sendFrame deadline o size) := by
  have hstart : ¬ size + 2 < (if w.resync then 0 else 1) := by
    split_ifs <;> omega
  rw [sendFrameChecked, if_neg (by omega), if_neg (not_or.2 ⟨by omega, hstart⟩)]

theorem sendFrame_result (deadline : ℕ) (o : Output) (size : ℕ) (w : Writer) (len : ℕ) :
    (w.sendFrame deadline o size).2 ≠ some (.error (.frameTooLarge len)) := by
  unfold Writer.sendFrame
  dsimp only
  split
  · exact nofun
  · next bytes result _ =>
    rw [Ne, Option.some.injEq]
    split_ifs
    · exact nofun
    · cases result with
      | ok _ => exact nofun
      | error error => exact nofun

theorem sendPacket_result {max : ℕ} {packet : Bytes}
    (hfit : cobs.encodeBuffer packet.length ≤ max) (deadline : ℕ) (o : Output) (w : Writer)
    (len : ℕ) :
    (w.sendPacket cobs max packet deadline o).2 ≠ some (.error (.frameTooLarge len)) := by
  unfold Writer.sendPacket
  dsimp only
  rw [if_neg (Nat.not_lt.2 hfit)]
  exact sendFrame_result deadline o _ _ len

/-- **A packet that fits is sent**: nothing panics, and it is not refused. -/
theorem sendPacketChecked_eq (hc : cobs.Lawful) (hb : buffers.Lawful cobs) {w : Writer}
    (hw : Good maxFrameSize w) {packet : Bytes}
    (hfit : cobs.encodeBuffer packet.length ≤ maxFrameSize) (deadline : ℕ) (o : Output) :
    sendPacketChecked cobs buffers packet deadline o w =
      .next (w.sendPacket cobs maxFrameSize packet deadline o) := by
  have hlen := hw.length
  have hsize : (cobs.encode packet).length ≤ maxFrameSize := (hc.length_encode packet).trans hfit
  have hframe : (w.frame.take 1 ++ cobs.encode packet ++
      w.frame.drop ((cobs.encode packet).length + 1)).length = maxFrameSize + 2 := by
    rw [List.length_append, List.length_append, List.length_take, List.length_drop]
    omega
  unfold sendPacketChecked Writer.sendPacket
  simp only [if_neg (Nat.not_lt.2 hfit), hb.encode packet _ hfit]
  rw [if_neg (by omega), sendFrameChecked_eq hframe hsize]

open ArkWire.Transport.Grammar in
/-- The peer's reader reports the packet, from its buffer. -/
theorem report_decodePacket (hc : cobs.Lawful) (hb : buffers.Lawful cobs) {packet : Bytes}
    (hfit : cobs.encodeBuffer packet.length ≤ maxFrameSize) :
    report maxFrameSize (decodePacket buffers) (.piece (cobs.encode packet)) =
      .ok (some packet) := by
  have hsize : (cobs.encode packet).length ≤ maxFrameSize := (hc.length_encode packet).trans hfit
  obtain ⟨b, bs, hcons⟩ := List.exists_cons_of_ne_nil (hc.encode_ne_nil packet)
  have hd : decodePacket buffers (cobs.encode packet) = .ok packet := by
    rw [decodePacket, hb.decode _ _ hsize, hc.decode_encode]
  rw [hcons] at hd ⊢
  simp only [report, hd]

open ArkWire.Transport.Grammar in
/-- The frames of the packet, and of what comes before and after it. -/
theorem reports_packet (hc : cobs.Lawful) (hb : buffers.Lawful cobs) {packet : Bytes}
    (hfit : cobs.encodeBuffer packet.length ≤ maxFrameSize) {pre : Bytes} (hpre : rest 0 pre = [])
    (post : Bytes) :
    (frames 0 maxFrameSize (pre ++ (cobs.encode packet ++ 0 :: post))).map
        (report maxFrameSize (decodePacket buffers)) =
      (frames 0 maxFrameSize pre).map (report maxFrameSize (decodePacket buffers)) ++
        .ok (some packet) ::
          (frames 0 maxFrameSize post).map (report maxFrameSize (decodePacket buffers)) := by
  have hsize : (cobs.encode packet).length ≤ maxFrameSize := (hc.length_encode packet).trans hfit
  rw [frames_append hpre, frames_append_delim (hc.encode_nonzero packet), classify, if_pos hsize,
    List.map_append, List.map_cons, report_decodePacket hc hb hfit]

open ArkWire.Transport.Grammar in
/-- What a reader returns is a part of it at any time. -/
theorem calls_packet (hc : cobs.Lawful) (hb : buffers.Lawful cobs) {packet : Bytes}
    (hfit : cobs.encodeBuffer packet.length ≤ maxFrameSize) {pre post : Bytes}
    (hpre : rest 0 pre = []) (cs : List Transport.FrameReader.Call) :
    nonIo ((Reader.new maxFrameSize (pre ++ (cobs.encode packet ++ 0 :: post))).calls maxFrameSize
        (decodePacket buffers) cs).2 <+:
      (frames 0 maxFrameSize pre).map (report maxFrameSize (decodePacket buffers)) ++
        .ok (some packet) ::
          (frames 0 maxFrameSize post).map (report maxFrameSize (decodePacket buffers)) := by
  obtain ⟨-, ⟨got, hsup, hall⟩, -⟩ := calls_spec (decodePacket buffers) cs
    (Transport.Grammar.good_new maxFrameSize (pre ++ (cobs.encode packet ++ 0 :: post)))
  have hrun := hall ((Reader.new maxFrameSize (pre ++ (cobs.encode packet ++ 0 :: post))).calls
    maxFrameSize (decodePacket buffers) cs).1.supply
  rw [← hsup, ahead_new] at hrun
  rw [← reports_packet hc hb hfit hpre post]
  exact ⟨_, hrun.symm⟩

open ArkWire.Transport.Grammar in
/-- **The peer reads the packet**, whatever comes before and after it and whatever happened to its
calls before. -/
theorem later_packet (hc : cobs.Lawful) (hb : buffers.Lawful cobs) {packet : Bytes}
    (hfit : cobs.encodeBuffer packet.length ≤ maxFrameSize) {pre post bytes : Bytes}
    (hpre : rest 0 pre = []) (hbytes : bytes = pre ++ (cobs.encode packet ++ 0 :: post))
    (cs : List Transport.FrameReader.Call) {later : List Transport.FrameReader.Call}
    (hpatient : ∀ c ∈ later, Patient (2 * bytes.length + 3) c)
    (hlen : bytes.length < later.length) :
    let first := (Reader.new maxFrameSize bytes).calls maxFrameSize (decodePacket buffers) cs
    nonIo first.2 ++ nonIo (first.1.calls maxFrameSize (decodePacket buffers) later).2 =
      (frames 0 maxFrameSize pre).map (report maxFrameSize (decodePacket buffers)) ++
        .ok (some packet) ::
          (frames 0 maxFrameSize post).map (report maxFrameSize (decodePacket buffers)) := by
  have hmany : (frames 0 maxFrameSize bytes).length < later.length :=
    (length_frames_le bytes).trans_lt hlen
  obtain ⟨-, -, hall⟩ := calls_later (decodePacket buffers) cs hpatient hmany
  rw [← reports_packet hc hb hfit hpre post, ← hbytes]
  exact hall

/-! ### Sealed packets on their way -/

section Sending

open ArkWire.Transport.Outbound ArkWire.Transport.OutboundSteps

variable {K : Type} {cfg : Config K} {s s' : State K}

/-- A sealed packet on its way fits a frame, and its write was not refused for its size. -/
def Sized (cfg : Config K) : Pc K → Prop
  | .lockWriter p | .unlockContext p | .check p | .failed p _ _ | .output (.packet p) _ =>
    cfg.cobs.encodeBuffer p.bytes.length ≤ cfg.maxFrame
  | .returning (.packet p) _ result => cfg.cobs.encodeBuffer p.bytes.length ≤ cfg.maxFrame ∧
      ∀ size, result ≠ some (.error (.frameTooLarge size))
  | _ => True

theorem sized_update {t : ℕ} {pc : Pc K} (h : ∀ u, Sized cfg (s.threads u)) (hpc : Sized cfg pc)
    (u : ℕ) : Sized cfg (Function.update s.threads t pc u) := by
  by_cases hu : u = t
  · subst hu
    rw [Function.update_self]
    exact hpc
  · rw [Function.update_of_ne hu]
    exact h u

theorem sized_of_session {job : Job} {limit : Option ℕ} (h : session job = none) :
    Sized cfg (.output job limit) := by
  cases job with
  | packet p => cases h
  | _ => trivial

/-- What sealing makes of a message within the limit fits. -/
def Seals (cfg : Config K) : Prop :=
  ∀ key seq message bytes, message.length ≤ cfg.maxMessage →
    cfg.sealMessage key seq message = some bytes → cfg.cobs.encodeBuffer bytes.length ≤ cfg.maxFrame

theorem sized_step (hs : Seals cfg) (h : ∀ u, Sized cfg (s.threads u)) (hstep : Step cfg s s') :
    ∀ u, Sized cfg (s'.threads u) := by
  cases hstep with
  | beginSend => exact sized_update h trivial
  | receive => exact sized_update h trivial
  | beginLocked => exact sized_update h trivial
  | lockContext => exact sized_update h trivial
  | tooLarge => exact sized_update h trivial
  | sealed _ hlen _ hseal => exact sized_update h (hs _ _ _ _ hlen hseal)
  | refuse => exact sized_update h trivial
  | @lockWriter t p ht =>
    have hp := h t
    rw [ht] at hp
    exact sized_update h hp
  | @unlockContext t p ht =>
    have hp := h t
    rw [ht] at hp
    exact sized_update h hp
  | @check t p ht =>
    have hp := h t
    rw [ht] at hp
    exact sized_update h hp
  | refused => exact sized_update h trivial
  | waitWriter => exact sized_update h trivial
  | endNotify => exact sized_update h trivial
  | endUnlock => exact sized_update h trivial
  | keepUnlock => exact sized_update h trivial
  | @bind t key =>
    have hthreads : (s.bind key).threads = s.threads := by
      unfold State.bind State.remove
      cases s.binding <;> rfl
    refine sized_update (s := s.bind key) (fun u => ?_) trivial
    rw [hthreads]
    exact h u
  | removeOutput _ _ hsession => exact sized_update h (sized_of_session hsession)
  | keepOutput _ hsession => exact sized_update h (sized_of_session hsession)
  | @output t deadline job limit o ht =>
    refine sized_update h ?_
    cases job with
    | packet p =>
      have hp := h t
      rw [ht] at hp
      exact ⟨hp, sendPacket_result hp deadline o s.framer⟩
    | _ => trivial
  | sent => exact sized_update h trivial
  | @failed t deadline p error ht =>
    have hp := h t
    rw [ht] at hp
    exact sized_update h hp.1

theorem sized_reachable {framer : Writer} (hs : Seals cfg)
    (h : (outbound cfg framer).Reachable s) : ∀ u, Sized cfg (s.threads u) := by
  refine h.invariant (I := fun s : State K => ∀ u, Sized cfg (s.threads u)) ?_ ?_
  · intro u
    exact trivial
  · intro s a s' _ hi hstep
    exact sized_step hs hi (step_cases hstep)

end Sending

/-! ### Every gate after the first is open -/

/-- The writer after any calls is still good. -/
theorem good_calls (hc : cobs.Lawful) : ∀ (cs : List Transport.FrameWriter.Call) {w : Writer},
    Good maxFrameSize w → Good maxFrameSize (w.calls cobs maxFrameSize cs).1
  | [], _, hw => hw
  | c :: cs, w, hw => by
    have hnext : Good maxFrameSize (w.call cobs maxFrameSize c).1 := by
      have hspec := call_spec hc (by decide) hw c
      generalize w.call cobs maxFrameSize c = next at hspec
      obtain ⟨w', result⟩ := next
      cases hspec with
      | refused => exact hw
      | sent _ hg => exact hg
      | failed _ hg => exact hg
    rw [Writer.calls]
    dsimp only
    split
    · exact hnext
    · exact good_calls hc cs hnext

/-- What `Side::encode` accepts is within its limit. -/
theorem length_of_encode {S : Encoding.Schema} (hS : S.Lawful) {max : ℕ} (hmax : max < 2 ^ 64)
    {side : Side} {id : ℕ} (hid : id < 2 ^ 64) {body : Except S.Err (Encoding.Message S)}
    {bytes : Bytes} (h : Encoding.encode max side id body = .ok bytes) : bytes.length ≤ max := by
  have hencodes := Encoding.encodes hS hmax side hid body
  obtain ⟨⟨e, hfrom, rfl, -⟩, -⟩ := hencodes.ok bytes h
  refine Nat.le_of_not_lt fun hbig => ?_
  obtain ⟨size, hlarge⟩ := hencodes.tooLarge.2 ⟨e, hfrom, hbig⟩
  rw [h] at hlarge
  cases hlarge

/-- A sending context that adds its overhead. -/
def AddsOverhead (sender : Bytes → Except String Bytes) : Prop :=
  ∀ message packet, sender message = .ok packet → packet.length = message.length + overhead

/-- **What later stages do with an encoded body**: none of them refuses it for its size, and the
peer returns the packet wherever it is in the stream. A reader returns no other results, and all of
them in calls that nothing stops, of an adapter that hands over some bytes in every read. -/
structure Passes (cobs : Cobs) (buffers : Buffers) (max : ℕ) (bytes : Bytes) : Prop where
  sealing : ∀ sender size, sealMessage max sender bytes ≠ .error (.packetTooLarge size)
  sending : ∀ sender packet, AddsOverhead sender → sealMessage max sender bytes = .ok packet →
    ∀ cs deadline o,
      let w := ((Writer.new maxFrameSize).calls cobs maxFrameSize cs).1
      sendPacketChecked cobs buffers packet deadline o w =
          .next (w.sendPacket cobs maxFrameSize packet deadline o) ∧
        ∀ size, (w.sendPacket cobs maxFrameSize packet deadline o).2 ≠
          some (.error (.frameTooLarge size))
  reading : ∀ sender packet, AddsOverhead sender → sealMessage max sender bytes = .ok packet →
    packet.length ≤ maxFrameSize ∧ ∀ pre post cs, rest 0 pre = [] →
      let stream := pre ++ (cobs.encode packet ++ 0 :: post)
      let reports := (frames 0 maxFrameSize pre).map
          (Transport.Grammar.report maxFrameSize (decodePacket buffers)) ++
        .ok (some packet) :: (frames 0 maxFrameSize post).map
          (Transport.Grammar.report maxFrameSize (decodePacket buffers))
      let first := (Reader.new maxFrameSize stream).calls maxFrameSize (decodePacket buffers) cs
      Transport.Grammar.nonIo first.2 <+: reports ∧
        ∀ later, (∀ c ∈ later, Transport.Grammar.Patient (2 * stream.length + 3) c) →
          stream.length < later.length →
          Transport.Grammar.nonIo first.2 ++ Transport.Grammar.nonIo
            (first.1.calls maxFrameSize (decodePacket buffers) later).2 = reports

theorem passes (hc : cobs.Lawful) (hb : buffers.Lawful cobs) {max : ℕ}
    (hmax : maxMessageSize cobs.encodeBuffer = some max) {bytes : Bytes}
    (hlen : bytes.length ≤ max) : Passes cobs buffers max bytes := by
  have hseal : ∀ sender, sealMessage max sender bytes =
      (sender bytes).mapError .encryptionFailed := fun sender => if_neg (Nat.not_lt.2 hlen)
  have hfit : ∀ sender packet, AddsOverhead sender → sealMessage max sender bytes = .ok packet →
      cobs.encodeBuffer packet.length ≤ maxFrameSize := by
    intro sender packet hadds hpacket
    rw [hseal] at hpacket
    cases hs : sender bytes with
    | error reason =>
      rw [hs] at hpacket
      cases hpacket
    | ok packet' =>
      rw [hs] at hpacket
      cases hpacket
      rw [hadds bytes packet hs]
      exact fits hb hmax hlen
  refine ⟨fun sender size => ?_, fun sender packet hadds hpacket cs deadline o => ?_,
    fun sender packet hadds hpacket => ⟨?_, fun pre post cs hpre => ?_⟩⟩
  · rw [hseal]
    cases sender bytes with
    | ok packet => exact nofun
    | error reason => exact nofun
  · have hp := hfit sender packet hadds hpacket
    exact ⟨sendPacketChecked_eq hc hb (good_calls hc cs (good_new _)) hp deadline o,
      sendPacket_result hp deadline o _⟩
  · exact (hb.le _).trans (hfit sender packet hadds hpacket)
  · have hp := hfit sender packet hadds hpacket
    exact ⟨calls_packet hc hb hp hpre cs,
      fun later hpatient hlen => later_packet hc hb hp hpre rfl cs hpatient hlen⟩

open ArkWire.Transport.Outbound in
/-- **The size gates nest.** The search ends at the largest size whose sealed worst case fits a
frame, unless not even an empty message does; and what `Side::encode` accepts under this limit,
every later stage accepts, so that no run of any number of senders refuses a message for its size
after sealing it. -/
theorem size_gates_nest (cobs : Cobs) (buffers : Buffers) (hc : cobs.Lawful)
    (hb : buffers.Lawful cobs) :
    (maxMessageSize cobs.encodeBuffer = none ↔ maxFrameSize < cobs.encodeBuffer overhead) ∧
      ∀ max, maxMessageSize cobs.encodeBuffer = some max →
        IsGreatest {size | cobs.encodeBuffer (size + overhead) ≤ maxFrameSize} max ∧
        (∀ (S : Encoding.Schema) side id body bytes, S.Lawful → id < 2 ^ 64 →
          Encoding.encode (S := S) max side id body = .ok bytes → Passes cobs buffers max bytes) ∧
        ∀ (K : Type) (cfg : Config K) framer s, cfg.cobs = cobs → cfg.maxFrame = maxFrameSize →
          cfg.maxMessage = max → (∀ key seq message bytes,
            cfg.sealMessage key seq message = some bytes →
              bytes.length = message.length + overhead) →
          (outbound cfg framer).Reachable s → ∀ t p deadline size,
            s.threads t ≠ .returning (.packet p) deadline
                (some (.error (.frameTooLarge size))) := by
  refine ⟨maxMessageSize_eq_none hb, fun max hmax => ?_⟩
  have hgreatest := (maxMessageSize_eq_some hb).1 hmax
  refine ⟨hgreatest, ?_, ?_⟩
  · intro S side id body bytes hS hid hencode
    have hsmall : max < 2 ^ 64 := by
      have hle := (hb.le (max + overhead)).trans hgreatest.1
      have hframe : maxFrameSize < 2 ^ 64 := by decide
      omega
    exact passes hc hb hmax (length_of_encode hS hsmall hid hencode)
  · rintro K cfg framer s rfl hframe rfl hadds hreach t p deadline size ht
    have hseals : Seals cfg := by
      intro key seq message bytes hlen hseal
      rw [hadds key seq message bytes hseal, hframe]
      exact fits hb hmax hlen
    have hsized := sized_reachable hseals hreach t
    rw [ht] at hsized
    exact hsized.2 size rfl

/-- The codec as published, refusing shorter buffers. -/
def standardBuffers : Buffers where
  encode p n := if Cobs.standard.encodeBuffer p.length ≤ n then some (Cobs.standard.encode p)
    else none
  decode frame n := if frame.length ≤ n then Cobs.standard.decode frame else .error
    "buffer too small"

theorem standardBuffers_lawful : standardBuffers.Lawful Cobs.standard where
  mono a b h := by
    show a + (a + 253) / 254 + 1 ≤ b + (b + 253) / 254 + 1
    omega
  le n := by
    show n ≤ n + (n + 253) / 254 + 1
    omega
  encode _ _ h := if_pos h
  decode _ _ h := if_pos h

theorem size_gates_nest_standard :
    maxMessageSize Cobs.standard.encodeBuffer = some 2088910 ∧
      Passes Cobs.standard standardBuffers 2088910 [8, 5, 138, 16, 2, 8, 7] := by
  have hmax : maxMessageSize Cobs.standard.encodeBuffer = some 2088910 := by
    rw [maxMessageSize_eq_some standardBuffers_lawful]
    refine ⟨by decide, fun size hsize => ?_⟩
    have hfit : size + 16 + (size + 16 + 253) / 254 + 1 ≤ 2097152 := hsize
    omega
  obtain ⟨-, hencoded, -⟩ :=
    (size_gates_nest Cobs.standard standardBuffers Cobs.standard_lawful
      standardBuffers_lawful).2 2088910 hmax
  exact ⟨hmax, hencoded Encoding.counters .server 5 (.ok (Encoding.counted 7)) _
    Encoding.counters_lawful (by norm_num) rfl⟩

end ArkWire.Protocol.SizeGates
