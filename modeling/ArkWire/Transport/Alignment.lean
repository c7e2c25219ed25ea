import ArkWire.Transport.ClientCourse
import ArkWire.Transport.ServerCourse

/-! # The reader of one side on the stream of the other

`At` says how many frames a reader has returned of the bytes that the peer's frame writer has
accepted. An exchange is aligned where the next packet its reader waits for is the next frame: the
one behind the handshake packet and the packets that were opened. A frame that comes then is this
packet as long as the peer is at the session, so only a session that the peer has left can break. -/

namespace ArkWire.Transport.Alignment

open ArkWire.Lib.Machines ArkWire.Lib.Delimited
open ArkWire.Transport.Errors ArkWire.Transport.FrameReader
open ArkWire.Transport.FrameWriter hiding Good good_new
open ArkWire.Transport.Grammar (report ahead pending Kept)
open ArkWire.Transport.Outbound ArkWire.Transport.Endpoint ArkWire.Transport.Pair
open ArkWire.Transport.Company (Steady)
open ArkWire.Transport.Flow ArkWire.Transport.Ledger
open ArkWire.Transport.Recovery (report_encode)

/-! ### The place of a reader -/

section Place

variable {max n m : ℕ} {accepted : Bytes} {r r' : Reader} {read : List (Frame UInt8)}
  {f : Frame UInt8}

/-- The reader has returned `n` frames of what was accepted, and the rest is ahead of it. -/
def At (max : ℕ) (accepted : Bytes) (r : Reader) (n : ℕ) : Prop :=
  ∃ front, front.length = n ∧
    ∀ more, frames 0 max (accepted ++ more) = front ++ ahead max r (r.supply ++ more)

theorem at_new (max : ℕ) (accepted : Bytes) : At max accepted (.new max accepted) 0 := by
  refine ⟨[], rfl, fun more => ?_⟩
  have hpending : pending (.new max accepted) = [] := by simp [pending, Reader.new, slice]
  have hahead : ahead max (.new max accepted) (accepted ++ more) =
      frames 0 max (pending (.new max accepted) ++ (accepted ++ more)) := rfl
  rw [hpending, List.nil_append] at hahead
  exact hahead.symm

/-- The frames before the reader and those ahead of it are all frames. -/
theorem At.length (h : At max accepted r n) :
    n + (ahead max r r.supply).length = (frames 0 max accepted).length := by
  obtain ⟨front, hn, hall⟩ := h
  have hnil := hall []
  rw [List.append_nil, List.append_nil] at hnil
  rw [hnil, List.length_append, hn]

theorem At.unique (h : At max accepted r n) (h' : At max accepted r m) : n = m := by
  have hn := h.length
  have hm := h'.length
  omega

theorem At.le (h : At max accepted r n) : n ≤ (frames 0 max accepted).length := by
  have hn := h.length
  omega

/-- The reader goes on. -/
theorem At.reads (h : At max accepted r n) (hread : Reads max r r' read) :
    At max accepted r' (n + read.length) := by
  obtain ⟨front, hn, hall⟩ := h
  obtain ⟨got, hsupply, hkept⟩ := hread.kept
  refine ⟨front ++ read, by rw [List.length_append, hn], fun more => ?_⟩
  rw [hall more, hsupply, List.append_assoc got, hkept, List.append_assoc]

/-- The frame that is read is the next one. -/
theorem At.frame (h : At max accepted r n) (hread : Reads max r r' [f]) :
    (frames 0 max accepted)[n]? = some f := by
  obtain ⟨front, hn, hall⟩ := h
  obtain ⟨got, hsupply, hkept⟩ := hread.kept
  have hnil := hall []
  rw [List.append_nil, hsupply, List.append_assoc, hkept] at hnil
  rw [hnil, ← hn]
  simp

/-- Bytes are accepted by the peer's adapter, and come to the reader. -/
theorem At.feed (h : At max accepted r n) (bytes : Bytes) :
    At max (accepted ++ bytes) { r with supply := r.supply ++ bytes } n := by
  obtain ⟨front, hn, hall⟩ := h
  refine ⟨front, hn, fun more => ?_⟩
  rw [List.append_assoc, hall (bytes ++ more), List.append_assoc]
  rfl

end Place

/-! ### Aligned exchanges -/

variable {cfg : Config Transcript} {o o' : State Transcript} {n : ℕ}

/-- The last frame that was returned is the packet. -/
def Held (cfg : Config Transcript) (o : State Transcript) (n : ℕ) (packet : Bytes) : Prop :=
  ∃ i f, i + 1 = n ∧ (tape cfg o)[i]? = some f ∧
    report cfg.maxFrame cfg.cobs.decode f = .ok (some packet)

theorem Held.mono {packet : Bytes} (h : Held cfg o n packet)
    (hp : o.framer.accepted <+: o'.framer.accepted) : Held cfg o' n packet := by
  obtain ⟨i, f, hi, hf, hreport⟩ := h
  refine ⟨i, f, hi, ?_, hreport⟩
  obtain ⟨more, hmore⟩ := hp
  obtain ⟨rest, hrest⟩ : tape cfg o <+: tape cfg o' := by
    unfold tape
    rw [← hmore]
    exact frames_initial _ _
  rw [← hrest, List.getElem?_append_left (List.getElem?_eq_some_iff.mp hf).1]
  exact hf

/-- **Where the peer is at a session, the next frame is the next packet.** `anchor` is the place of
the handshake packet. -/
def Aligned (anchor : Transcript → ℕ → Prop) (held : Transcript → ℕ → Prop)
    (pursues : Transcript → Prop) (n : ℕ) : Prop :=
  ∀ key seq place, held key seq → pursues key → anchor key place → n = place + 1 + seq

section Reading

variable {anchor : Transcript → ℕ → Prop} {held held' : Transcript → ℕ → Prop}
  {pursues starts : Transcript → Prop} {b b' : Inbox} {r r' : Reader} {read : List (Frame UInt8)}

/-- The next frame of an aligned exchange opens. -/
theorem aligned_opens (hcobs : cfg.cobs.Lawful) (hst : Steady cfg o) {packet : Bytes}
    {key : Transcript}
    {seq place : ℕ} (hcourse : Course cfg packet place key o) {f : Frame UInt8}
    (hf : (tape cfg o)[place + 1 + seq]? = some f) :
    ∃ packet message, report cfg.maxFrame cfg.cobs.decode f = .ok (some packet) ∧
      openedBy o key seq packet = .ok message := by
  obtain ⟨packet, message, rfl, hsealed⟩ := hcourse.frame hst hf
  obtain ⟨message, hopen⟩ := openedBy_sealed hsealed
  exact ⟨packet, message, report_encode hcobs packet, hopen⟩

/-- **A step of the reading side keeps the alignment, and breaks only a session that the peer has
left.** -/
theorem aligned_takes (hcobs : cfg.cobs.Lawful) (hst : Steady cfg o)
    (hcourse : ∀ key, pursues key → ∃ packet place, anchor key place ∧
      Course cfg packet place key o)
    (hat : At cfg.maxFrame o.framer.accepted r n) (hread : Reads cfg.maxFrame r r' read)
    (ht : Takes cfg.maxFrame cfg.cobs.decode (openedBy o) starts held held' b b' read)
    (hstarts : ∀ key place, starts key → pursues key → anchor key place → n = place + 1)
    (h : Aligned anchor held pursues n) :
    Aligned anchor held' pursues (n + read.length) ∧
      ∀ key, Broken b' key → Broken b key ∨ ¬ pursues key := by
  cases ht with
  | keeps hnil hheld hbroken =>
    subst hnil
    exact ⟨fun key seq place hk => h key seq place (hheld key seq hk),
      fun key hk => .inl (hbroken key hk)⟩
  | starts hnil hstart hheld hbroken =>
    subst hnil
    refine ⟨fun key seq place hk hp ha => ?_, fun key hk => .inl (hbroken key hk)⟩
    obtain ⟨rfl, rfl⟩ := hheld key seq hk
    exact hstarts key place hstart hp ha
  | outside hheld hbroken =>
    exact ⟨fun key seq place hk => absurd hk (hheld key seq), fun key hk => .inl (hbroken key hk)⟩
  | opens hk₀ hone hf hopen hheld hbroken =>
    subst hone
    refine ⟨fun key seq place hk hp ha => ?_, fun key hk => .inl (hbroken key hk)⟩
    obtain ⟨rfl, rfl⟩ := hheld key seq hk
    have hn := h _ _ place hk₀ hp ha
    rw [List.length_singleton, hn]
    omega
  | @fails key₀ seq₀ f hk₀ hone hfails hheld hbroken =>
    subst hone
    have hleft : ¬ pursues key₀ := by
      intro hp
      obtain ⟨packet, place, ha, hc⟩ := hcourse key₀ hp
      have hn := h key₀ seq₀ place hk₀ hp ha
      have hf := hat.frame hread
      rw [hn] at hf
      obtain ⟨packet, message, hreport, hopen⟩ := aligned_opens hcobs hst hc hf
      exact hfails packet message hreport hopen
    refine ⟨fun key seq place hk hp => ?_, fun key hk => ?_⟩
    · obtain ⟨rfl, -⟩ := hheld key seq hk
      exact absurd hp hleft
    · rcases hbroken key hk with hk | rfl
      · exact .inl hk
      · exact .inr hleft

end Reading

end ArkWire.Transport.Alignment
