import ArkWire.Transport.Endpoint

/-! # What a receiving side has heard

`Hears` relates the ghost record of a session to the reader: the frames taken since its start, of
which the first ones are the peer's packets in order. `Inbox.Sound` keeps it, whatever bytes are fed
and however they are cut. -/

namespace ArkWire.Transport.Hearing

open ArkWire.Lib.Delimited
open ArkWire.Transport.Errors ArkWire.Transport.FrameReader ArkWire.Transport.Grammar
open ArkWire.Transport.Endpoint

/-- The result of a call of `next_packet`. -/
abbrev Result := Except TransportError (Option Bytes)

/-- The messages a peer sealed in a context with their packets, by sequence number. -/
abbrev Sealed := Transcript → List (Bytes × Bytes)

/-- **Ideal encryption**: a packet opens at a number exactly if the peer sealed it with that
number. -/
def Ideal (opens : Opens) (peer : Sealed) : Prop :=
  ∀ key seq packet message,
    opens key seq packet = .ok message ↔ (peer key)[seq]? = some (message, packet)

/-- The length of the longest prefix of the results whose members are the packets in order. -/
def matched : List (Bytes × Bytes) → List Result → ℕ
  | (_, packet) :: ps, result :: results =>
    match result with
    | .ok (some p) => if p = packet then matched ps results + 1 else 0
    | _ => 0
  | _, _ => 0

/-- The results of the packets. -/
def packets (ps : List (Bytes × Bytes)) : List Result := ps.map fun p => .ok (some p.2)

theorem matched_packets : ∀ (ps qs : List (Bytes × Bytes)) (results : List Result),
    matched (ps ++ qs) (packets ps ++ results) = ps.length + matched qs results
  | [], qs, results => by simp [packets]
  | p :: ps, qs, results => by
    have ih := matched_packets ps qs results
    simp only [packets, List.map_cons, List.cons_append, matched, if_true, List.length_cons] at ih ⊢
    omega

/-- The first `k` packets were taken. -/
theorem matched_take {ps : List (Bytes × Bytes)} {k : ℕ} (hk : k ≤ ps.length)
    (results : List Result) :
    matched ps (packets (ps.take k) ++ results) = k + matched (ps.drop k) results := by
  conv_lhs => rw [← List.take_append_drop k ps]
  rw [List.take_append_of_le_length (by rw [List.length_take, min_eq_left hk]), List.take_take,
    min_self, matched_packets, List.length_take, min_eq_left hk]

/-- The frame is not the packet that would come next. -/
def Deviates (ps : List (Bytes × Bytes)) (k : ℕ) (result : Result) : Prop :=
  ∀ message packet, ps[k]? = some (message, packet) → result ≠ .ok (some packet)

theorem matched_deviates {ps : List (Bytes × Bytes)} {k : ℕ} {result : Result}
    (h : Deviates ps k result) (results : List Result) :
    matched (ps.drop k) (result :: results) = 0 := by
  cases hd : ps.drop k with
  | nil => rfl
  | cons p ps' =>
    have hp : ps[k]? = some p := by
      rw [← List.head?_drop, hd]
      rfl
    have hne := h p.1 p.2 hp
    rcases result with e | _ | q
    · rfl
    · rfl
    · dsimp only [matched]
      rw [if_neg]
      rintro rfl
      exact hne rfl

variable (max : ℕ) (decode : Bytes → Except String Bytes) (peer : Sealed)

/-- All frames that came in since the session began. -/
def incoming (h : Heard) : List Result :=
  (ahead max h.start (h.start.supply ++ h.fed)).map (report max decode)

/-- `taken` was read since the session began, and nothing else. -/
def Tracks (h : Heard) (reader : Reader) (taken : List (Frame UInt8)) : Prop :=
  ∀ more, ahead max h.start (h.start.supply ++ (h.fed ++ more)) =
    taken ++ ahead max reader (reader.supply ++ more)

/-- What the status of a session says of the frames taken, when `seq` is the receiver's number. -/
def Stands (ps : List (Bytes × Bytes)) (h : Heard) (seq : ℕ) (taken : List Result) : Prop :=
  match h.status with
  | .live => h.delivered.length = seq ∧ taken = packets (ps.take seq)
  | .opened message => h.delivered.length + 1 = seq ∧ taken = packets (ps.take seq) ∧
      ∃ packet, ps[h.delivered.length]? = some (message, packet)
  | .broken => h.delivered.length = seq ∧
      ∃ bad, taken = packets (ps.take seq) ++ [bad] ∧ Deviates ps seq bad
  | .left _ => True

/-- The receiving side of a session, with the messages returned and the frames read. -/
structure Hears (h : Heard) (seq : ℕ) (reader : Reader) (taken : List (Frame UInt8)) : Prop where
  tracks : Tracks max h reader taken
  order : h.delivered = ((peer h.key).take h.delivered.length).map (·.1)
  first : packets ((peer h.key).take h.delivered.length) <+: taken.map (report max decode)
  stands : Stands (peer h.key) h seq (taken.map (report max decode))

/-- **What was returned in a session**: the peer's first messages in order, no more than there are
packets in a row at the start of what came in; and if a frame was bad, all of these. -/
structure Told (h : Heard) : Prop where
  order : h.delivered = ((peer h.key).take h.delivered.length).map (·.1)
  upTo : h.delivered.length ≤ matched (peer h.key) (incoming max decode h)
  broken : h.status = .broken → h.delivered.length = matched (peer h.key) (incoming max decode h) ∧
    ∃ bad, (incoming max decode h)[h.delivered.length]? = some bad ∧
      Deviates (peer h.key) h.delivered.length bad

variable {max decode peer} {h : Heard} {seq : ℕ} {reader reader' : Reader}
  {taken out : List (Frame UInt8)}

theorem length_le_of_order {ps : List (Bytes × Bytes)} {delivered : List Bytes}
    (h : delivered = (ps.take delivered.length).map (·.1)) : delivered.length ≤ ps.length := by
  have hlen := congrArg List.length h
  rw [List.length_map, List.length_take] at hlen
  omega

theorem Hears.told (hh : Hears max decode peer h seq reader taken) : Told max decode peer h := by
  have hle := length_le_of_order hh.order
  have hin : incoming max decode h = taken.map (report max decode) ++
      (ahead max reader (reader.supply ++ [])).map (report max decode) := by
    have ht := hh.tracks []
    rw [List.append_nil] at ht
    rw [incoming, ht, List.map_append]
  refine ⟨hh.order, ?_, fun hb => ?_⟩
  · obtain ⟨rest, hrest⟩ := hh.first
    rw [hin, ← hrest, List.append_assoc, matched_take hle]
    omega
  · have hs := hh.stands
    rw [Stands, hb] at hs
    obtain ⟨hseq, bad, htaken, hdev⟩ := hs
    rw [← hseq] at htaken hdev
    rw [hin, htaken, List.append_assoc, matched_take hle, List.singleton_append,
      matched_deviates hdev]
    refine ⟨rfl, bad, ?_, hdev⟩
    have hlen : (packets ((peer h.key).take h.delivered.length)).length = h.delivered.length := by
      rw [packets, List.length_map, List.length_take, min_eq_left hle]
    rw [List.getElem?_append_right hlen.le, hlen, Nat.sub_self]
    rfl

/-! ### Reading and feeding -/

theorem Tracks.kept (ht : Tracks max h reader taken) (hk : Kept max reader reader' out) :
    Tracks max h reader' (taken ++ out) := by
  obtain ⟨got, hs, ha⟩ := hk
  intro more
  rw [ht more, hs, List.append_assoc, ha, List.append_assoc]

theorem Tracks.feed (ht : Tracks max h reader taken) (bytes : Bytes) :
    Tracks max { h with fed := h.fed ++ bytes }
      { reader with supply := reader.supply ++ bytes } taken := by
  intro more
  have hm := ht (bytes ++ more)
  rw [← List.append_assoc h.fed, ← List.append_assoc reader.supply] at hm
  exact hm

variable (decode) in
/-- What a turn that ends a call returns: a failure of the input takes no frame, anything else is
what the frame taken reports. -/
theorem turn_done (hg : Good max reader) {phase : Phase} (ha : Asking max phase reader)
    {deadline : Option ℕ} {t : Turn} {result : Except TransportError (ℕ × ℕ)}
    (hd : reader.turn max deadline t phase = .done result reader') :
    Good max reader' ∧
      (isIoError (reader'.packet decode result) = true ∧ Kept max reader reader' [] ∨
        ∃ f, reader'.packet decode result = report max decode f ∧ Kept max reader reader' [f]) := by
  have hok := turnOk hg ha deadline t
  rw [hd] at hok
  obtain ⟨hg', out, he, hk⟩ := hok
  obtain ⟨hrep, -⟩ := packet_spec decode he
  refine ⟨hg', ?_⟩
  cases hio : isIoError (reader'.packet decode result) with
  | true =>
    refine .inl ⟨rfl, ?_⟩
    simp only [nonIo, hio, Bool.not_true, List.filter_cons, Bool.false_eq_true, if_false,
      List.filter_nil] at hrep
    rw [eq_comm, List.map_eq_nil_iff] at hrep
    rwa [hrep] at hk
  | false =>
    simp only [nonIo, hio, Bool.not_false, List.filter_cons, if_true, List.filter_nil] at hrep
    obtain ⟨f, rfl, hf⟩ := List.map_eq_singleton_iff.mp hrep.symm
    exact .inr ⟨f, hf.symm, hk⟩

/-! ### The inbox -/

variable (max decode peer) in
/-- The record of the current session is true, and so are those of all earlier ones. -/
structure Sound (b : Inbox) : Prop where
  good : Good max b.reader
  receives : ∀ rx, b.receiver = some rx → ∃ h, b.current = some h
  current : ∀ h, b.current = some h → ∃ rx taken, b.receiver = some rx ∧ rx.key = h.key ∧
    Hears max decode peer h rx.seq b.reader taken
  past : ∀ h ∈ b.past, Told max decode peer h

/-- A frame that comes between two messages. -/
def Live (b : Inbox) : Prop := ∀ h, b.current = some h → h.status = .live

namespace Sound

variable {b : Inbox}

theorem new (max : ℕ) (decode : Bytes → Except String Bytes) (peer : Sealed) (supply : Bytes) :
    Sound max decode peer { reader := .new max supply } where
  good := good_new max supply
  receives rx hrx := by cases hrx
  current h hh := by cases hh
  past h hh := by cases hh

theorem feed (hs : Sound max decode peer b) (bytes : Bytes) :
    Sound max decode peer (b.feed bytes) := by
  refine ⟨⟨hs.good.length, hs.good.offset_le, hs.good.search_le, hs.good.filled_le,
    hs.good.searched, hs.good.offers⟩, fun rx hrx => ?_, fun h hh => ?_, hs.past⟩
  · obtain ⟨h, hh⟩ := hs.receives rx hrx
    exact ⟨_, by rw [Inbox.feed, hh]; rfl⟩
  · obtain ⟨h, hh', rfl⟩ := Option.map_eq_some_iff.mp hh
    obtain ⟨rx, taken, hrx, hkey, hears⟩ := hs.current h hh'
    exact ⟨rx, taken, hrx, hkey, hears.tracks.feed bytes, hears.order, hears.first, hears.stands⟩

/-- The reader moves outside a session. -/
theorem outside (hs : Sound max decode peer b) (hnone : b.current = none)
    (hg : Good max reader') : Sound max decode peer { b with reader := reader' } := by
  refine ⟨hg, hs.receives, fun h hh => ?_, hs.past⟩
  change b.current = some h at hh
  rw [hnone] at hh
  cases hh

/-- The reader takes no frame. -/
theorem read (hs : Sound max decode peer b) (hg : Good max reader')
    (hk : Kept max b.reader reader' []) : Sound max decode peer { b with reader := reader' } := by
  refine ⟨hg, hs.receives, fun h hh => ?_, hs.past⟩
  obtain ⟨rx, taken, hrx, hkey, hears⟩ := hs.current h hh
  have ht := hears.tracks.kept hk
  rw [List.append_nil] at ht
  exact ⟨rx, taken, hrx, hkey, ht, hears.order, hears.first, hears.stands⟩

/-- A new status for the current session. -/
theorem marked (hg : Good max b.reader) (hr : ∀ rx, b.receiver = some rx → ∃ h, b.current = some h)
    (hp : ∀ h ∈ b.past, Told max decode peer h) {status : Status}
    (hc : ∀ h, b.current = some h → ∃ rx taken, b.receiver = some rx ∧ rx.key = h.key ∧
      Hears max decode peer { h with status } rx.seq b.reader taken) :
    Sound max decode peer (b.mark status) := by
  refine ⟨hg, fun rx hrx => ?_, fun h hh => ?_, hp⟩
  · obtain ⟨h, hh⟩ := hr rx hrx
    exact ⟨_, by rw [Inbox.mark, hh]; rfl⟩
  · obtain ⟨h, hh', rfl⟩ := Option.map_eq_some_iff.mp hh
    exact hc h hh'

theorem leave (hs : Sound max decode peer b) (why : Leave) :
    Sound max decode peer (b.mark (.left why)) := by
  refine marked hs.good hs.receives hs.past fun h hh => ?_
  obtain ⟨rx, taken, hrx, hkey, hears⟩ := hs.current h hh
  exact ⟨rx, taken, hrx, hkey, hears.tracks, hears.order, hears.first, trivial⟩

/-- What is known of a live session. -/
theorem live (hs : Sound max decode peer b) (hl : Live b) {h : Heard} (hh : b.current = some h) :
    ∃ rx taken, b.receiver = some rx ∧ rx.key = h.key ∧ rx.seq = h.delivered.length ∧
      Hears max decode peer h rx.seq b.reader taken ∧
      taken.map (report max decode) = packets ((peer h.key).take h.delivered.length) := by
  obtain ⟨rx, taken, hrx, hkey, hears⟩ := hs.current h hh
  have hst := hears.stands
  rw [Stands, hl h hh] at hst
  obtain ⟨hseq, htaken⟩ := hst
  rw [← hseq] at htaken
  exact ⟨rx, taken, hrx, hkey, hseq.symm, hears, htaken⟩

/-- A frame comes that is not the next packet. -/
theorem breaks (hs : Sound max decode peer b) (hl : Live b) (hg : Good max reader')
    {f : Frame UInt8} (hk : Kept max b.reader reader' [f])
    (hdev : ∀ rx, b.receiver = some rx →
      Deviates (peer rx.key) rx.seq (report max decode f)) :
    Sound max decode peer ({ b with reader := reader' }.mark .broken) := by
  refine marked (b := { b with reader := reader' }) hg hs.receives hs.past fun h hh => ?_
  obtain ⟨rx, taken, hrx, hkey, hseq, hears, htaken⟩ := hs.live hl hh
  have hd := hdev rx hrx
  rw [hkey, hseq] at hd
  refine ⟨rx, taken ++ [f], hrx, hkey, hears.tracks.kept hk, hears.order, ?_, hseq.symm,
    report max decode f, ?_, ?_⟩
  · rw [List.map_append]
    exact hears.first.trans (List.prefix_append _ _)
  · rw [List.map_append, htaken, hseq]
    rfl
  · rw [hseq]
    exact hd

theorem close (hs : Sound max decode peer b) : Sound max decode peer b.close := by
  refine ⟨hs.good, fun rx hrx => (by cases hrx), fun h hh => (by cases hh), fun h hh => ?_⟩
  rcases List.mem_append.mp hh with hh | hh
  · exact hs.past h hh
  · obtain ⟨rx, taken, -, -, hears⟩ := hs.current h (Option.mem_toList.mp hh)
    exact hears.told

theorem establish (hs : Sound max decode peer b) (key : Transcript) (c : ℕ) :
    Sound max decode peer (b.establish key c) := by
  refine ⟨hs.good, fun rx _ => ⟨_, rfl⟩, fun h hh => ?_, hs.close.past⟩
  cases hh
  refine ⟨⟨key, 0⟩, [], rfl, rfl, fun more => ?_, rfl, List.prefix_rfl, rfl, rfl⟩
  rfl

/-- A frame comes in a session, and its packet is opened. -/
theorem openPacket {opens : Opens} (hideal : Ideal opens peer) (hs : Sound max decode peer b)
    (hl : Live b) (hg : Good max reader') {f : Frame UInt8} (hk : Kept max b.reader reader' [f])
    {packet : Bytes} (hf : report max decode f = .ok (some packet)) {rx : Receiver}
    (hrx : b.receiver = some rx) :
    Sound max decode peer (Inbox.openPacket opens { b with reader := reader' } rx packet).1 := by
  cases ho : opens rx.key rx.seq packet with
  | error reason =>
    have hnext : (Inbox.openPacket opens { b with reader := reader' } rx packet).1 =
        { b with reader := reader' }.mark .broken := by rw [Inbox.openPacket, ho]
    rw [hnext]
    refine hs.breaks hl hg hk fun rx' hrx' message packet' hp hres => ?_
    rw [hrx, Option.some.injEq] at hrx'
    subst hrx'
    rw [hf, Except.ok.injEq, Option.some.injEq] at hres
    rw [← hres, ← hideal, ho] at hp
    cases hp
  | ok message =>
    have hnext : (Inbox.openPacket opens { b with reader := reader' } rx packet).1 =
        { b with reader := reader', receiver := some { rx with seq := rx.seq + 1 } }.mark
          (.opened message) := by rw [Inbox.openPacket, ho]
    rw [hnext]
    refine marked (b := { b with
        reader := reader', receiver := some { rx with seq := rx.seq + 1 } })
      hg (fun _ _ => hs.receives rx hrx) hs.past fun h hh => ?_
    obtain ⟨rx', taken, hrx', hkey, hseq, hears, htaken⟩ := hs.live hl hh
    rw [hrx, Option.some.injEq] at hrx'
    subst hrx'
    have hp := (hideal _ _ _ _).mp ho
    rw [hkey, hseq] at hp
    refine ⟨_, taken ++ [f], rfl, hkey, hears.tracks.kept hk, hears.order, ?_, ?_, ?_, packet, hp⟩
    · rw [List.map_append]
      exact hears.first.trans (List.prefix_append _ _)
    · show h.delivered.length + 1 = rx.seq + 1
      rw [hseq]
    · show (taken ++ [f]).map (report max decode) = packets ((peer h.key).take (rx.seq + 1))
      rw [List.map_append, htaken, hseq, List.take_add_one, hp, packets, packets, List.map_append,
        List.map_singleton, hf]
      rfl

theorem deliver (hs : Sound max decode peer b) {message : Bytes}
    (ho : ∀ h, b.current = some h → h.status = .opened message) :
    Sound max decode peer (b.deliver message) := by
  refine ⟨hs.good, fun rx hrx => ?_, fun h hh => ?_, hs.past⟩
  · obtain ⟨h, hh⟩ := hs.receives rx hrx
    exact ⟨_, by rw [Inbox.deliver, hh]; rfl⟩
  · obtain ⟨h, hh', rfl⟩ := Option.map_eq_some_iff.mp hh
    obtain ⟨rx, taken, hrx, hkey, hears⟩ := hs.current h hh'
    have hst := hears.stands
    rw [Stands, ho h hh'] at hst
    obtain ⟨hseq, htaken, packet, hp⟩ := hst
    have hlen : (h.delivered ++ [message]).length = rx.seq := by
      rw [List.length_append, List.length_singleton, hseq]
    refine ⟨rx, taken, hrx, hkey, hears.tracks, ?_, ?_, hlen, htaken⟩
    · show h.delivered ++ [message] = _
      rw [hlen, ← hseq, List.take_add_one, List.map_append, ← hears.order, hp]
      rfl
    · rw [hlen, htaken]

end Sound

/-- All sessions, the current one last. -/
def sessions (b : Inbox) : List Heard := b.past ++ b.current.toList

/-- All messages returned, of all sessions. -/
def told (b : Inbox) : List Bytes := (sessions b).flatMap (·.delivered)

/-- A session that had a bad frame has the same messages later. -/
def Frozen (b b' : Inbox) : Prop :=
  ∀ (n : ℕ) (h : Heard), (sessions b)[n]? = some h → h.status = .broken →
    ∃ h' : Heard, (sessions b')[n]? = some h' ∧ h'.status = .broken ∧ h'.delivered = h.delivered

/-- The session is over: a frame was bad, or this side has left it. -/
def Heard.Over (h : Heard) : Prop := h.status = .broken ∨ ∃ why, h.status = .left why

/-- The current session, if any, had no bad frame. -/
def Whole (b : Inbox) : Prop := ∀ h, b.current = some h → h.status ≠ .broken

theorem Live.whole {b : Inbox} (h : Live b) : Whole b := by
  intro x hx hb
  rw [h x hx] at hb
  cases hb

theorem Frozen.of_eq {b b' : Inbox} (h : sessions b' = sessions b) : Frozen b b' := by
  intro n x hx hb
  exact ⟨x, by rw [h]; exact hx, hb, rfl⟩

theorem Frozen.trans {b b' b'' : Inbox} (h : Frozen b b') (h' : Frozen b' b'') : Frozen b b'' := by
  intro n x hx hb
  obtain ⟨x', hx', hb', hd⟩ := h n x hx hb
  obtain ⟨x'', hx'', hb'', hd'⟩ := h' n x' hx' hb'
  exact ⟨x'', hx'', hb'', hd'.trans hd⟩

/-- Only the current session changes. -/
theorem Frozen.current {b b' : Inbox} {f : Heard → Heard} (hp : b'.past = b.past)
    (hc : b'.current = b.current.map f)
    (hf : ∀ h, b.current = some h → h.status = .broken →
      (f h).status = .broken ∧ (f h).delivered = h.delivered) : Frozen b b' := by
  intro n x hx hb
  unfold sessions at hx ⊢
  rw [hp, hc]
  rcases Nat.lt_or_ge n b.past.length with hn | hn
  · rw [List.getElem?_append_left hn] at hx ⊢
    exact ⟨x, hx, hb, rfl⟩
  · rw [List.getElem?_append_right hn] at hx ⊢
    cases hcur : b.current with
    | none =>
      rw [hcur] at hx
      simp at hx
    | some h =>
      rw [hcur] at hx
      have hxh : x = h := by
        cases hk : n - b.past.length with
        | zero => rw [hk] at hx; simpa using hx.symm
        | succ k => rw [hk] at hx; simp at hx
      subst hxh
      have hzero : n - b.past.length = 0 := by
        by_contra hne
        obtain ⟨k, hk⟩ := Nat.exists_eq_succ_of_ne_zero hne
        rw [hk] at hx
        simp at hx
      obtain ⟨hst, hd⟩ := hf x hcur hb
      exact ⟨f x, by rw [hzero]; rfl, hst, hd⟩

variable (max decode peer) in
/-- **What one operation of an endpoint keeps**: the records stay true, a session with a bad frame
stays as it is, `new` is all that is returned, and only sessions that are over are closed. -/
structure Keeps (b b' : Inbox) (new : List Bytes) : Prop where
  sound : Sound max decode peer b'
  frozen : Frozen b b'
  told : told b' = told b ++ new
  closed : (∀ h ∈ b.past, Heard.Over h) → ∀ h ∈ b'.past, Heard.Over h

namespace Keeps

variable {b b' b'' : Inbox} {new new' : List Bytes}

theorem refl (hs : Sound max decode peer b) : Keeps max decode peer b b [] :=
  ⟨hs, .of_eq rfl, (List.append_nil _).symm, id⟩

theorem trans (h : Keeps max decode peer b b' new) (h' : Keeps max decode peer b' b'' new') :
    Keeps max decode peer b b'' (new ++ new') :=
  ⟨h'.sound, h.frozen.trans h'.frozen, by rw [h'.told, h.told, List.append_assoc],
    fun hc => h'.closed (h.closed hc)⟩

/-- Only the reader moves. -/
theorem same (hs : Sound max decode peer { b with reader := reader' }) :
    Keeps max decode peer b { b with reader := reader' } [] :=
  ⟨hs, .of_eq rfl, (List.append_nil _).symm, id⟩

/-- The messages of the current session stay the same. -/
theorem of_map (hs : Sound max decode peer b') {f : Heard → Heard} (hp : b'.past = b.past)
    (hc : b'.current = b.current.map f) (hd : ∀ h, (f h).delivered = h.delivered)
    (hf : ∀ h, b.current = some h → h.status = .broken → (f h).status = .broken) :
    Keeps max decode peer b b' [] := by
  refine ⟨hs, .current hp hc fun h hh hb => ⟨hf h hh hb, hd h⟩, ?_, by rw [hp]; exact id⟩
  rw [Hearing.told, Hearing.told, sessions, sessions, hp, hc, List.append_nil]
  cases b.current with
  | none => rfl
  | some h => simp [hd]

theorem feed (hs : Sound max decode peer b) (bytes : Bytes) :
    Keeps max decode peer b (b.feed bytes) [] :=
  of_map (hs.feed bytes) rfl rfl (fun _ => rfl) (fun _ _ hb => hb)

theorem mark {status : Status} (hs : Sound max decode peer (b.mark status)) (hw : Whole b) :
    Keeps max decode peer b (b.mark status) [] :=
  of_map hs rfl rfl (fun _ => rfl) fun h hh hb => absurd hb (hw h hh)

theorem breaks (hs : Sound max decode peer b) (hl : Live b) (hg : Good max reader')
    {f : Frame UInt8} (hk : Kept max b.reader reader' [f])
    (hdev : ∀ rx, b.receiver = some rx →
      Deviates (peer rx.key) rx.seq (report max decode f)) :
    Keeps max decode peer b ({ b with reader := reader' }.mark .broken) [] :=
  of_map (hs.breaks hl hg hk hdev) rfl rfl (fun _ => rfl) fun _ _ _ => rfl

theorem openPacket {opens : Opens} (hideal : Ideal opens peer) (hs : Sound max decode peer b)
    (hl : Live b) (hg : Good max reader') {f : Frame UInt8} (hk : Kept max b.reader reader' [f])
    {packet : Bytes} (hf : report max decode f = .ok (some packet)) {rx : Receiver}
    (hrx : b.receiver = some rx) :
    Keeps max decode peer b (Inbox.openPacket opens { b with reader := reader' } rx packet).1
        [] := by
  have hsound := hs.openPacket hideal hl hg hk hf hrx
  cases ho : opens rx.key rx.seq packet with
  | error reason =>
    rw [Inbox.openPacket, ho] at hsound ⊢
    exact of_map hsound rfl rfl (fun _ => rfl) fun _ _ _ => rfl
  | ok message =>
    rw [Inbox.openPacket, ho] at hsound ⊢
    refine of_map hsound rfl rfl (fun _ => rfl) fun h hh hb => ?_
    rw [hl h hh] at hb
    cases hb

theorem close (hs : Sound max decode peer b) (ho : ∀ h, b.current = some h → Heard.Over h) :
    Keeps max decode peer b b.close [] := by
  have hsess : sessions b.close = sessions b := by
    rw [sessions, Inbox.close, sessions, Option.toList_none, List.append_nil]
  refine ⟨hs.close, .of_eq hsess, ?_, fun hc h hh => ?_⟩
  · rw [Hearing.told, hsess, Hearing.told, List.append_nil]
  · rcases List.mem_append.mp hh with hh | hh
    · exact hc h hh
    · exact ho h (Option.mem_toList.mp hh)

theorem establish (hs : Sound max decode peer b) (hnone : b.current = none) (key : Transcript)
    (c : ℕ) : Keeps max decode peer b (b.establish key c) [] := by
  have hsess : sessions (b.establish key c) =
      sessions b ++ [{ key, context := c, start := b.reader }] := rfl
  refine ⟨hs.establish key c, fun n x hx hb => ?_, ?_, fun hc h hh => ?_⟩
  · refine ⟨x, ?_, hb, rfl⟩
    rw [hsess, List.getElem?_append_left (List.getElem?_eq_some_iff.mp hx).1]
    exact hx
  · rw [Hearing.told, hsess, List.flatMap_append, Hearing.told]
    rfl
  · change h ∈ b.past ++ b.current.toList at hh
    rw [hnone, Option.toList_none, List.append_nil] at hh
    exact hc h hh

theorem deliver (hs : Sound max decode peer b) {message : Bytes} (hone : b.current.isSome)
    (ho : ∀ h, b.current = some h → h.status = .opened message) :
    Keeps max decode peer b (b.deliver message) [message] := by
  refine ⟨hs.deliver ho, .current rfl rfl fun h hh hb => ?_, ?_, id⟩
  · rw [ho h hh] at hb
    cases hb
  · obtain ⟨h, hh⟩ := Option.isSome_iff_exists.mp hone
    have hcur : (b.deliver message).current =
        some { h with delivered := h.delivered ++ [message], status := .live } := by
      rw [Inbox.deliver, hh]
      rfl
    have hpast : (b.deliver message).past = b.past := rfl
    rw [Hearing.told, Hearing.told, sessions, sessions, hcur, hh, hpast, Option.toList_some,
      Option.toList_some, List.flatMap_append, List.flatMap_append, List.append_assoc,
      List.flatMap_singleton, List.flatMap_singleton]

end Keeps

end ArkWire.Transport.Hearing
