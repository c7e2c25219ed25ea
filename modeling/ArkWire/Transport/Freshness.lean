import ArkWire.Transport.Alignment

/-! # Stale data never breaks a fresh session

Of a client and a server on two streams: whatever the streams held before, whatever attempts,
sessions, timeouts and failed writes came earlier and however the two are interleaved, a session in
which a frame comes that is not the next packet is one that the peer has ended before, and what is
returned in a session are the peer's messages, by their numbers.

`Joint` is the invariant. Where one side waits for the next packet of a session that the peer is at,
its reader is at the place of this packet on the peer's stream (`downward`, `upward`). It comes to
be so where a handshake packet is opened: it cannot be read before its place, and as long as the
peer waits for an answer nothing is behind it. -/

namespace ArkWire.Transport.Freshness

open ArkWire.Lib.Machines ArkWire.Lib.Machines.Machine ArkWire.Lib.Delimited
open ArkWire.Transport.Errors ArkWire.Transport.FrameReader
open ArkWire.Transport.FrameWriter hiding Good good_new
open ArkWire.Transport.Outbound ArkWire.Transport.OutboundSteps ArkWire.Transport.Endpoint
open ArkWire.Transport.Hearing (sessions)
open ArkWire.Transport.Pair ArkWire.Transport.Company ArkWire.Transport.Flow
open ArkWire.Transport.Ledger ArkWire.Transport.Alignment

variable {u : Setup} {p p' : Pair} {nc ns : ℕ} {key : Transcript}

/-- The place of an ArkHello. -/
def Hailed (greetings : List Greeting) (key : Transcript) (place : ℕ) : Prop :=
  ∃ g ∈ greetings, (g.hello = key.hello ∧ g.ark = key.ark) ∧ g.place = place

/-- The place of a HostAck. -/
def Acked (acks : List Ack) (key : Transcript) (place : ℕ) : Prop :=
  ∃ a ∈ acks, a.key = key ∧ a.place = place

/-- **What holds of the two sides together.** The client's reader has returned `nc` frames and the
server's `ns`. -/
structure Joint (u : Setup) (p : Pair) (nc ns : ℕ) : Prop where
  client : ClientCourse.Local u p.acks p.server.out p.client
  server : ServerCourse.Local u p.greetings p.acks p.client.out p.server
  down : At u.maxFrame p.server.out.framer.accepted p.client.inbox.reader nc
  up : At u.maxFrame p.client.out.framer.accepted p.server.inbox.reader ns
  /-- A HostAck answers an ArkHello. -/
  named : ∀ a ∈ p.acks, ∃ g ∈ p.greetings, g.hello = a.key.hello ∧ g.ark = a.key.ark
  filled : ∀ g ∈ p.greetings, g.bytes ≠ []
  /-- The packet that is to be opened was the last frame. -/
  answer : ∀ hello deadline packet, p.client.stage = .answer hello deadline packet →
    packet ≠ [] → Held u.server p.server.out nc packet
  opened : ∀ deadline hello ark packet, p.server.stage = .answer deadline hello ark packet →
    Held u.client p.client.out ns packet
  downward : Aligned (Hailed p.greetings) (ClientMoves.Holds p.client)
    (ServerCourse.Pursues p.server) nc
  upward : Aligned (Acked p.acks) (ServerMoves.Holds p.server) (ClientCourse.Pursues p.client) ns
  /-- The server has not read past a HostAck that it waits for. -/
  waits : ∀ a ∈ p.acks, ClientCourse.Pursues p.client a.key → ∀ n,
    ServerMoves.slack a.key.hello a.key.ark p.server.stage = some n → ns ≤ a.place + n
  /-- Only a session that the peer has left is broken. -/
  leftDown : ∀ key, Broken p.client.inbox key → ¬ ServerCourse.Pursues p.server key
  leftUp : ∀ key, Broken p.server.inbox key → ¬ ClientCourse.Pursues p.client key

/-! ### The other side -/

/-- The acks name their sessions. -/
theorem Joint.known_client (h : Joint u p nc ns) (hk : Broken p.client.inbox key) :
    ∃ a ∈ p.acks, a.key = key := by
  obtain ⟨x, hx, hkey, -⟩ := hk
  obtain ⟨y, hy, hkey'⟩ := h.client.records.bound x hx
  obtain ⟨a, hmem, ha⟩ := h.client.keys _ y hy
  exact ⟨a, hmem, (ha.trans hkey').trans hkey⟩

theorem Joint.known_server (h : Joint u p nc ns) (hk : Broken p.server.inbox key) :
    ∃ a ∈ p.acks, a.key = key := by
  obtain ⟨x, hx, hkey, -⟩ := hk
  obtain ⟨y, hy, hkey'⟩ := h.server.records.bound x hx
  obtain ⟨a, hmem, ha⟩ := h.server.keys _ y hy
  exact ⟨a, hmem, (ha.trans hkey').trans hkey⟩

/-- What was accepted after a step is what was accepted before, and what was sent. -/
theorem accepted_sent {o o' : State Transcript} (h : o.framer.accepted <+: o'.framer.accepted) :
    o'.framer.accepted = o.framer.accepted ++ Pair.sent o o' := by
  obtain ⟨more, hmore⟩ := h
  unfold Pair.sent
  rw [← hmore, List.drop_left]

/-- What a step of one side leaves of its outbound transport. -/
structure Grows (o o' : State Transcript) : Prop where
  accepted : o.framer.accepted <+: o'.framer.accepted
  log : o.log ⊆ o'.log
  keys : KeepsKeys o o'

theorem Grows.of_calm {o o' : State Transcript} (h : Calm o o') : Grows o o' :=
  ⟨by rw [h.framer], h.log, h.keys⟩

theorem Grows.of_step {cfg : Config Transcript} {o o' : State Transcript} (h : Step cfg o o') :
    Grows o o' :=
  ⟨accepted_grows h, (log_step h).1.subset, keepsKeys_step h⟩

/-- **The client moves.** What it does to its own part is given, and the server's part keeps. -/
theorem Joint.client_moves (h : Joint u p nc ns) {client : Client} {new : List Ack} {n : ℕ}
    (hgrows : Grows p.client.out client.out)
    (hlocal : ClientCourse.Local u (p.acks ++ new) p.server.out client)
    (hpursues : ∀ key, (∃ a ∈ p.acks, a.key = key) → ClientCourse.Pursues client key →
      ClientCourse.Pursues p.client key)
    (hdown : At u.maxFrame p.server.out.framer.accepted client.inbox.reader n)
    (hanswer : ∀ hello deadline packet, client.stage = .answer hello deadline packet →
      packet ≠ [] → Held u.server p.server.out n packet)
    (hdownward : Aligned (Hailed p.greetings) (ClientMoves.Holds client)
      (ServerCourse.Pursues p.server) n)
    (hleft : ∀ key, Broken client.inbox key → ¬ ServerCourse.Pursues p.server key)
    (hnew : ∀ a ∈ new, (∃ g ∈ p.greetings, g.hello = a.key.hello ∧ g.ark = a.key.ark) ∧
      (∀ n, ServerMoves.slack a.key.hello a.key.ark p.server.stage = some n → ns ≤ a.place + n) ∧
      ∀ b ∈ p.acks, b.key ≠ a.key) : Joint u (p.clientMoves client new) n ns where
  client := hlocal
  server := h.server.feed hgrows.log hgrows.keys _ new
  down := hdown
  up := by
    have hfeed := h.up.feed (Pair.sent p.client.out client.out)
    rw [← accepted_sent hgrows.accepted] at hfeed
    exact hfeed
  named a ha := by
    rcases List.mem_append.mp ha with ha | ha
    · exact h.named a ha
    · exact (hnew a ha).1
  filled := h.filled
  answer := hanswer
  opened deadline hello ark packet hs :=
    (h.opened deadline hello ark packet hs).mono hgrows.accepted
  downward key seq place hk hp := hdownward key seq place hk (hp.of_feed)
  upward key seq place hk hp ha := by
    obtain ⟨b, hb, hkey⟩ := h.server.known hk
    obtain ⟨a, ha, hkey', hplace⟩ := ha
    have hold : a ∈ p.acks := by
      rcases List.mem_append.mp ha with ha | ha
      · exact ha
      · exact absurd (hkey.trans hkey'.symm) ((hnew a ha).2.2 b hb)
    exact h.upward key seq place hk (hpursues key ⟨b, hb, hkey⟩ hp) ⟨a, hold, hkey', hplace⟩
  waits a ha hp n hn := by
    rcases List.mem_append.mp ha with ha | ha
    · exact h.waits a ha (hpursues a.key ⟨a, ha, rfl⟩ hp) n hn
    · exact (hnew a ha).2.1 n hn
  leftDown key hk hp := hleft key hk (hp.of_feed)
  leftUp key hk hp := by
    have hbroken := broken_feed hk
    exact h.leftUp key hbroken (hpursues key (h.known_server hbroken) hp)

/-- An ArkHello is of one exchange. -/
theorem Joint.greeting_eq (h : Joint u p nc ns) {g g' : Greeting} (hg : g ∈ p.greetings)
    (hg' : g' ∈ p.greetings) (heq : g.ark = g'.ark) : g = g' :=
  List.inj_on_of_nodup_map h.server.distinct hg hg' heq

theorem Joint.ack_eq (h : Joint u p nc ns) {a a' : Ack} (ha : a ∈ p.acks) (ha' : a' ∈ p.acks)
    (heq : a.key = a'.key) : a = a' :=
  List.inj_on_of_nodup_map h.client.distinct ha ha' heq

/-- **The server moves.** -/
theorem Joint.server_moves (h : Joint u p nc ns) {server : Server} {new : List Greeting}
    {n : ℕ} (hgrows : Grows p.server.out server.out)
    (hlocal : ServerCourse.Local u (p.greetings ++ new) p.acks p.client.out server)
    (hpursues : ∀ key, (∃ a ∈ p.acks, a.key = key) → ServerCourse.Pursues server key →
      ServerCourse.Pursues p.server key)
    (hup : At u.maxFrame p.client.out.framer.accepted server.inbox.reader n)
    (hopened : ∀ deadline hello ark packet, server.stage = .answer deadline hello ark packet →
      Held u.client p.client.out n packet)
    (hupward : Aligned (Acked p.acks) (ServerMoves.Holds server) (ClientCourse.Pursues p.client) n)
    (hwaits : ∀ a ∈ p.acks, ClientCourse.Pursues p.client a.key → ∀ m,
      ServerMoves.slack a.key.hello a.key.ark server.stage = some m → n ≤ a.place + m)
    (hleft : ∀ key, Broken server.inbox key → ¬ ClientCourse.Pursues p.client key)
    (hnew : ∀ g ∈ new, g.bytes ≠ []) : Joint u (p.serverMoves server new) nc n where
  client := h.client.feed hgrows.log hgrows.keys _
  server := hlocal
  down := by
    have hfeed := h.down.feed (Pair.sent p.server.out server.out)
    rw [← accepted_sent hgrows.accepted] at hfeed
    exact hfeed
  up := hup
  named a ha := by
    obtain ⟨g, hg, hname⟩ := h.named a ha
    exact ⟨g, List.mem_append_left _ hg, hname⟩
  filled g hg := by
    rcases List.mem_append.mp hg with hg | hg
    · exact h.filled g hg
    · exact hnew g hg
  answer hello deadline packet hs hne :=
    (h.answer hello deadline packet hs hne).mono hgrows.accepted
  opened := hopened
  downward key seq place hk hp ha := by
    obtain ⟨a, hmem, hkey⟩ := h.client.known hk
    obtain ⟨g, hg, hname⟩ := h.named a hmem
    obtain ⟨g', hg', hname', hplace⟩ := ha
    rw [hkey] at hname
    have hg'' : g' = g := List.inj_on_of_nodup_map hlocal.distinct hg' (List.mem_append_left _ hg)
      (hname'.2.trans hname.2.symm)
    subst hg''
    exact h.downward key seq place hk (hpursues key ⟨a, hmem, hkey⟩ hp) ⟨g', hg, hname', hplace⟩
  upward key seq place hk hp ha := hupward key seq place hk (hp.of_feed) ha
  waits a ha hp := hwaits a ha (hp.of_feed)
  leftDown key hk hp := by
    have hbroken := broken_feed hk
    exact h.leftDown key hbroken (hpursues key (h.known_client hbroken) hp)
  leftUp key hk hp := hleft key hk (hp.of_feed)

/-! ### What was left -/

/-- **A session that was answered and left is not begun again.** -/
structure Later (p p' : Pair) : Prop where
  acks : p.acks ⊆ p'.acks
  client : ∀ key, (∃ a ∈ p.acks, a.key = key) → ClientCourse.Pursues p'.client key →
    ClientCourse.Pursues p.client key
  server : ∀ key, (∃ a ∈ p.acks, a.key = key) → ServerCourse.Pursues p'.server key →
    ServerCourse.Pursues p.server key
  clientBinds : ∀ (c : ℕ) (x' : Context Transcript), p'.client.out.contexts[c]? = some x' →
    (∃ a ∈ p.acks, a.key = x'.key) →
    (∃ x, p.client.out.contexts[c]? = some x ∧ x.key = x'.key) ∨
    ClientCourse.Pursues p.client x'.key
  serverBinds : ∀ (c : ℕ) (x' : Context Transcript), p'.server.out.contexts[c]? = some x' →
    (∃ a ∈ p.acks, a.key = x'.key) →
    (∃ x, p.server.out.contexts[c]? = some x ∧ x.key = x'.key) ∨
    ServerCourse.Pursues p.server x'.key

theorem Later.refl (p : Pair) : Later p p :=
  ⟨fun _ h => h, fun _ _ h => h, fun _ _ h => h, fun _ x hx _ => .inl ⟨x, hx, rfl⟩,
    fun _ x hx _ => .inl ⟨x, hx, rfl⟩⟩

theorem Later.trans {p'' : Pair} (h : Later p p') (h' : Later p' p'') : Later p p'' := by
  have hknown : ∀ {key}, (∃ a ∈ p.acks, a.key = key) → ∃ a ∈ p'.acks, a.key = key := by
    rintro key ⟨a, ha, hkey⟩
    exact ⟨a, h.acks ha, hkey⟩
  refine ⟨fun _ ha => h'.acks (h.acks ha),
    fun key hk hp => h.client key hk (h'.client key (hknown hk) hp),
    fun key hk hp => h.server key hk (h'.server key (hknown hk) hp), fun c x hx hk => ?_,
    fun c x hx hk => ?_⟩
  · rcases h'.clientBinds c x hx (hknown hk) with ⟨y, hy, hkey⟩ | hp
    · rw [← hkey] at hk ⊢
      exact h.clientBinds c y hy hk
    · exact .inr (h.client _ hk hp)
  · rcases h'.serverBinds c x hx (hknown hk) with ⟨y, hy, hkey⟩ | hp
    · rw [← hkey] at hk ⊢
      exact h.serverBinds c y hy hk
    · exact .inr (h.server _ hk hp)

theorem later_client {client : Client} {new : List Ack}
    (hpursues : ∀ key, (∃ a ∈ p.acks, a.key = key) → ClientCourse.Pursues client key →
      ClientCourse.Pursues p.client key)
    (hbinds : ∀ (c : ℕ) (x' : Context Transcript), client.out.contexts[c]? = some x' →
      (∃ x, p.client.out.contexts[c]? = some x ∧ x.key = x'.key) ∨
        ClientCourse.Pursues p.client x'.key) : Later p (p.clientMoves client new) where
  acks := List.subset_append_left _ _
  client := hpursues
  server _ _ hp := hp.of_feed
  clientBinds c x' hx _ := hbinds c x' hx
  serverBinds _ x' hx _ := .inl ⟨x', hx, rfl⟩

theorem later_server {server : Server} {new : List Greeting}
    (hpursues : ∀ key, (∃ a ∈ p.acks, a.key = key) → ServerCourse.Pursues server key →
      ServerCourse.Pursues p.server key)
    (hbinds : ∀ (c : ℕ) (x' : Context Transcript), server.out.contexts[c]? = some x' →
      (∃ x, p.server.out.contexts[c]? = some x ∧ x.key = x'.key) ∨
        ServerCourse.Pursues p.server x'.key) : Later p (p.serverMoves server new) where
  acks := fun _ h => h
  client _ _ hp := hp.of_feed
  server := hpursues
  clientBinds _ x' hx _ := .inl ⟨x', hx, rfl⟩
  serverBinds c x' hx _ := hbinds c x' hx

/-! ### The owners -/

/-- An ArkHello opens if the server has sealed it for this attempt. -/
theorem answers_starts {input : Client.Input} {new : List Ack} (h : p.answers u input = some new)
    (hk : ClientMoves.Starts p.client input key) :
    (∀ a ∈ p.acks, a.key ≠ key) ∧ ∃ deadline, ∃ g ∈ p.greetings,
      (g.hello = key.hello ∧ g.ark = key.ark) ∧
        p.client.stage = .answer key.hello deadline g.bytes := by
  obtain ⟨deadline, packet, bytes, hs, rfl⟩ := hk
  unfold Pair.answers at h
  rw [hs] at h
  dsimp only at h
  split_ifs at h with hguard
  obtain ⟨⟨g, hg, hhello, hark, hbytes⟩, hfresh, -⟩ := hguard
  exact ⟨hfresh, deadline, g, hg, ⟨hhello, hark⟩, by rw [hbytes]; exact hs⟩

/-- An exchange that the client begins is aligned: the ArkHello cannot be read before its place, and
nothing is behind it. -/
theorem Joint.starts_down (h : Joint u p nc ns) {input : Client.Input} {new : List Ack}
    (hanswers : p.answers u input = some new) {place : ℕ}
    (hk : ClientMoves.Starts p.client input key) (hp : ServerCourse.Pursues p.server key)
    (ha : Hailed p.greetings key place) : nc = place + 1 := by
  obtain ⟨hfresh, deadline, g, hg, hname, hs⟩ := answers_starts hanswers hk
  obtain ⟨g', hg', hname', rfl⟩ := ha
  obtain rfl := h.greeting_eq hg hg' (hname.2.trans hname'.2.symm)
  obtain ⟨g', hg', hname', hcourse⟩ := h.server.course hp
  obtain rfl := h.greeting_eq hg hg' (hname.2.trans hname'.2.symm)
  obtain ⟨i, f, hi, hf, hreport⟩ := h.answer _ _ _ hs (h.filled g hg)
  have hfirst := hcourse.first hf hreport
  have hlast := hcourse.length_le (h.server.unbound hp hfresh)
  have hlt := (List.getElem?_eq_some_iff.mp hf).1
  omega

/-- **The client's owner moves.** -/
theorem Joint.client_own (hcobs : u.cobs.Lawful) (h : Joint u p nc ns) {input : Client.Input}
    {client : Client} {new : List Ack} (hanswers : p.answers u input = some new)
    (hown : p.client.own u.client u.codec (openedBy p.server.out) input = .next client) :
    ∃ n, Joint u (p.clientMoves client new) n ns ∧ Later p (p.clientMoves client new) := by
  obtain ⟨⟨value, hidle⟩, hmove⟩ := ClientMoves.move_own h.client.reader h.client.stage hown
  have hadds := ClientCourse.adds_answers hanswers
  obtain ⟨read, hread, htakes⟩ :=
    ClientMoves.takes_move h.client.reader h.client.records h.client.stage hmove
  have hat := h.down.reads hread
  have hcourse : ∀ key, ServerCourse.Pursues p.server key → ∃ packet place,
      Hailed p.greetings key place ∧ Course u.server packet place key p.server.out := by
    intro key hp
    obtain ⟨g, hg, hname, hcourse⟩ := h.server.course hp
    exact ⟨g.bytes, g.place, ⟨g, hg, hname, rfl⟩, hcourse⟩
  obtain ⟨hdownward, hbroken⟩ := aligned_takes (show u.server.cobs.Lawful from hcobs)
    h.server.steady hcourse h.down hread htakes (fun key place => h.starts_down hanswers) h.downward
  have hcalm := ClientMoves.calm_move hmove
  have hpursues : ∀ key, (∃ a ∈ p.acks, a.key = key) → ClientCourse.Pursues client key →
      ClientCourse.Pursues p.client key := by
    rintro key ⟨a, ha, hkey⟩ hp
    rcases ClientCourse.pursues_move hmove hp with hp | hstarts
    · exact hp
    · exact absurd hkey ((answers_starts hanswers hstarts).1 a ha)
  refine ⟨nc + read.length, h.client_moves (.of_calm hcalm) (h.client.own hadds hidle hmove)
    hpursues hat (fun hello deadline packet hs hne => ?_) hdownward (fun key hk => ?_)
      fun a ha => ?_,
    later_client hpursues fun c x hx => ?_⟩
  · obtain ⟨f, hone, hreport⟩ := ClientMoves.answer_move hmove hs
    exact ⟨nc, f, (h.down.reads hone).unique hat, h.down.frame hone, hreport hne⟩
  · rcases hbroken key hk with hk | hk
    · exact h.leftDown key hk
    · exact hk
  · cases hadds with
    | nothing => cases ha
    | @ack hello deadline packet bytes ark ack hin hs hfresh =>
      rw [List.mem_singleton] at ha
      subst ha
      have hstarts : ClientMoves.Starts p.client input ⟨hello, ark, ack⟩ :=
        ⟨deadline, packet, bytes, hs, hin⟩
      obtain ⟨-, -, g, hg, hname, -⟩ := answers_starts hanswers hstarts
      refine ⟨⟨g, hg, hname⟩, fun n _ => ?_, hfresh⟩
      have hle := h.up.le
      have hlead : (tape u.client p.client.out).length ≤ place u.client p.client.out :=
        (frames_initial _ _).length_le
      exact (hle.trans hlead).trans (Nat.le_add_right _ _)
  · rw [hcalm.contexts] at hx
    exact .inl ⟨x, hx, rfl⟩

/-- An exchange that the server binds is aligned: the HostAck cannot be read before its place, and
the server has not read past it. -/
theorem Joint.starts_up (h : Joint u p nc ns) {input : Server.Input} {new : List Greeting}
    (hadds : ServerCourse.Adds u p.greetings p.acks p.server input new) {place : ℕ}
    (hk : ServerMoves.Starts p.server input key) (hp : ClientCourse.Pursues p.client key)
    (ha : Acked p.acks key place) : ns = place + 1 := by
  have hstarts := hk
  obtain ⟨deadline, packet, hs, hin⟩ := hk
  obtain ⟨a, hmem, hkey, hbytes⟩ : ∃ a ∈ p.acks, a.key = key ∧ a.bytes = packet := by
    cases hadds with
    | nothing hseals hknown hopened => exact hopened key deadline packet hstarts hs
    | greeting hin' =>
      rw [hin] at hin'
      cases hin'
  obtain ⟨a', hmem', hkey', rfl⟩ := ha
  obtain rfl := h.ack_eq hmem hmem' (hkey.trans hkey'.symm)
  obtain ⟨a', hmem', hkey', hcourse⟩ := h.client.course hp
  obtain rfl := h.ack_eq hmem hmem' (hkey.trans hkey'.symm)
  obtain ⟨i, f, hi, hf, hreport⟩ := h.opened _ _ _ _ hs
  rw [← hbytes] at hreport
  have hfirst := hcourse.first hf hreport
  subst hkey
  have hslack : ServerMoves.slack a.key.hello a.key.ark p.server.stage = some 1 := by
    rw [hs]
    exact if_pos ⟨rfl, rfl⟩
  have hle := h.waits a hmem hp 1 hslack
  omega

/-- **The server's owner moves.** -/
theorem Joint.server_own (hcobs : u.cobs.Lawful) (h : Joint u p nc ns) {input : Server.Input}
    {server : Server} {new : List Greeting} (hgreets : p.greets u input = some new)
    (hown : p.server.own u.server u.codec (openedBy p.client.out) input = .next server) :
    ∃ n, Joint u (p.serverMoves server new) nc n ∧ Later p (p.serverMoves server new) := by
  obtain ⟨⟨value, hidle⟩, hmove⟩ :=
    ServerMoves.move_own h.server.records h.server.reader h.server.stage hown
  have hadds := ServerCourse.adds_greets hgreets
  obtain ⟨read, hread, htakes⟩ :=
    ServerMoves.takes_move h.server.reader h.server.records h.server.stage hmove
  have hat := h.up.reads hread
  have hcourse : ∀ key, ClientCourse.Pursues p.client key → ∃ packet place,
      Acked p.acks key place ∧ Course u.client packet place key p.client.out := by
    intro key hp
    obtain ⟨a, ha, hkey, hcourse⟩ := h.client.course hp
    exact ⟨a.bytes, a.place, ⟨a, ha, hkey, rfl⟩, hcourse⟩
  obtain ⟨hupward, hbroken⟩ := aligned_takes (show u.client.cobs.Lawful from hcobs)
    h.client.steady hcourse h.up hread htakes (fun key place => h.starts_up hadds) h.upward
  -- A fresh ArkHello is of no session that the client has answered.
  have hgreeted : ∀ {hello : HostHello} {ark : ArkHello},
      ServerMoves.Greets p.server input hello ark → ∀ a ∈ p.acks, ark ≠ a.key.ark := by
    rintro hello ark ⟨deadline, bytes, hs, hin⟩ a ha heq
    obtain ⟨g, hg, hname⟩ := h.named a ha
    cases hadds with
    | nothing hne => exact hne _ hin
    | greeting hin' hs' hfresh =>
      rw [hin] at hin'
      cases hin'
      exact hfresh g hg (hname.2.trans heq.symm)
  have hcalm := ServerMoves.calm_move hmove
  have hpursues : ∀ key, (∃ a ∈ p.acks, a.key = key) → ServerCourse.Pursues server key →
      ServerCourse.Pursues p.server key := by
    rintro key ⟨a, ha, rfl⟩ hp
    rcases ServerCourse.pursues_move h.server hmove hp with hp | hgreets
    · exact hp
    · exact absurd rfl (hgreeted hgreets a ha)
  refine ⟨ns + read.length, h.server_moves (.of_calm hcalm) (h.server.own hadds hidle hmove)
    hpursues hat (fun deadline hello ark packet hs => ?_) hupward (fun a ha hp m hm => ?_)
    (fun key hk => ?_) fun g hg => ?_, later_server hpursues fun c x hx => ?_⟩
  · obtain ⟨f, hone, hreport⟩ := ServerMoves.answer_move hmove hs
    exact ⟨ns, f, (h.up.reads hone).unique hat, h.up.frame hone, hreport⟩
  · rcases ServerMoves.slack_move h.server.reader hmove hm with hgreets | ⟨-, n, read',
      hn, hread', hlen⟩
    · exact absurd rfl (hgreeted hgreets a ha)
    · have hle := h.waits a ha hp n hn
      have heq := (h.up.reads hread').unique hat
      omega
  · rcases hbroken key hk with hk | hk
    · exact h.leftUp key hk
    · exact hk
  · cases hadds with
    | nothing => cases hg
    | greeting hin hs hfresh hbytes =>
      rw [List.mem_singleton] at hg
      subst hg
      unfold fresh at hbytes
      rw [decide_eq_true_eq] at hbytes
      exact hbytes.1
  · rw [hcalm.contexts] at hx
    exact .inl ⟨x, hx, rfl⟩

/-! ### The other threads -/

theorem Joint.client_thread (hcobs : u.cobs.Lawful) (hmax : 0 < u.maxFrame) (h : Joint u p nc ns)
    {a : Outbound.Action Transcript} {o' : State Transcript} (hp : permitted a = true)
    (hs : p.client.out.step u.client a = .next o') :
    Joint u (p.clientMoves { p.client with out := o' } []) nc ns ∧
      Later p (p.clientMoves { p.client with out := o' } []) := by
  have hpursues : ∀ key, (∃ a ∈ p.acks, a.key = key) →
      ClientCourse.Pursues { p.client with out := o' } key → ClientCourse.Pursues p.client key :=
    fun key _ hk => ClientCourse.pursues_thread h.client hp hs hk
  refine ⟨h.client_moves (.of_step (step_cases hs)) ?_ hpursues h.down h.answer h.downward
    h.leftDown fun a ha => (by cases ha),
    later_client hpursues fun c x hx => ClientCourse.binds_thread h.client hs hx⟩
  rw [List.append_nil]
  exact h.client.thread hcobs hmax hp hs

theorem Joint.server_thread (hcobs : u.cobs.Lawful) (hmax : 0 < u.maxFrame) (h : Joint u p nc ns)
    {a : Outbound.Action Transcript} {o' : State Transcript} (hp : permitted a = true)
    (hs : p.server.out.step u.server a = .next o') :
    Joint u (p.serverMoves { p.server with out := o' } []) nc ns ∧
      Later p (p.serverMoves { p.server with out := o' } []) := by
  have hpursues : ∀ key, (∃ a ∈ p.acks, a.key = key) →
      ServerCourse.Pursues { p.server with out := o' } key → ServerCourse.Pursues p.server key :=
    fun key _ hk => ServerCourse.pursues_thread h.server hp hs hk
  refine ⟨h.server_moves (.of_step (step_cases hs)) ?_ hpursues h.up h.opened h.upward
    h.waits h.leftUp fun g hg => (by cases hg),
    later_server hpursues fun c x hx => ServerCourse.binds_thread h.server hs hx⟩
  rw [List.append_nil]
  exact h.server.thread hcobs hmax hp hs

/-! ### Runs -/

variable {toServer toClient : Writer} {a : Pair.Action}

theorem joint_init (hserver : FrameWriter.Good u.maxFrame toServer)
    (hclient : FrameWriter.Good u.maxFrame toClient)
    (hsane : rest 0 toClient.accepted = [] ∨ toClient.resync = true) :
    Joint u (pair u toServer toClient).init 0 0 := by
  have hnone : ∀ {b : Inbox} {key : Transcript}, b.past = [] → b.current = none →
      ¬ Broken b key := by
    rintro b key hp hc ⟨x, hx, -⟩
    unfold sessions at hx
    rw [hp, hc] at hx
    cases hx
  constructor
  · exact ClientCourse.local_init hserver _ _
  · exact ServerCourse.local_init hclient hsane _ _
  · exact at_new _ _
  · exact at_new _ _
  · exact fun a ha => by cases ha
  · exact fun g hg => by cases hg
  · exact fun hello deadline packet hs => by cases hs
  · exact fun deadline hello ark packet hs => by cases hs
  · rintro key seq place hk hp ⟨g, hg, -⟩
    cases hg
  · rintro key seq place hk hp ⟨a, ha, -⟩
    cases ha
  · exact fun a ha => by cases ha
  · exact fun key hk => absurd hk (hnone rfl rfl)
  · exact fun key hk => absurd hk (hnone rfl rfl)

/-- **Every step keeps the two sides aligned.** -/
theorem joint_step (hcobs : u.cobs.Lawful) (hmax : 0 < u.maxFrame) (h : Joint u p nc ns)
    (hs : (pair u toServer toClient).step p a = .next p') :
    (∃ nc ns, Joint u p' nc ns) ∧ Later p p' := by
  cases a with
  | client input =>
    dsimp only [pair] at hs
    split at hs
    · next acks client hanswers hown =>
      cases hs
      obtain ⟨n, hjoint, hlater⟩ := h.client_own hcobs hanswers hown
      exact ⟨⟨n, ns, hjoint⟩, hlater⟩
    · cases hs
    · cases hs
  | clientThread a =>
    dsimp only [pair] at hs
    split at hs
    · next out hout =>
      cases hs
      obtain ⟨hp, hstep⟩ := handles_next hout
      obtain ⟨hjoint, hlater⟩ := h.client_thread hcobs hmax hp hstep
      exact ⟨⟨nc, ns, hjoint⟩, hlater⟩
    · cases hs
    · cases hs
  | server input =>
    dsimp only [pair] at hs
    split at hs
    · next greetings server hgreets hown =>
      cases hs
      obtain ⟨n, hjoint, hlater⟩ := h.server_own hcobs hgreets hown
      exact ⟨⟨nc, n, hjoint⟩, hlater⟩
    · cases hs
    · cases hs
  | serverThread a =>
    dsimp only [pair] at hs
    split at hs
    · next out hout =>
      cases hs
      obtain ⟨hp, hstep⟩ := handles_next hout
      obtain ⟨hjoint, hlater⟩ := h.server_thread hcobs hmax hp hstep
      exact ⟨⟨nc, ns, hjoint⟩, hlater⟩
    · cases hs
    · cases hs

theorem joint_reachable (hcobs : u.cobs.Lawful) (hmax : 0 < u.maxFrame)
    (hserver : FrameWriter.Good u.maxFrame toServer)
    (hclient : FrameWriter.Good u.maxFrame toClient)
    (hsane : rest 0 toClient.accepted = [] ∨ toClient.resync = true)
    (hp : Reachable (pair u toServer toClient) p) : ∃ nc ns, Joint u p nc ns := by
  refine hp.invariant (I := fun p => ∃ nc ns, Joint u p nc ns)
    ⟨0, 0, joint_init hserver hclient hsane⟩ ?_
  rintro s a s' - ⟨nc, ns, h⟩ hstep
  exact (joint_step hcobs hmax h hstep).1

/-- **Every run keeps the two sides aligned**, and what was left before it stays left. -/
theorem joint_run (hcobs : u.cobs.Lawful) (hmax : 0 < u.maxFrame) (h : Joint u p nc ns)
    {as : List Pair.Action} {q : Pair} (hrun : (pair u toServer toClient).run as p = some q) :
    (∃ nc ns, Joint u q nc ns) ∧ Later p q := by
  refine run_invariant (m := pair u toServer toClient)
    (I := fun q => (∃ nc ns, Joint u q nc ns) ∧ Later p q) ?_ ⟨⟨nc, ns, h⟩, .refl p⟩ hrun
  rintro s a s' ⟨⟨nc, ns, h⟩, hlater⟩ hstep
  obtain ⟨hjoint, hstep'⟩ := joint_step hcobs hmax h hstep
  exact ⟨hjoint, hlater.trans hstep'⟩

/-- What was returned in the session are the first messages that the peer has sealed in its context
of the key. -/
def Verbatim (o : State Transcript) (h : Heard) : Prop :=
  h.delivered = [] ∨ ∃ c x, o.contexts[c]? = some x ∧ x.key = h.key ∧
    h.delivered <+: messages c o.log

theorem verbatim_of_told {cfg : Config Transcript} {o : State Transcript} (hst : Steady cfg o)
    (hsingle : Single o) {h : Heard} (htold : Told o h) : Verbatim o h := by
  by_cases hnil : h.delivered = []
  · exact .inl hnil
  · have hfirst : h.delivered[0]? = some (h.delivered.head hnil) := by
      rw [← List.head?_eq_getElem?, List.head?_eq_some_head hnil]
    obtain ⟨-, c, x, hx, hkey, -⟩ := htold 0 _ hfirst
    refine .inr ⟨c, x, hx, hkey, List.prefix_iff_getElem?.mpr fun i hi => ?_⟩
    obtain ⟨packet, c', x', hx', hkey', hmem⟩ := htold i _ (List.getElem?_eq_getElem hi)
    obtain rfl := hsingle c c' x x' hx hx' (hkey.trans hkey'.symm)
    exact messages_of_sealed hst hmem

/-- The peer has ended a session that is broken here, whenever it is that the peer binds it. -/
theorem Joint.ended_server (h : Joint u p nc ns) {q : Pair} (hlater : Later p q)
    (hbroken : Broken p.client.inbox key) {c : ℕ} {x' : Context Transcript}
    (hx' : q.server.out.contexts[c]? = some x') (hkey : x'.key = key) :
    ∃ cause, .removed c cause ∈ p.server.out.log := by
  subst hkey
  have hleft := h.leftDown _ hbroken
  rcases hlater.serverBinds c x' hx' (h.known_client hbroken) with ⟨x, hx, hk⟩ | hp
  · rcases h.server.steady.ended c (List.getElem?_eq_some_iff.mp hx).1 with hb | hremoved
    · exact absurd (.bound hb hx hk) hleft
    · exact hremoved
  · exact absurd hp hleft

theorem Joint.ended_client (h : Joint u p nc ns) {q : Pair} (hlater : Later p q)
    (hbroken : Broken p.server.inbox key) {c : ℕ} {x' : Context Transcript}
    (hx' : q.client.out.contexts[c]? = some x') (hkey : x'.key = key) :
    ∃ cause, .removed c cause ∈ p.client.out.log := by
  subst hkey
  have hleft := h.leftUp _ hbroken
  rcases hlater.clientBinds c x' hx' (h.known_server hbroken) with ⟨x, hx, hk⟩ | hp
  · rcases h.client.steady.ended c (List.getElem?_eq_some_iff.mp hx).1 with hb | hremoved
    · exact absurd (.bound hb hx hk) hleft
    · exact hremoved
  · exact absurd hp hleft

/-- **Stale data never breaks a fresh session.** Whatever the streams held before the run (where an
unterminated frame to the client is one that the server is to resynchronise after), in every
reachable state: neither side has bound a key twice; what was returned in a session are the first
messages that the peer has sealed in its context of the same key; and if a frame came in a session
that was not the next packet, every context that the peer ever binds for this key had been removed
before. -/
theorem fresh_session (hcobs : u.cobs.Lawful) (hmax : 0 < u.maxFrame)
    (hserver : FrameWriter.Good u.maxFrame toServer)
    (hclient : FrameWriter.Good u.maxFrame toClient)
    (hsane : rest 0 toClient.accepted = [] ∨ toClient.resync = true)
    (hp : Reachable (pair u toServer toClient) p) :
    (Single p.client.out ∧ Single p.server.out) ∧
      ((∀ h ∈ sessions p.client.inbox, Verbatim p.server.out h) ∧
        ∀ h ∈ sessions p.server.inbox, Verbatim p.client.out h) ∧
      ∀ as q, (pair u toServer toClient).run as p = some q →
        (∀ h ∈ sessions p.client.inbox, h.status = .broken →
          ∀ (c : ℕ) (x : Context Transcript), q.server.out.contexts[c]? = some x → x.key = h.key →
            ∃ cause, .removed c cause ∈ p.server.out.log) ∧
        ∀ h ∈ sessions p.server.inbox, h.status = .broken →
          ∀ (c : ℕ) (x : Context Transcript), q.client.out.contexts[c]? = some x → x.key = h.key →
            ∃ cause, .removed c cause ∈ p.client.out.log := by
  obtain ⟨nc, ns, h⟩ := joint_reachable hcobs hmax hserver hclient hsane hp
  refine ⟨⟨h.client.single, h.server.single⟩, ⟨fun x hx => ?_, fun x hx => ?_⟩, fun as q hrun => ?_⟩
  · exact verbatim_of_told h.server.steady h.server.single (h.client.records.told x hx)
  · exact verbatim_of_told h.client.steady h.client.single (h.server.records.told x hx)
  · have hlater := (joint_run hcobs hmax h hrun).2
    refine ⟨fun x hx hbroken c y hy hkey => ?_, fun x hx hbroken c y hy hkey => ?_⟩
    · exact h.ended_server hlater ⟨x, hx, rfl, hbroken⟩ hy hkey
    · exact h.ended_client hlater ⟨x, hx, rfl, hbroken⟩ hy hkey

section Runs

open ArkWire.Transport.Integrity (smallCodec advance reads)

/-- Frames of at most eight bytes; a sealed packet is its number and the message. -/
def smallSetup : Setup where
  cobs := .standard
  maxFrame := 8
  maxMessage := 4
  codec := smallCodec
  clientSeal _ seq message := some (UInt8.ofNat seq :: message)
  serverSeal _ seq message := some (UInt8.ofNat seq :: message)

/-- Both streams begin with a part of a frame. -/
def stale (resync : Bool) : Writer := { Writer.new 8 with accepted := [9], resync }

/-- The client connects behind the stale data, sends a message and connects again. -/
def reconnecting : List Pair.Action :=
  let client (n : ℕ) := List.replicate n (Pair.Action.clientThread (advance 0))
  let server (n : ℕ) := List.replicate n (Pair.Action.serverThread (advance 0))
  let hears (n : ℕ) := List.replicate n (Pair.Action.server (.turn reads 50))
  let steps : List (List Pair.Action) :=
    [[.client (.connect ⟨0, 1⟩ 50)], client 4, [.client .go], client 4,
      [.client .go, .server .recv, .server (.go 0)], hears 3, server 4,
      [.server (.go 0), .server (.go 0)], hears 1, [.server (.go 0)], server 2, [.server (.go 0)],
      hears 1, [.server (.seals (.ok (⟨1, 2⟩, [1, 4])))], server 4, [.server (.go 0)],
      List.replicate 5 (.client (.turn reads)), [.client (.answer (.ok (⟨1, 2⟩, ⟨3⟩, [6])))],
      client 4, [.client .go], client 2, [.client .go], hears 3, [.server (.opened (.ok ⟨3⟩))],
      server 2, [.server (.go 0), .clientThread (.call 1 (.send 0 [7]))],
      List.replicate 7 (.clientThread (advance 1)), [.server .recv, .server (.go 0)], hears 3,
      [.server (.go 0), .client (.connect ⟨0, 1⟩ 90)], client 4, [.server .recv, .server (.go 0)],
      hears 3]
  steps.flatten

/-- The message arrives, the reset breaks the session, and the client had ended it. -/
theorem fresh_session_reconnecting :
    let m := pair smallSetup (stale false) (stale true)
    ∃ p h, m.run reconnecting m.init = some p ∧ sessions p.server.inbox = [h] ∧
      h.delivered = [[7]] ∧ h.status = .broken ∧ Verbatim p.client.out h ∧
      ∃ cause, .removed 0 cause ∈ p.client.out.log := by
  intro m
  have hrun : (m.run reconnecting m.init).map (fun p =>
      ((sessions p.server.inbox).map (fun h => (h.delivered, h.status)),
        decide (p.client.out.contexts.map (·.key) = (sessions p.server.inbox).map (·.key)))) =
      some ([([[7]], .broken)], true) := by
    decide +kernel
  obtain ⟨p, hr, hp⟩ := Option.map_eq_some_iff.mp hrun
  rw [Prod.mk.injEq, List.map_eq_singleton_iff, decide_eq_true_eq] at hp
  obtain ⟨⟨h, hh, hheard⟩, hkeys⟩ := hp
  rw [hh, List.map_singleton, List.map_eq_singleton_iff] at hkeys
  obtain ⟨x, hx, hkey⟩ := hkeys
  rw [Prod.mk.injEq] at hheard
  obtain ⟨hdelivered, hstatus⟩ := hheard
  have hgood : ∀ resync, FrameWriter.Good smallSetup.maxFrame (stale resync) := fun _ =>
    ⟨(FrameWriter.good_new 8).length, (FrameWriter.good_new 8).first⟩
  obtain ⟨-, ⟨-, hverbatim⟩, hended⟩ := fresh_session Cobs.standard_lawful (by decide) (hgood false)
    (hgood true) (.inr rfl) (reachable_of_run hr)
  have hmem : h ∈ sessions p.server.inbox := by simp [hh]
  exact ⟨p, h, hr, hh, hdelivered, hstatus, hverbatim h hmem,
    (hended [] p rfl).2 h hmem hstatus 0 x (by rw [hx]; rfl) hkey⟩

end Runs

end ArkWire.Transport.Freshness
