import ArkWire.Transport.Integrity
import ArkWire.Transport.OutboundSteps

/-! # The event grammar of the server

`follows` is the grammar of what `Server::recv` and `Server::disconnect` return, as an automaton
whose state is whether the caller is in a session. `Regular` places every stage of the owner in it:
the send context is there exactly when the receive context is, and it belongs to the latest
`Connected`. -/

namespace ArkWire.Transport.Events

open ArkWire.Lib.Machines
open ArkWire.Transport.Errors ArkWire.Transport.FrameReader ArkWire.Transport.FrameWriter
open ArkWire.Transport.Outbound ArkWire.Transport.OutboundSteps
open ArkWire.Transport.Endpoint ArkWire.Transport.Server
open ArkWire.Transport.Integrity (serverMessages openSealed smallConfig smallCodec advance reads)

variable {cfg : Config Transcript} {codec : Codec} {opens : Opens} {s s' : Server}

/-- **The grammar** `(Connected Message* (Disconnected | local disconnect))*`. Errors may come at
any time, and a local disconnect outside a session does nothing. -/
def follows : Bool → Returned → Option Bool
  | false, .connected _ => some true
  | false, .left => some false
  | true, .message _ => some true
  | true, .disconnected => some false
  | true, .left => some false
  | inside, .failed _ => some inside
  | _, _ => none

/-- Whether the caller is in a session, if what was returned is a word of the grammar. -/
def word (returned : List Returned) : Option Bool := returned.foldlM follows false

/-- The context of the latest `Connected`. -/
def latest (returned : List Returned) : Option ℕ :=
  returned.foldl (fun c r => match r with | .connected c => some c | _ => c) none

theorem word_append (returned : List Returned) (r : Returned) :
    word (returned ++ [r]) = (word returned).bind (follows · r) := by
  rw [word, List.foldlM_append, word]
  cases List.foldlM follows false returned with
  | none => rfl
  | some inside =>
    show (follows inside r).bind some = follows inside r
    cases follows inside r <;> rfl

theorem latest_append (returned : List Returned) (r : Returned) :
    latest (returned ++ [r]) = match r with | .connected c => some c | _ => latest returned := by
  rw [latest, List.foldl_append, latest]
  rfl

/-! ### Where each stage is in the grammar -/

/-- The owner is in `Outbound::bind`, and gets a context with the key. -/
def Binds (out : State Transcript) (key : Transcript) : Pc Transcript → Prop
  | .waitWriter (.bind k) => k = key
  | .holdWriter (.bind k) => k = key
  | .idle (.bound c) => ∃ x, out.contexts[c]? = some x ∧ x.key = key
  | _ => False

/-- A message was opened in the context. -/
def Opened (opens : Opens) (out : State Transcript) (c : ℕ) (message : Bytes) : Prop :=
  ∃ x seq packet, out.contexts[c]? = some x ∧ opens x.key seq packet = .ok message

/-- The owner is not in the outbound transport. -/
def Rests (out : State Transcript) : Prop := ∃ value, out.threads owner = .idle value

def Placed (opens : Opens) (s : Server) (inside : Bool) : Stage → Prop
  | .idle =>
    (inside = s.sealer.isSome ∧ (s.handshakeDeadline.isSome → s.sealer = none)) ∧ Rests s.out
  | .top =>
    (inside = s.sealer.isSome ∧ (s.handshakeDeadline.isSome → s.sealer = none)) ∧ Rests s.out
  | .read _ => (inside = s.sealer.isSome ∧ s.handshakeDeadline = none) ∧ Rests s.out
  | .accept c opened => (inside = true ∧ s.handshakeDeadline = none) ∧ s.sealer = some c ∧
      ∀ message, opened = .ok message → Opened opens s.out c message
  | .ending _ next => inside = true ∧ s.sealer.isSome ∧ next ≠ .again
  | .dropping next => s.sealer = none ∧ (next = .disconnected → inside = true) ∧
      (next = .again → inside = false)
  | .bind key => (inside = false ∧ s.sealer = none ∧ s.handshakeDeadline = none) ∧
      Binds s.out key (s.out.threads owner)
  | _ => inside = false ∧ s.sealer = none ∧ s.handshakeDeadline = none

/-- The two contexts belong together, and to the latest `Connected`. -/
structure Held (s : Server) : Prop where
  both : s.inbox.receiver.isSome = s.sealer.isSome
  session : ∀ c, s.sealer = some c → latest s.returned = some c ∧
    ∃ x rx, s.out.contexts[c]? = some x ∧ s.inbox.receiver = some rx ∧ rx.key = x.key

structure Regular (opens : Opens) (s : Server) : Prop where
  held : Held s
  placed : ∃ inside, word s.returned = some inside ∧ Placed opens s inside s.stage

theorem Held.congr (h : Held s) (hsealer : s'.sealer = s.sealer)
    (hrx : s'.inbox.receiver.map (·.key) = s.inbox.receiver.map (·.key))
    (hlatest : latest s'.returned = latest s.returned) (hkeys : KeepsKeys s.out s'.out) :
    Held s' := by
  refine ⟨?_, fun c hc => ?_⟩
  · rw [hsealer, ← h.both, ← Option.isSome_map (f := fun rx : Receiver => rx.key), hrx,
      Option.isSome_map]
  · rw [hsealer] at hc
    obtain ⟨hl, x, rx, hx, hrx', hkey⟩ := h.session c hc
    obtain ⟨x', hx', hkey'⟩ := hkeys c x hx
    rw [hrx', Option.map_some, Option.map_eq_some_iff] at hrx
    obtain ⟨rx₁, hrx₁, hk⟩ := hrx
    exact ⟨hlatest.trans hl, x', rx₁, hx', hrx₁, by rw [hkey', ← hkey, hk]⟩

theorem Held.sealer_none (h : Held s) (hrx : s.inbox.receiver = none) : s.sealer = none := by
  have hb := h.both
  rw [hrx] at hb
  exact Option.not_isSome_iff_eq_none.mp (by rw [← hb]; exact Bool.false_ne_true)

theorem Held.receiver_none (h : Held s) (hs : s.sealer = none) : s.inbox.receiver = none := by
  have hb := h.both
  rw [hs] at hb
  exact Option.not_isSome_iff_eq_none.mp (by rw [hb]; exact Bool.false_ne_true)

theorem Held.none (hs : s'.sealer = none) (hrx : s'.inbox.receiver = none) : Held s' := by
  refine ⟨by rw [hs, hrx]; rfl, fun c hc => ?_⟩
  rw [hs] at hc
  cases hc

/-! ### Steps of other threads -/

/-- The owner begins no call but in a step of its own. -/
theorem not_call_owner {t : ℕ} {call : Call Transcript} (hp : permitted (.call t call) = true) :
    owner ≠ t := by
  rintro rfl
  cases call with
  | send c message => simp [permitted] at hp
  | finishReceive c result => simp [permitted] at hp
  | locked call => cases call <;> simp [permitted] at hp

/-- The owner takes no step while it is not in a call. -/
theorem idle_other {out out' : State Transcript} {a : Outbound.Action Transcript}
    (h : Rests out) (hp : permitted a = true) (hstep : out.step cfg a = .next out') :
    owner ≠ actor a := by
  obtain ⟨value, hv⟩ := h
  intro hactor
  cases a with
  | call t call => exact not_call_owner hp hactor
  | advance t budget o =>
    have ht : t = owner := hactor.symm
    subst ht
    change out.advance cfg owner budget o (out.threads owner) = .next out' at hstep
    rw [hv] at hstep
    cases hstep

theorem idle_handle {out out' : State Transcript} {a : Outbound.Action Transcript} {value : Value}
    (h : out.threads owner = .idle value) (hp : permitted a = true)
    (hstep : out.step cfg a = .next out') : out'.threads owner = .idle value := by
  rw [step_threads_of_ne hstep (idle_other ⟨value, h⟩ hp hstep), h]

theorem rests_handle {out out' : State Transcript} {a : Outbound.Action Transcript}
    (h : Rests out) (hp : permitted a = true) (hstep : out.step cfg a = .next out') :
    Rests out' := by
  obtain ⟨value, hv⟩ := h
  exact ⟨value, idle_handle hv hp hstep⟩

theorem binds_handle {out out' : State Transcript} {a : Outbound.Action Transcript}
    {key : Transcript} (h : Binds out key (out.threads owner))
    (hp : permitted a = true) (hstep : out.step cfg a = .next out') :
    Binds out' key (out'.threads owner) := by
  have hkeys := keepsKeys_step (step_cases hstep)
  by_cases hactor : owner = actor a
  · cases a with
    | call t call =>
      exact absurd hactor (not_call_owner hp)
    | advance t budget o =>
      have ht : t = owner := hactor.symm
      subst ht
      change out.advance cfg owner budget o (out.threads owner) = .next out' at hstep
      cases hpc : out.threads owner with
      | waitWriter call =>
        rw [hpc] at h hstep
        dsimp only [State.advance] at hstep
        split_ifs at hstep
        cases hstep
        show Binds _ key (Function.update out.threads owner _ owner)
        rw [Function.update_self]
        cases call with
        | bind k => exact h
        | _ => cases h
      | holdWriter call =>
        rw [hpc] at h hstep
        cases call with
        | bind k =>
          cases hstep
          show Binds _ key (Function.update (out.bind k).threads owner _ owner)
          rw [Function.update_self]
          refine ⟨⟨k, 0, none⟩, ?_, h⟩
          show (out.contexts ++ [_])[out.contexts.length]? = _
          rw [List.getElem?_append_right le_rfl, Nat.sub_self]
          rfl
        | _ => cases h
      | idle value =>
        rw [hpc] at hstep
        cases hstep
      | _ =>
        rw [hpc] at h
        cases h
  · rw [step_threads_of_ne hstep hactor]
    cases hpc : out.threads owner with
    | idle value =>
      rw [hpc] at h
      cases value with
      | bound c =>
        obtain ⟨x, hx, hkey⟩ := h
        obtain ⟨x', hx', hkey'⟩ := hkeys c x hx
        exact ⟨x', hx', hkey'.trans hkey⟩
      | _ => cases h
    | waitWriter call =>
      rw [hpc] at h
      cases call with
      | bind k => exact h
      | _ => cases h
    | holdWriter call =>
      rw [hpc] at h
      cases call with
      | bind k => exact h
      | _ => cases h
    | _ =>
      rw [hpc] at h
      cases h

theorem opened_keys {out out' : State Transcript} (h : KeepsKeys out out') {c : ℕ}
    {message : Bytes} (ho : Opened opens out c message) : Opened opens out' c message := by
  obtain ⟨x, seq, packet, hx, hopen⟩ := ho
  obtain ⟨x', hx', hkey⟩ := h c x hx
  exact ⟨x', seq, packet, hx', by rw [hkey]; exact hopen⟩

theorem regular_handle (h : Regular opens s) {a : Outbound.Action Transcript}
    {out : State Transcript} (hs : handles cfg s.out a = .next out) :
    Regular opens { s with out } := by
  obtain ⟨hp, hstep⟩ := handles_next hs
  have hkeys := keepsKeys_step (step_cases hstep)
  refine ⟨h.held.congr rfl rfl rfl hkeys, ?_⟩
  obtain ⟨inside, hword, hplaced⟩ := h.placed
  refine ⟨inside, hword, ?_⟩
  show Placed opens { s with out } inside s.stage
  cases hst : s.stage with
  | accept c opened =>
    rw [hst] at hplaced
    exact ⟨hplaced.1, hplaced.2.1, fun m hm => opened_keys hkeys (hplaced.2.2 m hm)⟩
  | bind key =>
    rw [hst] at hplaced
    exact ⟨hplaced.1, binds_handle hplaced.2 hp hstep⟩
  | idle =>
    rw [hst] at hplaced
    exact ⟨hplaced.1, rests_handle hplaced.2 hp hstep⟩
  | top =>
    rw [hst] at hplaced
    exact ⟨hplaced.1, rests_handle hplaced.2 hp hstep⟩
  | read phase =>
    rw [hst] at hplaced
    exact ⟨hplaced.1, rests_handle hplaced.2 hp hstep⟩
  | _ =>
    rw [hst] at hplaced
    exact hplaced

/-! ### Steps of the owner -/

/-- `recv` was called, and has neither returned nor ended a session. -/
def calling : Stage → Bool
  | .idle => false
  | .accept _ _ => false
  | .ending _ _ => false
  | .dropping next => next = .again
  | _ => true

/-- The contexts are the same. -/
def Same (s s' : Server) : Prop := s'.sealer = s.sealer ∧ s'.inbox.receiver = s.inbox.receiver

/-- What a step that returns does. -/
def Emitted (s s' : Server) : Returned → Prop
  | .message message => ∃ c, s.stage = .accept c (.ok message) ∧ s.out.binding = some c
  | .failed _ => calling s.stage = true ∧ s'.out = s.out ∧ Same s s'
  | _ => True

/-- A step that does not return: a call loops only where the contexts stay. -/
def Silent (s s' : Server) : Prop :=
  s'.returned = s.returned ∧
    (calling s'.stage = true → s.stage = .idle ∨ calling s.stage = true ∧ Same s s') ∧
    (s'.stage = .idle → s.stage = .idle ∧ Same s s')

structure Advances (opens : Opens) (s s' : Server) : Prop where
  regular : Regular opens s'
  emits : Silent s s' ∨
    ∃ r, s'.returned = s.returned ++ [r] ∧ s'.stage = .idle ∧ Emitted s s' r

namespace Advances

variable {inside : Bool}

/-- A step to another stage of the call, or to a stage that has left the loop. -/
theorem quiet (hheld : Held s') (hw : word s.returned = some inside)
    (hr : s'.returned = s.returned) (hp : Placed opens s' inside s'.stage)
    (hcall : calling s'.stage = true → s.stage = .idle ∨ calling s.stage = true ∧ Same s s')
    (hidle : s'.stage ≠ .idle) : Advances opens s s' :=
  ⟨⟨hheld, inside, by rw [hr]; exact hw, hp⟩, .inl ⟨hr, hcall, fun h => absurd h hidle⟩⟩

/-- A step in the loop. -/
theorem stays (hheld : Held s) (hw : word s.returned = some inside) (hc : calling s.stage = true)
    (hsame : Same s s') (hr : s'.returned = s.returned) (hk : KeepsKeys s.out s'.out)
    (hp : Placed opens s' inside s'.stage) (hidle : s'.stage ≠ .idle) : Advances opens s s' :=
  quiet (hheld.congr hsame.1 (by rw [hsame.2]) (by rw [hr]) hk) hw hr hp (fun _ => .inr ⟨hc, hsame⟩)
    hidle

theorem returns {inside' : Bool} {r : Returned} {t : Server} (hheld : Held (t.returns r))
    (hw : word s.returned = some inside) (hr : t.returned = s.returned)
    (hf : follows inside r = some inside')
    (hp : (inside' = t.sealer.isSome ∧ (t.handshakeDeadline.isSome → t.sealer = none)) ∧
      Rests t.out)
    (he : Emitted s (t.returns r) r) : Advances opens s (t.returns r) := by
  have hreturned : (t.returns r).returned = s.returned ++ [r] := by
    rw [← hr]
    rfl
  refine ⟨⟨hheld, inside', ?_, hp⟩, .inr ⟨r, hreturned, rfl, he⟩⟩
  rw [hreturned, word_append, hw]
  exact hf

/-- Without contexts: what follows a notification. -/
theorem follow {t : Server} (hw : word s.returned = some inside) (hr : t.returned = s.returned)
    (hs : t.sealer = none) (hrx : t.inbox.receiver = none) (hrest : Rests t.out) {next : Then}
    (hdis : next = .disconnected → inside = true) (hagain : next = .again → inside = false)
    (hcall : next = .again → s.stage = .idle ∨ calling s.stage = true ∧ Same s t) :
    Advances opens s (t.follow next) := by
  have hpending : (false = t.sealer.isSome ∧ (t.handshakeDeadline.isSome → t.sealer = none)) ∧
      Rests t.out := ⟨⟨by rw [hs]; rfl, fun _ => hs⟩, hrest⟩
  cases next with
  | disconnected =>
    refine returns (.none hs hrx) hw hr ?_ hpending trivial
    rw [hdis rfl]
    rfl
  | again =>
    refine quiet (.none hs hrx) hw hr ?_ (fun _ => hcall rfl) (fun h => by cases h)
    rw [hagain rfl]
    exact hpending
  | done =>
    refine returns (.none hs hrx) hw hr ?_ hpending trivial
    cases inside <;> rfl

/-- `end_session` releases the contexts. -/
theorem released {t : Server} (hw : word s.returned = some inside) (hr : t.returned = s.returned)
    (hrest : Rests t.out) (drop : Bool) {next : Then}
    (hdis : next = .disconnected → inside = true) (hagain : next = .again → inside = false)
    (hcall : next = .again → s.stage = .idle ∨ calling s.stage = true ∧
      s.sealer = none ∧ s.inbox.receiver = none) :
    Advances opens s (t.released drop next) := by
  have hsame : next = .again → s.stage = .idle ∨ calling s.stage = true ∧
      Same s { t with inbox := t.inbox.close, sealer := none } := by
    intro h
    refine (hcall h).imp_right fun ⟨hc, hs, hrx⟩ => ⟨hc, ?_, ?_⟩
    · exact hs.symm
    · exact hrx.symm
  unfold Server.released
  dsimp only
  split_ifs
  · refine quiet (.none rfl rfl) hw hr ⟨rfl, hdis, hagain⟩ (fun h => ?_) (fun h => by cases h)
    exact hsame (of_decide_eq_true h)
  · exact follow (t := { t with inbox := t.inbox.close, sealer := none }) hw hr rfl rfl hrest hdis
      hagain hsame

/-- `end_session`: where there is a session, `Disconnected` follows or `disconnect` returns. -/
theorem endSession {t : Server} (hheld : Held t) (hw : word s.returned = some inside)
    (hr : t.returned = s.returned) (hin : inside = t.sealer.isSome) (hrest : Rests t.out)
    (drop : Bool) {next : Then} (hagain : next = .again → t.sealer = none)
    (hdis : next = .disconnected → t.sealer.isSome = true)
    (hcall : next = .again → s.stage = .idle ∨ calling s.stage = true ∧
      s.sealer = none ∧ s.inbox.receiver = none) :
    Advances opens s (t.endSession drop next) := by
  unfold Server.endSession
  split
  · rename_i c hc
    refine quiet (hheld.congr rfl rfl rfl (.of_eq rfl)) hw hr ?_ (fun h => by cases h)
      (fun h => by cases h)
    have hsome : t.sealer.isSome = true := by rw [hc]; rfl
    refine ⟨hin.trans hsome, hsome, fun h => ?_⟩
    rw [hagain h] at hc
    cases hc
  · rename_i hc
    rw [hc] at hin hdis
    refine released hw hr hrest drop (fun h => ?_) (fun _ => hin) hcall
    cases hdis h

/-- A failed handshake. -/
theorem abandon {reader : Reader} {stage : Stage} (hw : word s.returned = some false)
    (hs : s.sealer = none) (hrx : s.inbox.receiver = none) (hrest : Rests s.out)
    (hpending : s.handshakeDeadline = none) (hc : calling s.stage = true) (deadline : ℕ)
    (error : TransportError) : Advances opens s
      (Server.abandon { s with inbox := { s.inbox with reader }, stage } deadline error) := by
  have hfail : ∀ e, Advances opens s
      (Server.returns { s with inbox := { s.inbox with reader }, stage } (.failed e)) :=
    fun e => returns (.none hs hrx) hw rfl rfl ⟨⟨by rw [hs]; rfl, fun _ => hs⟩, hrest⟩
      ⟨hc, rfl, rfl, rfl⟩
  unfold Server.abandon
  split
  · exact hfail _
  · exact hfail _
  · exact hfail _
  · exact quiet (.none hs hrx) hw rfl ⟨rfl, hs, hpending⟩ (fun _ => .inr ⟨hc, rfl, rfl⟩)
      (fun h => by cases h)

end Advances

/-- A frame comes in the loop of `recv`. -/
theorem advances_heard {phase : Phase} {reader : Reader} {deadline : ℕ}
    {result : Except TransportError (Option Bytes)} (h : Regular opens s)
    (hst : s.stage = .read phase)
    (hnext : Server.heard opens { s with inbox := { s.inbox with reader } } deadline
      result = .next s') :
    Advances opens s s' := by
  obtain ⟨hheld, inside, hw, hplaced⟩ := h
  rw [hst] at hplaced
  obtain ⟨⟨hin, hpending⟩, hrest⟩ := hplaced
  have hcalling : calling s.stage = true := by rw [hst]; rfl
  have hfail : ∀ e, Advances opens s
      (Server.returns { s with inbox := { s.inbox with reader } } (.failed e)) := by
    intro e
    refine .returns (hheld.congr rfl rfl (latest_append _ _) (.of_eq rfl)) hw rfl ?_
      ⟨⟨hin, fun hd => ?_⟩, hrest⟩ ⟨hcalling, rfl, rfl, rfl⟩
    · cases inside <;> rfl
    · rw [hpending] at hd
      cases hd
  -- a session that ends where one is, with `Disconnected`
  have hend : ∀ (t : Server) (drop : Bool), t.sealer = s.sealer → t.inbox.receiver =
      s.inbox.receiver →
      t.out = s.out → t.returned = s.returned → Advances opens s (t.endSession drop
        (Server.ended { s with inbox := { s.inbox with reader } })) := by
    intro t drop hs hrx hout hr
    have hheld' : Held t :=
      hheld.congr hs (by rw [hrx]) (by rw [hr]) (by rw [hout]; exact .of_eq rfl)
    have hin' : inside = t.sealer.isSome := by rw [hs]; exact hin
    unfold Server.ended
    dsimp only
    cases hrx₀ : s.inbox.receiver with
    | none =>
      have hnone := hheld.sealer_none hrx₀
      exact .endSession hheld' hw hr hin' (by rw [hout]; exact hrest) drop (fun _ => hs.trans hnone)
        (fun h => by cases h) (fun _ => .inr ⟨hcalling, hnone, hrx₀⟩)
    | some rx =>
      have hsome : t.sealer.isSome = true := by rw [hs, ← hheld.both, hrx₀]; rfl
      exact .endSession hheld' hw hr hin' (by rw [hout]; exact hrest) drop (fun h => by cases h)
        (fun _ => hsome) (fun h => by cases h)
  unfold Server.heard at hnext
  split at hnext
  · cases hnext
    exact hfail _
  · cases hnext
    exact hfail _
  · cases hnext
    exact hend _ _ rfl rfl rfl rfl
  · cases hnext
    exact hend _ _ rfl rfl rfl rfl
  · split at hnext
    · rename_i hrx
      cases hnext
      change s.inbox.receiver = none at hrx
      have hs := hheld.sealer_none hrx
      refine .quiet (.none hs hrx) hw rfl ⟨hs, fun h => (by cases h), fun _ => ?_⟩
        (fun _ => .inr ⟨hcalling, rfl, rfl⟩) (fun h => by cases h)
      rw [hin, hs]
      rfl
    · rename_i rx c hrx hc
      change s.sealer = some c at hc
      change s.inbox.receiver = some rx at hrx
      have hsome : inside = true := by rw [hin, hc]; rfl
      obtain ⟨hlatest, x, rx', hx, hrx', hkey⟩ := hheld.session c hc
      rw [hrx, Option.some.injEq] at hrx'
      subst hrx'
      unfold Inbox.openPacket at hnext
      split at hnext
      · rename_i inbox opened hsplit
        cases hnext
        split at hsplit
        · rename_i message hopen
          cases hsplit
          refine .quiet (hheld.congr rfl (by rw [hrx]; rfl) rfl (.of_eq rfl)) hw rfl ?_
            (fun h => by cases h) (fun h => by cases h)
          refine ⟨⟨hsome, hpending⟩, hc, fun m hm => ?_⟩
          cases hm
          exact ⟨x, rx.seq, _, hx, by rw [← hkey]; exact hopen⟩
        · cases hsplit
          refine .quiet (hheld.congr rfl rfl rfl (.of_eq rfl)) hw rfl ?_
            (fun h => by cases h) (fun h => by cases h)
          exact ⟨⟨hsome, hpending⟩, hc, fun m hm => (by cases hm)⟩
    · cases hnext

/-- `finish_receive` returns. -/
theorem advances_accepted {c : ℕ} {opened : Except TransportError Bytes} (h : Regular opens s)
    (hst : s.stage = .accept c opened) :
    Advances opens s (Server.accepted
      { s with out := s.out.received owner c (s.out.finishReceive c opened) } opened
      (s.out.finishReceive c opened)) := by
  obtain ⟨hheld, inside, hw, hplaced⟩ := h
  rw [hst] at hplaced
  obtain ⟨⟨hin, hpending⟩, hc, -⟩ := hplaced
  have hsome : inside = s.sealer.isSome := by rw [hin, hc]; rfl
  have hrest : Rests (s.out.received owner c (s.out.finishReceive c opened)) :=
    ⟨_, Function.update_self owner _ s.out.threads⟩
  have hend : ∀ t : Server, t.sealer = s.sealer → t.inbox.receiver = s.inbox.receiver →
      t.out = s.out.received owner c (s.out.finishReceive c opened) → t.returned = s.returned →
      Advances opens s (t.endSession true .disconnected) := by
    intro t hs hrx hout hr
    have hheld' : Held t :=
      hheld.congr hs (by rw [hrx]) (by rw [hr]) (by rw [hout]; exact .of_eq rfl)
    exact .endSession hheld' hw hr (by rw [hs]; exact hsome) (by rw [hout]; exact hrest) true
      (fun h => by cases h) (fun _ => by rw [hs, hc]; rfl) (fun h => by cases h)
  unfold Server.accepted
  split
  · rename_i message hres
    have hbound : s.out.binding = some c ∧ opened = .ok message := by
      unfold State.finishReceive at hres
      split_ifs at hres with hb
      exact ⟨hb, hres⟩
    have hf : follows inside (.message message) = some true := by
      rw [hin]
      rfl
    refine .returns (hheld.congr rfl ?_ (latest_append _ _) (.of_eq rfl)) hw rfl hf
      ⟨⟨?_, fun hd => ?_⟩, ?_⟩ ?_
    · rfl
    · show true = s.sealer.isSome
      rw [hc]
      rfl
    · change s.handshakeDeadline.isSome = true at hd
      rw [hpending] at hd
      cases hd
    · exact hrest
    · exact ⟨c, by rw [hst, hbound.2], hbound.1⟩
  · split
    · exact hend _ rfl rfl rfl rfl
    · exact hend _ rfl rfl rfl rfl

/-! ### One stage at a time -/

section Stages
variable {value : Value} {input : Input}

theorem advances_idle (h : Regular opens s) (hstage : s.stage = .idle)
    (hnext : s.resume cfg codec opens value .idle input = .next s') : Advances opens s s' := by
  obtain ⟨hheld, inside, hw, hst⟩ := h
  rw [hstage] at hst
  obtain ⟨⟨hin, hpending⟩, hrest⟩ := hst
  cases input with
  | recv =>
    cases hnext
    exact .quiet (hheld.congr rfl rfl rfl (.of_eq rfl)) hw rfl ⟨⟨hin, hpending⟩, hrest⟩
      (fun _ => .inl hstage) (fun h => by cases h)
  | disconnect =>
    cases hnext
    refine .endSession (t := { s with inbox := s.inbox.mark (.left .disconnected) })
      (hheld.congr rfl rfl rfl (.of_eq rfl)) hw rfl hin hrest true ?_ ?_ ?_
    · intro h
      cases h
    · intro h
      cases h
    · intro h
      cases h
  | _ => cases hnext

/-- The loop of `recv` reads, or starts the handshake that is pending. -/
theorem advances_top (h : Regular opens s) (hstage : s.stage = .top)
    (hnext : s.resume cfg codec opens value .top input = .next s') : Advances opens s s' := by
  obtain ⟨hheld, inside, hw, hst⟩ := h
  rw [hstage] at hst
  obtain ⟨⟨hin, hpending⟩, hrest⟩ := hst
  have hcalling : calling s.stage = true := by rw [hstage]; rfl
  cases input with
  | go now =>
    cases hnext
    unfold Server.loop
    split
    · rename_i deadline hd
      have hs : s.sealer = none := hpending (by rw [hd]; rfl)
      exact .stays hheld hw hcalling ⟨rfl, rfl⟩ rfl (.of_eq rfl) ⟨by rw [hin, hs]; rfl, hs, rfl⟩
        (fun h => by cases h)
    · rename_i hd
      exact .stays hheld hw hcalling ⟨rfl, rfl⟩ rfl (.of_eq rfl) ⟨⟨hin, hd⟩, hrest⟩
        (fun h => by cases h)
  | _ => cases hnext

theorem advances_read (h : Regular opens s) {phase : Phase} (hstage : s.stage = .read phase)
    (hnext : s.resume cfg codec opens value (.read phase) input = .next s') :
    Advances opens s s' := by
  have hcalling : calling s.stage = true := by rw [hstage]; rfl
  cases input with
  | turn t deadline =>
    dsimp only [Server.resume] at hnext
    split at hnext
    · obtain ⟨hheld, inside, hw, hst⟩ := h
      rw [hstage] at hst
      cases hnext
      exact .stays hheld hw hcalling ⟨rfl, rfl⟩ rfl (.of_eq rfl) hst (fun h => by cases h)
    · exact advances_heard h hstage hnext
  | _ => cases hnext

/-- `Outbound::end` has returned. -/
theorem advances_ending (h : Regular opens s) (hidle : s.out.threads owner = .idle value)
    {drop : Bool} {next : Then} (hstage : s.stage = .ending drop next)
    (hnext : s.resume cfg codec opens value (.ending drop next) input = .next s') :
    Advances opens s s' := by
  obtain ⟨-, inside, hw, hst⟩ := h
  rw [hstage] at hst
  obtain ⟨hin, -, hagain⟩ := hst
  cases input with
  | go now =>
    cases hnext
    exact .released hw rfl ⟨value, hidle⟩ drop (fun _ => hin) (fun h => absurd h hagain)
      (fun h => absurd h hagain)
  | _ => cases hnext

theorem advances_dropping (h : Regular opens s) (hidle : s.out.threads owner = .idle value)
    {next : Then} (hstage : s.stage = .dropping next)
    (hnext : s.resume cfg codec opens value (.dropping next) input = .next s') :
    Advances opens s s' := by
  obtain ⟨hheld, inside, hw, hst⟩ := h
  rw [hstage] at hst
  obtain ⟨hs, hdis, hagain⟩ := hst
  cases input with
  | go now =>
    cases hnext
    refine .follow hw rfl hs (hheld.receiver_none hs) ⟨value, hidle⟩ hdis hagain fun h => ?_
    refine .inr ⟨?_, rfl, rfl⟩
    rw [hstage, h]
    rfl
  | _ => cases hnext

/-- The new session is established. -/
theorem advances_bind (h : Regular opens s) (hidle : s.out.threads owner = .idle value)
    {key : Transcript} (hstage : s.stage = .bind key)
    (hnext : s.resume cfg codec opens value (.bind key) input = .next s') :
    Advances opens s s' := by
  obtain ⟨hheld, inside, hw, hst⟩ := h
  rw [hstage] at hst
  obtain ⟨⟨rfl, hs, hpending⟩, hbinds⟩ := hst
  rw [hidle] at hbinds
  cases input with
  | go now =>
    cases value with
    | bound c =>
      cases hnext
      obtain ⟨x, hx, rfl⟩ := hbinds
      refine .returns ⟨rfl, fun c' hc' => ?_⟩ hw rfl rfl ⟨⟨rfl, fun hd => ?_⟩, _, hidle⟩ trivial
      · cases hc'
        exact ⟨latest_append _ _, x, ⟨x.key, 0⟩, hx, rfl, rfl⟩
      · change s.handshakeDeadline.isSome = true at hd
        rw [hpending] at hd
        cases hd
    | _ => cases hnext
  | _ => cases hnext

/-- In a handshake there are no contexts, and no other handshake is pending. -/
structure Shaking (s : Server) : Prop where
  held : Held s
  word : word s.returned = some false
  sealer : s.sealer = none
  pending : s.handshakeDeadline = none
  calling : calling s.stage = true

namespace Shaking

theorem stays (h : Shaking s) (hsame : Same s s') (hr : s'.returned = s.returned)
    (hk : KeepsKeys s.out s'.out) (hp : Placed opens s' false s'.stage) (hidle : s'.stage ≠ .idle) :
    Advances opens s s' :=
  .stays h.held h.word h.calling hsame hr hk hp hidle

theorem abandon (h : Shaking s) (hidle : s.out.threads owner = .idle value) {reader : Reader}
    {stage : Stage} (deadline : ℕ) (error : TransportError) : Advances opens s
      (Server.abandon { s with inbox := { s.inbox with reader }, stage } deadline error) :=
  .abandon h.word h.sealer (h.held.receiver_none h.sealer) ⟨value, hidle⟩ h.pending h.calling
    deadline error

theorem unbind (h : Shaking s) {deadline : ℕ}
    (hnext : s.resume cfg codec opens value (.unbind deadline) input = .next s') :
    Advances opens s s' := by
  cases input with
  | go now =>
    cases hnext
    exact h.stays ⟨rfl, rfl⟩ rfl (.of_eq rfl) ⟨rfl, h.sealer, h.pending⟩ (fun h => by cases h)
  | _ => cases hnext

theorem hello (h : Shaking s) (hidle : s.out.threads owner = .idle value) {deadline : ℕ}
    {phase : Phase}
    (hnext : s.resume cfg codec opens value (.hello deadline phase) input = .next s') :
    Advances opens s s' := by
  cases input with
  | turn t now =>
    dsimp only [Server.resume] at hnext
    split at hnext
    · cases hnext
      exact h.stays ⟨rfl, rfl⟩ rfl (.of_eq rfl) ⟨rfl, h.sealer, h.pending⟩ (fun h => by cases h)
    · cases hnext
      unfold Server.greeted
      split
      · exact h.abandon hidle deadline _
      · exact h.stays ⟨rfl, rfl⟩ rfl (.of_eq rfl) ⟨rfl, h.sealer, h.pending⟩ (fun h => by cases h)
      · split
        · exact h.stays ⟨rfl, rfl⟩ rfl (.of_eq rfl) ⟨rfl, h.sealer, h.pending⟩
            (fun h => by cases h)
        · exact h.abandon hidle deadline _
  | _ => cases hnext

theorem greet (h : Shaking s) (hidle : s.out.threads owner = .idle value) {deadline : ℕ}
    {hello : HostHello}
    (hnext : s.resume cfg codec opens value (.greet deadline hello) input = .next s') :
    Advances opens s s' := by
  cases input with
  | seals result =>
    rcases result with error | ⟨ark, bytes⟩
    · cases hnext
      exact h.abandon hidle deadline _
    · cases hnext
      exact h.stays ⟨rfl, rfl⟩ rfl (.of_eq rfl) ⟨rfl, h.sealer, h.pending⟩ (fun h => by cases h)
  | _ => cases hnext

theorem send (h : Shaking s) (hidle : s.out.threads owner = .idle value) {deadline : ℕ}
    {hello : HostHello} {ark : ArkHello} {bytes : Bytes}
    (hnext : s.resume cfg codec opens value (.send deadline hello ark bytes) input = .next s') :
    Advances opens s s' := by
  cases input with
  | go now =>
    cases value with
    | sent result =>
      cases result with
      | ok =>
        cases hnext
        exact h.stays ⟨rfl, rfl⟩ rfl (.of_eq rfl) ⟨rfl, h.sealer, h.pending⟩ (fun h => by cases h)
      | error error =>
        cases hnext
        exact h.abandon hidle deadline _
    | _ => cases hnext
  | _ => cases hnext

theorem ack (h : Shaking s) (hidle : s.out.threads owner = .idle value) {deadline : ℕ}
    {hello : HostHello} {ark : ArkHello} {phase : Phase}
    (hnext : s.resume cfg codec opens value (.ack deadline hello ark phase) input = .next s') :
    Advances opens s s' := by
  cases input with
  | turn t now =>
    dsimp only [Server.resume] at hnext
    split at hnext
    · cases hnext
      exact h.stays ⟨rfl, rfl⟩ rfl (.of_eq rfl) ⟨rfl, h.sealer, h.pending⟩ (fun h => by cases h)
    · cases hnext
      unfold Server.acked
      split
      · exact h.abandon hidle deadline _
      · exact h.stays ⟨rfl, rfl⟩ rfl (.of_eq rfl) ⟨rfl, h.sealer, h.pending⟩ (fun h => by cases h)
      · exact h.stays ⟨rfl, rfl⟩ rfl (.of_eq rfl) ⟨rfl, h.sealer, h.pending⟩ (fun h => by cases h)
  | _ => cases hnext

theorem answer (h : Shaking s) (hidle : s.out.threads owner = .idle value) {deadline : ℕ}
    {hello : HostHello} {ark : ArkHello} {packet : Bytes}
    (hnext : s.resume cfg codec opens value (.answer deadline hello ark packet) input = .next s') :
    Advances opens s s' := by
  cases input with
  | opened result =>
    cases result with
    | error error =>
      cases hnext
      exact h.abandon hidle deadline _
    | ok ack =>
      cases hnext
      refine h.stays ⟨rfl, rfl⟩ rfl (.of_eq rfl) ⟨⟨rfl, h.sealer, h.pending⟩, ?_⟩
        (fun h => by cases h)
      show Binds _ _ (Function.update s.out.threads owner _ owner)
      rw [Function.update_self]
      rfl
  | _ => cases hnext

theorem failed (h : Shaking s) (hidle : s.out.threads owner = .idle value) {deadline : ℕ}
    (hnext : s.resume cfg codec opens value (.failed deadline) input = .next s') :
    Advances opens s s' := by
  have hs := h.sealer
  cases input with
  | go now =>
    dsimp only [Server.resume] at hnext
    split_ifs at hnext
    · cases hnext
      exact .returns (.none hs (h.held.receiver_none hs)) h.word rfl rfl
        ⟨⟨by rw [hs]; rfl, fun _ => hs⟩, value, hidle⟩ ⟨h.calling, rfl, rfl, rfl⟩
    · cases hnext
      exact h.stays ⟨rfl, rfl⟩ rfl (.of_eq rfl)
        ⟨⟨by rw [hs]; rfl, fun _ => hs⟩, value, hidle⟩ (fun h => by cases h)
  | _ => cases hnext

end Shaking

end Stages

/-- The owner takes a step: one stage after another. -/
theorem advances_own (h : Regular opens s) {input : Input}
    (hnext : s.own cfg codec opens input = .next s') : Advances opens s s' := by
  unfold Server.own at hnext
  split at hnext
  swap
  · cases hnext
  rename_i value hidle
  have hshaking : word s.returned = some false ∧ s.sealer = none ∧ s.handshakeDeadline = none →
      calling s.stage = true → Shaking s := fun ⟨hw, hs, hpending⟩ hc =>
        ⟨h.held, hw, hs, hpending, hc⟩
  obtain ⟨inside, hw, hst⟩ := h.placed
  cases hstage : s.stage with
  | idle =>
    rw [hstage] at hnext
    exact advances_idle h hstage hnext
  | top =>
    rw [hstage] at hnext
    exact advances_top h hstage hnext
  | read phase =>
    rw [hstage] at hnext
    exact advances_read h hstage hnext
  | accept c opened =>
    rw [hstage] at hnext
    cases input with
    | go now =>
      cases hnext
      exact advances_accepted h hstage
    | _ => cases hnext
  | ending drop next =>
    rw [hstage] at hnext
    exact advances_ending h hidle hstage hnext
  | dropping next =>
    rw [hstage] at hnext
    exact advances_dropping h hidle hstage hnext
  | bind key =>
    rw [hstage] at hnext
    exact advances_bind h hidle hstage hnext
  | unbind deadline =>
    rw [hstage] at hst hnext
    obtain ⟨rfl, hst⟩ := hst
    exact (hshaking ⟨hw, hst⟩ (by rw [hstage]; rfl)).unbind hnext
  | hello deadline phase =>
    rw [hstage] at hst hnext
    obtain ⟨rfl, hst⟩ := hst
    exact (hshaking ⟨hw, hst⟩ (by rw [hstage]; rfl)).hello hidle hnext
  | greet deadline hello =>
    rw [hstage] at hst hnext
    obtain ⟨rfl, hst⟩ := hst
    exact (hshaking ⟨hw, hst⟩ (by rw [hstage]; rfl)).greet hidle hnext
  | send deadline hello ark bytes =>
    rw [hstage] at hst hnext
    obtain ⟨rfl, hst⟩ := hst
    exact (hshaking ⟨hw, hst⟩ (by rw [hstage]; rfl)).send hidle hnext
  | ack deadline hello ark phase =>
    rw [hstage] at hst hnext
    obtain ⟨rfl, hst⟩ := hst
    exact (hshaking ⟨hw, hst⟩ (by rw [hstage]; rfl)).ack hidle hnext
  | answer deadline hello ark packet =>
    rw [hstage] at hst hnext
    obtain ⟨rfl, hst⟩ := hst
    exact (hshaking ⟨hw, hst⟩ (by rw [hstage]; rfl)).answer hidle hnext
  | failed deadline =>
    rw [hstage] at hst hnext
    obtain ⟨rfl, hst⟩ := hst
    exact (hshaking ⟨hw, hst⟩ (by rw [hstage]; rfl)).failed hidle hnext

/-- The bindings and the contexts are the same. -/
def Untouched (out out' : State Transcript) : Prop :=
  out'.contexts = out.contexts ∧ out'.binding = out.binding

theorem untouched_follow (s : Server) (next : Then) : Untouched s.out (s.follow next).out := by
  cases next <;> exact ⟨rfl, rfl⟩

theorem untouched_released (s : Server) (drop : Bool) (next : Then) :
    Untouched s.out (s.released drop next).out := by
  unfold Server.released
  cases drop <;> cases next <;> exact ⟨rfl, rfl⟩

theorem untouched_endSession (s : Server) (drop : Bool) (next : Then) :
    Untouched s.out (s.endSession drop next).out := by
  unfold Server.endSession
  split
  · exact ⟨rfl, rfl⟩
  · exact untouched_released s drop next

theorem untouched_abandon (s : Server) (deadline : ℕ) (error : TransportError) :
    Untouched s.out (s.abandon deadline error).out := by
  cases error <;> exact ⟨rfl, rfl⟩

theorem untouched_heard {deadline : ℕ} {result : Except TransportError (Option Bytes)}
    (h : s.heard opens deadline result = .next s') : Untouched s.out s'.out := by
  unfold Server.heard at h
  split at h
  · cases h
    exact ⟨rfl, rfl⟩
  · cases h
    exact ⟨rfl, rfl⟩
  · cases h
    exact untouched_endSession _ _ _
  · cases h
    exact untouched_endSession _ _ _
  · split at h
    · cases h
      exact ⟨rfl, rfl⟩
    · cases h
      exact ⟨rfl, rfl⟩
    · cases h

theorem untouched_own {input : Input} (h : s.own cfg codec opens input = .next s') :
    Untouched s.out s'.out := by
  unfold Server.own at h
  split at h
  swap
  · cases h
  unfold Server.resume at h
  split at h
  · cases h; exact ⟨rfl, rfl⟩
  · cases h; exact untouched_endSession _ _ _
  · cases h
    unfold Server.loop
    split <;> exact ⟨rfl, rfl⟩
  · split at h
    · cases h; exact ⟨rfl, rfl⟩
    · exact (untouched_heard h :)
  · cases h
    unfold Server.accepted
    split
    · exact ⟨rfl, rfl⟩
    · split
      · exact untouched_endSession _ _ _
      · exact untouched_endSession _ _ _
  · cases h; exact untouched_released s _ _
  · cases h
    exact untouched_follow s _
  · cases h; exact ⟨rfl, rfl⟩
  · split at h
    · cases h; exact ⟨rfl, rfl⟩
    · cases h
      unfold Server.greeted
      split
      · exact untouched_abandon _ _ _
      · exact ⟨rfl, rfl⟩
      · split
        · exact ⟨rfl, rfl⟩
        · exact untouched_abandon _ _ _
  · split at h
    · cases h; exact untouched_abandon _ _ _
    · cases h; exact ⟨rfl, rfl⟩
  · split at h
    · cases h; exact ⟨rfl, rfl⟩
    · cases h; exact untouched_abandon _ _ _
    · cases h
  · split at h
    · cases h; exact ⟨rfl, rfl⟩
    · cases h
      unfold Server.acked
      split
      · exact untouched_abandon _ _ _
      · exact ⟨rfl, rfl⟩
      · exact ⟨rfl, rfl⟩
  · split at h
    · cases h; exact untouched_abandon _ _ _
    · cases h; exact ⟨rfl, rfl⟩
  · split at h
    · cases h; exact ⟨rfl, rfl⟩
    · cases h
  · split_ifs at h
    · cases h; exact ⟨rfl, rfl⟩
    · cases h; exact ⟨rfl, rfl⟩
  · cases h

/-! ### What is bound at a stage -/

/-- A thread is in `Outbound::bind`. -/
def binds : Pc Transcript → Bool
  | .waitWriter (.bind _) => true
  | .holdWriter (.bind _) => true
  | _ => false

/-- No thread is about to bind, and no other session is bound than the owner sends in. -/
structure Clear (out : State Transcript) (sealer : Option ℕ) : Prop where
  quiet : ∀ t, binds (out.threads t) = false
  bound : ∀ c, out.binding = some c → sealer = some c

/-- The owner binds only in `new_session`, where nothing was bound, and nothing is bound any more
when `Outbound::end` has returned to `end_session`. -/
def Ties (out : State Transcript) (sealer : Option ℕ) : Stage → Prop
  | .bind _ => ((∀ t ≠ owner, binds (out.threads t) = false) ∧ binds (out.threads owner) = true ∧
      out.binding = none) ∨ ∃ c, out.threads owner = .idle (.bound c) ∧ Clear out (some c)
  | .ending _ _ => Clear out sealer ∧ (out.binding = none ∨ ∃ c, sealer = some c ∧
      (out.threads owner = .waitWriter (.finish c) ∨ out.threads owner = .holdWriter (.finish c)))
  | _ => Clear out sealer

def Tied (s : Server) : Prop := Ties s.out s.sealer s.stage

section Handles
variable {out out' : State Transcript} {sealer : Option ℕ} {a : Outbound.Action Transcript}

theorem binds_update {o o' : State Transcript} {u t : ℕ} {pc : Pc Transcript}
    (ho : o'.threads = Function.update o.threads u pc)
    (hpc : binds pc = true → binds (o.threads u) = true ∨ ∃ last, o.threads u = .idle last)
    (h : binds (o'.threads t) = true) :
    binds (o.threads t) = true ∨ ∃ last, o.threads t = .idle last := by
  rw [ho] at h
  by_cases ht : t = u
  · subst ht
    rw [Function.update_self] at h
    exact hpc h
  · rw [Function.update_of_ne ht] at h
    exact .inl h

/-- A thread comes to `bind` from the beginning of the call. -/
theorem binds_step (hs : OutboundSteps.Step cfg out out') {t : ℕ}
    (h : binds (out'.threads t) = true) :
    binds (out.threads t) = true ∨ ∃ last, out.threads t = .idle last := by
  cases hs with
  | beginLocked ht => exact binds_update rfl (fun _ => .inr ⟨_, ht⟩) h
  | @waitWriter u call ht hfree =>
    refine binds_update rfl (fun hpc => .inl ?_) h
    rw [ht]
    cases call <;> exact hpc
  | @bind u key value ht =>
    have ho : ((out.bind key).unlock u value).threads =
        Function.update out.threads u (.idle value) := by
      show Function.update (out.remove .replaced).threads u _ = _
      unfold State.remove
      cases out.binding <;> rfl
    exact binds_update ho (fun hpc => by cases hpc) h
  | _ => exact binds_update rfl (fun hpc => by cases hpc) h

/-- Only the owner begins a `bind`, in a step of its own. -/
theorem binds_handle_step (hp : permitted a = true) (hstep : out.step cfg a = .next out') {t : ℕ}
    (h : binds (out'.threads t) = true) : binds (out.threads t) = true := by
  rcases binds_step (step_cases hstep) h with hb | ⟨last, hl⟩
  · exact hb
  · by_cases hactor : t = actor a
    · subst hactor
      cases a with
      | call t call =>
        change out.threads t = .idle last at hl
        dsimp only [State.step] at hstep
        rw [hl] at hstep
        cases call with
        | send c message =>
          dsimp only [State.begin] at hstep
          split_ifs at hstep
          cases hstep
          change binds (Function.update out.threads t _ t) = true at h
          rw [Function.update_self] at h
          cases h
        | finishReceive c result => cases hp
        | locked call =>
          cases hstep
          change binds (Function.update out.threads t _ t) = true at h
          rw [Function.update_self] at h
          cases call with
          | bind key => cases hp
          | _ => cases h
      | advance t budget o =>
        change out.threads t = .idle last at hl
        dsimp only [State.step] at hstep
        rw [hl] at hstep
        cases hstep
    · rw [step_threads_of_ne hstep hactor, hl] at h
      cases h

/-- Where no thread binds, a step of another thread keeps the binding or removes it. -/
theorem binding_handle (hquiet : ∀ t, binds (out.threads t) = false)
    (hstep : out.step cfg a = .next out') : out'.binding = out.binding ∨ out'.binding = none := by
  rcases binding_cases (step_cases hstep) with hb | hb | ⟨t, key, value, ht, -⟩
  · exact .inl hb
  · exact .inr hb
  · have := hquiet t
    rw [ht] at this
    cases this

theorem binding_none (hquiet : ∀ t, binds (out.threads t) = false)
    (hstep : out.step cfg a = .next out') (hb : out.binding = none) : out'.binding = none := by
  rcases binding_handle hquiet hstep with hb' | hb'
  · exact hb'.trans hb
  · exact hb'

theorem Clear.handle (h : Clear out sealer) (hp : permitted a = true)
    (hstep : out.step cfg a = .next out') : Clear out' sealer := by
  refine ⟨fun t => ?_, fun c hc => ?_⟩
  · refine Bool.eq_false_iff.mpr fun hb => ?_
    have := binds_handle_step hp hstep hb
    rw [h.quiet t] at this
    cases this
  · rcases binding_handle h.quiet hstep with hb | hb
    · exact h.bound c (hb ▸ hc)
    · rw [hb] at hc
      cases hc

/-- `Outbound::end` is called, and returns when its session is not bound any more. -/
theorem ending_handle {c : ℕ} (hclear : Clear out (some c))
    (hpc : out.threads owner = .waitWriter (.finish c) ∨
      out.threads owner = .holdWriter (.finish c))
    (hstep : out.step cfg a = .next out') :
    out'.binding = none ∨ out'.threads owner = .waitWriter (.finish c) ∨
      out'.threads owner = .holdWriter (.finish c) := by
  by_cases hactor : owner = actor a
  swap
  · rw [step_threads_of_ne hstep hactor]
    exact .inr hpc
  cases a with
  | call t call =>
    change owner = t at hactor
    subst hactor
    rcases hpc with hpc | hpc <;>
    · dsimp only [State.step] at hstep
      rw [hpc] at hstep
      cases hstep
  | advance t budget o =>
    change owner = t at hactor
    subst hactor
    rcases hpc with hpc | hpc
    · dsimp only [State.step] at hstep
      rw [hpc] at hstep
      dsimp only [State.advance] at hstep
      split_ifs at hstep
      cases hstep
      exact .inr (.inr (threads_goto _ owner _))
    · dsimp only [State.step] at hstep
      rw [hpc] at hstep
      cases hstep
      refine .inl ?_
      dsimp only [State.locked]
      split_ifs with hb
      · exact binding_remove out .finished
      · cases hb' : out.binding with
        | none => exact hb'
        | some c' => exact absurd (hb'.trans (hclear.bound c' hb').symm) hb

/-- `Outbound::bind` is called where nothing is bound, and returns the context it has bound. -/
theorem bind_handle (hothers : ∀ t ≠ owner, binds (out.threads t) = false)
    (hpc : binds (out.threads owner) = true) (hb : out.binding = none) (hp : permitted a = true)
    (hstep : out.step cfg a = .next out') :
    (binds (out'.threads owner) = true ∧ out'.binding = none) ∨
      ∃ c, out'.threads owner = .idle (.bound c) ∧ Clear out' (some c) := by
  have hothers' : ∀ t ≠ owner, binds (out'.threads t) = false := by
    intro t ht
    refine Bool.eq_false_iff.mpr fun hb => ?_
    have := binds_handle_step hp hstep hb
    rw [hothers t ht] at this
    cases this
  by_cases hactor : owner = actor a
  swap
  · have hsame := step_threads_of_ne hstep hactor
    rw [hsame]
    refine .inl ⟨hpc, ?_⟩
    rcases binding_cases (step_cases hstep) with hb' | hb' | ⟨t, key, value, ht, rfl⟩
    · exact hb'.trans hb
    · exact hb'
    · -- the owner would have bound
      by_cases ho : t = owner
      · subst ho
        have hidle := threads_unlock (out.bind key) owner value
        rw [hsame, ht] at hidle
        cases hidle
      · have := hothers t ho
        rw [ht] at this
        cases this
  cases a with
  | call t call => exact absurd hactor (not_call_owner hp)
  | advance t budget o =>
    change owner = t at hactor
    subst hactor
    dsimp only [State.step] at hstep
    cases hpc' : out.threads owner with
    | waitWriter call =>
      rw [hpc'] at hpc hstep
      dsimp only [State.advance] at hstep
      split_ifs at hstep
      cases hstep
      refine .inl ⟨?_, hb⟩
      change binds (Function.update out.threads owner _ owner) = true
      rw [Function.update_self]
      cases call <;> exact hpc
    | holdWriter call =>
      rw [hpc'] at hpc hstep
      cases call with
      | bind key =>
        cases hstep
        have hidle : (out.locked cfg owner (.bind key)).threads owner =
            .idle (.bound out.contexts.length) := threads_unlock _ owner _
        refine .inr ⟨_, hidle, fun t => ?_, fun c hc => hc⟩
        by_cases ht : t = owner
        · rw [ht, hidle]
          rfl
        · exact hothers' t ht
      | _ => cases hpc
    | _ =>
      rw [hpc'] at hpc
      cases hpc

theorem ties_handle {stage : Stage} (h : Ties out sealer stage) (hp : permitted a = true)
    (hstep : out.step cfg a = .next out') : Ties out' sealer stage := by
  cases stage with
  | bind key =>
    rcases h with ⟨hothers, hpc, hb⟩ | ⟨c, hidle, hclear⟩
    · rcases bind_handle hothers hpc hb hp hstep with ⟨hpc', hb'⟩ | hbound
      · refine .inl ⟨fun t ht => ?_, hpc', hb'⟩
        refine Bool.eq_false_iff.mpr fun hb => ?_
        have := binds_handle_step hp hstep hb
        rw [hothers t ht] at this
        cases this
      · exact .inr hbound
    · exact .inr ⟨c, idle_handle hidle hp hstep, hclear.handle hp hstep⟩
  | ending drop next =>
    obtain ⟨hclear, hend⟩ := h
    refine ⟨hclear.handle hp hstep, ?_⟩
    rcases hend with hb | ⟨c, rfl, hpc⟩
    · exact .inl (binding_none hclear.quiet hstep hb)
    · rcases ending_handle hclear hpc hstep with hb | hpc'
      · exact .inl hb
      · exact .inr ⟨c, rfl, hpc'⟩
  | _ => exact Clear.handle h hp hstep

end Handles

/-! ### The owner binds and ends sessions -/

section Owner
variable {out : State Transcript} {sealer : Option ℕ}

theorem Clear.goto (h : Clear out sealer) {pc : Pc Transcript} (hpc : binds pc = false) :
    Clear (out.goto owner pc) sealer := by
  refine ⟨fun t => ?_, h.bound⟩
  change binds (Function.update out.threads owner pc t) = false
  by_cases ht : t = owner
  · rw [ht, Function.update_self, hpc]
  · rw [Function.update_of_ne ht]
    exact h.quiet t

theorem Clear.received (h : Clear out sealer) (c : ℕ) (result : Except TransportError Bytes) :
    Clear (out.received owner c result) sealer := by
  have hidle : binds (.idle (.received result) : Pc Transcript) = false := rfl
  exact ⟨(h.goto hidle).quiet, h.bound⟩

theorem Clear.unbound (h : Clear out sealer) (hb : out.binding = none) : Clear out none :=
  ⟨h.quiet, fun _ hc => hb.symm.trans hc⟩

theorem tied_follow (h : Clear s.out s.sealer) (next : Then) : Tied (s.follow next) := by
  cases next <;> exact h

theorem tied_released (h : Clear s.out s.sealer) (hb : s.out.binding = none) (drop : Bool)
    (next : Then) : Tied (s.released drop next) := by
  have hnone := h.unbound hb
  unfold Server.released
  cases drop with
  | true => exact hnone.goto rfl
  | false => exact tied_follow (s := { s with inbox := s.inbox.close, sealer := none }) hnone next

theorem tied_endSession (h : Clear s.out s.sealer) (drop : Bool) (next : Then) :
    Tied (s.endSession drop next) := by
  unfold Server.endSession
  split
  · rename_i hc
    exact ⟨h.goto rfl, .inr ⟨_, hc, .inl (threads_goto s.out owner _)⟩⟩
  · rename_i hs
    refine tied_released h ?_ drop next
    cases hb : s.out.binding with
    | none => rfl
    | some c =>
      have hc := h.bound c hb
      rw [hs] at hc
      cases hc

theorem tied_abandon (h : Clear s.out s.sealer) (deadline : ℕ) (error : TransportError) :
    Tied (s.abandon deadline error) := by
  cases error with
  | terminated => exact h
  | recvFailed error => exact h
  | sendFailed error => exact h
  | _ => exact h.goto rfl

theorem tied_heard (h : Clear s.out s.sealer) {deadline : ℕ}
    {result : Except TransportError (Option Bytes)}
    (hnext : s.heard opens deadline result = .next s') : Tied s' := by
  unfold Server.heard at hnext
  split at hnext
  · cases hnext
    exact h
  · cases hnext
    exact h
  · cases hnext
    exact tied_endSession (s := { s with inbox := s.inbox.mark .broken }) h _ _
  · cases hnext
    exact tied_endSession (s := { s with handshakeDeadline := _, inbox := s.inbox.mark .broken })
      h _ _
  · split at hnext
    · cases hnext
      exact h.goto rfl
    · cases hnext
      exact h
    · cases hnext

theorem tied_accepted (h : Clear s.out s.sealer) (opened result : Except TransportError Bytes) :
    Tied (s.accepted opened result) := by
  unfold Server.accepted
  split
  · exact h
  · split
    · exact tied_endSession (s := { s with inbox := s.inbox.mark _ }) h _ _
    · exact tied_endSession h _ _

/-- `new_session` gets the context it asked for. -/
theorem tied_bind (h : Tied s) {value : Value} (hidle : s.out.threads owner = .idle value)
    {key : Transcript} (hstage : s.stage = .bind key) {input : Input}
    (hnext : s.resume cfg codec opens value (.bind key) input = .next s') : Tied s' := by
  unfold Tied at h
  rw [hstage] at h
  rcases h with ⟨-, hpc, -⟩ | ⟨c, hc, hclear⟩
  · rw [hidle] at hpc
    cases hpc
  · rw [hidle] at hc
    cases hc
    cases input with
    | go now =>
      cases hnext
      exact hclear
    | _ => cases hnext

/-- `Outbound::end` has returned. -/
theorem tied_ending (h : Tied s) {value : Value} (hidle : s.out.threads owner = .idle value)
    {drop : Bool} {next : Then} (hstage : s.stage = .ending drop next) {input : Input}
    (hnext : s.resume cfg codec opens value (.ending drop next) input = .next s') : Tied s' := by
  unfold Tied at h
  rw [hstage] at h
  obtain ⟨hclear, hb | ⟨c, -, hpc⟩⟩ := h
  · cases input with
    | go now =>
      cases hnext
      exact tied_released hclear hb drop next
    | _ => cases hnext
  · rw [hidle] at hpc
    rcases hpc with hpc | hpc <;> cases hpc

theorem tied_resume (h : Clear s.out s.sealer)
    (hshaking : ∀ deadline hello ark packet, s.stage = .answer deadline hello ark packet →
      s.sealer = none)
    {value : Value} {stage : Stage} (hstage : s.stage = stage)
    (hbind : ∀ key, stage ≠ .bind key) (hending : ∀ drop next, stage ≠ .ending drop next)
    {input : Input} (hnext : s.resume cfg codec opens value stage input = .next s') : Tied s' := by
  unfold Server.resume at hnext
  split at hnext
  · cases hnext
    exact h
  · cases hnext
    exact tied_endSession (s := { s with inbox := s.inbox.mark _ }) h _ _
  · cases hnext
    unfold Server.loop
    split
    · exact h.goto rfl
    · exact h
  · split at hnext
    · cases hnext
      exact h
    · refine tied_heard ?_ hnext
      exact h
  · cases hnext
    refine tied_accepted ?_ _ _
    exact h.received _ _
  · exact absurd rfl (hending _ _)
  · cases hnext
    exact tied_follow h _
  · cases hnext
    exact h
  · split at hnext
    · cases hnext
      exact h
    · cases hnext
      unfold Server.greeted
      split
      · refine tied_abandon ?_ _ _
        exact h
      · exact h
      · split
        · exact h
        · refine tied_abandon ?_ _ _
          exact h
  · split at hnext
    · cases hnext
      exact tied_abandon h _ _
    · cases hnext
      exact h.goto rfl
  · split at hnext
    · cases hnext
      exact h
    · cases hnext
      exact tied_abandon h _ _
    · cases hnext
  · split at hnext
    · cases hnext
      exact h
    · cases hnext
      unfold Server.acked
      split
      · refine tied_abandon ?_ _ _
        exact h
      · exact h
      · exact h
  · split at hnext
    · cases hnext
      exact tied_abandon h _ _
    · cases hnext
      -- nothing is bound where `new_session` begins
      have hnone := hshaking _ _ _ _ hstage
      refine .inl ⟨fun t ht => ?_, ?_, ?_⟩
      · change binds (Function.update s.out.threads owner _ t) = false
        rw [Function.update_of_ne ht]
        exact h.quiet t
      · exact congrArg binds (threads_goto s.out owner _)
      · cases hb : s.out.binding with
        | none => exact hb
        | some c =>
          have hc := h.bound c hb
          rw [hnone] at hc
          cases hc
  · exact absurd rfl (hbind _)
  · split_ifs at hnext
    · cases hnext
      exact h
    · cases hnext
      exact h
  · cases hnext

theorem tied_own (h : Tied s) (hreg : Regular opens s) {input : Input}
    (hnext : s.own cfg codec opens input = .next s') : Tied s' := by
  unfold Server.own at hnext
  split at hnext
  swap
  · cases hnext
  rename_i value hidle
  have hshaking : ∀ deadline hello ark packet, s.stage = .answer deadline hello ark packet →
      s.sealer = none := by
    intro deadline hello ark packet hstage
    obtain ⟨inside, -, hplaced⟩ := hreg.placed
    rw [hstage] at hplaced
    exact hplaced.2.1
  have hother : ∀ stage, s.stage = stage → (∀ key, stage ≠ .bind key) →
      (∀ drop next, stage ≠ .ending drop next) → Clear s.out s.sealer := by
    rintro stage rfl hbind hending
    unfold Tied Ties at h
    split at h
    · exact absurd ‹_› (hbind _)
    · exact absurd ‹_› (hending _ _)
    · exact h
  cases hstage : s.stage with
  | bind key =>
    rw [hstage] at hnext
    exact tied_bind h hidle hstage hnext
  | ending drop next =>
    rw [hstage] at hnext
    exact tied_ending h hidle hstage hnext
  | _ =>
    rw [hstage] at hnext
    refine tied_resume (hother _ hstage ?_ ?_) hshaking hstage ?_ ?_ hnext <;>
      simp

end Owner

/-! ### Runs -/

variable {framer : Writer} {supply : Bytes}

theorem advances_step (h : Regular opens s) {a : Server.Action}
    (hstep : (server cfg codec opens framer supply).step s a = .next s') : Advances opens s s' := by
  cases a with
  | own input => exact advances_own h hstep
  | handle a =>
    dsimp only [server] at hstep
    split at hstep
    · rename_i out hout
      cases hstep
      exact ⟨regular_handle h hout,
        .inl ⟨rfl, fun hc => .inr ⟨hc, rfl, rfl⟩, fun hi => ⟨hi, rfl, rfl⟩⟩⟩
    · cases hstep
    · cases hstep
  | feed bytes =>
    cases hstep
    obtain ⟨hheld, inside, hw, hplaced⟩ := h
    refine ⟨⟨hheld.congr rfl rfl rfl (.of_eq rfl), inside, hw, ?_⟩,
      .inl ⟨rfl, fun hc => .inr ⟨hc, rfl, rfl⟩, fun hi => ⟨hi, rfl, rfl⟩⟩⟩
    show Placed opens { s with inbox := s.inbox.feed bytes } inside s.stage
    cases hst : s.stage with
    | _ =>
      rw [hst] at hplaced
      exact hplaced

theorem regular_reachable (h : (server cfg codec opens framer supply).Reachable s) :
    Regular opens s := by
  refine h.invariant ⟨.none rfl rfl, false, rfl, ⟨⟨rfl, fun _ => rfl⟩, _, rfl⟩⟩ ?_
  exact fun s a s' _ hr hstep => (advances_step hr hstep).regular

/-- The contexts a `recv` finds are those it leaves when it fails. -/
def Since (s₀ s : Server) : Prop :=
  (s.returned = s₀.returned ∧ s.stage ≠ .idle ∧ (calling s.stage = true → Same s₀ s)) ∨
    ∃ r rest, s.returned = s₀.returned ++ r :: rest ∧
      ∀ error, r = .failed error → rest = [] → s.stage = .idle → Same s₀ s

theorem since_step {s₀ : Server} (h : Since s₀ s) (hs : Advances opens s s') : Since s₀ s' := by
  rcases h with ⟨hr, hidle, hsame⟩ | ⟨r, rest, hr, hsame⟩
  · rcases hs.emits with ⟨hr', hc, hi⟩ | ⟨r, hr', -, he⟩
    · refine .inl ⟨hr'.trans hr, fun h => hidle (hi h).1, fun h => ?_⟩
      rcases hc h with h | ⟨h, hs₁⟩
      · exact absurd h hidle
      · have hs₀ := hsame h
        exact ⟨hs₁.1.trans hs₀.1, hs₁.2.trans hs₀.2⟩
    · refine .inr ⟨r, [], by rw [hr', hr], ?_⟩
      rintro error rfl - -
      obtain ⟨hcalling, -, hs₁⟩ := he
      have hs₀ := hsame hcalling
      exact ⟨hs₁.1.trans hs₀.1, hs₁.2.trans hs₀.2⟩
  · rcases hs.emits with ⟨hr', hc, hi⟩ | ⟨r', hr', -, -⟩
    · refine .inr ⟨r, rest, hr'.trans hr, fun error hf hrest h => ?_⟩
      obtain ⟨hidle, hs₁⟩ := hi h
      have hs₀ := hsame error hf hrest hidle
      exact ⟨hs₁.1.trans hs₀.1, hs₁.2.trans hs₀.2⟩
    · refine .inr ⟨r, rest ++ [r'], by rw [hr', hr, List.append_assoc, List.cons_append], ?_⟩
      intro error hf hrest
      cases rest <;> cases hrest

theorem since_reachable {s₀ : Server} (hreg : Regular opens s₀) (htop : s₀.stage = .top)
    (hreach : { server cfg codec opens framer supply with init := s₀ }.Reachable s) :
    Since s₀ s := by
  have hinv : Regular opens s ∧ Since s₀ s := by
    refine hreach.invariant (I := fun t => Regular opens t ∧ Since s₀ t)
      ⟨hreg, .inl ⟨rfl, ?_, fun _ => ⟨rfl, rfl⟩⟩⟩ ?_
    · rw [htop]
      exact fun h => by cases h
    · rintro t a t' - ⟨ht, hst⟩ hstep
      have hstep' : (server cfg codec opens framer supply).step t a = .next t' := hstep
      have hadv := advances_step ht hstep'
      exact ⟨hadv.regular, since_step hst hadv⟩
  exact hinv.2

/-- The call is past the point where it could fail. -/
def Past (s : Server) : Prop :=
  calling s.stage = false ∧ s.stage ≠ .idle ∨ ∃ key, s.stage = .bind key

theorem connected_own {key : Transcript} (hst : s.stage = .bind key) {input : Input}
    (hnext : s.own cfg codec opens input = .next s') :
    ∃ c, s'.returned = s.returned ++ [.connected c] := by
  unfold Server.own at hnext
  split at hnext
  swap
  · cases hnext
  rename_i value hidle
  rw [hst] at hnext
  cases input with
  | go now =>
    cases value with
    | bound c =>
      cases hnext
      exact ⟨c, rfl⟩
    | _ => cases hnext
  | _ => cases hnext

/-- What is returned next is no failure. -/
theorem past_step (hreg : Regular opens s) (h : Past s) {a : Server.Action}
    (hstep : (server cfg codec opens framer supply).step s a = .next s') :
    (s'.returned = s.returned ∧ Past s') ∨
      ∃ r, s'.returned = s.returned ++ [r] ∧ ∀ error, r ≠ .failed error := by
  rcases h with ⟨hc, hidle⟩ | ⟨key, hst⟩
  · rcases (advances_step hreg hstep).emits with ⟨hr, hcall, hi⟩ | ⟨r, hr, -, he⟩
    · refine .inl ⟨hr, .inl ⟨?_, fun h => hidle (hi h).1⟩⟩
      refine Bool.eq_false_iff.mpr fun h => ?_
      rcases hcall h with h | ⟨h, -⟩
      · exact hidle h
      · rw [hc] at h
        cases h
    · refine .inr ⟨r, hr, ?_⟩
      rintro error rfl
      have hcalling := he.1
      rw [hc] at hcalling
      cases hcalling
  · cases a with
    | own input =>
      obtain ⟨c, hr⟩ := connected_own hst hstep
      exact .inr ⟨_, hr, fun error => by simp⟩
    | handle a =>
      dsimp only [server] at hstep
      split at hstep
      · cases hstep
        exact .inl ⟨rfl, .inr ⟨key, hst⟩⟩
      · cases hstep
      · cases hstep
    | feed bytes =>
      cases hstep
      exact .inl ⟨rfl, .inr ⟨key, hst⟩⟩

theorem past_reachable {s₀ : Server} (hreg : Regular opens s₀) (h : Past s₀)
    (hreach : { server cfg codec opens framer supply with init := s₀ }.Reachable s) :
    s.returned = s₀.returned ∨
      ∃ r rest, s.returned = s₀.returned ++ r :: rest ∧ ∀ error, r ≠ .failed error := by
  have hinv : Regular opens s ∧ ((s.returned = s₀.returned ∧ Past s) ∨
      ∃ r rest, s.returned = s₀.returned ++ r :: rest ∧ ∀ error, r ≠ .failed error) := by
    refine hreach.invariant (I := fun s => Regular opens s ∧ ((s.returned = s₀.returned ∧ Past s) ∨
      ∃ r rest, s.returned = s₀.returned ++ r :: rest ∧ ∀ error, r ≠ .failed error))
      ⟨hreg, .inl ⟨rfl, h⟩⟩ ?_
    rintro t a t' - ⟨ht, hcase⟩ hstep
    have hstep' : (server cfg codec opens framer supply).step t a = .next t' := hstep
    have hadv := advances_step ht hstep'
    refine ⟨hadv.regular, ?_⟩
    rcases hcase with ⟨hr, hp⟩ | ⟨r, rest, hr, hf⟩
    · rcases past_step ht hp hstep' with ⟨hr', hp'⟩ | ⟨r, hr', hf⟩
      · exact .inl ⟨hr'.trans hr, hp'⟩
      · exact .inr ⟨r, [], by rw [hr', hr], hf⟩
    · rcases hadv.emits with ⟨hr', -⟩ | ⟨r', hr', -⟩
      · exact .inr ⟨r, rest, hr'.trans hr, hf⟩
      · exact .inr ⟨r, rest ++ [r'], by rw [hr', hr]; simp, hf⟩
  exact hinv.2.imp_left And.left

theorem tied_step (h : Tied s) (hreg : Regular opens s) {a : Server.Action}
    (hstep : (server cfg codec opens framer supply).step s a = .next s') : Tied s' := by
  cases a with
  | own input => exact tied_own h hreg hstep
  | handle a =>
    dsimp only [server] at hstep
    split at hstep
    · rename_i out hout
      cases hstep
      obtain ⟨hp, hs⟩ := handles_next hout
      exact ties_handle h hp hs
    · cases hstep
    · cases hstep
  | feed bytes =>
    cases hstep
    exact h

theorem tied_reachable (h : (server cfg codec opens framer supply).Reachable s) : Tied s := by
  have hinv : Regular opens s ∧ Tied s := by
    refine h.invariant (I := fun s => Regular opens s ∧ Tied s) ⟨regular_reachable .init, ?_⟩ ?_
    · exact ⟨fun _ => rfl, fun c hc => (by cases hc)⟩
    · rintro t a t' - ⟨hreg, ht⟩ hstep
      exact ⟨(advances_step hreg hstep).regular, tied_step ht hreg hstep⟩
  exact hinv.2

/-- The owner takes the step, be it in a call of the outbound transport. -/
def ofOwner : Server.Action → Bool
  | .own _ => true
  | .handle a => actor a = owner
  | .feed _ => false

/-- A step of the owner in the loop keeps the binding and the contexts. -/
theorem keeps_step (hreg : Regular opens s) (htied : Tied s) (hpast : ¬ Past s)
    (hidle : s.stage ≠ .idle) {a : Server.Action} (ha : ofOwner a = true)
    (hstep : (server cfg codec opens framer supply).step s a = .next s')
    (hnext : (s'.returned = s.returned ∧ ¬ Past s') ∨
      ∃ error, s'.returned = s.returned ++ [.failed error]) :
    s'.out.binding = s.out.binding ∧ Same s s' := by
  cases a with
  | own input =>
    refine ⟨(untouched_own hstep).2, ?_⟩
    rcases (advances_step hreg hstep).emits with ⟨hr, hcall, hi⟩ | ⟨r, hr, -, he⟩
    · rcases hnext with ⟨-, hp⟩ | ⟨error, hr'⟩
      · by_cases hidle' : s'.stage = .idle
        · exact (hi hidle').2
        · have hcalling : calling s'.stage = true := by
            by_contra hc
            exact hp (.inl ⟨Bool.eq_false_iff.mpr hc, hidle'⟩)
          exact ((hcall hcalling).resolve_left hidle).2
      · exact absurd (hr'.symm.trans hr) (by simp)
    · rcases hnext with ⟨hr', -⟩ | ⟨error, hr'⟩
      · exact absurd (hr.symm.trans hr') (by simp)
      · cases List.append_inj_right (hr.symm.trans hr') rfl
        exact he.2.2
  | handle a =>
    have hactor : owner = actor a := (of_decide_eq_true ha).symm
    dsimp only [server] at hstep
    split at hstep
    swap
    · cases hstep
    swap
    · cases hstep
    rename_i out hout
    cases hstep
    obtain ⟨hp, hs⟩ := handles_next hout
    refine ⟨?_, rfl, rfl⟩
    have hclear : Clear s.out s.sealer := by
      unfold Tied Ties at htied
      split at htied
      · exact absurd (.inr ⟨_, ‹_›⟩) hpast
      · exact htied.1
      · exact htied
    have hnone : s.sealer = none → out.binding = s.out.binding := by
      intro hsealer
      have hb : s.out.binding = none := by
        cases hb : s.out.binding with
        | none => rfl
        | some c =>
          have hc := hclear.bound c hb
          rw [hsealer] at hc
          cases hc
      rw [hb]
      exact binding_none hclear.quiet hs hb
    obtain ⟨inside, -, hplaced⟩ := hreg.placed
    cases hst : s.stage with
    | idle => exact absurd hst hidle
    | top =>
      rw [hst] at hplaced
      exact absurd hactor (idle_other hplaced.2 hp hs)
    | read phase =>
      rw [hst] at hplaced
      exact absurd hactor (idle_other hplaced.2 hp hs)
    | dropping next =>
      rw [hst] at hplaced
      exact hnone hplaced.1
    | accept c opened => exact absurd (.inl ⟨by rw [hst]; rfl, hidle⟩) hpast
    | ending drop next => exact absurd (.inl ⟨by rw [hst]; rfl, hidle⟩) hpast
    | bind key => exact absurd (.inr ⟨key, hst⟩) hpast
    | _ =>
      rw [hst] at hplaced
      exact hnone hplaced.2.1
  | feed bytes => cases ha

/-- What was returned stays returned. -/
theorem returned_prefix {s₀ : Server} (hreg : Regular opens s₀)
    (hreach : { server cfg codec opens framer supply with init := s₀ }.Reachable s) :
    s₀.returned <+: s.returned := by
  have hinv : Regular opens s ∧ s₀.returned <+: s.returned := by
    refine hreach.invariant (I := fun t => Regular opens t ∧ s₀.returned <+: t.returned)
      ⟨hreg, List.prefix_rfl⟩ ?_
    rintro t a t' - ⟨ht, hp⟩ hstep
    have hstep' : (server cfg codec opens framer supply).step t a = .next t' := hstep
    have hadv := advances_step ht hstep'
    refine ⟨hadv.regular, ?_⟩
    rcases hadv.emits with ⟨hr, -⟩ | ⟨r, hr, -⟩
    · rwa [hr]
    · rw [hr]
      exact hp.trans (List.prefix_append _ _)
  exact hinv.2

/-- No step of the owner in a call that fails changes the binding or the contexts. -/
theorem keeps_call {s₀ s₁ s₂ : Server} {a : Server.Action} {error : TransportError}
    (h : (server cfg codec opens framer supply).Reachable s₀)
    (hreach₁ : { server cfg codec opens framer supply with init := s₀ }.Reachable s₁)
    (htop : s₀.stage = .top) (hr₁ : s₁.returned = s₀.returned)
    (hstep : (server cfg codec opens framer supply).step s₁ a = .next s₂) (ha : ofOwner a = true)
    (hreach : { server cfg codec opens framer supply with init := s₂ }.Reachable s')
    (hr : s'.returned = s₀.returned ++ [.failed error]) :
    s₂.out.binding = s₁.out.binding ∧ Same s₁ s₂ := by
  have hall := h.later hreach₁
  have hreg₁ := regular_reachable hall
  have hadv := advances_step hreg₁ hstep
  have hidle : s₁.stage ≠ .idle := by
    rcases since_reachable (regular_reachable h) htop hreach₁ with ⟨-, hne, -⟩ | ⟨r, rest, hr', -⟩
    · exact hne
    · exact absurd (hr₁.symm.trans hr') (by simp)
  -- what the step returns is what the call returns
  have hreturn : ∀ r, s₂.returned = s₁.returned ++ [r] → r = .failed error := by
    intro r hr₂
    have hprefix := returned_prefix hadv.regular hreach
    rw [hr₂, hr₁, hr, List.prefix_append_right_inj] at hprefix
    simpa using hprefix
  -- a step that leads past the failure would not be followed by one
  have hpast₂ : s₂.returned = s₁.returned → ¬ Past s₂ := by
    intro hr₂ hp
    rcases past_reachable hadv.regular hp hreach with hr' | ⟨r, rest, hr', hf⟩
    · exact absurd (hr.symm.trans (hr'.trans (hr₂.trans hr₁))) (by simp)
    · rw [hr, hr₂, hr₁] at hr'
      cases List.append_cancel_left hr'
      exact hf error rfl
  have hpast₁ : ¬ Past s₁ := by
    intro hp
    rcases past_step hreg₁ hp hstep with ⟨hr₂, hp₂⟩ | ⟨r, hr₂, hf⟩
    · exact hpast₂ hr₂ hp₂
    · exact hf error (hreturn r hr₂)
  refine keeps_step hreg₁ (tied_reachable hall) hpast₁ hidle ha hstep ?_
  rcases hadv.emits with ⟨hr₂, -⟩ | ⟨r, hr₂, -, -⟩
  · exact .inl ⟨hr₂, hpast₂ hr₂⟩
  · rw [hreturn r hr₂] at hr₂
    exact .inr ⟨error, hr₂⟩

/-- **The events and the contexts of a server.** What was returned is a word of the grammar. The
receive context is there exactly when the send context is, and both belong to the latest
`Connected`; a pending handshake means that there is neither, but in `end_session`, which removes
them. A message was opened in the context of the latest `Connected`, and is returned while this is
bound; a binding that is current has been since its `Connected`. A failure changes neither contexts
nor binding: not in the step that returns it, and not in any step of the owner in the call that
returns it. So the call has left the contexts as it found them, and what became of the binding is
due to other threads. -/
structure Orderly (m : Machine Server Server.Action Fault) (opens : Opens) (s : Server) : Prop where
  grammar : ∃ inside, word s.returned = some inside
  both : s.inbox.receiver.isSome = s.sealer.isSome
  session : ∀ c, s.sealer = some c → latest s.returned = some c ∧
    ∃ x rx, s.out.contexts[c]? = some x ∧ s.inbox.receiver = some rx ∧ rx.key = x.key
  pending : s.handshakeDeadline.isSome → (∀ drop next, s.stage ≠ .ending drop next) →
    s.sealer = none ∧ s.inbox.receiver = none
  message : ∀ a s' text, m.step s a = .next s' → s'.returned = s.returned ++ [.message text] →
    ∃ c, latest s.returned = some c ∧ s.sealer = some c ∧ s.out.binding = some c ∧
      Opened opens s.out c text
  bound : ∀ s' c, { m with init := s }.Reachable s' → s.sealer = some c →
    s'.out.binding = some c → s.out.binding = some c
  failed : ∀ a s' error, m.step s a = .next s' → s'.returned = s.returned ++ [.failed error] →
    s'.out.binding = s.out.binding ∧ Same s s'
  call : ∀ s' error, { m with init := s }.Reachable s' → s.stage = .top → s'.stage = .idle →
    s'.returned = s.returned ++ [.failed error] → Same s s'
  keeps : ∀ s₁ a s₂ s' error, { m with init := s }.Reachable s₁ → s.stage = .top →
    s₁.returned = s.returned → m.step s₁ a = .next s₂ → ofOwner a = true →
    { m with init := s₂ }.Reachable s' → s'.returned = s.returned ++ [.failed error] →
    s₂.out.binding = s₁.out.binding ∧ Same s₁ s₂

theorem returned_ne (returned : List Returned) (r : Returned) : returned ++ [r] ≠ returned := by
  intro h
  simpa using congrArg List.length h

theorem step_contexts {a : Server.Action}
    (hstep : (server cfg codec opens framer supply).step s a = .next s') {c : ℕ}
    (hc : c < s.out.contexts.length) :
    c < s'.out.contexts.length ∧ (s'.out.binding = some c → s.out.binding = some c) := by
  cases a with
  | own input =>
    obtain ⟨hcontexts, hbinding⟩ := untouched_own hstep
    exact ⟨by rw [hcontexts]; exact hc, fun hb => hbinding.symm.trans hb⟩
  | handle a =>
    dsimp only [server, handles] at hstep
    split_ifs at hstep with hp
    cases hout : s.out.step cfg a with
    | next out =>
      rw [hout] at hstep
      cases hstep
      have hs := step_cases hout
      obtain ⟨x, hx, -⟩ := keepsKeys_step hs c _ (List.getElem?_eq_getElem hc)
      exact ⟨(List.getElem?_eq_some_iff.mp hx).1, binding_step hs hc⟩
    | _ =>
      rw [hout] at hstep
      cases hstep
  | feed bytes =>
    cases hstep
    exact ⟨hc, id⟩

theorem keepsKeys_server {a : Server.Action}
    (hstep : (server cfg codec opens framer supply).step s a = .next s') :
    KeepsKeys s.out s'.out := by
  cases a with
  | own input =>
    obtain ⟨hcontexts, -⟩ := untouched_own hstep
    exact fun c x hx => ⟨x, by rw [hcontexts]; exact hx, rfl⟩
  | handle a =>
    dsimp only [server, handles] at hstep
    split_ifs at hstep with hp
    cases hout : s.out.step cfg a with
    | next out =>
      rw [hout] at hstep
      cases hstep
      exact keepsKeys_step (step_cases hout)
    | _ =>
      rw [hout] at hstep
      cases hstep
  | feed bytes =>
    cases hstep
    exact fun c x hx => ⟨x, hx, rfl⟩

/-- A message is returned by the session of the latest `Connected`. -/
theorem message_step (hreg : Regular opens s) {a : Server.Action}
    (hstep : (server cfg codec opens framer supply).step s a = .next s') {text : Bytes}
    (hr : s'.returned = s.returned ++ [.message text]) :
    ∃ c, latest s.returned = some c ∧ s.sealer = some c ∧ s.out.binding = some c ∧
      Opened opens s.out c text := by
  obtain ⟨inside, hw, hplaced⟩ := hreg.placed
  rcases (advances_step hreg hstep).emits with ⟨hr', -⟩ | ⟨r, hr', -, he⟩
  · exact absurd (hr.symm.trans hr') (returned_ne _ _)
  · cases List.append_inj_right (hr.symm.trans hr') rfl
    obtain ⟨c, hst, hbound⟩ := he
    rw [hst] at hplaced
    obtain ⟨-, hc, hopened⟩ := hplaced
    exact ⟨c, (hreg.held.session c hc).1, hc, hbound, hopened text rfl⟩

/-- A pending handshake comes after the contexts are gone. -/
theorem sealer_of_pending (hreg : Regular opens s) (hpending : s.handshakeDeadline.isSome)
    (hending : ∀ drop next, s.stage ≠ .ending drop next) : s.sealer = none := by
  obtain ⟨inside, hw, hplaced⟩ := hreg.placed
  cases hst : s.stage with
  | idle =>
    rw [hst] at hplaced
    exact hplaced.1.2 hpending
  | top =>
    rw [hst] at hplaced
    exact hplaced.1.2 hpending
  | read phase =>
    rw [hst] at hplaced
    rw [hplaced.1.2] at hpending
    cases hpending
  | accept c opened =>
    rw [hst] at hplaced
    rw [hplaced.1.2] at hpending
    cases hpending
  | ending drop next => exact absurd hst (hending drop next)
  | dropping next =>
    rw [hst] at hplaced
    exact hplaced.1
  | bind key =>
    rw [hst] at hplaced
    exact hplaced.1.2.1
  | _ =>
    rw [hst] at hplaced
    exact hplaced.2.1

/-- **The event grammar of the server**: in every run on any bytes, with any adapter, any results of
the handshake cryptography and any sends and disconnects of other threads. -/
theorem events (h : (server cfg codec opens framer supply).Reachable s) :
    Orderly (server cfg codec opens framer supply) opens s := by
  have hreg := regular_reachable h
  obtain ⟨inside, hw, -⟩ := hreg.placed
  refine ⟨⟨inside, hw⟩, hreg.held.both, hreg.held.session, ?_, ?_, ?_, ?_, ?_, ?_⟩
  · intro hpending hending
    have hnone := sealer_of_pending hreg hpending hending
    exact ⟨hnone, hreg.held.receiver_none hnone⟩
  · exact fun a s' text hstep hr => message_step hreg hstep hr
  · intro s' c hreach hc hb
    obtain ⟨-, x, rx, hx, -⟩ := hreg.held.session c hc
    have hlt := (List.getElem?_eq_some_iff.mp hx).1
    refine (hreach.invariant (I := fun t => c < t.out.contexts.length ∧
      (t.out.binding = some c → s.out.binding = some c)) ⟨hlt, id⟩ ?_).2 hb
    rintro t a t' - ⟨hlt', hb'⟩ hstep
    have hstep' : (server cfg codec opens framer supply).step t a = .next t' := hstep
    obtain ⟨hlt'', hb''⟩ := step_contexts hstep' hlt'
    exact ⟨hlt'', fun h => hb' (hb'' h)⟩
  · intro a s' error hstep hr
    rcases (advances_step hreg hstep).emits with ⟨hr', -⟩ | ⟨r, hr', -, he⟩
    · exact absurd (hr.symm.trans hr') (returned_ne _ _)
    · cases List.append_inj_right (hr.symm.trans hr') rfl
      obtain ⟨-, hout, hsame⟩ := he
      exact ⟨by rw [hout], hsame⟩
  · intro s' error hreach htop hidle hr
    rcases since_reachable hreg htop hreach with ⟨-, hne, -⟩ | ⟨r, rest, hr', hsame⟩
    · exact absurd hidle hne
    · cases List.append_cancel_left (hr.symm.trans hr')
      exact hsame error rfl rfl hidle
  · intro s₁ a s₂ s' error hreach₁ htop hr₁ hstep ha hreach' hr
    exact keeps_call h hreach₁ htop hr₁ hstep ha hreach' hr

/-- A client connects, sends a message and resets the session. -/
def resetInSession : List Server.Action :=
  let turn : Server.Action := .own (.turn reads 50)
  let go : Server.Action := .own (.go 1)
  let call : Server.Action := .handle (advance 0)
  [.own .recv, go, turn, turn, turn, go, call, call, go, turn, .own (.seals (.ok (⟨1, 2⟩, [4]))),
    call, call, call, call, go, turn, .own (.opened (.ok ⟨3⟩)), call, call, go,
    .own .recv, go, turn, turn, turn, go, .own .recv, go, turn, call, call, go]

theorem events_resetInSession :
    let opens := openSealed fun _ => [([7], [9, 7])]
    let m := server (smallConfig .server) smallCodec opens (.new 8)
      [0, 2, 5, 0, 2, 6, 0, 3, 9, 7, 0, 0]
    ∃ s, m.run resetInSession m.init = some s ∧ word s.returned = some false ∧
      latest s.returned = some 0 ∧ serverMessages s.returned = [[7]] ∧
      s.handshakeDeadline = some 50 ∧ Orderly m opens s := by
  intro opens m
  have hrun : (m.run resetInSession m.init).map (fun s =>
      (word s.returned, latest s.returned, serverMessages s.returned, s.handshakeDeadline)) =
        some (some false, some 0, [[7]], some 50) := by
    decide +kernel
  obtain ⟨s, hr, hs⟩ := Option.map_eq_some_iff.mp hrun
  simp only [Prod.mk.injEq] at hs
  exact ⟨s, hr, hs.1, hs.2.1, hs.2.2.1, hs.2.2.2, events (Machine.reachable_of_run hr)⟩

end ArkWire.Transport.Events
