import ArkWire.Protocol.Server
import ArkWire.Protocol.Steps
import ArkWire.Transport.Events

/-! # The succession of server sessions

The reader attaches sessions one after the other. `Inv` places every thread that has released the
server's lock in the middle of `attach` or `close`: the sessions attached before the last one are
closed, all of them are before a new one is installed, and a call of `close` that is past the
session it found leaves none open. -/

namespace ArkWire.Protocol.Succession

open ArkWire.Lib.Machines
open ArkWire.Transport.Errors ArkWire.Transport.FrameWriter
open ArkWire.Transport.Endpoint (Opens Transcript)
open ArkWire.Transport.Server (Returned)
open ArkWire.Transport.OutboundSteps (keepsKeys_step)
open ArkWire.Transport.Events
open ArkWire.Protocol.Errors ArkWire.Protocol.Envelope ArkWire.Protocol.Operation
open ArkWire.Protocol.Session ArkWire.Protocol.System ArkWire.Protocol.Sections
open ArkWire.Protocol.Steps ArkWire.Protocol.Server

variable {M : Type}

/-! ### A closed session stays closed -/

/-- The first closing reason stays. -/
def Lasting (s s' : SessionInner M) : Prop := ∀ e, s.state = .closed e → s'.state = .closed e

namespace Lasting

variable {s s' : SessionInner M}

theorem of_state (h : s'.state = s.state) : Lasting s s' := fun _ he => h.trans he

theorem of_opened {o : OpenState M} (h : s.state = .opened o) : Lasting s s' := by
  intro e he
  rw [h] at he
  cases he

theorem trans {s'' : SessionInner M} (h : Lasting s s') (h' : Lasting s' s'') : Lasting s s'' :=
  fun e he => h' e (h e he)

theorem close (error : Error) (now : ℕ) : Lasting s (s.close error now).1 := by
  have hc := close_cases s error now
  generalize s.close error now = r at hc ⊢
  cases hc with
  | already hs => exact of_state rfl
  | closed hs => exact of_opened hs

theorem expire (now : ℕ) : Lasting s (s.expire now) := by
  have hc := expire_cases s now
  generalize s.expire now = r at hc ⊢
  cases hc with
  | closed hs => exact of_state rfl
  | expired hs => exact of_opened hs

theorem submit {body : OutgoingBody M} {deadline now : ℕ}
    (h : s.submit body deadline now = .ok s') : Lasting s s' := by
  cases submit_cases h with
  | late ho _ => exact of_opened ho
  | queued ho _ => exact of_opened ho

theorem handleMessage {codec : Envelope.Codec M} {bytes : Bytes} {now : ℕ}
    {result : Except Error (Option ℕ)} (h : s.handleMessage codec bytes now = .ok (s', result)) :
    Lasting s s' := by
  cases handleMessage_cases h with
  | unknown _ _ ho => exact of_opened ho
  | admitted _ _ _ ho => exact of_opened ho
  | late _ _ ho => exact of_opened ho
  | completed _ _ ho => exact of_opened ho
  | _ => exact of_state rfl

theorem nextOutgoing {now : ℕ} {pickup : SessionInner.Pickup M}
    (h : s.nextOutgoing now = .ok (s', pickup)) : Lasting s s' := by
  have he : Lasting s (s.expire now) := expire now
  cases nextOutgoing_cases h with
  | request ho => exact he.trans (of_opened ho)
  | reply ho => exact he.trans (of_opened ho)
  | _ => exact he

theorem setInboundLimits (requests bytes now : ℕ) :
    Lasting s (s.setInboundLimits requests bytes now).1 := by
  have hc := setInboundLimits_cases s requests bytes now
  generalize s.setInboundLimits requests bytes now = r at hc ⊢
  cases hc with
  | closed hs => exact of_state rfl
  | exceeded ho => exact of_opened ho
  | limited ho => exact of_opened ho

theorem setAutoreplyTimeout (timeout : ℕ) : Lasting s (s.setAutoreplyTimeout timeout) := by
  rcases setAutoreplyTimeout_cases s timeout with ⟨e, hs, he⟩ | ⟨o, ho, he⟩
  · rw [he]
    exact of_state rfl
  · exact of_opened ho

theorem withdraw (id : ℕ) : Lasting s (s.withdraw id) := by
  rcases withdraw_cases s id with ⟨e, hs, he⟩ | ⟨o, ho, he⟩
  · rw [he]
    exact of_state rfl
  · exact of_opened ho

theorem recordWrite (key : ℕ) (result : Except Error Unit) (now : ℕ) :
    Lasting s (s.recordWrite key result now) := by
  have hc := recordWrite_cases s key result now
  generalize s.recordWrite key result now = r at hc ⊢
  cases hc with
  | kept => exact of_state rfl
  | failed ho => exact of_opened ho
  | written ho => exact of_opened ho

end Lasting

theorem lasting_effect {codec : Envelope.Codec M} {s s' : Sys M} {i : Option Bytes}
    (h : Step codec s i s') : Lasting s.session s'.session := by
  cases h with
  | request h => exact .submit h
  | respond _ h =>
    have hl : Lasting s.session _ := .submit h
    exact hl.trans (.of_state rfl)
  | autoreplyQueued _ h =>
    have hl : Lasting s.session _ := .submit h
    exact hl.trans (.of_state rfl)
  | recv _ h =>
    obtain ⟨o, rest, ho, -, rfl⟩ := takeIncoming_cases h
    exact .of_opened ho
  | decode h =>
    unfold Sys.decodeRequest
    dsimp only
    split <;> exact .of_state rfl
  | messageRefused h => exact .handleMessage h
  | messageRouted h => exact .handleMessage h
  | messageUnknown h => exact .handleMessage h
  | close h => exact .close _ _
  | closeOwed h => exact .close _ _
  | closeReceive h => exact .close _ _
  | fail h => exact .close _ _
  | setInboundLimits => exact .setInboundLimits _ _ _
  | setAutoreplyTimeout => exact .setAutoreplyTimeout _
  | expire => exact .expire _
  | pickupClosed _ h => exact .nextOutgoing h
  | pickupNone _ h _ => exact .nextOutgoing h
  | pickup _ h => exact .nextOutgoing h
  | @withdraw id message error h =>
    dsimp only [Sys.withSession]
    split_ifs
    · exact .withdraw id
    · exact .of_state rfl
  | report h => exact .recordWrite _ _ _
  | _ => exact .of_state rfl

/-! ### The sessions of a server -/

/-- A session is closed for a reason. -/
def Closed (sessions : List (Slot M)) (i : ℕ) (e : Error) : Prop :=
  ∃ slot, sessions[i]? = some slot ∧ slot.sys.session.state = .closed e

def Ended (sessions : List (Slot M)) (i : ℕ) : Prop := ∃ e, Closed sessions i e

/-- One session goes on: it belongs to its `Connected`, and a closed one stays as it is. -/
structure SlotKeeps (slot slot' : Slot M) : Prop where
  event : slot'.event = slot.event
  lasting : Lasting slot.sys.session slot'.sys.session
  released : slot'.released = true → slot.released = true ∨
    ∃ e, slot'.sys.session.state = .closed e

theorem SlotKeeps.refl (slot : Slot M) : SlotKeeps slot slot := ⟨rfl, .of_state rfl, .inl⟩

theorem SlotKeeps.sys (slot : Slot M) {sys : Sys M} (h : Lasting slot.sys.session sys.session) :
    SlotKeeps slot { slot with sys } := ⟨rfl, h, .inl⟩

theorem SlotKeeps.drop (slot : Slot M) (now : ℕ) : SlotKeeps slot (slot.drop now) :=
  ⟨rfl, .close _ _, .inl⟩

theorem SlotKeeps.close (slot : Slot M) (error : Error) (now : ℕ) :
    SlotKeeps slot (slot.close error now) := ⟨rfl, .close _ _, .inl⟩

theorem SlotKeeps.limit (slot : Slot M) (requests bytes now : ℕ) :
    SlotKeeps slot (slot.limit requests bytes now) := ⟨rfl, .setInboundLimits _ _ _, .inl⟩

theorem SlotKeeps.setTimeout (slot : Slot M) (timeout : ℕ) :
    SlotKeeps slot (slot.setTimeout timeout) := ⟨rfl, .setAutoreplyTimeout _, .inl⟩

theorem SlotKeeps.trans {slot slot' slot'' : Slot M} (h : SlotKeeps slot slot')
    (h' : SlotKeeps slot' slot'') : SlotKeeps slot slot'' where
  event := h'.event.trans h.event
  lasting := h.lasting.trans h'.lasting
  released hr := by
    rcases h'.released hr with hr' | he
    · rcases h.released hr' with hr'' | ⟨e, he⟩
      · exact .inl hr''
      · exact .inr ⟨e, h'.lasting e he⟩
    · exact .inr he

/-- The sessions go on, and new ones may start. -/
def Keeps (sessions sessions' : List (Slot M)) : Prop :=
  ∀ (i : ℕ) slot, sessions[i]? = some slot →
    ∃ slot', sessions'[i]? = some slot' ∧ SlotKeeps slot slot'

theorem Keeps.refl (sessions : List (Slot M)) : Keeps sessions sessions :=
  fun _ slot h => ⟨slot, h, .refl slot⟩

theorem Keeps.append (sessions new : List (Slot M)) : Keeps sessions (sessions ++ new) := by
  intro i slot h
  have hlt := (List.getElem?_eq_some_iff.mp h).1
  exact ⟨slot, by rw [List.getElem?_append_left hlt, h], .refl slot⟩

theorem Keeps.modify {sessions : List (Slot M)} {i : ℕ} {f : Slot M → Slot M}
    (hf : ∀ slot, sessions[i]? = some slot → SlotKeeps slot (f slot)) :
    Keeps sessions (sessions.modify i f) := by
  intro j slot h
  by_cases hj : i = j
  · subst hj
    exact ⟨f slot, by rw [List.getElem?_modify_eq, h]; rfl, hf slot h⟩
  · exact ⟨slot, by rw [List.getElem?_modify_ne _ _ hj, h], .refl slot⟩

theorem Keeps.modify? {s : ServerInner M} {i : Option ℕ} {f : Slot M → Slot M}
    (hf : ∀ slot, SlotKeeps slot (f slot)) : Keeps s.sessions (s.modify? i f).sessions := by
  cases i with
  | none => exact .refl _
  | some i => exact .modify fun slot _ => hf slot

theorem Closed.keep {sessions sessions' : List (Slot M)} (hk : Keeps sessions sessions') {i : ℕ}
    {e : Error} (h : Closed sessions i e) : Closed sessions' i e := by
  obtain ⟨slot, hslot, he⟩ := h
  obtain ⟨slot', hslot', hkeep⟩ := hk i slot hslot
  exact ⟨slot', hslot', hkeep.lasting e he⟩

theorem Ended.keep {sessions sessions' : List (Slot M)} (hk : Keeps sessions sessions') {i : ℕ}
    (h : Ended sessions i) : Ended sessions' i := by
  obtain ⟨e, he⟩ := h
  exact ⟨e, he.keep hk⟩

/-- `close` closes. -/
theorem ended_close {sessions : List (Slot M)} {i : ℕ} (hi : i < sessions.length) (error : Error)
    (now : ℕ) : Ended (sessions.modify i (·.close error now)) i := by
  have hslot := List.getElem?_eq_getElem hi
  have hstate : ∃ e, (sessions[i].close error now).sys.session.state = .closed e := by
    show ∃ e, (sessions[i].sys.session.close error now).1.state = .closed e
    have hc := close_cases sessions[i].sys.session error now
    generalize sessions[i].sys.session.close error now = r at hc ⊢
    cases hc with
    | already hs => exact ⟨_, hs⟩
    | closed hs => exact ⟨_, rfl⟩
  obtain ⟨e, he⟩ := hstate
  exact ⟨e, _, by rw [List.getElem?_modify_eq, hslot]; rfl, he⟩

@[simp] theorem length_modify? (s : ServerInner M) (i : Option ℕ) (f : Slot M → Slot M) :
    (s.modify? i f).sessions.length = s.sessions.length := by
  cases i with
  | none => rfl
  | some i => exact List.length_modify ..

/-! ### The invariant -/

/-- The session of the latest `Connected`. -/
def Serves (sessions : List (Slot M)) (returned : List Returned) (i : ℕ) : Prop :=
  ∃ slot before c rest, sessions[i]? = some slot ∧ slot.event = before.length ∧
    returned = before ++ .connected c :: rest ∧ ∀ c', .connected c' ∉ rest

/-- Where the new session is while the reader is in `attach`. -/
def Attaching (sessions : List (Slot M)) (attached : List ℕ) : Reader → Prop
  | .attach i => i + 1 = sessions.length ∧ ∀ j ∈ attached, j < i
  | .replace i previous => (i + 1 = sessions.length ∧ ∀ j ∈ attached, j < i) ∧
      attached.getLast? = some previous
  | .install i => (i + 1 = sessions.length ∧ ∀ j ∈ attached, j < i) ∧
      ∀ j ∈ attached, Ended sessions j
  | _ => True

/-- The session the reader hands messages to. -/
def Current (sessions : List (Slot M)) (attached : List ℕ) (returned : List Returned) (i : ℕ) :
    Reader → Prop
  | .got (.connected _) => True
  | .attach j => i = j ∧ Serves sessions returned i
  | .replace j _ => i = j ∧ Serves sessions returned i
  | .install j => i = j ∧ Serves sessions returned i
  | .refused _ => True
  | .stopped => True
  | _ => attached.getLast? = some i ∧ Serves sessions returned i

/-- What the reader has got from the transport. -/
def Got (opens : Opens) (t : Transport.Server) (sessions : List (Slot M)) : Reader → Prop
  | .got (.connected c) => ∃ before, t.returned = before ++ [.connected c] ∧
      ∀ slot ∈ sessions, slot.event < before.length
  | .got (.message bytes) => t.returned.getLast? = some (.message bytes) ∧
      ∃ c, latest t.returned = some c ∧ Opened opens t.out c bytes
  | _ => True

/-- What a call of `close` has still to do. -/
def Shuts (sessions : List (Slot M)) (attached : List ℕ) (state : Server.State) : Closing → Prop
  | .outside => True
  | .entering _ => True
  | .session target _ _ => (∃ reason session, state = .closed reason session) ∧
      ∀ i, attached.getLast? = some i → target = some i ∨ Ended sessions i
  | _ => (∃ reason session, state = .closed reason session) ∧ ∀ i ∈ attached, Ended sessions i

structure Inv (m : Transporter) (opens : Opens) (s : ServerInner M) : Prop where
  transport : m.Reachable s.transport
  events : (s.sessions.map Slot.event).Pairwise (· < ·) ∧
    ∀ slot ∈ s.sessions, slot.event < s.transport.returned.length
  released : ∀ (i : ℕ) slot, s.sessions[i]? = some slot → slot.released = true → Ended s.sessions i
  bounded : ∀ i ∈ s.attached, i < s.sessions.length
  sorted : s.attached.Pairwise (· < ·)
  session : s.state.session = s.attached.getLast?
  replaced : ∀ i ∈ s.attached.dropLast, Ended s.sessions i
  ready : ∀ o, s.state = .opened o → ∀ i, o.ready = some i →
    s.attached.getLast? = some i ∧ i ∉ s.accepted
  accepted : s.accepted.Nodup ∧ s.accepted ⊆ s.attached
  attaching : Attaching s.sessions s.attached s.reader
  current : ∀ i, s.current = some i →
    Current s.sessions s.attached s.transport.returned i s.reader
  got : Got opens s.transport s.sessions s.reader
  closing : ∀ k, Shuts s.sessions s.attached s.state (s.closers k)

section Changes

variable {m : Transporter} {opens : Opens} {s : ServerInner M} {sessions sessions' : List (Slot M)}

theorem Keeps.map_event (hk : Keeps sessions sessions')
    (hlen : sessions'.length = sessions.length) :
    sessions'.map Slot.event = sessions.map Slot.event := by
  refine List.ext_getElem? fun i => ?_
  rw [List.getElem?_map, List.getElem?_map]
  cases hslot : sessions[i]? with
  | none =>
    rw [List.getElem?_eq_none_iff] at hslot
    rw [List.getElem?_eq_none_iff.mpr (by omega)]
  | some slot =>
    obtain ⟨slot', hslot', hkeep⟩ := hk i slot hslot
    rw [hslot', Option.map_some, Option.map_some, hkeep.event]

theorem Serves.keep (hk : Keeps sessions sessions') {returned : List Returned} {i : ℕ}
    (h : Serves sessions returned i) : Serves sessions' returned i := by
  obtain ⟨slot, before, c, rest, hslot, he, hr, hrest⟩ := h
  obtain ⟨slot', hslot', hkeep⟩ := hk i slot hslot
  exact ⟨slot', before, c, rest, hslot', hkeep.event.trans he, hr, hrest⟩

theorem Current.keep (hk : Keeps sessions sessions') {attached : List ℕ} {returned : List Returned}
    {i : ℕ} {reader : Reader} (h : Current sessions attached returned i reader) :
    Current sessions' attached returned i reader := by
  cases reader with
  | got result =>
    cases result with
    | connected c => trivial
    | _ => exact ⟨h.1, h.2.keep hk⟩
  | refused j => trivial
  | stopped => trivial
  | _ => exact ⟨h.1, h.2.keep hk⟩

theorem Attaching.keep (hk : Keeps sessions sessions') (hlen : sessions'.length = sessions.length)
    {attached : List ℕ} {reader : Reader} (h : Attaching sessions attached reader) :
    Attaching sessions' attached reader := by
  cases reader with
  | attach i => exact ⟨h.1.trans hlen.symm, h.2⟩
  | replace i previous => exact ⟨⟨h.1.1.trans hlen.symm, h.1.2⟩, h.2⟩
  | install i => exact ⟨⟨h.1.1.trans hlen.symm, h.1.2⟩, fun j hj => (h.2 j hj).keep hk⟩
  | _ => trivial

theorem Shuts.keep (hk : Keeps sessions sessions') {attached : List ℕ} {state : Server.State}
    {c : Closing} (h : Shuts sessions attached state c) : Shuts sessions' attached state c := by
  cases c with
  | outside => trivial
  | entering error => trivial
  | session target reason ready =>
    exact ⟨h.1, fun i hi => (h.2 i hi).imp id fun he => he.keep hk⟩
  | _ => exact ⟨h.1, fun i hi => (h.2 i hi).keep hk⟩

/-- While the server is open, no call of `close` is past its first section. -/
theorem Shuts.of_opened {attached attached' : List ℕ} {o : Server.OpenState} {state : Server.State}
    {c : Closing} (h : Shuts sessions attached (.opened o) c) :
    Shuts sessions' attached' state c := by
  cases c with
  | outside => trivial
  | entering error => trivial
  | _ =>
    obtain ⟨⟨_, _, hclosed⟩, -⟩ := h
    cases hclosed

theorem Got.keep (hevents : sessions'.map Slot.event = sessions.map Slot.event)
    {t : Transport.Server} {reader : Reader} (h : Got opens t sessions reader) :
    Got opens t sessions' reader := by
  cases reader with
  | got result =>
    cases result with
    | connected c =>
      obtain ⟨before, hr, hb⟩ := h
      refine ⟨before, hr, fun slot hslot => ?_⟩
      have hm : slot.event ∈ sessions.map Slot.event := by
        rw [← hevents]
        exact List.mem_map_of_mem hslot
      obtain ⟨slot₀, hslot₀, he⟩ := List.mem_map.mp hm
      rw [← he]
      exact hb slot₀ hslot₀
    | _ => exact h
  | _ => exact h

/-- The sessions go on. -/
theorem Inv.keep (h : Inv m opens s) (hk : Keeps s.sessions sessions')
    (hlen : sessions'.length = s.sessions.length) :
    Inv m opens { s with sessions := sessions' } where
  transport := h.transport
  events := by
    have hevents := hk.map_event hlen
    refine ⟨by rw [hevents]; exact h.events.1, fun slot hslot => ?_⟩
    have hm : slot.event ∈ s.sessions.map Slot.event := by
      rw [← hevents]
      exact List.mem_map_of_mem hslot
    obtain ⟨slot₀, hslot₀, he⟩ := List.mem_map.mp hm
    rw [← he]
    exact h.events.2 slot₀ hslot₀
  released := by
    intro i slot' hslot' hr
    have hlt : i < s.sessions.length := hlen ▸ (List.getElem?_eq_some_iff.mp hslot').1
    have hslot := List.getElem?_eq_getElem hlt
    obtain ⟨slot₁, hslot₁, hkeep⟩ := hk i _ hslot
    cases hslot'.symm.trans hslot₁
    rcases hkeep.released hr with hr | ⟨e, he⟩
    · exact (h.released i _ hslot hr).keep hk
    · exact ⟨e, slot', hslot', he⟩
  bounded := fun i hi => hlen.symm ▸ h.bounded i hi
  sorted := h.sorted
  session := h.session
  replaced := fun i hi => (h.replaced i hi).keep hk
  ready := h.ready
  accepted := h.accepted
  attaching := h.attaching.keep hk hlen
  current := fun i hi => (h.current i hi).keep hk
  got := h.got.keep (hk.map_event hlen)
  closing := fun k => (h.closing k).keep hk

theorem Inv.modify (h : Inv m opens s) {i : ℕ} {f : Slot M → Slot M}
    (hf : ∀ slot, s.sessions[i]? = some slot → SlotKeeps slot (f slot)) :
    Inv m opens (s.modify i f) :=
  h.keep (.modify hf) (List.length_modify ..)

theorem Inv.modify? (h : Inv m opens s) {i : Option ℕ} {f : Slot M → Slot M}
    (hf : ∀ slot, SlotKeeps slot (f slot)) : Inv m opens (s.modify? i f) := by
  cases i with
  | none => exact h
  | some i => exact h.modify fun slot _ => hf slot

/-- The reader goes on. -/
theorem Inv.read (h : Inv m opens s) {reader : Reader}
    (ha : Attaching s.sessions s.attached reader)
    (hc : ∀ i, s.current = some i → Current s.sessions s.attached s.transport.returned i reader)
    (hg : Got opens s.transport s.sessions reader) : Inv m opens { s with reader } :=
  { h with attaching := ha, current := hc, got := hg }

/-- A call of `close` goes on. -/
theorem Inv.shut (h : Inv m opens s) {k : ℕ} {c : Closing}
    (hc : Shuts s.sessions s.attached s.state c) :
    Inv m opens { s with closers := Function.update s.closers k c } := by
  refine { h with closing := fun j => ?_ }
  by_cases hj : j = k
  · subst hj
    dsimp only
    rw [Function.update_self]
    exact hc
  · dsimp only
    rw [Function.update_of_ne hj]
    exact h.closing j

/-- What cannot be upgraded is closed. -/
theorem ended_of_upgrade (h : Inv m opens s) {i : ℕ} (hi : s.attached.getLast? = some i)
    (hu : s.upgrade (some i) = none) : Ended s.sessions i := by
  have hlt := h.bounded i (List.mem_of_getLast? hi)
  have hslot := List.getElem?_eq_getElem hlt
  refine h.released i _ hslot ?_
  simpa [ServerInner.upgrade, hslot] using hu

theorem eq_of_upgrade {i : Option ℕ} {j : ℕ} (h : s.upgrade i = some j) : i = some j :=
  Option.eq_some_of_filter_eq_some h

/-- The sessions before the last are closed, so with the last all are. -/
theorem ended_all (h : Inv m opens s)
    (hlast : ∀ i, s.attached.getLast? = some i → Ended s.sessions i) :
    ∀ i ∈ s.attached, Ended s.sessions i := by
  intro i hi
  cases hl : s.attached.getLast? with
  | none =>
    rw [List.getLast?_eq_none_iff] at hl
    rw [hl] at hi
    cases hi
  | some last =>
    have hsplit : s.attached.dropLast ++ [last] = s.attached :=
      List.dropLast_append_getLast? last hl
    rw [← hsplit] at hi
    rcases List.mem_append.mp hi with hi | hi
    · exact h.replaced i hi
    · rw [List.mem_singleton.mp hi]
      exact hlast last hl

end Changes

/-! ### Every step keeps it -/

section Steps

variable {m : Transporter} {opens : Opens} {codec : Envelope.Codec M} {s s' : ServerInner M}

theorem inv_beginClose (h : Inv m opens s) {k : ℕ} {error : Error}
    (hs : s.beginClose k error = .next s') : Inv m opens s' := by
  unfold ServerInner.beginClose at hs
  split at hs
  · cases hs
    exact h.shut trivial
  · cases hs

theorem inv_acceptStep (h : Inv m opens s) (hs : s.acceptStep = .next s') : Inv m opens s' := by
  unfold ServerInner.acceptStep at hs
  split at hs
  · cases hs
    exact h
  · next o ho =>
    split at hs
    · cases hs
    · next i hr =>
      cases hs
      obtain ⟨hlast, hnew⟩ := h.ready o ho i hr
      have hmem := List.mem_of_getLast? hlast
      refine { h with
        session := ?_, ready := ?_, accepted := ⟨?_, ?_⟩, closing := fun k => ?_ }
      · have hsession := h.session
        rw [ho] at hsession
        exact hsession
      · intro o' ho' j hj
        cases ho'
        cases hj
      · exact List.nodup_append.mpr ⟨h.accepted.1, List.nodup_singleton i, fun a ha b hb => by
          rw [List.mem_singleton.mp hb]
          rintro rfl
          exact hnew ha⟩
      · exact List.append_subset.mpr ⟨h.accepted.2, fun j hj => List.mem_singleton.mp hj ▸ hmem⟩
      · exact (ho ▸ h.closing k).of_opened

theorem inv_policyStep (h : Inv m opens s) {set : Server.OpenState → Server.OpenState}
    {f : Slot M → Slot M} (hset : ∀ o, (set o).session = o.session ∧ (set o).ready = o.ready)
    (hf : ∀ slot, SlotKeeps slot (f slot)) (hs : s.policyStep set f = .next s') :
    Inv m opens s' := by
  unfold ServerInner.policyStep at hs
  split at hs
  · cases hs
    exact h
  · next o ho =>
    cases hs
    refine Inv.modify? (s := { s with state := .opened (set o) }) ?_ hf
    refine { h with session := ?_, ready := ?_, closing := fun k => ?_ }
    · have hsession := h.session
      rw [ho] at hsession
      exact (hset o).1.trans hsession
    · intro o' ho' i hi
      cases ho'
      exact h.ready o ho i ((hset o).2 ▸ hi)
    · exact (ho ▸ h.closing k).of_opened

theorem inv_closerStep (h : Inv m opens s) {k now : ℕ} (hs : s.closerStep k now = .next s') :
    Inv m opens s' := by
  unfold ServerInner.closerStep at hs
  split at hs
  · next error hk =>
    split at hs
    · next reason session hst =>
      cases hs
      refine h.shut ⟨⟨reason, session, hst⟩, fun i hi => ?_⟩
      have hsession := h.session
      rw [hst, hi] at hsession
      cases hu : s.upgrade session with
      | none => exact .inr (ended_of_upgrade h hi (by rw [← hu]; exact congrArg _ hsession.symm))
      | some j => exact .inl ((eq_of_upgrade hu).symm.trans hsession)
    · next o ho =>
      cases hs
      have hsession : o.session = s.attached.getLast? := by
        have hsession := h.session
        rw [ho] at hsession
        exact hsession
      refine Inv.shut (s := { s with state := .closed error o.session }) ?_
        ⟨⟨error, o.session, rfl⟩, fun i hi => ?_⟩
      · exact { h with
          session := hsession
          ready := fun _ ho' => (by cases ho')
          closing := fun j => (ho ▸ h.closing j).of_opened }
      · have hi' : o.session = some i := hsession.trans hi
        cases hu : s.upgrade o.session with
        | none => exact .inr (ended_of_upgrade h hi (by rw [← hi']; exact hu))
        | some j => exact .inl ((eq_of_upgrade hu).symm.trans hi')
  · next target reason ready hk =>
    cases hs
    obtain ⟨hclosed, htarget⟩ := hk ▸ h.closing k
    have hkeep : Inv m opens (s.modify? target (·.close reason now)) :=
      h.modify? fun slot => .close slot reason now
    refine hkeep.shut ⟨hclosed, ended_all hkeep fun i hi => ?_⟩
    rcases htarget i hi with rfl | he
    · exact ended_close (h.bounded i (List.mem_of_getLast? hi)) reason now
    · exact he.keep (.modify? fun slot => .close slot reason now)
  · next ready hk =>
    cases hs
    obtain ⟨hclosed, hall⟩ := hk ▸ h.closing k
    have hkeep : Inv m opens (s.modify? ready (·.drop now)) := h.modify? fun slot => .drop slot now
    exact hkeep.shut ⟨hclosed, fun i hi => (hall i hi).keep (.modify? fun slot => .drop slot now)⟩
  · next hk =>
    cases hs
    obtain ⟨hclosed, hall⟩ := hk ▸ h.closing k
    exact h.shut ⟨hclosed, hall⟩
  · cases hs

/-- The second section of `attach` installs the new session. -/
theorem Inv.install (h : Inv m opens s) {o : Server.OpenState} (ho : s.state = .opened o) {i : ℕ}
    (hr : s.reader = .install i) : Inv m opens
      { s with
        state := .opened { o with session := some i, ready := some i }
        reader := .installed o.ready
        attached := s.attached ++ [i] } := by
  obtain ⟨⟨hlen, hbefore⟩, hall⟩ := hr ▸ h.attaching
  have hlast : (s.attached ++ [i]).getLast? = some i := List.getLast?_concat
  refine { h with
    bounded := fun j hj => ?_, sorted := ?_, session := hlast.symm, replaced := ?_
    ready := fun o' ho' j hj => ?_
    accepted := ⟨h.accepted.1, fun j hj => List.mem_append_left _ (h.accepted.2 hj)⟩
    attaching := trivial, current := fun j hj => ?_, got := trivial
    closing := fun k => (ho ▸ h.closing k).of_opened }
  · rcases List.mem_append.mp hj with hj | hj
    · exact h.bounded j hj
    · rw [List.mem_singleton.mp hj]
      show i < s.sessions.length
      omega
  · refine List.pairwise_append.mpr ⟨h.sorted, List.pairwise_singleton _ i, fun a ha b hb => ?_⟩
    rw [List.mem_singleton.mp hb]
    exact hbefore a ha
  · dsimp only
    rw [List.dropLast_concat]
    exact hall
  · cases ho'
    cases hj
    refine ⟨hlast, fun hmem => ?_⟩
    exact absurd (hbefore i (h.accepted.2 hmem)) (lt_irrefl i)
  · have hcurrent := h.current j hj
    rw [hr] at hcurrent
    obtain ⟨rfl, hserves⟩ := hcurrent
    exact ⟨hlast, hserves⟩

theorem inv_attachStep (h : Inv m opens s) {now : ℕ} (hs : s.attachStep now = .next s') :
    Inv m opens s' := by
  unfold ServerInner.attachStep at hs
  split at hs
  · next i hr =>
    have hattach := hr ▸ h.attaching
    split at hs
    · cases hs
      exact h.read trivial (fun _ _ => trivial) trivial
    · next o ho =>
      have hcurrent : ∀ j, s.current = some j →
          j = i ∧ Serves s.sessions s.transport.returned j := by
        intro j hj
        have hcurrent := h.current j hj
        rw [hr] at hcurrent
        exact hcurrent
      have hsession : o.session = s.attached.getLast? := by
        have hsession := h.session
        rw [ho] at hsession
        exact hsession
      split at hs
      · next previous hu =>
        cases hs
        have hlast := hsession.symm.trans (eq_of_upgrade hu)
        exact h.read ⟨hattach, hlast⟩ hcurrent trivial
      · next hu =>
        cases hs
        refine h.read ⟨hattach, ended_all h fun j hj => ?_⟩ hcurrent trivial
        exact ended_of_upgrade h hj (by rw [← hj, ← hsession]; exact hu)
  · next i previous hr =>
    cases hs
    obtain ⟨hattach, hlast⟩ := hr ▸ h.attaching
    have hcurrent : ∀ j, s.current = some j →
        j = i ∧ Serves s.sessions s.transport.returned j := by
      intro j hj
      have hcurrent := h.current j hj
      rw [hr] at hcurrent
      exact hcurrent
    have hk : Keeps s.sessions (s.sessions.modify previous
        (·.close (.transport .sessionReset) now)) := .modify fun slot _ => .close slot _ now
    have hkeep : Inv m opens (s.modify previous (·.close (.transport .sessionReset) now)) :=
      h.modify fun slot _ => .close slot _ now
    refine hkeep.read ⟨⟨?_, hattach.2⟩, ended_all hkeep fun j hj => ?_⟩
      (fun j hj => ⟨(hcurrent j hj).1, (hcurrent j hj).2.keep hk⟩) trivial
    · rw [hattach.1]
      exact (List.length_modify ..).symm
    · cases hlast.symm.trans hj
      exact ended_close (h.bounded previous (List.mem_of_getLast? hlast)) _ now
  · next i hr =>
    obtain ⟨hattach, hall⟩ := hr ▸ h.attaching
    split at hs
    · cases hs
      exact h.read trivial (fun _ _ => trivial) trivial
    · next o ho =>
      cases hs
      exact (h.install ho hr).modify fun slot _ =>
        (SlotKeeps.limit slot _ _ now).trans (.setTimeout _ _)
  · next previous hr =>
    cases hs
    have hkeep : Inv m opens (s.modify? previous (·.drop now)) :=
      h.modify? fun slot => .drop slot now
    refine hkeep.read trivial (fun i hi => ?_) trivial
    have hcurrent := hkeep.current i hi
    rw [show (s.modify? previous (·.drop now)).reader = .installed previous from hr] at hcurrent
    exact hcurrent
  · next i hr =>
    cases hs
    have hkeep : Inv m opens (s.modify i (·.drop now)) := h.modify fun slot _ => .drop slot now
    exact hkeep.read trivial (fun _ _ => trivial) trivial
  · cases hs

/-- A `Connected` starts a session. -/
theorem Inv.start (h : Inv m opens s) {c : ℕ} (hr : s.reader = .got (.connected c)) : Inv m opens
    { s with
      sessions := s.sessions ++ [⟨.new .server, s.transport.returned.length - 1, false, false⟩]
      current := some s.sessions.length
      reader := .attach s.sessions.length } := by
  obtain ⟨before, hreturned, hevents⟩ := hr ▸ h.got
  have hlen : s.transport.returned.length - 1 = before.length := by
    rw [hreturned, List.length_append, List.length_singleton]
    omega
  have hk := Keeps.append s.sessions [⟨.new .server, s.transport.returned.length - 1, false, false⟩]
  refine { h with
    events := ⟨?_, fun slot hslot => ?_⟩, released := fun i slot hslot hrel => ?_
    bounded := fun i hi => ?_, replaced := fun i hi => (h.replaced i hi).keep hk
    attaching := ⟨by rw [List.length_append, List.length_singleton], h.bounded⟩
    current := fun i hi => ?_, got := trivial
    closing := fun k => (h.closing k).keep hk }
  · dsimp only
    rw [List.map_append]
    refine List.pairwise_append.mpr ⟨h.events.1, List.pairwise_singleton _ _, fun a ha b hb => ?_⟩
    obtain ⟨slot, hslot, rfl⟩ := List.mem_map.mp ha
    rw [List.mem_singleton.mp hb]
    show slot.event < s.transport.returned.length - 1
    rw [hlen]
    exact hevents slot hslot
  · rcases List.mem_append.mp hslot with hslot | hslot
    · exact h.events.2 slot hslot
    · rw [List.mem_singleton.mp hslot]
      show s.transport.returned.length - 1 < s.transport.returned.length
      rw [hlen, hreturned, List.length_append, List.length_singleton]
      omega
  · by_cases hi : i < s.sessions.length
    · dsimp only at hslot
      rw [List.getElem?_append_left hi] at hslot
      exact (h.released i slot hslot hrel).keep hk
    · dsimp only at hslot
      rw [List.getElem?_append_right (by omega)] at hslot
      cases hlt : i - s.sessions.length with
      | zero =>
        rw [hlt] at hslot
        cases hslot
        cases hrel
      | succ n =>
        rw [hlt] at hslot
        cases hslot
  · dsimp only
    rw [List.length_append]
    exact Nat.lt_of_lt_of_le (h.bounded i hi) (Nat.le_add_right _ _)
  · cases hi
    refine ⟨rfl, _, before, c, [], List.getElem?_concat_length, hlen, hreturned, fun _ hm => ?_⟩
    cases hm

theorem inv_resultStep (h : Inv m opens s) {now : ℕ} {result : Returned}
    (hr : s.reader = .got result) (hs : s.resultStep codec now result = .next s') :
    Inv m opens s' := by
  unfold ServerInner.resultStep at hs
  split at hs
  · cases hs
    exact h.start hr
  · cases hs
    have hkeep : Inv m opens (s.modify? (s.upgrade s.current)
        (·.close (.transport .sessionReset) now)) := h.modify? fun slot => .close slot _ now
    exact { hkeep with
      attaching := trivial, current := fun i hi => (by cases hi), got := trivial }
  · next bytes =>
    have hcurrent : ∀ i, s.current = some i →
        s.attached.getLast? = some i ∧ Serves s.sessions s.transport.returned i := by
      intro i hi
      have hcurrent := h.current i hi
      rw [hr] at hcurrent
      exact hcurrent
    split at hs
    · cases hs
      exact h.read trivial hcurrent trivial
    · next i hu =>
      split at hs
      · cases hs
      · next slot hslot =>
        split at hs
        · next sys hstep =>
          cases hs
          have hlast := lasting_effect (step_cases hstep)
          have hf : ∀ slot', s.sessions[i]? = some slot' → SlotKeeps slot' { slot' with sys } := by
            intro slot' hslot'
            cases hslot.symm.trans hslot'
            exact .sys slot hlast
          have hkeep : Inv m opens (s.modify i ({ · with sys })) := h.modify hf
          refine { hkeep with
            attaching := trivial, current := fun j hj => ?_, got := trivial }
          exact ⟨(hcurrent j hj).1, (hcurrent j hj).2.keep (.modify hf)⟩
        · cases hs
        · cases hs
  · cases hs
    refine h.read trivial (fun i hi => ?_) trivial
    have hcurrent := h.current i hi
    rw [hr] at hcurrent
    exact hcurrent
  · cases hs
    refine h.read trivial (fun i hi => ?_) trivial
    have hcurrent := h.current i hi
    rw [hr] at hcurrent
    exact hcurrent
  · cases hs

theorem inv_sessionStep (h : Inv m opens s) {i : ℕ} {a : System.Action M}
    (hs : s.sessionStep codec i a = .next s') : Inv m opens s' := by
  unfold ServerInner.sessionStep at hs
  split at hs
  · cases hs
  · next slot hslot =>
    split_ifs at hs
    split at hs
    · next sys hstep =>
      cases hs
      refine h.modify fun slot' hslot' => ?_
      cases hslot.symm.trans hslot'
      exact .sys slot (lasting_effect (step_cases hstep))
    · cases hs
    · cases hs

theorem inv_releaseStep (h : Inv m opens s) {i : ℕ} (hs : s.releaseStep i = .next s') :
    Inv m opens s' := by
  unfold ServerInner.releaseStep at hs
  split at hs
  · next slot hslot =>
    split at hs
    · next e _ _ hstate _ _ =>
      cases hs
      refine h.modify fun slot' hslot' => ?_
      cases hslot.symm.trans hslot'
      exact ⟨rfl, .of_state rfl, fun _ => .inr ⟨_, hstate⟩⟩
    · cases hs
  · cases hs

end Steps

section Transport

variable {cfg : Transport.Outbound.Config Transcript} {tcodec : Transport.Endpoint.Codec}
  {opens : Opens} {framer : Writer} {supply : Bytes} {codec : Envelope.Codec M}
  {s s' : ServerInner M}

/-- The transport goes on without returning. -/
theorem Inv.silent (h : Inv (Transport.Server.server cfg tcodec opens framer supply) opens s)
    {t : Transport.Server} {a : Transport.Server.Action}
    (hstep : (Transport.Server.server cfg tcodec opens framer supply).step s.transport a = .next t)
    (hr : t.returned = s.transport.returned) :
    Inv (Transport.Server.server cfg tcodec opens framer supply) opens
      { s with transport := t } := by
  refine { h with
    transport := h.transport.step hstep, events := ?_, current := fun i hi => ?_, got := ?_ }
  · dsimp only
    rw [hr]
    exact h.events
  · dsimp only
    rw [hr]
    exact h.current i hi
  · have hgot := h.got
    dsimp only
    cases hreader : s.reader with
    | got result =>
      rw [hreader] at hgot
      cases result with
      | connected c =>
        obtain ⟨before, hb, hevents⟩ := hgot
        exact ⟨before, hr.trans hb, hevents⟩
      | message bytes =>
        obtain ⟨hlast, c, hlatest, hopened⟩ := hgot
        exact ⟨by rw [hr]; exact hlast, c, by rw [hr]; exact hlatest,
          opened_keys (keepsKeys_server hstep) hopened⟩
      | _ => trivial
    | _ => trivial

/-- A result of the transport that is no `Connected` belongs to the same session. -/
theorem Serves.append {sessions : List (Slot M)} {returned : List Returned} {i : ℕ} {r : Returned}
    (h : Serves sessions returned i) (hne : ∀ c, r ≠ .connected c) :
    Serves sessions (returned ++ [r]) i := by
  obtain ⟨slot, before, c, rest, hslot, he, hr, hrest⟩ := h
  refine ⟨slot, before, c, rest ++ [r], hslot, he, ?_, fun c' hm => ?_⟩
  · rw [hr, List.append_assoc, List.cons_append]
  · rcases List.mem_append.mp hm with hm | hm
    · exact hrest c' hm
    · exact hne c' (List.mem_singleton.mp hm).symm

/-- `recv` returns to the reader. -/
theorem Inv.result (h : Inv (Transport.Server.server cfg tcodec opens framer supply) opens s)
    (hreader : s.reader = .receiving) {t : Transport.Server} {a : Transport.Server.Action}
    (hstep : (Transport.Server.server cfg tcodec opens framer supply).step s.transport a = .next t)
    {r : Returned} (hr : t.returned = s.transport.returned ++ [r]) :
    Inv (Transport.Server.server cfg tcodec opens framer supply) opens
      { s with transport := t, reader := .got r } := by
  have hcurrent : ∀ i, s.current = some i →
      s.attached.getLast? = some i ∧ Serves s.sessions s.transport.returned i := by
    intro i hi
    have hcurrent := h.current i hi
    rw [hreader] at hcurrent
    exact hcurrent
  refine { h with
    transport := h.transport.step hstep, events := ⟨h.events.1, fun slot hslot => ?_⟩
    attaching := trivial, current := fun i hi => ?_, got := ?_ }
  · dsimp only
    rw [hr, List.length_append]
    exact Nat.lt_of_lt_of_le (h.events.2 slot hslot) (Nat.le_add_right _ _)
  · dsimp only
    rw [hr]
    cases r with
    | connected c => trivial
    | _ => exact ⟨(hcurrent i hi).1, (hcurrent i hi).2.append fun _ hc => (by cases hc)⟩
  · cases r with
    | connected c => exact ⟨s.transport.returned, hr, h.events.2⟩
    | message bytes =>
      obtain ⟨c, hlatest, -, -, hopened⟩ := message_step (regular_reachable h.transport) hstep hr
      refine ⟨by dsimp only; rw [hr, List.getLast?_concat], c, ?_,
        opened_keys (keepsKeys_server hstep) hopened⟩
      dsimp only
      rw [hr, latest_append]
      exact hlatest
    | _ => trivial

theorem inv_transportStep
    (h : Inv (Transport.Server.server cfg tcodec opens framer supply) opens s)
    {a : Transport.Server.Action} (ha : ∀ input, a = .own input → s.reader = .receiving)
    (hs : s.transportStep (Transport.Server.server cfg tcodec opens framer supply) a = .next s') :
    Inv (Transport.Server.server cfg tcodec opens framer supply) opens s' := by
  unfold ServerInner.transportStep at hs
  split at hs
  · cases hs
  · cases hs
  · next t hstep =>
    cases hs
    rcases (advances_step (regular_reachable h.transport) hstep).emits with ⟨hr, -⟩ | ⟨r, hr, -⟩
    · have hdrop : t.returned.drop s.transport.returned.length = [] := by
        rw [hr, List.drop_length]
      simp only [hdrop]
      exact h.silent hstep hr
    · have hdrop : t.returned.drop s.transport.returned.length = [r] := by
        rw [hr, List.drop_left]
      simp only [hdrop]
      refine h.result ?_ hstep hr
      cases a with
      | own input => exact ha input rfl
      | handle a =>
        -- other threads return nothing to the reader
        exfalso
        dsimp only [Transport.Server.server] at hstep
        split at hstep
        · cases hstep
          exact returned_ne _ _ hr.symm
        · cases hstep
        · cases hstep
      | feed bytes =>
        cases hstep
        exact absurd hr.symm (returned_ne _ _)

theorem inv_readStep (h : Inv (Transport.Server.server cfg tcodec opens framer supply) opens s)
    {now : ℕ} (hs : s.readStep (Transport.Server.server cfg tcodec opens framer supply) codec now =
      .next s') :
    Inv (Transport.Server.server cfg tcodec opens framer supply) opens s' := by
  unfold ServerInner.readStep at hs
  split at hs
  · next hr =>
    have hreceiving : Inv (Transport.Server.server cfg tcodec opens framer supply) opens
        { s with reader := .receiving } := by
      refine h.read trivial (fun i hi => ?_) trivial
      have hcurrent := h.current i hi
      rw [hr] at hcurrent
      exact hcurrent
    exact inv_transportStep hreceiving (fun _ _ => rfl) hs
  · next result hr => exact inv_resultStep h hr hs
  · next hr =>
    split at hs
    · cases hs
      exact h.read trivial (fun _ _ => trivial) trivial
    · cases hs
      refine h.read trivial (fun i hi => ?_) trivial
      have hcurrent := h.current i hi
      rw [hr] at hcurrent
      exact hcurrent
  · exact inv_attachStep h hs

/-- **A step keeps the invariant.** -/
theorem inv_step (h : Inv (Transport.Server.server cfg tcodec opens framer supply) opens s)
    {a : Server.Action M}
    (hs : s.step (Transport.Server.server cfg tcodec opens framer supply) codec a = .next s') :
    Inv (Transport.Server.server cfg tcodec opens framer supply) opens s' := by
  cases a with
  | transport a =>
    cases a with
    | own input =>
      simp only [ServerInner.step] at hs
      split at hs
      · cases hs
      · cases hs
      · next hr _ _ => exact inv_transportStep h (fun _ _ => hr) hs
      · cases hs
    | handle a => exact inv_transportStep h (fun _ ha => (by cases ha)) hs
    | feed bytes => exact inv_transportStep (a := .feed bytes) h (fun _ ha => (by cases ha)) hs
  | read now => exact inv_readStep h hs
  | quit =>
    simp only [ServerInner.step] at hs
    split at hs
    · cases hs
      exact h.read trivial (fun _ _ => trivial) trivial
    · cases hs
  | fail k =>
    have hstopped : Inv (Transport.Server.server cfg tcodec opens framer supply) opens
        { s with reader := .stopped } := h.read trivial (fun _ _ => trivial) trivial
    simp only [ServerInner.step] at hs
    split at hs
    · cases hs
    · cases hs
    · exact inv_beginClose hstopped hs
    · cases hs
  | accept => exact inv_acceptStep h hs
  | setInboundLimits requests bytes now =>
    refine inv_policyStep h ?_ (fun slot => .limit slot requests bytes now) hs
    exact fun _ => ⟨rfl, rfl⟩
  | setAutoreplyTimeout timeout =>
    refine inv_policyStep h ?_ (fun slot => .setTimeout slot timeout) hs
    exact fun _ => ⟨rfl, rfl⟩
  | close k => exact inv_beginClose h hs
  | closer k now => exact inv_closerStep h hs
  | session i a => exact inv_sessionStep h hs
  | dropSession i now =>
    simp only [ServerInner.step] at hs
    split_ifs at hs
    cases hs
    exact h.modify fun slot _ => .drop slot now
  | release i => exact inv_releaseStep h hs

theorem inv_reachable
    (h : (Server.machine (Transport.Server.server cfg tcodec opens framer supply) codec).Reachable
      s) :
    Inv (Transport.Server.server cfg tcodec opens framer supply) opens s := by
  refine h.invariant (I := fun s => Inv (Transport.Server.server cfg tcodec opens framer supply)
    opens s) ?_ fun s a s' _ hi hs => inv_step hi hs
  exact {
    transport := .init
    events := ⟨.nil, fun _ h => (by cases h)⟩
    released := fun _ _ h => (by cases h)
    bounded := fun _ h => (by cases h)
    sorted := .nil
    session := rfl
    replaced := fun _ h => (by cases h)
    ready := fun _ ho _ hi => (by cases ho; cases hi)
    accepted := ⟨.nil, fun _ h => (by cases h)⟩
    attaching := trivial
    current := fun _ h => (by cases h)
    got := trivial
    closing := fun _ => trivial }

end Transport

/-! ### What a step does to the sessions -/

structure Effects (s s' : ServerInner M) : Prop where
  keeps : Keeps s.sessions s'.sessions
  closed : ∀ reason session, s.state = .closed reason session →
    s'.state = .closed reason session ∧ s'.attached = s.attached ∧ s'.accepted = s.accepted
  accepted : s'.accepted = s.accepted ∨ ∃ o i, s.state = .opened o ∧ o.ready = some i ∧
    s'.accepted = s.accepted ++ [i]
  handled : s'.handled = s.handled ∨ ∃ i bytes, s.reader = .got (.message bytes) ∧
    s.upgrade s.current = some i ∧ s'.handled = s.handled ++ [(i, bytes)]

namespace Effects

variable {m : Transporter} {codec : Envelope.Codec M} {s s' : ServerInner M}

theorem of_keeps (hk : Keeps s.sessions s'.sessions) (hs : s'.state = s.state)
    (ha : s'.attached = s.attached) (hc : s'.accepted = s.accepted)
    (hh : s'.handled = s.handled) : Effects s s' :=
  ⟨hk, fun _ _ h => ⟨hs.trans h, ha, hc⟩, .inl hc, .inl hh⟩

/-- Under the lock of an open server. -/
theorem of_opened {o : Server.OpenState} (ho : s.state = .opened o)
    (hk : Keeps s.sessions s'.sessions) (hc : s'.accepted = s.accepted)
    (hh : s'.handled = s.handled) : Effects s s' := by
  refine ⟨hk, fun _ _ h => ?_, .inl hc, .inl hh⟩
  rw [ho] at h
  cases h

theorem transportStep {a : Transport.Server.Action} (hs : s.transportStep m a = .next s') :
    Effects s s' := by
  unfold ServerInner.transportStep at hs
  split at hs
  · cases hs
  · cases hs
  · cases hs
    exact of_keeps (.refl _) rfl rfl rfl rfl

theorem attachStep {now : ℕ} (hs : s.attachStep now = .next s') : Effects s s' := by
  unfold ServerInner.attachStep at hs
  split at hs
  · split at hs
    · cases hs
      exact of_keeps (.refl _) rfl rfl rfl rfl
    · split at hs <;> cases hs <;> exact of_keeps (.refl _) rfl rfl rfl rfl
  · cases hs
    exact of_keeps (.modify fun slot _ => .close slot _ now) rfl rfl rfl rfl
  · split at hs
    · cases hs
      exact of_keeps (.refl _) rfl rfl rfl rfl
    · next o ho =>
      cases hs
      exact of_opened ho (.modify fun slot _ =>
        (SlotKeeps.limit slot _ _ now).trans (.setTimeout _ _)) rfl rfl
  · cases hs
    exact of_keeps (.modify? fun slot => .drop slot now) rfl rfl rfl rfl
  · cases hs
    exact of_keeps (.modify fun slot _ => .drop slot now) rfl rfl rfl rfl
  · cases hs

theorem resultStep {now : ℕ} {result : Returned} (hr : s.reader = .got result)
    (hs : s.resultStep codec now result = .next s') : Effects s s' := by
  unfold ServerInner.resultStep at hs
  split at hs
  · cases hs
    exact of_keeps (.append _ _) rfl rfl rfl rfl
  · cases hs
    exact of_keeps (.modify? fun slot => .close slot _ now) rfl rfl rfl rfl
  · next bytes =>
    split at hs
    · cases hs
      exact of_keeps (.refl _) rfl rfl rfl rfl
    · next i hu =>
      split at hs
      · cases hs
      · next slot hslot =>
        split at hs
        · next sys hstep =>
          cases hs
          refine ⟨.modify fun slot' hslot' => ?_, fun _ _ h => ⟨h, rfl, rfl⟩, .inl rfl,
            .inr ⟨i, bytes, hr, hu, rfl⟩⟩
          cases hslot.symm.trans hslot'
          exact .sys slot (lasting_effect (step_cases hstep))
        · cases hs
        · cases hs
  · cases hs
    exact of_keeps (.refl _) rfl rfl rfl rfl
  · cases hs
    exact of_keeps (.refl _) rfl rfl rfl rfl
  · cases hs

theorem readStep {now : ℕ} (hs : s.readStep m codec now = .next s') : Effects s s' := by
  unfold ServerInner.readStep at hs
  split at hs
  · have he := transportStep hs
    exact ⟨he.keeps, he.closed, he.accepted, .inl (he.handled.resolve_right fun ⟨_, _, hr, _⟩ =>
      (by cases hr))⟩
  · next result hr => exact resultStep hr hs
  · split at hs <;> cases hs <;> exact of_keeps (.refl _) rfl rfl rfl rfl
  · exact attachStep hs

theorem closerStep {k now : ℕ} (hs : s.closerStep k now = .next s') : Effects s s' := by
  unfold ServerInner.closerStep at hs
  split at hs
  · split at hs
    · cases hs
      exact of_keeps (.refl _) rfl rfl rfl rfl
    · next o ho =>
      cases hs
      exact of_opened ho (.refl _) rfl rfl
  · cases hs
    exact of_keeps (.modify? fun slot => .close slot _ now) rfl rfl rfl rfl
  · cases hs
    exact of_keeps (.modify? fun slot => .drop slot now) rfl rfl rfl rfl
  · cases hs
    exact of_keeps (.refl _) rfl rfl rfl rfl
  · cases hs

theorem beginClose {k : ℕ} {error : Error} (hs : s.beginClose k error = .next s') :
    Effects s s' := by
  unfold ServerInner.beginClose at hs
  split at hs <;> cases hs
  exact of_keeps (.refl _) rfl rfl rfl rfl

theorem acceptStep (hs : s.acceptStep = .next s') : Effects s s' := by
  unfold ServerInner.acceptStep at hs
  split at hs
  · cases hs
    exact of_keeps (.refl _) rfl rfl rfl rfl
  · next o ho =>
    split at hs
    · cases hs
    · next i hi =>
      cases hs
      refine ⟨.refl _, fun _ _ h => ?_, .inr ⟨o, i, ho, hi, rfl⟩, .inl rfl⟩
      rw [ho] at h
      cases h

theorem policyStep {set : Server.OpenState → Server.OpenState} {f : Slot M → Slot M}
    (hf : ∀ slot, SlotKeeps slot (f slot)) (hs : s.policyStep set f = .next s') :
    Effects s s' := by
  unfold ServerInner.policyStep at hs
  split at hs
  · cases hs
    exact of_keeps (.refl _) rfl rfl rfl rfl
  · next o ho =>
    cases hs
    exact of_opened ho (.modify? hf) rfl rfl

theorem sessionStep {i : ℕ} {a : System.Action M} (hs : s.sessionStep codec i a = .next s') :
    Effects s s' := by
  unfold ServerInner.sessionStep at hs
  split at hs
  · cases hs
  · next slot hslot =>
    split_ifs at hs
    split at hs
    · next sys hstep =>
      cases hs
      refine of_keeps (.modify fun slot' hslot' => ?_) rfl rfl rfl rfl
      cases hslot.symm.trans hslot'
      exact .sys slot (lasting_effect (step_cases hstep))
    · cases hs
    · cases hs

theorem releaseStep {i : ℕ} (hs : s.releaseStep i = .next s') : Effects s s' := by
  unfold ServerInner.releaseStep at hs
  split at hs
  · next slot hslot =>
    split at hs
    · next e _ _ hstate _ _ =>
      cases hs
      refine of_keeps (.modify fun slot' hslot' => ?_) rfl rfl rfl rfl
      cases hslot.symm.trans hslot'
      exact ⟨rfl, .of_state rfl, fun _ => .inr ⟨_, hstate⟩⟩
    · cases hs
  · cases hs

theorem step {a : Server.Action M} (hs : s.step m codec a = .next s') : Effects s s' := by
  cases a with
  | transport a =>
    cases a with
    | own input =>
      simp only [ServerInner.step] at hs
      split at hs
      · cases hs
      · cases hs
      · exact transportStep hs
      · cases hs
    | handle a => exact transportStep hs
    | feed bytes => exact transportStep hs
  | read now => exact readStep hs
  | quit =>
    simp only [ServerInner.step] at hs
    split at hs <;> cases hs
    exact of_keeps (.refl _) rfl rfl rfl rfl
  | fail k =>
    simp only [ServerInner.step] at hs
    split at hs
    · cases hs
    · cases hs
    · have he := beginClose hs
      exact ⟨he.keeps, he.closed, he.accepted, .inl (he.handled.resolve_right fun ⟨_, _, hr, _⟩ =>
        (by cases hr))⟩
    · cases hs
  | accept => exact acceptStep hs
  | setInboundLimits requests bytes now => exact policyStep (fun slot => .limit slot _ _ _) hs
  | setAutoreplyTimeout timeout => exact policyStep (fun slot => .setTimeout slot _) hs
  | close k => exact beginClose hs
  | closer k now => exact closerStep hs
  | session i a => exact sessionStep hs
  | dropSession i now =>
    simp only [ServerInner.step] at hs
    split_ifs at hs
    cases hs
    exact of_keeps (.modify fun slot _ => .drop slot now) rfl rfl rfl rfl
  | release i => exact releaseStep hs

end Effects

/-! ### Sessions succeed each other -/

section Runs

variable {m : Transporter} {codec : Envelope.Codec M} {s s' : ServerInner M}

theorem closed_run {i : ℕ} {e : Error} (h : Closed s.sessions i e) {as : List (Server.Action M)}
    (hr : (Server.machine m codec).run as s = some s') : Closed s'.sessions i e :=
  Machine.run_invariant (I := fun s => Closed s.sessions i e)
    (fun _ _ _ hc hs => hc.keep (Effects.step hs).keeps) h hr

/-- Once the server is closed, nothing is attached or accepted any more. -/
theorem state_run {reason : Error} {session : Option ℕ} (h : s.state = .closed reason session)
    {as : List (Server.Action M)} (hr : (Server.machine m codec).run as s = some s') :
    s'.attached = s.attached ∧ s'.accepted = s.accepted := by
  refine (Machine.run_invariant (I := fun t => t.state = .closed reason session ∧
    t.attached = s.attached ∧ t.accepted = s.accepted) ?_ ⟨h, rfl, rfl⟩ hr).2
  rintro t a t' ⟨hstate, ha, hc⟩ hs
  obtain ⟨hstate', ha', hc'⟩ := (Effects.step hs).closed reason session hstate
  exact ⟨hstate', ha'.trans ha, hc'.trans hc⟩

end Runs

theorem latest_connected (before : List Returned) (c : ℕ) {rest : List Returned}
    (hrest : ∀ c', .connected c' ∉ rest) : latest (before ++ .connected c :: rest) = some c := by
  induction rest using List.reverseRecOn with
  | nil => rw [latest_append]
  | append_singleton rest r ih =>
    have hr : ∀ c', r ≠ .connected c' := by
      rintro c' rfl
      exact hrest c' (List.mem_append_right _ (List.mem_singleton_self _))
    have hlatest := ih fun c' hm => hrest c' (List.mem_append_left _ hm)
    rw [← List.cons_append, ← List.append_assoc, latest_append]
    cases r with
    | connected c' => exact absurd rfl (hr c')
    | _ => exact hlatest

/-- **The order of the sessions of a server**, in one of its states. -/
structure Ordered (m : Machine (ServerInner M) (Server.Action M) Fault) (opens : Opens)
    (s : ServerInner M) : Prop where
  /-- At most one attached session is open. -/
  one : ∀ i ∈ s.attached, ∀ j ∈ s.attached, ¬ Ended s.sessions i → ¬ Ended s.sessions j → i = j
  /-- A session that was replaced is closed. -/
  replaced : ∀ i ∈ s.attached, s.attached.getLast? ≠ some i → Ended s.sessions i
  once : s.attached.Nodup ∧ s.accepted.Nodup
  /-- `accept` returns the newest session. -/
  accept : ∀ a s', m.step s a = .next s' → s'.accepted ≠ s.accepted →
    ∃ i, s'.accepted = s.accepted ++ [i] ∧ s.attached.getLast? = some i
  /-- There is one session for each `Connected`. -/
  events : (s.sessions.map Slot.event).Nodup
  /-- A message goes to the newest session, which was started for the latest `Connected`: that of
  the transport session that has opened the message. -/
  message : ∀ a s', m.step s a = .next s' → s'.handled ≠ s.handled →
    ∃ i bytes, s'.handled = s.handled ++ [(i, bytes)] ∧ s.attached.getLast? = some i ∧
      ∃ slot before c rest, s.sessions[i]? = some slot ∧ slot.event = before.length ∧
        s.transport.returned = before ++ .connected c :: rest ∧ (∀ c', .connected c' ∉ rest) ∧
        rest.getLast? = some (.message bytes) ∧ Opened opens s.transport.out c bytes
  /-- The first closing reason stays. -/
  reason : ∀ i e as s', Closed s.sessions i e → m.run as s = some s' → Closed s'.sessions i e
  /-- Once a call of `close` has returned. -/
  closed : ∀ k, s.closers k = .returned → ∀ as s', m.run as s = some s' →
    s'.attached = s.attached ∧ s'.accepted = s.accepted ∧
      ∀ i ∈ s.attached, ∃ e, Closed s.sessions i e ∧ Closed s'.sessions i e

/-- **Succession of server sessions**: in every run of the reader, the threads that accept, close
and use the sessions, and the transport below. -/
theorem succession {cfg : Transport.Outbound.Config Transcript} {tcodec : Transport.Endpoint.Codec}
    {opens : Opens} {framer : Writer} {supply : Bytes} {codec : Envelope.Codec M}
    {s : ServerInner M}
    (h : (Server.machine (Transport.Server.server cfg tcodec opens framer supply) codec).Reachable
      s) :
    Ordered (Server.machine (Transport.Server.server cfg tcodec opens framer supply) codec) opens
      s := by
  have hi := inv_reachable h
  have hreplaced : ∀ i ∈ s.attached, s.attached.getLast? ≠ some i → Ended s.sessions i := by
    intro i hmem hne
    cases hl : s.attached.getLast? with
    | none =>
      rw [List.getLast?_eq_none_iff] at hl
      rw [hl] at hmem
      cases hmem
    | some last =>
      rw [← List.dropLast_append_getLast? last hl] at hmem
      rcases List.mem_append.mp hmem with hmem | hmem
      · exact hi.replaced i hmem
      · rw [hl, List.mem_singleton.mp hmem] at hne
        exact absurd rfl hne
  refine ⟨fun i hmi j hmj hni hnj => ?_, hreplaced, ⟨hi.sorted.imp fun h => ne_of_lt h,
    hi.accepted.1⟩, fun a s' hs hne => ?_, hi.events.1.imp fun h => ne_of_lt h,
    fun a s' hs hne => ?_, fun i e as s' hc hr => closed_run hc hr, fun k hk as s' hr => ?_⟩
  · have hlast : ∀ k ∈ s.attached, ¬ Ended s.sessions k → s.attached.getLast? = some k :=
      fun k hm hn => by_contra fun hne => hn (hreplaced k hm hne)
    exact Option.some.inj ((hlast i hmi hni).symm.trans (hlast j hmj hnj))
  · rcases (Effects.step hs).accepted with hsame | ⟨o, i, ho, hready, happ⟩
    · exact absurd hsame hne
    · exact ⟨i, happ, (hi.ready o ho i hready).1⟩
  · rcases (Effects.step hs).handled with hsame | ⟨i, bytes, hreader, hu, happ⟩
    · exact absurd hsame hne
    · have hcurrent := hi.current i (eq_of_upgrade hu)
      have hgot := hi.got
      rw [hreader] at hcurrent hgot
      obtain ⟨hlast, slot, before, c, rest, hslot, hevent, hreturned, hrest⟩ := hcurrent
      obtain ⟨hmessage, c', hlatest, hopened⟩ := hgot
      rw [hreturned, latest_connected before c hrest] at hlatest
      cases hlatest
      refine ⟨i, bytes, happ, hlast, slot, before, c, rest, hslot, hevent, hreturned, hrest, ?_,
        hopened⟩
      rw [hreturned, List.getLast?_append_cons] at hmessage
      cases hr : rest.getLast? with
      | none =>
        rw [List.getLast?_cons, hr] at hmessage
        cases hmessage
      | some r =>
        rw [List.getLast?_cons, hr] at hmessage
        exact hmessage
  · obtain ⟨⟨reason, session, hstate⟩, hall⟩ := hk ▸ hi.closing k
    obtain ⟨ha, hc⟩ := state_run hstate hr
    refine ⟨ha, hc, fun i hm => ?_⟩
    obtain ⟨e, he⟩ := hall i hm
    exact ⟨e, he, closed_run he hr⟩

open ArkWire.Transport.Integrity (openSealed smallConfig smallCodec advance reads) in
/-- A client connects, and its session is accepted and gets a message. It connects again, the new
session replaces the first and is accepted, and the server is closed. -/
def acceptAndClose : List (Server.Action UInt8) :=
  let turn : Server.Action UInt8 := .transport (.own (.turn reads 50))
  let go : Server.Action UInt8 := .transport (.own (.go 1))
  let call : Server.Action UInt8 := .transport (.handle (advance 0))
  let seals : Server.Action UInt8 := .transport (.own (.seals (.ok (⟨1, 2⟩, [4]))))
  let opened : Server.Action UInt8 := .transport (.own (.opened (.ok ⟨3⟩)))
  [.read 0, go, turn, turn, turn, go, call, call, go, turn, seals, call, call, call, call, go, turn,
    opened, call, call, go, .read 0, .read 0, .read 0, .read 0, .accept, .read 0, go, turn, turn,
    turn, go, .read 1, .read 0, go, turn, call, call, go, .read 0, .read 0, go, call, call, go,
    turn, seals, call, call, call, call, go, turn, turn, turn, opened, call, call, go, .read 0,
    .read 0, .read 0, .read 0, .read 0, .accept, .close 0, .closer 0 2, .closer 0 2, .closer 0 2,
    .closer 0 2]

open ArkWire.Transport.Integrity (openSealed smallConfig smallCodec) in
theorem succession_acceptAndClose :
    let opens := openSealed fun _ => [([7], [9, 7])]
    let m := Server.machine (Transport.Server.server (smallConfig .server) smallCodec opens
      (.new 8) [0, 2, 5, 0, 2, 6, 0, 3, 9, 7, 0, 0, 2, 5, 0, 2, 6, 0]) tinyCodec
    (∃ s, m.run (acceptAndClose.take 61) m.init = some s ∧ s.reader = .replace 1 0 ∧
      Ordered m opens s) ∧
    ∃ s, m.run acceptAndClose m.init = some s ∧ s.attached = [0, 1] ∧ s.accepted = [0, 1] ∧
      s.handled = [(0, [7])] ∧ Ended s.sessions 0 ∧ Ended s.sessions 1 ∧ Ordered m opens s := by
  intro opens m
  constructor
  · have hrun : (m.run (acceptAndClose.take 61) m.init).map (·.reader matches .replace 1 0) =
        some true := by
      decide +kernel
    obtain ⟨s, hr, hs⟩ := Option.map_eq_some_iff.mp hrun
    have hreplace : s.reader = .replace 1 0 := by
      split at hs
      · assumption
      · cases hs
    exact ⟨s, hr, hreplace, succession (Machine.reachable_of_run hr)⟩
  · have hrun : (m.run acceptAndClose m.init).map (fun s => decide (s.attached = [0, 1] ∧
        s.accepted = [0, 1] ∧ s.handled = [(0, [7])]) && s.closers 0 matches .returned) =
          some true := by
      decide +kernel
    obtain ⟨s, hr, hs⟩ := Option.map_eq_some_iff.mp hrun
    rw [Bool.and_eq_true, decide_eq_true_iff] at hs
    obtain ⟨⟨ha, hc, hh⟩, hk⟩ := hs
    have hreturned : s.closers 0 = .returned := by
      cases hcloser : s.closers 0 with
      | returned => rfl
      | _ =>
        rw [hcloser] at hk
        cases hk
    have hordered := succession (Machine.reachable_of_run hr)
    obtain ⟨-, -, hended⟩ := hordered.closed 0 hreturned [] s rfl
    obtain ⟨e, he, -⟩ := hended 0 (by simp [ha])
    obtain ⟨e', he', -⟩ := hended 1 (by simp [ha])
    exact ⟨s, hr, ha, hc, hh, ⟨e, he⟩, ⟨e', he'⟩, hordered⟩

end ArkWire.Protocol.Succession
