import ArkWire.Protocol.Settlement
import Mathlib.Algebra.BigOperators.Group.Finset.Basic
import Mathlib.Algebra.Order.BigOperators.Group.Multiset

/-! # The inbound byte counter is exact

`retained_bytes` is raised under the session's lock, by request admission and by response
completion, and lowered outside it, by whoever decodes or drops an envelope. `Charged` says that it
is the sum of the charges of the envelopes alive: those in the channels of promises and those
`outside` (queued, taken by `recv`, or discarded by a close and not dropped yet).

`accounting` collects what this gives for every reachable state. -/

namespace ArkWire.Protocol.Accounting

open ArkWire.Lib.Machines
open ArkWire.Transport.Errors ArkWire.Protocol.Errors ArkWire.Protocol.Envelope
open ArkWire.Protocol.Promise ArkWire.Protocol.Operation ArkWire.Protocol.Session
open ArkWire.Protocol.System ArkWire.Protocol.Sections ArkWire.Protocol.Steps
open ArkWire.Protocol.Routing ArkWire.Protocol.Settlement

variable {M : Type}

/-! ### The envelopes alive -/

/-- The envelope a result carries. -/
def resultEnvelopes : Except Error PromiseResult → Multiset IncomingEnvelope
  | .ok (.response envelope) => {envelope}
  | _ => 0

/-- The envelope in the hands of a `wait` that has not decoded it yet. -/
def holderEnvelopes : Holder → Multiset IncomingEnvelope
  | .taken result => resultEnvelopes result
  | _ => 0

/-- The envelopes of one promise. -/
def channelEnvelopes (channel : Channel) : Multiset IncomingEnvelope :=
  channel.buffer.elim 0 resultEnvelopes + holderEnvelopes channel.holder

/-- The envelopes of all promises. -/
def promiseEnvelopes (w : Shared) : Multiset IncomingEnvelope :=
  ∑ c ∈ Finset.range w.nextChannel, channelEnvelopes (w.channels c)

/-- **The accounting invariant**, `outside` being alive outside the promises. -/
structure Charged (w : Shared) (outside : Multiset IncomingEnvelope) (limit : ℕ) : Prop where
  total : w.retainedBytes = ((promiseEnvelopes w + outside).map (·.charge)).sum
  encoded : ∀ e ∈ promiseEnvelopes w + outside, e.charge = e.bytes.length
  bound : w.retainedBytes ≤ limit
  buffered : ∀ c < w.nextChannel, (w.channels c).sent = [] → (w.channels c).buffer = none

/-- Changing one channel changes its envelopes only. -/
theorem promiseEnvelopes_modify (w : Shared) {c : ℕ} (hc : c < w.nextChannel)
    (f : Channel → Channel) :
    promiseEnvelopes (w.modify c f) + channelEnvelopes (w.channels c) =
      promiseEnvelopes w + channelEnvelopes (f (w.channels c)) := by
  have hm : c ∈ Finset.range w.nextChannel := Finset.mem_range.mpr hc
  simp only [promiseEnvelopes, Shared.modify_nextChannel]
  rw [← Finset.add_sum_erase _ _ hm, ← Finset.add_sum_erase _ (fun i => channelEnvelopes _) hm,
    Shared.modify_channels_self]
  have hrest : ∑ i ∈ (Finset.range w.nextChannel).erase c,
      channelEnvelopes ((w.modify c f).channels i)
      = ∑ i ∈ (Finset.range w.nextChannel).erase c, channelEnvelopes (w.channels i) := by
    refine Finset.sum_congr rfl fun i hi => ?_
    rw [Shared.modify_channels_of_ne _ _ (Finset.ne_of_mem_erase hi)]
  rw [hrest]
  abel

namespace Charged

variable {w : Shared} {outside : Multiset IncomingEnvelope} {limit : ℕ}

/-- Envelopes may change hands outside the promises. -/
theorem hand (h : Charged w outside limit) {outside' : Multiset IncomingEnvelope}
    (he : outside' = outside) : Charged w outside' limit := he ▸ h

theorem relax (h : Charged w outside limit) {limit' : ℕ} (hl : w.retainedBytes ≤ limit') :
    Charged w outside limit' := { h with bound := hl }

/-- Only the channels, their number and the counter matter. -/
theorem congr (h : Charged w outside limit) {w' : Shared} (hc : w'.channels = w.channels)
    (hn : w'.nextChannel = w.nextChannel) (hr : w'.retainedBytes = w.retainedBytes) :
    Charged w' outside limit := by
  obtain ⟨h1, h2, h3, h4⟩ := h
  unfold promiseEnvelopes at h1 h2
  constructor
  all_goals simp only [promiseEnvelopes, hc, hn, hr]
  all_goals assumption

/-- **A charge taken.** -/
theorem reserve (h : Charged w outside limit) {bytes : Bytes} (header : Header)
    (hb : w.retainedBytes + bytes.length ≤ limit) :
    Charged { w with retainedBytes := w.retainedBytes + bytes.length }
      (outside + {⟨bytes, header, bytes.length⟩}) limit where
  total := by
    have ht := h.total
    simp only [Multiset.map_add, Multiset.sum_add, Multiset.map_singleton, Multiset.sum_singleton,
      promiseEnvelopes] at ht ⊢
    omega
  encoded e he := by
    rw [← add_assoc, Multiset.mem_add, Multiset.mem_singleton] at he
    rcases he with he | rfl
    · exact h.encoded e he
    · rfl
  bound := hb
  buffered := h.buffered

/-- An envelope alive is within the counter. -/
theorem charge_le (h : Charged w outside limit) {e : IncomingEnvelope}
    (he : e ∈ promiseEnvelopes w + outside) : e.charge ≤ w.retainedBytes := by
  rw [h.total]
  exact Multiset.le_sum_of_mem (Multiset.mem_map_of_mem _ he)

/-- **A charge returned**, by whoever decodes or drops the envelope: the counter does not wrap. -/
theorem release {e : IncomingEnvelope} (h : Charged w (outside + {e}) limit) :
    Charged (w.release e) outside limit := by
  have hle : e.charge ≤ w.retainedBytes := h.charge_le (by simp)
  have hr : (w.release e).retainedBytes = w.retainedBytes - e.charge := release_eq hle
  have hp : promiseEnvelopes (w.release e) = promiseEnvelopes w := rfl
  refine ⟨?_, ?_, ?_, h.buffered⟩
  · have ht := h.total
    rw [hr, hp, ht, ← add_assoc, Multiset.map_add, Multiset.sum_add, Multiset.map_singleton,
      Multiset.sum_singleton, Nat.add_sub_cancel]
  · intro e' he'
    rw [hp] at he'
    exact h.encoded e' (by rw [← add_assoc]; exact Multiset.mem_add.mpr (.inl he'))
  · rw [hr]
    exact (Nat.sub_le _ _).trans h.bound

theorem releaseResult {result : Except Error PromiseResult}
    (h : Charged w (outside + resultEnvelopes result) limit) :
    Charged (w.releaseResult result) outside limit := by
  unfold Shared.releaseResult
  split
  · exact h.release
  · next hn =>
    refine h.hand ?_
    unfold resultEnvelopes
    split
    · next e => exact absurd rfl (hn e)
    · simp

/-- **A promise changes**, keeping what the two of them hold together. -/
theorem modify (h : Charged w outside limit) {c : ℕ} (hc : c < w.nextChannel)
    {f : Channel → Channel} {outside' : Multiset IncomingEnvelope}
    (he : channelEnvelopes (f (w.channels c)) + outside' =
      channelEnvelopes (w.channels c) + outside)
    (hb : (f (w.channels c)).sent = [] → (f (w.channels c)).buffer = none) :
    Charged (w.modify c f) outside' limit := by
  have hm : promiseEnvelopes (w.modify c f) + outside' = promiseEnvelopes w + outside := by
    have := promiseEnvelopes_modify w hc f
    apply add_right_cancel (b := channelEnvelopes (w.channels c))
    calc promiseEnvelopes (w.modify c f) + outside' + channelEnvelopes (w.channels c)
        = promiseEnvelopes (w.modify c f) + channelEnvelopes (w.channels c) + outside' := by abel
      _ = promiseEnvelopes w + (channelEnvelopes (f (w.channels c)) + outside') := by
          rw [this]; abel
      _ = promiseEnvelopes w + outside + channelEnvelopes (w.channels c) := by rw [he]; abel
  refine ⟨?_, ?_, h.bound, ?_⟩
  · rw [hm]; exact h.total
  · rw [hm]; exact h.encoded
  · intro c' hc' hs
    by_cases hcc : c' = c
    · subst hcc
      rw [Shared.modify_channels_self] at hs ⊢
      exact hb hs
    · rw [Shared.modify_channels_of_ne _ _ hcc] at hs ⊢
      exact h.buffered c' hc' hs

/-- The receiver of a dropped promise goes with what it buffers. -/
theorem dropReceiver (h : Charged w outside limit) {c : ℕ} (hc : c < w.nextChannel)
    (hh : (w.channels c).holder = .dropping) :
    Charged (((w.channels c).buffer.elim w w.releaseResult).modify c fun ch =>
      { ch with holder := .gone, receiver := false, buffer := none }) outside limit := by
  cases hb : (w.channels c).buffer with
  | none =>
    refine h.modify hc ?_ fun _ => rfl
    simp [channelEnvelopes, hh, hb, holderEnvelopes]
  | some result =>
    have hcomm : (w.releaseResult result).modify c
        (fun ch => { ch with holder := .gone, receiver := false, buffer := none }) =
        (w.modify c fun ch => { ch with holder := .gone, receiver := false, buffer := none
          }).releaseResult result := by
      unfold Shared.releaseResult; split <;> rfl
    rw [Option.elim_some, hcomm]
    refine (h.modify hc ?_ fun _ => rfl).releaseResult
    simp only [channelEnvelopes, hh, hb, holderEnvelopes, Option.elim_some, Option.elim_none]
    abel

/-- A waiting thread decodes the response it has taken. -/
theorem read (h : Charged w outside limit) {c : ℕ} (hc : c < w.nextChannel)
    {message : IncomingEnvelope} (hh : (w.channels c).holder = .taken (.ok (.response message))) :
    Charged ((w.modify c fun ch => { ch with holder := .gone }).release message) outside limit := by
  refine (h.modify hc ?_ (h.buffered c hc)).release
  simp only [channelEnvelopes, hh, holderEnvelopes, resultEnvelopes]
  abel

/-- A promise changes without touching an envelope. -/
theorem modify_same (h : Charged w outside limit) {c : ℕ} (hc : c < w.nextChannel)
    {f : Channel → Channel} (hb : (f (w.channels c)).buffer = (w.channels c).buffer)
    (hh : holderEnvelopes (f (w.channels c)).holder = holderEnvelopes (w.channels c).holder)
    (hs : (f (w.channels c)).sent = [] → (w.channels c).sent = []) :
    Charged (w.modify c f) outside limit := by
  refine h.modify hc ?_ fun hn => ?_
  · rw [channelEnvelopes, channelEnvelopes, hb, hh]
  · rw [hb]
    exact h.buffered c hc (hs hn)

/-- **A result sent** to a promise that has none: it is buffered, or dropped with the receiver. -/
theorem send {sender : ResultSender} {result : Except Error PromiseResult}
    (h : Charged w (outside + resultEnvelopes result) limit) (hc : sender.channel < w.nextChannel)
    (hs : (w.channels sender.channel).sent = []) :
    Charged (sender.send w result).1 outside limit := by
  have hbuf := h.buffered _ hc hs
  unfold ResultSender.send
  dsimp only
  split_ifs
  · have h' : Charged { w with callbacks := w.callbacks ++
        (w.channels sender.channel).hook.toList } (outside + resultEnvelopes result) limit :=
      h.congr rfl rfl rfl
    dsimp only
    refine h'.modify hc ?_ ?_
    · simp only [channelEnvelopes, hbuf, Option.elim_some, Option.elim_none]
      abel
    · simp
  · have h' : Charged (Shared.releaseResult { w with callbacks := w.callbacks ++
        (w.channels sender.channel).hook.toList } result) outside limit :=
      releaseResult (h.congr rfl rfl rfl)
    dsimp only
    refine h'.modify_same (by simpa using hc) ?_ ?_ ?_
    · rfl
    · rfl
    · simp

theorem fail {operations : Operations} (hs : Settled operations w) (h : Charged w outside limit)
    {key : ℕ} {operation : PendingOperation} (hl : operations.lookup key = some operation)
    (error : Error) (now : ℕ) : Charged (operation.fail error now w) outside limit := by
  unfold PendingOperation.fail
  refine send (h.hand ?_) (hs.channel_lt _ _ hl) (hs.sent_eq_nil hl)
  simp [resultEnvelopes]

theorem failAll {operations : Operations} (hs : Settled operations w) (h : Charged w outside limit)
    (error : Error) (now : ℕ) (keys : List ℕ) :
    Charged (failAll error now keys (operations, w)).2 outside limit :=
  (failAll_rule (P := fun operations w => Settled operations w ∧ Charged w outside limit)
    (fun _ _ _ _ hl h => ⟨h.1.fail hl error now, h.2.fail h.1 hl error now⟩) keys _ _ ⟨hs, h⟩).2

/-- A new promise holds nothing. -/
theorem pair (h : Charged w outside limit) (response : Bool) :
    Charged (w.pair response).2 outside limit := by
  have hold : ∀ c < w.nextChannel, (w.pair response).2.channels c = w.channels c := by
    intro c hc
    simp [Shared.pair, Nat.ne_of_lt hc]
  have hnew : (w.pair response).2.channels w.nextChannel = { response } := by simp [Shared.pair]
  have hp : promiseEnvelopes (w.pair response).2 = promiseEnvelopes w := by
    have hn : (w.pair response).2.nextChannel = w.nextChannel + 1 := rfl
    rw [promiseEnvelopes, hn, Finset.sum_range_succ, hnew, promiseEnvelopes,
      Finset.sum_congr rfl fun c hc => by rw [hold c (Finset.mem_range.mp hc)]]
    simp [channelEnvelopes, holderEnvelopes]
  refine ⟨?_, ?_, h.bound, ?_⟩
  · rw [hp]; exact h.total
  · rw [hp]; exact h.encoded
  · intro c hc
    rcases Nat.lt_succ_iff_lt_or_eq.mp hc with hc | rfl
    · rw [hold c hc]; exact h.buffered c hc
    · rw [hnew]; simp

end Charged

/-! ### The critical sections keep it -/

/-- The largest count an open session lets the counter reach. -/
def byteLimit (s : SessionInner M) : ℕ :=
  match s.state with
  | .opened o => min o.maxInboundBytes usizeMax
  | .closed _ => usizeMax

/-- The accounting invariant of a session, `outside` being alive outside its promises and queues. -/
def Counts (s : SessionInner M) (outside : Multiset IncomingEnvelope) : Prop :=
  Charged s.shared (↑(s.incoming.map Prod.snd) + outside) (byteLimit s)

namespace Counts

variable {s s' : SessionInner M} {outside : Multiset IncomingEnvelope}

theorem opened (h : Counts s outside) {o : OpenState M} (hs : s.state = .opened o) :
    Charged s.shared (↑(o.incoming.map Prod.snd) + outside) (min o.maxInboundBytes usizeMax) := by
  simpa only [Counts, SessionInner.incoming, byteLimit, hs] using h

theorem hand (h : Counts s outside) {outside' : Multiset IncomingEnvelope}
    (he : outside' = outside) : Counts s outside' := he ▸ h

theorem bound_usize (h : Counts s outside) : s.shared.retainedBytes ≤ usizeMax := by
  have hb := h.bound
  unfold byteLimit at hb
  split at hb
  · exact hb.trans (min_le_right _ _)
  · exact hb

/-- A close leaves the queued envelopes to be dropped outside the lock. -/
theorem close (hs : Settles s) (h : Counts s outside) (error : Error) (now : ℕ) :
    Counts (s.close error now).1
      (outside + ↑((s.close error now).2.elim [] fun o => o.incoming.map Prod.snd)) := by
  have hc := close_cases s error now
  generalize s.close error now = r at hc ⊢
  cases hc with
  | already _ => exact h.hand (by simp)
  | @closed o ho =>
    have h' := (h.opened ho).failAll (hs.opened ho) error now o.operations.keys
    refine (h'.relax (h'.bound.trans (min_le_right _ _))).hand ?_
    simp only [SessionInner.incoming, Option.elim_some, List.map_nil, Multiset.coe_nil]
    abel

theorem expire (hs : Settles s) (h : Counts s outside) (now : ℕ) :
    Counts (s.expire now) outside := by
  have hc := expire_cases s now
  generalize s.expire now = r at hc ⊢
  cases hc with
  | closed _ => exact h
  | expired ho => exact (h.opened ho).failAll (hs.opened ho) _ _ _

theorem setInboundLimits (hs : Settles s) (h : Counts s outside) (requests bytes now : ℕ) :
    Counts (s.setInboundLimits requests bytes now).1 (outside +
      ↑((s.setInboundLimits requests bytes now).2.elim [] fun o => o.incoming.map Prod.snd)) := by
  have hc := setInboundLimits_cases s requests bytes now
  generalize s.setInboundLimits requests bytes now = r at hc ⊢
  cases hc with
  | closed _ => exact h.hand (by simp)
  | @exceeded o error ho _ =>
    -- the session is over the new limit; closing does not care about it
    have h' := (h.opened ho).failAll (hs.opened ho) error now o.operations.keys
    refine (h'.relax (h'.bound.trans (min_le_right _ _))).hand ?_
    simp only [SessionInner.incoming, SessionInner.close, Option.elim_some, List.map_nil,
      Multiset.coe_nil]
    abel
  | limited ho _ hb =>
    have h' := h.opened ho
    refine (h'.relax (le_min hb h.bound_usize)).hand ?_
    simp [SessionInner.incoming]

theorem setAutoreplyTimeout (h : Counts s outside) (timeout : ℕ) :
    Counts (s.setAutoreplyTimeout timeout) outside := by
  rcases setAutoreplyTimeout_cases s timeout with ⟨e, _, he⟩ | ⟨o, ho, he⟩
  · rwa [he]
  · have h' := h.opened ho
    rw [he]
    exact h'

theorem submit (h : Counts s outside) {body : OutgoingBody M} {deadline now : ℕ}
    (hs' : s.submit body deadline now = .ok s') : Counts s' outside := by
  cases submit_cases hs' with
  | late ho _ =>
    have h' := (h.opened ho).pair body.isRequest
    refine Charged.send (h'.hand ?_) (Nat.lt_succ_self _) ?_
    · simp [resultEnvelopes, SessionInner.incoming]
    · simp [Shared.pair]
  | queued ho _ =>
    have h' := (h.opened ho).pair body.isRequest
    exact h'

/-- A response stays charged while its promise holds it; a late or a refused one never is. -/
theorem completeResponse {operations : Operations} {w w' : Shared} {limit : ℕ}
    (hs : Settled operations w) (h : Charged w outside (min limit usizeMax)) {key : ℕ}
    {operation : PendingOperation} (hl : operations.lookup key = some operation) {now : ℕ}
    {bytes : Bytes} {header : Header} {result : Except Error Unit}
    (hc : operation.completeResponse now w bytes header limit = .ok (w', result)) :
    Charged w' outside (min limit usizeMax) := by
  have hch := hs.channel_lt _ _ hl
  have hsent := hs.sent_eq_nil hl
  cases completeResponse_cases hc with
  | late _ => exact h.fail hs hl _ _
  | answered _ _ hu hb =>
    exact Charged.send (h.reserve header (le_min hb hu)) hch hsent
  | refused _ _ =>
    refine Charged.send (h.hand ?_) hch hsent
    simp [resultEnvelopes]

theorem handleMessage (hs : Settles s) (h : Counts s outside) {codec : Codec M} {bytes : Bytes}
    {now : ℕ} {result : Except Error (Option ℕ)}
    (hs' : s.handleMessage codec bytes now = .ok (s', result)) : Counts s' outside := by
  cases handleMessage_cases hs' with
  | unknown _ _ ho =>
    have h' := h.opened ho
    exact h'
  | @admitted header o _ _ _ ho _ _ _ hu hb =>
    have h' := (h.opened ho).reserve header (le_min hb hu)
    refine h'.hand ?_
    simp only [SessionInner.incoming, List.map_append, List.map_cons, List.map_nil,
      ← Multiset.coe_add, Multiset.coe_singleton]
    abel
  | late _ _ ho =>
    have h' := h.opened ho
    exact h'
  | completed _ _ ho _ hl hc =>
    have h' := completeResponse (hs.opened ho) (h.opened ho) hl hc
    exact h'
  | _ => exact h

theorem takeIncoming (h : Counts s outside) {id : ℕ} {message : IncomingEnvelope}
    (hs' : s.takeIncoming = some (s', id, message)) : Counts s' (outside + {message}) := by
  obtain ⟨o, rest, ho, hi, rfl⟩ := takeIncoming_cases hs'
  refine (h.opened ho).hand ?_
  simp only [SessionInner.incoming, hi, List.map_cons, ← Multiset.cons_coe,
    ← Multiset.singleton_add]
  abel

theorem nextOutgoing (hs : Settles s) (h : Counts s outside) {now : ℕ}
    {pickup : SessionInner.Pickup M} (hs' : s.nextOutgoing now = .ok (s', pickup)) :
    Counts s' outside := by
  have he := h.expire hs now
  cases nextOutgoing_cases hs' with
  | request ho =>
    have h' := he.opened ho
    exact h'
  | reply ho =>
    have h' := he.opened ho
    exact h'
  | _ => exact he

theorem withdraw (h : Counts s outside) (id : ℕ) : Counts (s.withdraw id) outside := by
  rcases withdraw_cases s id with ⟨e, _, he⟩ | ⟨o, ho, he⟩
  · rwa [he]
  · have h' := h.opened ho
    rw [he]
    exact h'

theorem recordWrite (hs : Settles s) (h : Counts s outside) (key : ℕ)
    (result : Except Error Unit) (now : ℕ) : Counts (s.recordWrite key result now) outside := by
  have hc := recordWrite_cases s key result now
  generalize s.recordWrite key result now = r at hc ⊢
  cases hc with
  | kept => exact h
  | failed ho hl => exact (h.opened ho).fail (hs.opened ho) hl _ _
  | written ho hl _ _ =>
    refine Charged.send ((h.opened ho).hand ?_) ((hs.opened ho).channel_lt _ _ hl)
      ((hs.opened ho).sent_eq_nil hl)
    simp [resultEnvelopes, SessionInner.incoming]

/-- An envelope outside is decoded or dropped. -/
theorem release {e : IncomingEnvelope} (h : Counts s (outside + {e})) :
    Counts { s with shared := s.shared.release e } outside :=
  Charged.release (Charged.hand h (by simp only [SessionInner.incoming]; abel))

end Counts

/-! ### It holds in every state -/

/-- The envelopes taken by `recv` and not decoded yet, and those of a closed session's queue. -/
def outsideEnvelopes (s : Sys M) : Multiset IncomingEnvelope :=
  ↑(s.receiving.toList.map Prod.snd) + ↑s.discarded

/-- **The envelopes alive** in a state. -/
def aliveEnvelopes (s : Sys M) : Multiset IncomingEnvelope :=
  promiseEnvelopes s.session.shared + (↑(s.session.incoming.map Prod.snd) + outsideEnvelopes s)

/-- The accounting invariant of a session with its threads. -/
def CountsSys (s : Sys M) : Prop := Counts s.session (outsideEnvelopes s)

theorem outsideEnvelopes_finishClose (s : Sys M) (r : SessionInner M × Option (OpenState M)) :
    outsideEnvelopes (s.finishClose r) =
      outsideEnvelopes s + ↑(r.2.elim [] fun o => o.incoming.map Prod.snd) := by
  simp only [outsideEnvelopes, Sys.finishClose, ← Multiset.coe_add]
  abel

theorem outsideEnvelopes_of_receiving {s : Sys M} {id : ℕ} {message : IncomingEnvelope}
    (h : s.receiving = some (id, message)) :
    outsideEnvelopes s = outsideEnvelopes { s with receiving := none } + {message} := by
  simp only [outsideEnvelopes, h, Option.toList_some, Option.toList_none, List.map_cons,
    List.map_nil, Multiset.coe_singleton, Multiset.coe_nil]
  abel

theorem CountsSys.close {s : Sys M} (hs : Settles s.session) (h : CountsSys s) (error : Error)
    (now : ℕ) : CountsSys (s.close error now) := by
  have h' := Counts.close hs h error now
  exact h'.hand (outsideEnvelopes_finishClose _ _)

theorem countsSys_step {codec : Codec M} {i : Option Bytes} {s s' : Sys M}
    (hs : Settles s.session) (h : CountsSys s) (hstep : Step codec s i s') : CountsSys s' := by
  cases hstep with
  | request hm =>
    have h' := Counts.submit h hm
    exact h'
  | respond _ hm =>
    have h' := Counts.submit h hm
    exact h'
  | @recv session taken hr hm =>
    have h' := Counts.takeIncoming h hm
    refine h'.hand ?_
    rw [outsideEnvelopes_of_receiving rfl]
    simp only [outsideEnvelopes, Sys.withSession, hr]
  | @decode id message hr =>
    have h' := (Counts.hand h (outsideEnvelopes_of_receiving hr).symm).release
    unfold Sys.decodeRequest
    dsimp only
    split <;> exact h'
  | autoreplyQueued _ hm =>
    have h' := Counts.submit h hm
    exact h'
  | messageRefused hm =>
    have h' := Counts.handleMessage hs h hm
    exact h'
  | messageRouted hm =>
    have h' := Counts.handleMessage hs h hm
    exact h'
  | messageUnknown hm =>
    have h' := Counts.handleMessage hs h hm
    exact h'
  | close => exact h.close hs _ _
  | @closeOwed i error now _ =>
    exact CountsSys.close (s := { s with owed := s.owed.eraseIdx i }) hs h _ _
  | @closeReceive i error id now _ =>
    have h' := CountsSys.close (s := { s with owed := s.owed.eraseIdx i }) hs h error now
    exact h'
  | @discard envelope rest hd =>
    refine Counts.release (h.hand ?_)
    simp only [outsideEnvelopes, Sys.withShared, hd, ← Multiset.cons_coe, ← Multiset.singleton_add]
    abel
  | @setInboundLimits requests bytes now =>
    have h' := Counts.setInboundLimits hs h requests bytes now
    exact h'.hand (outsideEnvelopes_finishClose _ _)
  | @setAutoreplyTimeout timeout =>
    have h' := Counts.setAutoreplyTimeout h timeout
    exact h'
  | @expire now =>
    have h' := Counts.expire hs h now
    exact h'
  | pickupClosed _ hn =>
    have h' := Counts.nextOutgoing hs h hn
    exact h'
  | pickupNone _ hn =>
    have h' := Counts.nextOutgoing hs h hn
    exact h'
  | pickup _ hn =>
    have h' := Counts.nextOutgoing hs h hn
    exact h'
  | @withdraw id message _ hw =>
    have h' := Counts.withdraw h id
    cases message.body.isRequest with
    | true => exact h'
    | false => exact h
  | @report key result now hw =>
    have h' := Counts.recordWrite hs h key result now
    exact h'
  | @fail error now hw =>
    have h' := h.close hs (.transport error) now
    exact h'
  | @notifyDone c _ hc =>
    have h' := Charged.modify_same h hc (f := fun ch => { ch with registered := true }) rfl rfl id
    exact h'.congr rfl rfl rfl
  | @notify c callback hc =>
    exact Charged.modify_same h hc
      (f := fun ch => { ch with registered := true, hook := some callback }) rfl rfl id
  | callback => exact Charged.congr h rfl rfl rfl
  | @dropPromise c hc hh =>
    exact Charged.modify_same h hc (f := fun ch => { ch with holder := .dropping, hook := none })
      rfl (by rw [hh]; rfl) id
  | dropReceiver hc hh => exact Charged.dropReceiver h hc hh
  | @wait c result hc hh hb =>
    refine Charged.modify h hc (f := fun ch =>
      { ch with holder := .taken result, receiver := false, buffer := none, hook := none }) ?_ ?_
    · simp only [channelEnvelopes, hh, hb, holderEnvelopes, Option.elim_some, Option.elim_none]
      abel
    · exact fun _ => rfl
  | @read c result hc hh hn =>
    refine Charged.modify_same h hc (f := fun ch => { ch with holder := .gone }) rfl ?_ id
    rw [hh]
    simp only [holderEnvelopes, resultEnvelopes]
  | readResponse hc hh => exact Charged.read h hc hh
  | readMalformed hc hh _ => exact Charged.read h hc hh
  | _ => exact h

theorem countsSys_reachable {codec : Codec M} {side : Side} {s : Sys M}
    (h : (machine codec side).Reachable s) : CountsSys s := by
  have hall : RoutesSys s ∧ Settles s.session ∧ CountsSys s := by
    refine reachable_invariant (I := fun s => RoutesSys s ∧ Settles s.session ∧ CountsSys s)
      ⟨Routed.new, Settled.new, ?_⟩ (fun s _ s' hi hs => ?_) h
    · constructor <;> simp [Sys.new, SessionInner.new, promiseEnvelopes, SessionInner.incoming,
        outsideEnvelopes]
    · exact ⟨routesSys_step hi.1 hs, settles_step hi.1 hi.2.1 hs, countsSys_step hi.2.1 hi.2.2 hs⟩
  exact hall.2.2

/-! ### What it gives -/

/-- A response nobody waits for any more: its ID is not outstanding, its request has timed out (in
`operations` or not), or its promise is dropped. -/
def Unwanted (s : SessionInner M) (o : OpenState M) (id now : ℕ) : Prop :=
  match o.outstanding.lookup id with
  | none => True
  | some key =>
    match o.operations.lookup key with
    | none => True
    | some operation =>
      operation.deadline ≤ now ∨ (s.shared.channels operation.sender.channel).receiver = false

/-- An error carries no bytes. -/
theorem send_error_retainedBytes (sender : ResultSender) (w : Shared) (error : Error) :
    (sender.send w (.error error)).1.retainedBytes = w.retainedBytes := by
  unfold ResultSender.send
  dsimp only
  split_ifs <;> rfl

/-- A response sent to a dropped promise is released on the spot. -/
theorem send_dropped_retainedBytes {sender : ResultSender} {w : Shared}
    (hd : (w.channels sender.channel).receiver = false) (bytes : Bytes) (header : Header) :
    (sender.send { w with retainedBytes := w.retainedBytes + bytes.length }
      (.ok (.response ⟨bytes, header, bytes.length⟩))).1.retainedBytes = w.retainedBytes := by
  unfold ResultSender.send
  dsimp only
  rw [hd, if_neg Bool.false_ne_true, Shared.modify_retainedBytes]
  simp only [Shared.releaseResult, Shared.release]
  rw [release_eq (by omega), Nat.add_sub_cancel]

theorem completeResponse_unwanted {operation : PendingOperation} {now : ℕ} {w : Shared}
    (hr : operation.sender.response = true)
    (hu : operation.deadline ≤ now ∨ (w.channels operation.sender.channel).receiver = false)
    (bytes : Bytes) (header : Header) (limit : ℕ) :
    ∃ w', operation.completeResponse now w bytes header limit = .ok (w', .ok ()) ∧
      w'.retainedBytes = w.retainedBytes := by
  unfold PendingOperation.completeResponse
  by_cases hd : operation.deadline ≤ now
  · rw [if_pos hd]
    exact ⟨_, rfl, send_error_retainedBytes _ _ _⟩
  · have hdrop := hu.resolve_left hd
    rw [if_neg hd, hr, if_neg Bool.true_eq_false.mp]
    cases hn : IncomingEnvelope.new bytes header w.retainedBytes limit with
    | error e =>
      refine ⟨_, ?_, send_error_retainedBytes operation.sender w e⟩
      simp [hdrop]
    | ok p =>
      obtain ⟨message, total⟩ := p
      obtain ⟨rfl, rfl, -, -⟩ := new_eq_ok.mp hn
      exact ⟨_, rfl, send_dropped_retainedBytes hdrop bytes header⟩

/-- Such a response leaves the counter and the session alone. -/
theorem handleMessage_unwanted {s : SessionInner M} {held : Option ℕ} (hr : Routes s held)
    {codec : Codec M} {o : OpenState M} (ho : s.state = .opened o) {bytes : Bytes} {header : Header}
    (hd : codec.decodeHeader s.side bytes = some header)
    (hk : MessageKind.fromId header.id s.side.parity = .response) {now : ℕ}
    (hu : Unwanted s o header.id now) :
    ∃ s' o', s.handleMessage codec bytes now = .ok (s', .ok none) ∧ s'.state = .opened o' ∧
      s'.shared.retainedBytes = s.shared.retainedBytes := by
  unfold Unwanted at hu
  simp only [SessionInner.handleMessage, hd, SessionInner.route, hk, ho]
  cases hl : o.outstanding.lookup header.id with
  | none => exact ⟨s, o, rfl, ho, rfl⟩
  | some key =>
    rw [hl] at hu
    dsimp only at hu ⊢
    cases hop : o.operations.lookup key with
    | none => exact ⟨_, _, rfl, rfl, rfl⟩
    | some operation =>
      rw [hop] at hu
      have hresp := (hr.opened ho).outstanding_request _ _ hl _ hop
      obtain ⟨w, hc, hw⟩ := completeResponse_unwanted hresp hu bytes header o.maxInboundBytes
      simp only [hc]
      exact ⟨_, _, rfl, rfl, hw⟩

/-- **The byte counter is exact.** In every state `retained_bytes` is the sum of the encoded lengths
of the envelopes alive, so that returning the charge of one of them never wraps and the counter is
zero once none is left; an open session keeps it within its limit. A response nobody waits for any
more changes neither the counter nor the session, whatever the limit. -/
theorem accounting {codec : Codec M} {side : Side} {s : Sys M}
    (h : (machine codec side).Reachable s) :
    s.session.shared.retainedBytes = ((aliveEnvelopes s).map (·.bytes.length)).sum ∧
    (∀ e ∈ aliveEnvelopes s, e.charge ≤ s.session.shared.retainedBytes ∧
      (s.session.shared.release e).retainedBytes =
        s.session.shared.retainedBytes - e.bytes.length) ∧
    (aliveEnvelopes s = 0 → s.session.shared.retainedBytes = 0) ∧
    ∀ o, s.session.state = .opened o →
      s.session.shared.retainedBytes ≤ o.maxInboundBytes ∧
      ∀ bytes header now, codec.decodeHeader s.session.side bytes = some header →
        MessageKind.fromId header.id s.session.side.parity = .response →
        Unwanted s.session o header.id now →
        ∃ s' o', (machine codec side).step s (.message bytes now) = .next s' ∧
          s'.session.state = .opened o' ∧ s'.owed = s.owed ∧
          s'.session.shared.retainedBytes = s.session.shared.retainedBytes := by
  have hc := countsSys_reachable h
  have htotal : s.session.shared.retainedBytes = ((aliveEnvelopes s).map (·.bytes.length)).sum := by
    rw [aliveEnvelopes, ← Multiset.map_congr rfl hc.encoded]
    exact hc.total
  refine ⟨htotal, fun e he => ?_, fun h0 => ?_, fun o ho => ⟨?_, ?_⟩⟩
  · have hle := hc.charge_le he
    refine ⟨hle, ?_⟩
    rw [← hc.encoded e he]
    exact release_eq hle
  · rw [htotal, h0]
    rfl
  · exact (Counts.opened hc ho).bound.trans (min_le_left _ _)
  · intro bytes header now hd hk hu
    obtain ⟨session, o', hm, hs', hb⟩ :=
      handleMessage_unwanted (routesSys_reachable h) ho hd hk hu
    refine ⟨s.withSession session, o', ?_, hs', rfl, hb⟩
    simp only [machine, Sys.step, Sys.readerStep, hm]

/-- Two requests under a limit of three bytes; the second promise is dropped, the first answered. -/
def limitFull : List (Action UInt8) :=
  [.request 7 10 0, .pickup 1, .send (.ok ()) true, .report 1, .request 8 10 1, .pickup 2,
    .send (.ok ()) true, .report 2, .dropPromise 1, .dropReceiver 1, .setInboundLimits 1 3 2,
    .message [1, 0, 9] 3]

theorem accounting_limitFull :
    ∃ s o, (machine tinyCodec .client).run limitFull (.new .client) = some s ∧
      s.session.state = .opened o ∧ o.maxInboundBytes = 3 ∧ s.session.shared.retainedBytes = 3 ∧
      s.session.shared.retainedBytes = ((aliveEnvelopes s).map (·.bytes.length)).sum ∧
      ∃ s' o', (machine tinyCodec .client).step s (.message [3, 0, 9] 4) = .next s' ∧
        s'.session.state = .opened o' ∧ s'.owed = s.owed ∧
        s'.session.shared.retainedBytes = s.session.shared.retainedBytes := by
  obtain ⟨s, o, hr, ho, hm, hb, hside, hu⟩ : ∃ s o,
      (machine tinyCodec .client).run limitFull (.new .client) = some s ∧
      s.session.state = .opened o ∧ o.maxInboundBytes = 3 ∧ s.session.shared.retainedBytes = 3 ∧
      s.session.side = .client ∧ Unwanted s.session o 3 4 :=
    ⟨_, _, rfl, rfl, rfl, rfl, rfl, .inr rfl⟩
  have h := accounting (Machine.reachable_of_run hr)
  refine ⟨s, o, hr, ho, hm, hb, h.1, ?_⟩
  exact (h.2.2.2 o ho).2 [3, 0, 9] ⟨3, false, none, false⟩ 4 rfl (by rw [hside]; rfl) hu

end ArkWire.Protocol.Accounting
