import ArkWire.Lib.Locks
import ArkWire.Transport.Outbound

/-! # What a step of the outbound transport can do

`Step` lists the steps of all threads with their guards and effects; `step_cases` says that there
are no others. The two kinds of locks are exclusive in every reachable state. -/

namespace ArkWire.Transport.OutboundSteps

open ArkWire.Lib.Machines ArkWire.Lib.Locks
open ArkWire.Transport.Errors ArkWire.Transport.FrameReader ArkWire.Transport.FrameWriter
open ArkWire.Transport.Outbound

variable {K : Type} {cfg : Config K} {s s' : State K}

/-- The current binding is removed. -/
def removed (s : State K) (c : ℕ) (cause : Cause) : State K :=
  { s with binding := none }.logged (.removed c cause)

/-- The session a call of the frame writer is for. -/
def session : Job → Option ℕ
  | .packet p => some p.context
  | .notification c _ => c
  | _ => none

/-- **What a step can do.** -/
inductive Step (cfg : Config K) (s : State K) : State K → Prop
  | beginSend {t c : ℕ} {last : Value} {message : Bytes} : s.threads t = .idle last →
      c < s.contexts.length → Step cfg s (s.goto t (.lockContext c message))
  | receive {t c : ℕ} {last value : Value} {accepted : Bool} : s.threads t = .idle last →
      (accepted = true → s.binding = some c) →
      Step cfg s ((s.goto t (.idle value)).logged (.received c accepted))
  | beginLocked {t : ℕ} {last : Value} {call : Locked K} : s.threads t = .idle last →
      Step cfg s (s.goto t (.waitWriter call))
  | lockContext {t c : ℕ} {message : Bytes} {x : Context K} :
      s.threads t = .lockContext c message → s.contexts[c]? = some x → x.holder = none →
      Step cfg s ((s.modify c ({ · with holder := some t })).goto t (.sealing c message))
  | tooLarge {t c : ℕ} {message : Bytes} : s.threads t = .sealing c message →
      cfg.maxMessage < message.length → Step cfg s (s.goto t (.refuse c message.length))
  | sealed {t c : ℕ} {message bytes : Bytes} {x : Context K} :
      s.threads t = .sealing c message → message.length ≤ cfg.maxMessage →
      s.contexts[c]? = some x → cfg.sealMessage x.key x.seq message = some bytes →
      Step cfg s (((s.modify c ({ · with seq := x.seq + 1 })).logged
        (.sealed ⟨c, x.seq, bytes⟩ message)).goto t (.lockWriter ⟨c, x.seq, bytes⟩))
  | refuse {t c size : ℕ} {value : Value} : s.threads t = .refuse c size →
      Step cfg s (((s.modify c ({ · with holder := none })).logged (.oversized c)).goto t
        (.idle value))
  | lockWriter {t : ℕ} {p : Packet} : s.threads t = .lockWriter p → s.writer = none →
      Step cfg s ({ s with writer := some t }.goto t (.unlockContext p))
  | unlockContext {t : ℕ} {p : Packet} : s.threads t = .unlockContext p →
      Step cfg s ((s.modify p.context ({ · with holder := none })).goto t (.check p))
  | check {t : ℕ} {p : Packet} : s.threads t = .check p → s.binding = some p.context →
      Step cfg s (s.goto t (.output (.packet p) none))
  | refused {t : ℕ} {p : Packet} {value : Value} : s.threads t = .check p →
      s.binding ≠ some p.context → Step cfg s ((s.logged (.refused p)).unlock t value)
  | waitWriter {t : ℕ} {call : Locked K} : s.threads t = .waitWriter call → s.writer = none →
      Step cfg s ({ s with writer := some t }.goto t (.holdWriter call))
  | endNotify {t c : ℕ} {cause : Cause} {error : Option TransportError} {limit : Option ℕ} :
      ((∃ p deadline e, s.threads t = .failed p deadline e ∧ c = p.context ∧ cause = .failed) ∨
        s.threads t = .holdWriter (.disconnect c) ∧ cause = .disconnected) →
      s.binding = some c → cfg.side = .server →
      Step cfg s ((removed s c cause).goto t (.output (.notification (some c) error) limit))
  | endUnlock {t c : ℕ} {cause : Cause} {value : Value} :
      ((∃ p deadline e, s.threads t = .failed p deadline e ∧ c = p.context ∧ cause = .failed) ∨
        ∃ call, s.threads t = .holdWriter call) →
      s.binding = some c → Step cfg s ((removed s c cause).unlock t value)
  | keepUnlock {t : ℕ} {value : Value} :
      ((∃ p deadline e, s.threads t = .failed p deadline e ∧ s.binding ≠ some p.context) ∨
        (∃ call, s.threads t = .holdWriter call) ∨
        ∃ job deadline result, s.threads t = .returning job deadline (some result) ∧
          ∀ p, job ≠ .packet p) →
      Step cfg s (s.unlock t value)
  | bind {t : ℕ} {key : K} {value : Value} : s.threads t = .holdWriter (.bind key) →
      Step cfg s ((s.bind key).unlock t value)
  | removeOutput {t c : ℕ} {call : Locked K} {job : Job} {limit : Option ℕ} :
      s.threads t = .holdWriter call → s.binding = some c → session job = none →
      Step cfg s ((removed s c .unbound).goto t (.output job limit))
  | keepOutput {t : ℕ} {job : Job} {limit : Option ℕ} :
      ((∃ call, s.threads t = .holdWriter call) ∨
        ∃ bytes deadline result, s.threads t = .returning (.unsealed bytes) deadline
          (some result)) →
      session job = none → Step cfg s (s.goto t (.output job limit))
  | output {t deadline : ℕ} {job : Job} {limit : Option ℕ} {o : Output} :
      s.threads t = .output job limit → Step cfg s (s.output cfg t job deadline o)
  | sent {t deadline : ℕ} {p : Packet} {value : Value} :
      s.threads t = .returning (.packet p) deadline (some (.ok ())) →
      Step cfg s ((s.logged (.sent p)).unlock t value)
  | failed {t deadline : ℕ} {p : Packet} {error : TransportError} :
      s.threads t = .returning (.packet p) deadline (some (.error error)) →
      Step cfg s ((s.logged (.failed p)).goto t (.failed p deadline error))

/-! ### There are no other steps -/

theorem remove_of_bound {c : ℕ} (h : s.binding = some c) (cause : Cause) :
    s.remove cause = removed s c cause := by
  rw [State.remove, h]
  rfl

theorem remove_of_unbound (h : s.binding = none) (cause : Cause) : s.remove cause = s := by
  rw [State.remove, h]

theorem notifies_server {side : Side} {error : TransportError} (h : notifies side error = true) :
    side = .server := by
  unfold notifies at h
  split at h
  · simp only [decide_eq_true_eq] at h
    exact h.1
  · simpa using h

theorem locked_cases {t : ℕ} {call : Locked K} (h : s.threads t = .holdWriter call) :
    Step cfg s (s.locked cfg t call) := by
  cases call with
  | disconnect c =>
    dsimp only [State.locked]
    split_ifs with hb hside
    · rw [remove_of_bound hb]
      exact .endNotify (.inr ⟨h, rfl⟩) hb hside
    · rw [remove_of_bound hb]
      exact .endUnlock (.inr ⟨_, h⟩) hb
    · exact .keepUnlock (.inr (.inl ⟨_, h⟩))
  | finish c =>
    dsimp only [State.locked]
    split_ifs with hb
    · rw [remove_of_bound hb]
      exact .endUnlock (.inr ⟨_, h⟩) hb
    · exact .keepUnlock (.inr (.inl ⟨_, h⟩))
  | bind key => exact .bind h
  | unbind =>
    dsimp only [State.locked]
    cases hb : s.binding with
    | some c =>
      rw [remove_of_bound hb]
      exact .endUnlock (.inr ⟨_, h⟩) hb
    | none =>
      rw [remove_of_unbound hb]
      exact .keepUnlock (.inr (.inl ⟨_, h⟩))
  | sendReset deadline =>
    dsimp only [State.locked]
    cases hb : s.binding with
    | some c =>
      rw [remove_of_bound hb]
      exact .removeOutput h hb rfl
    | none =>
      rw [remove_of_unbound hb]
      exact .keepOutput (.inl ⟨_, h⟩) rfl
  | sendDropped limit =>
    dsimp only [State.locked]
    cases hb : s.binding with
    | some c =>
      rw [remove_of_bound hb]
      exact .removeOutput h hb rfl
    | none =>
      rw [remove_of_unbound hb]
      exact .keepOutput (.inl ⟨_, h⟩) rfl
  | sendPacket packet limit => exact .keepOutput (.inl ⟨_, h⟩) rfl

theorem returned_cases {t deadline : ℕ} {job : Job} {result : Except TransportError Unit}
    (h : s.threads t = .returning job deadline (some result)) :
    Step cfg s (s.returned cfg t deadline result job) := by
  cases job with
  | packet p =>
    cases result with
    | ok => exact .sent h
    | error error => exact .failed h
  | notification c error => exact .keepUnlock (.inr (.inr ⟨_, _, _, h, fun p => (by simp)⟩))
  | reset => exact .keepUnlock (.inr (.inr ⟨_, _, _, h, fun p => (by simp)⟩))
  | dropped => exact .keepUnlock (.inr (.inr ⟨_, _, _, h, fun p => (by simp)⟩))
  | unsealed bytes =>
    have hunlock : ∀ value, Step cfg s (s.unlock t value) := fun value =>
      .keepUnlock (.inr (.inr ⟨_, _, _, h, fun p => (by simp)⟩))
    dsimp only [State.returned]
    split
    · split_ifs
      · exact .keepOutput (.inr ⟨_, _, _, h⟩) rfl
      · exact hunlock _
    · exact hunlock _

theorem begin_cases {t : ℕ} {last : Value} (h : s.threads t = .idle last) {call : Call K}
    (hs : s.begin t call = .next s') : Step cfg s s' := by
  cases call with
  | send c message =>
    dsimp only [State.begin] at hs
    split_ifs at hs with hc
    cases hs
    exact .beginSend h hc
  | finishReceive c result =>
    cases hs
    refine .receive h fun hok => ?_
    unfold State.finishReceive at hok
    split_ifs at hok with hb
    · exact hb
    · cases hok
  | locked call =>
    cases hs
    exact .beginLocked h

theorem advance_cases {t budget : ℕ} {o : Output} {pc : Pc K} (h : s.threads t = pc)
    (hs : s.advance cfg t budget o pc = .next s') : Step cfg s s' := by
  cases pc with
  | idle last => cases hs
  | lockContext c message =>
    dsimp only [State.advance] at hs
    split at hs
    · rename_i key seq hx
      cases hs
      exact .lockContext h hx rfl
    · cases hs
  | sealing c message =>
    dsimp only [State.advance] at hs
    split at hs
    · cases hs
    · rename_i x hx
      split_ifs at hs with hlen
      · cases hs
        exact .tooLarge h hlen
      · split at hs
        · cases hs
        · rename_i bytes hseal
          cases hs
          exact .sealed h (not_lt.mp hlen) hx hseal
  | refuse c size =>
    cases hs
    exact .refuse h
  | lockWriter p =>
    dsimp only [State.advance] at hs
    split_ifs at hs with hw
    cases hs
    exact .lockWriter h hw
  | unlockContext p =>
    cases hs
    exact .unlockContext h
  | check p =>
    dsimp only [State.advance] at hs
    split_ifs at hs with hb
    · cases hs
      exact .check h hb
    · cases hs
      exact .refused h hb
  | failed p deadline error =>
    dsimp only [State.advance] at hs
    split_ifs at hs with hb hn
    · cases hs
      rw [remove_of_bound hb]
      exact .endNotify (.inl ⟨p, deadline, error, h, rfl, rfl⟩) hb (notifies_server hn)
    · cases hs
      rw [remove_of_bound hb]
      exact .endUnlock (.inl ⟨p, deadline, error, h, rfl, rfl⟩) hb
    · cases hs
      exact .keepUnlock (.inl ⟨p, deadline, error, h, hb⟩)
  | waitWriter call =>
    dsimp only [State.advance] at hs
    split_ifs at hs with hw
    cases hs
    exact .waitWriter h hw
  | holdWriter call =>
    cases hs
    exact locked_cases h
  | output job limit =>
    cases hs
    exact .output h
  | returning job deadline result =>
    cases result with
    | none => cases hs
    | some result =>
      cases hs
      exact returned_cases h

theorem step_cases {a : Action K} (h : s.step cfg a = .next s') : Step cfg s s' := by
  cases a with
  | call t call =>
    dsimp only [State.step] at h
    split at h
    · rename_i last hidle
      exact begin_cases hidle h
    · cases h
  | advance t budget o => exact advance_cases rfl h

/-! ### The locks are exclusive -/

/-- Where a thread holds the writer lock. -/
def holdsWriter : Pc K → Bool
  | .unlockContext _ => true
  | .check _ => true
  | .failed _ _ _ => true
  | .holdWriter _ => true
  | .output _ _ => true
  | .returning _ _ _ => true
  | _ => false

/-- Where a thread holds the encryption lock of a context. -/
def holdsContext (c : ℕ) : Pc K → Bool
  | .sealing c' _ => c' = c
  | .refuse c' _ => c' = c
  | .lockWriter p => p.context = c
  | .unlockContext p => p.context = c
  | _ => false

/-- The context of a thread in `Sender::send`. -/
def sendsOn : Pc K → Option ℕ
  | .lockContext c _ => some c
  | .sealing c _ => some c
  | .refuse c _ => some c
  | .lockWriter p => some p.context
  | .unlockContext p => some p.context
  | .check p => some p.context
  | .failed p _ _ => some p.context
  | .output (.packet p) _ => some p.context
  | .returning (.packet p) _ _ => some p.context
  | _ => none

/-- The locks are held by the threads they record, and threads send on contexts that were bound. -/
structure Exclusive (s : State K) : Prop where
  writer : Guarded (holdsWriter · = true) s.threads s.writer
  context : ∀ c x, s.contexts[c]? = some x → Guarded (holdsContext c · = true) s.threads x.holder
  known : ∀ t c, sendsOn (s.threads t) = some c → c < s.contexts.length

theorem sendsOn_of_holds {pc : Pc K} {c : ℕ} (h : holdsContext c pc = true) :
    sendsOn pc = some c := by
  cases pc with
  | sealing c' message => simpa [holdsContext, sendsOn] using h
  | refuse c' size => simpa [holdsContext, sendsOn] using h
  | lockWriter p => simpa [holdsContext, sendsOn] using h
  | unlockContext p => simpa [holdsContext, sendsOn] using h
  | _ => cases h

/-- A thread moves: the other threads stay where they are. -/
theorem known_update {t : ℕ} {pc : Pc K} {n : ℕ} (h : ∀ t c, sendsOn (s.threads t) = some c → c < n)
    (hpc : ∀ c, sendsOn pc = some c → c < n) (u c : ℕ)
    (hu : sendsOn (Function.update s.threads t pc u) = some c) : c < n := by
  by_cases hut : u = t
  · rw [hut, Function.update_self] at hu
    exact hpc c hu
  · rw [Function.update_of_ne hut] at hu
    exact h u c hu

namespace Exclusive

variable {t : ℕ} {old pc : Pc K}

/-- A move that takes and releases no lock, on the same contexts. -/
theorem goto (h : Exclusive s) (ht : s.threads t = old) (hw : holdsWriter pc = holdsWriter old)
    (hc : ∀ c, holdsContext c pc = holdsContext c old)
    (hk : ∀ c, sendsOn pc = some c → c < s.contexts.length) : Exclusive (s.goto t pc) := by
  refine ⟨h.writer.keep ?_, fun c x hx => (h.context c x hx).keep ?_, known_update h.known hk⟩
  · rw [ht, hw]
  · rw [ht, hc]

/-- The thread that holds the writer lock releases it and returns. -/
theorem unlock (h : Exclusive s) (ht : s.threads t = old) (hw : holdsWriter old = true)
    (hc : ∀ c, holdsContext c old = false) (value : Value) : Exclusive (s.unlock t value) := by
  refine ⟨h.writer.release (t := t) ?_ (by simp [holdsWriter]),
    fun c x hx => (h.context c x hx).keep ?_, known_update h.known (fun c hk => (by cases hk))⟩
  · rw [ht, hw]
  · rw [ht, hc]
    simp [holdsContext]

/-- A thread takes the writer lock. -/
theorem lock (h : Exclusive s) (hfree : s.writer = none) (ht : s.threads t = old)
    (hw : holdsWriter pc = true) (hc : ∀ c, holdsContext c pc = holdsContext c old)
    (hk : ∀ c, sendsOn pc = some c → c < s.contexts.length) :
    Exclusive ({ s with writer := some t }.goto t pc) := by
  have hg := h.writer
  rw [hfree] at hg
  refine ⟨hg.acquire hw, fun c x hx => (h.context c x hx).keep ?_, known_update h.known hk⟩
  rw [ht, hc]

/-- A context's lock, key or sequence number changes and the thread moves. -/
theorem modify (h : Exclusive s) {c : ℕ} {f : Context K → Context K} (ht : s.threads t = old)
    (hw : holdsWriter pc = holdsWriter old)
    (hother : ∀ c', c' ≠ c → holdsContext c' pc = holdsContext c' old)
    (hself : ∀ x, s.contexts[c]? = some x →
      Guarded (holdsContext c · = true) (Function.update s.threads t pc) (f x).holder)
    (hk : ∀ c, sendsOn pc = some c → c < s.contexts.length) :
    Exclusive ((s.modify c f).goto t pc) := by
  refine ⟨h.writer.keep ?_, fun c' x' hx' => ?_, ?_⟩
  · rw [ht, hw]
  · change (s.contexts.modify c f)[c']? = some x' at hx'
    show Guarded (holdsContext c' · = true) (Function.update s.threads t pc) x'.holder
    rw [List.getElem?_modify] at hx'
    obtain ⟨x, hx, hxx⟩ := Option.map_eq_some_iff.mp hx'
    by_cases hcc : c = c'
    · subst hcc
      rw [if_pos rfl] at hxx
      rw [← hxx]
      exact hself x hx
    · rw [if_neg hcc] at hxx
      have hxx' : x = x' := hxx
      rw [← hxx']
      refine (h.context c' x hx).keep ?_
      rw [ht, hother c' (Ne.symm hcc)]
  · intro u c' hu
    have hlen : (s.contexts.modify c f).length = s.contexts.length := List.length_modify ..
    show c' < (s.contexts.modify c f).length
    rw [hlen]
    exact known_update h.known hk u c' hu

/-- A fresh context is bound. -/
theorem bind (h : Exclusive s) (key : K) : Exclusive (s.bind key) := by
  have hthreads : (s.bind key).threads = s.threads := by
    unfold State.bind State.remove
    cases s.binding <;> rfl
  have hwriter : (s.bind key).writer = s.writer := by
    unfold State.bind State.remove
    cases s.binding <;> rfl
  have hctx : (s.bind key).contexts = s.contexts ++ [⟨key, 0, none⟩] := rfl
  refine ⟨by rw [hthreads, hwriter]; exact h.writer, fun c x hx => ?_, fun t c hc => ?_⟩
  · rw [hctx] at hx
    rw [hthreads]
    rcases Nat.lt_or_ge c s.contexts.length with hlt | hge
    · rw [List.getElem?_append_left hlt] at hx
      exact h.context c x hx
    · rw [List.getElem?_append_right hge] at hx
      have hx0 : x = ⟨key, 0, none⟩ := by
        cases hc0 : c - s.contexts.length with
        | zero => rw [hc0] at hx; simpa using hx.symm
        | succ n => rw [hc0] at hx; simp at hx
      rw [hx0]
      intro u
      refine ⟨fun hu => ?_, fun hu => (by cases hu)⟩
      have := h.known u c (sendsOn_of_holds hu)
      omega
  · rw [hthreads] at hc
    rw [hctx, List.length_append]
    have := h.known t c hc
    omega

/-- The log, the binding and the frame writer play no part. -/
theorem congr (h : Exclusive s) (hw : s'.writer = s.writer) (hc : s'.contexts = s.contexts)
    (ht : s'.threads = s.threads) : Exclusive s' := by
  refine ⟨?_, ?_, ?_⟩
  · rw [hw, ht]
    exact h.writer
  · rw [hc, ht]
    exact h.context
  · rw [hc, ht]
    exact h.known

theorem logged (h : Exclusive s) (e : Event) : Exclusive (s.logged e) := h.congr rfl rfl rfl

theorem removed (h : Exclusive s) (c : ℕ) (cause : Cause) :
    Exclusive (OutboundSteps.removed s c cause) := h.congr rfl rfl rfl

end Exclusive

theorem exclusive_step (h : Exclusive s) (hs : Step cfg s s') : Exclusive s' := by
  cases hs with
  | beginSend ht hc =>
    refine h.goto ht rfl (fun _ => rfl) ?_
    rintro _ ⟨⟩
    exact hc
  | @receive t c last value accepted ht hb =>
    have hg : Exclusive (s.goto t (.idle value)) :=
      h.goto ht rfl (fun _ => rfl) (fun _ hk => (by cases hk))
    exact hg.logged _
  | beginLocked ht => exact h.goto ht rfl (fun _ => rfl) (fun _ hk => (by cases hk))
  | @lockContext t c message x ht hx hfree =>
    refine h.modify ht rfl ?_ ?_ ?_
    · intro c' hne
      simp [holdsContext, Ne.symm hne]
    · intro x' hx'
      have hg := h.context c x hx
      rw [hfree] at hg
      exact hg.acquire (by simp [holdsContext])
    · rintro _ ⟨⟩
      exact h.known t c (by rw [ht]; rfl)
  | @tooLarge t c message ht hlen =>
    refine h.goto ht rfl (fun _ => rfl) ?_
    rintro _ ⟨⟩
    exact h.known t c (by rw [ht]; rfl)
  | @sealed t c message bytes x ht hlen hx hseal =>
    have hg : Exclusive ((s.modify c ({ · with seq := x.seq + 1 })).goto t
        (.lockWriter ⟨c, x.seq, bytes⟩)) := by
      refine h.modify ht rfl (fun _ _ => rfl) ?_ ?_
      · intro x' hx'
        refine (h.context c x' hx').keep ?_
        rw [ht]
        rfl
      · rintro _ ⟨⟩
        exact h.known t c (by rw [ht]; rfl)
    exact hg.congr rfl rfl rfl
  | @refuse t c size value ht =>
    have hg : Exclusive ((s.modify c ({ · with holder := none })).goto t (.idle value)) := by
      refine h.modify ht rfl ?_ ?_ ?_
      · intro c' hne
        simp [holdsContext, Ne.symm hne]
      · intro x hx
        refine (h.context c x hx).release (t := t) ?_ (by simp [holdsContext])
        rw [ht]
        simp [holdsContext]
      · rintro _ ⟨⟩
    exact hg.congr rfl rfl rfl
  | @lockWriter t p ht hfree =>
    refine h.lock hfree ht rfl (fun _ => rfl) ?_
    rintro _ ⟨⟩
    exact h.known t _ (by rw [ht]; rfl)
  | @unlockContext t p ht =>
    refine h.modify ht rfl ?_ ?_ ?_
    · intro c' hne
      simp [holdsContext, Ne.symm hne]
    · intro x hx
      refine (h.context p.context x hx).release (t := t) ?_ (by simp [holdsContext])
      rw [ht]
      simp [holdsContext]
    · rintro _ ⟨⟩
      exact h.known t _ (by rw [ht]; rfl)
  | @check t p ht hb =>
    refine h.goto ht rfl (fun _ => rfl) ?_
    rintro _ ⟨⟩
    exact h.known t _ (by rw [ht]; rfl)
  | refused ht hb => exact (h.logged _).unlock ht rfl (fun _ => rfl) _
  | waitWriter ht hfree =>
    exact h.lock hfree ht rfl (fun _ => rfl) (fun _ hk => (by cases hk))
  | endNotify hpc hb hside =>
    rcases hpc with ⟨p, deadline, e, ht, -, -⟩ | ⟨ht, -⟩
    · exact (h.removed _ _).goto ht rfl (fun _ => rfl) (fun _ hk => (by cases hk))
    · exact (h.removed _ _).goto ht rfl (fun _ => rfl) (fun _ hk => (by cases hk))
  | endUnlock hpc hb =>
    rcases hpc with ⟨p, deadline, e, ht, -, -⟩ | ⟨call, ht⟩
    · exact (h.removed _ _).unlock ht rfl (fun _ => rfl) _
    · exact (h.removed _ _).unlock ht rfl (fun _ => rfl) _
  | keepUnlock hpc =>
    rcases hpc with ⟨p, deadline, e, ht, -⟩ | ⟨call, ht⟩ | ⟨job, deadline, result, ht, -⟩
    · exact h.unlock ht rfl (fun _ => rfl) _
    · exact h.unlock ht rfl (fun _ => rfl) _
    · exact h.unlock ht rfl (fun _ => rfl) _
  | @bind t key value ht =>
    have hthreads : (s.bind key).threads t = .holdWriter (.bind key) := by
      rw [← ht]
      unfold State.bind State.remove
      cases s.binding <;> rfl
    exact (h.bind key).unlock hthreads rfl (fun _ => rfl) _
  | @removeOutput t c call job limit ht hb hjob =>
    refine (h.removed _ _).goto ht rfl (fun _ => rfl) ?_
    intro c' hk
    cases job <;> cases hk
    cases hjob
  | @keepOutput t job limit hpc hjob =>
    have hk : ∀ c, sendsOn (.output job limit : Pc K) = some c → c < s.contexts.length := by
      intro c' hk
      cases job <;> cases hk
      cases hjob
    rcases hpc with ⟨call, ht⟩ | ⟨bytes, deadline, result, ht⟩
    · exact h.goto ht rfl (fun _ => rfl) hk
    · exact h.goto ht rfl (fun _ => rfl) hk
  | @output t deadline job limit o ht =>
    have hg : Exclusive { s with
        framer := (s.framer.call cfg.cobs cfg.maxFrame ⟨job.send, deadline, o⟩).1 } :=
      h.congr rfl rfl rfl
    refine (hg.logged _).goto ht rfl (fun _ => rfl) ?_
    intro c hk
    cases job <;> cases hk
    exact h.known t _ (by rw [ht]; rfl)
  | sent ht => exact (h.logged _).unlock ht rfl (fun _ => rfl) _
  | @failed t deadline p error ht =>
    refine (h.logged _).goto ht rfl (fun _ => rfl) ?_
    rintro _ ⟨⟩
    exact h.known t _ (by rw [ht]; rfl)

/-! ### Threads and contexts -/

/-- The thread that takes a step. -/
def actor : Action K → ℕ
  | .call t _ => t
  | .advance t _ _ => t

/-- The contexts keep their places and keys. -/
def KeepsKeys (s s' : State K) : Prop :=
  ∀ (c : ℕ) (x : Context K), s.contexts[c]? = some x →
    ∃ x' : Context K, s'.contexts[c]? = some x' ∧ x'.key = x.key

theorem KeepsKeys.of_eq (h : s'.contexts = s.contexts) : KeepsKeys s s' :=
  fun c x hx => ⟨x, by rw [h]; exact hx, rfl⟩

theorem KeepsKeys.modify {c : ℕ} {f : Context K → Context K}
    (h : s'.contexts = s.contexts.modify c f) (hf : ∀ x, (f x).key = x.key) : KeepsKeys s s' := by
  intro c' x hx
  rw [h, List.getElem?_modify, hx]
  by_cases hc : c = c'
  · exact ⟨f x, by simp [hc], hf x⟩
  · exact ⟨x, by simp [hc], rfl⟩

theorem keepsKeys_step (hs : Step cfg s s') : KeepsKeys s s' := by
  cases hs with
  | lockContext ht hx hfree => exact .modify rfl fun _ => rfl
  | sealed ht hlen hx hseal => exact .modify rfl fun _ => rfl
  | refuse ht => exact .modify rfl fun _ => rfl
  | unlockContext ht => exact .modify rfl fun _ => rfl
  | @bind t key value ht =>
    intro c x hx
    have hlt := (List.getElem?_eq_some_iff.mp hx).1
    refine ⟨x, ?_, rfl⟩
    show (s.contexts ++ [_])[c]? = some x
    rw [List.getElem?_append_left hlt]
    exact hx
  | _ => exact .of_eq rfl

/-- Only a fresh context is bound. -/
theorem binding_step (hs : Step cfg s s') {c : ℕ} (hc : c < s.contexts.length)
    (hb : s'.binding = some c) : s.binding = some c := by
  cases hs with
  | endNotify ht hbound hside => cases hb
  | endUnlock ht hbound => cases hb
  | removeOutput ht hbound hjob => cases hb
  | bind ht =>
    change some s.contexts.length = some c at hb
    rw [Option.some.injEq] at hb
    omega
  | _ => exact hb

/-- A step keeps the binding, removes it, or binds a fresh context. -/
theorem binding_cases (hs : Step cfg s s') :
    s'.binding = s.binding ∨ s'.binding = none ∨
      ∃ t key value, s.threads t = .holdWriter (.bind key) ∧ s' = (s.bind key).unlock t value := by
  cases hs with
  | endNotify hpc hb hside => exact .inr (.inl rfl)
  | endUnlock hpc hb => exact .inr (.inl rfl)
  | removeOutput ht hb hjob => exact .inr (.inl rfl)
  | @bind t key value ht => exact .inr (.inr ⟨t, key, value, ht, rfl⟩)
  | _ => exact .inl rfl

theorem locked_threads (s : State K) (t : ℕ) (call : Locked K) :
    ∃ pc, (s.locked cfg t call).threads = Function.update s.threads t pc := by
  have hremove : ∀ cause, (s.remove cause).threads = s.threads := by
    intro cause
    unfold State.remove
    cases s.binding <;> rfl
  have hbind : ∀ key, (s.bind key).threads = s.threads := fun key => hremove .replaced
  have hgo : ∀ cause pc, ((s.remove cause).goto t pc).threads = Function.update s.threads t pc := by
    intro cause pc
    rw [State.goto, hremove]
  have hun : ∀ cause value, ((s.remove cause).unlock t value).threads =
      Function.update s.threads t (.idle value) := by
    intro cause value
    show Function.update (s.remove cause).threads t _ = _
    rw [hremove]
  cases call with
  | disconnect c =>
    dsimp only [State.locked]
    split_ifs
    · exact ⟨_, hgo _ _⟩
    · exact ⟨_, hun _ _⟩
    · exact ⟨_, rfl⟩
  | finish c =>
    dsimp only [State.locked]
    split_ifs
    · exact ⟨_, hun _ _⟩
    · exact ⟨_, rfl⟩
  | bind key =>
    refine ⟨.idle (.bound s.contexts.length), ?_⟩
    show Function.update (s.bind key).threads t _ = _
    rw [hbind]
  | unbind => exact ⟨_, hun _ _⟩
  | sendReset deadline => exact ⟨_, hgo _ _⟩
  | sendDropped limit => exact ⟨_, hgo _ _⟩
  | sendPacket packet limit => exact ⟨_, rfl⟩

theorem returned_threads (s : State K) (t deadline : ℕ) (result : Except TransportError Unit)
    (job : Job) :
    ∃ pc, (s.returned cfg t deadline result job).threads = Function.update s.threads t pc := by
  cases job with
  | packet p => cases result <;> exact ⟨_, rfl⟩
  | unsealed bytes =>
    dsimp only [State.returned]
    split
    · split_ifs <;> exact ⟨_, rfl⟩
    · exact ⟨_, rfl⟩
  | _ => exact ⟨_, rfl⟩

/-- A step moves one thread. -/
theorem step_threads {a : Action K} (h : s.step cfg a = .next s') :
    ∃ pc, s'.threads = Function.update s.threads (actor a) pc := by
  cases a with
  | call t call =>
    dsimp only [State.step] at h
    split at h
    · cases call with
      | send c message =>
        dsimp only [State.begin] at h
        split_ifs at h
        cases h
        exact ⟨_, rfl⟩
      | finishReceive c result =>
        cases h
        exact ⟨_, rfl⟩
      | locked call =>
        cases h
        exact ⟨_, rfl⟩
    · cases h
  | advance t budget o =>
    dsimp only [State.step, actor] at h ⊢
    have hremove : ∀ cause, (s.remove cause).threads = s.threads := by
      intro cause
      unfold State.remove
      cases s.binding <;> rfl
    cases hpc : s.threads t with
    | idle last =>
      rw [hpc] at h
      cases h
    | lockContext c message =>
      rw [hpc] at h
      dsimp only [State.advance] at h
      split at h
      · cases h
        exact ⟨_, rfl⟩
      · cases h
    | sealing c message =>
      rw [hpc] at h
      dsimp only [State.advance] at h
      split at h
      · cases h
      · split_ifs at h
        · cases h
          exact ⟨_, rfl⟩
        · split at h
          · cases h
          · cases h
            exact ⟨_, rfl⟩
    | refuse c size =>
      rw [hpc] at h
      cases h
      exact ⟨_, rfl⟩
    | lockWriter p =>
      rw [hpc] at h
      dsimp only [State.advance] at h
      split_ifs at h
      cases h
      exact ⟨_, rfl⟩
    | unlockContext p =>
      rw [hpc] at h
      cases h
      exact ⟨_, rfl⟩
    | check p =>
      rw [hpc] at h
      dsimp only [State.advance] at h
      split_ifs at h
      · cases h
        exact ⟨_, rfl⟩
      · cases h
        exact ⟨_, rfl⟩
    | failed p deadline error =>
      rw [hpc] at h
      dsimp only [State.advance] at h
      split_ifs at h
      · cases h
        exact ⟨_, by rw [State.goto, hremove]⟩
      · cases h
        refine ⟨.idle (.sent (.error error)), ?_⟩
        show Function.update (s.remove .failed).threads t _ = _
        rw [hremove]
      · cases h
        exact ⟨_, rfl⟩
    | waitWriter call =>
      rw [hpc] at h
      dsimp only [State.advance] at h
      split_ifs at h
      cases h
      exact ⟨_, rfl⟩
    | holdWriter call =>
      rw [hpc] at h
      cases h
      exact locked_threads s t call
    | output job limit =>
      rw [hpc] at h
      cases h
      exact ⟨_, rfl⟩
    | returning job deadline result =>
      rw [hpc] at h
      cases result with
      | none => cases h
      | some result =>
        cases h
        exact returned_threads s t deadline result job

/-- Other threads stay where they are. -/
theorem step_threads_of_ne {a : Action K} (h : s.step cfg a = .next s') {t : ℕ}
    (hne : t ≠ actor a) : s'.threads t = s.threads t := by
  obtain ⟨pc, hpc⟩ := step_threads h
  rw [hpc, Function.update_of_ne hne]

end ArkWire.Transport.OutboundSteps
