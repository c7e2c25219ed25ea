import ArkWire.Transport.Events
import ArkWire.Transport.Retirement
import ArkWire.Transport.SendOrder

/-! # The owner and the other threads at the outbound transport

The owner makes the calls of its endpoint, and the other threads only send and disconnect. `Steady`
collects what holds of an outbound transport that is used so: a frame that belongs to no session is
only on its way while nothing is bound, and a context that is not bound any more has its removal in
the log.

A step either leaves the frame writer alone or is one call of it, and it keeps the binding, removes
it or binds a fresh context. -/

namespace ArkWire.Transport.Company

open ArkWire.Lib.Machines ArkWire.Lib.Locks
open ArkWire.Transport.Errors ArkWire.Transport.FrameReader ArkWire.Transport.FrameWriter
open ArkWire.Transport.Outbound ArkWire.Transport.OutboundSteps ArkWire.Transport.Endpoint
open ArkWire.Transport.Isolation (Isolated isolated_step isolated_init exclusive_init)
open ArkWire.Transport.Numbering (Counts counts_step counts_init written writes)
open ArkWire.Transport.Retirement (Writing writing_step)

variable {cfg : Config Transcript} {o o' : State Transcript} {t : ℕ}

/-! ### What a step does to the stream and to the binding -/

theorem log_bind (o : State Transcript) (key : Transcript) :
    ∃ es, (o.bind key).log = o.log ++ es ++ [.bound o.contexts.length] ∧
      ∀ e ∈ es, ∃ c, o.binding = some c ∧ e = .removed c .replaced := by
  unfold State.bind
  cases hb : o.binding with
  | none =>
    rw [remove_of_unbound hb]
    exact ⟨[], by simp [State.logged], fun e he => (by cases he)⟩
  | some c =>
    rw [remove_of_bound hb]
    refine ⟨[.removed c .replaced], rfl, fun e he => ⟨c, rfl, ?_⟩⟩
    exact List.mem_singleton.mp he

theorem framer_bind (o : State Transcript) (key : Transcript) :
    (o.bind key).framer = o.framer ∧ (o.bind key).threads = o.threads := by
  unfold State.bind State.remove
  cases o.binding <;> exact ⟨rfl, rfl⟩

theorem written_of_silent {c : ℕ} {log : List Event} {e : Event} (h : writes e = none) :
    written c (log ++ [e]) = written c log := by
  rw [Numbering.written_append, h]
  simp

theorem written_bind (o : State Transcript) (key : Transcript) (c : ℕ) :
    written c (o.bind key).log = written c o.log := by
  obtain ⟨es, hlog, hes⟩ := log_bind o key
  have hplain : ∀ e ∈ es ++ [Event.bound o.contexts.length], Numbering.Plain e := by
    intro e he
    rcases List.mem_append.mp he with he | he
    · obtain ⟨c, -, rfl⟩ := hes e he
      exact ⟨rfl, rfl, rfl⟩
    · rw [List.mem_singleton.mp he]
      exact ⟨rfl, rfl, rfl⟩
  rw [hlog, List.append_assoc]
  exact Numbering.written_plain hplain c

/-- **A step leaves the frame writer alone, or calls it once.** -/
theorem framer_step (hs : Step cfg o o') :
    (o'.framer = o.framer ∧ ∀ c, written c o'.log = written c o.log) ∨
      ∃ t job limit deadline out, o.threads t = .output job limit ∧
        o' = o.output cfg t job deadline out := by
  cases hs with
  | receive ht hb => exact .inl ⟨rfl, fun c => written_of_silent rfl⟩
  | sealed ht hlen hx hseal => exact .inl ⟨rfl, fun c => written_of_silent rfl⟩
  | refuse ht => exact .inl ⟨rfl, fun c => written_of_silent rfl⟩
  | refused ht hb => exact .inl ⟨rfl, fun c => written_of_silent rfl⟩
  | endNotify hpc hb hside => exact .inl ⟨rfl, fun c => written_of_silent rfl⟩
  | endUnlock hpc hb => exact .inl ⟨rfl, fun c => written_of_silent rfl⟩
  | removeOutput ht hb hjob => exact .inl ⟨rfl, fun c => written_of_silent rfl⟩
  | sent ht => exact .inl ⟨rfl, fun c => written_of_silent rfl⟩
  | failed ht => exact .inl ⟨rfl, fun c => written_of_silent rfl⟩
  | @bind t key value ht => exact .inl ⟨(framer_bind o key).1, written_bind o key⟩
  | @output t deadline job limit out ht => exact .inr ⟨t, job, limit, deadline, out, ht, rfl⟩
  | _ => exact .inl ⟨rfl, fun c => rfl⟩

/-- The contexts keep their keys, and only `bind` adds one. -/
theorem context_cases (hs : Step cfg o o') {c : ℕ} {x' : Context Transcript}
    (hx : o'.contexts[c]? = some x') :
    (∃ x, o.contexts[c]? = some x ∧ x.key = x'.key) ∨
      ∃ t, o.threads t = .holdWriter (.bind x'.key) ∧ c = o.contexts.length := by
  have hmodify : ∀ (d : ℕ) (f : Context Transcript → Context Transcript), (∀ x, (f x).key = x.key) →
      (o.contexts.modify d f)[c]? = some x' →
      ∃ x, o.contexts[c]? = some x ∧ x.key = x'.key := by
    intro d f hf hx
    rw [List.getElem?_modify] at hx
    obtain ⟨x, hx, hxx⟩ := Option.map_eq_some_iff.mp hx
    refine ⟨x, hx, ?_⟩
    rw [← hxx]
    split_ifs
    · exact (hf x).symm
    · rfl
  cases hs with
  | lockContext ht h hfree => exact .inl (hmodify _ _ (fun _ => by rfl) hx)
  | sealed ht hlen h hseal => exact .inl (hmodify _ _ (fun _ => by rfl) hx)
  | refuse ht => exact .inl (hmodify _ _ (fun _ => by rfl) hx)
  | unlockContext ht => exact .inl (hmodify _ _ (fun _ => by rfl) hx)
  | @bind t key value ht =>
    have hx' : (o.contexts ++ [Context.mk key 0 none])[c]? = some x' := hx
    rcases Nat.lt_or_ge c o.contexts.length with hlt | hge
    · rw [List.getElem?_append_left hlt] at hx'
      exact .inl ⟨x', hx', rfl⟩
    · have hlen := (List.getElem?_eq_some_iff.mp hx').1
      rw [List.length_append, List.length_singleton] at hlen
      have hc : c = o.contexts.length := by omega
      rw [hc, List.getElem?_concat_length, Option.some.injEq] at hx'
      rw [← hx']
      exact .inr ⟨t, ht, hc⟩
  | _ => exact .inl ⟨x', hx, rfl⟩

/-! ### Who does what -/

/-- Where a thread other than the owner can be. -/
def aside : Pc Transcript → Bool
  | .waitWriter (.disconnect _) => true
  | .waitWriter _ => false
  | .holdWriter (.disconnect _) => true
  | .holdWriter _ => false
  | .output job _ => (session job).isSome
  | .returning job _ _ => (session job).isSome
  | _ => true

/-- Where a thread has a frame sent, or is to, that belongs to no bound session. -/
def foreign : Pc Transcript → Bool
  | .waitWriter (.sendPacket _ _) => true
  | .holdWriter (.sendPacket _ _) => true
  | .output (.packet _) _ => false
  | .output _ _ => true
  | .returning (.packet _) _ _ => false
  | .returning _ _ _ => true
  | _ => false

/-- **What holds of an outbound transport with an owner.** -/
structure Steady (cfg : Config Transcript) (o : State Transcript) : Prop where
  exclusive : Exclusive o
  isolated : Isolated o
  counts : Counts o
  writing : Writing o
  good : FrameWriter.Good cfg.maxFrame o.framer
  roles : ∀ t, t ≠ owner → aside (o.threads t) = true
  apart : ∀ t, foreign (o.threads t) = true → o.binding = none
  ended : ∀ c < o.contexts.length, o.binding = some c ∨ ∃ cause, .removed c cause ∈ o.log

theorem steady_init {framer : Writer} (h : FrameWriter.Good cfg.maxFrame framer) :
    Steady cfg { framer } where
  exclusive := exclusive_init framer
  isolated := isolated_init framer
  counts := counts_init framer
  writing t p hp := by cases hp
  good := h
  roles t _ := rfl
  apart t ht := by cases ht
  ended c hc := by cases hc

/-! ### Where a thread goes -/

/-- Where a thread has the frame writer to itself, about to call it or after a call. -/
def busy : Pc Transcript → Bool
  | .output _ _ => true
  | .returning _ _ _ => true
  | .failed _ _ _ => true
  | _ => false

/-- Where a thread is in no `bind` and in no `send_packet` that has not reached the frame writer. -/
def plain : Pc Transcript → Bool
  | .waitWriter (.bind _) => false
  | .waitWriter (.sendPacket _ _) => false
  | .holdWriter (.bind _) => false
  | .holdWriter (.sendPacket _ _) => false
  | _ => true

/-- What a move of one thread keeps. -/
structure Moves (o o' : State Transcript) (pc pc' : Pc Transcript) : Prop where
  role : aside pc = true → aside pc' = true
  apart : foreign pc = false → foreign pc' = true → o'.binding = none
  quiet : aside pc = true → busy pc' = true → busy pc = true ∨ o.binding ≠ none
  loose : plain pc = true → plain pc' = true

namespace Moves

variable {pc pc' : Pc Transcript}

/-- To a place where a thread has nothing on its way. -/
theorem away (ha : aside pc' = true) (hf : foreign pc' = false)
    (hb : busy pc' = false) (hp : plain pc' = true) : Moves o o' pc pc' := by
  refine ⟨fun _ => ha, fun _ h => ?_, fun _ h => ?_, fun _ => hp⟩
  · rw [hf] at h
    cases h
  · rw [hb] at h
    cases h

theorem idle (value : Value) : Moves o o' pc (.idle value) := away rfl rfl rfl rfl

/-- Within one call, where a thread stays or goes on. -/
theorem along (ha : aside pc' = aside pc)
    (hf : foreign pc' = foreign pc)
    (hb : busy pc' = busy pc) (hp : plain pc' = plain pc) :
    Moves o o' pc pc' := by
  refine ⟨fun h => by rw [ha, h], fun h h' => ?_, fun _ h => .inl (by rw [← hb, h]),
    fun h => by rw [hp, h]⟩
  rw [hf, h] at h'
  cases h'

/-- To the frame writer, after the binding was removed. -/
theorem removed (ha : aside pc = true → aside pc' = true ∧ o.binding ≠ none)
    (hp : plain pc' = true) (hb : o'.binding = none) : Moves o o' pc pc' :=
  ⟨fun h => (ha h).1, fun _ _ => hb, fun h _ => .inr (ha h).2, fun _ => hp⟩

end Moves

/-- The work of a call under the writer lock. -/
theorem moves_locked (o : State Transcript) (t : ℕ) (call : Locked Transcript) :
    Moves o (o.locked cfg t call) (.holdWriter call) ((o.locked cfg t call).threads t) := by
  have hgo : ∀ (o : State Transcript) pc, (o.goto t pc).threads t = pc := fun o pc =>
    Function.update_self ..
  have hun : ∀ (o : State Transcript) value, (o.unlock t value).threads t = .idle value :=
    fun o value => Function.update_self ..
  cases call with
  | disconnect c =>
    dsimp only [State.locked]
    split_ifs with hb hside
    · rw [hgo]
      refine .removed (fun _ => ⟨rfl, ?_⟩) rfl (binding_remove o .disconnected)
      rw [hb]
      simp
    · rw [hun]
      exact .idle _
    · rw [hun]
      exact .idle _
  | finish c =>
    dsimp only [State.locked]
    split_ifs
    · rw [hun]
      exact .idle _
    · rw [hun]
      exact .idle _
  | bind key =>
    dsimp only [State.locked]
    rw [hun]
    exact .idle _
  | unbind =>
    dsimp only [State.locked]
    rw [hun]
    exact .idle _
  | sendReset deadline =>
    dsimp only [State.locked]
    rw [hgo]
    exact .removed (fun h => (by cases h)) rfl (binding_remove o .unbound)
  | sendDropped limit =>
    dsimp only [State.locked]
    rw [hgo]
    exact .removed (fun h => (by cases h)) rfl (binding_remove o .unbound)
  | sendPacket packet limit =>
    dsimp only [State.locked]
    rw [hgo]
    exact ⟨fun h => (by cases h), fun h => (by cases h), fun h => (by cases h),
      fun h => (by cases h)⟩

theorem moves_returned (o : State Transcript) (t deadline : ℕ) (result : Except TransportError Unit)
    (job : Job) :
    Moves o (o.returned cfg t deadline result job) (.returning job deadline (some result))
      ((o.returned cfg t deadline result job).threads t) := by
  have hgo : ∀ (o : State Transcript) pc, (o.goto t pc).threads t = pc := fun o pc =>
    Function.update_self ..
  have hun : ∀ (o : State Transcript) value, (o.unlock t value).threads t = .idle value :=
    fun o value => Function.update_self ..
  cases job with
  | packet p =>
    cases result with
    | ok =>
      dsimp only [State.returned]
      rw [hun]
      exact .idle _
    | error error =>
      dsimp only [State.returned]
      rw [hgo]
      exact .along rfl rfl rfl rfl
  | notification c error =>
    dsimp only [State.returned]
    rw [hun]
    exact .idle _
  | reset =>
    dsimp only [State.returned]
    rw [hun]
    exact .idle _
  | dropped =>
    dsimp only [State.returned]
    rw [hun]
    exact .idle _
  | unsealed bytes =>
    dsimp only [State.returned]
    split
    · split_ifs
      · rw [hgo]
        exact .along rfl rfl rfl rfl
      · rw [hun]
        exact .idle _
    · rw [hun]
      exact .idle _

/-- **Where a thread in a call goes.** -/
theorem moves_advance {budget : ℕ} {out : Output} {pc : Pc Transcript}
    (hs : o.advance cfg t budget out pc = .next o') : Moves o o' pc (o'.threads t) := by
  have hgo : ∀ (o : State Transcript) pc, (o.goto t pc).threads t = pc := fun o pc =>
    Function.update_self ..
  have hun : ∀ (o : State Transcript) value, (o.unlock t value).threads t = .idle value :=
    fun o value => Function.update_self ..
  cases pc with
  | idle last => cases hs
  | lockContext c message =>
    dsimp only [State.advance] at hs
    split at hs
    · cases hs
      rw [hgo]
      exact .away rfl rfl rfl rfl
    · cases hs
  | sealing c message =>
    dsimp only [State.advance] at hs
    split at hs
    · cases hs
    · split_ifs at hs with hlen
      · cases hs
        rw [hgo]
        exact .away rfl rfl rfl rfl
      · split at hs
        · cases hs
        · cases hs
          rw [hgo]
          exact .away rfl rfl rfl rfl
  | refuse c size =>
    cases hs
    rw [hgo]
    exact .idle _
  | lockWriter p =>
    dsimp only [State.advance] at hs
    split_ifs at hs with hw
    cases hs
    rw [hgo]
    exact .away rfl rfl rfl rfl
  | unlockContext p =>
    cases hs
    rw [hgo]
    exact .away rfl rfl rfl rfl
  | check p =>
    dsimp only [State.advance] at hs
    split_ifs at hs with hb
    · cases hs
      rw [hgo]
      refine ⟨fun _ => rfl, fun _ h => (by cases h), fun _ _ => .inr ?_, fun _ => rfl⟩
      rw [hb]
      simp
    · cases hs
      rw [hun]
      exact .idle _
  | failed p deadline error =>
    dsimp only [State.advance] at hs
    split_ifs at hs with hb hn
    · cases hs
      rw [hgo]
      refine .removed (fun _ => ⟨rfl, ?_⟩) rfl (binding_remove o .failed)
      rw [hb]
      simp
    · cases hs
      rw [hun]
      exact .idle _
    · cases hs
      rw [hun]
      exact .idle _
  | waitWriter call =>
    dsimp only [State.advance] at hs
    split_ifs at hs with hw
    cases hs
    rw [hgo]
    cases call <;> exact .along rfl rfl rfl rfl
  | holdWriter call =>
    cases hs
    exact moves_locked o t call
  | output job limit =>
    cases hs
    rw [State.output, hgo]
    cases job <;> exact .along rfl rfl rfl rfl
  | returning job deadline result =>
    cases result with
    | none => cases hs
    | some result =>
      cases hs
      exact moves_returned o t deadline result job

/-! ### Steps -/

theorem aside_begin {a : Action Transcript} (hp : permitted a = true) {call : Call Transcript}
    (ha : a = .call t call) {last : Value} (hidle : o.threads t = .idle last)
    (hs : o.step cfg a = .next o') :
    aside (o'.threads t) = true ∧ foreign (o'.threads t) = false ∧ busy (o'.threads t) = false ∧
      plain (o'.threads t) = true := by
  have hgo : ∀ (o : State Transcript) pc, (o.goto t pc).threads t = pc := fun o pc =>
    Function.update_self ..
  subst ha
  dsimp only [State.step] at hs
  rw [hidle] at hs
  cases call with
  | send c message =>
    dsimp only [State.begin] at hs
    split_ifs at hs
    cases hs
    rw [hgo]
    exact ⟨rfl, rfl, rfl, rfl⟩
  | finishReceive c result => cases hp
  | locked call =>
    cases call with
    | disconnect c =>
      cases hs
      rw [hgo]
      exact ⟨rfl, rfl, rfl, rfl⟩
    | _ => cases hp

/-- A step moves its thread: a call of another thread begins, or a thread goes on. -/
theorem moves_step {a : Action Transcript} (hp : permitted a = true)
    (hs : o.step cfg a = .next o') :
    Moves o o' (o.threads (actor a)) (o'.threads (actor a)) := by
  cases a with
  | call t call =>
    obtain ⟨last, hidle⟩ : ∃ last, o.threads t = .idle last := by
      dsimp only [State.step] at hs
      split at hs
      · exact ⟨_, by assumption⟩
      · cases hs
    obtain ⟨ha, hf, hb, hpl⟩ := aside_begin hp rfl hidle hs
    exact .away ha hf hb hpl
  | advance t budget out => exact moves_advance hs

theorem bind_owner (h : Steady cfg o) {key : Transcript}
    (ht : o.threads t = .holdWriter (.bind key)) :
    t = owner := by
  by_contra hne
  have hrole := h.roles t hne
  rw [ht] at hrole
  cases hrole

/-- A frame of no session is only on its way while nothing is bound. -/
theorem apart_step (h : Steady cfg o) {a : Action Transcript} (hp : permitted a = true)
    (hs : o.step cfg a = .next o') (u : ℕ) (hu : foreign (o'.threads u) = true) :
    o'.binding = none := by
  rcases binding_cases (step_cases hs) with hb | hb | ⟨t, key, value, ht, rfl⟩
  · by_cases hua : u = actor a
    · subst hua
      by_cases hf : foreign (o.threads (actor a)) = true
      · rw [hb]
        exact h.apart _ hf
      · exact (moves_step hp hs).apart (by simpa using hf) hu
    · rw [step_threads_of_ne hs hua] at hu
      rw [hb]
      exact h.apart u hu
  · exact hb
  · exfalso
    have hthreads : ((o.bind key).unlock t value).threads =
        Function.update o.threads t (.idle value) := by
      show Function.update (o.bind key).threads t _ = _
      rw [(framer_bind o key).2]
    have howner := bind_owner h ht
    rw [hthreads] at hu
    by_cases hut : u = t
    · rw [hut, Function.update_self] at hu
      cases hu
    · rw [Function.update_of_ne hut] at hu
      -- the other threads make no such call, and none is at the frame writer
      have hrole := h.roles u (by rw [← howner]; exact hut)
      have hfree : holdsWriter (o.threads u) = false := by
        refine Bool.eq_false_iff.mpr fun hold => hut ?_
        exact h.exclusive.writer.unique (by rw [ht]; rfl) hold
      generalize o.threads u = pc at hu hrole hfree
      cases pc with
      | waitWriter call =>
        cases call with
        | sendPacket packet limit => cases hrole
        | _ => cases hu
      | holdWriter call => cases hfree
      | output job limit => cases hfree
      | returning job deadline result => cases hfree
      | _ => cases hu

theorem length_step (hs : Step cfg o o') :
    o'.contexts.length = o.contexts.length ∨
      o'.contexts.length = o.contexts.length + 1 ∧ o'.binding = some o.contexts.length := by
  cases hs with
  | lockContext ht h hfree => exact .inl (List.length_modify ..)
  | sealed ht hlen h hseal => exact .inl (List.length_modify ..)
  | refuse ht => exact .inl (List.length_modify ..)
  | unlockContext ht => exact .inl (List.length_modify ..)
  | bind ht =>
    refine .inr ⟨?_, rfl⟩
    show (o.contexts ++ [_]).length = _
    rw [List.length_append, List.length_singleton]
  | _ => exact .inl rfl

/-- The log only grows, and a removal is logged. -/
theorem log_step (hs : Step cfg o o') :
    o.log <+: o'.log ∧ ∀ c, o.binding = some c → o'.binding ≠ some c →
      ∃ cause, .removed c cause ∈ o'.log := by
  have hkeep : ∀ {s : State Transcript}, s.binding = o.binding → ∀ c, o.binding = some c →
      s.binding ≠ some c → ∃ cause, .removed c cause ∈ s.log :=
    fun hb c hc hne => absurd (hb.trans hc) hne
  cases hs with
  | receive ht hb => exact ⟨List.prefix_append _ _, hkeep rfl⟩
  | sealed ht hlen hx hseal => exact ⟨List.prefix_append _ _, hkeep rfl⟩
  | refuse ht => exact ⟨List.prefix_append _ _, hkeep rfl⟩
  | refused ht hb => exact ⟨List.prefix_append _ _, hkeep rfl⟩
  | @endNotify t d cause error limit hpc hb hside =>
    refine ⟨List.prefix_append _ _, fun c hc _ => ⟨cause, ?_⟩⟩
    rw [hb, Option.some.injEq] at hc
    subst hc
    exact List.mem_append_right _ (List.mem_singleton_self _)
  | @endUnlock t d cause value hpc hb =>
    refine ⟨List.prefix_append _ _, fun c hc _ => ⟨cause, ?_⟩⟩
    rw [hb, Option.some.injEq] at hc
    subst hc
    exact List.mem_append_right _ (List.mem_singleton_self _)
  | @removeOutput t d call job limit ht hb hjob =>
    refine ⟨List.prefix_append _ _, fun c hc _ => ⟨.unbound, ?_⟩⟩
    rw [hb, Option.some.injEq] at hc
    subst hc
    exact List.mem_append_right _ (List.mem_singleton_self _)
  | sent ht => exact ⟨List.prefix_append _ _, hkeep rfl⟩
  | failed ht => exact ⟨List.prefix_append _ _, hkeep rfl⟩
  | output ht => exact ⟨List.prefix_append _ _, hkeep rfl⟩
  | @bind t key value ht =>
    have hlog : ((o.bind key).unlock t value).log = (o.bind key).log := rfl
    refine ⟨?_, fun c hc _ => ⟨.replaced, ?_⟩⟩
    · obtain ⟨es, hes, -⟩ := log_bind o key
      rw [hlog, hes, List.append_assoc]
      exact List.prefix_append _ _
    · rw [hlog]
      show _ ∈ (o.remove .replaced).log ++ [_]
      rw [remove_of_bound hc]
      simp [removed, State.logged]
  | _ => exact ⟨List.prefix_rfl, hkeep rfl⟩

theorem ended_step (h : Steady cfg o) (hs : Step cfg o o') (c : ℕ)
    (hc : c < o'.contexts.length) : o'.binding = some c ∨ ∃ cause, .removed c cause ∈ o'.log := by
  obtain ⟨hlog, hgone⟩ := log_step hs
  by_cases hold : c < o.contexts.length
  · rcases h.ended c hold with hb | ⟨cause, hmem⟩
    · by_cases hb' : o'.binding = some c
      · exact .inl hb'
      · exact .inr (hgone c hb hb')
    · exact .inr ⟨cause, hlog.subset hmem⟩
  · rcases length_step hs with hlen | ⟨hlen, hb⟩
    · omega
    · have hnew : c = o.contexts.length := by omega
      rw [hnew]
      exact .inl hb

theorem good_step (hcobs : cfg.cobs.Lawful) (hmax : 0 < cfg.maxFrame)
    (h : FrameWriter.Good cfg.maxFrame o.framer) (hs : Step cfg o o') :
    FrameWriter.Good cfg.maxFrame o'.framer := by
  rcases framer_step hs with ⟨hf, -⟩ | ⟨t, job, limit, deadline, out, -, rfl⟩
  · rw [hf]
    exact h
  · show FrameWriter.Good cfg.maxFrame (o.framer.call _ _ _).1
    have hcall := call_spec hcobs hmax h ⟨job.send, deadline, out⟩
    generalize o.framer.call cfg.cobs cfg.maxFrame ⟨job.send, deadline, out⟩ = res at hcall ⊢
    obtain ⟨w, result⟩ := res
    dsimp only at hcall ⊢
    generalize o.framer = before at h hcall
    cases hcall with
    | refused hsend hbig => exact h
    | sent hfit hg hacc hres => exact hg
    | failed hfit hg hacc hp hres hr => exact hg

/-- Other threads and calls under way keep it. -/
theorem steady_step (hcobs : cfg.cobs.Lawful) (hmax : 0 < cfg.maxFrame) (h : Steady cfg o)
    {a : Action Transcript} (hp : permitted a = true) (hs : o.step cfg a = .next o') :
    Steady cfg o' where
  exclusive := exclusive_step h.exclusive (step_cases hs)
  isolated := isolated_step h.exclusive h.isolated (step_cases hs)
  counts := counts_step h.exclusive h.isolated h.counts (step_cases hs)
  writing := writing_step h.exclusive h.writing (step_cases hs)
  good := good_step hcobs hmax h.good (step_cases hs)
  roles u hu := by
    by_cases hua : u = actor a
    · subst hua
      exact (moves_step hp hs).role (h.roles _ hu)
    · rw [step_threads_of_ne hs hua]
      exact h.roles u hu
  apart := apart_step h hp hs
  ended := ended_step h (step_cases hs)

/-- The owner begins a call: a packet of no session only while nothing is bound. -/
theorem steady_calls (h : Steady cfg o) {last : Value} (hidle : o.threads owner = .idle last)
    {call : Locked Transcript}
    (hpacket : foreign (.waitWriter call) = true → o.binding = none) :
    Steady cfg (calls o call) := by
  have hs : Step cfg o (calls o call) := .beginLocked hidle
  refine ⟨exclusive_step h.exclusive hs, isolated_step h.exclusive h.isolated hs,
    counts_step h.exclusive h.isolated h.counts hs, writing_step h.exclusive h.writing hs, h.good,
    fun u hu => ?_, fun u hf => ?_, h.ended⟩
  · show aside (Function.update o.threads owner _ u) = true
    rw [Function.update_of_ne hu]
    exact h.roles u hu
  · change foreign (Function.update o.threads owner _ u) = true at hf
    by_cases hu : u = owner
    · rw [hu, Function.update_self] at hf
      exact hpacket hf
    · rw [Function.update_of_ne hu] at hf
      exact h.apart u hf

/-- The owner finishes a receive. -/
theorem steady_received (h : Steady cfg o) {last : Value} (hidle : o.threads owner = .idle last)
    (c : ℕ) (result : Except TransportError Bytes) :
    Steady cfg (o.received owner c (o.finishReceive c result)) := by
  have hs : Step cfg o (o.received owner c (o.finishReceive c result)) := by
    refine .receive hidle fun hok => ?_
    unfold State.finishReceive at hok
    split_ifs at hok with hb
    · exact hb
    · cases hok
  have hthreads : (o.received owner c (o.finishReceive c result)).threads =
      Function.update o.threads owner (.idle (.received (o.finishReceive c result))) := rfl
  refine ⟨exclusive_step h.exclusive hs, isolated_step h.exclusive h.isolated hs,
    counts_step h.exclusive h.isolated h.counts hs, writing_step h.exclusive h.writing hs, h.good,
    fun u hu => ?_, fun u hf => ?_, ended_step h hs⟩
  · rw [hthreads, Function.update_of_ne hu]
    exact h.roles u hu
  · rw [hthreads] at hf
    by_cases hu : u = owner
    · rw [hu, Function.update_self] at hf
      cases hf
    · rw [Function.update_of_ne hu] at hf
      exact h.apart u hf

/-! ### The owner between two calls -/

/-- What a step of the owner outside the outbound transport leaves alone. -/
structure Calm (o o' : State Transcript) : Prop where
  framer : o'.framer = o.framer
  binding : o'.binding = o.binding
  contexts : o'.contexts = o.contexts
  others : ∀ t, t ≠ owner → o'.threads t = o.threads t
  written : ∀ c, Numbering.written c o'.log = Numbering.written c o.log
  log : o.log ⊆ o'.log

theorem calm_refl (o : State Transcript) : Calm o o :=
  ⟨rfl, rfl, rfl, fun _ _ => rfl, fun _ => rfl, fun _ h => h⟩

theorem calm_calls (o : State Transcript) (call : Locked Transcript) : Calm o (calls o call) :=
  ⟨rfl, rfl, rfl, fun _ ht => Function.update_of_ne ht _ _, fun _ => rfl, fun _ h => h⟩

theorem calm_received (o : State Transcript) (c : ℕ) (result : Except TransportError Bytes) :
    Calm o (o.received owner c result) :=
  ⟨rfl, rfl, rfl, fun _ ht => Function.update_of_ne ht _ _, fun _ => written_of_silent rfl,
    List.subset_append_left _ _⟩

theorem Calm.trans {o'' : State Transcript} (h : Calm o o') (h' : Calm o' o'') : Calm o o'' :=
  ⟨h'.framer.trans h.framer, h'.binding.trans h.binding, h'.contexts.trans h.contexts,
    fun t ht => (h'.others t ht).trans (h.others t ht), fun c => (h'.written c).trans (h.written c),
    fun _ he => h'.log (h.log he)⟩

theorem Calm.keys (h : Calm o o') : KeepsKeys o o' := .of_eq h.contexts

theorem threads_calls (o : State Transcript) (call : Locked Transcript) :
    (calls o call).threads owner = .waitWriter call :=
  threads_goto o owner _

/-- The owner stays out of `bind` and `send_packet`. -/
theorem plain_step {a : Action Transcript} (hp : permitted a = true) (hs : o.step cfg a = .next o')
    (h : plain (o.threads t) = true) : plain (o'.threads t) = true := by
  by_cases hta : t = actor a
  · subst hta
    exact (moves_step hp hs).loose h
  · rw [step_threads_of_ne hs hta]
    exact h

/-! ### One context for each key -/

/-- No context has the key. -/
def Unused (key : Transcript) (o : State Transcript) : Prop :=
  ∀ (c : ℕ) (x : Context Transcript), o.contexts[c]? = some x → x.key ≠ key

/-- The contexts have different keys. -/
def Single (o : State Transcript) : Prop :=
  ∀ (c c' : ℕ) (x x' : Context Transcript), o.contexts[c]? = some x → o.contexts[c']? = some x' →
    x.key = x'.key → c = c'

theorem Calm.unused {key : Transcript} (h : Calm o o') (hu : Unused key o) : Unused key o' := by
  unfold Unused
  rw [h.contexts]
  exact hu

/-- A key stays unused while the owner binds nothing. -/
theorem unused_step {key : Transcript} (hst : Steady cfg o) (h : Unused key o)
    (hbind : o'.binding = none ∨ ∀ k, o.threads owner ≠ .holdWriter (.bind k))
    (hs : Step cfg o o') :
    Unused key o' := by
  intro c x hx
  rcases context_cases hs hx with ⟨x₀, hx₀, hkey⟩ | ⟨t, ht, hc⟩
  · rw [← hkey]
    exact h c x₀ hx₀
  · obtain rfl := bind_owner hst ht
    rcases hbind with hnone | hne
    · have hlt := (List.getElem?_eq_some_iff.mp hx).1
      rcases length_step hs with hlen | ⟨-, hsome⟩
      · omega
      · rw [hnone] at hsome
        cases hsome
    · exact absurd ht (hne _)

/-- The owner binds a fresh key. -/
theorem single_step (hst : Steady cfg o) (h : Single o)
    (hbind : ∀ key, o.threads owner = .holdWriter (.bind key) → Unused key o) (hs : Step cfg o o') :
    Single o' := by
  intro c c' x x' hx hx' heq
  have hfresh : ∀ {t : ℕ} {key : Transcript}, o.threads t = .holdWriter (.bind key) →
      Unused key o := by
    intro t key ht
    obtain rfl := bind_owner hst ht
    exact hbind key ht
  rcases context_cases hs hx with ⟨x₀, hx₀, hkey⟩ | ⟨t, ht, hc⟩
  · rcases context_cases hs hx' with ⟨x₁, hx₁, hkey'⟩ | ⟨t', ht', hc'⟩
    · exact h c c' x₀ x₁ hx₀ hx₁ (by rw [hkey, hkey', heq])
    · exact absurd (hkey.trans heq) (hfresh ht' c x₀ hx₀)
  · rcases context_cases hs hx' with ⟨x₁, hx₁, hkey'⟩ | ⟨t', ht', hc'⟩
    · exact absurd (hkey'.trans heq.symm) (hfresh ht c' x₁ hx₁)
    · rw [hc, hc']

end ArkWire.Transport.Company
