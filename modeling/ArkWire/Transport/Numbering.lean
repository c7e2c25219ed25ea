import ArkWire.Transport.Isolation

/-! # Every sequence number is accounted for

A sender takes the writer lock before it releases the encryption lock of its context. So of the
packets of one context that are sealed and not resolved, at most one is with the thread that holds
the writer lock and at most one more waits for it, and the former was sealed first. `Load` is what
the thread with the writer lock carries; `Counts` accounts for every sequence number handed out. -/

namespace ArkWire.Transport.Numbering

open ArkWire.Lib.Machines ArkWire.Lib.Locks ArkWire.Lib.Histories
open ArkWire.Transport.Errors ArkWire.Transport.FrameReader ArkWire.Transport.FrameWriter
open ArkWire.Transport.Outbound ArkWire.Transport.OutboundSteps ArkWire.Transport.Isolation

variable {K : Type} {cfg : Config K} {s s' : State K}

/-! ### What the log says of a context -/

/-- What became of a sealed packet. -/
inductive Fate where
  | sent
  | failed
  | refused
  deriving DecidableEq

/-- The packet an event resolves. -/
def resolves : Event → Option (Packet × Fate)
  | .sent p => some (p, .sent)
  | .failed p => some (p, .failed)
  | .refused p => some (p, .refused)
  | _ => none

/-- The packet whose frame an event puts on the stream. -/
def writes : Event → Option Packet
  | .wrote (.packet p) _ => some p
  | _ => none

/-- The packet an event seals. -/
def seals : Event → Option Packet
  | .sealed p _ => some p
  | _ => none

/-- The resolved packets of a context, in order. -/
def resolved (c : ℕ) (log : List Event) : List (Packet × Fate) :=
  (log.filterMap resolves).filter (·.1.context = c)

/-- The written packets of a context, in order. -/
def written (c : ℕ) (log : List Event) : List Packet :=
  (log.filterMap writes).filter (·.context = c)

/-- The sealed packets of a context, in order. -/
def sealed (c : ℕ) (log : List Event) : List Packet :=
  (log.filterMap seals).filter (·.context = c)

/-- Every resolved packet of the context was sent. -/
def Unbroken (c : ℕ) (log : List Event) : Prop := ∀ f ∈ resolved c log, f.2 = .sent

/-- The packet is the next of its context to be resolved, and none before it was lost. -/
structure Next (p : Packet) (log : List Event) : Prop where
  seq : p.seq = (resolved p.context log).length
  unbroken : Unbroken p.context log
  sealed : ∃ message, .sealed p message ∈ log

/-- **When an event may follow**: packets are resolved in the order of their numbers, and written
only while none was lost. -/
def InOrder (log : List Event) : Event → Prop
  | .sealed p _ => p.seq = (sealed p.context log).length
  | .wrote (.packet p) _ => Next p log ∧ (written p.context log).length = p.seq
  | .sent p => Next p log ∧ (written p.context log).length = p.seq + 1
  | .failed p => Next p log ∧ (written p.context log).length = p.seq + 1
  | .refused p => p.seq = (resolved p.context log).length
  | _ => True

/-- Events that say nothing of packets. -/
def Plain (e : Event) : Prop := resolves e = none ∧ writes e = none ∧ seals e = none

section Append

variable (c : ℕ) (log : List Event)

theorem resolved_append (e : Event) : resolved c (log ++ [e]) =
    resolved c log ++ ((resolves e).toList.filter (·.1.context = c)) := by
  rw [resolved, List.filterMap_append, List.filter_append, resolved]
  cases h : resolves e <;> simp [h]

theorem written_append (e : Event) : written c (log ++ [e]) =
    written c log ++ ((writes e).toList.filter (·.context = c)) := by
  rw [written, List.filterMap_append, List.filter_append, written]
  cases h : writes e <;> simp [h]

theorem sealed_append (e : Event) : sealed c (log ++ [e]) =
    sealed c log ++ ((seals e).toList.filter (·.context = c)) := by
  rw [sealed, List.filterMap_append, List.filter_append, sealed]
  cases h : seals e <;> simp [h]

end Append

/-! ### The packet at the writer -/

/-- What a thread with the writer lock carries. -/
inductive Load where
  | nothing
  /-- A packet not written yet. -/
  | carrying (p : Packet)
  | writing (p : Packet)
  /-- The write of the packet failed, and its session is about to be ended. -/
  | failed (p : Packet)
  deriving DecidableEq

def load : Pc K → Load
  | .unlockContext p => .carrying p
  | .check p => .carrying p
  | .output (.packet p) _ => .carrying p
  | .returning (.packet p) _ _ => .writing p
  | .failed p _ _ => .failed p
  | _ => .nothing

/-- The load of the thread that holds the writer lock. -/
def atWriter (s : State K) : Load := s.writer.elim .nothing fun t => load (s.threads t)

/-- The unresolved packet at the writer. -/
def Load.packet : Load → Option Packet
  | .carrying p => some p
  | .writing p => some p
  | _ => none

/-- How many packets of a context are at the writer. -/
def Load.holds (l : Load) (c : ℕ) : ℕ := if l.packet.map (·.context) = some c then 1 else 0

/-- How many packets of a context are being written. -/
def Load.writes (l : Load) (c : ℕ) : ℕ :=
  match l with
  | .writing p => if p.context = c then 1 else 0
  | _ => 0

/-- Whether a thread waits for the writer lock with a sealed packet. -/
def waits : Pc K → Bool
  | .lockWriter _ => true
  | _ => false

/-- How many packets of a context wait for the writer lock. -/
def waiting (s : State K) (x : Context K) : ℕ := (x.holder.any fun t => waits (s.threads t)).toNat

/-- **Every sequence number is accounted for.** -/
structure Counts (s : State K) : Prop where
  seq : ∀ c x, s.contexts[c]? = some x →
    x.seq = (resolved c s.log).length + (atWriter s).holds c + waiting s x
  sealed : ∀ c x, s.contexts[c]? = some x → (sealed c s.log).length = x.seq
  fresh : ∀ c, s.contexts.length ≤ c → resolved c s.log = [] ∧ Numbering.sealed c s.log = []
  queued : ∀ t p, s.threads t = .lockWriter p →
    (∃ x, s.contexts[p.context]? = some x ∧ x.seq = p.seq + 1) ∧
    ∃ message, .sealed p message ∈ s.log
  turn : ∀ p, (atWriter s).packet = some p → p.seq = (resolved p.context s.log).length ∧
    ∃ message, .sealed p message ∈ s.log
  writing : ∀ p, atWriter s = .writing p → Unbroken p.context s.log
  bound : ∀ c, s.binding = some c → Unbroken c s.log ∨ ∃ p, atWriter s = .failed p ∧ p.context = c
  written : ∀ c, Unbroken c s.log →
    (written c s.log).length = (resolved c s.log).length + (atWriter s).writes c
  legal : Legal InOrder s.log

theorem counts_init (framer : Writer) : Counts ({ framer } : State K) where
  seq c x hx := by cases hx
  sealed c x hx := by cases hx
  fresh c _ := ⟨rfl, rfl⟩
  queued t p h := by cases h
  turn p h := by cases h
  writing p h := by cases h
  bound c h := by cases h
  written c _ := rfl
  legal := .nil

/-! ### Steps that move no packet -/

section Plain

variable {log es : List Event}

theorem resolved_plain (h : ∀ e ∈ es, Plain e) (c : ℕ) :
    resolved c (log ++ es) = resolved c log := by
  have hnil : es.filterMap resolves = [] := List.filterMap_eq_nil_iff.mpr fun e he => (h e he).1
  rw [resolved, List.filterMap_append, hnil, List.append_nil, resolved]

theorem written_plain (h : ∀ e ∈ es, Plain e) (c : ℕ) : written c (log ++ es) = written c log := by
  have hnil : es.filterMap writes = [] := List.filterMap_eq_nil_iff.mpr fun e he => (h e he).2.1
  rw [written, List.filterMap_append, hnil, List.append_nil, written]

theorem sealed_plain (h : ∀ e ∈ es, Plain e) (c : ℕ) : sealed c (log ++ es) = sealed c log := by
  have hnil : es.filterMap seals = [] := List.filterMap_eq_nil_iff.mpr fun e he => (h e he).2.2
  rw [sealed, List.filterMap_append, hnil, List.append_nil, sealed]

theorem inOrder_plain {e : Event} (h : Plain e) : InOrder log e := by
  obtain ⟨hr, hw, hs⟩ := h
  cases e with
  | sealed p message => cases hs
  | sent p => cases hr
  | failed p => cases hr
  | refused p => cases hr
  | wrote job bytes =>
    cases job with
    | packet p => cases hw
    | _ => trivial
  | _ => trivial

theorem legal_plain : ∀ {es log : List Event}, (∀ e ∈ es, Plain e) → Legal InOrder log →
    Legal InOrder (log ++ es)
  | [], log, _, hl => by rwa [List.append_nil]
  | e :: es, log, h, hl => by
    have hcons := legal_plain (fun e' he => h e' (List.mem_cons_of_mem e he))
      (hl.append (inOrder_plain (h e List.mem_cons_self)))
    simpa using hcons

end Plain

/-- A step that moves no packet. A context may be new, and the thread at the writer may end a
session whose write failed. -/
theorem Counts.frame (h : Counts s) {es : List Event} (hes : ∀ e ∈ es, Plain e)
    (hlog : s'.log = s.log ++ es) (hlen : s.contexts.length ≤ s'.contexts.length)
    (hctx : ∀ (c : ℕ) (x' : Context K), s'.contexts[c]? = some x' →
      (∃ x, s.contexts[c]? = some x ∧ x'.seq = x.seq ∧ waiting s' x' = waiting s x) ∨
        s.contexts.length ≤ c ∧ x'.seq = 0 ∧ waiting s' x' = 0 ∧ atWriter s' = .nothing)
    (hkeep : ∀ (c : ℕ) (x : Context K), s.contexts[c]? = some x →
      ∃ x' : Context K, s'.contexts[c]? = some x' ∧ x'.seq = x.seq)
    (hqueue : ∀ t p, s'.threads t = .lockWriter p → s.threads t = .lockWriter p)
    (hload : atWriter s' = atWriter s ∨ atWriter s' = .nothing ∧ (atWriter s).packet = none)
    (hbound : ∀ c, s'.binding = some c →
      Unbroken c s.log ∨ ∃ p, atWriter s' = .failed p ∧ p.context = c) : Counts s' := by
  have hres : ∀ c, resolved c s'.log = resolved c s.log := fun c => by
    rw [hlog, resolved_plain hes]
  have hseal : ∀ c, Numbering.sealed c s'.log = Numbering.sealed c s.log := fun c => by
    rw [hlog, sealed_plain hes]
  have hunb : ∀ c, Unbroken c s'.log ↔ Unbroken c s.log := fun c => by
    rw [Unbroken, Unbroken, hres]
  have hmono : ∀ e, e ∈ s.log → e ∈ s'.log := fun e he => by
    rw [hlog, List.mem_append]
    exact .inl he
  have hpacket : (atWriter s').packet = (atWriter s).packet := by
    rcases hload with hload | ⟨hload, hnone⟩
    · rw [hload]
    · rw [hload, hnone]
      rfl
  have hwriting : ∀ p, atWriter s' = .writing p → atWriter s = .writing p := by
    intro p hp
    rcases hload with hload | ⟨hload, -⟩
    · rw [← hload, hp]
    · rw [hload] at hp
      cases hp
  have hwrites : ∀ c, (atWriter s').writes c = (atWriter s).writes c := by
    intro c
    rcases hload with hload | ⟨hload, hnone⟩
    · rw [hload]
    · rw [hload]
      cases hl : atWriter s with
      | writing p =>
        rw [hl] at hnone
        cases hnone
      | _ => rfl
  refine ⟨fun c x' hx' => ?_, fun c x' hx' => ?_, fun c hc => ?_, fun t p ht => ?_, fun p hp => ?_,
    fun p hp => ?_, fun c hc => ?_, fun c hc => ?_, ?_⟩
  · rw [hres, Load.holds, hpacket, ← Load.holds]
    rcases hctx c x' hx' with ⟨x, hx, hseq, hwait⟩ | ⟨hc, hseq, hwait, hnothing⟩
    · rw [hseq, hwait]
      exact h.seq c x hx
    · have hnone : (atWriter s).packet = none := by
        rw [← hpacket, hnothing]
        rfl
      rw [hseq, hwait, (h.fresh c hc).1, Load.holds, hnone]
      rfl
  · rw [hseal]
    rcases hctx c x' hx' with ⟨x, hx, hseq, -⟩ | ⟨hc, hseq, -, -⟩
    · rw [hseq]
      exact h.sealed c x hx
    · rw [hseq, (h.fresh c hc).2]
      rfl
  · rw [hres, hseal]
    exact h.fresh c (hlen.trans hc)
  · obtain ⟨⟨x, hx, hseq⟩, message, hm⟩ := h.queued t p (hqueue t p ht)
    obtain ⟨x', hx', hseq'⟩ := hkeep _ x hx
    exact ⟨⟨x', hx', by rw [hseq', hseq]⟩, message, hmono _ hm⟩
  · rw [hpacket] at hp
    obtain ⟨hseq, message, hm⟩ := h.turn p hp
    exact ⟨by rw [hres, hseq], message, hmono _ hm⟩
  · rw [hunb]
    exact h.writing p (hwriting p hp)
  · rw [hunb]
    exact hbound c hc
  · rw [hunb] at hc
    rw [hres, hwrites, hlog, written_plain hes]
    exact h.written c hc
  · rw [hlog]
    exact legal_plain hes h.legal

section Moves

variable {t : ℕ} {pc : Pc K}

theorem atWriter_of_ne (hw : s'.writer = s.writer)
    (ht : s'.threads = Function.update s.threads t pc)
    (hne : s.writer ≠ some t) : atWriter s' = atWriter s := by
  unfold atWriter
  rw [hw, ht]
  cases hs : s.writer with
  | none => rfl
  | some u =>
    have hu : u ≠ t := by
      rintro rfl
      exact hne hs
    simp only [Option.elim_some]
    rw [Function.update_of_ne hu]

theorem atWriter_of_holder (hw : s.writer = some t) : atWriter s = load (s.threads t) := by
  rw [atWriter, hw]
  rfl

theorem atWriter_self (hw : s'.writer = some t)
    (ht : s'.threads = Function.update s.threads t pc) : atWriter s' = load pc := by
  rw [atWriter_of_holder hw, ht, Function.update_self]

theorem atWriter_goto (hw : s.writer = some t) (pc : Pc K) : atWriter (s.goto t pc) = load pc :=
  atWriter_self hw rfl

theorem atWriter_free (hw : s.writer = none) : atWriter s = .nothing := by
  rw [atWriter, hw]
  rfl

/-- The thread with the writer lock. -/
theorem writer_of_holds (hx : Exclusive s) {old : Pc K} (ht : s.threads t = old)
    (hold : holdsWriter old = true) : s.writer = some t := by
  refine (hx.writer t).mp ?_
  rw [ht]
  exact hold

theorem writer_ne_of_free (hx : Exclusive s) {old : Pc K} (ht : s.threads t = old)
    (hold : holdsWriter old = false) : s.writer ≠ some t := by
  intro hw
  have h : holdsWriter (s.threads t) = true := (hx.writer t).mpr hw
  rw [ht, hold] at h
  cases h

/-- A thread that carries no sealed packet to the writer lock moves. -/
theorem waiting_update (ht : s'.threads = Function.update s.threads t pc)
    (hwaits : waits pc = waits (s.threads t)) (x : Context K) : waiting s' x = waiting s x := by
  have hfun : (fun u => waits (s'.threads u)) = fun u => waits (s.threads u) := by
    funext u
    rw [ht]
    by_cases hu : u = t
    · rw [hu, Function.update_self, hwaits]
    · rw [Function.update_of_ne hu]
  rw [waiting, waiting, hfun]

theorem lockWriter_update (ht : s'.threads = Function.update s.threads t pc)
    (hpc : waits pc = false) {u : ℕ} {p : Packet} (hu : s'.threads u = .lockWriter p) :
    s.threads u = .lockWriter p := by
  rw [ht] at hu
  by_cases hut : u = t
  · rw [hut, Function.update_self] at hu
    rw [hu] at hpc
    cases hpc
  · rwa [Function.update_of_ne hut] at hu

theorem Counts.move (h : Counts s) {es : List Event} (hes : ∀ e ∈ es, Plain e)
    (hlog : s'.log = s.log ++ es) (hc : s'.contexts = s.contexts)
    (ht : s'.threads = Function.update s.threads t pc) (hpc : waits pc = false)
    (hold : waits (s.threads t) = false)
    (hload : atWriter s' = atWriter s ∨ atWriter s' = .nothing ∧ (atWriter s).packet = none)
    (hbound : ∀ c, s'.binding = some c →
      Unbroken c s.log ∨ ∃ p, atWriter s' = .failed p ∧ p.context = c) : Counts s' := by
  refine h.frame hes hlog (by rw [hc]) (fun c x' hx' => .inl ⟨x', ?_, rfl, ?_⟩)
    (fun c x hx => ⟨x, by rw [hc]; exact hx, rfl⟩) (fun u p hu => lockWriter_update ht hpc hu) hload
    hbound
  · rw [← hc]
    exact hx'
  · exact waiting_update ht (by rw [hpc, hold]) x'

/-- A thread that does not hold the writer lock moves, and the binding is kept. -/
theorem Counts.other (h : Counts s) (hx : Exclusive s) {old : Pc K} (hs : s.threads t = old)
    (hfree : holdsWriter old = false) {es : List Event} (hlog : s'.log = s.log ++ es)
    (hes : ∀ e ∈ es, Plain e) (hc : s'.contexts = s.contexts)
    (hb : s'.binding = s.binding) (hw : s'.writer = s.writer)
    (ht : s'.threads = Function.update s.threads t pc) (hpc : waits pc = false)
    (hold : waits old = false) : Counts s' := by
  have hload := atWriter_of_ne hw ht (writer_ne_of_free hx hs hfree)
  refine h.move hes hlog hc ht hpc (by rw [hs, hold]) (.inl hload) ?_
  rw [hb, hload]
  exact h.bound

/-- The thread with the writer lock moves with the same load, or with none, and keeps the
binding. -/
theorem Counts.keep (h : Counts s) (hx : Exclusive s) {old : Pc K} (hs : s.threads t = old)
    (hholds : holdsWriter old = true) (hlog : s'.log = s.log) (hc : s'.contexts = s.contexts)
    (hb : s'.binding = s.binding) (ht : s'.threads = Function.update s.threads t pc)
    (hpc : waits pc = false) (hold : waits old = false)
    (hload : atWriter s' = load old) : Counts s' := by
  have hs' : atWriter s' = atWriter s := by
    rw [hload, atWriter_of_holder (writer_of_holds hx hs hholds), hs]
  have hnil : s'.log = s.log ++ [] := by rw [hlog, List.append_nil]
  refine h.move (by simp) hnil hc ht hpc (by rw [hs, hold]) (.inl hs') ?_
  rw [hb, hs']
  exact h.bound

/-- The thread with the writer lock removes the binding. -/
theorem Counts.remove (h : Counts s) (hx : Exclusive s) {old : Pc K} (hs : s.threads t = old)
    (hholds : holdsWriter old = true) {es : List Event} (hlog : s'.log = s.log ++ es)
    (hes : ∀ e ∈ es, Plain e) (hc : s'.contexts = s.contexts)
    (hb : s'.binding = none) (ht : s'.threads = Function.update s.threads t pc)
    (hpc : waits pc = false) (hold : waits old = false) (hload : atWriter s' = .nothing)
    (hnone : (load old).packet = none) : Counts s' := by
  have hs' : (atWriter s).packet = none := by
    rw [atWriter_of_holder (writer_of_holds hx hs hholds), hs, hnone]
  refine h.move hes hlog hc ht hpc (by rw [hs, hold]) (.inr ⟨hload, hs'⟩) fun c hbc => ?_
  rw [hb] at hbc
  cases hbc

/-- Taking or releasing an encryption lock without a sealed packet. -/
theorem Counts.context (h : Counts s) {old : Pc K} (hs : s.threads t = old)
    {c : ℕ} {f : Context K → Context K} (hc : s'.contexts = s.contexts.modify c f)
    (hseq : ∀ x, (f x).seq = x.seq)
    (hwait : ∀ x, s.contexts[c]? = some x → waiting s' (f x) = waiting s x) {es : List Event}
    (hlog : s'.log = s.log ++ es) (hes : ∀ e ∈ es, Plain e) (hb : s'.binding = s.binding)
    (hw : s'.writer = s.writer) (ht : s'.threads = Function.update s.threads t pc)
    (hpc : waits pc = false) (hold : waits old = false) (hload : load pc = load old) :
    Counts s' := by
  have hatw : atWriter s' = atWriter s := by
    by_cases hne : s.writer = some t
    · rw [atWriter_self (hw.trans hne) ht, atWriter_of_holder hne, hs, hload]
    · exact atWriter_of_ne hw ht hne
  refine h.frame hes hlog (by rw [hc, List.length_modify]) ?_ ?_
    (fun u p hu => lockWriter_update ht hpc hu) (.inl hatw) (by rw [hb, hatw]; exact h.bound)
  · intro c' x' hx'
    rw [hc, List.getElem?_modify] at hx'
    obtain ⟨x, hxc, hxx⟩ := Option.map_eq_some_iff.mp hx'
    refine .inl ⟨x, hxc, ?_⟩
    by_cases hcc : c = c'
    · subst hcc
      rw [if_pos rfl] at hxx
      rw [← hxx]
      exact ⟨hseq x, hwait x hxc⟩
    · rw [if_neg hcc] at hxx
      have hxx' : x = x' := hxx
      rw [← hxx']
      exact ⟨rfl, waiting_update ht (by rw [hs, hpc, hold]) x⟩
  · intro c' x hxc
    refine ⟨if c = c' then f x else x, ?_, ?_⟩
    · rw [hc, List.getElem?_modify, hxc]
      rfl
    · split_ifs
      · exact hseq x
      · rfl

/-! ### Steps that move a packet -/

/-- The holder of another context's lock is another thread. -/
theorem waiting_other (hx : Exclusive s) {c c' : ℕ} {x : Context K} (hc : s.contexts[c']? = some x)
    (hne : c' ≠ c) (ht : s'.threads = Function.update s.threads t pc)
    (hown : ∀ c', holdsContext c' (s.threads t) = true → c' = c) : waiting s' x = waiting s x := by
  rw [waiting, waiting, ht]
  cases hh : x.holder with
  | none => rfl
  | some u =>
    have hu : u ≠ t := by
      rintro rfl
      exact hne (hown c' ((hx.context c' x hc u).mpr hh))
    simp only [Option.any_some]
    rw [Function.update_of_ne hu]

/-- The packet at the writer is resolved. -/
theorem Counts.resolve (h : Counts s) {p : Packet} {fate : Fate} {e : Event}
    (hlog : s'.log = s.log ++ [e]) (hr : resolves e = some (p, fate)) (hw : writes e = none)
    (hs : seals e = none) (hc : s'.contexts = s.contexts)
    (ht : s'.threads = Function.update s.threads t pc) (hpc : waits pc = false)
    (hold : waits (s.threads t) = false) (hp : (atWriter s).packet = some p)
    (hp' : (atWriter s').packet = none)
    (hbound : ∀ c, s'.binding = some c → Unbroken c s'.log ∨ ∃ p, atWriter s' = .failed p ∧
      p.context = c)
    (hwritten : Unbroken p.context s'.log →
      (Numbering.written p.context s.log).length = (resolved p.context s.log).length + 1)
    (hlegal : InOrder s.log e) : Counts s' := by
  have hself : resolved p.context s'.log = resolved p.context s.log ++ [(p, fate)] := by
    rw [hlog, resolved_append, hr]
    simp
  have hother : ∀ c, c ≠ p.context → resolved c s'.log = resolved c s.log := by
    intro c hne
    rw [hlog, resolved_append, hr]
    simp [Ne.symm hne]
  have hseal : ∀ c, Numbering.sealed c s'.log = Numbering.sealed c s.log := by
    intro c
    rw [hlog, sealed_append, hs]
    simp
  have hwrit : ∀ c, Numbering.written c s'.log = Numbering.written c s.log := by
    intro c
    rw [hlog, written_append, hw]
    simp
  have hmono : ∀ e', e' ∈ s.log → e' ∈ s'.log := fun e' he => by
    rw [hlog, List.mem_append]
    exact .inl he
  have hwait : ∀ x, waiting s' x = waiting s x := waiting_update ht (by rw [hpc, hold])
  have hnot : ∀ q, atWriter s' ≠ .writing q := by
    intro q hq
    rw [hq] at hp'
    cases hp'
  have hwrites : ∀ c, (atWriter s').writes c = 0 := by
    intro c
    cases hl : atWriter s' with
    | writing q => exact absurd hl (hnot q)
    | _ => rfl
  refine ⟨fun c x hx => ?_, fun c x hx => ?_, fun c hlen => ?_, fun u q hu => ?_, fun q hq => ?_,
    fun q hq => absurd hq (hnot q), hbound, fun c hu => ?_, ?_⟩
  · rw [hc] at hx
    have hseq := h.seq c x hx
    rw [hwait, Load.holds, hp']
    rw [Load.holds, hp] at hseq
    by_cases hcc : c = p.context
    · subst hcc
      rw [hself, List.length_append, List.length_singleton]
      simp only [Option.map_some, if_true] at hseq
      simp only [Option.map_none, reduceCtorEq, if_false]
      omega
    · rw [hother c hcc]
      simp only [Option.map_some, Option.some.injEq, Ne.symm hcc, if_false] at hseq
      simp only [Option.map_none, reduceCtorEq, if_false]
      exact hseq
  · rw [hc] at hx
    rw [hseal]
    exact h.sealed c x hx
  · rw [hc] at hlen
    obtain ⟨hres, hsl⟩ := h.fresh c hlen
    rw [hseal]
    refine ⟨?_, hsl⟩
    by_cases hcc : c = p.context
    · -- the packet at the writer has a context
      subst hcc
      obtain ⟨-, message, hm⟩ := h.turn p hp
      have hmem : p ∈ Numbering.sealed p.context s.log := by
        rw [Numbering.sealed, List.mem_filter, List.mem_filterMap]
        exact ⟨⟨_, hm, rfl⟩, by simp⟩
      rw [hsl] at hmem
      cases hmem
    · rw [hother c hcc, hres]
  · obtain ⟨⟨x, hx, hseq⟩, message, hm⟩ := h.queued u q (lockWriter_update ht hpc hu)
    exact ⟨⟨x, by rw [hc]; exact hx, hseq⟩, message, hmono _ hm⟩
  · rw [hp'] at hq
    cases hq
  · rw [hwrit, hwrites]
    by_cases hcc : c = p.context
    · subst hcc
      rw [hself, List.length_append, List.length_singleton, hwritten hu]
    · have hu' : Unbroken c s.log := by
        rw [Unbroken, hother c hcc] at hu
        exact hu
      rw [hother c hcc, h.written c hu']
      cases hl : atWriter s with
      | writing q =>
        rw [hl] at hp
        cases hp
        simp [Load.writes, Ne.symm hcc]
      | _ => rfl
  · rw [hlog]
    exact h.legal.append hlegal

/-- A message is sealed under the encryption lock. -/
theorem Counts.sealing (h : Counts s) (hx : Exclusive s) {c : ℕ} {message bytes : Bytes}
    {x : Context K} (hs : s.threads t = .sealing c message) (hxc : s.contexts[c]? = some x) :
    Counts (((s.modify c ({ · with seq := x.seq + 1 })).logged
      (.sealed ⟨c, x.seq, bytes⟩ message)).goto t (.lockWriter ⟨c, x.seq, bytes⟩)) := by
  generalize hs' : (((s.modify c ({ · with seq := x.seq + 1 })).logged
    (.sealed ⟨c, x.seq, bytes⟩ message)).goto t (.lockWriter ⟨c, x.seq, bytes⟩)) = s'
  have hlog : s'.log = s.log ++ [.sealed ⟨c, x.seq, bytes⟩ message] := by rw [← hs']; rfl
  have hctx : s'.contexts = s.contexts.modify c ({ · with seq := x.seq + 1 }) := by rw [← hs']; rfl
  have ht : s'.threads = Function.update s.threads t (.lockWriter ⟨c, x.seq, bytes⟩) := by
    rw [← hs']
    rfl
  have hb : s'.binding = s.binding := by rw [← hs']; rfl
  have hw : s'.writer = s.writer := by rw [← hs']; rfl
  clear hs'
  have hload : atWriter s' = atWriter s :=
    atWriter_of_ne hw ht (writer_ne_of_free hx hs rfl)
  have hres : ∀ c, resolved c s'.log = resolved c s.log := by
    intro c
    rw [hlog, resolved_append]
    simp [resolves]
  have hwrit : ∀ c, Numbering.written c s'.log = Numbering.written c s.log := by
    intro c
    rw [hlog, written_append]
    simp [writes]
  have hown : ∀ c', holdsContext c' (s.threads t) = true → c' = c := by
    intro c' hold
    rw [hs] at hold
    simp only [holdsContext, decide_eq_true_eq] at hold
    exact hold.symm
  have hholder : x.holder = some t := by
    refine (hx.context c x hxc t).mp ?_
    rw [hs]
    simp [holdsContext]
  have hmono : ∀ e', e' ∈ s.log → e' ∈ s'.log := fun e' he => by
    rw [hlog, List.mem_append]
    exact .inl he
  have hunb : ∀ c, Unbroken c s'.log ↔ Unbroken c s.log := fun c => by
    rw [Unbroken, Unbroken, hres]
  have hlt : c < s.contexts.length := (List.getElem?_eq_some_iff.mp hxc).1
  have hself : Numbering.sealed c s'.log = Numbering.sealed c s.log ++ [⟨c, x.seq, bytes⟩] := by
    rw [hlog, sealed_append]
    simp [seals]
  have hother : ∀ c', c' ≠ c → Numbering.sealed c' s'.log = Numbering.sealed c' s.log := by
    intro c' hne
    rw [hlog, sealed_append]
    simp [seals, Ne.symm hne]
  have hget : ∀ {c' : ℕ} {x' : Context K}, s'.contexts[c']? = some x' →
      c' = c ∧ x' = { x with seq := x.seq + 1 } ∨ c' ≠ c ∧ s.contexts[c']? = some x' := by
    intro c' x' hx'
    rw [hctx] at hx'
    by_cases hcc : c' = c
    · rw [hcc, List.getElem?_modify_eq, hxc] at hx'
      exact .inl ⟨hcc, (Option.some.inj hx').symm⟩
    · rw [List.getElem?_modify_ne _ _ (Ne.symm hcc)] at hx'
      exact .inr ⟨hcc, hx'⟩
  refine ⟨fun c' x' hx' => ?_, fun c' x' hx' => ?_, fun c' hlen => ?_, fun u q hu => ?_,
    fun q hq => ?_, fun q hq => ?_, fun c' hbc => ?_, fun c' hu => ?_, ?_⟩
  · rw [hload, hres]
    rcases hget hx' with ⟨rfl, rfl⟩ | ⟨hne, hxc'⟩
    · have hseq := h.seq c' x hxc
      have hzero : waiting s x = 0 := by
        rw [waiting, hholder, Option.any_some, hs]
        rfl
      have hone : waiting s' { x with seq := x.seq + 1 } = 1 := by
        rw [waiting, ht]
        simp only [hholder, Option.any_some]
        rw [Function.update_self]
        rfl
      rw [hone]
      show x.seq + 1 = _
      omega
    · rw [waiting_other hx hxc' hne ht hown]
      exact h.seq c' x' hxc'
  · rcases hget hx' with ⟨rfl, rfl⟩ | ⟨hne, hxc'⟩
    · rw [hself, List.length_append, List.length_singleton, h.sealed c' x hxc]
    · rw [hother c' hne]
      exact h.sealed c' x' hxc'
  · rw [hctx, List.length_modify] at hlen
    rw [hres, hother c' (by omega)]
    exact h.fresh c' hlen
  · rw [ht] at hu
    by_cases hut : u = t
    · rw [hut, Function.update_self] at hu
      cases hu
      refine ⟨⟨{ x with seq := x.seq + 1 }, ?_, rfl⟩, message, ?_⟩
      · rw [hctx, List.getElem?_modify_eq, hxc]
        rfl
      · rw [hlog]
        simp
    · rw [Function.update_of_ne hut] at hu
      obtain ⟨⟨x', hx', hseq⟩, m, hm⟩ := h.queued u q hu
      refine ⟨⟨x', ?_, hseq⟩, m, hmono _ hm⟩
      have hne : c ≠ q.context := by
        intro hcq
        refine hut ((hx.context c x hxc).unique ?_ ?_)
        · rw [hs]
          simp [holdsContext]
        · rw [hu]
          simp [holdsContext, hcq]
      rw [hctx, List.getElem?_modify_ne _ _ hne]
      exact hx'
  · rw [hload] at hq
    obtain ⟨hseq, m, hm⟩ := h.turn q hq
    exact ⟨by rw [hres, hseq], m, hmono _ hm⟩
  · rw [hload] at hq
    rw [hunb]
    exact h.writing q hq
  · rw [hb] at hbc
    rw [hunb, hload]
    exact h.bound c' hbc
  · rw [hunb] at hu
    rw [hwrit, hres, hload]
    exact h.written c' hu
  · rw [hlog]
    refine h.legal.append ?_
    show x.seq = (Numbering.sealed c s.log).length
    rw [h.sealed c x hxc]

/-- A sealed packet gets the writer lock: those before it were resolved. -/
theorem Counts.lockWriter (h : Counts s) (hx : Exclusive s) {p : Packet}
    (hs : s.threads t = .lockWriter p) (hfree : s.writer = none) :
    Counts ({ s with writer := some t }.goto t (.unlockContext p)) := by
  generalize hs' : { s with writer := some t }.goto t (.unlockContext p) = s'
  have hlog : s'.log = s.log := by rw [← hs']; rfl
  have hc : s'.contexts = s.contexts := by rw [← hs']; rfl
  have ht : s'.threads = Function.update s.threads t (.unlockContext p) := by rw [← hs']; rfl
  have hb : s'.binding = s.binding := by rw [← hs']; rfl
  have hload : atWriter s' = .carrying p := by
    have hw : s'.writer = some t := by rw [← hs']; rfl
    rw [atWriter_self hw ht]
    rfl
  clear hs'
  have hnone := atWriter_free hfree
  obtain ⟨⟨x, hxc, hseq⟩, message, hm⟩ := h.queued t p hs
  have hcount := h.seq p.context x hxc
  have hone : waiting s x = 1 := by
    have hholder : x.holder = some t := by
      refine (hx.context p.context x hxc t).mp ?_
      rw [hs]
      simp [holdsContext]
    rw [waiting, hholder, Option.any_some, hs]
    rfl
  have hnext : p.seq = (resolved p.context s.log).length := by
    rw [hone, hnone] at hcount
    have hzero : Load.nothing.holds p.context = 0 := rfl
    omega
  have hown : ∀ c', holdsContext c' (s.threads t) = true → c' = p.context := by
    intro c' hold
    rw [hs] at hold
    simp only [holdsContext, decide_eq_true_eq] at hold
    exact hold.symm
  refine ⟨fun c x' hx' => ?_, ?_, ?_, fun u q hu => ?_, fun q hq => ?_, fun q hq => ?_,
    fun c hbc => ?_, fun c hu => ?_, by rw [hlog]; exact h.legal⟩
  · rw [hc] at hx'
    rw [hlog, hload]
    by_cases hcc : c = p.context
    · subst hcc
      rw [hxc, Option.some.injEq] at hx'
      subst hx'
      have hholder : x.holder = some t := by
        refine (hx.context p.context x hxc t).mp ?_
        rw [hs]
        simp [holdsContext]
      have hzero : waiting s' x = 0 := by
        rw [waiting, ht, hholder, Option.any_some, Function.update_self]
        rfl
      have hcarry : (Load.carrying p).holds p.context = 1 := by simp [Load.holds, Load.packet]
      rw [hzero, hcarry]
      omega
    · have hseq' := h.seq c x' hx'
      rw [waiting_other hx hx' hcc ht hown]
      have hzero : (Load.carrying p).holds c = 0 := by
        simp [Load.holds, Load.packet, Ne.symm hcc]
      rw [hnone] at hseq'
      rw [hzero]
      exact hseq'
  · rw [hc, hlog]
    exact h.sealed
  · rw [hc, hlog]
    exact h.fresh
  · rw [hc, hlog]
    exact h.queued u q (lockWriter_update ht rfl hu)
  · rw [hload] at hq
    cases hq
    rw [hlog]
    exact ⟨hnext, message, hm⟩
  · rw [hload] at hq
    cases hq
  · rw [hb] at hbc
    rw [hlog]
    rcases h.bound c hbc with hu | ⟨q, hq, -⟩
    · exact .inl hu
    · rw [hnone] at hq
      cases hq
  · rw [hlog] at hu ⊢
    have hwr := h.written c hu
    rw [hnone] at hwr
    rw [hload]
    exact hwr

/-- The packet at the writer is written: its session is still bound. -/
theorem Counts.output (h : Counts s) (hx : Exclusive s) {p : Packet} {limit : Option ℕ}
    {deadline : ℕ} {o : Output} (hs : s.threads t = .output (.packet p) limit)
    (hbind : s.binding = some p.context) : Counts (s.output cfg t (.packet p) deadline o) := by
  generalize hs' : s.output cfg t (.packet p) deadline o = s'
  obtain ⟨bytes, hlog⟩ : ∃ bytes, s'.log = s.log ++ [.wrote (.packet p) bytes] := by
    rw [← hs']
    exact ⟨_, rfl⟩
  obtain ⟨result, ht⟩ : ∃ result, s'.threads =
      Function.update s.threads t (.returning (.packet p) deadline result) := by
    rw [← hs']
    exact ⟨_, rfl⟩
  have hc : s'.contexts = s.contexts := by rw [← hs']; rfl
  have hb : s'.binding = s.binding := by rw [← hs']; rfl
  have hw : s'.writer = s.writer := by rw [← hs']; rfl
  clear hs'
  have hholder := writer_of_holds hx hs rfl
  have hold : atWriter s = .carrying p := by
    rw [atWriter_of_holder hholder, hs]
    rfl
  have hload : atWriter s' = .writing p := by
    rw [atWriter_self (hw.trans hholder) ht]
    rfl
  have hunbroken : Unbroken p.context s.log := by
    rcases h.bound _ hbind with hu | ⟨q, hq, -⟩
    · exact hu
    · rw [hold] at hq
      cases hq
  have hres : ∀ c, resolved c s'.log = resolved c s.log := by
    intro c
    rw [hlog, resolved_append]
    simp [resolves]
  have hseal : ∀ c, Numbering.sealed c s'.log = Numbering.sealed c s.log := by
    intro c
    rw [hlog, sealed_append]
    simp [seals]
  have hunb : ∀ c, Unbroken c s'.log ↔ Unbroken c s.log := fun c => by
    rw [Unbroken, Unbroken, hres]
  have hmono : ∀ e', e' ∈ s.log → e' ∈ s'.log := fun e' he => by
    rw [hlog, List.mem_append]
    exact .inl he
  have hwaits : ∀ x, waiting s' x = waiting s x := by
    refine waiting_update ht ?_
    rw [hs]
    rfl
  obtain ⟨hnext, message, hm⟩ := h.turn p (by rw [hold]; rfl)
  have hcount := h.written p.context hunbroken
  refine ⟨fun c x hxc => ?_, ?_, ?_, fun u q hu => ?_, fun q hq => ?_, fun q hq => ?_,
    fun c hbc => ?_, fun c hu => ?_, ?_⟩
  · rw [hc] at hxc
    rw [hres, hwaits, hload]
    have hseq := h.seq c x hxc
    rw [hold] at hseq
    exact hseq
  · intro c x hxc
    rw [hc] at hxc
    rw [hseal]
    exact h.sealed c x hxc
  · intro c hlen
    rw [hc] at hlen
    rw [hres, hseal]
    exact h.fresh c hlen
  · obtain ⟨⟨x, hxc, hseq⟩, m, hm⟩ := h.queued u q (lockWriter_update ht rfl hu)
    exact ⟨⟨x, by rw [hc]; exact hxc, hseq⟩, m, hmono _ hm⟩
  · rw [hload] at hq
    cases hq
    exact ⟨by rw [hres]; exact hnext, message, hmono _ hm⟩
  · rw [hload] at hq
    cases hq
    rw [hunb]
    exact hunbroken
  · rw [hb] at hbc
    rw [hunb]
    rcases h.bound c hbc with hu | ⟨q, hq, -⟩
    · exact .inl hu
    · rw [hold] at hq
      cases hq
  · rw [hunb] at hu
    have hwr := h.written c hu
    rw [hold] at hwr
    rw [hres, hload, hlog, written_append, List.length_append, hwr]
    by_cases hcc : p.context = c
    · simp [writes, Load.writes, hcc]
    · simp [writes, Load.writes, hcc]
  · rw [hlog]
    refine h.legal.append ⟨⟨hnext, hunbroken, message, hm⟩, ?_⟩
    rw [hcount, hold, hnext]
    rfl

end Moves

/-! ### All steps -/

theorem plain_mem {e : Event} (h : Plain e) : ∀ e' ∈ [e], Plain e' := by
  intro e' he
  rw [List.mem_singleton.mp he]
  exact h

theorem load_output {job : Job} (h : session job = none) (limit : Option ℕ) :
    load (.output job limit : Pc K) = .nothing := by
  cases job with
  | packet p => simp [session] at h
  | _ => rfl

theorem unbroken_resolved {c : ℕ} {log : List Event} {e : Event} {p : Packet} {fate : Fate}
    (hr : resolves e = some (p, fate)) (hne : c ≠ p.context) :
    Unbroken c (log ++ [e]) ↔ Unbroken c log := by
  have hres : resolved c (log ++ [e]) = resolved c log := by
    rw [resolved_append, hr]
    simp [Ne.symm hne]
  rw [Unbroken, Unbroken, hres]

theorem not_unbroken {log : List Event} {e : Event} {p : Packet} {fate : Fate}
    (hr : resolves e = some (p, fate)) (hf : fate ≠ .sent) : ¬ Unbroken p.context (log ++ [e]) := by
  intro hu
  refine hf (hu (p, fate) ?_)
  rw [resolved_append, hr]
  simp

theorem counts_bind (h : Counts s) (hx : Exclusive s) {t : ℕ} {key : K} {value : Value}
    (hs : s.threads t = .holdWriter (.bind key)) : Counts ((s.bind key).unlock t value) := by
  generalize hs' : (s.bind key).unlock t value = s'
  have hctx : s'.contexts = s.contexts ++ [⟨key, 0, none⟩] := by rw [← hs']; rfl
  have hb : s'.binding = some s.contexts.length := by rw [← hs']; rfl
  have hw : s'.writer = none := by rw [← hs']; rfl
  obtain ⟨es, hlog, hes⟩ : ∃ es, s'.log = s.log ++ es ∧ ∀ e ∈ es, Plain e := by
    rw [← hs']
    cases hbd : s.binding with
    | none =>
      refine ⟨[.bound s.contexts.length], ?_, plain_mem ⟨rfl, rfl, rfl⟩⟩
      show (s.bind key).log = _
      rw [State.bind, remove_of_unbound hbd]
      rfl
    | some c =>
      refine ⟨[.removed c .replaced] ++ [.bound s.contexts.length], ?_, ?_⟩
      · show (s.bind key).log = _
        rw [State.bind, remove_of_bound hbd, ← List.append_assoc]
        rfl
      · rw [List.forall_mem_append]
        exact ⟨plain_mem ⟨rfl, rfl, rfl⟩, plain_mem ⟨rfl, rfl, rfl⟩⟩
  have ht : s'.threads = Function.update s.threads t (.idle value) := by
    rw [← hs']
    show Function.update (s.bind key).threads t _ = _
    unfold State.bind State.remove
    cases s.binding <;> rfl
  clear hs'
  have hload : atWriter s' = .nothing := atWriter_free hw
  have hold : atWriter s = .nothing := by
    rw [atWriter_of_holder (writer_of_holds hx hs rfl), hs]
    rfl
  have hwaits : ∀ x, waiting s' x = waiting s x := by
    refine waiting_update ht ?_
    rw [hs]
    rfl
  refine h.frame hes hlog ?_ ?_ ?_ (fun u p hu => lockWriter_update ht rfl hu)
    (.inl (by rw [hload, hold])) ?_
  · rw [hctx, List.length_append]
    omega
  · intro c x' hx'
    rw [hctx] at hx'
    rcases Nat.lt_or_ge c s.contexts.length with hlt | hge
    · rw [List.getElem?_append_left hlt] at hx'
      exact .inl ⟨x', hx', rfl, hwaits x'⟩
    · rw [List.getElem?_append_right hge] at hx'
      have hx0 : x' = ⟨key, 0, none⟩ := by
        cases hc0 : c - s.contexts.length with
        | zero => rw [hc0] at hx'; simpa using hx'.symm
        | succ n => rw [hc0] at hx'; simp at hx'
      rw [hx0]
      exact .inr ⟨hge, rfl, rfl, hload⟩
  · intro c x hxc
    refine ⟨x, ?_, rfl⟩
    have hlt := (List.getElem?_eq_some_iff.mp hxc).1
    rw [hctx, List.getElem?_append_left hlt]
    exact hxc
  · intro c hbc
    rw [hb, Option.some.injEq] at hbc
    subst hbc
    refine .inl ?_
    rw [Unbroken, (h.fresh _ le_rfl).1]
    simp

/-- Who holds an encryption lock says whether its context has a packet on the way to the writer. -/
theorem waiting_of_holds (hx : Exclusive s) {t c : ℕ} {x : Context K} {old : Pc K}
    (hxc : s.contexts[c]? = some x) (hs : s.threads t = old) (hold : holdsContext c old = true)
    (hwaits : waits old = false) : waiting s x = 0 := by
  have hholder : x.holder = some t := by
    refine (hx.context c x hxc t).mp ?_
    rw [hs]
    exact hold
  rw [waiting, hholder, Option.any_some, hs, hwaits]
  rfl

/-- The sessions besides that of a resolved packet are bound and unbroken as before. -/
theorem Counts.bound_other (h : Counts s) {p : Packet} {fate : Fate} {e : Event} {c : ℕ}
    (hnone : ∀ q, atWriter s ≠ .failed q) (hr : resolves e = some (p, fate))
    (hbc : s.binding = some c) (hne : c ≠ p.context) : Unbroken c (s.log ++ [e]) := by
  rcases h.bound c hbc with hu | ⟨q, hq, -⟩
  · exact (unbroken_resolved hr hne).mpr hu
  · exact absurd hq (hnone q)

/-- The packet that is being written is the next one of its session, and the last one written. -/
theorem Counts.current (h : Counts s) {p : Packet} (hold : atWriter s = .writing p) :
    Next p s.log ∧ (Numbering.written p.context s.log).length =
      (resolved p.context s.log).length + 1 := by
  obtain ⟨hnext, hsealed⟩ := h.turn p (by rw [hold]; rfl)
  have hunb := h.writing p hold
  have hcount := h.written p.context hunb
  have hone : (Load.writing p).writes p.context = 1 := by simp [Load.writes]
  rw [hold, hone] at hcount
  exact ⟨⟨hnext, hunb, hsealed⟩, hcount⟩

/-- The packet at the writer is refused: its session is not bound any more. -/
theorem counts_refused (h : Counts s) (hx : Exclusive s) {t : ℕ} {p : Packet} {value : Value}
    (hs : s.threads t = .check p) (hb : s.binding ≠ some p.context) :
    Counts ((s.logged (.refused p)).unlock t value) := by
  have hold : atWriter s = .carrying p := by
    rw [atWriter_of_holder (writer_of_holds hx hs rfl), hs]
    rfl
  obtain ⟨hnext, -⟩ := h.turn p (by rw [hold]; rfl)
  refine h.resolve (e := .refused p) rfl rfl rfl rfl rfl rfl rfl (by rw [hs]; rfl)
    (by rw [hold]; rfl) rfl (fun c hbc => .inl ?_)
    (fun hu => absurd hu (not_unbroken rfl (by decide))) hnext
  refine h.bound_other (by simp [hold]) rfl hbc ?_
  rintro rfl
  exact hb hbc

/-- `Outbound::end` finds another binding, after a failed write. -/
theorem counts_outlived (h : Counts s) (hx : Exclusive s) {t deadline : ℕ} {p : Packet}
    {error : TransportError} {value : Value} (hs : s.threads t = .failed p deadline error)
    (hb : s.binding ≠ some p.context) : Counts (s.unlock t value) := by
  have hold : atWriter s = .failed p := by
    rw [atWriter_of_holder (writer_of_holds hx hs rfl), hs]
    rfl
  refine h.move (by simp) (List.append_nil _).symm rfl rfl rfl (by rw [hs]; rfl)
    (.inr ⟨rfl, by rw [hold]; rfl⟩) fun c hbc => ?_
  rcases h.bound c hbc with hu | ⟨q, hq, hqc⟩
  · exact .inl hu
  · rw [hold] at hq
    cases hq
    rw [← hqc] at hbc
    exact absurd hbc hb

/-- What is written besides packets. -/
theorem counts_output (h : Counts s) (hx : Exclusive s) {t deadline : ℕ} {job : Job}
    {limit : Option ℕ} {o : Output} (hs : s.threads t = .output job limit)
    (hjob : ∀ p, job ≠ .packet p) : Counts (s.output cfg t job deadline o) := by
  have hw := writer_of_holds hx hs rfl
  have hplain : ∀ bytes, Plain (.wrote job bytes) := by
    intro bytes
    cases job with
    | packet p => exact absurd rfl (hjob p)
    | _ => exact ⟨rfl, rfl, rfl⟩
  have hnone : ∀ result, load (.returning job deadline result : Pc K) = .nothing ∧
      load (.output job limit : Pc K) = .nothing := by
    intro result
    cases job with
    | packet p => exact absurd rfl (hjob p)
    | _ => exact ⟨rfl, rfl⟩
  have hload : atWriter (s.output cfg t job deadline o) = atWriter s := by
    rw [atWriter_of_holder hw, hs, (hnone none).2]
    have hw' : (s.output cfg t job deadline o).writer = some t := hw
    exact (atWriter_self (s := s) hw' rfl).trans (hnone _).1
  refine h.move (plain_mem (hplain _)) rfl rfl rfl rfl (by rw [hs]; rfl) (.inl hload) ?_
  rw [hload]
  exact h.bound

/-- A packet is written whole. -/
theorem counts_sent (h : Counts s) (hx : Exclusive s) {t deadline : ℕ} {p : Packet} {value : Value}
    (hs : s.threads t = .returning (.packet p) deadline (some (.ok ()))) :
    Counts ((s.logged (.sent p)).unlock t value) := by
  have hold : atWriter s = .writing p := by
    rw [atWriter_of_holder (writer_of_holds hx hs rfl), hs]
    rfl
  obtain ⟨hnext, hcount⟩ := h.current hold
  refine h.resolve (e := .sent p) rfl rfl rfl rfl rfl rfl rfl (by rw [hs]; rfl)
    (by rw [hold]; rfl) rfl (fun c hbc => .inl ?_) (fun _ => hcount)
    ⟨hnext, by rw [hcount, hnext.seq]⟩
  by_cases hcc : c = p.context
  · subst hcc
    intro f hf
    change f ∈ resolved p.context (s.log ++ [.sent p]) at hf
    rw [resolved_append, List.mem_append] at hf
    rcases hf with hf | hf
    · exact hnext.unbroken f hf
    · simp only [resolves, Option.toList_some] at hf
      rw [List.mem_singleton.mp (List.mem_of_mem_filter hf)]
  · exact h.bound_other (by simp [hold]) rfl hbc hcc

/-- The write of a packet fails. -/
theorem counts_failed (h : Counts s) (hx : Exclusive s) {t deadline : ℕ} {p : Packet}
    {error : TransportError}
    (hs : s.threads t = .returning (.packet p) deadline (some (.error error))) :
    Counts ((s.logged (.failed p)).goto t (.failed p deadline error)) := by
  have hw := writer_of_holds hx hs rfl
  have hold : atWriter s = .writing p := by
    rw [atWriter_of_holder hw, hs]
    rfl
  have hload : atWriter ((s.logged (.failed p)).goto t (.failed p deadline error)) = .failed p :=
    atWriter_goto (s := s.logged (.failed p)) hw _
  obtain ⟨hnext, hcount⟩ := h.current hold
  refine h.resolve (e := .failed p) rfl rfl rfl rfl rfl rfl rfl (by rw [hs]; rfl)
    (by rw [hold]; rfl) (by rw [hload]; rfl) (fun c hbc => ?_) (fun _ => hcount)
    ⟨hnext, by rw [hcount, hnext.seq]⟩
  by_cases hcc : c = p.context
  · exact .inr ⟨p, hload, hcc.symm⟩
  · exact .inl (h.bound_other (by simp [hold]) rfl hbc hcc)

theorem counts_step (hx : Exclusive s) (hi : Isolated s) (h : Counts s) (hs : Step cfg s s') :
    Counts s' := by
  cases hs with
  | beginSend ht hc =>
    exact h.other hx ht rfl (List.append_nil _).symm (by simp) rfl rfl rfl rfl rfl rfl
  | receive ht hb =>
    exact h.other hx ht rfl rfl (plain_mem ⟨rfl, rfl, rfl⟩) rfl rfl rfl rfl rfl rfl
  | beginLocked ht =>
    exact h.other hx ht rfl (List.append_nil _).symm (by simp) rfl rfl rfl rfl rfl rfl
  | @lockContext t c message x ht hxc hfree =>
    refine h.context ht rfl (fun _ => rfl) ?_ (List.append_nil _).symm (by simp) rfl rfl rfl rfl rfl
      rfl
    intro x' hx'
    rw [hxc, Option.some.injEq] at hx'
    subst hx'
    have hzero : waiting s x = 0 := by
      rw [waiting, hfree]
      rfl
    rw [hzero, waiting]
    simp only [Option.any_some]
    show (waits (Function.update s.threads t _ t)).toNat = 0
    rw [Function.update_self]
    rfl
  | tooLarge ht hlen =>
    exact h.other hx ht rfl (List.append_nil _).symm (by simp) rfl rfl rfl rfl rfl rfl
  | sealed ht hlen hxc hseal => exact h.sealing hx ht hxc
  | @refuse t c size value ht =>
    refine h.context ht rfl (fun _ => rfl) ?_ rfl (plain_mem ⟨rfl, rfl, rfl⟩)
      rfl rfl rfl rfl rfl rfl
    intro x hxc
    rw [waiting_of_holds hx hxc ht (by simp [holdsContext]) rfl]
    rfl
  | lockWriter ht hfree => exact h.lockWriter hx ht hfree
  | @unlockContext t p ht =>
    refine h.context ht rfl (fun _ => rfl) ?_ (List.append_nil _).symm (by simp) rfl rfl rfl rfl rfl
      rfl
    intro x hxc
    rw [waiting_of_holds hx hxc ht (by simp [holdsContext]) rfl]
    rfl
  | @check t p ht hb =>
    have hload := atWriter_goto (writer_of_holds hx ht rfl) (.output (.packet p) none)
    exact h.keep hx ht rfl rfl rfl rfl rfl rfl rfl hload
  | refused ht hb => exact counts_refused h hx ht hb
  | @waitWriter t call ht hfree =>
    have hnone := atWriter_free hfree
    have hload : atWriter ({ s with writer := some t }.goto t (.holdWriter call)) = atWriter s := by
      rw [hnone]
      exact atWriter_goto rfl _
    refine h.move (by simp) (List.append_nil _).symm rfl rfl rfl (by rw [ht]; rfl) (.inl hload) ?_
    rw [hload]
    exact h.bound
  | @endNotify t c cause error limit hpc hb hside =>
    have hload : s.writer = some t → atWriter ((removed s c cause).goto t
        (.output (.notification (some c) error) limit)) = .nothing :=
      fun hw => atWriter_goto (s := removed s c cause) hw _
    rcases hpc with ⟨p, deadline, e, ht, -, -⟩ | ⟨ht, -⟩
    · exact h.remove hx ht rfl rfl (plain_mem ⟨rfl, rfl, rfl⟩) rfl rfl rfl rfl rfl
        (hload (writer_of_holds hx ht rfl)) rfl
    · exact h.remove hx ht rfl rfl (plain_mem ⟨rfl, rfl, rfl⟩) rfl rfl rfl rfl rfl
        (hload (writer_of_holds hx ht rfl)) rfl
  | endUnlock hpc hb =>
    rcases hpc with ⟨p, deadline, e, ht, -, -⟩ | ⟨call, ht⟩
    · exact h.remove hx ht rfl rfl (plain_mem ⟨rfl, rfl, rfl⟩) rfl rfl rfl rfl rfl rfl rfl
    · exact h.remove hx ht rfl rfl (plain_mem ⟨rfl, rfl, rfl⟩) rfl rfl rfl rfl rfl rfl rfl
  | @keepUnlock t value hpc =>
    rcases hpc with ⟨p, deadline, e, ht, hb⟩ | ⟨call, ht⟩ | ⟨job, deadline, result, ht, hjob⟩
    · exact counts_outlived h hx ht hb
    · exact h.keep hx ht rfl rfl rfl rfl rfl rfl rfl rfl
    · refine h.keep hx ht rfl rfl rfl rfl rfl rfl rfl ?_
      cases job with
      | packet p => exact absurd rfl (hjob p)
      | _ => rfl
  | bind ht => exact counts_bind h hx ht
  | @removeOutput t c call job limit ht hb hjob =>
    have hw := writer_of_holds hx ht rfl
    have hload : atWriter ((removed s c .unbound).goto t (.output job limit)) = .nothing :=
      (atWriter_goto (s := removed s c .unbound) hw _).trans (load_output hjob limit)
    exact h.remove hx ht rfl rfl (plain_mem ⟨rfl, rfl, rfl⟩) rfl rfl rfl rfl rfl hload rfl
  | @keepOutput t job limit hpc hjob =>
    have hload : s.writer = some t → atWriter (s.goto t (.output job limit)) = .nothing :=
      fun hw => (atWriter_goto hw _).trans (load_output hjob limit)
    rcases hpc with ⟨call, ht⟩ | ⟨bytes, deadline, result, ht⟩
    · exact h.keep hx ht rfl rfl rfl rfl rfl rfl rfl (hload (writer_of_holds hx ht rfl))
    · exact h.keep hx ht rfl rfl rfl rfl rfl rfl rfl (hload (writer_of_holds hx ht rfl))
  | @output t deadline job limit o ht =>
    have hready := hi.ready t
    rw [ht] at hready
    by_cases hjob : ∃ p, job = .packet p
    · obtain ⟨p, rfl⟩ := hjob
      exact h.output hx ht hready
    · exact counts_output h hx ht fun p hp => hjob ⟨p, hp⟩
  | sent ht => exact counts_sent h hx ht
  | failed ht => exact counts_failed h hx ht

theorem counts_reachable {framer : Writer} (h : (outbound cfg framer).Reachable s) : Counts s := by
  refine h.invariant (counts_init framer) ?_
  intro s a s' hr hc hstep
  obtain ⟨hx, hi⟩ := reachable_invariant hr
  exact counts_step hx hi hc (step_cases hstep)

end ArkWire.Transport.Numbering
