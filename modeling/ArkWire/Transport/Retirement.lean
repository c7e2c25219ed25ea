import ArkWire.Transport.Integrity
import ArkWire.Transport.Isolation

/-! # A failing client call leaves no session behind

Threads other than the owner use the senders that `connect` returned and no others: `issuing` is the
client under that condition. `standing` is the session of the last `connect` that returned `Ok`,
unless a call has failed since.

Between two calls the standing session is the client's sending context, and no other session can be
bound. While the owner is in a call, a binding is the standing session or one whose sender is not
issued yet. So without a standing session every send is refused before it reaches the adapter. -/

namespace ArkWire.Transport.Retirement

open ArkWire.Lib.Machines ArkWire.Lib.Locks
open ArkWire.Transport.Errors ArkWire.Transport.FrameReader ArkWire.Transport.FrameWriter
open ArkWire.Transport.Outbound ArkWire.Transport.OutboundSteps
open ArkWire.Transport.Endpoint ArkWire.Transport.Client
open ArkWire.Transport.Isolation (exclusive_init)
open ArkWire.Transport.Hearing (Sealed)
open ArkWire.Transport.Integrity (smallConfig smallCodec openSealed badFrame)

variable {K : Type} {cfg : Config K} {o o' : State K} {t : ℕ}

/-! ### A packet is written under its binding -/

/-- The packet a thread has the frame writer send, until its return. -/
def writing : Pc K → Option Packet
  | .output (.packet p) _ => some p
  | .returning (.packet p) _ _ => some p
  | .failed p _ _ => some p
  | _ => none

/-- The session of every packet that is being written is bound. -/
def Writing (o : State K) : Prop :=
  ∀ t p, writing (o.threads t) = some p → o.binding = some p.context

theorem holdsWriter_of_writing {pc : Pc K} {p : Packet} (h : writing pc = some p) :
    holdsWriter pc = true := by
  cases pc with
  | output job limit => rfl
  | returning job deadline result => rfl
  | failed p deadline error => rfl
  | _ => cases h

theorem writing_of_session {job : Job} (h : session job = none) (limit : Option ℕ) :
    writing (.output job limit : Pc K) = none := by
  cases job with
  | packet p => cases h
  | _ => rfl

/-- A thread moves under the same binding. -/
theorem Writing.move (h : Writing o) {pc : Pc K} (hb : o'.binding = o.binding)
    (ht : o'.threads = Function.update o.threads t pc)
    (hpc : ∀ p, writing pc = some p → o.binding = some p.context) : Writing o' := by
  intro u p hu
  rw [hb]
  rw [ht] at hu
  by_cases hut : u = t
  · rw [hut, Function.update_self] at hu
    exact hpc p hu
  · rw [Function.update_of_ne hut] at hu
    exact h u p hu

/-- The thread that holds the writer lock stops writing: nobody else does. -/
theorem writing_of_held (hx : Exclusive o) (hold : holdsWriter (o.threads t) = true) {pc : Pc K}
    (ht : o'.threads = Function.update o.threads t pc) (hpc : writing pc = none) : Writing o' := by
  intro u p hu
  rw [ht] at hu
  by_cases hut : u = t
  · rw [hut, Function.update_self, hpc] at hu
    cases hu
  · rw [Function.update_of_ne hut] at hu
    exact absurd (hx.writer.unique hold (holdsWriter_of_writing hu)) hut

theorem writing_step (hx : Exclusive o) (h : Writing o) (hs : Step cfg o o') : Writing o' := by
  cases hs with
  | beginSend ht hc => exact h.move rfl rfl (fun p hp => (by cases hp))
  | receive ht hb => exact h.move rfl rfl (fun p hp => (by cases hp))
  | beginLocked ht => exact h.move rfl rfl (fun p hp => (by cases hp))
  | lockContext ht hx hfree => exact h.move rfl rfl (fun p hp => (by cases hp))
  | tooLarge ht hlen => exact h.move rfl rfl (fun p hp => (by cases hp))
  | sealed ht hlen hx hseal => exact h.move rfl rfl (fun p hp => (by cases hp))
  | refuse ht => exact h.move rfl rfl (fun p hp => (by cases hp))
  | lockWriter ht hfree => exact h.move rfl rfl (fun p hp => (by cases hp))
  | unlockContext ht => exact h.move rfl rfl (fun p hp => (by cases hp))
  | check ht hb =>
    refine h.move rfl rfl ?_
    rintro _ ⟨⟩
    exact hb
  | refused ht hb => exact writing_of_held hx (by rw [ht]; rfl) rfl rfl
  | waitWriter ht hfree => exact h.move rfl rfl (fun p hp => (by cases hp))
  | endNotify hpc hb hside =>
    rcases hpc with ⟨p, deadline, e, ht, -, -⟩ | ⟨ht, -⟩
    · exact writing_of_held hx (by rw [ht]; rfl) rfl rfl
    · exact writing_of_held hx (by rw [ht]; rfl) rfl rfl
  | endUnlock hpc hb =>
    rcases hpc with ⟨p, deadline, e, ht, -, -⟩ | ⟨call, ht⟩
    · exact writing_of_held hx (by rw [ht]; rfl) rfl rfl
    · exact writing_of_held hx (by rw [ht]; rfl) rfl rfl
  | keepUnlock hpc => exact h.move rfl rfl (fun p hp => (by cases hp))
  | @bind t key value ht =>
    have hthreads : (o.bind key).threads = o.threads := by
      unfold State.bind State.remove
      cases o.binding <;> rfl
    have hupdate : ((o.bind key).unlock t value).threads =
        Function.update o.threads t (.idle value) := by
      show Function.update (o.bind key).threads t _ = _
      rw [hthreads]
    exact writing_of_held hx (by rw [ht]; rfl) hupdate rfl
  | removeOutput ht hb hjob =>
    exact writing_of_held hx (by rw [ht]; rfl) rfl (writing_of_session hjob _)
  | keepOutput hpc hjob =>
    refine h.move rfl rfl ?_
    intro p hp
    rw [writing_of_session hjob] at hp
    cases hp
  | @output t deadline job limit out ht =>
    refine h.move rfl rfl ?_
    intro p hp
    cases job with
    | packet q =>
      cases hp
      exact h t p (by rw [ht]; rfl)
    | _ => cases hp
  | sent ht => exact h.move rfl rfl (fun p hp => (by cases hp))
  | @failed t deadline p error ht =>
    refine h.move rfl rfl ?_
    rintro _ ⟨⟩
    exact h t p (by rw [ht]; rfl)

/-! ### Threads that hold senders -/

/-- Where a thread that uses the senders of some sessions of a client can be. -/
def Holder (ok : ℕ → Prop) : Pc K → Prop
  | .idle _ => True
  | .lockContext c _ => ok c
  | .sealing c _ => ok c
  | .refuse c _ => ok c
  | .lockWriter p => ok p.context
  | .unlockContext p => ok p.context
  | .check p => ok p.context
  | .failed p _ _ => ok p.context
  | .waitWriter (.disconnect c) => ok c
  | .holdWriter (.disconnect c) => ok c
  | .output (.packet p) _ => ok p.context
  | .returning (.packet p) _ _ => ok p.context
  | _ => False

theorem Holder.mono {ok ok' : ℕ → Prop} (hok : ∀ c, ok c → ok' c) {pc : Pc K} (h : Holder ok pc) :
    Holder ok' pc := by
  unfold Holder at h ⊢
  split at h <;> first | trivial | exact hok _ h

/-- What a step of such a thread leaves: only a session it has a sender of can lose its binding. -/
structure Aside (ok : ℕ → Prop) (t : ℕ) (o o' : State K) : Prop where
  threads : ∃ pc, o'.threads = Function.update o.threads t pc ∧ Holder ok pc
  contexts : o'.contexts.length = o.contexts.length
  binding : o'.binding = o.binding ∨ o'.binding = none ∧ ∃ c, o.binding = some c ∧ ok c

namespace Aside

variable {ok : ℕ → Prop} {pc : Pc K}

/-- A move that keeps the binding. -/
theorem keep (ht : o'.threads = Function.update o.threads t pc) (hpc : Holder ok pc)
    (hc : o'.contexts.length = o.contexts.length) (hb : o'.binding = o.binding) :
    Aside ok t o o' :=
  ⟨⟨pc, ht, hpc⟩, hc, .inl hb⟩

/-- A thread ends a session and returns. -/
theorem ends {c : ℕ} (hb : o.binding = some c) (hc : ok c) (cause : Cause) (value : Value) :
    Aside ok t o ((o.remove cause).unlock t value) := by
  rw [remove_of_bound hb]
  exact ⟨⟨.idle value, rfl, trivial⟩, rfl, .inr ⟨rfl, c, hb, hc⟩⟩

end Aside

theorem not_notifies (hside : cfg.side = .client) (error : TransportError) :
    notifies cfg.side error = false := by
  cases hn : notifies cfg.side error with
  | false => rfl
  | true =>
    have hserver := notifies_server hn
    rw [hside] at hserver
    cases hserver

theorem aside_advance (hside : cfg.side = .client) {ok : ℕ → Prop} {budget : ℕ} {out : Output}
    {pc : Pc K} (hpc : Holder ok pc) (hs : o.advance cfg t budget out pc = .next o') :
    Aside ok t o o' := by
  cases pc with
  | idle last => cases hs
  | lockContext c message =>
    dsimp only [State.advance] at hs
    split at hs
    · cases hs
      exact .keep rfl hpc (List.length_modify ..) rfl
    · cases hs
  | sealing c message =>
    dsimp only [State.advance] at hs
    split at hs
    · cases hs
    · split_ifs at hs with hlen
      · cases hs
        exact .keep rfl hpc rfl rfl
      · split at hs
        · cases hs
        · cases hs
          exact .keep rfl hpc (List.length_modify ..) rfl
  | refuse c size =>
    cases hs
    exact .keep rfl trivial (List.length_modify ..) rfl
  | lockWriter p =>
    dsimp only [State.advance] at hs
    split_ifs at hs with hw
    cases hs
    exact .keep rfl hpc rfl rfl
  | unlockContext p =>
    cases hs
    exact .keep rfl hpc (List.length_modify ..) rfl
  | check p =>
    dsimp only [State.advance] at hs
    split_ifs at hs with hb
    · cases hs
      exact .keep rfl hpc rfl rfl
    · cases hs
      exact .keep rfl trivial rfl rfl
  | failed p deadline error =>
    dsimp only [State.advance] at hs
    rw [not_notifies hside, if_neg Bool.false_ne_true] at hs
    split_ifs at hs with hb
    · cases hs
      exact .ends hb hpc .failed _
    · cases hs
      exact .keep rfl trivial rfl rfl
  | waitWriter call =>
    dsimp only [State.advance] at hs
    split_ifs at hs with hw
    cases hs
    refine .keep rfl ?_ rfl rfl
    cases call with
    | disconnect c => exact hpc
    | _ => exact hpc.elim
  | holdWriter call =>
    cases hs
    cases call with
    | disconnect c =>
      dsimp only [State.locked]
      split_ifs with hb hserver
      · rw [hside] at hserver
        cases hserver
      · exact .ends hb hpc .disconnected _
      · exact .keep rfl trivial rfl rfl
    | _ => exact hpc.elim
  | output job limit =>
    cases hs
    cases job with
    | packet p => exact .keep rfl hpc rfl rfl
    | _ => exact hpc.elim
  | returning job deadline result =>
    cases result with
    | none => cases hs
    | some result =>
      cases hs
      cases job with
      | packet p =>
        cases result with
        | ok _ => exact .keep rfl trivial rfl rfl
        | error error => exact .keep rfl hpc rfl rfl
      | _ => exact hpc.elim

theorem Holder.sends {ok : ℕ → Prop} {pc : Pc K} (h : Holder ok pc) {c : ℕ}
    (hc : sendsOn pc = some c) : ok c := by
  cases pc with
  | output job limit =>
    cases job with
    | packet p =>
      cases hc
      exact h
    | _ => cases hc
  | returning job deadline result =>
    cases job with
    | packet p =>
      cases hc
      exact h
    | _ => cases hc
  | idle last => cases hc
  | waitWriter call => cases hc
  | holdWriter call => cases hc
  | _ =>
    cases hc
    exact h

/-- **A send whose session is not bound reaches no adapter, and returns an error.** -/
theorem refused_advance {budget c : ℕ} {out : Output} (hw : Writing o)
    (hc : sendsOn (o.threads t) = some c) (hb : o.binding ≠ some c)
    (hs : o.advance cfg t budget out (o.threads t) = .next o') :
    o'.framer = o.framer ∧
      ∀ value, o'.threads t = .idle value → ∃ error, value = .sent (.error error) := by
  have hmoves : ∀ (o₁ : State K) pc, o₁.framer = o.framer →
      (∀ value, pc = .idle value → ∃ error, value = .sent (.error error)) →
      (o₁.goto t pc).framer = o.framer ∧ ∀ value, (o₁.goto t pc).threads t = .idle value →
        ∃ error, value = .sent (.error error) := by
    intro o₁ pc hframer hpc
    have hself : (o₁.goto t pc).threads t = pc := Function.update_self ..
    exact ⟨hframer, fun value hv => hpc value (hself.symm.trans hv)⟩
  have hwrites : ∀ p, writing (o.threads t) = some p → p.context ≠ c := by
    intro p hp heq
    rw [← heq] at hb
    exact hb (hw t p hp)
  generalize hold : o.threads t = pc at hs hc hwrites
  cases pc with
  | idle last => cases hs
  | lockContext c message =>
    dsimp only [State.advance] at hs
    split at hs
    · cases hs
      exact hmoves _ _ rfl fun _ hv => nomatch hv
    · cases hs
  | sealing c message =>
    dsimp only [State.advance] at hs
    split at hs
    · cases hs
    · split_ifs at hs with hlen
      · cases hs
        exact hmoves _ _ rfl fun _ hv => nomatch hv
      · split at hs
        · cases hs
        · cases hs
          exact hmoves _ _ rfl fun _ hv => nomatch hv
  | refuse c size =>
    cases hs
    exact hmoves _ _ rfl fun _ hv => by cases hv; exact ⟨_, rfl⟩
  | lockWriter p =>
    dsimp only [State.advance] at hs
    split_ifs at hs with hfree
    cases hs
    exact hmoves _ _ rfl fun _ hv => nomatch hv
  | unlockContext p =>
    cases hs
    exact hmoves _ _ rfl fun _ hv => nomatch hv
  | check p =>
    cases hc
    dsimp only [State.advance] at hs
    rw [if_neg hb] at hs
    cases hs
    exact hmoves _ _ rfl fun _ hv => by cases hv; exact ⟨_, rfl⟩
  | failed p deadline error =>
    cases hc
    exact absurd rfl (hwrites p rfl)
  | waitWriter call => cases hc
  | holdWriter call => cases hc
  | output job limit =>
    cases job with
    | packet p =>
      cases hc
      exact absurd rfl (hwrites p rfl)
    | _ => cases hc
  | returning job deadline result =>
    cases job with
    | packet p =>
      cases hc
      exact absurd rfl (hwrites p rfl)
    | _ => cases hc

/-! ### A send that has the locks to itself -/

/-- Thread `t` can send a message on session `c` and nobody holds a lock that it takes. -/
structure Alone (cfg : Config K) (o : State K) (t c : ℕ) (message : Bytes) : Prop where
  idle : ∃ last, o.threads t = .idle last
  writer : o.writer = none
  fits : message.length ≤ cfg.maxMessage
  seals : ∃ key seq bytes, o.contexts[c]? = some ⟨key, seq, none⟩ ∧
    cfg.sealMessage key seq message = some bytes

/-- A send, up to and with its check of the binding. -/
def sending (t c : ℕ) (message : Bytes) (budget : ℕ) (out : Output) : List (Outbound.Action K) :=
  .call t (.send c message) :: List.replicate 5 (.advance t budget out)

/-- A send that nobody holds up comes to its check of the binding. -/
theorem sending_checks {c : ℕ} {message : Bytes} (h : Alone cfg o t c message)
    (framer : Writer) (budget : ℕ) (out : Output) :
    ∃ (o₅ : State K) (p : Packet), p.context = c ∧ o₅.framer = o.framer ∧ o₅.binding = o.binding ∧
      o₅.threads t = .check p ∧ ∀ o₆, o₅.step cfg (.advance t budget out) = .next o₆ →
        (outbound cfg framer).run (sending t c message budget out) o = some o₆ := by
  obtain ⟨last, hidle⟩ := h.idle
  obtain ⟨key, seq, bytes, hx, hseal⟩ := h.seals
  have hself : ∀ (o : State K) pc, (o.goto t pc).threads t = pc := fun o pc =>
    Function.update_self ..
  let p : Packet := ⟨c, seq, bytes⟩
  let o₁ := o.goto t (.lockContext c message)
  let o₂ := (o₁.modify c ({ · with holder := some t })).goto t (.sealing c message)
  let o₃ := ((o₂.modify c ({ · with seq := seq + 1 })).logged (.sealed p message)).goto t
    (.lockWriter p)
  let o₄ := { o₃ with writer := some t }.goto t (.unlockContext p)
  let o₅ := (o₄.modify c ({ · with holder := none })).goto t (.check p)
  have h₁ : o.step cfg (.call t (.send c message)) = .next o₁ := by
    dsimp only [State.step, State.begin]
    rw [hidle]
    exact if_pos (List.getElem?_eq_some_iff.mp hx).1
  have h₂ : o₁.step cfg (.advance t budget out) = .next o₂ := by
    dsimp only [State.step]
    rw [hself]
    dsimp only [State.advance]
    rw [show o₁.contexts[c]? = some ⟨key, seq, none⟩ from hx]
  have h₃ : o₂.step cfg (.advance t budget out) = .next o₃ := by
    have hx₂ : o₂.contexts[c]? = some ⟨key, seq, some t⟩ := by
      show (o.contexts.modify c _)[c]? = _
      rw [List.getElem?_modify, hx]
      simp
    dsimp only [State.step]
    rw [hself]
    dsimp only [State.advance]
    rw [hx₂]
    dsimp only
    rw [if_neg (not_lt.mpr h.fits), hseal]
  have h₄ : o₃.step cfg (.advance t budget out) = .next o₄ := by
    dsimp only [State.step]
    rw [hself]
    have hwriter : o₃.writer = none := by
      dsimp only [o₃, o₂, o₁, State.goto, State.modify, State.logged]
      exact h.writer
    dsimp only [State.advance]
    exact if_pos hwriter
  have h₅ : o₄.step cfg (.advance t budget out) = .next o₅ := by
    dsimp only [State.step]
    rw [hself]
    dsimp only [State.advance, o₅]
  refine ⟨o₅, p, rfl, ?_, ?_, hself _ (.check p), fun o₆ h₆ => ?_⟩
  · dsimp only [o₅, o₄, o₃, o₂, o₁, State.goto, State.modify, State.logged]
  · dsimp only [o₅, o₄, o₃, o₂, o₁, State.goto, State.modify, State.logged]
  · simp only [sending, List.replicate, Machine.run, outbound, h₁, h₂, h₃, h₄, h₅, h₆]

/-- **A send goes on to the adapter if its session is bound, and returns an error if not.** -/
theorem run_sending {c : ℕ} {message : Bytes} (h : Alone cfg o t c message)
    (framer : Writer) (budget : ℕ) (out : Output) :
    ∃ o' p, (outbound cfg framer).run (sending t c message budget out) o = some o' ∧
      p.context = c ∧ o'.framer = o.framer ∧
      o'.threads t = if o.binding = some c then .output (.packet p) none
        else .idle (.sent (.error sessionEnded)) := by
  obtain ⟨o₅, p, hp, hframer, hbinding, hcheck, hrun⟩ := sending_checks h framer budget out
  have hself : ∀ (o : State K) pc, (o.goto t pc).threads t = pc := fun o pc =>
    Function.update_self ..
  by_cases hb : o.binding = some c
  · refine ⟨o₅.goto t (.output (.packet p) none), p, hrun _ ?_, hp, hframer, ?_⟩
    · dsimp only [State.step]
      rw [hcheck]
      dsimp only [State.advance]
      exact if_pos (by rw [hp, hbinding, hb])
    · rw [hself, if_pos hb]
  · refine ⟨(o₅.logged (.refused p)).unlock t (.sent (.error sessionEnded)), p, hrun _ ?_, hp,
      hframer, ?_⟩
    · dsimp only [State.step]
      rw [hcheck]
      dsimp only [State.advance]
      exact if_neg (by rw [hp, hbinding]; exact hb)
    · rw [State.unlock, hself, if_neg hb]

/-! ### The senders of a client -/

/-- The sessions whose senders `connect` has returned. -/
def issued (returned : List Returned) : List ℕ :=
  returned.filterMap fun
    | .connected c => some c
    | _ => none

def stood (session : Option ℕ) : Returned → Option ℕ
  | .connected c => some c
  | .message _ => session
  | .failed _ => none

/-- The session of the last `connect` that returned `Ok`, unless a call has failed since. -/
def standing (returned : List Returned) : Option ℕ := returned.foldl stood none

@[simp] theorem standing_append (returned : List Returned) (r : Returned) :
    standing (returned ++ [r]) = stood (standing returned) r := by
  rw [standing, List.foldl_append]
  rfl

/-- Whether a call is on a sender that was issued. -/
def onIssued (returned : List Returned) : Outbound.Action Transcript → Bool
  | .call _ (.send c _) => c ∈ issued returned
  | .call _ (.locked (.disconnect c)) => c ∈ issued returned
  | _ => true

/-- **A client whose senders come from `connect`.** -/
def issuing (cfg : Config Transcript) (codec : Codec) (opens : Opens) (framer : Writer)
    (supply : Bytes) : Machine Client Client.Action Fault where
  init := (client cfg codec opens framer supply).init
  step s
    | .handle a =>
      if onIssued s.returned a then (client cfg codec opens framer supply).step s (.handle a)
      else .blocked
    | a => (client cfg codec opens framer supply).step s a

section Issuing

variable {cfg : Config Transcript} {codec : Codec} {opens : Opens} {s s' : Client}

/-- What does not depend on where the owner is. -/
structure Base (s : Client) : Prop where
  exclusive : Exclusive s.out
  writing : Writing s.out
  holders : ∀ t, t ≠ owner → Holder (· ∈ issued s.returned) (s.out.threads t)
  paired : s.inbox.receiver.isSome = s.sealer.isSome
  known : ∀ c ∈ issued s.returned, c < s.out.contexts.length

/-- The standing session is the sending context, and no other is bound. -/
structure Kept (s : Client) : Prop where
  sealer : s.sealer = standing s.returned
  binding : ∀ c, s.out.binding = some c → s.sealer = some c

/-- No session is left. -/
structure Gone (s : Client) : Prop where
  sealer : s.sealer = none
  binding : s.out.binding = none

/-- Where the owner can be in `send_packet` and after it. -/
inductive Packs : Pc Transcript → Prop
  | waits {bytes : Bytes} {limit : Option ℕ} : Packs (.waitWriter (.sendPacket bytes limit))
  | holds {bytes : Bytes} {limit : Option ℕ} : Packs (.holdWriter (.sendPacket bytes limit))
  | outputs {bytes : Bytes} {limit : Option ℕ} : Packs (.output (.unsealed bytes) limit)
  | returns {bytes : Bytes} {deadline : ℕ} {result : Option (Except TransportError Unit)} :
      Packs (.returning (.unsealed bytes) deadline result)
  | idle {last : Value} : Packs (.idle last)

/-- Where the owner is to take the binding away or to put one in place. -/
def Awaits (call : Locked Transcript) (pc : Pc Transcript) : Prop :=
  pc = .waitWriter call ∨ pc = .holdWriter call

/-- **What is left of a session, where the owner is.** -/
inductive Place (s : Client) : Stage → Pc Transcript → Prop
  | idle {last : Value} : Kept s → Place s .idle (.idle last)
  | read {phase : Phase} {last : Value} : Kept s → s.sealer.isSome = true →
      Place s (.read phase) (.idle last)
  | accept {c : ℕ} {opened : Except TransportError Bytes} {last : Value} : Kept s →
      Place s (.accept c opened) (.idle last)
  | resetting {hello : HostHello} {bytes : Bytes} {deadline deadline' : ℕ} {pc : Pc Transcript} :
      s.sealer = none → (∀ c, s.out.binding = some c → standing s.returned = some c) →
      Awaits (.sendReset deadline') pc → Place s (.reset hello bytes deadline) pc
  | reset {hello : HostHello} {bytes : Bytes} {deadline : ℕ} {pc : Pc Transcript} : Gone s →
      ((∃ limit, pc = .output .reset limit) ∨ (∃ d result, pc = .returning .reset d result) ∨
        ∃ last, pc = .idle last) →
      Place s (.reset hello bytes deadline) pc
  | hello {hello : HostHello} {deadline : ℕ} {pc : Pc Transcript} : Gone s → Packs pc →
      Place s (.hello hello deadline) pc
  | skip {hello : HostHello} {deadline : ℕ} {phase : Phase} {last : Value} : Gone s →
      Place s (.skip hello deadline phase) (.idle last)
  | answer {hello : HostHello} {deadline : ℕ} {packet : Bytes} {last : Value} : Gone s →
      Place s (.answer hello deadline packet) (.idle last)
  | ack {key : Transcript} {bytes : Bytes} {pc : Pc Transcript} : Gone s → Packs pc →
      Place s (.ack key bytes) pc
  | binding {key key' : Transcript} {pc : Pc Transcript} : Gone s → Awaits (.bind key') pc →
      Place s (.bind key) pc
  /-- The sender of the new session is with the owner alone: nobody can have ended it. -/
  | bound {key : Transcript} {c : ℕ} : s.sealer = none → s.out.binding = some c →
      c ∉ issued s.returned → c < s.out.contexts.length → Place s (.bind key) (.idle (.bound c))
  | ending {error : TransportError} {c : ℕ} {pc : Pc Transcript} : Kept s → s.sealer = some c →
      Awaits (.finish c) pc → Place s (.ending error) pc
  | ended {error : TransportError} {last : Value} : Kept s → s.out.binding = none →
      Place s (.ending error) (.idle last)

structure Retired (s : Client) : Prop where
  base : Base s
  place : Place s s.stage (s.out.threads owner)

theorem Gone.not_bound (h : Gone s) {c : ℕ} : s.out.binding ≠ some c := by
  rw [h.binding]
  simp

theorem Kept.standing_of_bound (h : Kept s) {c : ℕ} (hb : s.out.binding = some c) :
    standing s.returned = some c := by
  rw [← h.sealer]
  exact h.binding c hb

theorem Kept.of_binding (h : Kept s) (hs : s'.sealer = s.sealer) (hr : s'.returned = s.returned)
    (hb : ∀ c, s'.out.binding = some c → s.out.binding = some c) : Kept s' := by
  refine ⟨?_, fun c hc => ?_⟩
  · rw [hs, hr]
    exact h.sealer
  · rw [hs]
    exact h.binding c (hb c hc)

/-- **Only the standing session is both issued and bound.** -/
theorem Place.standing_of_bound {stage : Stage} {pc : Pc Transcript} (h : Place s stage pc) {c : ℕ}
    (hc : c ∈ issued s.returned) (hb : s.out.binding = some c) : standing s.returned = some c := by
  cases h with
  | idle hk => exact hk.standing_of_bound hb
  | read hk _ => exact hk.standing_of_bound hb
  | accept hk => exact hk.standing_of_bound hb
  | resetting _ hst _ => exact hst c hb
  | reset hg _ => exact absurd hb hg.not_bound
  | hello hg _ => exact absurd hb hg.not_bound
  | skip hg => exact absurd hb hg.not_bound
  | answer hg => exact absurd hb hg.not_bound
  | ack hg _ => exact absurd hb hg.not_bound
  | binding hg _ => exact absurd hb hg.not_bound
  | bound _ hbound hfresh _ =>
    rw [hbound, Option.some.injEq] at hb
    rw [hb] at hfresh
    exact absurd hc hfresh
  | ending hk _ _ => exact hk.standing_of_bound hb
  | ended hk _ => exact hk.standing_of_bound hb

/-! ### Another thread goes on -/

/-- The binding stays, or an issued session loses it. -/
theorem Place.keep {stage : Stage} {pc : Pc Transcript} (h : Place s stage pc)
    (hr : s'.returned = s.returned) (hs : s'.sealer = s.sealer)
    (hlen : s'.out.contexts.length = s.out.contexts.length)
    (hbinding : s'.out.binding = s.out.binding ∨
      s'.out.binding = none ∧ ∃ c, s.out.binding = some c ∧ c ∈ issued s.returned) :
    Place s' stage pc := by
  have hb : ∀ c, s'.out.binding = some c → s.out.binding = some c := by
    intro c hc
    rcases hbinding with heq | ⟨hnone, -⟩
    · rw [← heq]
      exact hc
    · rw [hnone] at hc
      cases hc
  have hnone : s.out.binding = none → s'.out.binding = none := by
    intro hn
    rcases hbinding with heq | ⟨hnone, -⟩
    · rw [heq, hn]
    · exact hnone
  have hkept : Kept s → Kept s' := fun h => h.of_binding hs hr hb
  have hgone : Gone s → Gone s' := fun h => ⟨hs.trans h.sealer, hnone h.binding⟩
  cases h with
  | idle hk => exact .idle (hkept hk)
  | read hk hsome => exact .read (hkept hk) (by rw [hs]; exact hsome)
  | accept hk => exact .accept (hkept hk)
  | resetting hsealer hst hpc =>
    exact .resetting (hs.trans hsealer) (fun c hc => (by rw [hr]; exact hst c (hb c hc))) hpc
  | reset hg hpc => exact .reset (hgone hg) hpc
  | hello hg hpc => exact .hello (hgone hg) hpc
  | skip hg => exact .skip (hgone hg)
  | answer hg => exact .answer (hgone hg)
  | ack hg hpc => exact .ack (hgone hg) hpc
  | binding hg hpc => exact .binding (hgone hg) hpc
  | @bound key c hsealer hbound hfresh hlt =>
    have hkeep : s'.out.binding = some c := by
      rcases hbinding with heq | ⟨-, c', hbc, hc⟩
      · rw [heq, hbound]
      · rw [hbound, Option.some.injEq] at hbc
        rw [hbc] at hfresh
        exact absurd hc hfresh
    exact .bound (hs.trans hsealer) hkeep (by rw [hr]; exact hfresh) (by rw [hlen]; exact hlt)
  | ending hk hsealer hpc => exact .ending (hkept hk) (hs.trans hsealer) hpc
  | ended hk hn => exact .ended (hkept hk) (hnone hn)

/-- The outbound transport steps, and threads of senders stay threads of senders. -/
theorem Base.step {o' : State Transcript} (h : Base s) (hs : Step cfg s.out o')
    (hh : ∀ t, t ≠ owner → Holder (· ∈ issued s.returned) (o'.threads t)) :
    Base { s with out := o' } := by
  refine ⟨exclusive_step h.exclusive hs, writing_step h.exclusive h.writing hs, hh, h.paired, ?_⟩
  intro c hc
  obtain ⟨x', hx', -⟩ := keepsKeys_step hs c _ (List.getElem?_eq_getElem (h.known c hc))
  exact (List.getElem?_eq_some_iff.mp hx').1

theorem Retired.aside {o' : State Transcript} (h : Retired s) (hne : t ≠ owner)
    (hs : Step cfg s.out o') (ha : Aside (· ∈ issued s.returned) t s.out o') :
    Retired { s with out := o' } := by
  obtain ⟨pc, hthreads, hpc⟩ := ha.threads
  refine ⟨h.base.step hs fun u hu => ?_, ?_⟩
  · rw [hthreads]
    by_cases hut : u = t
    · rw [hut, Function.update_self]
      exact hpc
    · rw [Function.update_of_ne hut]
      exact h.base.holders u hu
  · show Place _ s.stage (o'.threads owner)
    rw [hthreads, Function.update_of_ne (Ne.symm hne)]
    exact h.place.keep rfl rfl ha.contexts ha.binding

/-! ### The owner goes on in a call of the outbound transport -/

/-- The owner gets the writer lock. -/
theorem Awaits.advance {call : Locked Transcript} {pc : Pc Transcript} {budget : ℕ} {out : Output}
    {o o' : State Transcript} (h : Awaits call pc)
    (hs : o.advance cfg owner budget out pc = .next o') :
    (o' = { o with writer := some owner }.goto owner (.holdWriter call)) ∨
      o' = o.locked cfg owner call := by
  rcases h with rfl | rfl
  · dsimp only [State.advance] at hs
    split_ifs at hs with hw
    cases hs
    exact .inl rfl
  · cases hs
    exact .inr rfl

theorem Packs.advance (hside : cfg.side = .client) {pc : Pc Transcript} {budget : ℕ} {out : Output}
    {o o' : State Transcript} (h : Packs pc) (hs : o.advance cfg owner budget out pc = .next o') :
    Packs (o'.threads owner) ∧ o'.binding = o.binding := by
  cases h with
  | waits =>
    dsimp only [State.advance] at hs
    split_ifs at hs with hw
    cases hs
    rw [threads_goto]
    exact ⟨.holds, rfl⟩
  | holds =>
    cases hs
    rw [State.locked, threads_goto]
    exact ⟨.outputs, rfl⟩
  | outputs =>
    cases hs
    rw [State.output, threads_goto]
    exact ⟨.returns, rfl⟩
  | @returns bytes deadline result =>
    cases result with
    | none => cases hs
    | some result =>
      cases hs
      dsimp only [State.returned]
      split
      · rw [not_notifies hside, if_neg Bool.false_ne_true, threads_unlock]
        exact ⟨.idle, rfl⟩
      · rw [threads_unlock]
        exact ⟨.idle, rfl⟩
  | idle => cases hs

theorem Place.advance (hside : cfg.side = .client) (hbase : Base s) {stage : Stage}
    {pc : Pc Transcript} {budget : ℕ} {out : Output} {o' : State Transcript} (h : Place s stage pc)
    (hs : s.out.advance cfg owner budget out pc = .next o') :
    Place { s with out := o' } stage (o'.threads owner) := by
  cases h with
  | idle _ => cases hs
  | read _ _ => cases hs
  | accept _ => cases hs
  | resetting hsealer hst hpc =>
    rcases hpc.advance hs with rfl | rfl
    · rw [threads_goto]
      exact .resetting hsealer hst (.inr rfl)
    · rw [State.locked, threads_goto]
      exact .reset ⟨hsealer, binding_remove ..⟩ (.inl ⟨_, rfl⟩)
  | reset hg hpc =>
    rcases hpc with ⟨limit, rfl⟩ | ⟨d, result, rfl⟩ | ⟨last, rfl⟩
    · cases hs
      rw [State.output, threads_goto]
      exact .reset ⟨hg.sealer, hg.binding⟩ (.inr (.inl ⟨_, _, rfl⟩))
    · cases result with
      | none => cases hs
      | some result =>
        cases hs
        rw [State.returned, threads_unlock]
        exact .reset ⟨hg.sealer, hg.binding⟩ (.inr (.inr ⟨_, rfl⟩))
    · cases hs
  | hello hg hpc =>
    obtain ⟨hpc', hb⟩ := hpc.advance hside hs
    exact .hello ⟨hg.sealer, hb.trans hg.binding⟩ hpc'
  | skip _ => cases hs
  | answer _ => cases hs
  | ack hg hpc =>
    obtain ⟨hpc', hb⟩ := hpc.advance hside hs
    exact .ack ⟨hg.sealer, hb.trans hg.binding⟩ hpc'
  | @binding key key' pc hg hpc =>
    rcases hpc.advance hs with rfl | rfl
    · rw [threads_goto]
      exact .binding ⟨hg.sealer, hg.binding⟩ (.inr rfl)
    · rw [State.locked, threads_unlock]
      refine .bound hg.sealer rfl (fun hc => ?_) ?_
      · exact absurd (hbase.known _ hc) (lt_irrefl _)
      · show _ < (s.out.contexts ++ [_]).length
        simp
  | bound _ _ _ _ => cases hs
  | @ending error c pc hk hsealer hpc =>
    rcases hpc.advance hs with rfl | rfl
    · rw [threads_goto]
      exact .ending ⟨hk.sealer, hk.binding⟩ hsealer (.inr rfl)
    · dsimp only [State.locked]
      split_ifs with hb
      · rw [threads_unlock]
        have hnone := binding_remove s.out .finished
        refine .ended (hk.of_binding rfl rfl fun c' hc' => ?_) hnone
        exact absurd (hnone.symm.trans hc') (by simp)
      · rw [threads_unlock]
        have hnone : s.out.binding = none := by
          cases hb' : s.out.binding with
          | none => rfl
          | some c' =>
            have hc' := hk.binding c' hb'
            rw [hsealer, Option.some.injEq] at hc'
            rw [hc'] at hb
            exact absurd hb' hb
        exact .ended ⟨hk.sealer, hk.binding⟩ hnone
  | ended _ _ => cases hs

theorem Retired.advance (hside : cfg.side = .client) (h : Retired s) {budget : ℕ} {out : Output}
    {o' : State Transcript} (hs : s.out.step cfg (.advance owner budget out) = .next o') :
    Retired { s with out := o' } := by
  refine ⟨h.base.step (step_cases hs) fun u hu => ?_, h.place.advance hside h.base hs⟩
  rw [step_threads_of_ne hs hu]
  exact h.base.holders u hu

/-- A step of the outbound transport that is not the owner's program. -/
theorem Retired.handles (hside : cfg.side = .client) (h : Retired s)
    {a : Outbound.Action Transcript}
    (hon : onIssued s.returned a = true) {o' : State Transcript}
    (hs : Endpoint.handles cfg s.out a = .next o') : Retired { s with out := o' } := by
  unfold Endpoint.handles at hs
  split_ifs at hs with hpermit
  split at hs
  case h_2 => cases hs
  case h_3 => cases hs
  rename_i o'' hstep
  cases hs
  cases a with
  | call u call =>
    have hbegin : s.out.begin u call = .next o' := by
      dsimp only [State.step] at hstep
      split at hstep
      · exact hstep
      · cases hstep
    cases call with
    | send c message =>
      have hu : u ≠ owner := of_decide_eq_true hpermit
      have hc : c ∈ issued s.returned := of_decide_eq_true hon
      refine h.aside hu (step_cases hstep) ?_
      dsimp only [State.begin] at hbegin
      split_ifs at hbegin
      cases hbegin
      exact .keep rfl hc rfl rfl
    | finishReceive c result => cases hpermit
    | locked call =>
      cases call with
      | disconnect c =>
        have hu : u ≠ owner := of_decide_eq_true hpermit
        have hc : c ∈ issued s.returned := of_decide_eq_true hon
        cases hbegin
        exact h.aside hu (step_cases hstep) (.keep rfl hc rfl rfl)
      | _ => cases hpermit
  | advance u budget out =>
    by_cases hu : u = owner
    · subst hu
      exact h.advance hside hstep
    · exact h.aside hu (step_cases hstep) (aside_advance hside (h.base.holders u hu) hstep)

/-! ### The owner's program -/

namespace Base

variable {last : Value}

/-- The stage, the reader and the ghost of the inbox play no part. -/
theorem congr (h : Base s) (ho : s'.out = s.out) (hr : s'.returned = s.returned)
    (hi : s'.inbox.receiver.isSome = s.inbox.receiver.isSome) (hs : s'.sealer = s.sealer) :
    Base s' := by
  refine ⟨?_, ?_, ?_, ?_, ?_⟩
  · rw [ho]
    exact h.exclusive
  · rw [ho]
    exact h.writing
  · rw [ho, hr]
    exact h.holders
  · rw [hi, hs]
    exact h.paired
  · rw [ho, hr]
    exact h.known

theorem released (h : Base s) : Base s.released :=
  ⟨h.exclusive, h.writing, h.holders, rfl, h.known⟩

/-- The owner's thread takes a step. -/
theorem own (h : Base s) {o' : State Transcript} {pc : Pc Transcript} (hs : Step cfg s.out o')
    (ht : o'.threads = Function.update s.out.threads owner pc) : Base { s with out := o' } := by
  refine h.step hs fun u hu => ?_
  rw [ht, Function.update_of_ne hu]
  exact h.holders u hu

theorem calls (h : Base s) (cfg : Config Transcript) (hidle : s.out.threads owner = .idle last)
    (call : Locked Transcript) : Base { s with out := Endpoint.calls s.out call } := by
  have hs : Step cfg s.out (Endpoint.calls s.out call) := .beginLocked hidle
  exact h.own hs rfl

theorem received (h : Base s) (cfg : Config Transcript) (hidle : s.out.threads owner = .idle last)
    (c : ℕ) (opened : Except TransportError Bytes) :
    Base { s with out := s.out.received owner c (s.out.finishReceive c opened) } := by
  have hs : Step cfg s.out (s.out.received owner c (s.out.finishReceive c opened)) := by
    refine .receive hidle fun hok => ?_
    unfold State.finishReceive at hok
    split_ifs at hok with hb
    · exact hb
    · cases hok
  exact h.own hs rfl

/-- A call of the client other than a `connect` that succeeds returns. -/
theorem returns (h : Base s) {r : Returned} (hr : ∀ c, r ≠ .connected c) : Base (s.returns r) := by
  have hissued : issued (s.returned ++ [r]) = issued s.returned := by
    rw [issued, List.filterMap_append]
    cases r with
    | connected c => exact absurd rfl (hr c)
    | _ => exact List.append_nil _
  refine ⟨h.exclusive, h.writing, ?_, h.paired, ?_⟩
  · show ∀ t, t ≠ owner → Holder (· ∈ issued (s.returned ++ [r])) _
    rw [hissued]
    exact h.holders
  · show ∀ c ∈ issued (s.returned ++ [r]), _
    rw [hissued]
    exact h.known

end Base

section Own

variable {last : Value}

theorem retired_failed (h : Base s) (hidle : s.out.threads owner = .idle last) (hg : Gone s)
    (error : TransportError) : Retired (s.returns (.failed error)) := by
  refine ⟨h.returns (fun c => (by simp)), ?_⟩
  show Place _ .idle (s.out.threads owner)
  rw [hidle]
  refine .idle ⟨?_, fun c hc => absurd hc hg.not_bound⟩
  show s.sealer = standing (s.returned ++ [_])
  rw [hg.sealer, standing_append]
  rfl

theorem retired_endSession (h : Base s) (cfg : Config Transcript)
    (hidle : s.out.threads owner = .idle last) (hk : Kept s) (error : TransportError) :
    Retired (s.endSession error) := by
  unfold Client.endSession
  split
  · rename_i c hc
    refine ⟨(h.calls cfg hidle (.finish c)).congr rfl rfl rfl rfl, ?_⟩
    show Place _ (.ending error) ((Endpoint.calls s.out (.finish c)).threads owner)
    rw [Endpoint.calls, threads_goto]
    exact .ending ⟨hk.sealer, hk.binding⟩ hc (.inl rfl)
  · rename_i hnone
    have hgone : Gone s.released := by
      refine ⟨rfl, ?_⟩
      show s.out.binding = none
      cases hb : s.out.binding with
      | none => rfl
      | some c =>
        have hc := hk.binding c hb
        rw [hnone] at hc
        cases hc
    exact retired_failed h.released hidle hgone error

/-- The owner gives up the session and notes why. -/
theorem retired_marked (h : Base s) (cfg : Config Transcript)
    (hidle : s.out.threads owner = .idle last) (hk : Kept s) (status : Status)
    (error : TransportError) :
    Retired ({ s with inbox := s.inbox.mark status }.endSession error) := by
  have hmark : Base { s with inbox := s.inbox.mark status } := h.congr rfl rfl rfl rfl
  exact retired_endSession hmark cfg hidle ⟨hk.sealer, hk.binding⟩ error

theorem retired_connect (h : Base s) (cfg : Config Transcript)
    (hidle : s.out.threads owner = .idle last) (hk : Kept s) (codec : Codec) (hello : HostHello)
    (deadline : ℕ) : Retired (s.connect codec hello deadline) := by
  dsimp only [Client.connect]
  split
  · exact retired_marked h cfg hidle hk _ _
  · rename_i bytes _
    refine ⟨(h.released.calls cfg hidle (.sendReset deadline)).congr rfl rfl rfl rfl, ?_⟩
    show Place _ (.reset hello bytes deadline)
      ((Endpoint.calls s.out (.sendReset deadline)).threads owner)
    rw [Endpoint.calls, threads_goto]
    exact .resetting rfl (fun c hc => hk.standing_of_bound hc) (.inl rfl)

theorem retired_sent (h : Base s) (hidle : s.out.threads owner = .idle last) (hg : Gone s)
    (result : Except TransportError Unit) {next : Client} (hnext : Retired next) :
    Retired (s.sent result next) := by
  unfold Client.sent
  split
  · exact hnext
  · exact retired_failed h hidle hg _

/-- The owner calls the outbound transport with no session left. -/
theorem retired_calls (h : Base s) (cfg : Config Transcript)
    (hidle : s.out.threads owner = .idle last) {call : Locked Transcript} {stage : Stage}
    (hp : Place { s with out := Endpoint.calls s.out call, stage } stage (.waitWriter call)) :
    Retired { s with out := Endpoint.calls s.out call, stage } := by
  refine ⟨(h.calls cfg hidle call).congr rfl rfl rfl rfl, ?_⟩
  show Place _ stage ((Endpoint.calls s.out call).threads owner)
  rw [Endpoint.calls, threads_goto]
  exact hp

theorem retired_skipped (h : Base s) (hidle : s.out.threads owner = .idle last) (hg : Gone s)
    (hello : HostHello) (deadline : ℕ) (packet : Except TransportError (Option Bytes)) :
    Retired (s.skipped codec hello deadline packet) := by
  have hnamed : ∀ packet, Retired (Client.skipped.named codec hello deadline s packet) := by
    intro packet
    unfold Client.skipped.named
    split
    · refine ⟨h.congr rfl rfl rfl rfl, ?_⟩
      show Place _ _ (s.out.threads owner)
      rw [hidle]
      exact .answer ⟨hg.sealer, hg.binding⟩
    · refine ⟨h.congr rfl rfl rfl rfl, ?_⟩
      show Place _ _ (s.out.threads owner)
      rw [hidle]
      exact .skip ⟨hg.sealer, hg.binding⟩
  unfold Client.skipped
  split
  · exact hnamed _
  · exact hnamed _
  · exact hnamed _
  · exact hnamed _
  · exact retired_failed h hidle hg _

theorem retired_heard (h : Base s) (cfg : Config Transcript)
    (hidle : s.out.threads owner = .idle last) (hk : Kept s)
    {packet : Except TransportError (Option Bytes)} (hs : s.heard opens packet = .next s') :
    Retired s' := by
  unfold Client.heard at hs
  split at hs
  · cases hs
    exact retired_marked h cfg hidle hk _ _
  · cases hs
    exact retired_marked h cfg hidle hk _ _
  · rename_i packet
    split at hs
    · rename_i rx c hrx hc
      cases hs
      have hsome : (s.inbox.openPacket opens rx packet).1.receiver.isSome =
          s.inbox.receiver.isSome := by
        rw [hrx]
        unfold Inbox.openPacket
        split
        · rfl
        · show s.inbox.receiver.isSome = _
          rw [hrx]
      refine ⟨h.congr rfl rfl hsome rfl, ?_⟩
      show Place _ (.accept _ _) (s.out.threads owner)
      rw [hidle]
      exact .accept ⟨hk.sealer, hk.binding⟩
    · cases hs

theorem retired_accepted (h : Base s) (cfg : Config Transcript)
    (hidle : s.out.threads owner = .idle last) (hk : Kept s)
    (opened result : Except TransportError Bytes) : Retired (s.accepted opened result) := by
  unfold Client.accepted
  split
  · rename_i message
    have hbase : Base { s with inbox := s.inbox.deliver message } :=
      h.congr rfl rfl rfl rfl
    refine ⟨hbase.returns (fun c => (by simp)), ?_⟩
    show Place _ .idle (s.out.threads owner)
    rw [hidle]
    refine .idle ⟨?_, hk.binding⟩
    show s.sealer = standing (s.returned ++ [_])
    rw [standing_append]
    exact hk.sealer
  · split
    · exact retired_marked h cfg hidle hk _ _
    · exact retired_endSession h cfg hidle hk _

theorem issued_connected (returned : List Returned) (c : ℕ) :
    issued (returned ++ [.connected c]) = issued returned ++ [c] := by
  rw [issued, List.filterMap_append]
  rfl

/-- A new session stands. -/
theorem retired_connected (h : Base s) {c : ℕ} (hidle : s.out.threads owner = .idle last)
    (hb : s.out.binding = some c) (hlt : c < s.out.contexts.length) (key : Transcript) :
    Retired ({ s with inbox := s.inbox.establish key c, sealer := some c }.returns
      (.connected c)) := by
  refine ⟨⟨h.exclusive, h.writing, fun t ht => ?_, rfl, fun c' hc' => ?_⟩, ?_⟩
  · refine (h.holders t ht).mono fun c' hc' => ?_
    show c' ∈ issued (s.returned ++ [_])
    rw [issued_connected, List.mem_append]
    exact .inl hc'
  · change c' ∈ issued (s.returned ++ [_]) at hc'
    rw [issued_connected, List.mem_append, List.mem_singleton] at hc'
    rcases hc' with hc' | rfl
    · exact h.known c' hc'
    · exact hlt
  · show Place _ .idle (s.out.threads owner)
    rw [hidle]
    refine .idle ⟨?_, fun c' hc' => hb.symm.trans hc'⟩
    show some c = standing (s.returned ++ [_])
    rw [standing_append]
    rfl

theorem Retired.own (h : Retired s) {input : Input}
    (hs : s.own cfg codec opens input = .next s') : Retired s' := by
  unfold Client.own at hs
  split at hs
  case h_2 => cases hs
  rename_i value hidle
  have hbase := h.base
  have hplace := h.place
  rw [hidle] at hplace
  unfold Client.resume at hs
  generalize hstage : s.stage = stage at hplace hs
  split at hs
  case h_12 => cases hs
  · rename_i hello deadline
    cases hs
    cases hplace with
    | idle hk => exact retired_connect hbase cfg hidle hk codec hello deadline
  · cases hplace with
    | idle hk =>
      split at hs
      · rename_i hnone
        cases hs
        have hsealer : s.sealer = none := by
          have hpaired := hbase.paired
          rw [hnone] at hpaired
          exact Option.isNone_iff_eq_none.mp (by rw [← Option.not_isSome, ← hpaired]; rfl)
        have hbinding : s.out.binding = none := by
          cases hb : s.out.binding with
          | none => rfl
          | some c =>
            have hc := hk.binding c hb
            rw [hsealer] at hc
            cases hc
        exact retired_failed hbase hidle ⟨hsealer, hbinding⟩ _
      · rename_i rx hrx
        cases hs
        have hsome : s.sealer.isSome = true := by
          rw [← hbase.paired, hrx]
          rfl
        refine ⟨hbase.congr rfl rfl rfl rfl, ?_⟩
        show Place _ (.read .search) (s.out.threads owner)
        rw [hidle]
        exact .read ⟨hk.sealer, hk.binding⟩ hsome
  · have hg : Gone s := by
      cases hplace with
      | resetting _ _ hpc => rcases hpc with hpc | hpc <;> cases hpc
      | reset hg _ => exact hg
    split at hs
    · cases hs
      exact retired_sent hbase hidle hg _
        (retired_calls hbase cfg hidle (.hello ⟨hg.sealer, hg.binding⟩ .waits))
    · cases hs
  · have hg : Gone s := by
      cases hplace with
      | hello hg _ => exact hg
    split at hs
    · cases hs
      refine retired_sent hbase hidle hg _ ⟨hbase.congr rfl rfl rfl rfl, ?_⟩
      show Place _ (.skip _ _ _) (s.out.threads owner)
      rw [hidle]
      exact .skip ⟨hg.sealer, hg.binding⟩
    · cases hs
  · have hg : Gone s := by
      cases hplace with
      | skip hg => exact hg
    split at hs
    · cases hs
      refine ⟨hbase.congr rfl rfl rfl rfl, ?_⟩
      show Place _ (.skip _ _ _) (s.out.threads owner)
      rw [hidle]
      exact .skip ⟨hg.sealer, hg.binding⟩
    · cases hs
      refine @retired_skipped codec _ value ?_ ?_ ?_ _ _ _
      · exact hbase.congr rfl rfl rfl rfl
      · exact hidle
      · exact ⟨hg.sealer, hg.binding⟩
  · have hg : Gone s := by
      cases hplace with
      | answer hg => exact hg
    split at hs
    · cases hs
      exact retired_failed hbase hidle hg _
    · cases hs
      exact retired_calls hbase cfg hidle (.ack ⟨hg.sealer, hg.binding⟩ .waits)
  · have hg : Gone s := by
      cases hplace with
      | ack hg _ => exact hg
    split at hs
    · cases hs
      exact retired_sent hbase hidle hg _
        (retired_calls hbase cfg hidle (.binding ⟨hg.sealer, hg.binding⟩ (.inl rfl)))
    · cases hs
  · split at hs
    · cases hs
      cases hplace with
      | binding _ hpc => rcases hpc with hpc | hpc <;> cases hpc
      | bound _ hb _ hlt => exact retired_connected hbase hidle hb hlt _
    · cases hs
  · cases hplace with
    | read hk hsome =>
      split at hs
      · cases hs
        refine ⟨hbase.congr rfl rfl rfl rfl, ?_⟩
        show Place _ (.read _) (s.out.threads owner)
        rw [hidle]
        exact .read ⟨hk.sealer, hk.binding⟩ hsome
      · refine @retired_heard opens _ s' value ?_ cfg ?_ ?_ _ hs
        · exact hbase.congr rfl rfl rfl rfl
        · exact hidle
        · exact ⟨hk.sealer, hk.binding⟩
  · cases hplace with
    | accept hk =>
      cases hs
      exact retired_accepted (hbase.received cfg hidle _ _) cfg (threads_received ..)
        ⟨hk.sealer, hk.binding⟩ _ _
  · cases hs
    cases hplace with
    | ending _ _ hpc => rcases hpc with hpc | hpc <;> cases hpc
    | ended _ hnone => exact retired_failed hbase.released hidle ⟨rfl, hnone⟩ _

end Own

theorem retired_init (framer : Writer) (supply : Bytes) :
    Retired (issuing cfg codec opens framer supply).init := by
  refine ⟨⟨?_, ?_, ?_, rfl, ?_⟩, ?_⟩
  · exact exclusive_init framer
  · intro t p hp
    cases hp
  · intro t ht
    trivial
  · intro c hc
    cases hc
  · exact .idle ⟨rfl, fun c hc => (by cases hc)⟩

theorem Retired.step (hside : cfg.side = .client) {framer : Writer} {supply : Bytes}
    {a : Client.Action} (h : Retired s)
    (hs : (issuing cfg codec opens framer supply).step s a = .next s') : Retired s' := by
  cases a with
  | own input => exact h.own hs
  | handle a =>
    dsimp only [issuing] at hs
    split_ifs at hs with hon
    dsimp only [client] at hs
    split at hs
    · rename_i o' hstep
      cases hs
      exact h.handles hside hon hstep
    · cases hs
    · cases hs
  | feed bytes =>
    cases hs
    exact ⟨h.base.congr rfl rfl rfl rfl, h.place.keep rfl rfl rfl (.inl rfl)⟩

theorem retired_reachable (hside : cfg.side = .client) {framer : Writer} {supply : Bytes}
    (h : (issuing cfg codec opens framer supply).Reachable s) : Retired s :=
  h.invariant (retired_init framer supply) fun _ _ _ _ hi hs => hi.step hside hs

/-! ### What the owner's calls return -/

/-- What a step of the owner adds to what its calls have returned. -/
inductive Answers (s s' : Client) : Prop
  | nothing : s'.returned = s.returned → Answers s s'
  | other {r : Returned} : (∀ c, r ≠ .connected c) → s'.returned = s.returned ++ [r] →
      s'.stage = .idle → Answers s s'
  | connected {key : Transcript} {c : ℕ} : s.stage = .bind key →
      s.out.threads owner = .idle (.bound c) →
      s' = { s with inbox := s.inbox.establish key c, sealer := some c }.returns (.connected c) →
      Answers s s'

/-- A step of the owner moves only its own thread. -/
structure Moves (s s' : Client) : Prop where
  threads : ∀ t, t ≠ owner → s'.out.threads t = s.out.threads t
  answers : Answers s s'

theorem moves_returns (ho : s'.out = s.out) (hr : s'.returned = s.returned) {r : Returned}
    (hne : ∀ c, r ≠ .connected c) : Moves s (s'.returns r) := by
  refine ⟨fun t ht => (by show s'.out.threads t = _; rw [ho]), .other hne ?_ rfl⟩
  show s'.returned ++ [r] = _
  rw [hr]

theorem moves_calls {call : Locked Transcript} (ho : s'.out = calls s.out call)
    (hr : s'.returned = s.returned) : Moves s s' := by
  refine ⟨fun t ht => ?_, .nothing hr⟩
  rw [ho]
  exact Function.update_of_ne ht ..

theorem moves_still (ho : s'.out = s.out) (hr : s'.returned = s.returned) : Moves s s' :=
  ⟨fun t ht => (by rw [ho]), .nothing hr⟩

theorem moves_endSession (ht : ∀ t, t ≠ owner → s'.out.threads t = s.out.threads t)
    (hr : s'.returned = s.returned) (error : TransportError) : Moves s (s'.endSession error) := by
  unfold Client.endSession
  split
  · refine ⟨fun t hne => ?_, .nothing hr⟩
    exact (Function.update_of_ne hne ..).trans (ht t hne)
  · refine ⟨ht, .other (r := .failed error) (fun c => (by simp)) ?_ rfl⟩
    show s'.returned ++ [_] = _
    rw [hr]

theorem moves_sent (result : Except TransportError Unit) {next : Client} (hnext : Moves s next) :
    Moves s (s.sent result next) := by
  unfold Client.sent
  split
  · exact hnext
  · exact moves_returns rfl rfl (fun c => (by simp))

theorem moves_own {input : Input} (hs : s.own cfg codec opens input = .next s') : Moves s s' := by
  unfold Client.own at hs
  split at hs
  case h_2 => cases hs
  rename_i value hidle
  unfold Client.resume at hs
  split at hs
  case h_12 => cases hs
  · cases hs
    dsimp only [Client.connect]
    split
    · refine moves_endSession ?_ ?_ _
      · exact fun _ _ => rfl
      · rfl
    · exact moves_calls rfl rfl
  · split at hs
    · cases hs
      exact moves_returns rfl rfl (fun c => (by simp))
    · cases hs
      exact moves_still rfl rfl
  · split at hs
    · cases hs
      exact moves_sent _ (moves_calls rfl rfl)
    · cases hs
  · split at hs
    · cases hs
      exact moves_sent _ (moves_still rfl rfl)
    · cases hs
  · split at hs
    · cases hs
      exact moves_still rfl rfl
    · cases hs
      unfold Client.skipped Client.skipped.named
      split
      case h_5 =>
        refine moves_returns ?_ ?_ (fun c => (by simp))
        · rfl
        · rfl
      all_goals
        split
        · exact moves_still rfl rfl
        · exact moves_still rfl rfl
  · split at hs
    · cases hs
      exact moves_returns rfl rfl (fun c => (by simp))
    · cases hs
      exact moves_calls rfl rfl
  · split at hs
    · cases hs
      exact moves_sent _ (moves_calls rfl rfl)
    · cases hs
  · split at hs
    · cases hs
      exact ⟨fun _ _ => rfl, .connected (by assumption) hidle rfl⟩
    · cases hs
  · split at hs
    · cases hs
      exact moves_still rfl rfl
    · unfold Client.heard at hs
      split at hs
      · cases hs
        refine moves_endSession ?_ ?_ _
        · exact fun _ _ => rfl
        · rfl
      · cases hs
        refine moves_endSession ?_ ?_ _
        · exact fun _ _ => rfl
        · rfl
      · split at hs
        · cases hs
          exact moves_still rfl rfl
        · cases hs
  · cases hs
    have hthreads : ∀ t, t ≠ owner → ∀ c result, (s.out.received owner c result).threads t =
        s.out.threads t := fun t ht c result => Function.update_of_ne ht ..
    unfold Client.accepted
    split
    · exact ⟨fun t ht => hthreads t ht _ _, .other (fun c => (by simp)) rfl rfl⟩
    · split
      · refine moves_endSession ?_ ?_ _
        · exact fun t ht => hthreads t ht _ _
        · rfl
      · refine moves_endSession ?_ ?_ _
        · exact fun t ht => hthreads t ht _ _
        · rfl
  · cases hs
    refine moves_returns ?_ ?_ (fun c => (by simp))
    · rfl
    · rfl

/-- The owner finds its sending context whenever it has a receiving one. -/
theorem Retired.own_ne_panic (h : Retired s) (input : Input) (panic : Fault) :
    s.own cfg codec opens input ≠ .panic panic := by
  intro hs
  unfold Client.own at hs
  split at hs
  case h_2 => cases hs
  rename_i value hidle
  have hplace := h.place
  rw [hidle] at hplace
  have hpaired := h.base.paired
  unfold Client.resume at hs
  generalize s.stage = stage at hplace hs
  split at hs
  case h_9 =>
    cases hplace with
    | read hk hsome =>
      split at hs
      · cases hs
      · unfold Client.heard at hs
        split at hs
        · cases hs
        · cases hs
        · split at hs
          · cases hs
          · rename_i hnot
            obtain ⟨c, hc⟩ := Option.isSome_iff_exists.mp hsome
            rw [hsome] at hpaired
            obtain ⟨rx, hrx⟩ := Option.isSome_iff_exists.mp hpaired
            exact hnot rx c hrx hc
  all_goals first
    | cases hs
    | split at hs <;> cases hs

theorem Place.not_sends {stage : Stage} {pc : Pc Transcript} (h : Place s stage pc) :
    sendsOn pc = none := by
  cases h with
  | resetting _ _ hpc => rcases hpc with rfl | rfl <;> rfl
  | reset _ hpc => rcases hpc with ⟨_, rfl⟩ | ⟨_, _, rfl⟩ | ⟨_, rfl⟩ <;> rfl
  | hello _ hpc => cases hpc <;> rfl
  | ack _ hpc => cases hpc <;> rfl
  | binding _ hpc => rcases hpc with rfl | rfl <;> rfl
  | ending _ _ hpc => rcases hpc with rfl | rfl <;> rfl
  | _ => rfl

/-! ### The law -/

/-- A send of thread `t` is neither handed to the adapter by a step nor returns `Ok` from it. -/
structure Refuses (s : Client) (a : Client.Action) (s' : Client) (t : ℕ) : Prop where
  untouched : ∀ budget out, a = .handle (.advance t budget out) → s'.out.framer = s.out.framer
  fails : ∀ value, s'.out.threads t = .idle value → ∃ error, value = .sent (.error error)

variable {framer : Writer} {supply : Bytes} {a : Client.Action}

theorem handle_step {a : Outbound.Action Transcript}
    (hs : (issuing cfg codec opens framer supply).step s (.handle a) = .next s') :
    onIssued s.returned a = true ∧ permitted a = true ∧
      ∃ o', s.out.step cfg a = .next o' ∧ s' = { s with out := o' } := by
  dsimp only [issuing] at hs
  split_ifs at hs with hon
  dsimp only [client] at hs
  split at hs
  · rename_i o' hstep
    cases hs
    unfold Endpoint.handles at hstep
    split_ifs at hstep with hpermit
    split at hstep
    · rename_i o'' hout
      cases hstep
      exact ⟨hon, hpermit, _, hout, rfl⟩
    · cases hstep
    · cases hstep
  · cases hs
  · cases hs

/-- A step of the outbound transport panics only in a send. -/
theorem handle_ne_missing {a : Outbound.Action Transcript} :
    (issuing cfg codec opens framer supply).step s (.handle a) ≠ .panic .missingContext := by
  intro hs
  dsimp only [issuing] at hs
  split_ifs at hs with hon
  dsimp only [client, Endpoint.handles] at hs
  split at hs
  · cases hs
  · rename_i panic hpanic
    cases hs
    split_ifs at hpanic
    split at hpanic
    · cases hpanic
    · cases hpanic
    · cases hpanic
  · cases hs

theorem Retired.refuses (h : Retired s)
    (hs : (issuing cfg codec opens framer supply).step s a = .next s') {c : ℕ}
    (hc : sendsOn (s.out.threads t) = some c) (hst : standing s.returned ≠ some c) :
    Refuses s a s' t := by
  have hne : t ≠ owner := by
    rintro rfl
    rw [h.place.not_sends] at hc
    cases hc
  have hissued := (h.base.holders t hne).sends hc
  have hb : s.out.binding ≠ some c := fun hb => hst (h.place.standing_of_bound hissued hb)
  have hstays : s'.out.threads t = s.out.threads t →
      ∀ value, s'.out.threads t = .idle value → ∃ error, value = .sent (.error error) := by
    intro heq value hv
    rw [← heq, hv] at hc
    cases hc
  cases a with
  | own input =>
    refine ⟨fun _ _ ha => (by cases ha), hstays ?_⟩
    exact (moves_own hs).threads t hne
  | feed bytes =>
    cases hs
    exact ⟨fun _ _ ha => (by cases ha), hstays rfl⟩
  | handle a =>
    obtain ⟨-, -, o', hstep, rfl⟩ := handle_step hs
    by_cases ht : t = actor a
    · cases a with
      | call u call =>
        subst ht
        dsimp only [State.step, actor] at hstep hc
        split at hstep
        · rename_i last hidle
          rw [hidle] at hc
          cases hc
        · cases hstep
      | advance u budget out =>
        subst ht
        obtain ⟨hframer, hfails⟩ := refused_advance h.base.writing hc hb hstep
        exact ⟨fun _ _ _ => hframer, hfails⟩
    · refine ⟨?_, hstays (step_threads_of_ne hstep ht)⟩
      rintro budget out ⟨⟩
      exact absurd rfl ht

/-- A send on session `c` that has the locks to itself goes on to the adapter. -/
def Usable (m : Machine Client Client.Action Fault) (cfg : Config Transcript) (s : Client) (c : ℕ) :
    Prop :=
  ∀ t message budget out, t ≠ owner → Alone cfg s.out t c message →
    ∃ s' p, m.run ((sending t c message budget out).map .handle) s = some s' ∧
      s'.out.threads t = .output (.packet p) none ∧ p.context = c

/-- A send on session `c` that has the locks to itself returns an error and leaves the adapter
alone. -/
def Refused (m : Machine Client Client.Action Fault) (cfg : Config Transcript)
    (s : Client) (c : ℕ) :
    Prop :=
  ∀ t message budget out, t ≠ owner → Alone cfg s.out t c message →
    ∃ s', m.run ((sending t c message budget out).map .handle) s = some s' ∧
      s'.out.threads t = .idle (.sent (.error sessionEnded)) ∧ s'.out.framer = s.out.framer

/-- The calls on issued senders of a run of the outbound transport are a run of the client. -/
theorem run_handles :
    ∀ {as : List (Outbound.Action Transcript)} {s : Client} {o' : State Transcript},
    (∀ a ∈ as, onIssued s.returned a = true ∧ permitted a = true) →
    (outbound cfg framer).run as s.out = some o' →
    (issuing cfg codec opens framer supply).run (as.map .handle) s = some { s with out := o' }
  | [], s, o', _, hr => by
    cases hr
    rfl
  | a :: as, s, o', has, hr => by
    obtain ⟨hon, hpermit⟩ := has a (by simp)
    simp only [Machine.run] at hr
    split at hr
    · rename_i o₁ h₁
      have hstep : (issuing cfg codec opens framer supply).step s (.handle a) =
          .next { s with out := o₁ } := by
        have h₁' : s.out.step cfg a = .next o₁ := h₁
        simp only [issuing, client, Endpoint.handles, hon, hpermit, h₁', if_true]
      have htail := run_handles (s := { s with out := o₁ })
        (fun b hb => has b (List.mem_cons_of_mem _ hb)) hr
      simp only [List.map_cons, Machine.run, hstep]
      exact htail
    · cases hr

theorem onIssued_sending {c : ℕ} (hc : c ∈ issued s.returned) (hne : t ≠ owner) (message : Bytes)
    (budget : ℕ) (out : Output) (a : Outbound.Action Transcript)
    (ha : a ∈ sending t c message budget out) :
    onIssued s.returned a = true ∧ permitted a = true := by
  rcases List.mem_cons.mp ha with rfl | ha
  · exact ⟨decide_eq_true hc, decide_eq_true hne⟩
  · rw [List.eq_of_mem_replicate ha]
    exact ⟨rfl, rfl⟩

theorem usable_of_bound {c : ℕ} (hc : c ∈ issued s.returned) (hb : s.out.binding = some c) :
    Usable (issuing cfg codec opens framer supply) cfg s c := by
  intro t message budget out hne halone
  obtain ⟨o', p, hrun, hp, -, hpc⟩ := run_sending halone framer budget out
  rw [if_pos hb] at hpc
  exact ⟨_, p, run_handles (onIssued_sending hc hne message budget out) hrun, hpc, hp⟩

theorem refused_of_not_bound {c : ℕ} (hc : c ∈ issued s.returned) (hb : s.out.binding ≠ some c) :
    Refused (issuing cfg codec opens framer supply) cfg s c := by
  intro t message budget out hne halone
  obtain ⟨o', p, hrun, -, hframer, hpc⟩ := run_sending halone framer budget out
  rw [if_neg hb] at hpc
  exact ⟨_, run_handles (onIssued_sending hc hne message budget out) hrun, hpc, hframer⟩

theorem step_answers (hs : (issuing cfg codec opens framer supply).step s a = .next s') :
    Answers s s' := by
  cases a with
  | own input => exact (moves_own hs).answers
  | handle a =>
    obtain ⟨-, -, o', -, rfl⟩ := handle_step hs
    exact .nothing rfl
  | feed bytes =>
    cases hs
    exact .nothing rfl

/-- A call that failed has left nothing. -/
theorem Retired.failed (h : Retired s') (ha : Answers s s') {error : TransportError}
    (hr : s'.returned = s.returned ++ [.failed error]) :
    s'.inbox.receiver = none ∧ s'.sealer = none ∧ s'.out.binding = none := by
  have hidle : s'.stage = .idle := by
    cases ha with
    | nothing heq =>
      rw [heq] at hr
      simp at hr
    | other _ _ hidle => exact hidle
    | connected _ _ heq => rw [heq]; rfl
  have hplace := h.place
  rw [hidle] at hplace
  generalize s'.out.threads owner = pc at hplace
  cases hplace with
  | idle hk =>
    have hsealer : s'.sealer = none := by
      rw [hk.sealer, hr, standing_append]
      rfl
    refine ⟨?_, hsealer, ?_⟩
    · have hpaired := h.base.paired
      rw [hsealer] at hpaired
      exact Option.not_isSome_iff_eq_none.mp (by rw [hpaired]; simp)
    · cases hb : s'.out.binding with
      | none => rfl
      | some c =>
        have hc := hk.binding c hb
        rw [hsealer] at hc
        cases hc

/-- A `connect` that succeeded has put a new session in place. -/
theorem Retired.connected (h : Retired s) (ha : Answers s s') {c : ℕ}
    (hr : s'.returned = s.returned ++ [.connected c]) :
    c ∉ issued s.returned ∧ s'.out.binding = some c := by
  cases ha with
  | nothing heq =>
    rw [heq] at hr
    simp at hr
  | @other r hne heq _ =>
    rw [heq] at hr
    have hlast := List.append_cancel_left hr
    cases hlast
    exact absurd rfl (hne c)
  | @connected key c' hstage hidle heq =>
    subst heq
    have hc : c' = c := by
      have hlast := List.append_cancel_left hr
      simpa using hlast
    have hplace := h.place
    rw [hstage, hidle] at hplace
    cases hplace with
    | binding _ hpc => rcases hpc with hpc | hpc <;> cases hpc
    | bound _ hb hfresh _ =>
      rw [← hc]
      exact ⟨hfresh, hb⟩

/-- **A failing client call leaves no session behind.** In every reachable state of a client:
* it has a receiving context exactly when it has a sending one, and `recv` always finds the latter;
* a call that returns an error leaves neither, and no binding;
* without a standing session, every send on every issued sender returns an error and leaves the
  adapter alone, whether it begins now or is under way;
* when `connect` returns `Ok`, the sender it returns is new and is usable, and no other sender
  is. -/
theorem failing_call_retires (hside : cfg.side = .client)
    (h : (issuing cfg codec opens framer supply).Reachable s) :
    s.inbox.receiver.isSome = s.sealer.isSome ∧
    (∀ a, (issuing cfg codec opens framer supply).step s a ≠ .panic .missingContext) ∧
    (standing s.returned = none → ∀ c ∈ issued s.returned,
      Refused (issuing cfg codec opens framer supply) cfg s c) ∧
    ∀ a s', (issuing cfg codec opens framer supply).step s a = .next s' →
      (∀ error, s'.returned = s.returned ++ [.failed error] →
        s'.inbox.receiver = none ∧ s'.sealer = none ∧ s'.out.binding = none) ∧
      (∀ c, s'.returned = s.returned ++ [.connected c] → c ∉ issued s.returned ∧
        ∀ c' ∈ issued s'.returned,
          (c' = c → Usable (issuing cfg codec opens framer supply) cfg s' c') ∧
          (c' ≠ c → Refused (issuing cfg codec opens framer supply) cfg s' c')) ∧
      ∀ t c, sendsOn (s.out.threads t) = some c → standing s.returned ≠ some c →
        Refuses s a s' t := by
  have hi := retired_reachable hside h
  refine ⟨hi.base.paired, fun a hpanic => ?_, fun hnone c hc => ?_, fun a s' hs => ?_⟩
  · cases a with
    | own input => exact hi.own_ne_panic input .missingContext hpanic
    | handle a => exact handle_ne_missing hpanic
    | feed bytes => cases hpanic
  · refine refused_of_not_bound hc fun hb => ?_
    have hst := hi.place.standing_of_bound hc hb
    rw [hnone] at hst
    cases hst
  · have hi' := hi.step hside hs
    have ha := step_answers hs
    refine ⟨fun error hr => hi'.failed ha hr, fun c hr => ?_,
      fun t c hc hst => hi.refuses hs hc hst⟩
    obtain ⟨hfresh, hb⟩ := hi.connected ha hr
    refine ⟨hfresh, fun c' hc' => ⟨?_, fun hne => ?_⟩⟩
    · rintro rfl
      exact usable_of_bound hc' hb
    · refine refused_of_not_bound hc' fun hb' => ?_
      rw [hb, Option.some.injEq] at hb'
      exact hne hb'.symm

end Issuing

/-- Whether a thread is in no call. -/
def isIdle : Pc K → Bool
  | .idle _ => true
  | _ => false

theorem isIdle_iff {pc : Pc K} : isIdle pc = true ↔ ∃ last, pc = .idle last := by
  cases pc <;> simp [isIdle]

/-- After a bad frame the sender of the session is refused. -/
theorem failing_call_retires_badFrame :
    let peer : Sealed := fun _ => [([7], [9, 7])]
    let m := issuing (smallConfig .client) smallCodec (openSealed peer) (.new 8)
      [2, 5, 0, 3, 9, 7, 0, 2, 8, 0]
    ∃ s, m.run badFrame m.init = some s ∧ issued s.returned = [0] ∧ standing s.returned = none ∧
      s.inbox.receiver.isSome = s.sealer.isSome ∧
      ∃ s', m.run ((sending 1 0 [3] 9 ⟨0, true, .ok (), [], 0, true, .ok (), 0⟩).map .handle) s =
          some s' ∧
        s'.out.threads 1 = .idle (.sent (.error sessionEnded)) ∧ s'.out.framer = s.out.framer := by
  intro peer m
  have hrun : (m.run badFrame m.init).map (fun s =>
      (issued s.returned, standing s.returned, s.out.writer, s.out.contexts.map (·.holder))) =
      some ([0], none, none, [none]) := by
    decide +kernel
  have hthread : (m.run badFrame m.init).elim false (fun s => isIdle (s.out.threads 1)) = true := by
    decide +kernel
  obtain ⟨s, hr, hs⟩ := Option.map_eq_some_iff.mp hrun
  rw [hr] at hthread
  simp only [Prod.mk.injEq] at hs
  obtain ⟨hissued, hstanding, hwriter, hcontexts⟩ := hs
  have halone : Alone (smallConfig .client) s.out 1 0 [3] := by
    refine ⟨isIdle_iff.mp hthread, hwriter, by decide, ?_⟩
    cases hx : s.out.contexts with
    | nil =>
      rw [hx] at hcontexts
      cases hcontexts
    | cons x xs =>
      rw [hx, List.map_cons, List.cons.injEq] at hcontexts
      refine ⟨x.key, x.seq, _, ?_, rfl⟩
      rw [← hcontexts.1]
      rfl
  obtain ⟨hpaired, -, hrefused, -⟩ :=
    failing_call_retires (rfl : (smallConfig .client).side = .client) (Machine.reachable_of_run hr)
  refine ⟨s, hr, hissued, hstanding, hpaired, ?_⟩
  exact hrefused hstanding 0 (by rw [hissued]; simp) 1 [3] 9 _ (by decide) halone

end ArkWire.Transport.Retirement
