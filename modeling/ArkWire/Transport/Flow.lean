import ArkWire.Transport.Company
import ArkWire.Transport.Recovery

/-! # A handshake packet and its session on the stream

`tape` is what a reader will make of the bytes an outbound transport had accepted. The owner sends a
handshake packet while nothing is bound and no other thread is at the frame writer (`Solo`), and
binds the session that follows it. What is on the tape goes through three phases.

* `Pending`: the packet is not handed to the frame writer yet. `front` are the frames before it.
* `Opened`: the packet was sent, and is the last frame.
* `Flows`: a context is bound. After the packet come packets of this context, in the order in which
  they were sealed.

A send that fails in a session may leave a part of its frame on the stream, which is no frame before
something follows it. Until the binding is removed nothing does (`Troubled`). -/

namespace ArkWire.Transport.Flow

open ArkWire.Lib.Machines ArkWire.Lib.Delimited
open ArkWire.Transport.Errors ArkWire.Transport.FrameReader ArkWire.Transport.FrameWriter
open ArkWire.Transport.Grammar (report)
open ArkWire.Transport.Outbound ArkWire.Transport.OutboundSteps ArkWire.Transport.Endpoint
open ArkWire.Transport.Company
open ArkWire.Transport.Numbering (written written_append)
open ArkWire.Transport.Recovery (report_encode)

variable {cfg : Config Transcript} {o o' : State Transcript} {t : ℕ}
  {P : List (Frame UInt8) → Prop} {bytes : Bytes}

/-- The frames of the bytes that were accepted. -/
def tape (cfg : Config Transcript) (o : State Transcript) : List (Frame UInt8) :=
  frames 0 cfg.maxFrame o.framer.accepted

/-- The frame of a packet. -/
def frameOf (cfg : Config Transcript) (packet : Bytes) : Frame UInt8 :=
  .piece (cfg.cobs.encode packet)

/-- The stream ends with a frame, and the frame writer knows. -/
def Clean (o : State Transcript) : Prop :=
  rest 0 o.framer.accepted = [] ∧ o.framer.resync = false

/-- The stream ends with a frame, or the frame writer is to resynchronise. -/
def Sane (o : State Transcript) : Prop :=
  rest 0 o.framer.accepted = [] ∨ o.framer.resync = true

/-- Nothing is bound, and none but the owner is at the frame writer. -/
structure Solo (o : State Transcript) : Prop where
  unbound : o.binding = none
  quiet : ∀ t, t ≠ owner → busy (o.threads t) = false

/-! ### One call of the frame writer -/

theorem Clean.sane (h : Clean o) : Sane o := .inl h.1

theorem accepted_grows (hs : Step cfg o o') : o.framer.accepted <+: o'.framer.accepted := by
  rcases framer_step hs with ⟨hf, -⟩ | ⟨t, job, limit, deadline, out, -, rfl⟩
  · rw [hf]
  · exact call_accepted cfg.cobs cfg.maxFrame ⟨job.send, deadline, out⟩ o.framer

/-- The recovery delimiter ends what a failed send has left. -/
theorem rest_lead (h : Sane o) : rest 0 (o.framer.accepted ++ lead o.framer) = [] := by
  unfold lead
  split_ifs with hr
  · exact rest_concat _
  · rw [List.append_nil]
    rcases h with h | h
    · exact h
    · exact absurd h hr

/-- A packet that was sent is one more frame. -/
theorem frames_packet (hc : cfg.cobs.Lawful) {packet : Bytes}
    (hfit : cfg.cobs.encodeBuffer packet.length ≤ cfg.maxFrame) {front : Bytes}
    (h : rest 0 front = []) :
    frames 0 cfg.maxFrame (front ++ (cfg.cobs.encode packet ++ [0])) =
        frames 0 cfg.maxFrame front ++ [frameOf cfg packet] ∧
      rest 0 (front ++ (cfg.cobs.encode packet ++ [0])) = [] := by
  have hlen := hc.length_encode packet
  have hz := hc.encode_nonzero packet
  refine ⟨?_, ?_⟩
  · rw [frames_append h, frames_append_delim hz, frames_nil, classify, if_pos (by omega)]
    rfl
  · rw [← List.append_assoc]
    exact rest_concat _

/-- A part of a packet's frame is no frame but that one. -/
theorem frames_part (hc : cfg.cobs.Lawful) {packet part : Bytes}
    (hfit : cfg.cobs.encodeBuffer packet.length ≤ cfg.maxFrame) {front : Bytes}
    (h : rest 0 front = []) (hp : part <+: cfg.cobs.encode packet ++ [0]) :
    ∃ last, frames 0 cfg.maxFrame (front ++ part) = frames 0 cfg.maxFrame front ++ last ∧
      last <+: [frameOf cfg packet] := by
  obtain ⟨more, hmore⟩ := hp
  refine ⟨frames 0 cfg.maxFrame part, frames_append h part, ?_⟩
  have hnil : rest 0 ([] : Bytes) = [] := rfl
  have hone := (frames_packet hc hfit hnil).1
  rw [List.nil_append, frames_nil, List.nil_append, ← hmore] at hone
  rw [← hone]
  exact frames_initial part more

theorem sane_step (hcobs : cfg.cobs.Lawful) (hmax : 0 < cfg.maxFrame)
    (hg : FrameWriter.Good cfg.maxFrame o.framer) (h : Sane o) (hs : Step cfg o o') : Sane o' := by
  rcases framer_step hs with ⟨hf, -⟩ | ⟨t, job, limit, deadline, out, -, rfl⟩
  · unfold Sane
    rw [hf]
    exact h
  · show rest 0 (o.framer.call _ _ _).1.accepted = [] ∨ (o.framer.call _ _ _).1.resync = true
    have hcall := call_spec hcobs hmax hg ⟨job.send, deadline, out⟩
    generalize o.framer.call cfg.cobs cfg.maxFrame ⟨job.send, deadline, out⟩ = res at hcall ⊢
    obtain ⟨w, result⟩ := res
    dsimp only at hcall ⊢
    unfold Sane at h
    generalize o.framer = before at h hcall
    cases hcall with
    | refused hsend hbig => exact h
    | sent hfit hg hacc hres =>
      left
      rw [hacc]
      cases job.send with
      | packet p =>
        show rest 0 (before.accepted ++ (lead before ++ (cfg.cobs.encode p ++ [0]))) = []
        rw [← List.append_assoc, ← List.append_assoc]
        exact rest_concat _
      | dropped =>
        show rest 0 (before.accepted ++ (lead before ++ [0])) = []
        rw [← List.append_assoc]
        exact rest_concat _
      | reset =>
        show rest 0 (before.accepted ++ ([0] ++ [0])) = []
        rw [← List.append_assoc]
        exact rest_concat _
    | failed hfit hg hacc hp hres hr => exact .inr hres

/-- A call that succeeded had all its bytes accepted. -/
theorem call_ok (hcobs : cfg.cobs.Lawful) (hmax : 0 < cfg.maxFrame) {w : Writer}
    (hg : FrameWriter.Good cfg.maxFrame w) {c : FrameWriter.Call}
    (hok : (w.call cfg.cobs cfg.maxFrame c).2 = some (.ok ())) :
    (∀ p, c.send = .packet p → cfg.cobs.encodeBuffer p.length ≤ cfg.maxFrame) ∧
      (w.call cfg.cobs cfg.maxFrame c).1.accepted = w.accepted ++ wire cfg.cobs w c.send ∧
      (w.call cfg.cobs cfg.maxFrame c).1.resync = false := by
  have hcall := call_spec hcobs hmax hg c
  rw [hok] at hcall
  generalize (w.call cfg.cobs cfg.maxFrame c).1 = w' at hcall ⊢
  cases hcall with
  | sent hfit hg hacc hres => exact ⟨hfit, hacc, hres⟩
  | failed hfit hg hacc hp hres hr =>
    rcases hr with hr | ⟨error, hr⟩
    · cases hr
    · cases hr

theorem framer_output (o : State Transcript) (t : ℕ) (job : Job) (deadline : ℕ) (out : Output) :
    (o.output cfg t job deadline out).framer =
      (o.framer.call cfg.cobs cfg.maxFrame ⟨job.send, deadline, out⟩).1 := rfl

theorem threads_output (o : State Transcript) (t : ℕ) (job : Job) (deadline : ℕ) (out : Output) :
    (o.output cfg t job deadline out).threads t = .returning job deadline
      (o.framer.call cfg.cobs cfg.maxFrame ⟨job.send, deadline, out⟩).2 :=
  Function.update_self ..

/-- A reset that was sent leaves the stream at the end of a frame. -/
theorem clean_reset (hcobs : cfg.cobs.Lawful) (hmax : 0 < cfg.maxFrame)
    (hg : FrameWriter.Good cfg.maxFrame o.framer) {deadline : ℕ} {out : Output}
    (hok : (o.framer.call cfg.cobs cfg.maxFrame ⟨.reset, deadline, out⟩).2 = some (.ok ())) :
    Clean (o.output cfg t .reset deadline out) := by
  obtain ⟨-, hacc, hres⟩ := call_ok hcobs hmax hg hok
  unfold Clean
  rw [framer_output]
  refine ⟨?_, hres⟩
  have hzeros : wire cfg.cobs o.framer .reset = [0] ++ [0] := rfl
  show rest 0 (o.framer.call cfg.cobs cfg.maxFrame ⟨.reset, deadline, out⟩).1.accepted = []
  rw [hacc, hzeros, ← List.append_assoc]
  exact rest_concat _

/-- A packet that was sent is the last frame. -/
theorem clean_unsealed (hcobs : cfg.cobs.Lawful) (hmax : 0 < cfg.maxFrame)
    (hg : FrameWriter.Good cfg.maxFrame o.framer) (h : Sane o) {packet : Bytes} {deadline : ℕ}
    {out : Output}
    (hok : (o.framer.call cfg.cobs cfg.maxFrame ⟨.packet packet, deadline, out⟩).2 =
      some (.ok ())) :
    Clean (o.output cfg t (.unsealed packet) deadline out) ∧
      tape cfg (o.output cfg t (.unsealed packet) deadline out) =
        frames 0 cfg.maxFrame (o.framer.accepted ++ lead o.framer) ++ [frameOf cfg packet] := by
  obtain ⟨hfit, hacc, hres⟩ := call_ok hcobs hmax hg hok
  obtain ⟨hframes, hrest⟩ := frames_packet hcobs (hfit packet rfl) (rest_lead h)
  have hwire : (o.output cfg t (.unsealed packet) deadline out).framer.accepted =
      o.framer.accepted ++ lead o.framer ++ (cfg.cobs.encode packet ++ [0]) := by
    rw [List.append_assoc]
    exact hacc
  unfold Clean tape
  rw [hwire]
  exact ⟨⟨hrest, hres⟩, hframes⟩

/-! ### The owner alone at the stream -/

/-- The others cannot reach the frame writer. -/
theorem solo_aside (hst : Steady cfg o) (h : Solo o) {a : Action Transcript}
    (hp : permitted a = true) (hne : actor a ≠ owner) (hs : o.step cfg a = .next o') :
    Solo o' ∧ o'.framer = o.framer ∧ o'.threads owner = o.threads owner := by
  have hunbound : o'.binding = none := by
    rcases binding_cases (step_cases hs) with hb | hb | ⟨t, key, value, ht, rfl⟩
    · rw [hb]
      exact h.unbound
    · exact hb
    · exfalso
      have howner := bind_owner hst ht
      rw [howner] at ht
      have hkeep := step_threads_of_ne hs (Ne.symm hne)
      have hmoved : ((o.bind key).unlock t value).threads owner = .idle value := by
        rw [howner]
        exact threads_unlock ..
      rw [hmoved, ht] at hkeep
      cases hkeep
  refine ⟨⟨hunbound, fun u hu => ?_⟩, ?_, step_threads_of_ne hs (Ne.symm hne)⟩
  · by_cases hua : u = actor a
    · subst hua
      refine Bool.eq_false_iff.mpr fun hbusy => ?_
      rcases (moves_step hp hs).quiet (hst.roles _ hu) hbusy with hold | hbound
      · rw [h.quiet _ hu] at hold
        cases hold
      · exact hbound h.unbound
    · rw [step_threads_of_ne hs hua]
      exact h.quiet u hu
  · rcases framer_step (step_cases hs) with ⟨hf, -⟩ | ⟨t, job, limit, deadline, out, ht, rfl⟩
    · exact hf
    · exfalso
      have hmoved : (o.output cfg t job deadline out).threads t ≠ o.threads t := by
        rw [threads_output, ht]
        simp
      have hactor : t = actor a := by
        by_contra hta
        exact hmoved (step_threads_of_ne hs hta)
      have hbusy := h.quiet t (by rw [hactor]; exact hne)
      rw [ht] at hbusy
      cases hbusy

/-- The owner goes on, but not with a binding. -/
theorem solo_owner (hst : Steady cfg o) (h : Solo o)
    (hbind : ∀ key, o.threads owner ≠ .holdWriter (.bind key)) {a : Action Transcript}
    (hown : actor a = owner) (hs : o.step cfg a = .next o') : Solo o' := by
  refine ⟨?_, fun u hu => ?_⟩
  · rcases binding_cases (step_cases hs) with hb | hb | ⟨t, key, value, ht, rfl⟩
    · rw [hb]
      exact h.unbound
    · exact hb
    · rw [bind_owner hst ht] at ht
      exact absurd ht (hbind key)
  · rw [step_threads_of_ne hs (by rw [hown]; exact hu)]
    exact h.quiet u hu

/-- With the writer lock and without a binding the owner is alone. -/
theorem solo_of_held (hst : Steady cfg o) (hold : holdsWriter (o.threads owner) = true)
    (hb : o'.binding = none) (ht : ∀ u, u ≠ owner → o'.threads u = o.threads u) : Solo o' := by
  refine ⟨hb, fun u hu => ?_⟩
  rw [ht u hu]
  refine Bool.eq_false_iff.mpr fun hbusy => hu ?_
  refine hst.exclusive.writer.unique hold ?_
  generalize o.threads u = pc at hbusy
  cases pc with
  | output job limit => rfl
  | returning job deadline result => rfl
  | failed p deadline error => rfl
  | _ => cases hbusy

/-- A step of the owner in a call is its next one. -/
theorem owner_advance {a : Action Transcript} (hp : permitted a = true) (hown : actor a = owner)
    (hs : o.step cfg a = .next o') :
    ∃ budget out, a = .advance owner budget out ∧
      o.advance cfg owner budget out (o.threads owner) = .next o' := by
  cases a with
  | call t call => exact absurd hown.symm (Events.not_call_owner hp)
  | advance t budget out =>
    change t = owner at hown
    subst hown
    exact ⟨budget, out, rfl, hs⟩

/-- While the owner is in no call, it stays so. -/
theorem idle_step {value : Value} (hidle : o.threads owner = .idle value) {a : Action Transcript}
    (hp : permitted a = true) (hs : o.step cfg a = .next o') : o'.threads owner = .idle value := by
  rw [← hidle]
  refine step_threads_of_ne hs fun hown => ?_
  obtain ⟨budget, out, -, hadvance⟩ := owner_advance hp hown.symm hs
  rw [hidle] at hadvance
  cases hadvance

/-! ### The handshake packet is sent -/

/-- The owner has not had the packet put on the stream. -/
def Sends (packet : Bytes) : Pc Transcript → Prop
  | .waitWriter (.sendPacket p _) => p = packet
  | .holdWriter (.sendPacket p _) => p = packet
  | .output (.unsealed p) _ => p = packet
  | _ => False

/-- The packet was sent. -/
def Sent (packet : Bytes) : Pc Transcript → Prop
  | .returning (.unsealed p) _ (some (.ok _)) => p = packet
  | .idle (.sent (.ok _)) => True
  | _ => False

/-- The packet was refused, its write failed or does not return. -/
def Lost : Pc Transcript → Prop
  | .returning (.unsealed _) _ (some (.ok _)) => False
  | .returning (.unsealed _) _ _ => True
  | .output (.notification none (some _)) _ => True
  | .returning (.notification none (some _)) _ _ => True
  | .idle (.sent (.error _)) => True
  | _ => False

/-- The packet is to be sent behind `front`. -/
structure Pending (cfg : Config Transcript) (P : List (Frame UInt8) → Prop)
    (o : State Transcript) : Prop where
  solo : Solo o
  sane : Sane o
  front : P (frames 0 cfg.maxFrame (o.framer.accepted ++ lead o.framer))

/-- The packet is the last frame. -/
structure Opened (cfg : Config Transcript) (P : List (Frame UInt8) → Prop) (packet : Bytes)
    (o : State Transcript) : Prop where
  solo : Solo o
  clean : Clean o
  front : ∃ front, P front ∧ tape cfg o = front ++ [frameOf cfg packet]

/-- **The owner is in `send_packet`.** -/
inductive Packing (cfg : Config Transcript) (P : List (Frame UInt8) → Prop) (packet : Bytes)
    (o : State Transcript) : Prop
  | sends : Sends packet (o.threads owner) → Pending cfg P o → Packing cfg P packet o
  | sent : Sent packet (o.threads owner) → Opened cfg P packet o → Packing cfg P packet o
  | lost : Lost (o.threads owner) → Packing cfg P packet o

theorem Pending.congr (h : Pending cfg P o) (hs : Solo o') (hf : o'.framer = o.framer) :
    Pending cfg P o' := by
  refine ⟨hs, ?_, ?_⟩
  · unfold Sane
    rw [hf]
    exact h.sane
  · rw [hf]
    exact h.front

theorem Opened.congr (h : Opened cfg P bytes o) (hs : Solo o') (hf : o'.framer = o.framer) :
    Opened cfg P bytes o' := by
  refine ⟨hs, ?_, ?_⟩
  · unfold Clean
    rw [hf]
    exact h.clean
  · unfold tape
    rw [hf]
    exact h.front

/-- A packet that was refused stays so. -/
theorem lost_owner (hpc : Lost (o.threads owner)) {budget : ℕ} {out : Output}
    (hs : o.step cfg (.advance owner budget out) = .next o') : Lost (o'.threads owner) := by
  have hadvance : o.advance cfg owner budget out (o.threads owner) = .next o' := hs
  generalize o.threads owner = pc at hpc hadvance
  unfold Lost at hpc
  split at hpc
  · exact hpc.elim
  · rename_i packet deadline result hne
    cases result with
    | none => cases hadvance
    | some result =>
      cases hadvance
      cases result with
      | ok u => exact absurd rfl (hne u)
      | error error =>
        dsimp only [State.returned]
        split
        · split_ifs
          · rw [threads_goto]
            trivial
          · rw [threads_unlock]
            trivial
        · rw [threads_unlock]
          trivial
  · cases hadvance
    rw [threads_output]
    trivial
  · rename_i error deadline result
    cases result with
    | none => cases hadvance
    | some result =>
      cases hadvance
      dsimp only [State.returned]
      rw [threads_unlock]
      trivial
  · cases hadvance
  · exact hpc.elim

theorem lost_step (h : Lost (o.threads owner)) {a : Action Transcript} (hp : permitted a = true)
    (hs : o.step cfg a = .next o') : Lost (o'.threads owner) := by
  by_cases hown : actor a = owner
  · obtain ⟨budget, out, rfl, -⟩ := owner_advance hp hown hs
    exact lost_owner h hs
  · rw [step_threads_of_ne hs (Ne.symm hown)]
    exact h

/-- The owner goes on in `send_packet`. -/
theorem packing_owner (hcobs : cfg.cobs.Lawful) (hmax : 0 < cfg.maxFrame) (hst : Steady cfg o)
    (h : Packing cfg P bytes o) {budget : ℕ} {out : Output}
    (hs : o.step cfg (.advance owner budget out) = .next o') : Packing cfg P bytes o' := by
  have hadvance : o.advance cfg owner budget out (o.threads owner) = .next o' := hs
  cases h with
  | sends hpc hp =>
    have hsolo : Solo o' := by
      refine solo_owner hst hp.solo (fun key hkey => ?_) rfl hs
      rw [hkey] at hpc
      cases hpc
    generalize o.threads owner = pc at hpc hadvance
    unfold Sends at hpc
    split at hpc
    · subst hpc
      dsimp only [State.advance] at hadvance
      split_ifs at hadvance
      cases hadvance
      refine .sends ?_ (hp.congr hsolo rfl)
      rw [threads_goto]
      rfl
    · subst hpc
      cases hadvance
      refine .sends ?_ (hp.congr hsolo rfl)
      dsimp only [State.locked]
      rw [threads_goto]
      rfl
    · subst hpc
      cases hadvance
      rename_i packet limit
      generalize deadlineOf (.unsealed packet) limit budget = deadline at hsolo ⊢
      cases hres : (o.framer.call cfg.cobs cfg.maxFrame ⟨.packet packet, deadline, out⟩).2 with
      | none =>
        refine .lost ?_
        rw [threads_output]
        show Lost (.returning (.unsealed packet) deadline (o.framer.call _ _ _).2)
        rw [show (Job.unsealed packet).send = .packet packet from rfl, hres]
        trivial
      | some result =>
        cases result with
        | error error =>
          refine .lost ?_
          rw [threads_output]
          rw [show (Job.unsealed packet).send = .packet packet from rfl, hres]
          trivial
        | ok =>
          obtain ⟨hclean, htape⟩ := clean_unsealed (t := owner) hcobs hmax hst.good hp.sane hres
          refine .sent ?_ ⟨hsolo, hclean, _, hp.front, htape⟩
          rw [threads_output]
          rw [show (Job.unsealed packet).send = .packet packet from rfl, hres]
          rfl
    · exact hpc.elim
  | sent hpc hp =>
    have hsolo : Solo o' := by
      refine solo_owner hst hp.solo (fun key hkey => ?_) rfl hs
      rw [hkey] at hpc
      cases hpc
    generalize o.threads owner = pc at hpc hadvance
    unfold Sent at hpc
    split at hpc
    · subst hpc
      cases hadvance
      refine .sent ?_ (hp.congr hsolo rfl)
      dsimp only [State.returned]
      rw [threads_unlock]
      trivial
    · cases hadvance
    · exact hpc.elim
  | lost hpc => exact .lost (lost_owner hpc hs)

/-- **A handshake packet is sent behind `front`, or its call fails.** -/
theorem packing_step (hcobs : cfg.cobs.Lawful) (hmax : 0 < cfg.maxFrame) (hst : Steady cfg o)
    (h : Packing cfg P bytes o) {a : Action Transcript} (hp : permitted a = true)
    (hs : o.step cfg a = .next o') : Packing cfg P bytes o' := by
  by_cases hown : actor a = owner
  · obtain ⟨budget, out, rfl, -⟩ := owner_advance hp hown hs
    exact packing_owner hcobs hmax hst h hs
  · have hkeep := step_threads_of_ne hs (Ne.symm hown)
    cases h with
    | sends hpc hpend =>
      obtain ⟨hsolo, hf, -⟩ := solo_aside hst hpend.solo hp hown hs
      exact .sends (by rw [hkeep]; exact hpc) (hpend.congr hsolo hf)
    | sent hpc hopen =>
      obtain ⟨hsolo, hf, -⟩ := solo_aside hst hopen.solo hp hown hs
      exact .sent (by rw [hkeep]; exact hpc) (hopen.congr hsolo hf)
    | lost hpc => exact .lost (lost_step hpc hp hs)

/-! ### The calls that come before -/

/-- **The owner is in `send_reset`.** -/
inductive Resets (o : State Transcript) : Prop
  | waits {deadline : ℕ} : o.threads owner = .waitWriter (.sendReset deadline) → Resets o
  | holds {deadline : ℕ} : o.threads owner = .holdWriter (.sendReset deadline) → Resets o
  | outputs {limit : Option ℕ} : o.threads owner = .output .reset limit → Solo o → Resets o
  | returns {deadline : ℕ} {result : Option (Except TransportError Unit)} :
      o.threads owner = .returning .reset deadline result → Solo o →
      (result = some (.ok ()) → Clean o) → Resets o
  | done {value : Value} : o.threads owner = .idle value → Solo o →
      (value = .sent (.ok ()) → Clean o) → Resets o

/-- **The owner is in `unbind`.** -/
inductive Unbinds (o : State Transcript) : Prop
  | waits : o.threads owner = .waitWriter .unbind → Unbinds o
  | holds : o.threads owner = .holdWriter .unbind → Unbinds o
  | done {value : Value} : o.threads owner = .idle value → Solo o → Unbinds o

theorem Clean.congr (h : Clean o) (hf : o'.framer = o.framer) : Clean o' := by
  unfold Clean
  rw [hf]
  exact h

theorem resets_step (hcobs : cfg.cobs.Lawful) (hmax : 0 < cfg.maxFrame) (hst : Steady cfg o)
    (h : Resets o) {a : Action Transcript} (hp : permitted a = true)
    (hs : o.step cfg a = .next o') : Resets o' := by
  by_cases hown : actor a = owner
  · obtain ⟨budget, out, rfl, hadvance⟩ := owner_advance hp hown hs
    cases h with
    | waits hpc =>
      rw [hpc] at hadvance
      dsimp only [State.advance] at hadvance
      split_ifs at hadvance
      cases hadvance
      exact .holds (threads_goto ..)
    | holds hpc =>
      rw [hpc] at hadvance
      cases hadvance
      have hthreads : ∀ v, v ≠ owner →
          (o.locked cfg owner (.sendReset _)).threads v = o.threads v :=
        fun v hv => step_threads_of_ne hs hv
      exact .outputs (threads_goto ..)
        (solo_of_held hst (by rw [hpc]; rfl) (binding_remove o .unbound) hthreads)
    | outputs hpc hsolo =>
      have hsolo' := solo_owner hst hsolo (fun key hkey => by rw [hpc] at hkey; cases hkey) rfl hs
      rw [hpc] at hadvance
      cases hadvance
      refine .returns (threads_output ..) hsolo' fun hok => ?_
      exact clean_reset hcobs hmax hst.good hok
    | @returns deadline result hpc hsolo hclean =>
      have hsolo' := solo_owner hst hsolo (fun key hkey => by rw [hpc] at hkey; cases hkey) rfl hs
      rw [hpc] at hadvance
      cases result with
      | none => cases hadvance
      | some result =>
        cases hadvance
        refine .done (threads_unlock ..) hsolo' fun hok => ?_
        refine Clean.congr (hclean ?_) rfl
        cases hok
        rfl
    | done hpc hsolo hclean =>
      rw [hpc] at hadvance
      cases hadvance
  · have hkeep := step_threads_of_ne hs (Ne.symm hown)
    cases h with
    | waits hpc => exact .waits (by rw [hkeep]; exact hpc)
    | holds hpc => exact .holds (by rw [hkeep]; exact hpc)
    | outputs hpc hsolo =>
      exact .outputs (by rw [hkeep]; exact hpc) (solo_aside hst hsolo hp hown hs).1
    | returns hpc hsolo hclean =>
      obtain ⟨hsolo', hf, -⟩ := solo_aside hst hsolo hp hown hs
      exact .returns (by rw [hkeep]; exact hpc) hsolo' fun hok => (hclean hok).congr hf
    | done hpc hsolo hclean =>
      obtain ⟨hsolo', hf, -⟩ := solo_aside hst hsolo hp hown hs
      exact .done (by rw [hkeep]; exact hpc) hsolo' fun hok => (hclean hok).congr hf

theorem unbinds_step (hst : Steady cfg o) (h : Unbinds o) {a : Action Transcript}
    (hp : permitted a = true) (hs : o.step cfg a = .next o') : Unbinds o' := by
  by_cases hown : actor a = owner
  · obtain ⟨budget, out, rfl, hadvance⟩ := owner_advance hp hown hs
    cases h with
    | waits hpc =>
      rw [hpc] at hadvance
      dsimp only [State.advance] at hadvance
      split_ifs at hadvance
      cases hadvance
      exact .holds (threads_goto ..)
    | holds hpc =>
      rw [hpc] at hadvance
      cases hadvance
      have hthreads : ∀ v, v ≠ owner → (o.locked cfg owner .unbind).threads v = o.threads v :=
        fun v hv => step_threads_of_ne hs hv
      exact .done (threads_unlock ..)
        (solo_of_held hst (by rw [hpc]; rfl) (binding_remove o .unbound) hthreads)
    | done hpc hsolo =>
      rw [hpc] at hadvance
      cases hadvance
  · have hkeep := step_threads_of_ne hs (Ne.symm hown)
    cases h with
    | waits hpc => exact .waits (by rw [hkeep]; exact hpc)
    | holds hpc => exact .holds (by rw [hkeep]; exact hpc)
    | done hpc hsolo => exact .done (by rw [hkeep]; exact hpc) (solo_aside hst hsolo hp hown hs).1

/-! ### The session is bound -/

/-- The owner is to bind a session. -/
def Binding (key : Transcript) (pc : Pc Transcript) : Prop :=
  pc = .waitWriter (.bind key) ∨ pc = .holdWriter (.bind key)

/-- A send of a session failed, or does not return. -/
def troubled : Pc Transcript → Bool
  | .returning (.packet _) _ (some (.ok _)) => false
  | .returning (.packet _) _ _ => true
  | .failed _ _ _ => true
  | _ => false

def Troubled (o : State Transcript) : Prop := ∃ t, troubled (o.threads t) = true

/-- The packets of a context that were handed to the frame writer. -/
def flow (cfg : Config Transcript) (c : ℕ) (o : State Transcript) : List (Frame UInt8) :=
  (written c o.log).map fun p => frameOf cfg p.bytes

/-- **The packets of the bound context follow the handshake packet.** -/
structure Flows (cfg : Config Transcript) (P : List (Frame UInt8) → Prop) (packet : Bytes) (c : ℕ)
    (o : State Transcript) : Prop where
  binding : o.binding = some c
  front : ∃ front sent, P front ∧ tape cfg o = front ++ frameOf cfg packet :: sent ∧
    sent <+: flow cfg c o ∧ (Troubled o ∨ Clean o ∧ sent = flow cfg c o)

/-- A fresh context has written nothing. -/
theorem written_fresh (hst : Steady cfg o) {c : ℕ} (hc : o.contexts.length ≤ c) :
    written c o.log = [] := by
  have hsealed := (hst.counts.fresh c hc).2
  have hprefix := (SendOrder.ordered_of_legal (c := c) hst.counts.legal).onWire
  rw [hsealed] at hprefix
  exact List.prefix_nil.mp hprefix

/-- The session of the handshake packet is bound. -/
theorem flows_bind (hst : Steady cfg o) (h : Opened cfg P bytes o) (key : Transcript)
    (value : Value) :
    Flows cfg P bytes o.contexts.length ((o.bind key).unlock owner value) := by
  have hf : ((o.bind key).unlock owner value).framer = o.framer := (framer_bind o key).1
  obtain ⟨front, hP, htape⟩ := h.front
  have hflow : flow cfg o.contexts.length ((o.bind key).unlock owner value) = [] := by
    have hw : written o.contexts.length ((o.bind key).unlock owner value).log = [] := by
      rw [← written_fresh hst le_rfl]
      exact written_bind o key _
    rw [flow, hw]
    rfl
  refine ⟨rfl, front, [], hP, ?_, List.nil_prefix, .inr ⟨?_, hflow.symm⟩⟩
  · unfold tape
    rw [hf]
    exact htape
  · unfold Clean
    rw [hf]
    exact h.clean

theorem holdsWriter_of_troubled {pc : Pc Transcript} (h : troubled pc = true) :
    holdsWriter pc = true := by
  cases pc with
  | returning job deadline result => rfl
  | failed p deadline error => rfl
  | _ => cases h

/-- While a send of the bound session has failed, nothing is written. -/
theorem troubled_step (hst : Steady cfg o) (h : Troubled o) {a : Action Transcript}
    (hp : permitted a = true) (hs : o.step cfg a = .next o') {c : ℕ} (hb : o'.binding = some c) :
    Troubled o' ∧ o'.framer = o.framer ∧ ∀ c, written c o'.log = written c o.log := by
  obtain ⟨t, ht⟩ := h
  refine ⟨?_, ?_⟩
  · by_cases hta : t = actor a
    · refine ⟨t, ?_⟩
      cases a with
      | call u call =>
        exfalso
        dsimp only [State.step] at hs
        change t = u at hta
        subst hta
        split at hs
        · next last hidle =>
          rw [hidle] at ht
          cases ht
        · cases hs
      | advance u budget out =>
        change t = u at hta
        subst hta
        have hadvance : o.advance cfg t budget out (o.threads t) = .next o' := hs
        have hwriting := hst.writing t
        generalize o.threads t = pc at ht hadvance hwriting
        cases pc with
        | returning job deadline result =>
          cases job with
          | packet p =>
            cases result with
            | none => cases hadvance
            | some result =>
              cases result with
              | ok u => cases ht
              | error error =>
                cases hadvance
                dsimp only [State.returned]
                rw [threads_goto]
                rfl
          | _ => cases ht
        | failed p deadline error =>
          exfalso
          have hbound := hwriting p rfl
          dsimp only [State.advance] at hadvance
          rw [if_pos hbound] at hadvance
          split_ifs at hadvance
          · cases hadvance
            rw [show ((o.remove .failed).goto t _).binding = (o.remove .failed).binding from rfl,
              binding_remove] at hb
            cases hb
          · cases hadvance
            rw [show ((o.remove .failed).unlock t _).binding = (o.remove .failed).binding from rfl,
              binding_remove] at hb
            cases hb
        | _ => cases ht
    · exact ⟨t, by rw [step_threads_of_ne hs hta]; exact ht⟩
  · rcases framer_step (step_cases hs) with hcalm | ⟨u, job, limit, deadline, out, hu, -⟩
    · exact hcalm
    · exfalso
      have hut := hst.exclusive.writer.unique (holdsWriter_of_troubled ht)
        (show holdsWriter (o.threads u) = true by rw [hu]; rfl)
      rw [← hut, hu] at ht
      cases ht

/-- A packet of the bound session is written. -/
theorem flows_output (hcobs : cfg.cobs.Lawful) (hmax : 0 < cfg.maxFrame) (hst : Steady cfg o)
    {c : ℕ} {p : Packet} (hpc : p.context = c) (hb : o.binding = some c) {front sent}
    (hP : P front) (htape : tape cfg o = front ++ frameOf cfg bytes :: sent) (hclean : Clean o)
    (hsent : sent = flow cfg c o) (deadline : ℕ) (out : Output) :
    Flows cfg P bytes c (o.output cfg t (.packet p) deadline out) := by
  have hflow : flow cfg c (o.output cfg t (.packet p) deadline out) =
      flow cfg c o ++ [frameOf cfg p.bytes] := by
    have hlog : (o.output cfg t (.packet p) deadline out).log = o.log ++ [.wrote (.packet p)
        ((o.output cfg t (.packet p) deadline out).framer.accepted.drop
          o.framer.accepted.length)] := rfl
    rw [flow, hlog, written_append]
    simp [Numbering.writes, hpc, flow]
  have hcall := call_spec hcobs hmax hst.good ⟨.packet p.bytes, deadline, out⟩
  have hframer : (o.output cfg t (.packet p) deadline out).framer = _ := framer_output ..
  have hthread : (o.output cfg t (.packet p) deadline out).threads t = _ := threads_output ..
  have hsend : (Job.packet p).send = .packet p.bytes := rfl
  rw [hsend] at hframer hthread
  generalize hres : o.framer.call cfg.cobs cfg.maxFrame ⟨.packet p.bytes, deadline, out⟩ = res
    at hcall hframer hthread
  obtain ⟨w, result⟩ := res
  dsimp only at hcall hframer hthread
  have hlead : lead o.framer = [] := by
    rw [lead, hclean.2]
    rfl
  generalize hbefore : o.framer = before at hcall
  refine ⟨hb, ?_⟩
  cases hcall with
  | refused hsend hbig =>
    refine ⟨front, sent, hP, ?_, ?_, .inl ⟨t, by rw [hthread]; rfl⟩⟩
    · rw [tape, hframer, ← hbefore]
      exact htape
    · rw [hflow, hsent]
      exact List.prefix_append _ _
  | sent hfit hg hacc hresync =>
    obtain ⟨hframes, hrest⟩ := frames_packet hcobs (hfit _ rfl) hclean.1
    have hwire : w.accepted = o.framer.accepted ++ (cfg.cobs.encode p.bytes ++ [0]) := by
      rw [hacc, ← hbefore, wire, hlead, List.nil_append]
    refine ⟨front, sent ++ [frameOf cfg p.bytes], hP, ?_, ?_, .inr ⟨⟨?_, ?_⟩, ?_⟩⟩
    · rw [tape, hframer, hwire, hframes]
      show tape cfg o ++ _ = _
      rw [htape]
      simp
    · rw [hflow, hsent]
    · rw [hframer, hwire]
      exact hrest
    · rw [hframer]
      exact hresync
    · rw [hflow, hsent]
  | @failed w' part result hfit hg hacc hpart hresync hr =>
    have hpart' : part <+: cfg.cobs.encode p.bytes ++ [0] := by
      rw [wire, ← hbefore, hlead, List.nil_append] at hpart
      exact hpart
    obtain ⟨last, hframes, hlast⟩ := frames_part hcobs (hfit _ rfl) hclean.1 hpart'
    refine ⟨front, sent ++ last, hP, ?_, ?_, .inl ⟨t, ?_⟩⟩
    · rw [tape, hframer, hacc, ← hbefore, hframes]
      show tape cfg o ++ _ = _
      rw [htape]
      simp
    · rw [hflow, hsent]
      exact (List.prefix_append_right_inj _).mpr hlast
    · rw [hthread]
      rcases hr with rfl | ⟨error, rfl⟩
      · rfl
      · rfl

/-- **While the session is bound, only its packets are put on the stream.** -/
theorem flows_step (hcobs : cfg.cobs.Lawful) (hmax : 0 < cfg.maxFrame) (hst : Steady cfg o) {c : ℕ}
    (h : Flows cfg P bytes c o) {a : Action Transcript} (hp : permitted a = true)
    (hs : o.step cfg a = .next o') (hb : o'.binding = some c) : Flows cfg P bytes c o' := by
  obtain ⟨front, sent, hP, htape, hprefix, hstate⟩ := h.front
  have hsame : o'.framer = o.framer → (∀ c, written c o'.log = written c o.log) →
      (Troubled o' ∨ Clean o' ∧ sent = flow cfg c o') → Flows cfg P bytes c o' := by
    intro hf hw hnow
    refine ⟨hb, front, sent, hP, ?_, ?_, hnow⟩
    · rw [tape, hf]
      exact htape
    · rw [flow, hw]
      exact hprefix
  rcases hstate with htr | ⟨hclean, hsent⟩
  · obtain ⟨htr', hf, hw⟩ := troubled_step hst htr hp hs hb
    exact hsame hf hw (.inl htr')
  · rcases framer_step (step_cases hs) with ⟨hf, hw⟩ | ⟨t, job, limit, deadline, out, ht, rfl⟩
    · refine hsame hf hw (.inr ⟨?_, ?_⟩)
      · unfold Clean
        rw [hf]
        exact hclean
      · rw [flow, hw]
        exact hsent
    · cases job with
      | packet p =>
        have hbound := hst.writing t p (by rw [ht]; rfl)
        rw [h.binding, Option.some.injEq] at hbound
        exact flows_output hcobs hmax hst hbound.symm h.binding hP htape hclean hsent deadline out
      | _ =>
        exfalso
        have hnone := hst.apart t (by rw [ht]; rfl)
        rw [h.binding] at hnone
        cases hnone

/-! ### Between the phases -/

theorem Solo.calm (h : Solo o) (hc : Calm o o') : Solo o' :=
  ⟨by rw [hc.binding, h.unbound], fun t ht => by rw [hc.others t ht]; exact h.quiet t ht⟩

/-- The owner is between two calls. -/
theorem Flows.calm {c : ℕ} (h : Flows cfg P bytes c o) {value : Value}
    (hidle : o.threads owner = .idle value) (hc : Calm o o') : Flows cfg P bytes c o' := by
  obtain ⟨front, sent, hP, htape, hprefix, hstate⟩ := h.front
  refine ⟨by rw [hc.binding, h.binding], front, sent, hP, ?_, ?_, ?_⟩
  · rw [tape, hc.framer]
    exact htape
  · rw [flow, hc.written]
    exact hprefix
  · rcases hstate with ⟨t, ht⟩ | ⟨hclean, hsent⟩
    · left
      refine ⟨t, ?_⟩
      rw [hc.others t fun hown => ?_]
      · exact ht
      · rw [hown, hidle] at ht
        cases ht
    · refine .inr ⟨hclean.congr hc.framer, ?_⟩
      rw [flow, hc.written]
      exact hsent

/-- While the owner is in no call, it stays alone and nothing is put on the stream. -/
theorem solo_rest (hst : Steady cfg o) (h : Solo o) {value : Value}
    (hidle : o.threads owner = .idle value) {a : Action Transcript} (hp : permitted a = true)
    (hs : o.step cfg a = .next o') : Solo o' ∧ o'.framer = o.framer := by
  have hown : actor a ≠ owner := by
    intro hown
    obtain ⟨budget, out, -, hadvance⟩ := owner_advance hp hown hs
    rw [hidle] at hadvance
    cases hadvance
  obtain ⟨hsolo, hf, -⟩ := solo_aside hst h hp hown hs
  exact ⟨hsolo, hf⟩

/-- While the owner is in no call, the packet stays the last frame. -/
theorem opened_rest (hst : Steady cfg o) (h : Opened cfg P bytes o) {value : Value}
    (hidle : o.threads owner = .idle value) {a : Action Transcript} (hp : permitted a = true)
    (hs : o.step cfg a = .next o') :
    Opened cfg P bytes o' ∧ o'.threads owner = .idle value := by
  obtain ⟨hsolo, hf⟩ := solo_rest hst h.solo hidle hp hs
  exact ⟨h.congr hsolo hf, idle_step hidle hp hs⟩

/-- The owner binds the session. -/
theorem binding_step (hst : Steady cfg o) (h : Opened cfg P bytes o) {key : Transcript}
    (hpc : Binding key (o.threads owner)) {a : Action Transcript} (hp : permitted a = true)
    (hs : o.step cfg a = .next o') :
    (Binding key (o'.threads owner) ∧ Opened cfg P bytes o') ∨
      o' = (o.bind key).unlock owner (.bound o.contexts.length) := by
  by_cases hown : actor a = owner
  · obtain ⟨budget, out, rfl, hadvance⟩ := owner_advance hp hown hs
    rcases hpc with hpc | hpc
    · left
      have hsolo := solo_owner hst h.solo (fun key hkey => by rw [hpc] at hkey; cases hkey) rfl hs
      rw [hpc] at hadvance
      dsimp only [State.advance] at hadvance
      split_ifs at hadvance
      cases hadvance
      exact ⟨.inr (threads_goto ..), h.congr hsolo rfl⟩
    · right
      rw [hpc] at hadvance
      cases hadvance
      rfl
  · left
    obtain ⟨hsolo, hf, hkeep⟩ := solo_aside hst h.solo hp hown hs
    exact ⟨by rw [hkeep]; exact hpc, h.congr hsolo hf⟩

/-! ### What the peer can read -/

/-- The frames before a packet: so many, and none of them is the packet. -/
def Before (cfg : Config Transcript) (packet : Bytes) (place : ℕ) (front : List (Frame UInt8)) :
    Prop :=
  front.length = place ∧ ∀ f ∈ front, report cfg.maxFrame cfg.cobs.decode f ≠ .ok (some packet)

/-- **A handshake packet at a place of the tape, and the session it opens.** -/
inductive Course (cfg : Config Transcript) (packet : Bytes) (place : ℕ) (key : Transcript)
    (o : State Transcript) : Prop
  | pending : Pending cfg (Before cfg packet place) o → Course cfg packet place key o
  | opened : Opened cfg (Before cfg packet place) packet o → Course cfg packet place key o
  | bound {c : ℕ} {x : Context Transcript} : o.contexts[c]? = some x → x.key = key →
      Flows cfg (Before cfg packet place) packet c o → Course cfg packet place key o

/-- A packet of a session: it was sealed in a context of the key, as the packet of a number. -/
def SealedAs (o : State Transcript) (key : Transcript) (seq : ℕ) (packet message : Bytes) : Prop :=
  ∃ c x, o.contexts[c]? = some x ∧ x.key = key ∧ .sealed ⟨c, seq, packet⟩ message ∈ o.log

/-- What is written of a context was sealed, in the order of the numbers. -/
theorem written_seq (hst : Steady cfg o) {c n : ℕ} {p : Packet}
    (hp : (written c o.log)[n]? = some p) :
    p.context = c ∧ p.seq = n ∧ ∃ message, .sealed p message ∈ o.log := by
  have hprefix := (SendOrder.ordered_of_legal (c := c) hst.counts.legal).onWire
  have hseqs := SendOrder.numbers_of_take hst.counts.legal hprefix
  have hn := (List.getElem?_eq_some_iff.mp hp).1
  have hseq : ((written c o.log).map (·.seq))[n]? = some p.seq := by
    rw [List.getElem?_map, hp]
    rfl
  rw [hseqs, List.getElem?_range hn, Option.some.injEq] at hseq
  have hmem : p ∈ Numbering.sealed c o.log := hprefix.subset (List.mem_of_getElem? hp)
  unfold Numbering.sealed at hmem
  rw [List.mem_filter, List.mem_filterMap] at hmem
  obtain ⟨⟨e, he, hseals⟩, hc⟩ := hmem
  refine ⟨by simpa using hc, hseq.symm, ?_⟩
  unfold Numbering.seals at hseals
  split at hseals
  · rw [Option.some.injEq] at hseals
    subst hseals
    exact ⟨_, he⟩
  · cases hseals

namespace Course

variable {packet : Bytes} {place : ℕ} {key : Transcript} {i : ℕ} {f : Frame UInt8}

/-- **The packet is not to be read before its place.** -/
theorem first (h : Course cfg packet place key o) (hi : (tape cfg o)[i]? = some f)
    (hf : report cfg.maxFrame cfg.cobs.decode f = .ok (some packet)) : place ≤ i := by
  have hfront : ∀ {front more : List (Frame UInt8)}, Before cfg packet place front →
      (front ++ more)[i]? = some f → place ≤ i := by
    intro front more hP hi
    by_contra hlt
    rw [List.getElem?_append_left (by rw [hP.1]; omega)] at hi
    exact hP.2 f (List.mem_of_getElem? hi) hf
  cases h with
  | pending hp =>
    obtain ⟨more, hmore⟩ :
        tape cfg o <+: frames 0 cfg.maxFrame (o.framer.accepted ++ lead o.framer) :=
      frames_initial _ _
    have hi' : (frames 0 cfg.maxFrame (o.framer.accepted ++ lead o.framer) ++ [])[i]? = some f := by
      rw [List.append_nil, ← hmore,
        List.getElem?_append_left (List.getElem?_eq_some_iff.mp hi).1]
      exact hi
    exact hfront hp.front hi'
  | opened hp =>
    obtain ⟨front, hP, htape⟩ := hp.front
    rw [htape] at hi
    exact hfront hP hi
  | bound hx hkey hp =>
    obtain ⟨front, sent, hP, htape, -⟩ := hp.front
    rw [htape] at hi
    exact hfront hP hi

/-- Before the session is bound, the packet is the last frame. -/
theorem length_le (h : Course cfg packet place key o) (hb : o.binding = none) :
    (tape cfg o).length ≤ place + 1 := by
  cases h with
  | pending hp =>
    have hle : (tape cfg o).length ≤ place := by
      rw [← hp.front.1]
      exact (frames_initial _ _).length_le
    omega
  | opened hp =>
    obtain ⟨front, hP, htape⟩ := hp.front
    rw [htape, List.length_append, hP.1]
    exact le_rfl
  | bound hx hkey hp =>
    rw [hp.binding] at hb
    cases hb

/-- **After the packet come those of its session, by their numbers.** -/
theorem frame (hst : Steady cfg o) (h : Course cfg packet place key o) {n : ℕ}
    (hi : (tape cfg o)[place + 1 + n]? = some f) :
    ∃ packet message, f = frameOf cfg packet ∧ SealedAs o key n packet message := by
  have hlt := (List.getElem?_eq_some_iff.mp hi).1
  cases h with
  | pending hp =>
    have hcourse : Course cfg packet place key o := .pending hp
    have hle := hcourse.length_le hp.solo.unbound
    omega
  | opened hp =>
    have hcourse : Course cfg packet place key o := .opened hp
    have hle := hcourse.length_le hp.solo.unbound
    omega
  | @bound c x hx hkey hp =>
    obtain ⟨front, sent, hP, htape, hprefix, -⟩ := hp.front
    obtain ⟨more, hmore⟩ := hprefix
    have hn : (flow cfg c o)[n]? = some f := by
      rw [htape, List.getElem?_append_right (by rw [hP.1]; omega), hP.1,
        show place + 1 + n - place = n + 1 by omega, List.getElem?_cons_succ] at hi
      rw [← hmore, List.getElem?_append_left (List.getElem?_eq_some_iff.mp hi).1]
      exact hi
    rw [flow, List.getElem?_map] at hn
    obtain ⟨p, hp, rfl⟩ := Option.map_eq_some_iff.mp hn
    obtain ⟨hc, hseq, message, hsealed⟩ := written_seq hst hp
    refine ⟨p.bytes, message, rfl, c, x, hx, hkey, ?_⟩
    rw [← hc, ← hseq]
    exact hsealed

end Course

end ArkWire.Transport.Flow
