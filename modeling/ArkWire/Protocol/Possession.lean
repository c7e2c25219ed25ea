import ArkWire.Lib.Contracts
import ArkWire.Protocol.Notification

/-! # Who has a promise

Each place of a function says which promise the thread has and what has become of it (`Share`): it
creates, lends, waits for and drops one at a time. Every function and call keeps to this
(`kept_call`, `kept_program`), so what the ownership of a promise guards is never refused
(`Possession`), and a thread that waits for a result has not had it before. -/

namespace ArkWire.Protocol.Possession

open ArkWire.Lib.Machines ArkWire.Lib.Programs
open ArkWire.Protocol.Errors ArkWire.Protocol.Envelope ArkWire.Protocol.Operation
open ArkWire.Protocol.Session ArkWire.Protocol.Callbacks
open ArkWire.Protocol.Publication (Settled Report)
open ArkWire.Protocol.Notification (Invariant invariant_of_reachable)

variable {M ρ α : Type}

/-- What a thread has of a promise. -/
inductive Share where
  /-- It has created it. -/
  | made
  /-- It is in `notify`. -/
  | lent
  /-- It is in `wait`, or about to drop it. -/
  | spent
  /-- `recv` has returned its result. -/
  | taken
  /-- `Promise::drop` has run. -/
  | gone
  deriving DecidableEq

def Share.owner (t : ℕ) : Share → Owner
  | .made => .made t
  | .lent => .lent t
  | .spent => .spent t
  | .taken => .spent t
  | .gone => .gone

/-- The promise a thread has at a place of a function. -/
abbrev Hold := Option (ℕ × Share)

def allowed (q : Hold) : Instr M → Prop
  | .pair => q = none
  | .discard c => q = some (c, .made) ∨ q = some (c, .spent) ∨ q = some (c, .taken)
  | .dropReceiver c => q = some (c, .gone)
  | .receive c => q = some (c, .spent)
  | .handOut c => q = some (c, .made)
  | .giveBack c => q = some (c, .lent)
  | _ => True

def after (q : Hold) : (i : Instr M) → i.Answer → Hold
  | .pair, c => some (c, .made)
  | .discard c, _ => some (c, .gone)
  | .dropReceiver _, _ => none
  | .receive c, _ => some (c, .taken)
  | .handOut _, _ => none
  | .giveBack _, _ => none
  | _, _ => q

/-- **The use of promises**: a thread has one at a time, and has none where it returns and where its
loops begin. -/
def possession (M : Type) : Discipline (Instr M) Instr.Answer Label Hold where
  allowed := allowed
  after := after
  final q := q = none
  entry _ := none

variable {q : Hold} {post : α → Hold} {exit : ρ → Hold}

/-- A body that leaves the promise of its thread as it is. -/
abbrev Keeps (q : Hold) (body : Fn M ρ α) (exit : ρ → Hold) : Prop :=
  Contract (possession M) q body (fun _ => q) exit

theorem Keeps.bind {β : Type} {x : Fn M ρ β} {f : β → Fn M ρ α} (hx : Keeps q x exit)
    (hf : ∀ b, Contract (possession M) q (f b) post exit) :
    Contract (possession M) q (x >>= f) post exit :=
  Contract.bind hx hf

theorem contract_guarded {l : Lock} {body : Fn M ρ α}
    (h : Contract (possession M) q body post exit) :
    Contract (possession M) q (guarded l body) post exit :=
  h.bracket (fun _ => ⟨trivial, fun _ => rfl⟩) fun _ => ⟨trivial, fun _ => rfl⟩

theorem contract_collecting {body : Fn M ρ α} (h : Contract (possession M) q body post exit) :
    Contract (possession M) q (collecting body) post exit :=
  h.bracket (fun _ => ⟨trivial, fun _ => rfl⟩) fun _ => ⟨trivial, fun _ => rfl⟩

/-! ### Functions that have to do with no promise -/

theorem keeps_readings : Keeps q (readings : Fn M ρ Reading) exit :=
  contract_perform trivial fun _ => rfl

theorem keeps_session (i : ℕ) (f : Reading → ℕ → State M → Except Panic (State M × Report M)) :
    Keeps q (session i f : Fn M ρ (Report M)) exit :=
  contract_perform trivial fun _ => rfl

theorem keeps_server (f : Server.State → Server.State × Policy) :
    Keeps q (server f : Fn M ρ Policy) exit :=
  contract_perform trivial fun _ => rfl

theorem keeps_send (p : Settled) : Keeps q (send p : Fn M ρ Bool) exit := by
  have hput : Keeps q (instr (.put p.sender.channel p.result) : Fn M ρ Bool) exit :=
    contract_perform trivial fun _ => rfl
  have htake : ∀ d, Keeps q (instr (.take p.sender.channel d) : Fn M ρ Unit) exit :=
    fun d => contract_perform trivial fun _ => rfl
  exact contract_guarded (hput.bind fun d => (htake d).bind fun _ => contract_pure rfl)

theorem keeps_publish (ps : List Settled) : Keeps q (publish ps : Fn M ρ Bool) exit := by
  induction ps with
  | nil => exact contract_pure rfl
  | cons p ps ih => exact (keeps_send p).bind fun _ => ih.bind fun _ => contract_pure rfl

theorem keeps_settle (i : ℕ) (f : Reading → State M → State M × Report M) :
    Keeps q (settle i f : Fn M ρ (Report M)) exit :=
  (keeps_session i _).bind fun _ => (keeps_publish _).bind fun _ => contract_pure rfl

/-- A section under the state lock that settles promises. -/
theorem keeps_settled (i : ℕ) (f : Reading → State M → State M × Report M) :
    Keeps q (guarded (.session i) (do let _ ← settle i f) : Fn M ρ Unit) exit :=
  contract_guarded ((keeps_settle i f).bind fun _ => contract_pure rfl)

theorem keeps_expire (i : ℕ) : Keeps q (expire i : Fn M ρ Unit) exit :=
  contract_collecting (keeps_settled i _)

theorem keeps_await (w : Wait) : Keeps q (instr (.await w) : Fn M ρ Unit) exit :=
  contract_perform trivial fun _ => rfl

theorem keeps_close (i : ℕ) (error : Error) : Keeps q (close i error : Fn M ρ Unit) exit :=
  contract_collecting ((keeps_settled i _).bind fun _ => keeps_await _)

theorem keeps_limit (i requests bytes : ℕ) :
    Keeps q (limit i requests bytes : Fn M ρ Bool) exit :=
  contract_guarded ((keeps_settle i _).bind fun _ => contract_pure rfl)

theorem keeps_setInboundLimits (i requests bytes : ℕ) :
    Keeps q (setInboundLimits i requests bytes : Fn M ρ Unit) exit := by
  refine contract_collecting ((keeps_limit i requests bytes).bind fun closed => ?_)
  cases closed with
  | true => exact keeps_await _
  | false => exact contract_pure rfl

theorem keeps_setAutoreplyTimeout (i timeout : ℕ) :
    Keeps q (setAutoreplyTimeout i timeout : Fn M ρ Unit) exit :=
  contract_guarded ((keeps_session i _).bind fun _ => contract_pure rfl)

theorem keeps_recordWrite (i key : ℕ) (result : Except Error Unit) :
    Keeps q (recordWrite i key result : Fn M ρ Unit) exit :=
  contract_collecting (keeps_settled i _)

theorem keeps_enqueue (i : ℕ) (body : OutgoingBody M) (operation : PendingOperation) :
    Keeps q (enqueue i body operation) fun _ => q := by
  refine contract_collecting (Keeps.bind (contract_guarded ?_) fun _ => contract_pure rfl)
  refine (keeps_session i _).bind fun report => ?_
  cases report.error with
  | some error => exact contract_early rfl
  | none => exact (keeps_publish _).bind fun _ => contract_pure rfl

theorem keeps_decode (i : ℕ) : Keeps q (decode i : Fn M ρ Unit) exit := by
  refine keeps_readings.bind fun reading => ?_
  split_ifs
  · exact keeps_close i _
  · exact contract_pure rfl

theorem keeps_upgrade (session : Option ℕ) :
    Keeps q (upgrade session : Fn M ρ (Option ℕ)) exit :=
  keeps_readings.bind fun _ => contract_pure rfl

theorem keeps_closeSome (session : Option ℕ) (error : Error) :
    Keeps q (closeSome session error : Fn M ρ Unit) exit := by
  cases session with
  | some i => exact keeps_close i error
  | none => exact contract_pure rfl

theorem keeps_serverSetInboundLimits (requests bytes : ℕ) :
    Keeps q (serverSetInboundLimits requests bytes : Fn M ρ Unit) exit := by
  refine contract_collecting (contract_guarded ?_)
  refine (keeps_server _).bind fun answer => (keeps_upgrade _).bind fun i => ?_
  cases i with
  | some i => exact (keeps_limit i _ _).bind fun _ => contract_pure rfl
  | none => exact contract_pure rfl

theorem keeps_serverSetAutoreplyTimeout (timeout : ℕ) :
    Keeps q (serverSetAutoreplyTimeout timeout : Fn M ρ Unit) exit := by
  refine contract_guarded ((keeps_server _).bind fun answer => (keeps_upgrade _).bind fun i => ?_)
  cases i with
  | some i => exact keeps_setAutoreplyTimeout i _
  | none => exact contract_pure rfl

theorem keeps_serverClose (error : Error) :
    Keeps q (serverClose error : Fn M ρ Unit) exit := by
  refine (contract_guarded (keeps_server _)).bind fun answer => (keeps_upgrade _).bind fun i => ?_
  refine (keeps_closeSome i _).bind fun _ => ?_
  exact (keeps_closeSome answer.ready _).bind fun _ => keeps_await _

theorem keeps_install (i : ℕ) : Keeps q (install i : Fn M _ _) fun _ => q := by
  refine contract_collecting (Keeps.bind (contract_guarded ?_) fun ready => keeps_closeSome ready _)
  refine (keeps_server _).bind fun answer => ?_
  cases answer.reason with
  | some reason => exact contract_early rfl
  | none =>
    refine (keeps_limit i _ _).bind fun _ => (keeps_setAutoreplyTimeout i _).bind fun _ => ?_
    exact (keeps_server _).bind fun _ => contract_pure rfl

theorem keeps_attachBody (i : ℕ) : Keeps q (attachBody i : Fn M _ _) fun _ => q := by
  refine Keeps.bind (contract_guarded ?_) fun previous => ?_
  · refine (keeps_server _).bind fun answer => ?_
    cases answer.reason with
    | some reason => exact contract_early rfl
    | none => exact keeps_upgrade _
  · refine (keeps_closeSome previous _).bind fun _ => ?_
    exact (keeps_install i).bind fun _ => contract_pure rfl

theorem keeps_attach (i : ℕ) : Keeps q (attach i : Fn M ρ Unit) exit := by
  refine (keeps_attachBody i).call.bind fun result => ?_
  cases result with
  | ok _ => exact contract_pure rfl
  | error _ => exact keeps_close i _

theorem keeps_write (i id : ℕ) (message : OutgoingMessage M) :
    Keeps q (write i id message) fun _ => q := by
  refine (keeps_await _).bind fun _ => keeps_readings.bind fun reading => ?_
  split
  · exact (keeps_close i _).bind fun _ => contract_pure rfl
  · refine Keeps.bind (contract_guarded ?_) fun _ =>
      (keeps_recordWrite i message.key _).bind fun _ => contract_pure rfl
    split_ifs
    · exact (keeps_session i _).bind fun _ => contract_pure rfl
    · exact contract_pure rfl

/-! ### Functions that create, lend and drop promises -/

theorem kept_dropPromise {c : ℕ}
    (hq : q = some (c, .made) ∨ q = some (c, .spent) ∨ q = some (c, .taken)) :
    Contract (possession M) q (dropPromise c : Fn M ρ Unit) (fun _ => none) exit := by
  have hdiscard : Contract (possession M) q (instr (.discard c) : Fn M ρ Unit)
      (fun _ => some (c, .gone)) exit := contract_perform hq fun _ => rfl
  have hdrop : Contract (possession M) (some (c, .gone)) (instr (.dropReceiver c) : Fn M ρ Unit)
      (fun _ => none) exit := contract_perform rfl fun _ => rfl
  have hguarded : Contract (possession M) q
      (guarded (.notification c) (do let _ ← instr (.discard c)) : Fn M ρ Unit)
      (fun _ => some (c, .gone)) exit :=
    contract_guarded (hdiscard.bind fun _ => contract_pure rfl)
  exact hguarded.bind fun _ => hdrop.bind fun _ => contract_pure rfl

/-- The promise that `submit` returns, or none. -/
def submitted (c : Option ℕ) : Hold := c.map (·, .made)

theorem kept_submit (i : ℕ) (body : OutgoingBody M) (deadline : ℕ) :
    Contract (possession M) none (submit i body deadline : Fn M ρ (Option ℕ)) submitted exit := by
  have hpair : Contract (possession M) none (instr .pair : Fn M ρ ℕ)
      (fun c => some (c, .made)) exit := contract_perform rfl fun _ => rfl
  refine hpair.bind fun c => (keeps_enqueue i body _).call.bind fun result => ?_
  cases result with
  | ok _ => exact contract_pure rfl
  | error _ =>
    exact (kept_dropPromise (.inl rfl)).bind fun _ => contract_pure rfl

theorem kept_handOut (c : ℕ) :
    Contract (possession M) (submitted (some c)) (do let _ ← instr (.handOut c) : Fn M ρ Unit)
      (fun _ => none) exit := by
  have hhand : Contract (possession M) (submitted (some c)) (instr (.handOut c) : Fn M ρ Unit)
      (fun _ => none) exit := contract_perform rfl fun _ => rfl
  exact hhand.bind fun _ => contract_pure rfl

theorem kept_request (i : ℕ) (message : M) (deadline : ℕ) :
    Keeps none (request i message deadline : Fn M ρ Unit) exit := by
  refine (kept_submit i _ deadline).bind fun c => ?_
  cases c with
  | some c => exact kept_handOut c
  | none => exact contract_pure rfl

theorem kept_autoreply (i id : ℕ) (error : SchemaError) :
    Keeps none (autoreply i id error : Fn M Unit Unit) fun _ => none := by
  refine keeps_readings.bind fun reading => Keeps.bind (contract_guarded ?_) fun timeout => ?_
  · refine (keeps_session i _).bind fun report => ?_
    split_ifs
    · exact contract_early rfl
    · exact contract_pure rfl
  · refine (kept_submit i _ _).bind fun c => ?_
    cases c with
    | some c => exact kept_dropPromise (.inl rfl)
    | none => exact contract_pure rfl

theorem kept_dropResponder (i id : ℕ) :
    Keeps none (dropResponder i id : Fn M ρ Unit) exit := by
  refine keeps_readings.bind fun reading => ?_
  split_ifs
  · exact (kept_autoreply i id _).call
  · exact contract_pure rfl

theorem kept_respond (i id : ℕ) (result : Except SchemaError M) (deadline : ℕ) :
    Keeps none (respond i id result deadline : Fn M ρ Unit) exit := by
  refine (kept_submit i _ deadline).bind fun c => ?_
  cases c with
  | some c => exact kept_handOut c
  | none => exact kept_dropResponder i id

theorem kept_handleMessage (side : Side) (i : ℕ) (header : Option Header) (bytes : Bytes) :
    Keeps none (handleMessage side i header bytes : Fn M _ _) fun _ => none := by
  cases header with
  | none => exact contract_pure rfl
  | some header =>
    refine contract_collecting (Keeps.bind (contract_guarded ?_) fun unknown => ?_)
    · refine (keeps_session i _).bind fun report => ?_
      cases report.error with
      | some error => exact contract_early rfl
      | none =>
        refine (keeps_publish _).bind fun delivered => ?_
        cases report.overLimit with
        | none => exact contract_pure rfl
        | some error =>
          dsimp only
          split_ifs
          · exact contract_early rfl
          · exact contract_pure rfl
    · cases unknown with
      | some id => exact (kept_autoreply i id _).call.bind fun _ => contract_pure rfl
      | none => exact contract_pure rfl

theorem kept_readMessage (side : Side) (i : ℕ) (header : Option Header) (bytes : Bytes) :
    Keeps none (readMessage side i header bytes : Fn M ρ Unit) exit := by
  refine (kept_handleMessage side i header bytes).call.bind fun result => ?_
  cases result with
  | ok _ => exact contract_pure rfl
  | error error => exact keeps_close i error

theorem kept_takeResult (c i : ℕ) :
    Contract (possession M) (some (c, .spent)) (takeResult c i : Fn M ρ Unit)
        (fun _ => none) exit := by
  have hreceive : Contract (possession M) (some (c, .spent))
      (instr (.receive c) : Fn M ρ (Except Error Promise.PromiseResult))
      (fun _ => some (c, .taken)) exit := contract_perform rfl fun _ => rfl
  refine hreceive.bind fun result => (kept_dropPromise (.inr (.inr rfl))).bind fun _ => ?_
  split
  · exact keeps_decode i
  · exact contract_pure rfl

theorem kept_wait (c i : ℕ) :
    Contract (possession M) (some (c, .spent)) (wait c i : Fn M ρ Unit) (fun _ => none) exit := by
  refine keeps_readings.bind fun reading => ?_
  split_ifs
  · exact (keeps_expire i).bind fun _ => kept_takeResult c i
  · exact kept_takeResult c i

theorem kept_notify (c : ℕ) :
    Contract (possession M) (some (c, .lent)) (notify c : Fn M ρ Unit) (fun _ => none) exit := by
  have hregister : Keeps (some (c, .lent)) (register c : Fn M ρ Bool) exit :=
    contract_perform trivial fun _ => rfl
  have hinvoke : Keeps (some (c, .lent)) (instr .invoke : Fn M ρ Unit) exit :=
    contract_perform trivial fun _ => rfl
  have hgive : Contract (possession M) (some (c, .lent)) (instr (.giveBack c) : Fn M ρ Unit)
      (fun _ => none) exit := contract_perform rfl fun _ => rfl
  refine (contract_guarded hregister).bind fun settled => ?_
  split_ifs
  · exact hinvoke.bind fun _ => hgive.bind fun _ => contract_pure rfl
  · exact hgive.bind fun _ => contract_pure rfl

/-! ### The loops and the calls -/

/-- An instruction that has to do with no promise. -/
def Plain (i : Instr M) : Prop := ∀ q, allowed q i ∧ ∀ r, after q i r = q

theorem kept_steps {is : List (Instr M)} {k : Program M} (his : ∀ i ∈ is, Plain i)
    (hk : Checked (possession M) q k) : Checked (possession M) q (steps is k) := by
  induction is with
  | nil => exact hk
  | cons i is ih =>
    have hi : Plain i := his i List.mem_cons_self
    refine ⟨(hi q).1, fun r => ?_⟩
    show Checked (possession M) (after q i r) (steps is k)
    rw [(hi q).2]
    exact ih fun j hj => his j (List.mem_cons_of_mem _ hj)

theorem plain_acquire (l : Lock) : Plain (M := M) (.acquire l) := fun _ => ⟨trivial, fun _ => rfl⟩

theorem plain_release (l : Lock) : Plain (M := M) (.release l) := fun _ => ⟨trivial, fun _ => rfl⟩

theorem plain_await (w : Wait) : Plain (M := M) (.await w) := fun _ => ⟨trivial, fun _ => rfl⟩

theorem plain_collect : Plain (M := M) .collect := fun _ => ⟨trivial, fun _ => rfl⟩

theorem plain_flush : Plain (M := M) .flush := fun _ => ⟨trivial, fun _ => rfl⟩

theorem kept_jump (p : Label) : Checked (possession M) none (.jump p) := rfl

theorem kept_done : Checked (possession M) none .done := rfl

theorem kept_awaitChange (l : Lock) (p : Label) :
    Checked (possession M) none (awaitChange l p) :=
  kept_steps (by simp [plain_acquire, plain_release, plain_await]) (kept_jump p)

theorem kept_runCollected (i : ℕ) (p : Label) :
    Checked (possession M) none (runCollected i p) :=
  kept_steps (by simp [plain_acquire, plain_release, plain_collect, plain_flush]) (kept_jump p)

theorem kept_unlock {l : Lock} {k : Program M} (hk : Checked (possession M) q k) :
    Checked (possession M) q (steps [.release l] k) :=
  kept_steps (by simp [plain_release]) hk

theorem kept_leave {l : Lock} {k : Program M} (hk : Checked (possession M) q k) :
    Checked (possession M) q (steps [.release l, .flush] k) :=
  kept_steps (by simp [plain_release, plain_flush]) hk

theorem kept_enter {l : Lock} {k : Program M} (hk : Checked (possession M) q k) :
    Checked (possession M) q (steps [.collect, .acquire l] k) :=
  kept_steps (by simp [plain_acquire, plain_collect]) hk

theorem keeps_expireFirst (i : ℕ) :
    Keeps q (expireFirst i : Fn M _ _) fun _ => q := by
  have hempty : Keeps q (instr .isEmpty : Fn M (Report M × Bool) Bool) fun _ => q :=
    contract_perform trivial fun _ => rfl
  exact (keeps_settle i _).bind fun _ => hempty.bind fun _ => contract_pure rfl

theorem kept_deadlines (i : ℕ) : Checked (possession M) none (deadlines i) := by
  refine (keeps_expireFirst i).checked fun (report, empty) => ?_
  dsimp only
  split_ifs
  · exact kept_leave kept_done
  · exact kept_awaitChange _ _
  · exact kept_runCollected i _

theorem kept_pickup (i : ℕ) : Checked (possession M) none (pickup i) := by
  refine (keeps_expireFirst i).checked fun (report, empty) => ?_
  dsimp only
  split_ifs
  · refine ⟨trivial, fun report => ?_⟩
    show Checked (possession M) none _
    dsimp only
    split_ifs
    · exact kept_leave kept_done
    · split
      · exact kept_awaitChange _ _
      · refine kept_leave ((keeps_write i _ _).checked fun on => ?_)
        split_ifs
        · exact kept_enter (kept_jump _)
        · exact kept_done
  · exact kept_runCollected i _

theorem kept_decodeRequest (i id : ℕ) :
    Keeps none (recv.decodeRequest i id : Fn M Unit Unit) fun _ => none := by
  refine keeps_readings.bind fun reading => ?_
  split_ifs
  · exact (keeps_close i _).bind fun _ => kept_dropResponder i id
  · exact contract_pure rfl

theorem kept_recv (i : ℕ) : Checked (possession M) none (recv i) := by
  refine ⟨trivial, fun report => ?_⟩
  show Checked (possession M) none _
  dsimp only
  split
  · exact kept_unlock kept_done
  · exact kept_awaitChange _ _
  · exact kept_unlock ((kept_decodeRequest i _).checked fun _ => kept_done)

theorem kept_accept : Checked (possession M) none accept := by
  refine ⟨trivial, fun answer => ?_⟩
  show Checked (possession M) none _
  dsimp only
  split
  · exact kept_awaitChange _ _
  · exact kept_unlock kept_done

theorem kept_program (p : Label) : Checked (possession M) none (program p) := by
  cases p with
  | deadlines i => exact kept_deadlines i
  | pickup i => exact kept_pickup i
  | recv i => exact kept_recv i
  | accept => exact kept_accept

/-- The promise a call is given. -/
def hold : Call M → Hold
  | .notify c => some (c, .lent)
  | .drop c => some (c, .spent)
  | .wait c _ => some (c, .spent)
  | _ => none

theorem kept_call (call : Call M) : Checked (possession M) (hold call) call.program := by
  have hfunction : ∀ (q : Hold) (body : Fn M Unit Unit),
      Contract (possession M) q body (fun _ => none) (fun _ => none) →
      Checked (possession M) q (body.toCode fun _ => .done) :=
    fun q body h => h.checked fun _ => kept_done
  cases call with
  | request i message deadline => exact hfunction _ _ (kept_request i message deadline)
  | respond i id result deadline => exact hfunction _ _ (kept_respond i id result deadline)
  | dropResponder i id => exact hfunction _ _ (kept_dropResponder i id)
  | recv i => exact kept_steps (by simp [plain_acquire]) (kept_jump _)
  | message side i header bytes => exact hfunction _ _ (kept_readMessage side i header bytes)
  | close i error => exact hfunction _ _ (keeps_close i error)
  | setInboundLimits i requests bytes =>
    exact hfunction _ _ (keeps_setInboundLimits i requests bytes)
  | setAutoreplyTimeout i timeout => exact hfunction _ _ (keeps_setAutoreplyTimeout i timeout)
  | runDeadlines i => exact kept_enter (kept_jump _)
  | runWriter i => exact kept_enter (kept_jump _)
  | notify c => exact hfunction _ _ (kept_notify c)
  | drop c => exact hfunction _ _ (kept_dropPromise (.inr (.inl rfl)))
  | wait c i => exact hfunction _ _ (kept_wait c i)
  | serverSetInboundLimits requests bytes =>
    exact hfunction _ _ (keeps_serverSetInboundLimits requests bytes)
  | serverSetAutoreplyTimeout timeout =>
    exact hfunction _ _ (keeps_serverSetAutoreplyTimeout timeout)
  | serverClose error => exact hfunction _ _ (keeps_serverClose error)
  | attach i => exact hfunction _ _ (keeps_attach i)
  | accept => exact kept_steps (by simp [plain_acquire]) (kept_jump _)

/-! ### The invariant -/

/-- Two places of a thread have different promises. -/
def Apart (a b : Hold) : Prop := ∀ c x y, a = some (c, x) → b ≠ some (c, y)

/-- A share of a promise whose result has not been received. -/
def Share.Unread (x : Share) : Prop := x ≠ .taken ∧ x ≠ .gone

/-- A thread and the functions it has interrupted use promises as they should, and the channels show
it. -/
structure Fits (s : Sys M) (t : ℕ) (thread : Thread M) (q : Hold) (qs : List Hold) : Prop where
  checked : Checked (possession M) q thread.code
  frames : List.Forall₂ (fun f q => Checked (possession M) q f.code) thread.frames qs
  owner : ∀ c x, some (c, x) ∈ q :: qs → (s.channels c).owner = x.owner t
  unread : ∀ c x, some (c, x) ∈ q :: qs → x.Unread → .received c ∉ s.log
  apart : (q :: qs).Pairwise Apart

/-- **The invariant.** -/
structure Possessed (s : Sys M) : Prop where
  threads : ∀ t, ∃ q qs, Fits s t (s.threads t) q qs
  unread : ∀ c, (s.channels c).owner = .absent ∨ (s.channels c).owner = .held → .received c ∉ s.log

theorem possessed_init (side : Side) : Possessed (machine (M := M) side).init where
  threads t := ⟨none, [], rfl, .nil, by simp, by simp, by simp⟩
  unread c _ := by simp [machine]

variable {s s' : Sys M} {t t' c : ℕ} {thread thread' : Thread M} {q' : Hold} {qs : List Hold}

/-- What has not changed of a promise. -/
structure Same (s s' : Sys M) (c : ℕ) : Prop where
  owner : (s'.channels c).owner = (s.channels c).owner
  received : .received c ∈ s'.log → .received c ∈ s.log

/-- A step that changes nothing of the promises a thread has. -/
theorem Fits.same (h : Fits s t thread q qs)
    (hs : ∀ c x, (s.channels c).owner = Share.owner t x → Same s s' c) : Fits s' t thread q qs where
  checked := h.checked
  frames := h.frames
  owner c x hmem := ((hs c x (h.owner c x hmem)).owner).trans (h.owner c x hmem)
  unread c x hmem hx hreceived :=
    h.unread c x hmem hx ((hs c x (h.owner c x hmem)).received hreceived)
  apart := h.apart

/-- A thread whose promise changes: it has no other share of it. -/
theorem Fits.turn (h : Fits s t thread q qs) (hchecked : Checked (possession M) q' thread'.code)
    (hframes : thread'.frames = thread.frames) (hsame : ∀ c', c' ≠ c → Same s s' c')
    (hc : ∀ x, some (c, x) ∉ qs)
    (hq' : ∀ c' x, q' = some (c', x) → c' = c ∧ (s'.channels c).owner = x.owner t ∧
      (x.Unread → .received c ∉ s'.log)) : Fits s' t thread' q' qs := by
  have hold : ∀ c' x, some (c', x) ∈ qs → c' ≠ c := by
    rintro c' x hmem rfl
    exact hc x hmem
  refine ⟨hchecked, hframes ▸ h.frames, fun c' x hmem => ?_, fun c' x hmem hx => ?_, ?_⟩
  · rcases List.mem_cons.mp hmem with heq | hmem
    · obtain ⟨rfl, howner, -⟩ := hq' c' x heq.symm
      exact howner
    · rw [(hsame c' (hold c' x hmem)).owner]
      exact h.owner c' x (List.mem_cons_of_mem _ hmem)
  · rcases List.mem_cons.mp hmem with heq | hmem
    · obtain ⟨rfl, -, hunread⟩ := hq' c' x heq.symm
      exact hunread hx
    · intro hreceived
      exact h.unread c' x (List.mem_cons_of_mem _ hmem) hx
        ((hsame c' (hold c' x hmem)).received hreceived)
  · refine List.pairwise_cons.mpr ⟨fun b hb c' x y hq heq => ?_, (List.pairwise_cons.mp h.apart).2⟩
    obtain ⟨rfl, -⟩ := hq' c' x hq
    exact hc y (heq ▸ hb)

/-- No other thread has a share of a promise with this owner. -/
def Private (t : ℕ) (owner : Owner) : Prop := ∀ t' x, t' ≠ t → owner ≠ Share.owner t' x

theorem private_absent : Private t .absent := by
  intro t' x _
  cases x <;> simp [Share.owner]

theorem private_held : Private t .held := by
  intro t' x _
  cases x <;> simp [Share.owner]

theorem private_owner {x : Share} (hx : x ≠ .gone) : Private t (x.owner t) := by
  intro t' y ht'
  cases x <;> cases y <;> simp_all [Share.owner, eq_comm]

/-- A thread that has no share of a promise nobody has. -/
theorem Fits.not_mem (h : Fits s t thread q qs)
    (hc : (s.channels c).owner = .absent ∨ (s.channels c).owner = .held) (x : Share) :
    some (c, x) ∉ q :: qs := by
  intro hmem
  rw [h.owner c x hmem] at hc
  cases x <;> simp [Share.owner] at hc

/-- The promise a thread has is in none of the functions it has interrupted. -/
theorem Fits.not_mem_rest {x : Share} (h : Fits s t thread (some (c, x)) qs) (y : Share) :
    some (c, y) ∉ qs := by
  intro hmem
  exact (List.pairwise_cons.mp h.apart).1 _ hmem c x y rfl rfl

/-- A step of a thread that concerns one promise at most. -/
theorem Possessed.next (h : Possessed s) (c : ℕ)
    (hthreads : s'.threads = Function.update s.threads t thread)
    (hsame : ∀ c', c' ≠ c → Same s s' c') (ht : ∃ q qs, Fits s' t thread q qs)
    (hothers : ∀ t' x, t' ≠ t → (s.channels c).owner = Share.owner t' x → Same s s' c)
    (hunread : (s'.channels c).owner = .absent ∨ (s'.channels c).owner = .held →
      .received c ∉ s'.log) : Possessed s' := by
  refine ⟨fun t' => ?_, fun c' hc' => ?_⟩
  · by_cases heq : t' = t
    · subst heq
      rw [hthreads, Function.update_self]
      exact ht
    · rw [hthreads, Function.update_of_ne heq]
      obtain ⟨q, qs, hfits⟩ := h.threads t'
      refine ⟨q, qs, hfits.same fun c' x howner => ?_⟩
      by_cases hcc : c' = c
      · subst hcc
        exact hothers t' x heq howner
      · exact hsame c' hcc
  · by_cases hcc : c' = c
    · subst hcc
      exact hunread hc'
    · rw [(hsame c' hcc).owner] at hc'
      exact fun hreceived => h.unread c' hc' ((hsame c' hcc).received hreceived)

/-- A step of a thread that changes the owner of no promise, and receives nothing. -/
theorem Possessed.quiet (h : Possessed s)
    (hthreads : s'.threads = Function.update s.threads t thread) (hsame : ∀ c, Same s s' c)
    (ht : ∀ q qs, Fits s t (s.threads t) q qs → ∃ q' qs', Fits s t thread q' qs') :
    Possessed s' := by
  obtain ⟨q, qs, hfits⟩ := h.threads t
  obtain ⟨q', qs', hfits'⟩ := ht q qs hfits
  refine h.next 0 hthreads (fun c _ => hsame c) ⟨q', qs', hfits'.same fun c _ _ => hsame c⟩
    (fun _ _ _ _ => hsame 0) fun h0 => ?_
  rw [(hsame 0).owner] at h0
  exact fun hreceived => h.unread 0 h0 ((hsame 0).received hreceived)

/-- The function of a thread goes on with the promise it has, or is done with it. -/
theorem Fits.goto (h : Fits s t thread q qs) (hq' : q' = q ∨ q' = none)
    (hchecked : Checked (possession M) q' thread'.code) (hframes : thread'.frames = thread.frames) :
    Fits s t thread' q' qs := by
  have hsub : ∀ c x, some (c, x) ∈ q' :: qs → some (c, x) ∈ q :: qs := by
    intro c x hmem
    rcases List.mem_cons.mp hmem with heq | hmem
    · rcases hq' with rfl | rfl
      · rw [heq]
        exact List.mem_cons_self
      · cases heq
    · exact List.mem_cons_of_mem _ hmem
  refine ⟨hchecked, hframes ▸ h.frames, fun c x hmem => h.owner c x (hsub c x hmem),
    fun c x hmem => h.unread c x (hsub c x hmem), ?_⟩
  obtain ⟨hhead, hrest⟩ := List.pairwise_cons.mp h.apart
  refine List.pairwise_cons.mpr ⟨fun b hb c x y hq => ?_, hrest⟩
  rcases hq' with rfl | rfl
  · exact hhead b hb c x y hq
  · cases hq

/-- A thread runs a callback: its function waits with the promise it has. -/
theorem Fits.run (h : Fits s t thread q qs) (frame : Frame M)
    (hframe : Checked (possession M) q frame.code) :
    Fits s t ⟨.done, [], none, frame :: thread.frames⟩ none (q :: qs) where
  checked := kept_done
  frames := .cons hframe h.frames
  owner c x hmem := h.owner c x (by simpa using hmem)
  unread c x hmem := h.unread c x (by simpa using hmem)
  apart := List.pairwise_cons.mpr ⟨fun b _ c x y hq => (by cases hq), h.apart⟩

/-! ### Every step keeps it -/

section Steps

variable {reading : Reading} {i : Instr M} {k : i.Answer → Program M}

theorem Fits.instr (h : Fits s t thread q qs) (hcode : thread.code = .instr i k) :
    allowed q i ∧ ∀ r, Checked (possession M) (after q i r) (k r) := by
  have hchecked := h.checked
  rw [hcode] at hchecked
  exact hchecked

theorem same_of_eq (hchannels : s'.channels = s.channels) (hlog : s'.log = s.log) (c : ℕ) :
    Same s s' c :=
  ⟨by rw [hchannels], by rw [hlog]; exact id⟩

/-- A promise changes but for its owner, and something is logged that is not its receipt. -/
theorem same_of_update {channel : Channel} {events : List Event}
    (hchannels : s'.channels = Function.update s.channels c channel)
    (howner : channel.owner = (s.channels c).owner) (hlog : s'.log = s.log ++ events)
    (hevents : ∀ c', .received c' ∉ events) (c' : ℕ) : Same s s' c' := by
  refine ⟨?_, fun hreceived => ?_⟩
  · rw [hchannels]
    by_cases heq : c' = c
    · subst heq
      rw [Function.update_self, howner]
    · rw [Function.update_of_ne heq]
  · rw [hlog, List.mem_append] at hreceived
    exact hreceived.resolve_right (hevents c')

/-- What does not change of the promises a step is not about. -/
theorem same_of_ne {channel : Channel} {events : List Event} {c' : ℕ}
    (hchannels : s'.channels = Function.update s.channels c channel)
    (hlog : s'.log = s.log ++ events) (hevents : ∀ e ∈ events, Notification.Event.channel e = c)
    (hc' : c' ≠ c) : Same s s' c' := by
  refine ⟨by rw [hchannels, Function.update_of_ne hc'], fun hreceived => ?_⟩
  rw [hlog, List.mem_append] at hreceived
  exact hreceived.resolve_right fun hmem => hc' (hevents _ hmem)

/-- A step that has to do with no promise, or with one but not with its owner. -/
theorem Possessed.goto (h : Possessed s) (hcode : (s.threads t).code = .instr i k) (r : i.Answer)
    (hthreads : s'.threads = Function.update s.threads t thread) (hsame : ∀ c, Same s s' c)
    (hnext : thread.code = k r) (hframes : thread.frames = (s.threads t).frames)
    (hafter : ∀ q : Hold, after q i r = q ∨ after q i r = none) : Possessed s' := by
  refine h.quiet hthreads hsame fun q qs hfits =>
    ⟨after q i r, qs, hfits.goto (hafter q) ?_ hframes⟩
  rw [hnext]
  exact (hfits.instr hcode).2 r

/-- A step of a thread that concerns one promise, of which it has a share or nobody has. -/
theorem Possessed.turn (h : Possessed s) (c : ℕ) (q' : Hold) {channel : Channel}
    {events : List Event}
    (hthreads : s'.threads = Function.update s.threads t thread)
    (hchannels : s'.channels = Function.update s.channels c channel)
    (hlog : s'.log = s.log ++ events) (hevents : ∀ e ∈ events, Notification.Event.channel e = c)
    (hframes : thread.frames = (s.threads t).frames)
    (hprivate : Private t (s.channels c).owner)
    (ht : ∃ q qs, Fits s t (s.threads t) q qs ∧ (∀ x, some (c, x) ∉ qs) ∧
      Checked (possession M) q' thread.code)
    (hq' : ∀ c' x, q' = some (c', x) → c' = c ∧ channel.owner = x.owner t ∧
      (x.Unread → .received c ∉ s'.log))
    (hunread : channel.owner = .absent ∨ channel.owner = .held → .received c ∉ s'.log) :
    Possessed s' := by
  obtain ⟨q, qs, hfits, hc, hchecked⟩ := ht
  have hself : s'.channels c = channel := by rw [hchannels, Function.update_self]
  have hsame : ∀ c', c' ≠ c → Same s s' c' := fun c' hc' =>
    same_of_ne hchannels hlog hevents hc'
  refine h.next c hthreads hsame ⟨q', qs, ?_⟩ (fun t' x ht' howner => ?_) (by rwa [hself])
  · exact hfits.turn hchecked hframes hsame hc (by rwa [hself])
  · exact absurd howner (hprivate t' x ht')

/-- What an instruction finds of the promise its thread has. -/
theorem Possessed.found (h : Possessed s) (hcode : (s.threads t).code = .instr i k) :
    ∃ q qs, Fits s t (s.threads t) q qs ∧ allowed q i ∧
      ∀ r, Checked (possession M) (after q i r) (k r) := by
  obtain ⟨q, qs, hfits⟩ := h.threads t
  exact ⟨q, qs, hfits, hfits.instr hcode⟩

theorem possessed_pair (h : Possessed s) {k : ℕ → Program M}
    (hfresh : (s.channels s.nextChannel).owner = .absent)
    (hcode : (s.threads t).code = .instr .pair k)
    (hstep : s.execute t reading .pair k = .next s') : Possessed s' := by
  obtain ⟨q, qs, hfits, -, hk⟩ := h.found hcode
  cases hstep
  have hunread := h.unread _ (.inl hfresh)
  refine h.turn s.nextChannel (some (s.nextChannel, .made)) rfl rfl (List.append_nil _).symm
    (List.forall_mem_nil _) rfl ?_ ⟨q, qs, hfits, fun x hmem => ?_, hk s.nextChannel⟩ ?_ ?_
  · rw [hfresh]
    exact private_absent
  · exact hfits.not_mem (.inl hfresh) x (List.mem_cons_of_mem _ hmem)
  · rintro c' x hq
    cases hq
    exact ⟨rfl, rfl, fun _ => hunread⟩
  · exact fun _ => hunread

/-- A thread that has a promise: no other thread does, nor a function it has interrupted. -/
theorem Fits.sole {x : Share} (h : Fits s t thread (some (c, x)) qs) (hx : x ≠ .gone) :
    Private t (s.channels c).owner ∧ ∀ y, some (c, y) ∉ qs := by
  refine ⟨?_, h.not_mem_rest⟩
  rw [h.owner c x List.mem_cons_self]
  exact private_owner hx

theorem possessed_discard (h : Possessed s) {k : Unit → Program M}
    (hcode : (s.threads t).code = .instr (.discard c) k)
    (hstep : s.execute t reading (.discard c) k = .next s') : Possessed s' := by
  obtain ⟨q, qs, hfits, hq, hk⟩ := h.found hcode
  have hshare : ∃ x, q = some (c, x) ∧ x ≠ .gone := by
    rcases hq with rfl | rfl | rfl
    · exact ⟨.made, rfl, by simp⟩
    · exact ⟨.spent, rfl, by simp⟩
    · exact ⟨.taken, rfl, by simp⟩
  obtain ⟨x, rfl, hx⟩ := hshare
  obtain ⟨hprivate, hrest⟩ := hfits.sole hx
  simp only [Sys.execute] at hstep
  split at hstep
  · cases hstep
    refine h.turn c (some (c, .gone)) rfl rfl rfl (by simp [Notification.Event.channel]) rfl
      hprivate ⟨_, qs, hfits, hrest, hk ()⟩ ?_ (by simp)
    rintro c' y hy
    cases hy
    exact ⟨rfl, rfl, fun hunread => absurd rfl hunread.2⟩
  · cases hstep

theorem possessed_receive (h : Possessed s) {k : Except Error Promise.PromiseResult → Program M}
    (hcode : (s.threads t).code = .instr (.receive c) k)
    (hstep : s.execute t reading (.receive c) k = .next s') : Possessed s' := by
  obtain ⟨q, qs, hfits, hq, hk⟩ := h.found hcode
  have hspent : q = some (c, .spent) := hq
  subst hspent
  obtain ⟨hprivate, hrest⟩ := hfits.sole (by simp)
  have howner := hfits.owner c .spent List.mem_cons_self
  simp only [Sys.execute] at hstep
  split at hstep
  · cases hstep
  · next result hbuffer =>
    cases hstep
    refine h.turn c (some (c, .taken)) rfl rfl rfl (by simp [Notification.Event.channel]) rfl
      hprivate ⟨_, qs, hfits, hrest, hk result⟩ ?_ ?_
    · rintro c' y hy
      cases hy
      exact ⟨rfl, howner, fun hunread => absurd rfl hunread.1⟩
    · rintro (hnone | hheld)
      · exact absurd (howner.symm.trans hnone) (by simp [Share.owner])
      · exact absurd (howner.symm.trans hheld) (by simp [Share.owner])

/-- A thread gives a promise to the application. -/
theorem Possessed.give (h : Possessed s) {x : Share} {k : Unit → Program M}
    {channel : Channel} (hfits : Fits s t (s.threads t) (some (c, x)) qs) (hx : x.Unread)
    (hk : Checked (possession M) none (k ()))
    (hthreads : s'.threads = Function.update s.threads t { s.threads t with code := k () })
    (hchannels : s'.channels = Function.update s.channels c channel) (hlog : s'.log = s.log) :
    Possessed s' := by
  obtain ⟨hprivate, hrest⟩ := hfits.sole hx.2
  have hunread := hfits.unread c x List.mem_cons_self hx
  refine h.turn c none hthreads hchannels (hlog.trans (List.append_nil _).symm)
    (List.forall_mem_nil _) rfl hprivate ⟨_, qs, hfits, hrest, hk⟩ ?_ fun _ => ?_
  · rintro c' y hy
    cases hy
  · rw [hlog]
    exact hunread

theorem possessed_handOut (h : Possessed s) {k : Unit → Program M}
    (hcode : (s.threads t).code = .instr (.handOut c) k)
    (hstep : s.execute t reading (.handOut c) k = .next s') : Possessed s' := by
  obtain ⟨q, qs, hfits, hq, hk⟩ := h.found hcode
  have hmade : q = some (c, .made) := hq
  subst hmade
  simp only [Sys.execute] at hstep
  split at hstep
  · cases hstep
    exact h.give hfits (by simp [Share.Unread]) (hk ()) rfl rfl rfl
  · cases hstep

theorem possessed_giveBack (h : Possessed s) {k : Unit → Program M}
    (hcode : (s.threads t).code = .instr (.giveBack c) k)
    (hstep : s.execute t reading (.giveBack c) k = .next s') : Possessed s' := by
  obtain ⟨q, qs, hfits, hq, hk⟩ := h.found hcode
  have hlent : q = some (c, .lent) := hq
  subst hlent
  simp only [Sys.execute] at hstep
  split at hstep
  · cases hstep
    exact h.give hfits (by simp [Share.Unread]) (hk ()) rfl rfl rfl
  · cases hstep

theorem possessed_flush (h : Possessed s) {k : Unit → Program M}
    (hcode : (s.threads t).code = .instr .flush k)
    (hstep : s.execute t reading .flush k = .next s') : Possessed s' := by
  simp only [Sys.execute] at hstep
  split at hstep
  · cases hstep
  · cases hstep
    exact h.goto hcode () rfl (same_of_eq rfl rfl) rfl rfl fun q => .inl rfl
  · next c pending rest hcollectors =>
    cases hstep
    refine h.quiet rfl (fun c' => ⟨rfl, by simp [Sys.run, Sys.logged, Sys.setThread]⟩)
      fun q qs hfits => ⟨none, q :: qs, hfits.run ⟨c, .instr .flush k, pending :: rest⟩ ?_⟩
    rw [← hcode]
    exact hfits.checked

theorem possessed_invoke (h : Possessed s) {k : Unit → Program M}
    (hcode : (s.threads t).code = .instr .invoke k)
    (hstep : s.execute t reading .invoke k = .next s') : Possessed s' := by
  simp only [Sys.execute] at hstep
  split at hstep
  · cases hstep
  · next c hhand =>
    cases hstep
    refine h.quiet rfl (fun c' => ⟨rfl, by simp [Sys.run, Sys.logged, Sys.setThread]⟩)
      fun q qs hfits => ⟨none, q :: qs, hfits.run ⟨c, k (), (s.threads t).collectors⟩ ?_⟩
    exact (hfits.instr hcode).2 ()

theorem possessed_execute (h : Possessed s) (hfresh : (s.channels s.nextChannel).owner = .absent)
    (hcode : (s.threads t).code = .instr i k) (hstep : s.execute t reading i k = .next s') :
    Possessed s' := by
  cases i with
  | pair => exact possessed_pair h hfresh hcode hstep
  | discard c => exact possessed_discard h hcode hstep
  | receive c => exact possessed_receive h hcode hstep
  | handOut c => exact possessed_handOut h hcode hstep
  | giveBack c => exact possessed_giveBack h hcode hstep
  | flush => exact possessed_flush h hcode hstep
  | invoke => exact possessed_invoke h hcode hstep
  | acquire l =>
    simp only [Sys.execute] at hstep
    split at hstep
    · cases hstep
      exact h.goto hcode () rfl (same_of_eq rfl rfl) rfl rfl fun q => .inl rfl
    · cases hstep
  | session j f =>
    simp only [Sys.execute] at hstep
    split at hstep
    · cases hstep
    · next report hreport =>
      cases hstep
      exact h.goto hcode _ rfl (same_of_eq rfl rfl) rfl rfl fun q => .inl rfl
  | put c result =>
    simp only [Sys.execute] at hstep
    split at hstep
    · cases hstep
      exact h.goto hcode true rfl (same_of_update rfl rfl rfl (by simp)) rfl rfl fun q => .inl rfl
    · cases hstep
      exact h.goto hcode false rfl (same_of_eq rfl rfl) rfl rfl fun q => .inl rfl
  | take c delivered =>
    cases hstep
    exact h.goto hcode () rfl (same_of_update rfl rfl (List.append_nil _).symm (by simp)) rfl rfl
      fun q => .inl rfl
  | register c =>
    simp only [Sys.execute] at hstep
    split at hstep
    · cases hstep
      exact h.goto hcode true rfl
        (same_of_update (Function.update_eq_self c _).symm rfl rfl (by simp)) rfl rfl fun q =>
          .inl rfl
    · cases hstep
      exact h.goto hcode false rfl (same_of_update rfl rfl rfl (by simp)) rfl rfl fun q => .inl rfl
  | dropReceiver c =>
    simp only [Sys.execute] at hstep
    split at hstep
    · cases hstep
      exact h.goto hcode () rfl (same_of_update rfl rfl (List.append_nil _).symm (by simp)) rfl rfl
        fun q => .inr rfl
    · cases hstep
  | _ =>
    cases hstep
    exact h.goto hcode _ rfl (same_of_eq rfl rfl) rfl rfl fun q => .inl rfl

/-- A thread is given a promise that nobody has. -/
theorem possessed_spend (h : Possessed s) {x : Share} {channel : Channel} (call : Call M)
    (hcall : hold call = some (c, x))
    (howner : (s.channels c).owner = .held) (hchannel : channel.owner = x.owner t)
    (hthreads : s'.threads = Function.update s.threads t thread)
    (hthread : thread.code = call.program)
    (hframes : thread.frames = (s.threads t).frames)
    (hchannels : s'.channels = Function.update s.channels c channel) (hlog : s'.log = s.log) :
    Possessed s' := by
  obtain ⟨q, qs, hfits⟩ := h.threads t
  have hunread : .received c ∉ s'.log := by
    rw [hlog]
    exact h.unread c (.inr howner)
  refine h.turn c (some (c, x)) hthreads hchannels (hlog.trans (List.append_nil _).symm)
    (List.forall_mem_nil _) hframes ?_ ⟨q, qs, hfits, fun y hmem => ?_, ?_⟩ ?_ fun _ => hunread
  · rw [howner]
    exact private_held
  · exact hfits.not_mem (.inr howner) y (List.mem_cons_of_mem _ hmem)
  · rw [hthread, ← hcall]
    exact kept_call call
  · rintro c' y hy
    cases hy
    exact ⟨rfl, hchannel, fun _ => hunread⟩

theorem possessed_start (h : Possessed s) {call : Call M}
    (hstep : s.start t call = .next s') : Possessed s' := by
  have hother : hold call = none → Possessed (s.goto t call.program) := by
    intro hcall
    refine h.quiet rfl (same_of_eq rfl rfl) fun q qs hfits =>
      ⟨none, qs, hfits.goto (.inr rfl) ?_ rfl⟩
    rw [← hcall]
    exact kept_call call
  cases call with
  | notify c =>
    simp only [Sys.start] at hstep
    split_ifs at hstep with howner hregistered
    cases hstep
    exact possessed_spend h (.notify c) rfl howner rfl rfl rfl rfl rfl rfl
  | drop c =>
    simp only [Sys.start] at hstep
    split_ifs at hstep with howner
    cases hstep
    exact possessed_spend h (.drop c) rfl howner rfl rfl rfl rfl rfl rfl
  | wait c i =>
    simp only [Sys.start] at hstep
    split_ifs at hstep with howner
    cases hstep
    exact possessed_spend h (.wait c i) rfl howner rfl rfl rfl rfl rfl rfl
  | _ =>
    cases hstep
    exact hother rfl

theorem possessed_finish (h : Possessed s) {frame : Frame M} {frames : List (Frame M)}
    (hframes : (s.threads t).frames = frame :: frames) :
    Possessed (s.setThread t ⟨frame.code, frame.collectors, none, frames⟩) := by
  refine h.quiet rfl (same_of_eq rfl rfl) fun q qs hfits => ?_
  have hold := hfits.frames
  rw [hframes] at hold
  cases hold with
  | cons hframe hrest =>
    refine ⟨_, _, hframe, hrest, fun c x hmem => hfits.owner c x (List.mem_cons_of_mem _ hmem),
      fun c x hmem => hfits.unread c x (List.mem_cons_of_mem _ hmem),
      (List.pairwise_cons.mp hfits.apart).2⟩

end Steps

theorem possessed_step {action : Action M} (h : Possessed s)
    (hfresh : (s.channels s.nextChannel).owner = .absent) (hstep : s.step action = .next s') :
    Possessed s' := by
  cases action with
  | start t call =>
    simp only [Sys.step] at hstep
    split at hstep
    · exact possessed_start h hstep
    · cases hstep
  | advance t reading =>
    simp only [Sys.step] at hstep
    split at hstep
    · cases hstep
    · next p hcode =>
      cases hstep
      refine h.quiet rfl (same_of_eq rfl rfl) fun q qs hfits =>
        ⟨none, qs, hfits.goto (.inr rfl) (kept_program p) rfl⟩
    · next i k hcode => exact possessed_execute h hfresh hcode hstep
  | finish t =>
    simp only [Sys.step] at hstep
    split at hstep
    · next frame frames hcode hframes =>
      cases hstep
      exact possessed_finish h hframes
    · cases hstep

theorem possessed_of_reachable {side : Side} (h : (machine side).Reachable s) : Possessed s := by
  refine h.invariant (possessed_init side) fun s a s' hs hp hstep => possessed_step hp ?_ hstep
  obtain ⟨q, hinvariant⟩ := invariant_of_reachable hs
  exact hinvariant.fresh _ le_rfl

end ArkWire.Protocol.Possession
