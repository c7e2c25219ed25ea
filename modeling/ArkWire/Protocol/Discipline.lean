import ArkWire.Protocol.Callbacks

/-! # The discipline of locks and callbacks

What the place of a thread in its function says of the thread (`Static`), and what it may do there.
Every function, loop and call follows it (`checked_program`, `checked_call`): on no path is a lock
taken out of order, a callback run under a lock, or a result published where nobody collects. -/

namespace ArkWire.Protocol.Discipline

open ArkWire.Lib.Programs
open ArkWire.Protocol.Errors ArkWire.Protocol.Envelope ArkWire.Protocol.Promise
open ArkWire.Protocol.Operation ArkWire.Protocol.Session ArkWire.Protocol.Callbacks
open ArkWire.Protocol.Publication (Settled Report)

variable {M ρ α : Type}

/-- Locks are taken in this order. -/
def rank : Lock → ℕ
  | .server => 0
  | .session _ => 1
  | .notification _ => 2

/-- What is known of a thread from its place in a function: the locks it holds, its `Notifications`,
the promise whose publication it is in and whether the result was delivered, and the promise it is
to register a callback on, or has found settled. -/
structure Static where
  held : List Lock := []
  depth : ℕ := 0
  sending : Option (ℕ × Bool) := none
  hand : Option (ℕ × Bool) := none

namespace Static

variable (q : Static)

/-- A lock that may be taken next to those that are held. -/
def Above (l : Lock) : Prop := ∀ m ∈ q.held, rank m < rank l

def allowed : Instr M → Prop
  | .acquire l => q.Above l ∧ q.sending = none
  | .release l => l ∈ q.held ∧ q.sending = none
  | .await _ => q.held = [] ∧ q.sending = none
  -- callbacks run here
  | .flush => q.held = [] ∧ q.sending = none ∧ q.hand = none ∧ 0 < q.depth
  | .invoke => q.held = [] ∧ q.sending = none ∧ ∃ c, q.hand = some (c, true)
  | .isEmpty => 0 < q.depth
  | .session i _ => .session i ∈ q.held
  | .server _ => .server ∈ q.held
  | .put c _ => .notification c ∈ q.held ∧ q.sending = none
  | .take c delivered => q.sending = some (c, delivered) ∧ 0 < q.depth
  | .register c => .notification c ∈ q.held ∧ q.sending = none ∧ q.hand = some (c, false)
  | .discard c => .notification c ∈ q.held ∧ q.sending = none
  | .receive _ => q.held = []
  | .giveBack _ => q.hand = none
  | _ => True

def after : (i : Instr M) → i.Answer → Static
  | .acquire l, _ => { q with held := l :: q.held }
  | .release l, _ => { q with held := q.held.erase l }
  | .collect, _ => { q with depth := q.depth + 1 }
  | .flush, _ => { q with depth := q.depth - 1 }
  | .put c _, delivered => { q with sending := some (c, delivered) }
  | .take _ _, _ => { q with sending := none }
  | .register c, settled => { q with hand := cond settled (some (c, true)) none }
  | .invoke, _ => { q with hand := none }
  | _, _ => q

/-- Where a label is entered. -/
def entry : Label → Static
  | .deadlines i => { held := [.session i], depth := 1 }
  | .pickup i => { held := [.session i], depth := 1 }
  | .recv i => { held := [.session i] }
  | .accept => { held := [.server] }

end Static

/-- **The discipline**: callbacks run where no lock is held, publications are collected, and a
publication is not interrupted by its own thread. -/
def discipline (M : Type) : Discipline (Instr M) Instr.Answer Label Static where
  allowed := Static.allowed
  after := Static.after
  final q := q = {}
  entry := Static.entry

variable {q : Static}

theorem sound_guarded {l : Lock} {body : Fn M ρ α} (hl : q.Above l) (hs : q.sending = none)
    (h : Sound (discipline M) { q with held := l :: q.held } body) :
    Sound (discipline M) q (guarded l body) := by
  refine Sound.bracket ⟨hl, hs⟩ (fun _ => rfl) h ⟨List.mem_cons_self, hs⟩ fun _ => ?_
  show { q with held := (l :: q.held).erase l } = q
  rw [List.erase_cons_head]

theorem sound_collecting {body : Fn M ρ α} (hl : q.held = []) (hs : q.sending = none)
    (hh : q.hand = none) (h : Sound (discipline M) { q with depth := q.depth + 1 } body) :
    Sound (discipline M) q (collecting body) :=
  Sound.bracket trivial (fun _ => rfl) h ⟨hl, hs, hh, Nat.succ_pos _⟩ fun _ => rfl

/-- Where results can be published. -/
structure Publishes (q : Static) : Prop where
  sending : q.sending = none
  depth : 0 < q.depth
  above : ∀ c, q.Above (.notification c)

theorem sound_send (h : Publishes q) (p : Settled) :
    Sound (discipline M) q (send p : Fn M ρ Bool) := by
  intro norm ret hnorm _
  refine ⟨⟨h.above _, h.sending⟩, fun _ => ⟨⟨List.mem_cons_self, h.sending⟩, fun d => ?_⟩⟩
  refine ⟨⟨rfl, h.depth⟩, fun _ => ⟨⟨List.mem_cons_self, rfl⟩, fun _ => ?_⟩⟩
  show Checked _ { q with held := List.erase (_ :: q.held) _, sending := none } (norm d)
  rw [List.erase_cons_head, ← h.sending]
  exact hnorm d

theorem sound_publish (h : Publishes q) : ∀ ps : List Settled,
    Sound (discipline M) q (publish ps : Fn M ρ Bool)
  | [] => sound_pure _
  | p :: ps => (sound_send h p).bind fun _ => (sound_publish h ps).bind fun _ => sound_pure _

theorem sound_session {i : ℕ} (hi : .session i ∈ q.held)
    (f : Reading → ℕ → State M → Except Panic (State M × Report M)) :
    Sound (discipline M) q (session i f : Fn M ρ (Report M)) :=
  sound_perform hi fun _ => rfl

theorem sound_settle {i : ℕ} (hi : .session i ∈ q.held) (h : Publishes q)
    (f : Reading → State M → State M × Report M) :
    Sound (discipline M) q (settle i f : Fn M ρ (Report M)) :=
  (sound_session hi _).bind fun _ => (sound_publish h _).bind fun _ => sound_pure _

theorem sound_readings : Sound (discipline M) q (readings : Fn M ρ Reading) :=
  sound_perform trivial fun _ => rfl

/-! ### The functions follow it -/

/-- Where a function is called: its thread holds no lock and is in no publication. -/
structure Calm (q : Static) : Prop where
  held : q.held = []
  sending : q.sending = none
  hand : q.hand = none

theorem Calm.deeper (h : Calm q) : Calm { q with depth := q.depth + 1 } :=
  ⟨h.held, h.sending, h.hand⟩

theorem Calm.not_held (h : Calm q) (l : Lock) : l ∉ q.held := by
  rw [h.held]
  exact List.not_mem_nil

theorem Calm.above (h : Calm q) (l : Lock) : q.Above l := fun m hm => absurd hm (h.not_held m)

/-- The state lock of a session may be taken with no lock held, or with that of the server. -/
structure Outer (q : Static) : Prop where
  held : ∀ l ∈ q.held, l = .server
  sending : q.sending = none

theorem Calm.outer (h : Calm q) : Outer q :=
  ⟨fun l hl => absurd hl (h.not_held l), h.sending⟩

theorem Outer.above (h : Outer q) (i : ℕ) : q.Above (.session i) := by
  intro m hm
  rw [h.held m hm]
  exact Nat.one_pos

theorem Outer.publishes (h : Outer q) (hd : 0 < q.depth) (i : ℕ) :
    Publishes { q with held := .session i :: q.held } := by
  refine ⟨h.sending, hd, fun c m hm => ?_⟩
  rcases List.mem_cons.mp hm with rfl | hm
  · exact Nat.one_lt_two
  · rw [h.held m hm]
    exact Nat.two_pos

/-- A section under the state lock that settles promises. -/
theorem sound_settled (h : Outer q) (hd : 0 < q.depth) (i : ℕ)
    (f : Reading → State M → State M × Report M) :
    Sound (discipline M) q (guarded (.session i) (do let _ ← settle i f) : Fn M ρ Unit) :=
  sound_guarded (h.above i) h.sending
    ((sound_settle List.mem_cons_self (h.publishes hd i) f).bind fun _ => sound_pure _)

theorem sound_collected (h : Calm q) (i : ℕ) (f : Reading → State M → State M × Report M) :
    Sound (discipline M) q
      (collecting (guarded (.session i) (do let _ ← settle i f)) : Fn M ρ Unit) :=
  sound_collecting h.held h.sending h.hand (sound_settled h.deeper.outer (Nat.succ_pos _) i f)

theorem sound_expire (h : Calm q) (i : ℕ) : Sound (discipline M) q (expire i : Fn M ρ Unit) :=
  sound_collected h i _

theorem sound_await (h : Calm q) (w : Wait) :
    Sound (discipline M) q (instr (.await w) : Fn M ρ Unit) :=
  sound_perform ⟨h.held, h.sending⟩ fun _ => rfl

theorem sound_close (h : Calm q) (i : ℕ) (error : Error) :
    Sound (discipline M) q (close i error : Fn M ρ Unit) := by
  refine sound_collecting h.held h.sending h.hand ?_
  exact (sound_settled h.deeper.outer (Nat.succ_pos _) i _).bind fun _ => sound_await h.deeper _

theorem sound_limit (h : Outer q) (hd : 0 < q.depth) (i requests bytes : ℕ) :
    Sound (discipline M) q (limit i requests bytes : Fn M ρ Bool) :=
  sound_guarded (h.above i) h.sending
    ((sound_settle List.mem_cons_self (h.publishes hd i) _).bind fun _ => sound_pure _)

theorem sound_setInboundLimits (h : Calm q) (i requests bytes : ℕ) :
    Sound (discipline M) q (setInboundLimits i requests bytes : Fn M ρ Unit) := by
  refine sound_collecting h.held h.sending h.hand ?_
  refine (sound_limit h.deeper.outer (Nat.succ_pos _) i _ _).bind fun closed => ?_
  cases closed with
  | true => exact sound_await h.deeper _
  | false => exact sound_pure _

theorem sound_setAutoreplyTimeout (h : Outer q) (i timeout : ℕ) :
    Sound (discipline M) q (setAutoreplyTimeout i timeout : Fn M ρ Unit) :=
  sound_guarded (h.above i) h.sending
    ((sound_session List.mem_cons_self _).bind fun _ => sound_pure _)

theorem sound_recordWrite (h : Calm q) (i key : ℕ) (result : Except Error Unit) :
    Sound (discipline M) q (recordWrite i key result : Fn M ρ Unit) :=
  sound_collected h i _

theorem sound_enqueue (h : Calm q) (i : ℕ) (body : OutgoingBody M) (operation : PendingOperation) :
    Sound (discipline M) q (enqueue i body operation) := by
  refine sound_collecting h.held h.sending h.hand (Sound.bind ?_ fun _ => sound_pure _)
  refine sound_guarded (h.above _) h.sending
    ((sound_session List.mem_cons_self _).bind fun report => ?_)
  cases report.error with
  | some error => exact sound_early _
  | none =>
    exact (sound_publish (h.deeper.outer.publishes (Nat.succ_pos _) i) _).bind fun _ => sound_pure _

theorem sound_dropPromise (h : Calm q) (c : ℕ) :
    Sound (discipline M) q (dropPromise c : Fn M ρ Unit) := by
  refine Sound.bind (sound_guarded (h.above _) h.sending ?_) fun _ => ?_
  · have hd : Sound (discipline M) { q with held := .notification c :: q.held }
        (instr (.discard c) : Fn M ρ Unit) :=
      sound_perform ⟨List.mem_cons_self, h.sending⟩ fun _ => rfl
    exact hd.bind fun _ => sound_pure _
  · have hd : Sound (discipline M) q (instr (.dropReceiver c) : Fn M ρ Unit) :=
      sound_perform trivial fun _ => rfl
    exact hd.bind fun _ => sound_pure _

theorem sound_submit (h : Calm q) (i : ℕ) (body : OutgoingBody M) (deadline : ℕ) :
    Sound (discipline M) q (submit i body deadline : Fn M ρ (Option ℕ)) := by
  have hpair : Sound (discipline M) q (instr .pair : Fn M ρ ℕ) :=
    sound_perform trivial fun _ => rfl
  refine hpair.bind fun c => (sound_enqueue h i body _).call.bind fun result => ?_
  cases result with
  | ok _ => exact sound_pure _
  | error _ => exact (sound_dropPromise h c).bind fun _ => sound_pure _

theorem sound_handOut (c : ℕ) :
    Sound (discipline M) q (do let _ ← instr (.handOut c) : Fn M ρ Unit) := by
  have hd : Sound (discipline M) q (instr (.handOut c) : Fn M ρ Unit) :=
    sound_perform trivial fun _ => rfl
  exact hd.bind fun _ => sound_pure _

theorem sound_request (h : Calm q) (i : ℕ) (message : M) (deadline : ℕ) :
    Sound (discipline M) q (request i message deadline : Fn M ρ Unit) := by
  refine (sound_submit h i _ deadline).bind fun c => ?_
  cases c with
  | some c => exact sound_handOut c
  | none => exact sound_pure _

theorem sound_autoreply (h : Calm q) (i id : ℕ) (error : SchemaError) :
    Sound (discipline M) q (autoreply i id error) := by
  refine sound_readings.bind fun reading => Sound.bind ?_ fun timeout => ?_
  · refine sound_guarded (h.above _) h.sending
      ((sound_session List.mem_cons_self _).bind fun report => ?_)
    cases report.closed with
    | true => exact sound_early _
    | false => exact sound_pure _
  · refine (sound_submit h i _ _).bind fun c => ?_
    cases c with
    | some c => exact sound_dropPromise h c
    | none => exact sound_pure _

theorem sound_dropResponder (h : Calm q) (i id : ℕ) :
    Sound (discipline M) q (dropResponder i id : Fn M ρ Unit) := by
  refine sound_readings.bind fun reading => ?_
  cases reading.choice with
  | true => exact (sound_autoreply h i id _).call
  | false => exact sound_pure _

theorem sound_respond (h : Calm q) (i id : ℕ) (result : Except SchemaError M) (deadline : ℕ) :
    Sound (discipline M) q (respond i id result deadline : Fn M ρ Unit) := by
  refine (sound_submit h i _ deadline).bind fun c => ?_
  cases c with
  | some c => exact sound_handOut c
  | none => exact sound_dropResponder h i id

theorem sound_handleMessage (h : Calm q) (side : Side) (i : ℕ) (header : Option Header)
    (bytes : Bytes) : Sound (discipline M) q (handleMessage side i header bytes) := by
  cases header with
  | none => exact sound_pure _
  | some header =>
    refine sound_collecting h.held h.sending h.hand (Sound.bind ?_ fun unknown => ?_)
    · refine sound_guarded (h.above _) h.sending
        ((sound_session List.mem_cons_self _).bind fun report => ?_)
      cases report.error with
      | some error => exact sound_early _
      | none =>
        refine (sound_publish (h.deeper.outer.publishes (Nat.succ_pos _) i) _).bind
          fun delivered => ?_
        cases report.overLimit with
        | none => exact sound_pure _
        | some error =>
          cases delivered with
          | true => exact sound_early _
          | false => exact sound_pure _
    · cases unknown with
      | some id => exact (sound_autoreply h.deeper i id _).call.bind fun _ => sound_pure _
      | none => exact sound_pure _

theorem sound_readMessage (h : Calm q) (side : Side) (i : ℕ) (header : Option Header)
    (bytes : Bytes) : Sound (discipline M) q (readMessage side i header bytes : Fn M ρ Unit) := by
  refine (sound_handleMessage h side i header bytes).call.bind fun result => ?_
  cases result with
  | ok _ => exact sound_pure _
  | error error => exact sound_close h i error

theorem sound_decode (h : Calm q) (i : ℕ) : Sound (discipline M) q (decode i : Fn M ρ Unit) := by
  refine sound_readings.bind fun reading => ?_
  cases reading.choice with
  | true => exact sound_close h i _
  | false => exact sound_pure _

theorem sound_takeResult (h : Calm q) (c i : ℕ) :
    Sound (discipline M) q (takeResult c i : Fn M ρ Unit) := by
  have hreceive : Sound (discipline M) q
      (instr (.receive c) : Fn M ρ (Except Error PromiseResult)) :=
    sound_perform h.held fun _ => rfl
  refine hreceive.bind fun result => (sound_dropPromise h c).bind fun _ => ?_
  split
  · exact sound_decode h i
  · exact sound_pure _

theorem sound_wait (h : Calm q) (c i : ℕ) : Sound (discipline M) q (wait c i : Fn M ρ Unit) := by
  refine sound_readings.bind fun reading => ?_
  cases reading.choice with
  | true => exact (sound_expire h i).bind fun _ => sound_takeResult h c i
  | false => exact sound_takeResult h c i

theorem sound_upgrade (session : Option ℕ) :
    Sound (discipline M) q (upgrade session : Fn M ρ (Option ℕ)) :=
  sound_readings.bind fun _ => sound_pure _

theorem sound_server (hs : .server ∈ q.held) (f : Server.State → Server.State × Policy) :
    Sound (discipline M) q (server f : Fn M ρ Policy) :=
  sound_perform hs fun _ => rfl

/-- Under the lock of the server. -/
theorem Calm.server (h : Calm q) : Outer { q with held := .server :: q.held } := by
  refine ⟨fun l hl => ?_, h.sending⟩
  rcases List.mem_cons.mp hl with rfl | hl
  · rfl
  · exact absurd hl (h.not_held l)

theorem sound_serverSetInboundLimits (h : Calm q) (requests bytes : ℕ) :
    Sound (discipline M) q (serverSetInboundLimits requests bytes : Fn M ρ Unit) := by
  refine sound_collecting h.held h.sending h.hand (sound_guarded (h.above _) h.sending ?_)
  refine (sound_server List.mem_cons_self _).bind fun answer => (sound_upgrade _).bind fun i => ?_
  cases i with
  | some i => exact (sound_limit h.deeper.server (Nat.succ_pos _) i _ _).bind fun _ => sound_pure _
  | none => exact sound_pure _

theorem sound_serverSetAutoreplyTimeout (h : Calm q) (timeout : ℕ) :
    Sound (discipline M) q (serverSetAutoreplyTimeout timeout : Fn M ρ Unit) := by
  refine sound_guarded (h.above _) h.sending ?_
  refine (sound_server List.mem_cons_self _).bind fun answer => (sound_upgrade _).bind fun i => ?_
  cases i with
  | some i => exact sound_setAutoreplyTimeout h.server i _
  | none => exact sound_pure _

theorem sound_closeSome (h : Calm q) (session : Option ℕ) (error : Error) :
    Sound (discipline M) q (closeSome session error : Fn M ρ Unit) := by
  cases session with
  | some i => exact sound_close h i error
  | none => exact sound_pure _

theorem sound_serverClose (h : Calm q) (error : Error) :
    Sound (discipline M) q (serverClose error : Fn M ρ Unit) := by
  refine Sound.bind (sound_guarded (h.above _) h.sending
    (sound_server List.mem_cons_self _)) fun answer => (sound_upgrade _).bind fun i => ?_
  refine (sound_closeSome h i _).bind fun _ => ?_
  exact (sound_closeSome h answer.ready _).bind fun _ => sound_await h _

theorem sound_install (h : Calm q) (i : ℕ) : Sound (discipline M) q (install i) := by
  refine sound_collecting h.held h.sending h.hand (Sound.bind ?_ fun ready => ?_)
  · refine sound_guarded (h.above _) h.sending
      ((sound_server List.mem_cons_self _).bind fun answer => ?_)
    cases answer.reason with
    | some reason => exact sound_early _
    | none =>
      refine (sound_limit h.deeper.server (Nat.succ_pos _) i _ _).bind fun _ => ?_
      refine (sound_setAutoreplyTimeout h.deeper.server i _).bind fun _ => ?_
      exact (sound_server List.mem_cons_self _).bind fun _ => sound_pure _
  · exact sound_closeSome h.deeper ready _

theorem sound_attachBody (h : Calm q) (i : ℕ) : Sound (discipline M) q (attachBody i) := by
  refine Sound.bind ?_ fun previous => ?_
  · refine sound_guarded (h.above _) h.sending
      ((sound_server List.mem_cons_self _).bind fun answer => ?_)
    cases answer.reason with
    | some reason => exact sound_early _
    | none => exact sound_upgrade _
  · refine (sound_closeSome h previous _).bind fun _ => ?_
    exact (sound_install h i).bind fun _ => sound_pure _

theorem sound_attach (h : Calm q) (i : ℕ) : Sound (discipline M) q (attach i : Fn M ρ Unit) := by
  refine (sound_attachBody h i).call.bind fun result => ?_
  cases result with
  | ok _ => exact sound_pure _
  | error _ => exact sound_close h i _

/-! ### The loops and the calls follow it -/

theorem calm_depth (depth : ℕ) : Calm { depth } := ⟨rfl, rfl, rfl⟩

section Loops

variable {depth : ℕ} {k : Program M}

theorem checked_acquire (l : Lock) (h : Checked (discipline M) { held := [l], depth } k) :
    Checked (discipline M) { depth } (.instr (.acquire l) fun _ => k) :=
  ⟨⟨(calm_depth depth).above l, rfl⟩, fun _ => h⟩

theorem checked_release (l : Lock) (h : Checked (discipline M) { depth } k) :
    Checked (discipline M) { held := [l], depth } (.instr (.release l) fun _ => k) := by
  refine ⟨⟨List.mem_cons_self, rfl⟩, fun _ => ?_⟩
  show Checked (discipline M) ({ held := List.erase [l] l, depth } : Static) k
  rw [List.erase_cons_head]
  exact h

theorem checked_collect (h : Checked (discipline M) { depth := depth + 1 } k) :
    Checked (discipline M) { depth } (.instr .collect fun _ => k) :=
  ⟨trivial, fun _ => h⟩

theorem checked_flush (h : Checked (discipline M) { depth } k) :
    Checked (discipline M) { depth := depth + 1 } (.instr .flush fun _ => k) :=
  ⟨⟨rfl, rfl, rfl, Nat.succ_pos _⟩, fun _ => h⟩

/-- A function that is called with no lock held, and what its caller does next. -/
theorem checked_calm {body : Fn M ρ ρ} (h : Sound (discipline M) { depth } body)
    {next : ρ → Program M} (hk : ∀ r, Checked (discipline M) { depth } (next r)) :
    Checked (discipline M) { depth } (body.toCode next) :=
  h.checked hk

end Loops

theorem checked_done : Checked (discipline M) {} .done := rfl

theorem sound_expireFirst (i : ℕ) :
    Sound (discipline M) { held := [.session i], depth := 1 } (expireFirst i) := by
  have hp : Publishes { held := [.session i], depth := 1 } :=
    (calm_depth 1).outer.publishes Nat.one_pos i
  have hempty : Sound (discipline M) { held := [.session i], depth := 1 }
      (instr .isEmpty : Fn M (Report M × Bool) Bool) :=
    sound_perform Nat.one_pos fun _ => rfl
  exact (sound_settle List.mem_cons_self hp _).bind fun _ => hempty.bind fun _ => sound_pure _

theorem checked_awaitChange (l : Lock) (p : Label) {depth : ℕ}
    (h : { held := [l], depth } = Static.entry p) :
    Checked (discipline M) { held := [l], depth } (awaitChange l p) :=
  checked_release l ⟨⟨rfl, rfl⟩, fun _ => checked_acquire l h⟩

theorem checked_runCollected (i : ℕ) (p : Label)
    (h : { held := [.session i], depth := 1 } = Static.entry p) :
    Checked (discipline M) { held := [.session i], depth := 1 } (runCollected i p) :=
  checked_release _ (checked_flush (checked_collect (checked_acquire _ h)))

theorem checked_deadlines (i : ℕ) :
    Checked (discipline M) { held := [.session i], depth := 1 } (deadlines i) := by
  refine (sound_expireFirst i).checked fun (report, empty) => ?_
  dsimp only
  split_ifs
  · exact checked_release _ (checked_flush checked_done)
  · exact checked_awaitChange _ _ rfl
  · exact checked_runCollected i _ rfl

theorem checked_runDeadlines (i : ℕ) : Checked (discipline M) {} (runDeadlines i) :=
  checked_collect (checked_acquire _ rfl)

theorem checked_runWriter (i : ℕ) : Checked (discipline M) {} (runWriter i) :=
  checked_collect (checked_acquire _ rfl)

theorem sound_write (h : Calm q) (i id : ℕ) (message : OutgoingMessage M) :
    Sound (discipline M) q (write i id message) := by
  have hreport : ∀ result, Sound (discipline M) q (do
      guarded (.session i) do
        if message.body.isRequest && !result.isOk then
          let _ ← inspect i (Publication.withdraw id)
        else pure ()
      recordWrite i message.key result
      pure true : Fn M Bool Bool) := by
    intro result
    refine Sound.bind (sound_guarded (h.above _) h.sending ?_) fun _ =>
      (sound_recordWrite h i message.key result).bind fun _ => sound_pure _
    split_ifs
    · exact (sound_session List.mem_cons_self _).bind fun _ => sound_pure _
    · exact sound_pure _
  refine (sound_await h _).bind fun _ => sound_readings.bind fun reading => ?_
  split
  · exact (sound_close h i _).bind fun _ => sound_pure _
  · exact hreport _

theorem checked_pickup (i : ℕ) :
    Checked (discipline M) { held := [.session i], depth := 1 } (pickup i) := by
  refine (sound_expireFirst i).checked fun (report, empty) => ?_
  dsimp only
  split_ifs
  · refine ⟨List.mem_cons_self, fun report => ?_⟩
    show Checked (discipline M) ({ held := [.session i], depth := 1 } : Static) _
    dsimp only
    split_ifs
    · exact checked_release _ (checked_flush checked_done)
    · split
      · exact checked_awaitChange _ _ rfl
      · refine checked_release _ (checked_flush (checked_calm
          (sound_write (calm_depth 0) i _ _) fun on => ?_))
        split_ifs
        · exact checked_runWriter i
        · exact checked_done
  · exact checked_runCollected i _ rfl

theorem sound_decodeRequest (h : Calm q) (i id : ℕ) :
    Sound (discipline M) q (recv.decodeRequest i id : Fn M Unit Unit) := by
  refine sound_readings.bind fun reading => ?_
  cases reading.choice with
  | true => exact (sound_close h i _).bind fun _ => sound_dropResponder h i id
  | false => exact sound_pure _

theorem checked_recv (i : ℕ) : Checked (discipline M) { held := [.session i] } (recv i) := by
  refine ⟨List.mem_cons_self, fun report => ?_⟩
  show Checked (discipline M) ({ held := [.session i], depth := 0 } : Static) _
  dsimp only
  split
  · exact checked_release _ checked_done
  · exact checked_awaitChange _ _ rfl
  · exact checked_release _ (checked_calm (sound_decodeRequest (calm_depth 0) i _) fun _ =>
      checked_done)

theorem checked_accept : Checked (discipline M) { held := [.server] } accept := by
  refine ⟨List.mem_cons_self, fun answer => ?_⟩
  show Checked (discipline M) ({ held := [.server], depth := 0 } : Static) _
  dsimp only
  split
  · exact checked_awaitChange _ _ rfl
  · exact checked_release _ checked_done

theorem checked_program (p : Label) : Checked (discipline M) (Static.entry p) (program p) := by
  cases p with
  | deadlines i => exact checked_deadlines i
  | pickup i => exact checked_pickup i
  | recv i => exact checked_recv i
  | accept => exact checked_accept

/-- The promise a call is to register a callback on. -/
def Call.hand : Call M → Option ℕ
  | .notify c => some c
  | _ => none

theorem checked_notify (c : ℕ) : Checked (discipline M) { hand := some (c, false) }
    ((notify c : Fn M Unit Unit).toCode fun _ => .done) := by
  refine ⟨⟨fun m hm => absurd hm List.not_mem_nil, rfl⟩,
    fun _ => ⟨⟨List.mem_cons_self, rfl, rfl⟩, fun settled => ?_⟩⟩
  refine ⟨⟨List.mem_cons_self, rfl⟩, fun _ => ?_⟩
  show Checked (discipline M) (⟨List.erase [Lock.notification c] (.notification c), 0, none,
    cond settled (some (c, true)) none⟩ : Static) _
  rw [List.erase_cons_head]
  cases settled with
  | true => exact ⟨⟨rfl, rfl, c, rfl⟩, fun _ => ⟨rfl, fun _ => rfl⟩⟩
  | false => exact ⟨rfl, fun _ => rfl⟩

theorem checked_call (call : Call M) :
    Checked (discipline M) { hand := (Call.hand call).map (·, false) } call.program := by
  have hcalm := calm_depth 0
  have hfunction : ∀ body : Fn M Unit Unit, Sound (discipline M) {} body →
      Checked (discipline M) {} (body.toCode fun _ => .done) :=
    fun body h => h.checked fun _ => checked_done
  cases call with
  | request i message deadline => exact hfunction _ (sound_request hcalm i message deadline)
  | respond i id result deadline => exact hfunction _ (sound_respond hcalm i id result deadline)
  | dropResponder i id => exact hfunction _ (sound_dropResponder hcalm i id)
  | recv i => exact checked_acquire _ rfl
  | message side i header bytes => exact hfunction _ (sound_readMessage hcalm side i header bytes)
  | close i error => exact hfunction _ (sound_close hcalm i error)
  | setInboundLimits i requests bytes =>
    exact hfunction _ (sound_setInboundLimits hcalm i requests bytes)
  | setAutoreplyTimeout i timeout =>
    exact hfunction _ (sound_setAutoreplyTimeout hcalm.outer i timeout)
  | runDeadlines i => exact checked_runDeadlines i
  | runWriter i => exact checked_runWriter i
  | notify c => exact checked_notify c
  | drop c => exact hfunction _ (sound_dropPromise hcalm c)
  | wait c i => exact hfunction _ (sound_wait hcalm c i)
  | serverSetInboundLimits requests bytes =>
    exact hfunction _ (sound_serverSetInboundLimits hcalm requests bytes)
  | serverSetAutoreplyTimeout timeout =>
    exact hfunction _ (sound_serverSetAutoreplyTimeout hcalm timeout)
  | serverClose error => exact hfunction _ (sound_serverClose hcalm error)
  | attach i => exact hfunction _ (sound_attach hcalm i)
  | accept => exact checked_acquire _ rfl

end ArkWire.Protocol.Discipline
