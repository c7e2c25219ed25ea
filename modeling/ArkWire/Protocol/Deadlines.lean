import ArkWire.Protocol.Settlement
import ArkWire.Protocol.Tracing

/-! # One deadline rule, and the order of the output

Every section that settles operations reads the clock once. `Timely` says what it may send to the
promises: each gets a result only from its own pending operation, and this is `Timeout` exactly when
the reading is at or past the deadline. No path brings a `Timeout` of its own (`Untimed`).

The queue is in the order of the keys, which is the order of submission (`Traced`). A message leaves
it at the front, by expiry, or with the session. -/

namespace ArkWire.Protocol.Deadlines

open ArkWire.Lib.Machines
open ArkWire.Transport.Errors ArkWire.Protocol.Errors ArkWire.Protocol.Envelope
open ArkWire.Protocol.Promise ArkWire.Protocol.Operation ArkWire.Protocol.Session
open ArkWire.Protocol.System ArkWire.Protocol.Sections ArkWire.Protocol.Steps
open ArkWire.Protocol.Routing ArkWire.Protocol.Settlement ArkWire.Protocol.Tracing

variable {M : Type}

/-- The clock reading of a step that may settle operations. -/
def clock : Action M → Option ℕ
  | .request _ _ now => some now
  | .respond _ _ _ now => some now
  | .autoreplyQueue _ now => some now
  | .message _ now => some now
  | .lost _ now => some now
  | .close now => some now
  | .closeOwed _ now => some now
  | .setInboundLimits _ _ now => some now
  | .expire now => some now
  | .pickup now => some now
  | .report now => some now
  | .fail now => some now
  | _ => none

/-! ### What is sent at one reading of the clock -/

/-- **The deadline rule**: a promise gets at most one result, from its pending operation, and this
is `Timeout` exactly when the deadline has passed. -/
def Timely (operations : Operations) (now : ℕ) (w w' : Shared) : Prop :=
  ∀ c, (w'.channels c).sent = (w.channels c).sent ∨
    ∃ key operation result, operations.lookup key = some operation ∧ operation.sender.channel = c ∧
      (w'.channels c).sent = (w.channels c).sent ++ [result] ∧
      (result = .error .timeout ↔ operation.deadline ≤ now)

namespace Timely

variable {operations : Operations} {now : ℕ} {w w' : Shared}

/-- Nothing is sent. -/
theorem of_eq (h : ∀ c, (w'.channels c).sent = (w.channels c).sent) : Timely operations now w w' :=
  fun c => .inl (h c)

/-- What the application does with a promise sends nothing. -/
theorem modify (c : ℕ) {f : Channel → Channel}
    (hf : (f (w.channels c)).sent = (w.channels c).sent) :
    Timely operations now w (w.modify c f) := by
  refine of_eq fun c' => ?_
  by_cases hc : c' = c
  · subst hc
    rw [Shared.modify_channels_self, hf]
  · rw [Shared.modify_channels_of_ne _ _ hc]

/-- One operation gets its result. -/
theorem send {key : ℕ} {operation : PendingOperation} (hl : operations.lookup key = some operation)
    {result : Except Error PromiseResult} (hr : result = .error .timeout ↔ operation.deadline ≤ now)
    {w₀ : Shared} (hw : w₀.channels = w.channels) :
    Timely operations now w (operation.sender.send w₀ result).1 := by
  intro c
  by_cases hc : c = operation.sender.channel
  · subst hc
    refine .inr ⟨key, operation, result, hl, rfl, ?_, hr⟩
    rw [send_sent, hw]
  · left
    rw [send_channels_of_ne _ _ _ hc, hw]

/-- What an operation fails with. -/
theorem fail_iff {operation : PendingOperation} {error : Error}
    (he : error ≠ .timeout ∨ operation.deadline ≤ now) :
    (Except.error (if operation.deadline ≤ now then .timeout else error) :
        Except Error PromiseResult) =
      .error .timeout ↔ operation.deadline ≤ now := by
  split_ifs with hd
  · exact ⟨fun _ => hd, fun _ => rfl⟩
  · refine ⟨fun h => ?_, fun h => absurd h hd⟩
    rcases he with he | he
    · exact absurd (Except.error.inj h) he
    · exact he

theorem fail {key : ℕ} {operation : PendingOperation} (hl : operations.lookup key = some operation)
    {error : Error} (he : error ≠ .timeout ∨ operation.deadline ≤ now) :
    Timely operations now w (operation.fail error now w) := send hl (fail_iff he) rfl

/-- All operations of some keys fail, each once. -/
theorem failAll {error : Error} (h : Settled operations w) :
    ∀ (keys : List ℕ) (left : Operations) (w' : Shared), Settled left w' →
      (∀ key operation, left.lookup key = some operation →
        operations.lookup key = some operation ∧
          (w'.channels operation.sender.channel).sent =
            (w.channels operation.sender.channel).sent) →
      (∀ key ∈ keys, ∀ operation, left.lookup key = some operation →
        error ≠ .timeout ∨ operation.deadline ≤ now) →
      Timely operations now w w' → Timely operations now w (failAll error now keys (left, w')).2
  | [], left, w', _, _, _, ht => ht
  | key :: keys, left, w', hs, hleft, he, ht => by
    simp only [Operation.failAll]
    split
    · next operation hl =>
      obtain ⟨hl', hsent⟩ := hleft key operation hl
      refine failAll h keys _ _ (hs.fail hl error now) ?_ ?_ ?_
      · intro key' operation' hk
        rw [lookup_erase_eq] at hk
        split_ifs at hk with hne
        obtain ⟨hk', hsent'⟩ := hleft key' operation' hk
        refine ⟨hk', ?_⟩
        have hc : operation'.sender.channel ≠ operation.sender.channel :=
          fun hc => hne (hs.key_unique hl hk hc)
        rw [PendingOperation.fail, send_channels_of_ne _ _ _ hc]
        exact hsent'
      · intro key' hm operation' hk
        exact he key' (List.mem_cons_of_mem _ hm) operation' (lookup_of_erase hk)
      · intro c
        by_cases hc : c = operation.sender.channel
        · subst hc
          refine .inr ⟨key, operation, _, hl', rfl, ?_, fail_iff (he key (by simp) operation hl)⟩
          rw [PendingOperation.fail, send_sent, hsent]
        · rw [PendingOperation.fail, send_channels_of_ne _ _ _ hc]
          exact ht c
    · exact failAll h keys left w' hs hleft (fun k hm => he k (List.mem_cons_of_mem _ hm)) ht

/-- All operations of some keys of a map fail. -/
theorem of_failAll {error : Error} (h : Settled operations w) (keys : List ℕ)
    (he : ∀ key ∈ keys, ∀ operation, operations.lookup key = some operation →
      error ≠ .timeout ∨ operation.deadline ≤ now) :
    Timely operations now w (Operation.failAll error now keys (operations, w)).2 :=
  failAll h keys operations w h (fun _ _ hl => ⟨hl, rfl⟩) he (of_eq fun _ => rfl)

end Timely

/-! ### The critical sections -/

/-- **What a section does at one reading of the clock**, `taken` being the message it picks up: it
settles operations by the deadline rule, adds none, and a message leaves the queue only if it is
taken, if the session is closed, or if its deadline has passed. -/
structure Prompt (now : ℕ) (taken : Option (OutgoingMessage M)) (s s' : SessionInner M) : Prop where
  timely : Timely s.operations now s.shared s'.shared
  kept : ∀ key operation, s'.operations.lookup key = some operation →
    s.operations.lookup key = some operation
  left : ∀ m ∈ s.outgoing, m ∈ s'.outgoing ∨ taken = some m ∨ (∃ e, s'.state = .closed e) ∨
    ∃ operation, s.operations.lookup m.key = some operation ∧ operation.deadline ≤ now
  queue : s'.outgoing ⊆ s.outgoing
  fresh : s'.nextKey = s.nextKey

namespace Prompt

variable {s s' : SessionInner M} {now : ℕ} {taken : Option (OutgoingMessage M)} {held : Option ℕ}

/-- The state stays. -/
theorem of_state (hs : s'.state = s.state) (hf : s'.nextKey = s.nextKey)
    (hw : ∀ c, (s'.shared.channels c).sent = (s.shared.channels c).sent) :
    Prompt now taken s s' where
  timely := .of_eq hw
  kept key operation hl := by
    simp only [SessionInner.operations, hs] at hl ⊢
    exact hl
  left m hm := by
    simp only [SessionInner.outgoing, hs] at hm ⊢
    exact .inl hm
  queue := by
    simp only [SessionInner.outgoing, hs]
    exact List.Subset.refl _
  fresh := hf

/-- The session stays open and the queue is not touched. -/
theorem of_opened {o o' : OpenState M} (hs : s.state = .opened o) (hs' : s'.state = .opened o')
    (hw : Timely o.operations now s.shared s'.shared)
    (ho : ∀ key operation, o'.operations.lookup key = some operation →
      o.operations.lookup key = some operation)
    (hq : o'.outgoing = o.outgoing) (hf : s'.nextKey = s.nextKey) : Prompt now taken s s' where
  timely := by
    simp only [SessionInner.operations, hs]
    exact hw
  kept key operation hl := by
    simp only [SessionInner.operations, hs, hs'] at hl ⊢
    exact ho key operation hl
  left m hm := by
    simp only [SessionInner.outgoing, hs, hs', hq] at hm ⊢
    exact .inl hm
  queue := by
    simp only [SessionInner.outgoing, hs, hs', hq]
    exact List.Subset.refl _
  fresh := hf

theorem close (h : Settles s) {error : Error} (he : error ≠ .timeout) :
    Prompt now taken s (s.close error now).1 := by
  have hc := close_cases s error now
  generalize s.close error now = r at hc ⊢
  cases hc with
  | already hs => exact of_state rfl rfl fun _ => rfl
  | @closed o hs =>
    refine ⟨?_, fun key operation hl => ?_, fun m hm => .inr (.inr (.inl ⟨error, rfl⟩)),
      List.nil_subset _, rfl⟩
    · simp only [SessionInner.operations, hs]
      exact .of_failAll (h.opened hs) _ fun _ _ _ _ => .inl he
    · simp [SessionInner.operations] at hl

theorem expire (h : Settles s) (hr : Routes s held) : Prompt now taken s (s.expire now) := by
  have hc := expire_cases s now
  generalize s.expire now = r at hc ⊢
  cases hc with
  | closed hs => exact of_state rfl rfl fun _ => rfl
  | @expired o hs =>
    refine ⟨?_, fun key operation hl => ?_, fun m hm => ?_, ?_, rfl⟩
    · simp only [SessionInner.operations, hs]
      refine .of_failAll (h.opened hs) _ fun key hk operation hl => .inr ?_
      obtain ⟨operation', hl', hd⟩ := mem_expiredKeys.mp hk
      rw [hl, Option.some.injEq] at hl'
      rw [hl']
      exact hd
    · simp only [SessionInner.operations, hs, expireTo] at hl ⊢
      rw [failAll_expired_lookup] at hl
      exact Option.eq_some_of_filter_eq_some hl
    · simp only [SessionInner.outgoing, SessionInner.operations, hs, expireTo] at hm ⊢
      -- a queued message has its operation, which is kept or has expired
      obtain ⟨operation, hl, -⟩ := (hr.opened hs).queued m hm
      by_cases hd : operation.deadline ≤ now
      · exact .inr (.inr (.inr ⟨operation, hl, hd⟩))
      · left
        rw [List.mem_filter, failAll_expired_lookup, hl, Option.filter_some]
        exact ⟨hm, by simp [not_le.mp hd]⟩
    · simp only [SessionInner.outgoing, hs, expireTo]
      exact List.filter_subset_self _

theorem setInboundLimits (h : Settles s) (requests bytes : ℕ) :
    Prompt now taken s (s.setInboundLimits requests bytes now).1 := by
  have hc := setInboundLimits_cases s requests bytes now
  generalize s.setInboundLimits requests bytes now = r at hc ⊢
  cases hc with
  | closed hs => exact of_state rfl rfl fun _ => rfl
  | @exceeded o error hs he =>
    have hne : error ≠ .timeout := by rcases he with rfl | rfl <;> simp
    have ho := h.opened hs
    have h' : Settles { s with state := .opened { o with
        maxInboundRequests := requests, maxInboundBytes := bytes } } := ho
    obtain ⟨ht, hk, hl, hq, hf⟩ : Prompt now taken _ (SessionInner.close _ error now).1 :=
      close h' hne
    refine ⟨?_, fun key operation hl' => ?_, fun m hm => ?_, ?_, hf⟩
    · simpa only [SessionInner.operations, hs] using ht
    · have := hk key operation hl'
      simpa only [SessionInner.operations, hs] using this
    · have := hl m (by simpa only [SessionInner.outgoing, hs] using hm)
      simpa only [SessionInner.operations, hs] using this
    · simpa only [SessionInner.outgoing, hs] using hq
  | limited hs _ _ => exact of_opened hs rfl (.of_eq fun _ => rfl) (fun _ _ hl => hl) rfl rfl

theorem completeResponse {operations : Operations} {w w' : Shared} {key : ℕ}
    {operation : PendingOperation} (hl : operations.lookup key = some operation) {bytes : Bytes}
    {header : Header} {limit : ℕ} {result : Except Error Unit}
    (hc : operation.completeResponse now w bytes header limit = .ok (w', result)) :
    Timely operations now w w' := by
  cases completeResponse_cases hc with
  | late hd => exact .fail hl (.inr hd)
  | answered hd _ _ _ =>
    refine .send hl ⟨fun h => (by cases h), fun h => ?_⟩ rfl
    omega
  | refused hd _ =>
    refine .send hl ⟨fun h => (by cases h), fun h => ?_⟩ rfl
    omega

theorem handleMessage {codec : Codec M} {bytes : Bytes} {result : Except Error (Option ℕ)}
    (hs' : s.handleMessage codec bytes now = .ok (s', result)) : Prompt now taken s s' := by
  cases handleMessage_cases hs' with
  | unknown _ _ hs => exact of_opened hs rfl (.of_eq fun _ => rfl) (fun _ _ hl => hl) rfl rfl
  | admitted _ _ _ hs => exact of_opened hs rfl (.of_eq fun _ => rfl) (fun _ _ hl => hl) rfl rfl
  | late _ _ hs => exact of_opened hs rfl (.of_eq fun _ => rfl) (fun _ _ hl => hl) rfl rfl
  | completed _ _ hs _ hl hc =>
    exact of_opened hs rfl (completeResponse hl hc) (fun _ _ hl => lookup_of_erase hl) rfl rfl
  | _ => exact of_state rfl rfl fun _ => rfl

theorem recordWrite (key : ℕ) {result : Except Error Unit}
    (hr : ∀ error, result = .error error → error ≠ .timeout) :
    Prompt now taken s (s.recordWrite key result now) := by
  unfold SessionInner.recordWrite
  split
  · exact of_state rfl rfl fun _ => rfl
  · next o hs =>
    split
    · exact of_state rfl rfl fun _ => rfl
    · next operation hl =>
      have hkept : ∀ k op, (o.operations.erase key).lookup k = some op →
          o.operations.lookup k = some op := fun _ _ hl => lookup_of_erase hl
      dsimp only
      split
      · next error =>
        exact of_opened hs rfl (.fail hl (.inl (hr error rfl))) hkept rfl rfl
      · split_ifs with hd hresp
        · exact of_opened hs rfl (.fail hl (.inr hd)) hkept rfl rfl
        · exact of_state rfl rfl fun _ => rfl
        · exact of_opened hs rfl (.send hl ⟨fun h => (by cases h), fun h => absurd h hd⟩ rfl)
            hkept rfl rfl

/-- The writer takes the first message that has not expired. -/
theorem nextOutgoing (h : Settles s) (hr : Routes s held) {pickup : SessionInner.Pickup M}
    (hs' : s.nextOutgoing now = .ok (s', pickup)) :
    (∀ id m, pickup ≠ .taken id m) ∧ Prompt now none s s' ∨
      ∃ id m rest, pickup = .taken id m ∧ Prompt now (some m) s s' ∧
        (s.expire now).outgoing = m :: rest ∧ s'.outgoing = rest ∧
        ∃ operation, s.operations.lookup m.key = some operation ∧ now < operation.deadline := by
  have hex : ∀ taken, Prompt now taken s (s.expire now) := fun _ => expire h hr
  have hre := hr.expire now
  -- the operation of the message at the front has survived the expiry
  have hfront : ∀ {o : OpenState M} {m : OutgoingMessage M} {rest : List (OutgoingMessage M)},
      (s.expire now).state = .opened o → o.outgoing = m :: rest →
      ∃ operation, s.operations.lookup m.key = some operation ∧ now < operation.deadline := by
    intro o m rest ho hq
    obtain ⟨operation, hl, -⟩ := (hre.opened ho).queued m (by rw [hq]; simp)
    refine ⟨operation, (hex none).kept _ _ ?_, ?_⟩
    · simpa only [SessionInner.operations, ho] using hl
    · have hc := expire_cases s now
      generalize s.expire now = r at hc ho
      cases hc with
      | closed hs =>
        rw [hs] at ho
        cases ho
      | expired hs =>
        cases ho
        dsimp only at hl
        rw [failAll_expired_lookup] at hl
        have := Option.mem_filter_iff.mp hl
        simpa using this.2
  have htake : ∀ {o o' : OpenState M} {m : OutgoingMessage M} {rest : List (OutgoingMessage M)},
      (s.expire now).state = .opened o → o.outgoing = m :: rest → s'.state = .opened o' →
      o'.operations = o.operations → o'.outgoing = rest → s'.shared = (s.expire now).shared →
      s'.nextKey = (s.expire now).nextKey → Prompt now (some m) s s' := by
    intro o o' m rest ho hq ho' hops hrest hw hf
    refine ⟨?_, fun key operation hl => ?_, fun m' hm => ?_, fun m' hm => ?_,
      hf.trans (hex none).fresh⟩
    · rw [hw]
      exact (hex none).timely
    · refine (hex none).kept key operation ?_
      simpa only [SessionInner.operations, ho, ho', hops] using hl
    · rcases (hex none).left m' hm with hin | hno | ⟨e, he⟩ | hexp
      · simp only [SessionInner.outgoing, ho, hq] at hin
        rcases List.mem_cons.mp hin with rfl | hin
        · exact .inr (.inl rfl)
        · refine .inl ?_
          simpa only [SessionInner.outgoing, ho', hrest] using hin
      · cases hno
      · rw [ho] at he
        cases he
      · exact .inr (.inr (.inr hexp))
    · refine (hex none).queue ?_
      simp only [SessionInner.outgoing, ho, ho', hq, hrest] at hm ⊢
      exact List.mem_cons_of_mem _ hm
  cases nextOutgoing_cases hs' with
  | closed hs => exact .inl ⟨by simp, hex none⟩
  | again => exact .inl ⟨by simp, hex none⟩
  | wait => exact .inl ⟨by simp, hex none⟩
  | @request o m rest message id hs hq hb hi =>
    refine .inr ⟨id, m, rest, rfl, htake hs hq rfl rfl rfl rfl rfl, ?_, rfl, hfront hs hq⟩
    simp only [SessionInner.outgoing, hs, hq]
  | @reply o m rest id result hs hq hb =>
    refine .inr ⟨id, m, rest, rfl, htake hs hq rfl rfl rfl rfl rfl, ?_, rfl, hfront hs hq⟩
    simp only [SessionInner.outgoing, hs, hq]

end Prompt

/-! ### No path brings a `Timeout` of its own -/

/-- The reason a session is closed with stays. -/
def KeepsReason (s s' : SessionInner M) : Prop := ∀ e, s'.state = .closed e → s.state = .closed e

namespace KeepsReason

variable {s s' : SessionInner M}

theorem of_opened {o' : OpenState M} (h : s'.state = .opened o') : KeepsReason s s' := by
  intro e he
  rw [h] at he
  cases he

theorem submit {body : OutgoingBody M} {deadline now : ℕ}
    (hs' : s.submit body deadline now = .ok s') : KeepsReason s s' := by
  cases submit_cases hs' with
  | late _ _ => exact of_opened rfl
  | queued _ _ => exact of_opened rfl

theorem expire (now : ℕ) : KeepsReason s (s.expire now) := by
  have hc := expire_cases s now
  generalize s.expire now = r at hc ⊢
  cases hc with
  | closed hs => exact fun _ he => he
  | expired hs => exact of_opened rfl

theorem handleMessage {codec : Codec M} {bytes : Bytes} {now : ℕ}
    {result : Except Error (Option ℕ)} (hs' : s.handleMessage codec bytes now = .ok (s', result)) :
    KeepsReason s s' := by
  cases handleMessage_cases hs' with
  | unknown => exact of_opened rfl
  | admitted => exact of_opened rfl
  | late => exact of_opened rfl
  | completed => exact of_opened rfl
  | _ => exact fun _ he => he

theorem nextOutgoing {now : ℕ} {pickup : SessionInner.Pickup M}
    (hs' : s.nextOutgoing now = .ok (s', pickup)) : KeepsReason s s' := by
  cases nextOutgoing_cases hs' with
  | request => exact of_opened rfl
  | reply => exact of_opened rfl
  | _ => exact expire now

theorem withdraw (id : ℕ) : KeepsReason s (s.withdraw id) := by
  rcases withdraw_cases s id with ⟨e, hs, he⟩ | ⟨o, hs, he⟩
  · rw [he]
    exact fun _ he => he
  · rw [he]
    exact of_opened rfl

theorem recordWrite (key : ℕ) (result : Except Error Unit) (now : ℕ) :
    KeepsReason s (s.recordWrite key result now) := by
  have hc := recordWrite_cases s key result now
  generalize s.recordWrite key result now = r at hc ⊢
  cases hc with
  | kept => exact fun _ he => he
  | failed => exact of_opened rfl
  | written => exact of_opened rfl

end KeepsReason

/-- The reason after `close` is the first one. -/
theorem close_reason {s : SessionInner M} {error : Error} {now : ℕ} {e : Error}
    (h : (s.close error now).1.state = .closed e) : s.state = .closed e ∨ e = error := by
  have hc := close_cases s error now
  generalize s.close error now = r at hc h
  cases hc with
  | already hs => exact .inl h
  | closed hs =>
    cases h
    exact .inr rfl

/-- What `handle_message` returns for the reader to close the session with. -/
theorem handleMessage_error {codec : Codec M} {s s' : SessionInner M} {bytes : Bytes} {now : ℕ}
    {error : Error} (hs' : s.handleMessage codec bytes now = .ok (s', .error error)) :
    s.state = .closed error ∨ error ≠ .timeout := by
  generalize hr : (Except.error error : Except Error (Option ℕ)) = result at hs'
  cases handleMessage_cases hs' with
  | closed hs =>
    cases hr
    exact .inl hs
  | refused _ he =>
    cases hr
    rcases he with rfl | rfl <;> simp
  | @completed header o key operation w result hd hk hs hl ho hc =>
    cases completeResponse_cases hc with
    | late => cases hr
    | answered => cases hr
    | refused =>
      split_ifs at hr
      · cases hr
        simp
      · cases hr
  | unparsed =>
    cases hr
    simp
  | failedRequest =>
    cases hr
    simp
  | duplicate =>
    cases hr
    simp
  | _ => cases hr

/-- **Closing reasons, errors owed and refused encodings are no timeouts.** -/
structure Untimed (s : Sys M) : Prop where
  closed : ∀ e, s.session.state = .closed e → e ≠ .timeout
  owed : ∀ o ∈ s.owed, o.error ≠ .timeout
  reporting : ∀ key e, s.writer = .reporting key (.error e) → e ≠ .timeout

theorem Untimed.keep {s s' : Sys M} (h : Untimed s) (hk : KeepsReason s.session s'.session)
    (ho : s'.owed ⊆ s.owed)
    (hw : ∀ key e, s'.writer = .reporting key (.error e) → s.writer = .reporting key (.error e)) :
    Untimed s' where
  closed e he := h.closed e (hk e he)
  owed o hm := h.owed o (ho hm)
  reporting key e he := h.reporting key e (hw key e he)

/-- An error is owed. -/
theorem Untimed.owe {s s' : Sys M} (h : Untimed s) (hk : KeepsReason s.session s'.session)
    {o : OwedClose} (hne : o.error ≠ .timeout) (ho : s'.owed = s.owed ++ [o])
    (hw : s'.writer = s.writer) : Untimed s' where
  closed e he := h.closed e (hk e he)
  owed o' hm := by
    rw [ho] at hm
    rcases List.mem_append.mp hm with hm | hm
    · exact h.owed o' hm
    · rw [List.mem_singleton.mp hm]
      exact hne
  reporting key e he := h.reporting key e (hw ▸ he)

theorem Untimed.close {s s' : Sys M} (h : Untimed s) {error : Error} {now : ℕ}
    (hne : error ≠ .timeout) (hs : s'.session = (s.session.close error now).1)
    (ho : s'.owed ⊆ s.owed) (hw : ∀ key e, s'.writer = .reporting key (.error e) →
      s.writer = .reporting key (.error e)) : Untimed s' where
  closed e he := by
    rw [hs] at he
    rcases close_reason he with he | rfl
    · exact h.closed e he
    · exact hne
  owed o hm := h.owed o (ho hm)
  reporting key e he := h.reporting key e (hw key e he)

theorem untimed_step {codec : Codec M} {i : Option Bytes} {s s' : Sys M} (h : Untimed s)
    (hs : Step codec s i s') : Untimed s' := by
  have hsame : KeepsReason s.session s.session := fun _ he => he
  cases hs with
  | request hm => exact h.keep (.submit hm) (List.Subset.refl _) fun _ _ he => he
  | respond _ hm =>
    have hk : KeepsReason s.session _ := .submit hm
    exact h.keep hk (List.Subset.refl _) fun _ _ he => he
  | recv _ hm =>
    obtain ⟨o, rest, hs, -, rfl⟩ := takeIncoming_cases hm
    exact h.keep (.of_opened rfl) (List.Subset.refl _) fun _ _ he => he
  | @decode id message _ =>
    unfold Sys.decodeRequest
    dsimp only
    split
    · exact h.keep hsame (List.Subset.refl _) fun _ _ he => he
    · exact h.keep hsame (List.Subset.refl _) fun _ _ he => he
    · exact h.owe hsame (by simp) rfl rfl
  | autoreplyQueued _ hm =>
    have hk : KeepsReason s.session _ := .submit hm
    exact h.keep hk (List.Subset.refl _) fun _ _ he => he
  | messageRefused hm =>
    have hk : KeepsReason s.session _ := .handleMessage hm
    refine h.owe hk (o := ⟨_, none⟩) ?_ rfl rfl
    rcases handleMessage_error hm with hc | hne
    · exact h.closed _ hc
    · exact hne
  | messageRouted hm => exact h.keep (.handleMessage hm) (List.Subset.refl _) fun _ _ he => he
  | messageUnknown hm =>
    have hk : KeepsReason s.session _ := .handleMessage hm
    exact h.keep hk (List.Subset.refl _) fun _ _ he => he
  | close he =>
    refine h.close ?_ rfl (List.Subset.refl _) fun _ _ he => he
    rcases he with rfl | ⟨e, rfl⟩ <;> simp
  | @closeOwed j error now ho =>
    exact h.close (h.owed _ (List.mem_of_getElem? ho)) rfl (List.eraseIdx_sublist _ _).subset
      fun _ _ he => he
  | @closeReceive j error id now ho =>
    exact h.close (h.owed _ (List.mem_of_getElem? ho)) rfl (List.eraseIdx_sublist _ _).subset
      fun _ _ he => he
  | @setInboundLimits requests bytes now =>
    refine ⟨fun e he => ?_, h.owed, h.reporting⟩
    have hc := setInboundLimits_cases s.session requests bytes now
    simp only [Sys.finishClose] at he
    generalize s.session.setInboundLimits requests bytes now = r at hc he
    cases hc with
    | closed hs => exact h.closed e he
    | exceeded hs hlim =>
      rcases close_reason he with hc | rfl
      · cases hc
      · rcases hlim with rfl | rfl <;> simp
    | limited hs _ _ => cases he
  | @setAutoreplyTimeout timeout =>
    refine h.keep ?_ (List.Subset.refl _) fun _ _ he => he
    rcases setAutoreplyTimeout_cases s.session timeout with ⟨e, hs, he⟩ | ⟨o, hs, he⟩
    · simp only [Sys.withSession, he]
      exact hsame
    · simp only [Sys.withSession, he]
      exact .of_opened rfl
  | expire => exact h.keep (.expire _) (List.Subset.refl _) fun _ _ he => he
  | pickupClosed _ hn =>
    exact h.keep (.nextOutgoing hn) (List.Subset.refl _) fun _ _ he => by cases he
  | pickupNone _ hn => exact h.keep (.nextOutgoing hn) (List.Subset.refl _) fun _ _ he => he
  | pickup _ hn => exact h.keep (.nextOutgoing hn) (List.Subset.refl _) fun _ _ he => by cases he
  | refuse => exact h.keep hsame (List.Subset.refl _) fun _ _ he => by cases he
  | send => exact h.keep hsame (List.Subset.refl _) fun _ _ he => by cases he
  | sendFailed => exact h.keep hsame (List.Subset.refl _) fun _ _ he => by cases he
  | @withdraw id message error hw =>
    refine ⟨fun e he => ?_, h.owed, fun key e he => ?_⟩
    · dsimp only [Sys.withSession] at he
      split_ifs at he
      · exact h.closed e (KeepsReason.withdraw id e he)
      · exact h.closed e he
    · cases he
      cases error <;> simp [EncodeError.error]
  | report hw => exact h.keep (.recordWrite _ _ _) (List.Subset.refl _) fun _ _ he => by cases he
  | fail hw => exact h.close (by simp) rfl (List.Subset.refl _) fun _ _ he => by cases he
  | readMalformed => exact h.owe hsame (by simp) rfl rfl
  | _ => exact h.keep hsame (List.Subset.refl _) fun _ _ he => he

theorem untimed_reachable {codec : Codec M} {side : Side} {s : Sys M}
    (h : (machine codec side).Reachable s) : Untimed s := by
  refine reachable_invariant ⟨?_, ?_, ?_⟩ (fun _ _ _ hi hs => untimed_step hi hs) h
  · intro e he
    cases he
  · intro o ho
    cases ho
  · intro key e he
    cases he

/-! ### Steps of the system -/

/-- The deadline of the operation a step submits. -/
def submits (s : Sys M) : Action M → Option ℕ
  | .request _ deadline _ => some deadline
  | .respond _ _ deadline _ => some deadline
  | .autoreplyQueue i _ => s.autoreplies[i]?.bind (·.deadline)
  | _ => none

/-- **What a step does with operations, promises and the queue.** A promise gets a result only from
its pending operation, and this is `Timeout` exactly when the clock of the step is at or past the
deadline; the same holds for a submission, whose operation keeps the deadline it came with. A
message leaves the queue only if the writer takes it, if the session is closed, or if the clock of
the step is at or past its deadline; one the writer takes is before all that stay, and its deadline
is ahead. -/
structure Governed (s : Sys M) (a : Action M) (s' : Sys M) : Prop where
  settled : ∀ c < s.session.shared.nextChannel,
    (s'.session.shared.channels c).sent = (s.session.shared.channels c).sent ∨
      ∃ now key operation result, clock a = some now ∧
        s.session.operations.lookup key = some operation ∧ operation.sender.channel = c ∧
        (s'.session.shared.channels c).sent = (s.session.shared.channels c).sent ++ [result] ∧
        (result = .error .timeout ↔ operation.deadline ≤ now)
  submitted : ∀ deadline, submits s a = some deadline → s'.session = s.session ∨
    ∃ now, clock a = some now ∧
      ((s'.session.shared.channels s.session.shared.nextChannel).sent = [.error .timeout] ∧
          deadline ≤ now ∨
        (s'.session.shared.channels s.session.shared.nextChannel).sent = [] ∧ now < deadline ∧
          ∃ key operation, s'.session.operations.lookup key = some operation ∧
            operation.sender.channel = s.session.shared.nextChannel ∧
            operation.deadline = deadline)
  kept : ∀ key operation, s'.session.operations.lookup key = some operation →
    s.session.operations.lookup key = some operation ∨ submits s a = some operation.deadline
  left : ∀ m ∈ s.session.outgoing, m ∈ s'.session.outgoing ∨ (∃ id, s'.writer = .holding id m) ∨
    (∃ e, s'.session.state = .closed e) ∨
    ∃ now operation, clock a = some now ∧ s.session.operations.lookup m.key = some operation ∧
      operation.deadline ≤ now
  taken : ∀ id m, s.writer = .idle → s'.writer = .holding id m →
    m ∈ s.session.outgoing ∧ (∀ m' ∈ s'.session.outgoing, m.key < m'.key) ∧
    ∃ now operation, clock a = some now ∧ s.session.operations.lookup m.key = some operation ∧
      now < operation.deadline
  queue : ∀ m ∈ s'.session.outgoing, m ∈ s.session.outgoing ∨ m.key = s.session.nextKey
  fresh : s.session.nextKey ≤ s'.session.nextKey

namespace Governed

variable {s s' : Sys M} {a : Action M} {now : ℕ}

/-- A section with a reading of the clock, which takes no message. -/
theorem of_prompt (hp : Prompt now none s.session s'.session) (hc : clock a = some now)
    (hs : submits s a = none)
    (hw : ∀ id m, s.writer = .idle → s'.writer ≠ .holding id m) : Governed s a s' where
  settled c _ := by
    rcases hp.timely c with h | ⟨key, operation, result, hl, hch, hsent, hr⟩
    · exact .inl h
    · exact .inr ⟨now, key, operation, result, hc, hl, hch, hsent, hr⟩
  submitted deadline hd := by rw [hs] at hd; cases hd
  kept key operation hl := .inl (hp.kept key operation hl)
  left m hm := by
    rcases hp.left m hm with h | h | h | ⟨operation, hl, hd⟩
    · exact .inl h
    · cases h
    · exact .inr (.inr (.inl h))
    · exact .inr (.inr (.inr ⟨now, operation, hc, hl, hd⟩))
  taken id m hi ht := absurd ht (hw id m hi)
  queue m hm := .inl (hp.queue hm)
  fresh := le_of_eq hp.fresh.symm

/-- A step that settles nothing. -/
theorem still (ho : s'.session.operations = s.session.operations)
    (hq : s'.session.outgoing = s.session.outgoing) (hk : s'.session.nextKey = s.session.nextKey)
    (hsent : ∀ c, (s'.session.shared.channels c).sent = (s.session.shared.channels c).sent)
    (hs : submits s a = none)
    (hw : ∀ id m, s.writer = .idle → s'.writer ≠ .holding id m) : Governed s a s' where
  settled c _ := .inl (hsent c)
  submitted deadline hd := by rw [hs] at hd; cases hd
  kept key operation hl := .inl (ho ▸ hl)
  left m hm := .inl (hq ▸ hm)
  taken id m hi ht := absurd ht (hw id m hi)
  queue m hm := .inl (hq ▸ hm)
  fresh := le_of_eq hk.symm

/-- A refused submission. -/
theorem refused (hsession : s'.session = s.session)
    (hw : ∀ id m, s.writer = .idle → s'.writer ≠ .holding id m) : Governed s a s' where
  settled c _ := .inl (by rw [hsession])
  submitted deadline hd := .inl hsession
  kept key operation hl := .inl (by rw [← hsession]; exact hl)
  left m hm := .inl (by rw [hsession]; exact hm)
  taken id m hi ht := absurd ht (hw id m hi)
  queue m hm := .inl (by rw [← hsession]; exact hm)
  fresh := le_of_eq (by rw [hsession])

theorem pair_sent {w : Shared} {response : Bool} {c : ℕ} (hc : c < w.nextChannel) :
    ((w.pair response).2.channels c).sent = (w.channels c).sent := by
  simp only [Shared.pair]
  rw [Function.update_of_ne (Nat.ne_of_lt hc)]

theorem pair_fresh {w : Shared} {response : Bool} :
    ((w.pair response).2.channels w.nextChannel).sent = [] := by
  simp [Shared.pair]

/-- An accepted submission. -/
theorem submit {body : OutgoingBody M} {deadline : ℕ} {session : SessionInner M}
    (hm : s.session.submit body deadline now = .ok session) (hst : s'.session.state = session.state)
    (hsh : s'.session.shared = session.shared) (hk : s'.session.nextKey = session.nextKey)
    (hc : clock a = some now) (hs : submits s a = some deadline)
    (hw : ∀ id m, s.writer = .idle → s'.writer ≠ .holding id m) : Governed s a s' := by
  cases submit_cases hm with
  | @late o ho hd =>
    have hops : s'.session.operations = s.session.operations := by
      simp only [SessionInner.operations, hst, ho]
    have hout : s'.session.outgoing = s.session.outgoing := by
      simp only [SessionInner.outgoing, hst, ho]
    refine ⟨fun c hlt => .inl ?_, fun d hd' => .inr ⟨now, hc, .inl ?_⟩, fun key op hl => .inl ?_,
      fun m hm => .inl ?_, fun id m hi ht => absurd ht (hw id m hi), fun m hm => .inl ?_, ?_⟩
    · rw [hsh, PendingOperation.fail, send_channels_of_ne _ _ _ (Nat.ne_of_lt hlt), pair_sent hlt]
    · rw [hs, Option.some.injEq] at hd'
      subst hd'
      refine ⟨?_, hd⟩
      rw [hsh]
      have hsent := send_sent (s.session.shared.pair body.isRequest).1
        (s.session.shared.pair body.isRequest).2 (.error .timeout)
      rw [show (s.session.shared.pair body.isRequest).1.channel = s.session.shared.nextChannel
        from rfl, pair_fresh] at hsent
      simpa [PendingOperation.fail, hd] using hsent
    · rw [← hops]
      exact hl
    · rw [hout]
      exact hm
    · rw [← hout]
      exact hm
    · rw [hk]
  | @queued o ho hd =>
    refine ⟨fun c hlt => .inl ?_, fun d hd' => .inr ⟨now, hc, .inr ?_⟩, fun key op hl => ?_,
      fun m hm => .inl ?_, fun id m hi ht => absurd ht (hw id m hi), fun m hm => ?_, ?_⟩
    · rw [hsh]
      exact pair_sent hlt
    · rw [hs, Option.some.injEq] at hd'
      subst hd'
      refine ⟨by rw [hsh]; exact pair_fresh, hd, s.session.nextKey,
        ⟨deadline, (s.session.shared.pair body.isRequest).1⟩, ?_, rfl, rfl⟩
      simp only [SessionInner.operations, hst]
      exact AList.lookup_insert _
    · simp only [SessionInner.operations, hst, ho] at hl ⊢
      rw [lookup_insert_eq] at hl
      split_ifs at hl
      · cases hl
        exact .inr hs
      · exact .inl hl
    · simp only [SessionInner.outgoing, hst, ho] at hm ⊢
      exact List.mem_append_left _ hm
    · simp only [SessionInner.outgoing, hst, ho] at hm ⊢
      rcases List.mem_append.mp hm with hm | hm
      · exact .inl hm
      · rw [List.mem_singleton.mp hm]
        exact .inr rfl
    · rw [hk]
      exact Nat.le_succ _

end Governed

theorem governed_submit {codec : Codec M} {s s' : Sys M} {a : Action M}
    (hstep : s.submitStep codec a = .next s') : Governed s a s' := by
  have hidle : ∀ id m, s.writer = .idle → s.writer ≠ .holding id m := by
    intro id m hi
    rw [hi]
    exact fun h => by cases h
  cases a with
  | request message deadline now =>
    simp only [Sys.submitStep] at hstep
    split at hstep
    · cases hstep
      exact .refused rfl hidle
    · next session hm =>
      cases hstep
      exact .submit hm rfl rfl rfl rfl rfl hidle
  | respond id result deadline now =>
    simp only [Sys.submitStep] at hstep
    split at hstep
    · split at hstep
      · cases hstep
        exact .refused rfl hidle
      · next session hm =>
        cases hstep
        exact .submit hm rfl rfl rfl rfl rfl hidle
    · cases hstep
  | dropResponder id =>
    simp only [Sys.submitStep] at hstep
    split at hstep
    · cases hstep
      exact .still rfl rfl rfl (fun _ => rfl) rfl hidle
    · cases hstep
  | recv =>
    simp only [Sys.submitStep] at hstep
    split at hstep
    · cases hstep
    · split at hstep
      · cases hstep
      · next session taken hm =>
        cases hstep
        obtain ⟨o, rest, ho, -, rfl⟩ := takeIncoming_cases hm
        refine .still ?_ ?_ rfl (fun _ => rfl) rfl hidle
        · simp only [Sys.withSession, SessionInner.operations, ho]
        · simp only [Sys.withSession, SessionInner.outgoing, ho]
  | decode =>
    simp only [Sys.submitStep] at hstep
    split at hstep
    · cases hstep
    · cases hstep
      unfold Sys.decodeRequest
      dsimp only
      split
      · exact .still rfl rfl rfl (fun _ => rfl) rfl hidle
      · exact .still rfl rfl rfl (fun _ => rfl) rfl hidle
      · exact .still rfl rfl rfl (fun _ => rfl) rfl hidle
  | autoreplyTimeout i now =>
    simp only [Sys.submitStep] at hstep
    split at hstep
    · split at hstep
      · cases hstep
        exact .still rfl rfl rfl (fun _ => rfl) rfl hidle
      · cases hstep
        exact .still rfl rfl rfl (fun _ => rfl) rfl hidle
    · cases hstep
  | autoreplyQueue i now =>
    simp only [Sys.submitStep] at hstep
    split at hstep
    · next id error deadline ha =>
      cases hstep
      have hs : submits s (.autoreplyQueue i now) = some deadline := by
        simp [submits, ha]
      simp only [Sys.queueAutoreply]
      split
      · exact .refused rfl hidle
      · next session hm => exact .submit hm rfl rfl rfl rfl hs hidle
    · cases hstep
  | _ => simp [Sys.submitStep] at hstep

theorem governed_reader {codec : Codec M} {s s' : Sys M} {a : Action M} (hu : Untimed s)
    (h : Settles s.session) (hr : RoutesSys s) (hstep : s.readerStep codec a = .next s') :
    Governed s a s' := by
  have hidle : ∀ id m, s.writer = .idle → s.writer ≠ .holding id m := by
    intro id m hi
    rw [hi]
    exact fun h => by cases h
  cases a with
  | message bytes now =>
    simp only [Sys.readerStep] at hstep
    split at hstep
    · cases hstep
    · next session error hm =>
      cases hstep
      exact .of_prompt (.handleMessage hm) rfl rfl hidle
    · next session hm =>
      cases hstep
      exact .of_prompt (.handleMessage hm) rfl rfl hidle
    · next session id hm =>
      cases hstep
      exact .of_prompt (.handleMessage hm) rfl rfl hidle
  | lost error now =>
    cases hstep
    exact .of_prompt (.close h (by simp)) rfl rfl hidle
  | close now =>
    cases hstep
    exact .of_prompt (.close h (by simp)) rfl rfl hidle
  | closeOwed i now =>
    simp only [Sys.readerStep] at hstep
    split at hstep
    · cases hstep
    · next error responder ho =>
      have hne : error ≠ .timeout := hu.owed _ (List.mem_of_getElem? ho)
      split at hstep
      · cases hstep
        exact .of_prompt (.close h hne) rfl rfl hidle
      · cases hstep
        exact .of_prompt (.close h hne) rfl rfl hidle
  | discard =>
    simp only [Sys.readerStep] at hstep
    split at hstep
    · cases hstep
    · cases hstep
      exact .still rfl rfl rfl (fun _ => rfl) rfl hidle
  | setInboundLimits requests bytes now =>
    cases hstep
    exact .of_prompt (.setInboundLimits h _ _) rfl rfl hidle
  | setAutoreplyTimeout timeout =>
    cases hstep
    rcases setAutoreplyTimeout_cases s.session timeout with ⟨e, hs, he⟩ | ⟨o, hs, he⟩
    · simp only [Sys.withSession, he]
      exact .still rfl rfl rfl (fun _ => rfl) rfl hidle
    · simp only [Sys.withSession, he]
      refine .still ?_ ?_ rfl (fun _ => rfl) rfl hidle
      · simp only [SessionInner.operations, hs]
      · simp only [SessionInner.outgoing, hs]
  | expire now =>
    cases hstep
    exact .of_prompt (.expire h hr) rfl rfl hidle
  | _ => simp [Sys.readerStep] at hstep

theorem governed_writer {codec : Codec M} {s s' : Sys M} {a : Action M} (hu : Untimed s)
    (h : Settles s.session) (hr : RoutesSys s) (ht : Traces s.session)
    (hstep : s.writerStep codec a = .next s') : Governed s a s' := by
  cases a with
  | pickup now =>
    simp only [Sys.writerStep] at hstep
    split at hstep
    · next hw =>
      -- a pickup without a message only expires
      have hnone : ∀ {session : SessionInner M} {pickup : SessionInner.Pickup M},
          s.session.nextOutgoing now = .ok (session, pickup) → (∀ id m, pickup ≠ .taken id m) →
          Prompt now none s.session session := by
        intro session pickup hn hne
        rcases Prompt.nextOutgoing h hr hn with ⟨-, hp⟩ | ⟨id, m, rest, he, -⟩
        · exact hp
        · exact absurd he (hne id m)
      split at hstep
      · cases hstep
      · next session hn =>
        cases hstep
        exact .of_prompt (hnone hn (by simp)) rfl rfl fun _ _ _ h => by cases h
      · next session hn =>
        cases hstep
        refine .of_prompt (hnone hn (by simp)) rfl rfl fun _ _ _ h => ?_
        simp [Sys.withSession, hw] at h
      · next session hn =>
        cases hstep
        refine .of_prompt (hnone hn (by simp)) rfl rfl fun _ _ _ h => ?_
        simp [Sys.withSession, hw] at h
      · next session id m hn =>
        cases hstep
        have htr := ht.expire now
        rcases Prompt.nextOutgoing h hr hn with ⟨hne, -⟩ | ⟨id', m', rest, he, hp, hq, hrest, hop⟩
        · exact absurd rfl (hne id m)
        cases he
        refine ⟨?_, ?_, ?_, ?_, ?_, ?_, ?_⟩
        · intro c _
          rcases hp.timely c with h | ⟨key, operation, result, hl, hch, hsent, hres⟩
          · exact .inl h
          · exact .inr ⟨now, key, operation, result, rfl, hl, hch, hsent, hres⟩
        · intro deadline hd
          cases hd
        · exact fun key operation hl => .inl (hp.kept key operation hl)
        · intro m' hm'
          rcases hp.left m' hm' with h | h | h | ⟨operation, hl, hd⟩
          · exact .inl h
          · cases h
            exact .inr (.inl ⟨id, rfl⟩)
          · exact .inr (.inr (.inl h))
          · exact .inr (.inr (.inr ⟨now, operation, rfl, hl, hd⟩))
        · intro id' m' _ hw'
          cases hw'
          obtain ⟨operation, hl, hd⟩ := hop
          refine ⟨?_, fun m' hm' => ?_, now, operation, rfl, hl, hd⟩
          · have hexp : Prompt now none s.session (s.session.expire now) := .expire h hr
            refine hexp.queue (a := m) ?_
            rw [hq]
            simp
          · have hsorted := htr.outgoing_sorted
            rw [hq] at hsorted
            refine (List.pairwise_cons.mp hsorted).1 m' ?_
            rw [← hrest]
            exact hm'
        · exact fun m' hm' => .inl (hp.queue hm')
        · exact le_of_eq hp.fresh.symm
    · cases hstep
  | send result delivered =>
    simp only [Sys.writerStep] at hstep
    split at hstep
    · next id message hw =>
      have hbusy : ∀ (t : Sys M) (id : ℕ) (m : OutgoingMessage M), s.writer = .idle →
          t.writer ≠ .holding id m := by
        intro t id m hi
        rw [hw] at hi
        cases hi
      split at hstep
      · cases hstep
        exact .still rfl rfl rfl (fun _ => rfl) rfl (hbusy _)
      · split at hstep
        · cases hstep
          exact .still rfl rfl rfl (fun _ => rfl) rfl (hbusy _)
        · cases hstep
          exact .still rfl rfl rfl (fun _ => rfl) rfl (hbusy _)
    · cases hstep
  | withdraw =>
    simp only [Sys.writerStep] at hstep
    split at hstep
    · next id message error hw =>
      cases hstep
      cases message.body.isRequest with
      | false => exact .still rfl rfl rfl (fun _ => rfl) rfl fun _ _ _ h => by cases h
      | true =>
        rcases withdraw_cases s.session id with ⟨e, hs, he⟩ | ⟨o, hs, he⟩
        · simp only [if_true, Sys.withSession, he]
          exact .still rfl rfl rfl (fun _ => rfl) rfl fun _ _ _ h => by cases h
        · simp only [if_true, Sys.withSession, he]
          refine .still ?_ ?_ rfl (fun _ => rfl) rfl fun _ _ _ h => by cases h
          · simp only [SessionInner.operations, hs]
          · simp only [SessionInner.outgoing, hs]
    · cases hstep
  | report now =>
    simp only [Sys.writerStep] at hstep
    split at hstep
    · next key result hw =>
      cases hstep
      refine .of_prompt (.recordWrite key fun error he => ?_) rfl rfl fun _ _ _ h => by cases h
      subst he
      exact hu.reporting key error hw
    · cases hstep
  | fail now =>
    simp only [Sys.writerStep] at hstep
    split at hstep
    · cases hstep
      exact .of_prompt (.close h (by simp)) rfl rfl fun _ _ _ h => by cases h
    · cases hstep
  | _ => simp [Sys.writerStep] at hstep

theorem sent_modify {w : Shared} {c : ℕ} {f : Channel → Channel}
    (hf : (f (w.channels c)).sent = (w.channels c).sent) (c' : ℕ) :
    ((w.modify c f).channels c').sent = (w.channels c').sent := by
  by_cases hc : c' = c
  · subst hc
    rw [Shared.modify_channels_self, hf]
  · rw [Shared.modify_channels_of_ne _ _ hc]

/-- What the application does with a promise. -/
theorem Governed.promise {s : Sys M} {a : Action M} {c : ℕ} {f : Channel → Channel} {owed}
    (hf : ∀ ch, (f ch).sent = ch.sent) (hs : submits s a = none) {w : Shared}
    (hw : w.channels = (s.session.shared.modify c f).channels) :
    Governed s a { s.withShared w with owed := owed } := by
  refine .still rfl rfl rfl (fun c' => ?_) hs fun id m hi => ?_
  · show (w.channels c').sent = _
    rw [hw]
    exact sent_modify (hf _) c'
  · show s.writer ≠ _
    rw [hi]
    exact fun h => by cases h

theorem governed_promise {codec : Codec M} {s s' : Sys M} {a : Action M}
    (hstep : s.promiseStep codec a = .next s') : Governed s a s' := by
  cases a with
  | notify c callback =>
    simp only [Sys.promiseStep] at hstep
    split at hstep
    · split at hstep
      · cases hstep
      · split at hstep
        · cases hstep
          exact .promise (c := c) (f := fun ch => { ch with registered := true })
            (fun _ => rfl) rfl rfl
        · cases hstep
          exact .promise (c := c)
            (f := fun ch => { ch with registered := true, hook := some callback })
            (fun _ => rfl) rfl rfl
    · cases hstep
  | callback =>
    simp only [Sys.promiseStep] at hstep
    split at hstep
    · cases hstep
    · cases hstep
      refine .still rfl rfl rfl (fun _ => rfl) rfl fun id m hi => ?_
      show s.writer ≠ _
      rw [hi]
      exact fun h => by cases h
  | dropPromise c =>
    simp only [Sys.promiseStep] at hstep
    split at hstep
    · cases hstep
      exact .promise (c := c) (f := fun ch => { ch with holder := .dropping, hook := none })
        (fun _ => rfl) rfl rfl
    · cases hstep
  | dropReceiver c =>
    simp only [Sys.promiseStep] at hstep
    split at hstep
    · cases hstep
      refine .promise (c := c)
        (f := fun ch => { ch with holder := .gone, receiver := false, buffer := none })
        (fun _ => rfl) rfl ?_
      cases (s.session.shared.channels c).buffer with
      | none => rfl
      | some result => simp [Shared.modify]
    · cases hstep
  | wait c =>
    simp only [Sys.promiseStep] at hstep
    split at hstep
    · split at hstep
      · next result _ =>
        cases hstep
        exact .promise (c := c)
          (f := fun ch => { ch with
            holder := .taken result, receiver := false, buffer := none, hook := none })
          (fun _ => rfl) rfl rfl
      · split at hstep
        · cases hstep
        · split at hstep <;> cases hstep
    · cases hstep
  | read c =>
    have hgone : ∀ (w : Shared) (owed : List OwedClose),
        w.channels = (s.session.shared.modify c fun ch => { ch with holder := .gone }).channels →
        Governed s (.read c) { s.withShared w with owed := owed } :=
      fun w owed hw => .promise (f := fun ch => { ch with holder := .gone }) (fun _ => rfl) rfl hw
    simp only [Sys.promiseStep] at hstep
    split at hstep
    · split at hstep
      · unfold Sys.readResult at hstep
        dsimp only at hstep
        split at hstep
        · cases hstep
          exact hgone _ _ rfl
        · split at hstep
          · split at hstep
            · cases hstep
              exact hgone _ _ rfl
            · cases hstep
              exact hgone _ _ rfl
          · cases hstep
        · split at hstep
          · cases hstep
          · cases hstep
            exact hgone _ _ rfl
      · cases hstep
    · cases hstep
  | _ => simp [Sys.promiseStep] at hstep

/-- What the deadline rule rests on. -/
structure Ruled (s : Sys M) : Prop where
  untimed : Untimed s
  settles : Settles s.session
  routes : RoutesSys s
  traces : Traces s.session

theorem ruled_step {codec : Codec M} {s s' : Sys M} {a : Action M} (h : Ruled s)
    (hstep : s.step codec a = .next s') : Ruled s' where
  untimed := untimed_step h.untimed (step_cases hstep)
  settles := settles_step h.routes h.settles (step_cases hstep)
  routes := routesSys_step h.routes (step_cases hstep)
  traces := (traces_step h.traces (step_cases hstep)).1

theorem ruled_reachable {codec : Codec M} {side : Side} {s : Sys M}
    (h : (machine codec side).Reachable s) : Ruled s := by
  refine h.invariant (I := Ruled) ?_ fun s a s' _ hi hstep => ruled_step hi hstep
  have hinit : (machine codec side).Reachable (machine codec side).init := .init
  exact ⟨untimed_reachable hinit, (settles_reachable hinit).2, Routed.new, Traced.new⟩

theorem governed_step {codec : Codec M} {s s' : Sys M} {a : Action M} (h : Ruled s)
    (hstep : s.step codec a = .next s') : Governed s a s' := by
  unfold Sys.step at hstep
  split at hstep
  iterate 7 exact governed_submit hstep
  iterate 8 exact governed_reader h.untimed h.settles h.routes hstep
  iterate 5 exact governed_writer h.untimed h.settles h.routes h.traces hstep
  all_goals exact governed_promise hstep

/-- The keys the writer can still take are above this one. -/
def Beyond (key : ℕ) (s : Sys M) : Prop :=
  key < s.session.nextKey ∧ ∀ m ∈ s.session.outgoing, key < m.key

theorem beyond_step {s s' : Sys M} {a : Action M} {key : ℕ} (h : Beyond key s)
    (hg : Governed s a s') : Beyond key s' := by
  refine ⟨lt_of_lt_of_le h.1 hg.fresh, fun m hm => ?_⟩
  rcases hg.queue m hm with hm | hm
  · exact h.2 m hm
  · rw [hm]
    exact h.1

/-- **One deadline rule on every path, and output in the order of submission**, for any readings of
the clock. Every step is as `Governed` says. Submitted messages are numbered in order, the queue
holds submitted messages, and of two messages the writer takes the one submitted first. -/
theorem deadlines {codec : Codec M} {side : Side} {s : Sys M}
    (h : (machine codec side).Reachable s) :
    (∀ a s', (machine codec side).step s a = .next s' → Governed s a s') ∧
    (queuedList s.session.log).Pairwise (fun a b => a.key < b.key) ∧
    (∀ m ∈ s.session.outgoing, ∃ c, ⟨m.key, c, m.body⟩ ∈ queuedList s.session.log) ∧
    ∀ a s' id m, (machine codec side).step s a = .next s' → s.writer = .idle →
      s'.writer = .holding id m →
      ∀ t a' t' id' m', { machine codec side with init := s' }.Reachable t →
        (machine codec side).step t a' = .next t' → t.writer = .idle → t'.writer = .holding id' m' →
        m.key < m'.key := by
  have hr := ruled_reachable h
  refine ⟨fun a s' hstep => governed_step hr hstep,
    hr.traces.queued_sorted.imp fun hab => hab.1, hr.traces.outgoing_queued, ?_⟩
  intro a s' id m hstep hi hw t a' t' id' m' hreach hstep' hi' hw'
  have hg := governed_step hr hstep
  obtain ⟨hm, hlater, -⟩ := hg.taken id m hi hw
  have hkey : m.key < s'.session.nextKey :=
    lt_of_lt_of_le (hr.routes.queued_lt m hm) hg.fresh
  have hr' : Ruled s' := ruled_step hr hstep
  have hbeyond : Ruled t ∧ Beyond m.key t := by
    refine hreach.invariant (I := fun t => Ruled t ∧ Beyond m.key t)
      ⟨hr', hkey, hlater⟩ ?_
    rintro t a t' - ⟨ht, hb⟩ hstep
    exact ⟨ruled_step ht hstep, beyond_step hb (governed_step ht hstep)⟩
  obtain ⟨hm', -⟩ := (governed_step hbeyond.1 hstep').taken id' m' hi' hw'
  exact hbeyond.2.2 m' hm'

/-- Two requests, the second with the earlier deadline. -/
def twoDeadlines : List (Action UInt8) := [.request 7 10 0, .request 9 5 0, .pickup 1]

theorem deadlines_twoDeadlines :
    ∃ s s', (machine tinyCodec .client).run twoDeadlines (.new .client) = some s ∧
      s.step tinyCodec (.expire 6) = .next s' ∧ Governed s (.expire 6) s' ∧
      (s'.session.shared.channels 0).sent = [] ∧
      (s'.session.shared.channels 1).sent = [.error .timeout] ∧ s'.session.outgoing = [] := by
  obtain ⟨s, s', hr, hstep, h0, h1, hq⟩ : ∃ s s',
      (machine tinyCodec .client).run twoDeadlines (.new .client) = some s ∧
      (machine tinyCodec .client).step s (.expire 6) = .next s' ∧
      (s'.session.shared.channels 0).sent = [] ∧
      (s'.session.shared.channels 1).sent = [.error .timeout] ∧ s'.session.outgoing = [] :=
    ⟨_, _, rfl, rfl, rfl, rfl, rfl⟩
  have hg := (deadlines (Machine.reachable_of_run hr)).1 _ _ hstep
  exact ⟨s, s', hr, hstep, hg, h0, h1, hq⟩

end ArkWire.Protocol.Deadlines
