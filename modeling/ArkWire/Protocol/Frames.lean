import ArkWire.Protocol.Tracing

/-! # What a session takes from its peer

Everything a session has from its peer comes in through `handle_message`: queued requests, reserved
IDs and responses. `Frame` says what every other critical section leaves alone: it may drop some of
these and adds none, and it closes the session with no `Malformed` of its own. -/

namespace ArkWire.Protocol.Frames

open ArkWire.Lib.Machines
open ArkWire.Transport.Errors ArkWire.Protocol.Errors ArkWire.Protocol.Envelope
open ArkWire.Protocol.Promise ArkWire.Protocol.Operation ArkWire.Protocol.Session
open ArkWire.Protocol.System ArkWire.Protocol.Sections ArkWire.Protocol.Steps
open ArkWire.Protocol.Tracing

variable {M : Type}

/-- A request returned by `recv`. -/
def receivedOf : Event M → Option (ℕ × M)
  | .received id message => some (id, message)
  | _ => none

/-- An answer given by the responder of a request, or automatically for it. -/
structure Replied (M : Type) where
  id : ℕ
  result : Except SchemaError M
  automatic : Bool

def repliedOf : Event M → Option (Replied M)
  | .replied id result automatic => some ⟨id, result, automatic⟩
  | _ => none

/-- The requests returned by `recv`, in order. -/
def receivedList (log : List (Event M)) : List (ℕ × M) := log.filterMap receivedOf

/-- The answers, in order. -/
def repliedList (log : List (Event M)) : List (Replied M) := log.filterMap repliedOf

@[simp] theorem receivedList_append (log log' : List (Event M)) :
    receivedList (log ++ log') = receivedList log ++ receivedList log' := List.filterMap_append

@[simp] theorem repliedList_append (log log' : List (Event M)) :
    repliedList (log ++ log') = repliedList log ++ repliedList log' := List.filterMap_append

@[simp] theorem receivedList_expired (ids : List ℕ) :
    receivedList (ids.map (Event.expired (M := M))) = [] := by
  simp [receivedList, receivedOf, List.filterMap_map, Function.comp_def]

@[simp] theorem repliedList_expired (ids : List ℕ) :
    repliedList (ids.map (Event.expired (M := M))) = [] := by
  simp [repliedList, repliedOf, List.filterMap_map, Function.comp_def]

/-- A response was sent to the promise. -/
def Responded (w : Shared) (c : ℕ) (envelope : IncomingEnvelope) : Prop :=
  .ok (.response envelope) ∈ (w.channels c).sent

/-- **A section that takes nothing from the peer**, `fresh` being the message it queues. -/
structure Frame (fresh : Option (OutgoingBody M)) (s s' : SessionInner M) : Prop where
  incoming : s'.incoming.Sublist s.incoming
  reserved : ∀ o', s'.state = .opened o' →
    ∃ o, s.state = .opened o ∧ o'.reservedIds ⊆ o.reservedIds
  responded : ∀ c envelope, Responded s'.shared c envelope → Responded s.shared c envelope
  closed : ∀ e, s'.state = .closed e → s.state = .closed e ∨ e ≠ .malformed
  received : receivedList s'.log = receivedList s.log
  replied : repliedList s'.log = repliedList s.log
  queued : ∀ q ∈ queuedList s'.log, q ∈ queuedList s.log ∨ fresh = some q.body

/-! ### Promises -/

/-- Only a result that is a response responds. -/
theorem responded_send {sender : ResultSender} {w : Shared} {result : Except Error PromiseResult}
    {c : ℕ} {envelope : IncomingEnvelope} (h : Responded (sender.send w result).1 c envelope) :
    Responded w c envelope ∨ c = sender.channel ∧ result = .ok (.response envelope) := by
  unfold Responded at h
  by_cases hc : c = sender.channel
  · subst hc
    rw [send_sent] at h
    rcases List.mem_append.mp h with h | h
    · exact .inl h
    · exact .inr ⟨rfl, (List.mem_singleton.mp h).symm⟩
  · rw [send_channels_of_ne _ _ _ hc] at h
    exact .inl h

theorem responded_fail {operation : PendingOperation} {error : Error} {now : ℕ} {w : Shared} {c : ℕ}
    {envelope : IncomingEnvelope} (h : Responded (operation.fail error now w) c envelope) :
    Responded w c envelope := by
  rcases responded_send h with h | ⟨-, h⟩
  · exact h
  · cases h

theorem responded_failAll {error : Error} {now : ℕ} {keys : List ℕ} {operations : Operations}
    {w : Shared} {c : ℕ} {envelope : IncomingEnvelope}
    (h : Responded (failAll error now keys (operations, w)).2 c envelope) :
    Responded w c envelope := by
  refine failAll_rule (P := fun _ w' => Responded w' c envelope → Responded w c envelope) ?_ keys
    operations w id h
  exact fun _ _ _ _ _ hp hr => hp (responded_fail hr)

/-- A new promise has no result. -/
theorem responded_pair {w : Shared} {response : Bool} {c : ℕ} {envelope : IncomingEnvelope}
    (h : Responded (w.pair response).2 c envelope) : Responded w c envelope := by
  unfold Responded Shared.pair at h
  dsimp only at h
  rw [Function.update_apply] at h
  split_ifs at h
  · cases h
  · exact h

/-- What the application does with a promise sends nothing. -/
theorem responded_modify {w : Shared} {c c' : ℕ} {f : Channel → Channel}
    {envelope : IncomingEnvelope} (hf : (f (w.channels c)).sent = (w.channels c).sent)
    (h : Responded (w.modify c f) c' envelope) : Responded w c' envelope := by
  unfold Responded at h
  by_cases hc : c' = c
  · subst hc
    rwa [Shared.modify_channels_self, hf] at h
  · rwa [Shared.modify_channels_of_ne _ _ hc] at h

/-- What `complete_response` sends. -/
theorem responded_completeResponse {operation : PendingOperation} {now : ℕ} {w w' : Shared}
    {bytes : Bytes} {header : Header} {limit : ℕ} {result : Except Error Unit}
    (h : operation.completeResponse now w bytes header limit = .ok (w', result)) {c : ℕ}
    {envelope : IncomingEnvelope} (hr : Responded w' c envelope) :
    Responded w c envelope ∨
      c = operation.sender.channel ∧ envelope = ⟨bytes, header, bytes.length⟩ := by
  cases completeResponse_cases h with
  | late _ => exact .inl (responded_fail hr)
  | answered _ _ _ _ =>
    rcases responded_send hr with hr | ⟨hc, he⟩
    · exact .inl hr
    · cases he
      exact .inr ⟨hc, rfl⟩
  | refused _ _ =>
    rcases responded_send hr with hr | ⟨-, he⟩
    · exact .inl hr
    · cases he

/-! ### The critical sections -/

namespace Frame

variable {s s' : SessionInner M} {fresh : Option (OutgoingBody M)}

theorem refl (s : SessionInner M) : Frame fresh s s where
  incoming := List.Sublist.refl _
  reserved o ho := ⟨o, ho, subset_rfl⟩
  responded _ _ h := h
  closed _ h := .inl h
  received := rfl
  replied := rfl
  queued _ h := .inl h

/-- Only promises change. -/
theorem of_shared (w : Shared)
    (h : ∀ c envelope, Responded w c envelope → Responded s.shared c envelope) :
    Frame fresh s { s with shared := w } := { refl s with responded := h }

/-- An open session changes. -/
theorem of_opened {o o' : OpenState M} (ho : s.state = .opened o) (ho' : s'.state = .opened o')
    (hi : o'.incoming.Sublist o.incoming) (hr : o'.reservedIds ⊆ o.reservedIds)
    (hp : ∀ c envelope, Responded s'.shared c envelope → Responded s.shared c envelope)
    (h1 : receivedList s'.log = receivedList s.log) (h2 : repliedList s'.log = repliedList s.log)
    (hq : ∀ q ∈ queuedList s'.log, q ∈ queuedList s.log ∨ fresh = some q.body) :
    Frame fresh s s' where
  incoming := by simpa only [SessionInner.incoming, ho, ho'] using hi
  reserved o'' h'' := by
    rw [ho'] at h''
    cases h''
    exact ⟨o, ho, hr⟩
  responded := hp
  closed e he := by rw [ho'] at he; cases he
  received := h1
  replied := h2
  queued := hq

theorem close {error : Error} (he : error ≠ .malformed) (now : ℕ) :
    Frame fresh s (s.close error now).1 := by
  have hc := close_cases s error now
  generalize s.close error now = r at hc ⊢
  cases hc with
  | already _ => exact refl s
  | closed ho =>
    exact {
      incoming := List.nil_sublist _
      reserved := fun _ h => by cases h
      responded := fun _ _ h => responded_failAll h
      closed := fun e h => by cases h; exact .inr he
      received := rfl
      replied := rfl
      queued := fun _ h => .inl h }

theorem expire (now : ℕ) : Frame fresh s (s.expire now) := by
  have hc := expire_cases s now
  generalize s.expire now = r at hc ⊢
  cases hc with
  | closed _ => exact refl s
  | expired ho =>
    refine of_opened ho rfl (List.Sublist.refl _) (foldl_erase_subset _ _)
      (fun _ _ h => responded_failAll h) ?_ ?_ ?_
    · simp [expireTo]
    · simp [expireTo]
    · intro q hq
      simp only [expireTo, queuedList_append, queuedList_expired, List.append_nil] at hq
      exact .inl hq

theorem trans {s'' : SessionInner M} (h : Frame none s s') (h' : Frame fresh s' s'') :
    Frame fresh s s'' where
  incoming := h'.incoming.trans h.incoming
  reserved o'' ho'' := by
    obtain ⟨o', ho', hr'⟩ := h'.reserved o'' ho''
    obtain ⟨o, ho, hr⟩ := h.reserved o' ho'
    exact ⟨o, ho, hr'.trans hr⟩
  responded c e hr := h.responded c e (h'.responded c e hr)
  closed e he := by
    rcases h'.closed e he with he | he
    · exact h.closed e he
    · exact .inr he
  received := h'.received.trans h.received
  replied := h'.replied.trans h.replied
  queued q hq := by
    rcases h'.queued q hq with hq | hq
    · rcases h.queued q hq with hq | hq
      · exact .inl hq
      · cases hq
    · exact .inr hq

theorem setInboundLimits (requests bytes now : ℕ) :
    Frame fresh s (s.setInboundLimits requests bytes now).1 := by
  have hc := setInboundLimits_cases s requests bytes now
  generalize s.setInboundLimits requests bytes now = r at hc ⊢
  cases hc with
  | closed _ => exact refl s
  | @exceeded o error ho he =>
    have hm : error ≠ .malformed := by rcases he with rfl | rfl <;> simp
    have hset : Frame none s { s with state := .opened { o with
        maxInboundRequests := requests, maxInboundBytes := bytes } } :=
      of_opened ho rfl (List.Sublist.refl _) subset_rfl (fun _ _ h => h) rfl rfl
        (fun _ h => .inl h)
    exact hset.trans (close hm now)
  | limited ho _ _ =>
    exact of_opened ho rfl (List.Sublist.refl _) subset_rfl (fun _ _ h => h) rfl rfl
      (fun _ h => .inl h)

theorem setAutoreplyTimeout (timeout : ℕ) : Frame fresh s (s.setAutoreplyTimeout timeout) := by
  rcases setAutoreplyTimeout_cases s timeout with ⟨e, _, he⟩ | ⟨o, ho, he⟩
  · rw [he]; exact refl s
  · rw [he]
    exact of_opened ho rfl (List.Sublist.refl _) subset_rfl (fun _ _ h => h) rfl rfl
      (fun _ h => .inl h)

theorem submit {body : OutgoingBody M} {deadline now : ℕ}
    (hs' : s.submit body deadline now = .ok s') : Frame (some body) s s' := by
  cases submit_cases hs' with
  | late ho _ =>
    refine of_opened ho rfl (List.Sublist.refl _) (foldl_erase_subset _ _)
      (fun _ _ h => responded_pair (responded_fail h)) (by simp) (by simp) ?_
    intro q hq
    simp only [queuedList_append, queuedList_expired, List.append_nil] at hq
    exact .inl hq
  | queued ho _ =>
    refine of_opened ho rfl (List.Sublist.refl _) subset_rfl (fun _ _ h => responded_pair h) ?_
      ?_ ?_
    · simp [receivedList, receivedOf]
    · simp [repliedList, repliedOf]
    · intro q hq
      rw [queuedList_append] at hq
      rcases List.mem_append.mp hq with hq | hq
      · exact .inl hq
      · simp only [queuedList, queuedOf, List.filterMap_cons, List.filterMap_nil,
          List.mem_singleton] at hq
        rw [hq]
        exact .inr rfl

theorem takeIncoming {taken : ℕ × IncomingEnvelope} (hs' : s.takeIncoming = some (s', taken)) :
    Frame fresh s s' := by
  obtain ⟨o, rest, ho, hi, rfl⟩ := takeIncoming_cases hs'
  refine of_opened ho rfl ?_ subset_rfl (fun _ _ h => h) rfl rfl (fun _ h => .inl h)
  rw [hi]
  exact List.sublist_cons_self _ _

theorem nextOutgoing {now : ℕ} {pickup : SessionInner.Pickup M}
    (hs' : s.nextOutgoing now = .ok (s', pickup)) : Frame fresh s s' := by
  have he : ∀ {f : Option (OutgoingBody M)}, Frame f s (s.expire now) := expire now
  cases nextOutgoing_cases hs' with
  | request ho _ _ _ =>
    refine he.trans (of_opened ho rfl (List.Sublist.refl _) subset_rfl (fun _ _ h => h) ?_ ?_ ?_)
    · simp [receivedList, receivedOf]
    · simp [repliedList, repliedOf]
    · intro q hq; exact .inl (by simpa [queuedList, queuedOf] using hq)
  | reply ho _ _ =>
    refine he.trans (of_opened ho rfl (List.Sublist.refl _) (Finset.erase_subset _ _)
      (fun _ _ h => h) ?_ ?_ ?_)
    · simp [receivedList, receivedOf]
    · simp [repliedList, repliedOf]
    · intro q hq; exact .inl (by simpa [queuedList, queuedOf] using hq)
  | _ => exact he

theorem withdraw (id : ℕ) : Frame fresh s (s.withdraw id) := by
  rcases withdraw_cases s id with ⟨e, _, he⟩ | ⟨o, ho, he⟩
  · rw [he]; exact refl s
  · rw [he]
    exact of_opened ho rfl (List.Sublist.refl _) subset_rfl (fun _ _ h => h) rfl rfl
      (fun _ h => .inl h)

theorem recordWrite (key : ℕ) (result : Except Error Unit) (now : ℕ) :
    Frame fresh s (s.recordWrite key result now) := by
  have hc := recordWrite_cases s key result now
  generalize s.recordWrite key result now = r at hc ⊢
  cases hc with
  | kept => exact refl s
  | failed ho _ =>
    exact of_opened ho rfl (List.Sublist.refl _) subset_rfl (fun _ _ h => responded_fail h) rfl rfl
      (fun _ h => .inl h)
  | written ho _ _ _ =>
    refine of_opened ho rfl (List.Sublist.refl _) subset_rfl (fun _ _ h => ?_) rfl rfl
      (fun _ h => .inl h)
    rcases responded_send h with h | ⟨-, h⟩
    · exact h
    · cases h

end Frame

end ArkWire.Protocol.Frames
