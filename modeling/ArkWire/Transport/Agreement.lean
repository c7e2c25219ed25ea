import ArkWire.Transport.Handshake

/-! # Agreement on the handshake

Signatures carry the argument. `bound` says what the attacker can have at most: no key of a client
or a server, and no signature of theirs in the wire's domain but those of the records. An accepted
`ArkHello` was signed by the identity over the hello of the attempt, so the record of an exchange
has it; an accepted `HostAck` was signed by the signer of the hello over the identity and the fresh
key of the exchange, so the record of an attempt has it, and the key leads back to the exchange. -/

namespace ArkWire.Transport.Agreement

open ArkWire.Lib.Symbolic (Derives Bound)
open ArkWire.Lib.Symbolic.Term
open ArkWire.Transport.Handshake

/-! ### What the checks say -/

theorem ArkHello.encode_of_decode {t : Term} {m : ArkHello} (h : ArkHello.decode t = some m) :
    t = m.encode := by
  unfold ArkHello.decode at h
  split at h
  · cases h
    rfl
  · cases h

theorem HostAck.encode_of_decode {t : Term} {m : HostAck} (h : HostAck.decode t = some m) :
    t = m.encode := by
  unfold HostAck.decode at h
  split at h
  · cases h
    rfl
  · cases h

theorem ArkHello.encode_inj {m m' : ArkHello} (h : m.encode = m'.encode) : m = m' := by
  obtain ⟨attest, crypto, e⟩ := m
  obtain ⟨attest', crypto', e'⟩ := m'
  simp only [ArkHello.encode, array, pair.injEq, and_true] at h
  obtain ⟨rfl, rfl, rfl⟩ := h
  rfl

theorem HostAck.encode_inj {m m' : HostAck} (h : m.encode = m'.encode) : m = m' := by
  obtain ⟨e⟩ := m
  obtain ⟨e'⟩ := m'
  simp only [HostAck.encode, array, pair.injEq, and_true] at h
  rw [h]

/-- A packet is decrypted only by the key it was sealed to, with its authenticated data. -/
theorem decrypt_eq_some {packet aad sk body : Term} {domain : Domain}
    (h : decrypt packet aad sk domain = some body) :
    ∃ e, packet = pair (fingerprint (encryptKey sk))
      (pair e (aead (newReceiver sk e domain) 0 aad body)) := by
  unfold decrypt at h
  split at h
  · next key e sender aad' body' =>
    split_ifs at h with hcheck
    obtain ⟨hkey, hsender, haad⟩ := hcheck
    cases h
    exact ⟨e, by rw [hkey, hsender, haad]⟩
  · cases h

theorem verifyAt_eq_some {sign1 aad key payload : Term} {domain : Domain}
    (h : verifyAt sign1 aad key domain = some payload) :
    ∃ sk time, sign1 = sign sk domain aad payload time ∧ key = verifyKey sk := by
  unfold verifyAt at h
  split at h
  · next sk domain' aad' payload' time =>
    split_ifs at h with hcheck
    obtain ⟨hkey, hdomain, haad⟩ := hcheck
    cases h
    exact ⟨sk, time, by rw [hdomain, haad], hkey⟩
  · cases h

/-- The authenticated data of an attempt and of an exchange. -/
def arkAuth (i : ℕ) : Term := array [(hostHello i).signer, (hostHello i).crypto]

def hostAuth (n j : ℕ) : Term := array [identityKey n, arkCrypto j]

/-- What an attempt has checked. -/
structure Checked (i : ℕ) (acc : Accepted) (sk : Term) (time : ℤ) : Prop where
  packet : decrypt acc.packet (arkAuth i) (name (.hostCrypto i)) .wire = some acc.sign1
  sign1 : acc.sign1 = sign sk .wire (arkAuth i) acc.hello.encode time
  identity : acc.identity = verifyKey sk

theorem accept_eq_some {i : ℕ} {verifier : Verifier} {now : ℤ} {packet : Term} {acc : Accepted}
    (h : accept i verifier now packet = some acc) :
    acc.packet = packet ∧ ∃ sk time, Checked i acc sk time := by
  unfold accept at h
  simp only [Option.bind_eq_bind, Option.bind_eq_some_iff, Option.some.injEq] at h
  obtain ⟨sign1, hdecrypt, unverified, -, identity, -, hello, ⟨payload, hverify, hhello⟩, rfl⟩ := h
  obtain ⟨sk, time, hsign, hkey⟩ := verifyAt_eq_some hverify
  refine ⟨rfl, sk, time, hdecrypt, ?_, hkey⟩
  rw [ArkHello.encode_of_decode hhello] at hsign
  exact hsign

/-- What an exchange has checked. -/
structure Opened (j : ℕ) (x : Exchange) (acked : Acked) (sk : Term) (time : ℤ) : Prop where
  packet : decrypt acked.packet (hostAuth x.identity j) (name (.arkCrypto j)) .wire =
    some acked.sign1
  sign1 : acked.sign1 = sign sk .wire (hostAuth x.identity j) acked.ack.encode time
  signer : x.hello.signer = verifyKey sk

theorem acknowledge_eq_some {j : ℕ} {x : Exchange} {packet : Term} {acked : Acked}
    (h : x.acknowledge j packet = some acked) :
    acked.packet = packet ∧ ∃ sk time, Opened j x acked sk time := by
  unfold Exchange.acknowledge openAt at h
  simp only [Option.bind_eq_bind, Option.bind_eq_some_iff, Option.some.injEq] at h
  obtain ⟨⟨sign1, payload⟩, ⟨sign1', hdecrypt, payload', hverify, hpair⟩, ack, hack, rfl⟩ := h
  cases hpair
  obtain ⟨sk, time, hsign, hkey⟩ := verifyAt_eq_some hverify
  refine ⟨rfl, sk, time, hdecrypt, ?_, hkey⟩
  have hpayload : payload = ack.encode := HostAck.encode_of_decode hack
  rw [hpayload] at hsign
  exact hsign

/-! ### The bound -/

/-- What clients and servers have signed. -/
inductive Signed (s : State) : Term → Domain → Term → Term → Prop
  | ack {i : ℕ} {a : Attempt} {acc : Accepted} : s.attempts[i]? = some a → a.accepted = some acc →
    Signed s (name (.hostSigner i)) .wire acc.auth.encode (acc.ack i).encode
  | hello {j : ℕ} {x : Exchange} : s.exchanges[j]? = some x →
    Signed s (name (.identity x.identity)) .wire x.helloAuth.encode (x.arkHello j).encode
  | elsewhere {n : ℕ} {domain : Domain} {aad payload : Term} : domain ≠ .wire →
    Signed s (name (.identity n)) domain aad payload

/-- Sessions whose messages are secret: a client's with an Ark, and a server's whose hello named the
signer of a client. -/
inductive Protected (s : State) : Source → Prop
  | attempt {i n : ℕ} {a : Attempt} {acc : Accepted} : s.attempts[i]? = some a →
    a.accepted = some acc → acc.identity = identityKey n → Protected s (.attempt i)
  | exchange {j i : ℕ} {x : Exchange} : s.exchanges[j]? = some x →
    x.hello.signer = (hostHello i).signer → Protected s (.exchange j)

def bound (s : State) : Bound Name Domain where
  known
    | .attacker _ => True
    | .message k => ∃ m, s.sent[k]? = some m ∧ ¬ Protected s m.source
    | _ => False
  kept
    | .attacker _ => False
    | .message _ => False
    | _ => True
  hides domain := domain ≠ .wire
  signed := Signed s
  kept_known n hn hk := by cases n <;> trivial

/-- What no step takes back. -/
structure Later (s s' : State) : Prop where
  attempts : ∀ (i : ℕ) (a : Attempt) (acc : Accepted), s.attempts[i]? = some a →
    a.accepted = some acc → ∃ a', s'.attempts[i]? = some a' ∧ a'.accepted = some acc ∧
      (a.isEstablished = true → a'.isEstablished = true)
  exchanges : ∀ (j : ℕ) (x : Exchange), s.exchanges[j]? = some x → ∃ acked,
    s'.exchanges[j]? = some { x with acked } ∧ (x.acked.isSome = true → acked = x.acked)
  sent : ∀ (k : ℕ) (m : Sent), s.sent[k]? = some m → s'.sent[k]? = some m

/-- A session that seals is there. -/
def Sending (s : State) (source : Source) : Prop := (s.sessionSender source).isSome = true

theorem sending_attempt {s : State} {i : ℕ} (h : Sending s (.attempt i)) :
    ∃ acc time, s.attempts[i]? = some (.established acc time) := by
  simp only [Sending, State.sessionSender] at h
  split at h
  · next acc time ha => exact ⟨acc, time, ha⟩
  · cases h

theorem sending_exchange {s : State} {j : ℕ} (h : Sending s (.exchange j)) :
    ∃ x acked, s.exchanges[j]? = some x ∧ x.acked = some acked := by
  simp only [Sending, State.sessionSender] at h
  split at h
  · next x hx =>
    split_ifs at h with hacked
    · obtain ⟨acked, hacked⟩ := Option.isSome_iff_exists.mp hacked
      exact ⟨x, acked, hx, hacked⟩
    · cases h
  · cases h

theorem established_cases {a : Attempt} {acc : Accepted} (h : a.accepted = some acc)
    (he : a.isEstablished = true) : ∃ time, a = .established acc time := by
  cases a with
  | hello _ => cases h
  | acked _ _ => cases he
  | established acc' time =>
    cases h
    exact ⟨time, rfl⟩

theorem Later.sending {s s' : State} (hl : Later s s') {source : Source} (h : Sending s source) :
    Sending s' source := by
  cases source with
  | attempt i =>
    obtain ⟨acc, time, ha⟩ := sending_attempt h
    obtain ⟨a', ha', hacc, hest⟩ := hl.attempts i _ acc ha rfl
    obtain ⟨time', rfl⟩ := established_cases hacc (hest rfl)
    simp only [Sending, State.sessionSender, ha', Option.isSome_some]
  | exchange j =>
    obtain ⟨x, acked, hx, hacked⟩ := sending_exchange h
    obtain ⟨acked', hx', hkeep⟩ := hl.exchanges j x hx
    have hsome : x.acked.isSome = true := by rw [hacked]; rfl
    simp only [Sending, State.sessionSender, hx', hkeep hsome, hsome, if_true, Option.isSome_some]

/-- A session that has begun does not become a protected one. -/
theorem Later.unprotected {s s' : State} (hl : Later s s') {source : Source}
    (hs : Sending s source) (h : Protected s' source) : Protected s source := by
  cases h with
  | @attempt i n a acc ha hacc hid =>
    obtain ⟨acc', time, ha'⟩ := sending_attempt hs
    obtain ⟨a', hlater, hacc', -⟩ := hl.attempts i _ acc' ha' rfl
    cases ha.symm.trans hlater
    cases hacc.symm.trans hacc'
    exact .attempt ha' rfl hid
  | @exchange j i x hx hsigner =>
    obtain ⟨x', acked, hx', -⟩ := sending_exchange hs
    obtain ⟨acked', hlater, -⟩ := hl.exchanges j x' hx'
    cases hx.symm.trans hlater
    exact .exchange hx' hsigner

theorem Later.signed {s s' : State} (hl : Later s s') {sk aad payload : Term} {domain : Domain}
    (h : Signed s sk domain aad payload) : Signed s' sk domain aad payload := by
  cases h with
  | ack ha hacc =>
    obtain ⟨a', ha', hacc', -⟩ := hl.attempts _ _ _ ha hacc
    exact .ack ha' hacc'
  | @hello j x hx =>
    obtain ⟨acked, hx', -⟩ := hl.exchanges j x hx
    exact @Signed.hello s' j { x with acked } hx'
  | elsewhere hd => exact .elsewhere hd

/-- **The bound grows** with the records. -/
theorem Later.grows {s s' : State} (hl : Later s s')
    (hsent : ∀ (k : ℕ) (m : Sent), s.sent[k]? = some m → Sending s m.source) :
    (bound s).Grows (bound s') where
  known n h := by
    cases n with
    | message k =>
      obtain ⟨m, hm, hp⟩ := h
      exact ⟨m, hl.sent k m hm, fun hp' => hp (hl.unprotected (hsent k m hm) hp')⟩
    | attacker _ => trivial
    | _ => exact h.elim
  kept := rfl
  hides := rfl
  signed _ _ _ _ h := hl.signed h

/-! ### What a step does to the records -/

/-- The effect of a step, apart from which attempt or exchange is a party's current one. -/
inductive Effect (identity : ℕ → ℕ) (s : State) : State → Prop
  | idle {clients servers} : Effect identity s { s with clients, servers }
  | hello {clients servers} (verifier : Verifier) : Effect identity s
    { s with
      clients, servers
      attempts := s.attempts ++ [.hello verifier]
      heard := s.heard ++ [(hostHello s.attempts.length).encode] }
  | ack {clients servers i verifier now packet acc} (time : ℤ) :
    s.attempts[i]? = some (.hello verifier) → Derives s.knowledge packet →
    accept i verifier now packet = some acc → Effect identity s
      { s with
        clients, servers
        attempts := s.attempts.set i (.acked acc time)
        heard := s.heard ++ [acc.ackPacket i time] }
  | establish {clients servers i acc time} : s.attempts[i]? = some (.acked acc time) →
    Effect identity s
      { s with clients, servers, attempts := s.attempts.set i (.established acc time) }
  | exchange {clients servers} (x : Exchange) : x.acked = none → x.identity = identity x.server →
    Derives s.knowledge x.attest → Effect identity s
      { s with
        clients, servers
        exchanges := s.exchanges ++ [x]
        heard := s.heard ++ [x.packet s.exchanges.length] }
  | acked {clients servers j x packet acked} : s.exchanges[j]? = some x → x.acked = none →
    Derives s.knowledge packet → x.acknowledge j packet = some acked → Effect identity s
      { s with
        clients, servers
        exchanges := s.exchanges.set j { x with acked := some acked } }
  | sends {source context rest} : s.sessionSender source = some context →
    Derives s.knowledge rest → Effect identity s (s.seal source context rest)
  | elsewhere (n : ℕ) {domain payload} (aad : Term) (time : ℤ) : domain ≠ .wire →
    Derives s.knowledge payload → Effect identity s
      { s with heard := s.heard ++ [sign (name (.identity n)) domain aad payload time] }

theorem effect_clientFrame (identity : ℕ → ℕ) {s : State} {c : ℕ} {frame : Option Term}
    {now time : ℤ} (h : ∀ packet, frame = some packet → Derives s.knowledge packet) :
    Effect identity s (s.clientFrame c frame now time) := by
  unfold State.clientFrame
  split
  · next i packet hc =>
    split
    · next verifier ha =>
      split_ifs
      · split
        · exact .idle
        · next acc hacc => exact .ack time ha (h packet rfl) hacc
      · exact .idle
    · exact .idle
  · exact .idle

theorem effect_establish (identity : ℕ → ℕ) (s : State) (c : ℕ) :
    Effect identity s (s.establish c) := by
  unfold State.establish
  split
  · exact .idle
  · split
    · next acc time ha => exact .establish ha
    · exact .idle

theorem effect_serverFrame (identity : ℕ → ℕ) {s : State} {k : ℕ} {frame : Option Term}
    {attest : Term} {time : ℤ} (h : ∀ packet, frame = some packet → Derives s.knowledge packet)
    (hattest : Derives s.knowledge attest) :
    Effect identity s (s.serverFrame identity k frame attest time) := by
  unfold State.serverFrame
  split
  · exact .idle
  · next packet =>
    split
    · exact .idle
    · split
      · exact .idle
      · next hello _ =>
        exact .exchange { server := k, identity := identity k, hello, attest, time } rfl rfl hattest
    · next j =>
      split
      · exact .idle
      · next x hx =>
        split_ifs with hacked
        · exact .idle
        · rw [Option.not_isSome_iff_eq_none] at hacked
          split
          · exact .idle
          · next acked hack => exact .acked hx hacked (h packet rfl) hack

/-- **What a step does.** -/
theorem step_effect {identity : ℕ → ℕ} {s s' : State} (h : Step identity s s') :
    Effect identity s s' := by
  cases h with
  | connect c verifier => exact .hello verifier
  | clientFrame c frame now time hf => exact effect_clientFrame identity hf
  | establish c => exact effect_establish identity s c
  | clientEnds c => exact .idle
  | serverFrame k frame attest time hf ha => exact effect_serverFrame identity hf ha
  | serverEnds k => exact .idle
  | sends source context rest hs hr => exact .sends hs hr
  | elsewhere n domain aad payload time hd hp => exact .elsewhere n aad time hd hp

theorem getElem?_append_of_some {α : Type*} {l l' : List α} {i : ℕ} {a : α} (h : l[i]? = some a) :
    (l ++ l')[i]? = some a := by
  obtain ⟨hi, rfl⟩ := List.getElem?_eq_some_iff.mp h
  rw [List.getElem?_append_left hi, List.getElem?_eq_getElem hi]

theorem getElem?_set_of_some {α : Type*} {l : List α} {i : ℕ} {a : α} (h : l[i]? = some a) (b : α) :
    (l.set i b)[i]? = some b := by
  obtain ⟨hi, -⟩ := List.getElem?_eq_some_iff.mp h
  rw [List.getElem?_set_self hi]

/-- An attempt gets on: it has not accepted anything else. -/
theorem later_set_attempt {s : State} {i : ℕ} {a b : Attempt} {clients : ℕ → Option ℕ}
    {servers : ℕ → Stage} {heard : List Term} (ha : s.attempts[i]? = some a)
    (hb : ∀ acc, a.accepted = some acc → b.accepted = some acc)
    (he : a.isEstablished = true → b.isEstablished = true) :
    Later s { s with clients, servers, heard, attempts := s.attempts.set i b } where
  attempts i' a' acc ha' hacc := by
    by_cases hi : i' = i
    · subst hi
      cases ha.symm.trans ha'
      exact ⟨b, getElem?_set_of_some ha b, hb acc hacc, he⟩
    · refine ⟨a', ?_, hacc, id⟩
      show (s.attempts.set i b)[i']? = some a'
      rw [List.getElem?_set_ne (Ne.symm hi), ha']
  exchanges j x hx := ⟨x.acked, hx, fun _ => rfl⟩
  sent k m hm := hm

/-- **No step takes a record back.** -/
theorem Effect.later {identity : ℕ → ℕ} {s s' : State} (h : Effect identity s s') :
    Later s s' := by
  cases h with
  | idle =>
    exact ⟨fun _ a _ ha hacc => ⟨a, ha, hacc, id⟩, fun _ x hx => ⟨x.acked, hx, fun _ => rfl⟩,
      fun _ _ hm => hm⟩
  | hello verifier =>
    exact ⟨fun _ a _ ha hacc => ⟨a, getElem?_append_of_some ha, hacc, id⟩,
      fun _ x hx => ⟨x.acked, hx, fun _ => rfl⟩, fun _ _ hm => hm⟩
  | ack time ha _ _ =>
    refine later_set_attempt ha (fun acc hacc => ?_) (fun he => ?_)
    · cases hacc
    · cases he
  | establish ha => exact later_set_attempt ha (fun acc hacc => hacc) (fun _ => rfl)
  | exchange x _ _ _ =>
    exact ⟨fun _ a _ ha hacc => ⟨a, ha, hacc, id⟩,
      fun _ x hx => ⟨x.acked, getElem?_append_of_some hx, fun _ => rfl⟩, fun _ _ hm => hm⟩
  | @acked clients servers j x packet acked hx hnone _ _ =>
    refine ⟨fun _ a _ ha hacc => ⟨a, ha, hacc, id⟩, ?_, fun _ _ hm => hm⟩
    intro j' x' hx'
    by_cases hj : j' = j
    · subst hj
      cases hx.symm.trans hx'
      refine ⟨some acked, getElem?_set_of_some hx _, fun hsome => ?_⟩
      rw [hnone] at hsome
      cases hsome
    · refine ⟨x'.acked, ?_, fun _ => rfl⟩
      show (s.exchanges.set j { x with acked := some acked })[j']? = some x'
      rw [List.getElem?_set_ne (Ne.symm hj), hx']
  | sends _ _ =>
    exact ⟨fun _ a _ ha hacc => ⟨a, ha, hacc, id⟩, fun _ x hx => ⟨x.acked, hx, fun _ => rfl⟩,
      fun _ _ hm => getElem?_append_of_some hm⟩
  | elsewhere n aad time _ _ =>
    exact ⟨fun _ a _ ha hacc => ⟨a, ha, hacc, id⟩, fun _ x hx => ⟨x.acked, hx, fun _ => rfl⟩,
      fun _ _ hm => hm⟩

/-! ### The invariant -/

structure Inv (identity : ℕ → ℕ) (s : State) : Prop where
  heard : ∀ t ∈ s.heard, (bound s).Holds t
  /-- What an attempt accepted passed its checks and is within the bound. -/
  accepted : ∀ (i : ℕ) (a : Attempt) (acc : Accepted), s.attempts[i]? = some a →
    a.accepted = some acc → (bound s).Holds acc.sign1 ∧ ∃ sk time, Checked i acc sk time
  acked : ∀ (j : ℕ) (x : Exchange) (acked : Acked), s.exchanges[j]? = some x →
    x.acked = some acked → (bound s).Holds acked.sign1 ∧ ∃ sk time, Opened j x acked sk time
  served : ∀ (j : ℕ) (x : Exchange), s.exchanges[j]? = some x → x.identity = identity x.server
  sent : ∀ (k : ℕ) (m : Sent), s.sent[k]? = some m → Sending s m.source

theorem inv_init (identity : ℕ → ℕ) : Inv identity {} where
  heard t ht := absurd ht List.not_mem_nil
  accepted i a acc ha := by cases ha
  acked j x acked hx := by cases hx
  served j x hx := by cases hx
  sent k m hm := by cases hm

section Invariant

variable {identity : ℕ → ℕ} {s s' : State}

/-- The attacker keeps within the bound. -/
theorem Inv.derives (hs : Inv identity s) {t : Term} (h : Derives s.knowledge t) :
    (bound s).Holds t := by
  refine (bound s).derives (fun t ht => ?_) h
  rcases ht with ⟨n, rfl | rfl⟩ | ht
  · trivial
  · trivial
  · exact hs.heard t ht

/-- What is sealed in the wire's own domain is within the bound: it hides nothing. -/
theorem holds_of_decrypt {packet aad sk body : Term} (hp : (bound s).Holds packet)
    (h : decrypt packet aad sk .wire = some body) : (bound s).Holds body := by
  obtain ⟨e, rfl⟩ := decrypt_eq_some h
  obtain ⟨-, -, hbody | ⟨domain, a, b, hd, -, -, he⟩⟩ := hp
  · exact hbody
  · injection he with hdomain
    exact (hd hdomain.symm).elim

/-- A signature of an Ark in the wire's domain is that of an exchange. -/
theorem signed_identity {n : ℕ} {aad payload : Term} {time : ℤ}
    (h : (bound s).Holds (sign (name (.identity n)) .wire aad payload time)) :
    ∃ (j : ℕ) (x : Exchange), s.exchanges[j]? = some x ∧ x.identity = n ∧
      aad = x.helloAuth.encode ∧ payload = (x.arkHello j).encode := by
  have hsigned : Signed s (name (.identity n)) .wire aad payload :=
    Bound.signed_of_kept h (fun hk => hk)
  generalize hsk : (name (.identity n) : Term) = sk at hsigned
  generalize hdomain : Domain.wire = domain at hsigned
  cases hsigned with
  | ack _ _ => cases hsk
  | @hello j x hx =>
    cases hsk
    exact ⟨j, x, hx, rfl, rfl, rfl⟩
  | elsewhere hd => exact (hd hdomain.symm).elim

/-- A signature of a client is its acknowledgement. -/
theorem signed_host {i : ℕ} {aad payload : Term} {domain : Domain} {time : ℤ}
    (h : (bound s).Holds (sign (name (.hostSigner i)) domain aad payload time)) :
    ∃ (a : Attempt) (acc : Accepted), s.attempts[i]? = some a ∧ a.accepted = some acc ∧
      aad = acc.auth.encode ∧ payload = (acc.ack i).encode := by
  have hsigned : Signed s (name (.hostSigner i)) domain aad payload :=
    Bound.signed_of_kept h (fun hk => hk)
  generalize hsk : (name (.hostSigner i) : Term) = sk at hsigned
  cases hsigned with
  | @ack i' a acc ha hacc =>
    cases hsk
    exact ⟨a, acc, ha, hacc, rfl, rfl⟩
  | hello _ => cases hsk
  | elsewhere _ => cases hsk

/-! ### Who talked to whom -/

/-- An exchange answered the hello of an attempt, with what the attempt accepted. -/
structure Answers (s : State) (n i : ℕ) (acc : Accepted) (j : ℕ) (x : Exchange) : Prop where
  exchange : s.exchanges[j]? = some x
  identity : x.identity = n
  hello : x.hello = hostHello i
  arkHello : acc.hello = x.arkHello j

theorem hostHello_inj {i i' : ℕ} (h : hostHello i = hostHello i') : i = i' := by
  injection h with hsigner
  injection hsigner with hsk
  injection hsk with hname
  injection hname

theorem arkCrypto_inj {j j' : ℕ} (h : arkCrypto j = arkCrypto j') : j = j' := by
  injection h with hsk
  injection hsk with hname
  injection hname

/-- The authenticated data of an exchange is that of an attempt only for the hello of the
attempt. -/
theorem hello_of_auth {i : ℕ} {x : Exchange} (h : arkAuth i = x.helloAuth.encode) :
    x.hello = hostHello i := by
  obtain ⟨server, identity, ⟨signer, crypto⟩, attest, time, acked⟩ := x
  simp only [arkAuth, Exchange.helloAuth, ArkHelloAuth.encode, array, pair.injEq, and_true] at h
  obtain ⟨hsigner, hcrypto⟩ := h
  show (⟨signer, crypto⟩ : HostHello) = hostHello i
  rw [← hsigner, ← hcrypto]

/-- **What an attempt accepts of an Ark, the Ark has answered it.** -/
theorem Inv.answers (hs : Inv identity s) {i n : ℕ} {a : Attempt} {acc : Accepted}
    (ha : s.attempts[i]? = some a) (hacc : a.accepted = some acc)
    (hid : acc.identity = identityKey n) : ∃ j x, Answers s n i acc j x := by
  obtain ⟨hholds, sk, time, hchecked⟩ := hs.accepted i a acc ha hacc
  have hsk : sk = name (.identity n) := by
    have h := hchecked.identity.symm.trans hid
    injection h
  rw [hchecked.sign1, hsk] at hholds
  obtain ⟨j, x, hx, hn, haad, hpayload⟩ := signed_identity hholds
  exact ⟨j, x, hx, hn, hello_of_auth haad, ArkHello.encode_inj hpayload⟩

/-- The fresh key names the exchange. -/
theorem Answers.unique {n n' i i' : ℕ} {acc : Accepted} {j j' : ℕ} {x x' : Exchange}
    (h : Answers s n i acc j x) (h' : Answers s n' i' acc j' x') : j = j' := by
  have hcrypto := congrArg ArkHello.crypto (h.arkHello.symm.trans h'.arkHello)
  exact arkCrypto_inj hcrypto

/-- An attempt acknowledged an exchange. -/
structure Acknowledges (s : State) (i : ℕ) (acc : Accepted) (j : ℕ) (x : Exchange)
    (acked : Acked) : Prop where
  hello : x.hello = hostHello i
  identity : acc.identity = identityKey x.identity
  arkHello : acc.hello = x.arkHello j
  ack : acked.ack = acc.ack i

/-- **What an exchange accepts of a client, the client has answered it.** -/
theorem Inv.acknowledges (hs : Inv identity s) {i j : ℕ} {x : Exchange} {acked : Acked}
    (hx : s.exchanges[j]? = some x) (hacked : x.acked = some acked)
    (hsigner : x.hello.signer = (hostHello i).signer) :
    ∃ a acc, s.attempts[i]? = some a ∧ a.accepted = some acc ∧ Acknowledges s i acc j x acked := by
  obtain ⟨hholds, sk, time, hopened⟩ := hs.acked j x acked hx hacked
  have hsk : sk = name (.hostSigner i) := by
    have h := hopened.signer.symm.trans hsigner
    injection h
  rw [hopened.sign1, hsk] at hholds
  obtain ⟨a, acc, ha, hacc, haad, hpayload⟩ := signed_host hholds
  simp only [hostAuth, Accepted.auth, HostAckAuth.encode, array, pair.injEq, and_true] at haad
  obtain ⟨hid, hcrypto⟩ := haad
  -- The client accepted the key of this exchange, so the hello it accepted is from here.
  obtain ⟨j', x', hanswers⟩ := hs.answers ha hacc hid.symm
  have hj : j = j' := by
    have hcrypto' := congrArg ArkHello.crypto hanswers.arkHello
    exact arkCrypto_inj (hcrypto.trans hcrypto')
  subst hj
  cases hx.symm.trans hanswers.exchange
  exact ⟨a, acc, ha, hacc, hanswers.hello, hid.symm, hanswers.arkHello, HostAck.encode_inj hpayload⟩

/-! ### Every step keeps the invariant -/

theorem Inv.grows (hs : Inv identity s) (hl : Later s s') : (bound s).Grows (bound s') :=
  hl.grows hs.sent

/-- Whatever is sealed in a protected session is hidden. -/
theorem Inv.hidden (hs : Inv identity s) {source : Source} {sender : Term}
    (hsend : s.sessionSender source = some sender) (hp : Protected s source) :
    (bound s).Hidden sender := by
  have hsending : Sending s source := by rw [Sending, hsend]; rfl
  cases hp with
  | @attempt i n a acc ha hacc hid =>
    obtain ⟨j, x, hanswers⟩ := hs.answers ha hacc hid
    obtain ⟨acc', time, ha'⟩ := sending_attempt hsending
    cases ha.symm.trans ha'
    cases hacc
    simp only [State.sessionSender, ha, Option.some.injEq] at hsend
    refine ⟨.hostToArk, .arkCrypto j, .hostEncap i, nofun, trivial, trivial, ?_⟩
    rw [← hsend, Accepted.sender, hanswers.arkHello]
    rfl
  | @exchange j i x hx hsigner =>
    obtain ⟨x', acked, hx', hacked⟩ := sending_exchange hsending
    cases hx.symm.trans hx'
    obtain ⟨a, acc, -, -, hack⟩ := hs.acknowledges hx hacked hsigner
    simp only [State.sessionSender, hx, hacked, Option.isSome_some, if_true,
      Option.some.injEq] at hsend
    refine ⟨.arkToHost, .hostCrypto i, .arkEncap j, nofun, trivial, trivial, ?_⟩
    rw [← hsend, Exchange.sender, hack.hello]
    rfl

/-- What a step puts on the streams is within the bound. -/
theorem Inv.heard_step (hs : Inv identity s) (h : Effect identity s s') :
    ∀ t ∈ s'.heard, (bound s').Holds t := by
  have hgrows := hs.grows h.later
  have hold : ∀ t ∈ s.heard, (bound s').Holds t := fun t ht => hgrows.holds (hs.heard t ht)
  have hder : ∀ {t : Term}, Derives s.knowledge t → (bound s').Holds t :=
    fun ht => hgrows.holds (hs.derives ht)
  have happend : ∀ {new : Term}, (bound s').Holds new → ∀ t ∈ s.heard ++ [new],
      (bound s').Holds t := by
    intro new hnew t ht
    rcases List.mem_append.mp ht with ht | ht
    · exact hold t ht
    · rw [List.mem_singleton.mp ht]
      exact hnew
  cases h with
  | idle => exact hold
  | hello verifier => exact happend ⟨trivial, trivial, trivial⟩
  | @ack clients servers i verifier now packet acc time ha _ hacc =>
    refine happend ⟨trivial, trivial, .inl ⟨⟨trivial, trivial⟩, .inr ?_⟩⟩
    exact Signed.ack (getElem?_set_of_some ha _) rfl
  | establish _ => exact hold
  | exchange x _ _ hattest =>
    refine happend ⟨trivial, trivial, .inl ⟨⟨hder hattest, trivial, trivial, trivial⟩, .inr ?_⟩⟩
    exact Signed.hello List.getElem?_concat_length
  | acked _ _ _ _ => exact hold
  | @sends source context rest hsend hrest =>
    refine happend ?_
    by_cases hp : Protected s source
    · exact .inr ((hgrows.hidden _).mpr (hs.hidden hsend hp))
    · refine .inl ⟨⟨⟨source, rest⟩, List.getElem?_concat_length, fun hp' => hp ?_⟩, hder hrest⟩
      refine Later.unprotected (Effect.sends hsend hrest : Effect identity s _).later ?_ hp'
      rw [Sending, hsend]
      rfl
  | elsewhere n aad time hd hp => exact happend ⟨hder hp, .inr (Signed.elsewhere hd)⟩

/-- What an attempt accepts is something the attacker could make. -/
theorem Inv.accepted_step (hs : Inv identity s) (h : Effect identity s s') {i : ℕ} {a : Attempt}
    {acc : Accepted} (ha : s'.attempts[i]? = some a) (hacc : a.accepted = some acc) :
    (bound s').Holds acc.sign1 ∧ ∃ sk time, Checked i acc sk time := by
  have hgrows := hs.grows h.later
  have hold : ∀ {a : Attempt}, s.attempts[i]? = some a → a.accepted = some acc →
      (bound s').Holds acc.sign1 ∧ ∃ sk time, Checked i acc sk time := by
    intro a ha hacc
    obtain ⟨hholds, hchecked⟩ := hs.accepted i a acc ha hacc
    exact ⟨hgrows.holds hholds, hchecked⟩
  cases h with
  | idle => exact hold ha hacc
  | hello verifier =>
    rcases Nat.lt_or_ge i s.attempts.length with hlt | hge
    · rw [List.getElem?_append_left hlt] at ha
      exact hold ha hacc
    · rw [List.getElem?_append_right hge] at ha
      cases List.mem_singleton.mp (List.mem_of_getElem? ha)
      cases hacc
  | @ack clients servers i' verifier now packet acc' time hi hpacket haccept =>
    by_cases hii : i = i'
    · subst hii
      cases (getElem?_set_of_some hi _).symm.trans ha
      cases hacc
      obtain ⟨hp, sk, time', hchecked⟩ := accept_eq_some haccept
      refine ⟨hgrows.holds (holds_of_decrypt ?_ hchecked.packet), sk, time', hchecked⟩
      rw [hp]
      exact hs.derives hpacket
    · rw [List.getElem?_set_ne (Ne.symm hii)] at ha
      exact hold ha hacc
  | @establish clients servers i' acc' time hi =>
    by_cases hii : i = i'
    · subst hii
      cases (getElem?_set_of_some hi _).symm.trans ha
      exact hold hi hacc
    · rw [List.getElem?_set_ne (Ne.symm hii)] at ha
      exact hold ha hacc
  | exchange _ _ _ _ => exact hold ha hacc
  | acked _ _ _ _ => exact hold ha hacc
  | sends _ _ => exact hold ha hacc
  | elsewhere _ _ _ _ _ => exact hold ha hacc

/-- The exchanges of a step: those before it, a new one, or one acknowledged. -/
theorem Effect.exchange_cases (h : Effect identity s s') {j : ℕ} {x : Exchange}
    (hx : s'.exchanges[j]? = some x) :
    s.exchanges[j]? = some x ∨ (x.acked = none ∧ x.identity = identity x.server) ∨
      ∃ packet acked x₀, s.exchanges[j]? = some x₀ ∧ x = { x₀ with acked := some acked } ∧
        Derives s.knowledge packet ∧ x₀.acknowledge j packet = some acked := by
  cases h with
  | exchange x' hnone hid _ =>
    rcases Nat.lt_or_ge j s.exchanges.length with hlt | hge
    · rw [List.getElem?_append_left hlt] at hx
      exact .inl hx
    · rw [List.getElem?_append_right hge] at hx
      cases List.mem_singleton.mp (List.mem_of_getElem? hx)
      exact .inr (.inl ⟨hnone, hid⟩)
  | @acked clients servers j' x₀ packet acked hx₀ _ hpacket hack =>
    by_cases hj : j = j'
    · subst hj
      cases (getElem?_set_of_some hx₀ _).symm.trans hx
      exact .inr (.inr ⟨packet, acked, x₀, hx₀, rfl, hpacket, hack⟩)
    · rw [List.getElem?_set_ne (Ne.symm hj)] at hx
      exact .inl hx
  | idle => exact .inl hx
  | hello _ => exact .inl hx
  | ack _ _ _ _ => exact .inl hx
  | establish _ => exact .inl hx
  | sends _ _ => exact .inl hx
  | elsewhere _ _ _ _ _ => exact .inl hx

theorem Inv.acked_step (hs : Inv identity s) (h : Effect identity s s') {j : ℕ} {x : Exchange}
    {acked : Acked} (hx : s'.exchanges[j]? = some x) (hacked : x.acked = some acked) :
    (bound s').Holds acked.sign1 ∧ ∃ sk time, Opened j x acked sk time := by
  have hgrows := hs.grows h.later
  rcases h.exchange_cases hx with hold | ⟨hnone, -⟩ | ⟨packet, acked', x₀, -, rfl, hpacket, hack⟩
  · obtain ⟨hholds, hopened⟩ := hs.acked j x acked hold hacked
    exact ⟨hgrows.holds hholds, hopened⟩
  · rw [hnone] at hacked
    cases hacked
  · cases hacked
    obtain ⟨hp, sk, time, hopened⟩ := acknowledge_eq_some hack
    refine ⟨hgrows.holds (holds_of_decrypt ?_ hopened.packet), sk, time, hopened.packet,
      hopened.sign1, hopened.signer⟩
    rw [hp]
    exact hs.derives hpacket

theorem Inv.served_step (hs : Inv identity s) (h : Effect identity s s') {j : ℕ} {x : Exchange}
    (hx : s'.exchanges[j]? = some x) : x.identity = identity x.server := by
  rcases h.exchange_cases hx with hold | ⟨-, hid⟩ | ⟨packet, acked, x₀, hx₀, rfl, -, -⟩
  · exact hs.served j x hold
  · exact hid
  · exact hs.served j x₀ hx₀

theorem Inv.sent_step (hs : Inv identity s) (h : Effect identity s s') {k : ℕ} {m : Sent}
    (hm : s'.sent[k]? = some m) : Sending s' m.source := by
  have hold : ∀ {m : Sent}, s.sent[k]? = some m → Sending s' m.source :=
    fun hm => h.later.sending (hs.sent k _ hm)
  cases h with
  | @sends source context rest hsend hrest =>
    rcases Nat.lt_or_ge k s.sent.length with hlt | hge
    · rw [State.seal, List.getElem?_append_left hlt] at hm
      exact hold hm
    · rw [State.seal, List.getElem?_append_right hge] at hm
      cases List.mem_singleton.mp (List.mem_of_getElem? hm)
      refine (Effect.sends hsend hrest : Effect identity s _).later.sending ?_
      rw [Sending, hsend]
      rfl
  | idle => exact hold hm
  | hello _ => exact hold hm
  | ack _ _ _ _ => exact hold hm
  | establish _ => exact hold hm
  | exchange _ _ _ _ => exact hold hm
  | acked _ _ _ _ => exact hold hm
  | elsewhere _ _ _ _ _ => exact hold hm

/-- **Every step keeps the invariant.** -/
theorem Inv.step (hs : Inv identity s) (h : Step identity s s') : Inv identity s' where
  heard := hs.heard_step (step_effect h)
  accepted _ _ _ ha hacc := hs.accepted_step (step_effect h) ha hacc
  acked _ _ _ hx hacked := hs.acked_step (step_effect h) hx hacked
  served _ _ hx := hs.served_step (step_effect h) hx
  sent _ _ hm := hs.sent_step (step_effect h) hm

theorem inv_reachable (h : Reachable identity s) : Inv identity s := by
  induction h with
  | init => exact inv_init identity
  | step _ hstep ih => exact ih.step hstep

end Invariant

/-! ### A run

A client with a pinned key connects to a server, and both establish a session. -/

def pinned : Verifier := fun _ _ => some (identityKey 0)

def greeted : State := (({} : State).connect 0 pinned).serverFrame id 0 none (text []) 0

def answer : Exchange where
  server := 0
  identity := 0
  hello := hostHello 0
  attest := text []
  time := 0

def answered : State := greeted.serverFrame id 0 (some (hostHello 0).encode) (text []) 0

def accepted : Accepted := ⟨answer.packet 0, answer.sign1 0, identityKey 0, answer.arkHello 0⟩

def connected : State := (answered.clientFrame 0 (some (answer.packet 0)) 0 0).establish 0

def acknowledged : Acked := ⟨accepted.ackPacket 0 0, accepted.ackSign1 0 0, accepted.ack 0⟩

def session : State := connected.serverFrame id 0 (some acknowledged.packet) (text []) 0

theorem reachable_session : Reachable id session := by
  have hconnect : Reachable id (({} : State).connect 0 pinned) := .step .init (.connect 0 pinned)
  have hgreeted : Reachable id greeted :=
    .step hconnect (.serverFrame 0 none (text []) 0 nofun (.text []))
  have hanswered : Reachable id answered := by
    refine .step hgreeted (.serverFrame 0 _ (text []) 0 ?_ (.text []))
    rintro packet ⟨⟩
    exact .known (.inr (by decide))
  have hconnected : Reachable id connected := by
    refine .step (.step hanswered (.clientFrame 0 _ 0 0 ?_)) (.establish 0)
    rintro packet ⟨⟩
    exact .known (.inr (by decide))
  refine .step hconnected (.serverFrame 0 _ (text []) 0 ?_ (.text []))
  rintro packet ⟨⟩
  exact .known (.inr (by decide))

/-! ### A client has talked to the Ark it verified -/

/-- The exchange behind a connect that returned `Ok`. -/
structure Talked (identity : ℕ → ℕ) (s : State) (n i : ℕ) (acc : Accepted) (j : ℕ) (x : Exchange) :
    Prop where
  exchange : s.exchanges[j]? = some x
  server : identity x.server = n
  hello : x.hello = hostHello i
  crypto : acc.hello.crypto = arkCrypto j
  encap : acc.hello.encap = (x.sender j).2
  context : acc.receiver i = (x.sender j).1

structure ClientAgreement (identity : ℕ → ℕ) (s : State) : Prop where
  /-- One exchange of a server with this identity answered the hello of this attempt with what the
  attempt accepted. -/
  talked : ∀ (i n : ℕ) (acc : Accepted) (time : ℤ),
    s.attempts[i]? = some (.established acc time) → acc.identity = identityKey n →
    ∃ j x, Talked identity s n i acc j x ∧ ∀ j' x', Talked identity s n i acc j' x' → j' = j
  /-- Distinct attempts talked to distinct exchanges. -/
  distinct : ∀ (i i' n n' : ℕ) (acc acc' : Accepted) (j j' : ℕ) (x x' : Exchange),
    Talked identity s n i acc j x → Talked identity s n' i' acc' j' x' → i ≠ i' → j ≠ j'
  /-- An `ArkHello` for another hello is not accepted, nor is what was signed in it. -/
  recorded : ∀ (i : ℕ) (a : Attempt) (acc : Accepted) (j : ℕ) (x : Exchange),
    s.attempts[i]? = some a → a.accepted = some acc → s.exchanges[j]? = some x →
    acc.packet = x.packet j ∨ acc.sign1 = x.sign1 j → x.hello = hostHello i

section Client

variable {identity : ℕ → ℕ} {s : State}

/-- The contexts of both directions match. -/
theorem receiver_eq {i j : ℕ} {acc : Accepted} {x : Exchange} (hhello : x.hello = hostHello i)
    (hark : acc.hello = x.arkHello j) : acc.receiver i = (x.sender j).1 := by
  simp only [Accepted.receiver, hark, Exchange.arkHello, Exchange.sender, hhello, newSender,
    newReceiver, hostHello]

theorem sender_eq {i j : ℕ} {acc : Accepted} {x : Exchange} {acked : Acked}
    (hark : acc.hello = x.arkHello j) (hack : acked.ack = acc.ack i) :
    Exchange.receiver j acked = (acc.sender i).1 := by
  simp only [Exchange.receiver, hack, Accepted.ack, Accepted.sender, hark, Exchange.arkHello,
    newSender, newReceiver, arkCrypto]

theorem Answers.talked (hs : Inv identity s) {n i j : ℕ} {acc : Accepted} {x : Exchange}
    (h : Answers s n i acc j x) : Talked identity s n i acc j x where
  exchange := h.exchange
  server := by rw [← hs.served j x h.exchange, h.identity]
  hello := h.hello
  crypto := by rw [h.arkHello]; rfl
  encap := by rw [h.arkHello]; rfl
  context := receiver_eq h.hello h.arkHello

/-- Only its own hello is in what an attempt can decrypt or verify. -/
theorem Checked.recorded {i j : ℕ} {acc : Accepted} {sk : Term} {time : ℤ} {x : Exchange}
    (h : Checked i acc sk time) (hx : acc.packet = x.packet j ∨ acc.sign1 = x.sign1 j) :
    x.hello = hostHello i := by
  rcases hx with hpacket | hsign
  · obtain ⟨e, he⟩ := decrypt_eq_some h.packet
    rw [he] at hpacket
    simp only [Exchange.packet, sealAt, encrypt, newSender, pair.injEq, aead.injEq] at hpacket
    exact hello_of_auth hpacket.2.2.2.2.1
  · rw [h.sign1] at hsign
    injection hsign with _ _ haad _ _
    exact hello_of_auth haad

/-- **A client that connects has talked to the Ark it verified.** -/
theorem client_agreement (h : Reachable identity s) : ClientAgreement identity s where
  talked i n acc time ha hid := by
    have hs := inv_reachable h
    obtain ⟨j, x, hanswers⟩ := hs.answers ha rfl hid
    have htalked := hanswers.talked hs
    refine ⟨j, x, htalked, fun j' x' htalked' => ?_⟩
    exact arkCrypto_inj (htalked'.crypto.symm.trans htalked.crypto)
  distinct i i' n n' acc acc' j j' x x' ht ht' hne := by
    rintro rfl
    cases ht.exchange.symm.trans ht'.exchange
    exact hne (hostHello_inj (ht.hello.symm.trans ht'.hello))
  recorded i a acc j x ha hacc hx hsame := by
    obtain ⟨-, sk, time, hchecked⟩ := (inv_reachable h).accepted i a acc ha hacc
    exact hchecked.recorded hsame

theorem client_agreement_session : ∃ j x, Talked id session 0 0 accepted j x := by
  obtain ⟨j, x, htalked, -⟩ :=
    (client_agreement reachable_session).talked 0 0 accepted 0 rfl rfl
  exact ⟨j, x, htalked⟩

end Client

/-! ### A server's session belongs to the attempt that acknowledged it -/

/-- The attempt behind a handshake of a server that returned `Ok`. -/
structure Belongs (identity : ℕ → ℕ) (i : ℕ) (acc : Accepted) (j : ℕ) (x : Exchange)
    (acked : Acked) : Prop where
  crypto : x.hello.crypto = (hostHello i).crypto
  arkHello : acc.hello = x.arkHello j
  identity : acc.identity = identityKey (identity x.server)
  encap : acked.ack.encap = (acc.sender i).2
  arkToHost : acc.receiver i = (x.sender j).1
  hostToArk : Exchange.receiver j acked = (acc.sender i).1

structure ServerAgreement (identity : ℕ → ℕ) (s : State) : Prop where
  /-- The attempt whose signer was named accepted this exchange and made its acknowledgement. -/
  belongs : ∀ (i : ℕ) (a : Attempt) (j : ℕ) (x : Exchange) (acked : Acked),
    s.attempts[i]? = some a → s.exchanges[j]? = some x → x.acked = some acked →
    x.hello.signer = (hostHello i).signer →
    ∃ acc, a.accepted = some acc ∧ Belongs identity i acc j x acked
  /-- No acknowledgement completes two exchanges, nor does what was signed in it. -/
  once : ∀ (j j' : ℕ) (x x' : Exchange) (acked acked' : Acked),
    s.exchanges[j]? = some x → x.acked = some acked → s.exchanges[j']? = some x' →
    x'.acked = some acked' → acked.packet = acked'.packet ∨ acked.sign1 = acked'.sign1 → j = j'
  /-- The acknowledgement of an attempt completes the exchange it accepted, and no other. -/
  recordedAck : ∀ (i : ℕ) (a : Attempt) (acc : Accepted) (time : ℤ) (j : ℕ) (x : Exchange)
    (acked : Acked), s.attempts[i]? = some a → a.accepted = some acc → s.exchanges[j]? = some x →
    x.acked = some acked →
    acked.packet = acc.ackPacket i time ∨ acked.sign1 = acc.ackSign1 i time →
    Belongs identity i acc j x acked
  /-- The hello of an attempt is completed once, however often it was replayed. -/
  recordedHello : ∀ (i j j' : ℕ) (x x' : Exchange), s.exchanges[j]? = some x →
    x.acked.isSome = true → s.exchanges[j']? = some x' → x'.acked.isSome = true →
    x.hello.signer = (hostHello i).signer → x'.hello.signer = (hostHello i).signer → j = j'

section Server

variable {identity : ℕ → ℕ} {s : State}

theorem Acknowledges.belongs (hs : Inv identity s) {i j : ℕ} {acc : Accepted} {x : Exchange}
    {acked : Acked} (hx : s.exchanges[j]? = some x) (h : Acknowledges s i acc j x acked) :
    Belongs identity i acc j x acked where
  crypto := by rw [h.hello]
  arkHello := h.arkHello
  identity := by rw [h.identity, hs.served j x hx]
  encap := by rw [h.ack]; rfl
  arkToHost := receiver_eq h.hello h.arkHello
  hostToArk := sender_eq h.arkHello h.ack

/-- The key of the exchange is in what can be decrypted and verified there. -/
theorem Opened.once {j j' : ℕ} {x x' : Exchange} {acked acked' : Acked} {sk sk' : Term}
    {time time' : ℤ} (h : Opened j x acked sk time) (h' : Opened j' x' acked' sk' time')
    (hsame : acked.packet = acked'.packet ∨ acked.sign1 = acked'.sign1) : j = j' := by
  have hauth : hostAuth x.identity j = hostAuth x'.identity j' := by
    rcases hsame with hpacket | hsign
    · obtain ⟨e, he⟩ := decrypt_eq_some h.packet
      obtain ⟨e', he'⟩ := decrypt_eq_some h'.packet
      rw [he, he'] at hpacket
      simp only [pair.injEq, aead.injEq] at hpacket
      exact hpacket.2.2.2.2.1
    · rw [h.sign1, h'.sign1] at hsign
      injection hsign
  simp only [hostAuth, array, pair.injEq, and_true] at hauth
  exact arkCrypto_inj hauth.2

/-- What an exchange opens of an attempt was signed by it over the exchange's identity and key. -/
theorem Opened.recorded {i j : ℕ} {x : Exchange} {acc : Accepted} {acked : Acked} {sk : Term}
    {time time' : ℤ} (h : Opened j x acked sk time)
    (hsame : acked.packet = acc.ackPacket i time' ∨ acked.sign1 = acc.ackSign1 i time') :
    x.hello.signer = (hostHello i).signer := by
  have hsign : acked.sign1 = acc.ackSign1 i time' := by
    rcases hsame with hpacket | hsign
    · obtain ⟨e, he⟩ := decrypt_eq_some h.packet
      rw [he] at hpacket
      simp only [Accepted.ackPacket, sealAt, encrypt, newSender, pair.injEq, aead.injEq] at hpacket
      exact hpacket.2.2.2.2.2
    · exact hsign
  rw [h.sign1] at hsign
  injection hsign with hsk _ _ _ _
  rw [h.signer, hsk]
  rfl

/-- **A server's session belongs to the attempt that acknowledged it.** -/
theorem server_agreement (h : Reachable identity s) : ServerAgreement identity s where
  belongs i a j x acked ha hx hacked hsigner := by
    have hs := inv_reachable h
    obtain ⟨a', acc, ha', hacc, hack⟩ := hs.acknowledges hx hacked hsigner
    cases ha.symm.trans ha'
    exact ⟨acc, hacc, hack.belongs hs hx⟩
  once j j' x x' acked acked' hx hacked hx' hacked' hsame := by
    obtain ⟨-, sk, time, hopened⟩ := (inv_reachable h).acked j x acked hx hacked
    obtain ⟨-, sk', time', hopened'⟩ := (inv_reachable h).acked j' x' acked' hx' hacked'
    exact hopened.once hopened' hsame
  recordedAck i a acc time j x acked ha hacc hx hacked hsame := by
    have hs := inv_reachable h
    obtain ⟨-, sk, time', hopened⟩ := hs.acked j x acked hx hacked
    obtain ⟨a', acc', ha', hacc', hack⟩ := hs.acknowledges hx hacked (hopened.recorded hsame)
    cases ha.symm.trans ha'
    cases hacc.symm.trans hacc'
    exact hack.belongs hs hx
  recordedHello i j j' x x' hx hacked hx' hacked' hsigner hsigner' := by
    have hs := inv_reachable h
    obtain ⟨acked, hacked⟩ := Option.isSome_iff_exists.mp hacked
    obtain ⟨acked', hacked'⟩ := Option.isSome_iff_exists.mp hacked'
    obtain ⟨a, acc, ha, hacc, hack⟩ := hs.acknowledges hx hacked hsigner
    obtain ⟨a', acc', ha', hacc', hack'⟩ := hs.acknowledges hx' hacked' hsigner'
    cases ha.symm.trans ha'
    cases hacc.symm.trans hacc'
    have hcrypto := congrArg ArkHello.crypto (hack.arkHello.symm.trans hack'.arkHello)
    exact arkCrypto_inj hcrypto

theorem server_agreement_session :
    ∃ acc, Belongs id 0 acc 0 { answer with acked := some acknowledged } acknowledged := by
  obtain ⟨acc, -, hbelongs⟩ := (server_agreement reachable_session).belongs 0
    (.established accepted 0) 0 { answer with acked := some acknowledged } acknowledged
    rfl rfl rfl rfl
  exact ⟨acc, hbelongs⟩

end Server

end ArkWire.Transport.Agreement
