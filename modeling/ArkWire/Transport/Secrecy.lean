import ArkWire.Transport.Agreement

/-! # Confidentiality of session traffic

A message sealed by a client that connected to an Ark, or by a server in a session whose hello named
the signer of a client, is in a context between two ephemeral keys that no one else has: agreement
says whose they are. So the bound of `Agreement` leaves its secret out. -/

namespace ArkWire.Transport.Secrecy

open ArkWire.Lib.Symbolic (Derives)
open ArkWire.Lib.Symbolic.Term
open ArkWire.Transport.Handshake ArkWire.Transport.Agreement

variable {identity : ℕ → ℕ} {s : State}

/-- Neither a message nor its secret part can be derived. -/
structure Secret (s : State) (k : ℕ) (rest : Term) : Prop where
  plaintext : ¬ Derives s.knowledge (plaintext k rest)
  message : ¬ Derives s.knowledge (name (.message k))

/-- The bound leaves out what is sealed in a protected session. -/
theorem secret_of_protected (hs : Inv identity s) {k : ℕ} {m : Sent} (hm : s.sent[k]? = some m)
    (hp : Protected s m.source) : Secret s k m.rest := by
  have hmessage : ¬ Derives s.knowledge (name (.message k)) := by
    intro hder
    obtain ⟨m', hm', hp'⟩ := hs.derives hder
    cases hm.symm.trans hm'
    exact hp' hp
  exact ⟨fun hder => hmessage (.fst hder), hmessage⟩

/-- The sessions of the two sides whose messages are secret. -/
structure Confidential (s : State) : Prop where
  client : ∀ (k i n : ℕ) (rest : Term) (acc : Accepted) (time : ℤ),
    s.sent[k]? = some ⟨.attempt i, rest⟩ → s.attempts[i]? = some (.established acc time) →
    acc.identity = identityKey n → Secret s k rest
  server : ∀ (k j i : ℕ) (rest : Term) (x : Exchange) (a : Attempt),
    s.sent[k]? = some ⟨.exchange j, rest⟩ → s.exchanges[j]? = some x → s.attempts[i]? = some a →
    x.hello.signer = (hostHello i).signer → Secret s k rest

/-- **The attacker derives no message of a session between a client and an Ark.** -/
theorem confidential (h : Reachable identity s) : Confidential s where
  client _ _ _ _ _ _ hm ha hid := secret_of_protected (inv_reachable h) hm (.attempt ha rfl hid)
  server _ _ _ _ _ _ hm hx _ hsigner :=
    secret_of_protected (inv_reachable h) hm (.exchange hx hsigner)

/-- Both sides of the session seal a message. -/
def talking : State :=
  (session.seal (.attempt 0) (accepted.sender 0).1 (text [])).seal (.exchange 0)
    (answer.sender 0).1 (text [])

theorem reachable_talking : Reachable id talking := by
  refine .step (.step reachable_session (.sends (.attempt 0) _ (text []) rfl (.text []))) ?_
  exact .sends (.exchange 0) _ (text []) rfl (.text [])

theorem confidential_talking : Secret talking 0 (text []) ∧ Secret talking 1 (text []) := by
  have h := confidential reachable_talking
  refine ⟨?_, ?_⟩
  · exact h.client 0 0 0 (text []) accepted 0 rfl rfl rfl
  · exact h.server 1 0 0 (text []) { answer with acked := some acknowledged }
      (.established accepted 0) rfl rfl rfl rfl

end ArkWire.Transport.Secrecy
