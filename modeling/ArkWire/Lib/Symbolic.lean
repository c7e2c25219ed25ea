import Mathlib.Tactic

/-! # Symbolic cryptography

Messages are terms over names, and what an attacker makes of the messages it has heard is `Derives`:
it builds terms, takes pairs apart, reads what is signed, and opens what is sealed in a context of
which it has the secret key or the randomness. A term has no other equations, so signatures cannot
be forged, sealed terms cannot be opened and names cannot be guessed.

Secrecy and authenticity go through one closed set. A `Bound` says which names are public, which
stay secret and what honest signers have signed; `Bound.Holds` is then closed under derivation, so
what holds of everything heard holds of everything derived. -/

namespace ArkWire.Lib.Symbolic

variable {N D : Type}

/-! ### Terms -/

/-- Terms over names `N` and domains `D`. Any term can be a secret key. -/
inductive Term (N D : Type) where
  | name (n : N)
  | text (bytes : List UInt8)
  | pair (a b : Term N D)
  | verifyKey (sk : Term N D)
  | encryptKey (sk : Term N D)
  | fingerprint (key : Term N D)
  /-- What is signed can be read off, but for the authenticated data. -/
  | sign (sk : Term N D) (domain : D) (aad payload : Term N D) (time : ℤ)
  /-- An encapsulation to a key, with its randomness. -/
  | encap (key r : Term N D)
  /-- The secret of the context that an encapsulation opens at a key. -/
  | context (domain : D) (key encap : Term N D)
  | aead (context : Term N D) (seq : ℕ) (aad body : Term N D)
  deriving DecidableEq

/-- What an attacker who has heard `K` can make. -/
inductive Derives (K : Set (Term N D)) : Term N D → Prop
  | known {t} : t ∈ K → Derives K t
  | text (bytes) : Derives K (.text bytes)
  | pair {a b} : Derives K a → Derives K b → Derives K (.pair a b)
  | fst {a b} : Derives K (.pair a b) → Derives K a
  | snd {a b} : Derives K (.pair a b) → Derives K b
  | verifyKey {sk} : Derives K sk → Derives K (.verifyKey sk)
  | encryptKey {sk} : Derives K sk → Derives K (.encryptKey sk)
  | fingerprint {key} : Derives K key → Derives K (.fingerprint key)
  | sign {sk aad payload} (domain time) : Derives K sk → Derives K aad → Derives K payload →
    Derives K (.sign sk domain aad payload time)
  | payload {sk domain aad payload time} : Derives K (.sign sk domain aad payload time) →
    Derives K payload
  | encap {key r} : Derives K key → Derives K r → Derives K (.encap key r)
  | receiver {sk e} (domain) : Derives K sk → Derives K e →
    Derives K (.context domain (.encryptKey sk) e)
  | sender {key r} (domain) : Derives K key → Derives K r →
    Derives K (.context domain key (.encap key r))
  | aead {context aad body} (seq) : Derives K context → Derives K aad → Derives K body →
    Derives K (.aead context seq aad body)
  | body {context seq aad body} : Derives K context → Derives K (.aead context seq aad body) →
    Derives K body

/-! ### Closed sets -/

/-- A bound on what the attacker derives. -/
structure Bound (N D : Type) where
  /-- Names the attacker may have. -/
  known : N → Prop
  /-- Keys and randomness that stay secret. -/
  kept : N → Prop
  /-- Domains whose contexts hide what is sealed in them. -/
  hides : D → Prop
  /-- What signers have signed: secret key, domain, authenticated data and payload. -/
  signed : Term N D → D → Term N D → Term N D → Prop
  kept_known : ∀ n, kept n → ¬ known n

namespace Bound

/-- A context between a kept key and kept randomness. -/
def Hidden (B : Bound N D) (t : Term N D) : Prop :=
  ∃ domain a b, B.hides domain ∧ B.kept a ∧ B.kept b ∧
    t = .context domain (.encryptKey (.name a)) (.encap (.encryptKey (.name a)) (.name b))

/-- The terms within the bound. -/
def Holds (B : Bound N D) : Term N D → Prop
  | .name n => B.known n
  | .pair a b => B.Holds a ∧ B.Holds b
  | .sign sk domain aad payload _ => B.Holds payload ∧ (B.Holds sk ∨ B.signed sk domain aad payload)
  | .context domain key e => ¬ B.Hidden (.context domain key e)
  | .aead context _ _ body => B.Holds body ∨ B.Hidden context
  | _ => True

variable {B B' : Bound N D}

/-- Who has a secret key or the randomness is no kept one. -/
theorem not_hidden_receiver {sk e : Term N D} {domain : D} (h : B.Holds sk) :
    ¬ B.Hidden (.context domain (.encryptKey sk) e) := by
  rintro ⟨domain', a, b, -, ha, -, he⟩
  injection he with _ hkey _
  injection hkey with hsk
  rw [hsk] at h
  exact B.kept_known a ha h

theorem not_hidden_sender {key r : Term N D} {domain : D} (h : B.Holds r) :
    ¬ B.Hidden (.context domain key (.encap key r)) := by
  rintro ⟨domain', a, b, -, -, hb, he⟩
  injection he with _ _ hencap
  injection hencap with _ hr
  rw [hr] at h
  exact B.kept_known b hb h

/-- **What holds of everything heard holds of everything derived.** -/
theorem derives {K : Set (Term N D)} (hK : ∀ t ∈ K, B.Holds t) {t : Term N D} (h : Derives K t) :
    B.Holds t := by
  induction h with
  | known h => exact hK _ h
  | text _ => trivial
  | pair _ _ iha ihb => exact ⟨iha, ihb⟩
  | fst _ ih => exact ih.1
  | snd _ ih => exact ih.2
  | verifyKey _ _ => trivial
  | encryptKey _ _ => trivial
  | fingerprint _ _ => trivial
  | sign _ _ _ _ _ ihs _ ihp => exact ⟨ihp, .inl ihs⟩
  | payload _ ih => exact ih.1
  | encap _ _ _ _ => trivial
  | receiver _ _ _ ihs _ => exact not_hidden_receiver ihs
  | sender _ _ _ _ ihr => exact not_hidden_sender ihr
  | aead _ _ _ _ _ _ ihb => exact .inl ihb
  | @body context _ _ _ _ _ ihc iha =>
    rcases iha with hbody | hhidden
    · exact hbody
    · obtain ⟨domain, a, b, hd, ha, hb, rfl⟩ := hhidden
      exact (ihc ⟨domain, a, b, hd, ha, hb, rfl⟩).elim

/-- A bound grows: more names are known and more is signed. -/
structure Grows (B B' : Bound N D) : Prop where
  known : ∀ n, B.known n → B'.known n
  kept : B'.kept = B.kept
  hides : B'.hides = B.hides
  signed : ∀ sk domain aad payload, B.signed sk domain aad payload →
    B'.signed sk domain aad payload

theorem Grows.hidden (hB : Grows B B') (t : Term N D) : B'.Hidden t ↔ B.Hidden t := by
  unfold Hidden
  rw [hB.kept, hB.hides]

theorem Grows.holds (hB : Grows B B') : ∀ {t : Term N D}, B.Holds t → B'.Holds t
  | .name n, h => hB.known n h
  | .text _, _ => trivial
  | .pair _ _, h => ⟨hB.holds h.1, hB.holds h.2⟩
  | .verifyKey _, _ => trivial
  | .encryptKey _, _ => trivial
  | .fingerprint _, _ => trivial
  | .sign _ _ _ _ _, h => ⟨hB.holds h.1, h.2.imp hB.holds (hB.signed _ _ _ _)⟩
  | .encap _ _, _ => trivial
  | .context _ _ _, h => fun hidden => h ((hB.hidden _).mp hidden)
  | .aead _ _ _ _, h => h.imp hB.holds (hB.hidden _).mpr

/-- A signature under a kept key was made by its owner. -/
theorem signed_of_kept {n : N} {domain : D} {aad payload : Term N D} {time : ℤ}
    (h : B.Holds (.sign (.name n) domain aad payload time)) (hn : ¬ B.known n) :
    B.signed (.name n) domain aad payload := by
  obtain ⟨-, hknown | hsigned⟩ := h
  · exact (hn hknown).elim
  · exact hsigned

end Bound

end ArkWire.Lib.Symbolic
