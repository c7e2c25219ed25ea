import Mathlib.Tactic

/-! # The protobuf wire format

A message is a sequence of fields, each a key and a value. `skipField` reads past a value of any
wire type, groups included, and `decode` is the loop of a message decoder: it takes one field after
the other and merges it into the message. A decoder `Reads` when it reads from each value what
`skipField` skips; then every decoder sees the same fields, and `tags` lists their numbers.

The loops take the number of bytes left as fuel: a field takes at least one byte, its key. -/

namespace ArkWire.Lib.Protobuf

abbrev Bytes := List UInt8

/-! ### Keys and values -/

/-- A varint of at most `left` bytes, of which the tenth holds one bit. -/
def varint : ℕ → Bytes → Option (ℕ × Bytes)
  | 0, _ => none
  | _ + 1, [] => none
  | left + 1, b :: rest =>
    if b.toNat < 128 then
      if left = 0 ∧ 2 ≤ b.toNat then none else some (b.toNat, rest)
    else (varint left rest).map fun (value, rest) => (b.toNat % 128 + 128 * value, rest)

def decodeVarint (buf : Bytes) : Option (ℕ × Bytes) := varint 10 buf

inductive WireType where
  | varint
  | sixtyFourBit
  | lengthDelimited
  | startGroup
  | endGroup
  | thirtyTwoBit
  deriving DecidableEq

def WireType.of : ℕ → Option WireType
  | 0 => some .varint
  | 1 => some .sixtyFourBit
  | 2 => some .lengthDelimited
  | 3 => some .startGroup
  | 4 => some .endGroup
  | 5 => some .thirtyTwoBit
  | _ => none

/-- The tag and the wire type of a field. A key fits in 32 bits, and no tag is zero. -/
def decodeKey (buf : Bytes) : Option (ℕ × WireType × Bytes) :=
  match decodeVarint buf with
  | none => none
  | some (key, rest) =>
    if 2 ^ 32 ≤ key ∨ key / 8 = 0 then none
    else (WireType.of (key % 8)).map fun wire => (key / 8, wire, rest)

def advance (n : ℕ) (buf : Bytes) : Option Bytes :=
  if buf.length < n then none else some (buf.drop n)

/-- The fields of a group, up to its end. -/
def skipGroup (skip : WireType → ℕ → Bytes → Option Bytes) (tag : ℕ) : ℕ → Bytes → Option Bytes
  | 0, _ => none
  | fuel + 1, buf =>
    match decodeKey buf with
    | none => none
    | some (inner, .endGroup, rest) => if inner = tag then some rest else none
    | some (inner, wire, rest) => (skip wire inner rest).bind (skipGroup skip tag fuel)

/-- Reads past a value. Groups nest to a limit. -/
def skipField : ℕ → WireType → ℕ → Bytes → Option Bytes
  | 0, _, _, _ => none
  | depth + 1, wire, tag, buf =>
    match wire with
    | .varint => (decodeVarint buf).map Prod.snd
    | .thirtyTwoBit => advance 4 buf
    | .sixtyFourBit => advance 8 buf
    | .lengthDelimited => (decodeVarint buf).bind fun (len, rest) => advance len rest
    | .startGroup => skipGroup (skipField depth) tag buf.length buf
    | .endGroup => none

def recursionLimit : ℕ := 100

/-- `skip_field` at the top of a message. -/
def skip (wire : WireType) (tag : ℕ) (buf : Bytes) : Option Bytes :=
  skipField recursionLimit wire tag buf

/-- A scalar: the last one wins. -/
def mergeVarint (wire : WireType) (buf : Bytes) : Option (ℕ × Bytes) :=
  if wire = .varint then decodeVarint buf else none

/-- The bytes of a length delimited field. -/
def mergeBytes (wire : WireType) (buf : Bytes) : Option (Bytes × Bytes) :=
  if wire = .lengthDelimited then
    (decodeVarint buf).bind fun (len, rest) => (advance len rest).map fun left =>
    (rest.take len, left)
  else none

/-! ### Messages -/

section Decoders

variable {σ : Type*}

/-- How a message takes a field in. -/
abbrev MergeField (σ : Type*) := σ → ℕ → WireType → Bytes → Option (σ × Bytes)

def mergeLoop (merge : MergeField σ) : ℕ → σ → Bytes → Option σ
  | _, s, [] => some s
  | 0, _, _ :: _ => none
  | fuel + 1, s, b :: bs =>
    match decodeKey (b :: bs) with
    | none => none
    | some (tag, wire, rest) =>
      (merge s tag wire rest).bind fun (s', rest') => mergeLoop merge fuel s' rest'

/-- `Message::decode`. -/
def decode (merge : MergeField σ) (s : σ) (buf : Bytes) : Option σ :=
  mergeLoop merge buf.length s buf

def tagLoop : ℕ → Bytes → List ℕ
  | 0, _ => []
  | fuel + 1, buf =>
    match decodeKey buf with
    | none => []
    | some (tag, wire, rest) =>
      match skip wire tag rest with
      | none => [tag]
      | some rest => tag :: tagLoop fuel rest

/-- The tags of the top level fields. -/
def tags (buf : Bytes) : List ℕ := tagLoop buf.length buf

/-- A decoder reads from every value what `skip` skips. -/
def Reads (merge : MergeField σ) : Prop :=
  ∀ s tag wire buf s' rest, merge s tag wire buf = some (s', rest) → skip wire tag buf = some rest

end Decoders

/-! ### What is left gets shorter -/

theorem varint_length : ∀ {left : ℕ} {buf rest : Bytes} {value : ℕ},
    varint left buf = some (value, rest) → rest.length < buf.length
  | 0, _, _, _, h => by cases h
  | _ + 1, [], _, _, h => by cases h
  | left + 1, b :: bs, rest, value, h => by
    simp only [varint] at h
    split_ifs at h
    · cases h
      exact Nat.lt_succ_self _
    · obtain ⟨⟨value', rest'⟩, hv, he⟩ := Option.map_eq_some_iff.mp h
      cases he
      have hlen := varint_length hv
      show rest'.length < bs.length + 1
      omega

theorem decodeKey_length {buf rest : Bytes} {tag : ℕ} {wire : WireType}
    (h : decodeKey buf = some (tag, wire, rest)) : rest.length < buf.length := by
  unfold decodeKey at h
  split at h
  · cases h
  · next key rest' hv =>
    split_ifs at h
    obtain ⟨wire', -, he⟩ := Option.map_eq_some_iff.mp h
    cases he
    exact varint_length hv

theorem advance_length {n : ℕ} {buf rest : Bytes} (h : advance n buf = some rest) :
    rest.length ≤ buf.length := by
  unfold advance at h
  split_ifs at h
  cases h
  rw [List.length_drop]
  omega

theorem skipGroup_length {skip : WireType → ℕ → Bytes → Option Bytes} {tag : ℕ}
    (hs : ∀ wire tag buf rest, skip wire tag buf = some rest → rest.length ≤ buf.length) :
    ∀ {fuel : ℕ} {buf rest : Bytes}, skipGroup skip tag fuel buf = some rest →
      rest.length ≤ buf.length
  | 0, _, _, h => by cases h
  | fuel + 1, buf, rest, h => by
    simp only [skipGroup] at h
    split at h
    · cases h
    · next hk =>
      have hlen := decodeKey_length hk
      split_ifs at h
      cases h
      omega
    · next hk =>
      have hlen := decodeKey_length hk
      obtain ⟨rest', hskip, hrest⟩ := Option.bind_eq_some_iff.mp h
      have hlen' := hs _ _ _ _ hskip
      have hlen'' := skipGroup_length hs hrest
      omega

theorem skipField_length : ∀ {depth : ℕ} {wire : WireType} {tag : ℕ} {buf rest : Bytes},
    skipField depth wire tag buf = some rest → rest.length ≤ buf.length
  | 0, _, _, _, _, h => by cases h
  | depth + 1, wire, tag, buf, rest, h => by
    cases wire with
    | varint =>
      obtain ⟨⟨value, rest'⟩, hv, rfl⟩ := Option.map_eq_some_iff.mp h
      exact (varint_length hv).le
    | thirtyTwoBit => exact advance_length h
    | sixtyFourBit => exact advance_length h
    | lengthDelimited =>
      obtain ⟨⟨len, rest'⟩, hv, ha⟩ := Option.bind_eq_some_iff.mp h
      have hlen := varint_length hv
      have hlen' := advance_length ha
      omega
    | startGroup => exact skipGroup_length (fun _ _ _ _ hs => skipField_length hs) h
    | endGroup => cases h

/-! ### A decoder field by field -/

section Decoders

variable {σ : Type*} {merge : MergeField σ} {s s' : σ} {buf : Bytes}

theorem Reads.length (hm : Reads merge) {tag : ℕ} {wire : WireType} {rest : Bytes}
    (h : merge s tag wire buf = some (s', rest)) : rest.length ≤ buf.length :=
  skipField_length (hm _ _ _ _ _ _ h)

/-- More fuel than bytes changes nothing. -/
theorem mergeLoop_fuel (hm : Reads merge) : ∀ {fuel fuel' : ℕ} {s : σ} {buf : Bytes},
    buf.length ≤ fuel → buf.length ≤ fuel' → mergeLoop merge fuel s buf =
      mergeLoop merge fuel' s buf
  | fuel, fuel', s, [], _, _ => by cases fuel <;> cases fuel' <;> rfl
  | 0, _, _, _ :: _, h, _ => absurd h (by simp)
  | _, 0, _, _ :: _, _, h => absurd h (by simp)
  | fuel + 1, fuel' + 1, s, b :: bs, h, h' => by
    simp only [mergeLoop]
    split
    · rfl
    · next tag wire rest hk =>
      have hlen := decodeKey_length hk
      rw [List.length_cons] at h h' hlen
      cases hf : merge s tag wire rest with
      | none => rfl
      | some next =>
        obtain ⟨s₁, rest₁⟩ := next
        have hlen' := hm.length hf
        show mergeLoop merge fuel s₁ rest₁ = mergeLoop merge fuel' s₁ rest₁
        exact mergeLoop_fuel hm (by omega) (by omega)

theorem decode_nil : decode merge s [] = some s := rfl

/-- The decoder takes the first field and goes on. -/
theorem decode_field (hm : Reads merge) {tag : ℕ} {wire : WireType} {rest rest' : Bytes}
    (hk : decodeKey buf = some (tag, wire, rest)) (hf : merge s tag wire rest = some (s', rest')) :
    decode merge s buf = decode merge s' rest' := by
  have hlen := decodeKey_length hk
  have hlen' := hm.length hf
  cases buf with
  | nil => exact absurd hlen (Nat.not_lt_zero _)
  | cons b bs =>
    rw [List.length_cons] at hlen
    simp only [decode, List.length_cons, mergeLoop, hk, hf, Option.bind_some]
    exact mergeLoop_fuel hm (by omega) le_rfl

/-- The first field of a message that is decoded. -/
theorem decode_cases (hm : Reads merge) (h : decode merge s buf = some s') :
    buf = [] ∧ s' = s ∨ ∃ tag wire rest s₁ rest₁, decodeKey buf = some (tag, wire, rest) ∧
      merge s tag wire rest = some (s₁, rest₁) ∧ decode merge s₁ rest₁ = some s' ∧
      rest₁.length < buf.length := by
  cases buf with
  | nil =>
    cases h
    exact .inl ⟨rfl, rfl⟩
  | cons b bs =>
    right
    have h' := h
    simp only [decode, List.length_cons, mergeLoop] at h'
    split at h'
    · cases h'
    · next tag wire rest hk =>
      obtain ⟨⟨s₁, rest₁⟩, hf, -⟩ := Option.bind_eq_some_iff.mp h'
      have hlen := decodeKey_length hk
      have hlen' := hm.length hf
      exact ⟨tag, wire, rest, s₁, rest₁, hk, hf, (decode_field hm hk hf).symm.trans h, by omega⟩

theorem tagLoop_fuel : ∀ {fuel fuel' : ℕ} {buf : Bytes}, buf.length ≤ fuel → buf.length ≤ fuel' →
    tagLoop fuel buf = tagLoop fuel' buf
  | 0, 0, _, _, _ => rfl
  | fuel, fuel', [], _, _ => by cases fuel <;> cases fuel' <;> rfl
  | 0, _ + 1, _ :: _, h, _ => absurd h (by simp)
  | _ + 1, 0, _ :: _, _, h => absurd h (by simp)
  | fuel + 1, fuel' + 1, b :: bs, h, h' => by
    simp only [tagLoop]
    split
    · rfl
    · next tag wire rest hk =>
      have hlen := decodeKey_length hk
      rw [List.length_cons] at h h' hlen
      split
      · rfl
      · next rest' hskip =>
        have hlen' : rest'.length ≤ rest.length := skipField_length hskip
        exact congrArg _ (tagLoop_fuel (by omega) (by omega))

theorem tags_nil : tags [] = [] := rfl

theorem tags_field {tag : ℕ} {wire : WireType} {rest rest' : Bytes}
    (hk : decodeKey buf = some (tag, wire, rest)) (hs : skip wire tag rest = some rest') :
    tags buf = tag :: tags rest' := by
  have hlen := decodeKey_length hk
  have hlen' : rest'.length ≤ rest.length := skipField_length hs
  cases buf with
  | nil => exact absurd hlen (Nat.not_lt_zero _)
  | cons b bs =>
    rw [List.length_cons] at hlen
    simp only [tags, List.length_cons, tagLoop, hk, hs]
    rw [tagLoop_fuel (by omega) le_rfl]

/-- **Induction on the fields of a message that is decoded.** -/
theorem decode_induction (hm : Reads merge) {P : σ → Bytes → Prop} (hnil : P s' [])
    (hfield : ∀ s buf tag wire rest s₁ rest₁, decodeKey buf = some (tag, wire, rest) →
      merge s tag wire rest = some (s₁, rest₁) → decode merge s₁ rest₁ = some s' → P s₁ rest₁ →
      P s buf) (h : decode merge s buf = some s') : P s buf := by
  induction hn : buf.length using Nat.strong_induction_on generalizing s buf with
  | _ n ih =>
    rcases decode_cases hm h with ⟨rfl, rfl⟩ | ⟨tag, wire, rest, s₁, rest₁, hk, hf, hd, hlen⟩
    · exact hnil
    · exact hfield s buf tag wire rest s₁ rest₁ hk hf hd (ih _ (hn ▸ hlen) hd rfl)

end Decoders

end ArkWire.Lib.Protobuf
