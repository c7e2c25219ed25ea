import Mathlib.Tactic

/-! # Consistent overhead byte stuffing

COBS removes the zeros of a byte sequence. The sequence is cut into groups, each a code byte and the
nonzero bytes it counts. A code below `255` stands for its bytes and a zero after them; `255` is a
full group of `254` bytes that no zero follows. The zero of the last group is not part of the
sequence.

The result has no zero, is never empty, and is longer than its input by one byte and at most one
more for every `254` begun. -/

namespace ArkWire.Lib.Cobs

abbrev Bytes := List UInt8

/-- Room for the encoding of `n` bytes. -/
def encodeBuffer (n : ℕ) : ℕ := n + (n + 253) / 254 + 1

/-- Encodes what follows the nonzero bytes `group`. -/
def encodeGroup : Bytes → Bytes → Bytes
  | group, [] => UInt8.ofNat (group.length + 1) :: group
  | group, b :: bs =>
    if b = 0 then UInt8.ofNat (group.length + 1) :: group ++ encodeGroup [] bs
    else if group.length = 253 then
      255 :: (group ++ [b]) ++ if bs = [] then [] else encodeGroup [] bs
    else encodeGroup (group ++ [b]) bs

def encode (bytes : Bytes) : Bytes := encodeGroup [] bytes

/-- The zero between a group and the next. -/
def separator (full : Bool) : Bytes := if full then [] else [0]

/-- Decodes with `left` bytes of a group to come, `full` if no zero follows the group. -/
def decodeGroup : ℕ → Bool → Bytes → Option Bytes
  | left, _, [] => if left = 0 then some [] else none
  | 0, full, code :: bs =>
    (decodeGroup (code.toNat - 1) (code = 255) bs).map (separator full ++ ·)
  | left + 1, full, b :: bs => (decodeGroup left full bs).map (b :: ·)

/-- The decoder of a sequence without zeros. -/
def decodeNonzero (bytes : Bytes) : Except String Bytes :=
  if bytes = [] then .error "empty input"
  else
    match decodeGroup 0 true bytes with
    | some packet => .ok packet
    | none => .error "truncated group"

/-! ### What the encoder returns -/

theorem toNat_code {n : ℕ} (h : n ≤ 254) : (UInt8.ofNat (n + 1)).toNat = n + 1 := by
  rw [UInt8.toNat_ofNat']
  omega

theorem code_ne_zero {n : ℕ} (h : n ≤ 254) : UInt8.ofNat (n + 1) ≠ 0 := by
  intro h0
  have hn := toNat_code h
  rw [h0] at hn
  simp at hn

theorem encodeGroup_nonzero :
    ∀ {bs group : Bytes}, 0 ∉ group → group.length ≤ 253 → 0 ∉ encodeGroup group bs
  | [], group, hz, hl => by
    have hc := code_ne_zero (show group.length ≤ 254 by omega)
    rw [encodeGroup, List.mem_cons, not_or]
    exact ⟨hc.symm, hz⟩
  | b :: bs, group, hz, hl => by
    have hc := code_ne_zero (show group.length ≤ 254 by omega)
    have hnil : (0 : UInt8) ∉ encodeGroup [] bs := encodeGroup_nonzero (by simp) (by simp)
    rw [encodeGroup]
    split_ifs with hb hfull hbs
    · rw [List.mem_append, List.mem_cons, not_or, not_or]
      exact ⟨⟨hc.symm, hz⟩, hnil⟩
    · simp [hz, Ne.symm hb]
    · simp [hz, Ne.symm hb, hnil]
    · refine encodeGroup_nonzero ?_ ?_
      · simp [hz, Ne.symm hb]
      · rw [List.length_append, List.length_singleton]
        omega

theorem encode_nonzero (bytes : Bytes) : 0 ∉ encode bytes :=
  encodeGroup_nonzero (by simp) (by simp)

theorem encodeGroup_ne_nil : ∀ {bs group : Bytes}, encodeGroup group bs ≠ []
  | [], _ => by
    rw [encodeGroup]
    exact List.cons_ne_nil _ _
  | b :: bs, group => by
    rw [encodeGroup]
    split_ifs
    · simp
    · simp
    · simp
    · exact encodeGroup_ne_nil

theorem encode_ne_nil (bytes : Bytes) : encode bytes ≠ [] := encodeGroup_ne_nil

theorem length_encodeGroup : ∀ {bs group : Bytes},
    (encodeGroup group bs).length ≤ encodeBuffer (group.length + bs.length)
  | [], group => by
    rw [encodeGroup, List.length_cons, List.length_nil, encodeBuffer]
    omega
  | b :: bs, group => by
    have hnil : (encodeGroup [] bs).length ≤ encodeBuffer (0 + bs.length) := length_encodeGroup
    have hgrow : (encodeGroup (group ++ [b]) bs).length ≤
        encodeBuffer ((group ++ [b]).length + bs.length) := length_encodeGroup
    rw [List.length_append, List.length_singleton] at hgrow
    unfold encodeBuffer at hnil hgrow ⊢
    rw [encodeGroup]
    split_ifs with hb hfull hbs
    · rw [List.length_append, List.length_cons, List.length_cons]
      omega
    · rw [hbs, List.append_nil, List.length_cons, List.length_append, List.length_singleton]
      omega
    · rw [List.length_append, List.length_cons, List.length_append, List.length_singleton,
        List.length_cons]
      omega
    · rw [List.length_cons]
      omega

theorem length_encode (bytes : Bytes) : (encode bytes).length ≤ encodeBuffer bytes.length := by
  have h : (encodeGroup [] bytes).length ≤ encodeBuffer (0 + bytes.length) := length_encodeGroup
  rwa [Nat.zero_add] at h

/-! ### The round trip -/

theorem decodeGroup_append (full : Bool) (ys : Bytes) : ∀ g : Bytes,
    decodeGroup g.length full (g ++ ys) = (decodeGroup 0 full ys).map (g ++ ·)
  | [] => by simp
  | b :: g => by
    rw [List.length_cons, List.cons_append, decodeGroup, decodeGroup_append full ys g,
      Option.map_map]
    rfl

/-- A group in front of an encoding. -/
theorem decodeGroup_code {g : Bytes} (hl : g.length ≤ 254) (full : Bool) (ys : Bytes) :
    decodeGroup 0 full (UInt8.ofNat (g.length + 1) :: g ++ ys) =
      (decodeGroup 0 (UInt8.ofNat (g.length + 1) = 255) ys).map
        fun xs => separator full ++ (g ++ xs) := by
  rw [List.cons_append, decodeGroup, toNat_code hl, Nat.add_sub_cancel, decodeGroup_append,
    Option.map_map]
  rfl

theorem decodeGroup_nil (full : Bool) : decodeGroup 0 full [] = some [] := by
  rw [decodeGroup, if_pos rfl]

theorem code_eq_255 {n : ℕ} (h : n ≤ 254) : UInt8.ofNat (n + 1) = 255 ↔ n = 254 := by
  rw [← UInt8.toNat_inj, toNat_code h]
  show n + 1 = 255 ↔ _
  omega

theorem decodeGroup_encodeGroup : ∀ {bs group : Bytes} {full : Bool}, group.length ≤ 253 →
    decodeGroup 0 full (encodeGroup group bs) = some (separator full ++ (group ++ bs))
  | [], group, full, hl => by
    have h := decodeGroup_code (show group.length ≤ 254 by omega) full []
    rw [List.append_nil, decodeGroup_nil] at h
    exact h
  | b :: bs, group, full, hl => by
    have hnot : decide (UInt8.ofNat (group.length + 1) = 255) = false := by
      rw [decide_eq_false_iff_not, code_eq_255 (by omega)]
      omega
    rw [encodeGroup]
    split_ifs with hb hfull hbs
    · rw [decodeGroup_code (by omega), hnot, decodeGroup_encodeGroup (by simp), hb]
      simp [separator]
    · have hlen : (group ++ [b]).length = 254 := by simp [hfull]
      have h := decodeGroup_code hlen.le full []
      rw [hlen, List.append_nil, decodeGroup_nil, Option.map_some, List.append_nil] at h
      rw [List.append_nil, hbs]
      exact h
    · have hlen : (group ++ [b]).length = 254 := by simp [hfull]
      have h := decodeGroup_code hlen.le full (encodeGroup [] bs)
      rw [hlen, decodeGroup_encodeGroup (by simp)] at h
      refine h.trans ?_
      simp [separator]
    · have hlen : (group ++ [b]).length ≤ 253 := by
        rw [List.length_append, List.length_singleton]
        omega
      rw [decodeGroup_encodeGroup hlen]
      simp

/-- **The round trip.** -/
theorem decode_encode (bytes : Bytes) : decodeNonzero (encode bytes) = .ok bytes := by
  rw [decodeNonzero, if_neg (encode_ne_nil bytes), encode, decodeGroup_encodeGroup (by simp)]
  rfl

example : encode [1, 0, 0, 2, 3] = [2, 1, 1, 3, 2, 3] := rfl

end ArkWire.Lib.Cobs
