import ArkWire.Lib.Protobuf

/-! # Writing the protobuf wire format

The encoders of keys and values, and the lengths they are computed to have in advance. A decoder
reads back what an encoder wrote, whatever follows it. -/

namespace ArkWire.Lib.ProtobufEncoding

open ArkWire.Lib.Protobuf

/-! ### Encoders -/

/-- A varint in at most `left` bytes. -/
def varintBytes : ℕ → ℕ → Bytes
  | 0, _ => []
  | left + 1, value =>
    if value < 128 then [UInt8.ofNat value]
    else UInt8.ofNat (value % 128 + 128) :: varintBytes left (value / 128)

def encodeVarint (value : ℕ) : Bytes := varintBytes 10 value

/-- `encoded_len_varint`: seven bits a byte, by the position of the highest bit. -/
def encodedLenVarint (value : ℕ) : ℕ := (Nat.log2 (value ||| 1) * 9 + 73) / 64

def WireType.code : WireType → ℕ
  | .varint => 0
  | .sixtyFourBit => 1
  | .lengthDelimited => 2
  | .startGroup => 3
  | .endGroup => 4
  | .thirtyTwoBit => 5

def encodeKey (tag : ℕ) (wire : WireType) : Bytes := encodeVarint (tag * 8 + WireType.code wire)

/-- `key_len`. -/
def keyLen (tag : ℕ) : ℕ := encodedLenVarint (tag * 8)

/-- A scalar field, which is left out at its default. -/
def encodeUint64 (tag value : ℕ) : Bytes :=
  if value = 0 then [] else encodeKey tag .varint ++ encodeVarint value

def encodedLenUint64 (tag value : ℕ) : ℕ :=
  if value = 0 then 0 else keyLen tag + encodedLenVarint value

/-- A field of bytes or of a nested message, which is written even when it is empty. -/
def encodeBytes (tag : ℕ) (bytes : Bytes) : Bytes :=
  encodeKey tag .lengthDelimited ++ encodeVarint bytes.length ++ bytes

def encodedLenBytes (tag len : ℕ) : ℕ := keyLen tag + encodedLenVarint len + len

/-! ### Decoders read what encoders write -/

theorem toNat_ofNat {n : ℕ} (h : n < 256) : (UInt8.ofNat n).toNat = n := by
  rw [UInt8.toNat_ofNat']
  exact Nat.mod_eq_of_lt h

theorem two_pow_add_seven (n : ℕ) : 2 ^ (n + 7) = 2 ^ n * 128 := by
  rw [pow_add]
  norm_num

/-- All but the last byte hold seven bits, and the last one bit. -/
theorem varint_varintBytes : ∀ (left : ℕ) {value : ℕ} (rest : Bytes), value < 2 ^ (7 * left + 1) →
    varint (left + 1) (varintBytes (left + 1) value ++ rest) = some (value, rest)
  | 0, value, rest, h => by
    have hsmall : value < 2 := by simpa using h
    have hbyte : (UInt8.ofNat value).toNat = value := toNat_ofNat (by omega)
    rw [varintBytes, if_pos (by omega), List.singleton_append, varint, hbyte, if_pos (by omega),
      if_neg (by omega)]
  | left + 1, value, rest, h => by
    rw [varintBytes]
    split_ifs with hsmall
    · have hbyte : (UInt8.ofNat value).toNat = value := toNat_ofNat (by omega)
      rw [List.singleton_append, varint, hbyte, if_pos hsmall, if_neg (by omega)]
    · have hbyte : (UInt8.ofNat (value % 128 + 128)).toNat = value % 128 + 128 :=
        toNat_ofNat (by omega)
      have hdiv : value / 128 < 2 ^ (7 * left + 1) := by
        rw [Nat.div_lt_iff_lt_mul (by norm_num), ← two_pow_add_seven]
        exact h
      rw [List.cons_append, varint, hbyte, if_neg (by omega),
        varint_varintBytes left rest hdiv, Option.map_some, Option.some.injEq, Prod.mk.injEq]
      exact ⟨by omega, rfl⟩

theorem decodeVarint_encodeVarint {value : ℕ} (h : value < 2 ^ 64) (rest : Bytes) :
    decodeVarint (encodeVarint value ++ rest) = some (value, rest) :=
  varint_varintBytes 9 rest h

/-- A varint fits in 64 bits. -/
theorem varint_lt : ∀ (left : ℕ) {buf rest : Bytes} {value : ℕ},
    varint (left + 1) buf = some (value, rest) → value < 2 ^ (7 * left + 1)
  | _, [], _, _, h => by cases h
  | 0, b :: bs, rest, value, h => by
    rw [varint] at h
    split_ifs at h with hb hbig
    · cases h
      have hsmall : b.toNat < 2 := by omega
      exact hsmall
    · cases h
  | left + 1, b :: bs, rest, value, h => by
    rw [varint] at h
    split_ifs at h with hb
    · cases h
      calc b.toNat < 2 ^ 7 := hb
        _ ≤ 2 ^ (7 * (left + 1) + 1) := Nat.pow_le_pow_right (by norm_num) (by omega)
    · obtain ⟨⟨value', rest'⟩, hv, he⟩ := Option.map_eq_some_iff.mp h
      cases he
      have hlt := varint_lt left hv
      have hpow : 2 ^ (7 * (left + 1) + 1) = 2 ^ (7 * left + 1) * 128 := two_pow_add_seven _
      rw [hpow]
      omega

theorem decodeVarint_lt {buf rest : Bytes} {value : ℕ}
    (h : decodeVarint buf = some (value, rest)) : value < 2 ^ 64 :=
  varint_lt 9 h

theorem of_code (wire : WireType) : WireType.of (WireType.code wire) = some wire := by
  cases wire <;> rfl

theorem code_lt (wire : WireType) : WireType.code wire < 8 := by
  cases wire <;> decide

theorem decodeKey_encodeKey {tag : ℕ} (hpos : 0 < tag) (hlt : tag < 2 ^ 29) (wire : WireType)
    (rest : Bytes) : decodeKey (encodeKey tag wire ++ rest) = some (tag, wire, rest) := by
  have hcode := code_lt wire
  have hkey : tag * 8 + WireType.code wire < 2 ^ 32 := by omega
  have hdiv : (tag * 8 + WireType.code wire) / 8 = tag := by omega
  have hmod : (tag * 8 + WireType.code wire) % 8 = WireType.code wire := by omega
  unfold decodeKey encodeKey
  rw [decodeVarint_encodeVarint (by omega)]
  simp only [hdiv, hmod, of_code]
  rw [if_neg (by omega)]
  rfl

theorem mergeVarint_encodeVarint {value : ℕ} (h : value < 2 ^ 64) (rest : Bytes) :
    mergeVarint .varint (encodeVarint value ++ rest) = some (value, rest) := by
  rw [mergeVarint, if_pos rfl, decodeVarint_encodeVarint h]

theorem mergeBytes_encodeBytes {bytes : Bytes} (h : bytes.length < 2 ^ 64) (rest : Bytes) :
    mergeBytes .lengthDelimited (encodeVarint bytes.length ++ (bytes ++ rest)) =
      some (bytes, rest) := by
  have hadvance : advance bytes.length (bytes ++ rest) = some rest := by
    rw [advance, if_neg (by simp), List.drop_left]
  rw [mergeBytes, if_pos rfl, decodeVarint_encodeVarint h]
  simp only [Option.bind_some, hadvance, Option.map_some, List.take_left]

/-! ### Lengths -/

theorem log2_or_one {value : ℕ} (h : value ≠ 0) : Nat.log2 (value ||| 1) = Nat.log2 value := by
  have hne : value ||| 1 ≠ 0 := fun h0 => h (Nat.or_eq_zero_iff.1 h0).1
  rw [Nat.log2_eq_iff hne]
  refine ⟨(Nat.log2_self_le h).trans Nat.left_le_or, ?_⟩
  exact Nat.or_lt_two_pow Nat.lt_log2_self (Nat.one_lt_two_pow (by omega))

/-- Shifting right lowers the highest bit. -/
theorem log2_div_two_pow {value : ℕ} (k : ℕ) (h : value / 2 ^ k ≠ 0) :
    Nat.log2 value = Nat.log2 (value / 2 ^ k) + k := by
  have hne : value ≠ 0 := by
    rintro rfl
    exact h (Nat.zero_div _)
  have hpos : 0 < 2 ^ k := Nat.two_pow_pos k
  rw [Nat.log2_eq_iff hne]
  constructor
  · rw [pow_add]
    exact (Nat.le_div_iff_mul_le hpos).1 (Nat.log2_self_le h)
  · rw [add_right_comm, pow_add]
    exact (Nat.div_lt_iff_lt_mul hpos).1 Nat.lt_log2_self

/-- The bytes of a varint, by its highest bit. -/
theorem length_varintBytes : ∀ (left : ℕ) {value : ℕ}, value ≠ 0 → value < 2 ^ (7 * left) →
    (varintBytes left value).length = Nat.log2 value / 7 + 1
  | 0, value, h, hlt => absurd hlt (by simp; omega)
  | left + 1, value, h, hlt => by
    rw [varintBytes]
    split_ifs with hsmall
    · have hlog : Nat.log2 value < 7 := (Nat.log2_lt h).2 hsmall
      rw [List.length_singleton]
      omega
    · have hne : value / 128 ≠ 0 := by omega
      have hdiv : value / 128 < 2 ^ (7 * left) := by
        rw [Nat.div_lt_iff_lt_mul (by norm_num), ← two_pow_add_seven]
        exact hlt
      have hlog : Nat.log2 value = Nat.log2 (value / 128) + 7 := log2_div_two_pow 7 hne
      rw [List.length_cons, length_varintBytes left hne hdiv]
      omega

/-- The length computed in advance is the length. -/
theorem length_encodeVarint {value : ℕ} (h : value < 2 ^ 64) :
    (encodeVarint value).length = encodedLenVarint value := by
  rcases Nat.eq_zero_or_pos value with rfl | hpos
  · rfl
  · have hne : value ≠ 0 := hpos.ne'
    have hlog : Nat.log2 value < 64 := (Nat.log2_lt hne).2 h
    rw [encodeVarint, encodedLenVarint, log2_or_one hne, length_varintBytes 10 hne
      (h.trans (by norm_num))]
    omega

/-- The wire type does not change the length of a key. -/
theorem length_encodeKey {tag : ℕ} (hpos : 0 < tag) (hlt : tag < 2 ^ 29) (wire : WireType) :
    (encodeKey tag wire).length = keyLen tag := by
  have hcode := code_lt wire
  have hlog : ∀ code < 8, Nat.log2 (tag * 8 + code) = Nat.log2 tag + 3 := by
    intro code hcode
    have hdiv : (tag * 8 + code) / 2 ^ 3 = tag := by omega
    rw [log2_div_two_pow 3 (by omega), hdiv]
  rw [encodeKey, length_encodeVarint (by omega), keyLen, encodedLenVarint, encodedLenVarint,
    log2_or_one (by omega), log2_or_one (by omega), hlog _ hcode, ← hlog 0 (by norm_num)]
  rfl

theorem length_encodeUint64 {tag value : ℕ} (hpos : 0 < tag) (hlt : tag < 2 ^ 29)
    (hvalue : value < 2 ^ 64) : (encodeUint64 tag value).length = encodedLenUint64 tag value := by
  unfold encodeUint64 encodedLenUint64
  split_ifs
  · rfl
  · rw [List.length_append, length_encodeKey hpos hlt, length_encodeVarint hvalue]

theorem length_encodeBytes {tag : ℕ} (hpos : 0 < tag) (hlt : tag < 2 ^ 29) {bytes : Bytes}
    (hbytes : bytes.length < 2 ^ 64) :
    (encodeBytes tag bytes).length = encodedLenBytes tag bytes.length := by
  rw [encodeBytes, List.length_append, List.length_append, length_encodeKey hpos hlt,
    length_encodeVarint hbytes, encodedLenBytes]

end ArkWire.Lib.ProtobufEncoding
