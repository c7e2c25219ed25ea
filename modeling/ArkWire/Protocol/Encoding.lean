import ArkWire.Lib.ProtobufEncoding
import ArkWire.Protocol.Contents

/-! # Encoding an envelope and decoding it again

`Side::encode` puts a body into the field of its envelope, measures the envelope and writes it. The
codec of the nested messages is a parameter (`Schema`), with what is known of it (`Lawful`): a
length is the length of the encoding, and an encoding whose length fits in 64 bits is decoded to
what was encoded.

A scalar at its default is not written, and an empty body is; the decoders of the peer tell the two
apart by the tag. -/

namespace ArkWire.Protocol.Encoding

open ArkWire.Lib.Protobuf ArkWire.Lib.ProtobufEncoding
open ArkWire.Protocol.Headers ArkWire.Protocol.Contents
open ArkWire.Protocol.Envelope (Side Header EncodeError)

/-! ### Messages -/

/-- The nested messages, `schema::Error` among them, and their codec: `encode_to_vec`, `encoded_len`
and `merge`, which goes on from a message or from the default. -/
structure Schema where
  Payload : Variant → Type
  encode : (v : Variant) → Payload v → Bytes
  encodedLen : (v : Variant) → Payload v → ℕ
  merge : (v : Variant) → Option (Payload v) → Bytes → Option (Payload v)
  Err : Type
  encodeErr : Err → Bytes
  encodedLenErr : Err → ℕ
  mergeErr : Option Err → Bytes → Option Err

/-- The nested messages round-trip. -/
structure Schema.Lawful (S : Schema) : Prop where
  encodedLen : ∀ v x, S.encodedLen v x = (S.encode v x).length
  merge : ∀ v x, (S.encode v x).length < 2 ^ 64 → S.merge v none (S.encode v x) = some x
  encodedLenErr : ∀ e, S.encodedLenErr e = (S.encodeErr e).length
  mergeErr : ∀ e, (S.encodeErr e).length < 2 ^ 64 → S.mergeErr none (S.encodeErr e) = some e

variable {S : Schema}

/-- `Message`. A `develop` body is bytes, every other one a nested message. -/
inductive Message (S : Schema) where
  | develop (bytes : Bytes)
  | nested (v : Variant) (h : v ≠ .develop) (payload : S.Payload v)

namespace Message

def variant : Message S → Variant
  | .develop _ => .develop
  | .nested v _ _ => v

/-- The bytes of the field. -/
def encode : Message S → Bytes
  | .develop bytes => bytes
  | .nested v _ payload => S.encode v payload

def encodedLen : Message S → ℕ
  | .develop bytes => bytes.length
  | .nested v _ payload => S.encodedLen v payload

/-- The payload of a variant. -/
def payload? (v : Variant) : Message S → Option (S.Payload v)
  | .develop _ => none
  | .nested w _ payload => if h : w = v then some (h ▸ payload) else none

end Message

/-! ### The encoder -/

/-- `From<Content> for Message` after the decoders of the sender's fields. -/
def Schema.nested (S : Schema) (sender : Side) : Nested S.Err (Message S) where
  mergeErr := S.mergeErr
  mergeContent field current bytes :=
    if h : variant sender field ≠ .develop then
      (S.merge (variant sender field) (current.bind (Message.payload? _)) bytes).map (.nested _ h)
    else none
  develop := .develop

/-- `HostToArk::encoded_len` and `ArkToHost::encoded_len`. -/
def encodedLen (e : Envelope S.Err (Message S)) : ℕ :=
  encodedLenUint64 idTag e.id +
    (e.err.elim 0 fun err => encodedLenBytes errTag (S.encodedLenErr err)) +
    e.content.elim 0 fun content => encodedLenBytes content.1.tag content.2.encodedLen

/-- `encode_to_vec`: the fields in the order of their tags. -/
def encodeToVec (e : Envelope S.Err (Message S)) : Bytes :=
  encodeUint64 idTag e.id ++
    ((e.err.elim [] fun err => encodeBytes errTag (S.encodeErr err)) ++
      e.content.elim [] fun content => encodeBytes content.1.tag content.2.encode)

/-- The envelope of a body, `from_parts` of its content or error. -/
def fromBody (side : Side) (id : ℕ) :
    Except S.Err (Message S) → Except EncodeError (Envelope S.Err (Message S))
  | .ok body =>
    match fieldOf side body.variant with
    | some field => .ok { id, content := some (field, body) }
    | none => .error (.wrongDirection body.variant.typeName)
  | .error err => .ok { id, err := some err }

/-- `Side::encode`, where `max` is `MAX_MESSAGE_SIZE`. -/
def encode (max : ℕ) (side : Side) (id : ℕ) (body : Except S.Err (Message S)) :
    Except EncodeError Bytes :=
  match fromBody side id body with
  | .error error => .error error
  | .ok envelope =>
    let size := encodedLen envelope
    if max < size then .error (.tooLarge size) else .ok (encodeToVec envelope)

/-- `Side::decode`. -/
def decode (S : Schema) (side : Side) (bytes : Bytes) :
    Except DecodeError (ℕ × Except S.Err (Message S)) :=
  (Headers.decode (S.nested side.peer) side bytes).map fun (id, body) => (id, body.map (·.value))

/-! ### Fields written and read -/

theorem tag_pos (field : Field) : 0 < field.tag :=
  (by decide : 0 < contentTag).trans_le (contentTag_le field)

theorem tag_lt (field : Field) : field.tag < 2 ^ 29 := by
  cases field <;> decide

theorem ofTag_tag_self (field : Field) : Field.ofTag field.tag = some field := by
  cases field <;> rfl

variable {E C : Type} {nested : Nested E C}

/-- The decoder takes an ID, or leaves the default. -/
theorem decode_encodeUint64 {e : Envelope E C} (he : e.id = 0) {id : ℕ} (hid : id < 2 ^ 64)
    (rest : Bytes) : Lib.Protobuf.decode (Envelope.mergeField nested) e
        (encodeUint64 idTag id ++ rest) =
      Lib.Protobuf.decode (Envelope.mergeField nested) { e with id } rest := by
  unfold encodeUint64
  split_ifs with hzero
  · rw [List.nil_append, hzero, ← he]
  · rw [List.append_assoc]
    refine decode_field (reads_envelope nested)
      (decodeKey_encodeKey (by decide) (by decide) .varint _) ?_
    rw [Envelope.mergeField, if_pos rfl, mergeVarint_encodeVarint hid]
    rfl

theorem decode_encodeErr {e : Envelope E C} {err : E} {bytes : Bytes}
    (hbytes : bytes.length < 2 ^ 64) (hm : nested.mergeErr e.err bytes = some err) (rest : Bytes) :
    Lib.Protobuf.decode (Envelope.mergeField nested) e (encodeBytes errTag bytes ++ rest) =
      Lib.Protobuf.decode (Envelope.mergeField nested) { e with err := some err } rest := by
  rw [encodeBytes, List.append_assoc, List.append_assoc]
  refine decode_field (reads_envelope nested)
    (decodeKey_encodeKey (by decide) (by decide) .lengthDelimited _) ?_
  rw [Envelope.mergeField, if_neg (by decide), if_pos rfl, mergeBytes_encodeBytes hbytes]
  simp only [Option.bind_some, hm, Option.map_some]

theorem decode_encodeContent {e : Envelope E C} {field : Field} {value : C} {bytes : Bytes}
    (hbytes : bytes.length < 2 ^ 64) (hm : e.mergeContent nested field bytes = some value)
    (rest : Bytes) :
    Lib.Protobuf.decode (Envelope.mergeField nested) e (encodeBytes field.tag bytes ++ rest) =
      Lib.Protobuf.decode (Envelope.mergeField nested) { e with content := some (field, value) }
        rest := by
  have hle := contentTag_le field
  have hid : field.tag ≠ idTag := fun h => absurd (h ▸ hle) (by decide)
  have herr : field.tag ≠ errTag := fun h => absurd (h ▸ hle) (by decide)
  rw [encodeBytes, List.append_assoc, List.append_assoc]
  refine decode_field (reads_envelope nested)
    (decodeKey_encodeKey (tag_pos field) (tag_lt field) .lengthDelimited _) ?_
  simp only [Envelope.mergeField, if_neg hid, if_neg herr, ofTag_tag_self,
    mergeBytes_encodeBytes hbytes, Option.bind_some, hm, Option.map_some]

theorem tags_encodeUint64 {tag value : ℕ} (hpos : 0 < tag) (hlt : tag < 2 ^ 29)
    (hvalue : value < 2 ^ 64) (rest : Bytes) :
    tags (encodeUint64 tag value ++ rest) = (if value = 0 then [] else [tag]) ++ tags rest := by
  unfold encodeUint64
  split_ifs with hzero
  · rfl
  · rw [List.append_assoc]
    exact tags_field (decodeKey_encodeKey hpos hlt .varint _)
      (mergeVarint_skip (mergeVarint_encodeVarint hvalue rest))

theorem tags_encodeBytes {tag : ℕ} (hpos : 0 < tag) (hlt : tag < 2 ^ 29) {bytes : Bytes}
    (hbytes : bytes.length < 2 ^ 64) (rest : Bytes) :
    tags (encodeBytes tag bytes ++ rest) = tag :: tags rest := by
  rw [encodeBytes, List.append_assoc, List.append_assoc]
  exact tags_field (decodeKey_encodeKey hpos hlt .lengthDelimited _)
    (mergeBytes_skip (mergeBytes_encodeBytes hbytes rest))

/-! ### The size of an envelope -/

/-- Every length fits in 64 bits. -/
structure Small (e : Envelope S.Err (Message S)) : Prop where
  id : e.id < 2 ^ 64
  err : ∀ err, e.err = some err → (S.encodeErr err).length < 2 ^ 64
  content : ∀ content, e.content = some content → content.2.encode.length < 2 ^ 64

theorem length_encode (hS : S.Lawful) (m : Message S) : m.encodedLen = m.encode.length := by
  cases m with
  | develop bytes => rfl
  | nested v h payload => exact hS.encodedLen v payload

/-- **The size computed is the size written.** -/
theorem length_encodeToVec (hS : S.Lawful) {e : Envelope S.Err (Message S)} (h : Small e) :
    (encodeToVec e).length = encodedLen e := by
  have hid : (encodeUint64 idTag e.id).length = encodedLenUint64 idTag e.id :=
    length_encodeUint64 (by decide) (by decide) h.id
  have herr : (e.err.elim [] fun err => encodeBytes errTag (S.encodeErr err)).length =
      e.err.elim 0 fun err => encodedLenBytes errTag (S.encodedLenErr err) := by
    cases he : e.err with
    | none => rfl
    | some err =>
      rw [Option.elim_some, Option.elim_some, hS.encodedLenErr]
      exact length_encodeBytes (by decide) (by decide) (h.err err he)
  have hcontent : (e.content.elim [] fun content =>
        encodeBytes content.1.tag content.2.encode).length =
      e.content.elim 0 fun content => encodedLenBytes content.1.tag content.2.encodedLen := by
    cases hc : e.content with
    | none => rfl
    | some content =>
      rw [Option.elim_some, Option.elim_some, length_encode hS]
      exact length_encodeBytes (tag_pos _) (tag_lt _) (h.content content hc)
  rw [encodeToVec, List.length_append, List.length_append, hid, herr, hcontent, encodedLen,
    Nat.add_assoc]

/-- What has a size of 64 bits has such lengths. -/
theorem small_of_encodedLen (hS : S.Lawful) {e : Envelope S.Err (Message S)}
    (hid : e.id < 2 ^ 64) (h : encodedLen e < 2 ^ 64) : Small e := by
  unfold encodedLen at h
  refine ⟨hid, ?_, ?_⟩
  · intro err he
    rw [he, Option.elim_some, encodedLenBytes, hS.encodedLenErr] at h
    omega
  · intro content hc
    rw [hc, Option.elim_some, encodedLenBytes, length_encode hS] at h
    omega

theorem small_of_length {e : Envelope S.Err (Message S)} (hid : e.id < 2 ^ 64)
    (h : (encodeToVec e).length < 2 ^ 64) : Small e := by
  rw [encodeToVec, List.length_append, List.length_append] at h
  refine ⟨hid, ?_, ?_⟩
  · intro err he
    rw [he, Option.elim_some, encodeBytes, List.length_append] at h
    omega
  · intro content hc
    rw [hc, Option.elim_some, encodeBytes, List.length_append] at h
    omega

/-- The gate counts the whole envelope. -/
theorem exceeds_iff (hS : S.Lawful) {max : ℕ} (hmax : max < 2 ^ 64)
    {e : Envelope S.Err (Message S)} (hid : e.id < 2 ^ 64) :
    max < encodedLen e ↔ max < (encodeToVec e).length := by
  by_cases hsmall : Small e
  · rw [length_encodeToVec hS hsmall]
  · have hlen : 2 ^ 64 ≤ encodedLen e :=
      Nat.le_of_not_lt fun h => hsmall (small_of_encodedLen hS hid h)
    have hvec : 2 ^ 64 ≤ (encodeToVec e).length :=
      Nat.le_of_not_lt fun h => hsmall (small_of_length hid h)
    omega

/-! ### The envelope of a body -/

/-- The envelopes of bodies. -/
inductive Holds (side : Side) (id : ℕ) :
    Except S.Err (Message S) → Envelope S.Err (Message S) → Prop
  | content {m : Message S} {field : Field} : variant side field = m.variant →
      Holds side id (.ok m) { id, content := some (field, m) }
  | err (err : S.Err) : Holds side id (.error err) { id, err := some err }

theorem fromBody_eq_ok {side : Side} {id : ℕ} {body : Except S.Err (Message S)}
    {e : Envelope S.Err (Message S)} (h : fromBody side id body = .ok e) :
    Holds side id body e := by
  cases body with
  | error err =>
    cases h
    exact .err err
  | ok m =>
    simp only [fromBody] at h
    split at h
    · next field hf =>
      cases h
      exact .content (variant_of_fieldOf hf)
    · cases h

/-- A body is refused for its direction alone. -/
theorem fromBody_eq_error {side : Side} {id : ℕ} {body : Except S.Err (Message S)}
    {error : EncodeError} : fromBody side id body = .error error ↔
      ∃ m, body = .ok m ∧ (∀ field, variant side field ≠ m.variant) ∧
        error = .wrongDirection m.variant.typeName := by
  cases body with
  | error err =>
    simp [fromBody]
  | ok m =>
    simp only [fromBody]
    cases hf : fieldOf side m.variant with
    | none => simp [fieldOf_eq_none.1 hf, eq_comm]
    | some field =>
      have hv := variant_of_fieldOf hf
      simp only [reduceCtorEq, false_iff]
      rintro ⟨m', hm, hnone, -⟩
      cases hm
      exact hnone field hv

/-- The decoders of the fields give a body back. -/
theorem mergeContent_encode (hS : S.Lawful) {side : Side} {field : Field} {m : Message S}
    (h : variant side field = m.variant) (hlen : m.encode.length < 2 ^ 64)
    {e : Envelope S.Err (Message S)} (he : e.content = none) :
    e.mergeContent (S.nested side) field m.encode = some m := by
  cases m with
  | develop bytes =>
    have hf : field = .develop := variant_eq_develop.1 h
    rw [Envelope.mergeContent, if_pos hf]
    rfl
  | nested v hv payload =>
    obtain rfl : variant side field = v := h
    have hf : field ≠ .develop := fun hf => hv (variant_eq_develop.2 hf)
    rw [Envelope.mergeContent, if_neg hf, Envelope.member, he]
    simp only [Schema.nested, dif_pos hv, Option.bind_none, Message.encode, hS.merge _ _ hlen,
      Option.map_some]

/-- **The peer decodes what was encoded.** -/
theorem decode_encodeToVec (hS : S.Lawful) {side : Side} {id : ℕ}
    {body : Except S.Err (Message S)} {e : Envelope S.Err (Message S)}
    (h : Holds side id body e) (hsmall : Small e) :
    decode S side.peer (encodeToVec e) = .ok (id, body) := by
  cases h with
  | @content m field hv =>
    have hmerge := mergeContent_encode hS hv (hsmall.content _ rfl)
      (e := ({ id } : Envelope S.Err (Message S))) rfl
    have hdecode : Lib.Protobuf.decode (Envelope.mergeField (S.nested side)) {}
        (encodeToVec { id, content := some (field, m) }) =
          some { id, content := some (field, m) } := by
      rw [encodeToVec, decode_encodeUint64 rfl hsmall.id, Option.elim_none, List.nil_append,
        Option.elim_some, ← List.append_nil (encodeBytes _ _),
        decode_encodeContent (hsmall.content _ rfl) hmerge, decode_nil]
    rw [decode, Headers.decode, Side.peer_peer, hdecode]
    rfl
  | err err =>
    have hdecode : Lib.Protobuf.decode (Envelope.mergeField (S.nested side)) {}
        (encodeToVec (S := S) { id, err := some err }) = some { id, err := some err } := by
      rw [encodeToVec, decode_encodeUint64 rfl hsmall.id, Option.elim_none, List.append_nil,
        Option.elim_some, ← List.append_nil (encodeBytes _ _),
        decode_encodeErr (hsmall.err _ rfl) (hS.mergeErr err (hsmall.err _ rfl)), decode_nil]
    rw [decode, Headers.decode, Side.peer_peer, hdecode]
    rfl

/-- Only known content is written. -/
theorem tags_encodeToVec {e : Envelope S.Err (Message S)} (hsmall : Small e) :
    ∀ tag ∈ tags (encodeToVec e), contentTag ≤ tag → Field.ofTag tag ≠ none := by
  intro tag htag hle
  rw [encodeToVec, tags_encodeUint64 (by decide) (by decide) hsmall.id, List.mem_append] at htag
  have hid : tag ≠ idTag := fun h => absurd (h ▸ hle) (by decide)
  have herr : tag ≠ errTag := fun h => absurd (h ▸ hle) (by decide)
  have hcontent : tag ∈ tags (e.content.elim [] fun content =>
      encodeBytes content.1.tag content.2.encode) → Field.ofTag tag ≠ none := by
    intro hmem
    cases hc : e.content with
    | none =>
      rw [hc] at hmem
      cases hmem
    | some content =>
      rw [hc, Option.elim_some, ← List.append_nil (encodeBytes _ _),
        tags_encodeBytes (tag_pos _) (tag_lt _) (hsmall.content _ hc)] at hmem
      obtain rfl := List.mem_singleton.1 hmem
      rw [ofTag_tag_self]
      exact Option.some_ne_none _
  rcases htag with htag | htag
  · split_ifs at htag
    · cases htag
    · exact absurd (List.mem_singleton.1 htag) hid
  · cases he : e.err with
    | none =>
      rw [he] at htag
      exact hcontent htag
    | some err =>
      rw [he, Option.elim_some,
        tags_encodeBytes (by decide) (by decide) (hsmall.err _ he), List.mem_cons] at htag
      exact htag.elim (fun h => absurd h herr) hcontent

/-- **The peer's header view is that of the body.** -/
theorem decodeHeader_encodeToVec (hS : S.Lawful) {side : Side} {id : ℕ}
    {body : Except S.Err (Message S)} {e : Envelope S.Err (Message S)}
    (h : Holds side id body e) (hsmall : Small e) :
    ∃ header, decodeHeader side.peer (encodeToVec e) = some header ∧ header.id = id ∧
      header.failed = !body.isOk ∧ header.unknown = false := by
  have hdecode := decode_encodeToVec hS h hsmall
  rw [decode, Side.peer_peer] at hdecode
  cases hd : Headers.decode (S.nested side) side.peer (encodeToVec e) with
  | error error =>
    rw [hd] at hdecode
    cases hdecode
  | ok result =>
    obtain ⟨id', body'⟩ := result
    rw [hd] at hdecode
    obtain ⟨rfl, rfl⟩ := Prod.mk.inj (Except.ok.inj hdecode)
    cases hh : decodeHeader side.peer (encodeToVec e) with
    | none =>
      obtain ⟨-, tag, htag, hle, hnone⟩ := (agree_refused hd).1 hh
      exact absurd hnone (tags_encodeToVec hsmall tag htag hle)
    | some header =>
      obtain ⟨hid, hfailed, hunknown, -⟩ := agree_both hh hd
      refine ⟨header, rfl, hid, ?_, hunknown⟩
      rw [hfailed]
      cases body' with
      | ok message => rfl
      | error err => rfl

/-! ### Both ways -/

/-- The IDs decoded are of 64 bits. -/
theorem decode_id_lt {E C : Type} {nested : Nested E C} {e e' : Envelope E C} {buf : Bytes}
    (hid : e.id < 2 ^ 64)
    (h : Lib.Protobuf.decode (Envelope.mergeField nested) e buf = some e') : e'.id < 2 ^ 64 := by
  refine decode_induction (reads_envelope nested)
    (P := fun e _ => e.id < 2 ^ 64 → e'.id < 2 ^ 64) (fun hid => hid) ?_ h hid
  intro e buf tag wire rest e₁ rest₁ _ hf _ ih hid
  refine ih ?_
  unfold Envelope.mergeField at hf
  split_ifs at hf
  · obtain ⟨⟨id, rest'⟩, hm, he⟩ := Option.map_eq_some_iff.mp hf
    cases he
    unfold mergeVarint at hm
    split_ifs at hm
    exact decodeVarint_lt hm
  · obtain ⟨⟨bytes, rest'⟩, -, hn⟩ := Option.bind_eq_some_iff.mp hf
    obtain ⟨err, -, he⟩ := Option.map_eq_some_iff.mp hn
    cases he
    exact hid
  · split at hf
    · obtain ⟨⟨bytes, rest'⟩, -, hn⟩ := Option.bind_eq_some_iff.mp hf
      obtain ⟨value, -, he⟩ := Option.map_eq_some_iff.mp hn
      cases he
      exact hid
    · obtain ⟨rest', -, he⟩ := Option.map_eq_some_iff.mp hf
      cases he
      exact hid

/-- The content decoded has the body of its field. -/
theorem decode_variant {sender : Side} {e e' : Envelope S.Err (Message S)} {buf : Bytes}
    (hc : ∀ field m, e.content = some (field, m) → variant sender field = m.variant)
    (h : Lib.Protobuf.decode (Envelope.mergeField (S.nested sender)) e buf = some e') :
    ∀ field m, e'.content = some (field, m) → variant sender field = m.variant := by
  refine decode_induction (reads_envelope (S.nested sender)) (P := fun e _ =>
    (∀ field m, e.content = some (field, m) → variant sender field = m.variant) →
      ∀ field m, e'.content = some (field, m) → variant sender field = m.variant)
    (fun hc => hc) ?_ h hc
  intro e buf tag wire rest e₁ rest₁ _ hf _ ih hc
  refine ih ?_
  unfold Envelope.mergeField at hf
  split_ifs at hf
  · obtain ⟨⟨id, rest'⟩, -, he⟩ := Option.map_eq_some_iff.mp hf
    cases he
    exact hc
  · obtain ⟨⟨bytes, rest'⟩, -, hn⟩ := Option.bind_eq_some_iff.mp hf
    obtain ⟨err, -, he⟩ := Option.map_eq_some_iff.mp hn
    cases he
    exact hc
  · split at hf
    · next field _ =>
      obtain ⟨⟨bytes, rest'⟩, -, hn⟩ := Option.bind_eq_some_iff.mp hf
      obtain ⟨value, hvalue, he⟩ := Option.map_eq_some_iff.mp hn
      cases he
      rintro _ _ ⟨⟩
      unfold Envelope.mergeContent at hvalue
      split_ifs at hvalue with hdevelop
      · cases hvalue
        exact variant_eq_develop.2 hdevelop
      · simp only [Schema.nested] at hvalue
        split_ifs at hvalue with hv
        obtain ⟨payload, -, rfl⟩ := Option.map_eq_some_iff.mp hvalue
        rfl
    · obtain ⟨rest', -, he⟩ := Option.map_eq_some_iff.mp hf
      cases he
      exact hc

/-- **What was decoded has an envelope of its sender.** -/
theorem fromBody_decode {side : Side} {buf : Bytes} {id : ℕ} {body : Except S.Err (Message S)}
    (h : decode S side buf = .ok (id, body)) :
    id < 2 ^ 64 ∧ ∃ e, fromBody side.peer id body = .ok e := by
  unfold decode at h
  cases hd : Headers.decode (S.nested side.peer) side buf with
  | error error =>
    rw [hd] at h
    cases h
  | ok result =>
    rw [hd] at h
    obtain ⟨id', body'⟩ := result
    obtain ⟨rfl, rfl⟩ := Prod.mk.inj (Except.ok.inj h)
    obtain ⟨e, he, hbody⟩ := decode_eq_ok hd
    have hid := decode_id_lt (Nat.two_pow_pos 64) he
    have hvariant := decode_variant (fun _ _ h => (by cases h)) he
    obtain ⟨rfl, ⟨field, m, hc, -, rfl⟩ | ⟨err, -, -, rfl⟩⟩ := body_eq_ok hbody
    · have hfield : fieldOf side.peer m.variant = some field := by
        rw [← hvariant field m hc]
        exact fieldOf_variant side.peer field
      refine ⟨hid, { id := e.id, content := some (field, m) }, ?_⟩
      simp only [Except.map, fromBody, hfield]
    · exact ⟨hid, _, rfl⟩

/-- **What `Side::encode` does with a body**, and the peer with the result. -/
structure Encodes (S : Schema) (max : ℕ) (side : Side) (id : ℕ)
    (body : Except S.Err (Message S)) : Prop where
  wrongDirection : (∃ name, encode max side id body = .error (.wrongDirection name)) ↔
    ∃ m, body = .ok m ∧ ∀ field, variant side field ≠ m.variant
  tooLarge : (∃ size, encode max side id body = .error (.tooLarge size)) ↔
    ∃ e, fromBody side id body = .ok e ∧ max < (encodeToVec e).length
  ok : ∀ bytes, encode max side id body = .ok bytes →
    (∃ e, fromBody side id body = .ok e ∧ bytes = encodeToVec e ∧ bytes.length = encodedLen e) ∧
      (∃ header, decodeHeader side.peer bytes = some header ∧ header.id = id ∧
        header.failed = !body.isOk ∧ header.unknown = false) ∧
      decode S side.peer bytes = .ok (id, body)

theorem encodes (hS : S.Lawful) {max : ℕ} (hmax : max < 2 ^ 64) (side : Side) {id : ℕ}
    (hid : id < 2 ^ 64) (body : Except S.Err (Message S)) : Encodes S max side id body := by
  cases hfrom : fromBody side id body with
  | error error =>
    have hencode : encode max side id body = .error error := by rw [encode, hfrom]
    obtain ⟨m, hm, hnone, rfl⟩ := fromBody_eq_error.1 hfrom
    refine ⟨?_, ?_, ?_⟩
    · rw [hencode]
      exact ⟨fun _ => ⟨m, hm, hnone⟩, fun _ => ⟨_, rfl⟩⟩
    · rw [hencode]
      simp [hfrom]
    · intro bytes hbytes
      rw [hencode] at hbytes
      cases hbytes
  | ok e =>
    have hholds := fromBody_eq_ok hfrom
    have heid : e.id < 2 ^ 64 := by
      cases hholds with
      | content _ => exact hid
      | err _ => exact hid
    have hdirection : ¬ ∃ m, body = .ok m ∧ ∀ field, variant side field ≠ m.variant := by
      rintro ⟨m, rfl, hnone⟩
      cases hholds with
      | content hv => exact hnone _ hv
    by_cases hbig : max < encodedLen e
    · have hencode : encode max side id body = .error (.tooLarge (encodedLen e)) := by
        simp only [encode, hfrom, if_pos hbig]
      refine ⟨?_, ?_, ?_⟩
      · rw [hencode]
        simp [hdirection]
      · rw [hencode]
        exact ⟨fun _ => ⟨e, hfrom, (exceeds_iff hS hmax heid).1 hbig⟩, fun _ => ⟨_, rfl⟩⟩
      · intro bytes hbytes
        rw [hencode] at hbytes
        cases hbytes
    · have hencode : encode max side id body = .ok (encodeToVec e) := by
        simp only [encode, hfrom, if_neg hbig]
      have hsmall : Small e := small_of_encodedLen hS heid (by omega)
      refine ⟨?_, ?_, ?_⟩
      · rw [hencode]
        simp [hdirection]
      · rw [hencode]
        simp only [reduceCtorEq, exists_false, false_iff]
        rintro ⟨e', he', hlen⟩
        obtain rfl := Except.ok.inj (hfrom.symm.trans he')
        exact hbig ((exceeds_iff hS hmax heid).2 hlen)
      · intro bytes hbytes
        rw [hencode] at hbytes
        cases hbytes
        exact ⟨⟨e, hfrom, rfl, length_encodeToVec hS hsmall⟩,
          decodeHeader_encodeToVec hS hholds hsmall, decode_encodeToVec hS hholds hsmall⟩

/-- **Envelopes round-trip**, for either side. A body is refused for its direction exactly when it
has no field there and for its size exactly when its envelope exceeds the limit, and otherwise the
peer's decoders give it back. What the peer's decoders accept, the side encodes again within the
limit, to bytes that are decoded to the same. -/
theorem envelopes_round_trip (S : Schema) (hS : S.Lawful) (max : ℕ) (hmax : max < 2 ^ 64)
    (side : Side) :
    (∀ id < 2 ^ 64, ∀ body : Except S.Err (Message S), Encodes S max side id body) ∧
      ∀ buf header id body, decodeHeader side.peer buf = some header →
        decode S side.peer buf = .ok (id, body) →
        ∃ e, fromBody side id body = .ok e ∧ ((encodeToVec e).length ≤ max →
          encode max side id body = .ok (encodeToVec e) ∧
            decode S side.peer (encodeToVec e) = .ok (id, body)) := by
  refine ⟨fun id hid body => encodes hS hmax side hid body, ?_⟩
  intro buf header id body _ hdecode
  obtain ⟨hid, e, hfrom⟩ := fromBody_decode hdecode
  rw [Side.peer_peer] at hfrom
  refine ⟨e, hfrom, fun hlen => ?_⟩
  have hsmall : Small e := by
    refine small_of_length ?_ (by omega)
    cases fromBody_eq_ok hfrom with
    | content _ => exact hid
    | err _ => exact hid
  refine ⟨?_, decode_encodeToVec hS (fromBody_eq_ok hfrom) hsmall⟩
  have hfits : ¬ max < encodedLen e := by
    rw [← length_encodeToVec hS hsmall]
    exact Nat.not_lt.2 hlen
  simp only [encode, hfrom, if_neg hfits]

/-- A message of one field, which is not written at zero. -/
def encodeCounter (n : Fin 128) : Bytes := if n = 0 then [] else [0x08, UInt8.ofNat n]

def mergeCounter (base : Option (Fin 128)) : Bytes → Option (Fin 128)
  | [] => some (base.getD 0)
  | [0x08, b] => if h : b.toNat < 128 then some ⟨b.toNat, h⟩ else none
  | _ => none

def counters : Schema where
  Payload _ := Fin 128
  encode _ := encodeCounter
  encodedLen _ n := (encodeCounter n).length
  merge _ := mergeCounter
  Err := Fin 128
  encodeErr := encodeCounter
  encodedLenErr n := (encodeCounter n).length
  mergeErr := mergeCounter

theorem counters_lawful : counters.Lawful := by
  have hmerge : ∀ n : Fin 128, mergeCounter none (encodeCounter n) = some n := by decide +kernel
  exact ⟨fun _ _ => rfl, fun _ n _ => hmerge n, fun _ => rfl, fun n _ => hmerge n⟩

/-- The body of a response. -/
def counted (n : Fin 128) : Message counters := .nested .deviceInfoResponse (by decide) n

/-- The peer decodes an encoded body, also with its fields the other way round and an ID of two
bytes, and encodes what it decodes. A body too large for its gate, or of the other direction, is
refused. -/
theorem envelopes_round_trip_counters :
    encode 99 .server 5 (.ok (counted 7)) = .ok [8, 5, 138, 16, 2, 8, 7] ∧
      decode counters .client [8, 5, 138, 16, 2, 8, 7] = .ok (5, .ok (counted 7)) ∧
      (∃ size, encode 6 .server 5 (.ok (counted 7)) = .error (.tooLarge size)) ∧
      (∃ name, encode 99 .client 5 (.ok (counted 7)) = .error (.wrongDirection name)) ∧
      decode counters .client [138, 16, 2, 8, 7, 8, 0x85, 0] = .ok (5, .ok (counted 7)) ∧
      ∃ e, fromBody .server 5 (.ok (counted 7)) = .ok e ∧
        encode 99 .server 5 (.ok (counted 7)) = .ok (encodeToVec e) ∧
        decode counters .client (encodeToVec e) = .ok (5, .ok (counted 7)) := by
  have hround := envelopes_round_trip counters counters_lawful 99 (by norm_num)
  have hencode : encode 99 .server 5 (.ok (counted 7)) = .ok [8, 5, 138, 16, 2, 8, 7] := rfl
  have hback := ((hround .server).1 5 (by norm_num) (.ok (counted 7))).ok _ hencode
  have htight := (envelopes_round_trip counters counters_lawful 6 (by norm_num) .server).1 5
    (by norm_num) (.ok (counted 7))
  have hlarge : ∃ size, encode 6 .server 5 (.ok (counted 7)) = .error (.tooLarge size) :=
    htight.tooLarge.2 ⟨_, rfl, by decide⟩
  have hwrong : ∃ name, encode 99 .client 5 (.ok (counted 7)) = .error (.wrongDirection name) :=
    ((hround .client).1 5 (by norm_num) (.ok (counted 7))).wrongDirection.2
      ⟨counted 7, rfl, by intro field; cases field <;> decide⟩
  have hswapped : decode counters .client [138, 16, 2, 8, 7, 8, 0x85, 0] =
      .ok (5, .ok (counted 7)) :=
    rfl
  have hheader : decodeHeader .client [138, 16, 2, 8, 7, 8, 0x85, 0] =
      some ⟨5, false, "device_info", false⟩ := rfl
  obtain ⟨e, he, hagain⟩ := (hround .server).2 _ _ _ _ hheader hswapped
  have hlen : (encodeToVec e).length ≤ 99 := by
    cases he
    decide
  exact ⟨hencode, hback.2.2, hlarge, hwrong, hswapped, e, he, hagain hlen⟩

end ArkWire.Protocol.Encoding
