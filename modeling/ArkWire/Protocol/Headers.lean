import ArkWire.Lib.Protobuf
import ArkWire.Protocol.Envelope

/-! # The header view and the full decoder of an envelope

`decodeHeader` routes an envelope by an opaque view, in which nested messages are bytes, and by a
scan of the keys for content this build does not know. `decode` decodes the same bytes later, nested
messages included. The two envelopes, `HostToArk` and `ArkToHost`, number and name their fields
alike; a body decoded from one is a message of its sender.

The decoders of the nested messages are a parameter (`Nested`). -/

namespace ArkWire.Protocol.Headers

open ArkWire.Lib.Protobuf
open ArkWire.Protocol.Envelope (Side Header)

/-! ### The schema -/

/-- The members of the oneof `content`. -/
inductive Field where
  | onboard
  | deviceInfo
  | cloudSyncStart
  | cloudSyncFinish
  | genuinityProof
  | firmwareUpdatePrep
  | firmwareUpdateInit
  | firmwareUpdateUpload
  | firmwareUpdateVerify
  | firmwareUpdateInstall
  | pairingAuth
  | pairingSetAppId
  | pairingSetAppStorage
  | pairingAckArkStorage
  | pairingAccept
  | pairingComplete
  | relayJoin
  | relayInbound
  | relayOutbound
  | unlock
  | execCreate
  | execLoad
  | execStart
  | execStatus
  | execCancel
  | execResult
  | execOutput
  | execModuleSize
  | execModuleRead
  | slotList
  | slotRepair
  | slotDelete
  | slotIdentify
  | slotUploadStart
  | slotUploadChunk
  | slotUploadCancel
  | slotUploadProcess
  | datasetPaths
  | develop
  deriving DecidableEq, Repr

def Field.tag : Field → ℕ
  | .onboard => 0x100
  | .deviceInfo => 0x101
  | .cloudSyncStart => 0x102
  | .cloudSyncFinish => 0x103
  | .genuinityProof => 0x104
  | .firmwareUpdatePrep => 0x201
  | .firmwareUpdateInit => 0x202
  | .firmwareUpdateUpload => 0x203
  | .firmwareUpdateVerify => 0x204
  | .firmwareUpdateInstall => 0x205
  | .pairingAuth => 0x301
  | .pairingSetAppId => 0x302
  | .pairingSetAppStorage => 0x303
  | .pairingAckArkStorage => 0x304
  | .pairingAccept => 0x305
  | .pairingComplete => 0x306
  | .relayJoin => 0x401
  | .relayInbound => 0x402
  | .relayOutbound => 0x403
  | .unlock => 0x501
  | .execCreate => 0x502
  | .execLoad => 0x503
  | .execStart => 0x504
  | .execStatus => 0x505
  | .execCancel => 0x506
  | .execResult => 0x507
  | .execOutput => 0x508
  | .execModuleSize => 0x509
  | .execModuleRead => 0x50a
  | .slotList => 0x601
  | .slotRepair => 0x602
  | .slotDelete => 0x603
  | .slotIdentify => 0x604
  | .slotUploadStart => 0x605
  | .slotUploadChunk => 0x606
  | .slotUploadCancel => 0x607
  | .slotUploadProcess => 0x608
  | .datasetPaths => 0x701
  | .develop => 0x1000

/-- The names of the schema, for log lines. -/
def Field.name : Field → String
  | .onboard => "onboard"
  | .deviceInfo => "device_info"
  | .cloudSyncStart => "cloud_sync_start"
  | .cloudSyncFinish => "cloud_sync_finish"
  | .genuinityProof => "genuinity_proof"
  | .firmwareUpdatePrep => "firmware_update_prep"
  | .firmwareUpdateInit => "firmware_update_init"
  | .firmwareUpdateUpload => "firmware_update_upload"
  | .firmwareUpdateVerify => "firmware_update_verify"
  | .firmwareUpdateInstall => "firmware_update_install"
  | .pairingAuth => "pairing_auth"
  | .pairingSetAppId => "pairing_set_app_id"
  | .pairingSetAppStorage => "pairing_set_app_storage"
  | .pairingAckArkStorage => "pairing_ack_ark_storage"
  | .pairingAccept => "pairing_accept"
  | .pairingComplete => "pairing_complete"
  | .relayJoin => "relay_join"
  | .relayInbound => "relay_inbound"
  | .relayOutbound => "relay_outbound"
  | .unlock => "unlock"
  | .execCreate => "exec_create"
  | .execLoad => "exec_load"
  | .execStart => "exec_start"
  | .execStatus => "exec_status"
  | .execCancel => "exec_cancel"
  | .execResult => "exec_result"
  | .execOutput => "exec_output"
  | .execModuleSize => "exec_module_size"
  | .execModuleRead => "exec_module_read"
  | .slotList => "slot_list"
  | .slotRepair => "slot_repair"
  | .slotDelete => "slot_delete"
  | .slotIdentify => "slot_identify"
  | .slotUploadStart => "slot_upload_start"
  | .slotUploadChunk => "slot_upload_chunk"
  | .slotUploadCancel => "slot_upload_cancel"
  | .slotUploadProcess => "slot_upload_process"
  | .datasetPaths => "dataset_paths"
  | .develop => "develop"

def Field.all : List Field :=
  [.onboard, .deviceInfo, .cloudSyncStart, .cloudSyncFinish, .genuinityProof,
    .firmwareUpdatePrep, .firmwareUpdateInit, .firmwareUpdateUpload, .firmwareUpdateVerify,
    .firmwareUpdateInstall, .pairingAuth, .pairingSetAppId, .pairingSetAppStorage,
    .pairingAckArkStorage, .pairingAccept, .pairingComplete, .relayJoin, .relayInbound,
    .relayOutbound, .unlock, .execCreate, .execLoad, .execStart, .execStatus, .execCancel,
    .execResult, .execOutput, .execModuleSize, .execModuleRead, .slotList, .slotRepair,
    .slotDelete, .slotIdentify, .slotUploadStart, .slotUploadChunk, .slotUploadCancel,
    .slotUploadProcess, .datasetPaths, .develop]

/-- The content field with a tag. -/
def Field.ofTag (tag : ℕ) : Option Field := Field.all.find? fun field => field.tag = tag

/-- The tags of `id` and `err`. -/
def idTag : ℕ := 1

def errTag : ℕ := 2

/-- The content oneofs number their fields from here up. -/
def contentTag : ℕ := 0x100

/-! ### The opaque view -/

/-- `opaque::HostToArk` and `opaque::ArkToHost`. -/
structure Opaque where
  id : ℕ := 0
  err : Option Bytes := none
  content : Option (Field × Bytes) := none

def Opaque.mergeField : MergeField Opaque := fun e tag wire buf =>
  if tag = idTag then (mergeVarint wire buf).map fun (id, rest) => ({ e with id }, rest)
  else if tag = errTag then
    (mergeBytes wire buf).map fun (bytes, rest) => ({ e with err := some bytes }, rest)
  else
    match Field.ofTag tag with
    | some field =>
      (mergeBytes wire buf).map fun (bytes, rest) =>
        ({ e with content := some (field, bytes) }, rest)
    | none => (skip wire tag buf).map fun rest => (e, rest)

/-- The scan of `decode_header` for a tag of the content range. -/
def scanLoop : ℕ → Bytes → Bool
  | 0, _ => false
  | fuel + 1, rest =>
    match decodeKey rest with
    | none => false
    | some (tag, wire, rest) =>
      if contentTag ≤ tag then true
      else
        match skip wire tag rest with
        | none => false
        | some rest => scanLoop fuel rest

def scan (bytes : Bytes) : Bool := scanLoop bytes.length bytes

/-- The header of a view, and whether it has exactly one body. -/
def Opaque.header (e : Opaque) (unknown : Bool) : Option Header :=
  let payload := e.content.map fun content => content.1.name
  let failed := e.err.isSome
  if (payload.isSome || unknown) = failed then none
  else some {
    id := e.id
    failed
    payload := (payload.or (if unknown then some "unknown" else none)).or
      (if failed then some "err" else none)
    unknown }

/-- `Side::decode_header`. Every failure is `Error::Malformed`. -/
def decodeHeader (_ : Side) (bytes : Bytes) : Option Header :=
  match Lib.Protobuf.decode Opaque.mergeField {} bytes with
  | none => none
  | some envelope => envelope.header (envelope.content.isNone && scan bytes)

/-! ### The full decoder -/

/-- The nested decoders: how bytes are merged into an error or into a message of a field, or fail
to, and a `develop` body, which is no message. -/
structure Nested (E C : Type) where
  mergeErr : Option E → Bytes → Option E
  mergeContent : Field → Option C → Bytes → Option C
  develop : Bytes → C

/-- `HostToArk` and `ArkToHost`. -/
structure Envelope (E C : Type) where
  id : ℕ := 0
  err : Option E := none
  content : Option (Field × C) := none

variable {E C : Type}

/-- The value a field of the oneof is merged into: only that of the same member. -/
def Envelope.member (e : Envelope E C) (field : Field) : Option C :=
  match e.content with
  | some (other, value) => if other = field then some value else none
  | none => none

/-- `Content::merge`. -/
def Envelope.mergeContent (nested : Nested E C) (e : Envelope E C) (field : Field) (bytes : Bytes) :
    Option C :=
  if field = .develop then some (nested.develop bytes)
  else nested.mergeContent field (e.member field) bytes

def Envelope.mergeField (nested : Nested E C) : MergeField (Envelope E C) := fun e tag wire buf =>
  if tag = idTag then (mergeVarint wire buf).map fun (id, rest) => ({ e with id }, rest)
  else if tag = errTag then
    (mergeBytes wire buf).bind fun (bytes, rest) =>
      (nested.mergeErr e.err bytes).map fun err => ({ e with err := some err }, rest)
  else
    match Field.ofTag tag with
    | some field =>
      (mergeBytes wire buf).bind fun (bytes, rest) =>
        (e.mergeContent nested field bytes).map fun value =>
          ({ e with content := some (field, value) }, rest)
    | none => (skip wire tag buf).map fun rest => (e, rest)

/-- `Message`: a body of its sender. -/
structure Message (C : Type) where
  sender : Side
  field : Field
  value : C

/-- `Message::field_name`. -/
def Message.fieldName (m : Message C) : String := m.field.name

inductive DecodeError where
  | protobuf
  | body
  deriving DecidableEq

/-- Exactly one of content and error. -/
def Envelope.body (side : Side) (e : Envelope E C) :
    Except DecodeError (ℕ × Except E (Message C)) :=
  match e.content, e.err with
  | some (field, value), none => .ok (e.id, .ok ⟨side.peer, field, value⟩)
  | none, some error => .ok (e.id, .error error)
  | _, _ => .error .body

/-- `Side::decode`. -/
def decode (nested : Nested E C) (side : Side) (bytes : Bytes) :
    Except DecodeError (ℕ × Except E (Message C)) :=
  match Lib.Protobuf.decode (Envelope.mergeField nested) {} bytes with
  | none => .error .protobuf
  | some envelope => envelope.body side

/-- **A nested message is invalid**: the first field of these bytes, or a later one, is an error or
a content message whose bytes its decoder refuses. -/
inductive Invalid (nested : Nested E C) : Envelope E C → Bytes → Prop
  | err {e buf wire rest bytes rest'} : decodeKey buf = some (errTag, wire, rest) →
    mergeBytes wire rest = some (bytes, rest') → nested.mergeErr e.err bytes = none →
    Invalid nested e buf
  | content {e buf tag wire rest field bytes rest'} : decodeKey buf = some (tag, wire, rest) →
    Field.ofTag tag = some field → field ≠ .develop → mergeBytes wire rest = some (bytes, rest') →
    nested.mergeContent field (e.member field) bytes = none → Invalid nested e buf
  | later {e buf tag wire rest e' rest'} : decodeKey buf = some (tag, wire, rest) →
    e.mergeField nested tag wire rest = some (e', rest') → Invalid nested e' rest' →
    Invalid nested e buf

/-! ### What one field does -/

theorem ofTag_tag {tag : ℕ} {field : Field} (h : Field.ofTag tag = some field) :
    field.tag = tag := by
  have hfind := List.find?_some h
  exact of_decide_eq_true hfind

theorem contentTag_le (field : Field) : contentTag ≤ field.tag := by
  cases field <;> decide

/-- Content fields are apart from the envelope's own. -/
theorem contentTag_le_of_ofTag {tag : ℕ} {field : Field} (h : Field.ofTag tag = some field) :
    contentTag ≤ tag := by
  rw [← ofTag_tag h]
  exact contentTag_le field

theorem mergeVarint_skip {wire : WireType} {tag value : ℕ} {buf rest : Bytes}
    (h : mergeVarint wire buf = some (value, rest)) : skip wire tag buf = some rest := by
  unfold mergeVarint at h
  split_ifs at h with hw
  subst hw
  show (decodeVarint buf).map Prod.snd = some rest
  rw [h]
  rfl

theorem mergeBytes_skip {wire : WireType} {tag : ℕ} {buf bytes rest : Bytes}
    (h : mergeBytes wire buf = some (bytes, rest)) : skip wire tag buf = some rest := by
  unfold mergeBytes at h
  split_ifs at h with hw
  subst hw
  obtain ⟨⟨len, rest'⟩, hv, ha⟩ := Option.bind_eq_some_iff.mp h
  obtain ⟨left, hleft, he⟩ := Option.map_eq_some_iff.mp ha
  cases he
  show (decodeVarint buf).bind (fun (len, rest) => advance len rest) = some rest
  rw [hv]
  exact hleft

/-- What a field does to a view of an envelope. -/
inductive Takes (e : Opaque) (tag : ℕ) (wire : WireType) (buf : Bytes) : Opaque → Bytes → Prop
  | id {id rest} : tag = idTag → mergeVarint wire buf = some (id, rest) →
    Takes e tag wire buf { e with id } rest
  | err {bytes rest} : tag = errTag → mergeBytes wire buf = some (bytes, rest) →
    Takes e tag wire buf { e with err := some bytes } rest
  | content {field bytes rest} : Field.ofTag tag = some field →
    mergeBytes wire buf = some (bytes, rest) →
    Takes e tag wire buf { e with content := some (field, bytes) } rest
  | other {rest} : tag ≠ idTag → tag ≠ errTag → Field.ofTag tag = none →
    skip wire tag buf = some rest → Takes e tag wire buf e rest

theorem opaque_cases {e e' : Opaque} {tag : ℕ} {wire : WireType} {buf rest : Bytes}
    (h : e.mergeField tag wire buf = some (e', rest)) : Takes e tag wire buf e' rest := by
  unfold Opaque.mergeField at h
  split_ifs at h with hid herr
  · obtain ⟨⟨id, rest'⟩, hm, he⟩ := Option.map_eq_some_iff.mp h
    cases he
    exact .id hid hm
  · obtain ⟨⟨bytes, rest'⟩, hm, he⟩ := Option.map_eq_some_iff.mp h
    cases he
    exact .err herr hm
  · split at h
    · next field hf =>
      obtain ⟨⟨bytes, rest'⟩, hm, he⟩ := Option.map_eq_some_iff.mp h
      cases he
      exact .content hf hm
    · next hf =>
      obtain ⟨rest', hs, he⟩ := Option.map_eq_some_iff.mp h
      cases he
      exact .other hid herr hf hs

theorem Takes.skip {e e' : Opaque} {tag : ℕ} {wire : WireType} {buf rest : Bytes}
    (h : Takes e tag wire buf e' rest) : Lib.Protobuf.skip wire tag buf = some rest := by
  cases h with
  | id _ hm => exact mergeVarint_skip hm
  | err _ hm => exact mergeBytes_skip hm
  | content _ hm => exact mergeBytes_skip hm
  | other _ _ _ hs => exact hs

theorem reads_opaque : Reads Opaque.mergeField :=
  fun _ _ _ _ _ _ h => (opaque_cases h).skip

/-- The two views of the same bytes. -/
structure Alike (o : Opaque) (e : Envelope E C) : Prop where
  id : o.id = e.id
  err : o.err.isSome = e.err.isSome
  content : o.content.map Prod.fst = e.content.map Prod.fst

/-- **The full decoder takes a field as the view does**, unless a nested message is invalid. -/
theorem alike_field {nested : Nested E C} {o o' : Opaque} {e : Envelope E C} (hl : Alike o e)
    {tag : ℕ} {wire : WireType} {buf rest rest' : Bytes}
    (hk : decodeKey buf = some (tag, wire, rest))
    (h : Takes o tag wire rest o' rest') :
    (∃ e', e.mergeField nested tag wire rest = some (e', rest') ∧ Alike o' e') ∨
      Invalid nested e buf := by
  cases h with
  | @id id _ htag hm =>
    subst htag
    refine .inl ⟨{ e with id }, ?_, rfl, hl.err, hl.content⟩
    rw [Envelope.mergeField, if_pos rfl, hm]
    rfl
  | @err bytes _ htag hm =>
    subst htag
    cases hn : nested.mergeErr e.err bytes with
    | none => exact .inr (.err hk hm hn)
    | some err =>
      refine .inl ⟨{ e with err := some err }, ?_, hl.id, rfl, hl.content⟩
      rw [Envelope.mergeField, if_neg (by decide), if_pos rfl, hm]
      simp only [Option.bind_some, hn, Option.map_some]
  | @content field bytes _ hf hm =>
    have hle := contentTag_le_of_ofTag hf
    have hid : tag ≠ idTag := fun h => absurd (h ▸ hle) (by decide)
    have herr : tag ≠ errTag := fun h => absurd (h ▸ hle) (by decide)
    cases hn : e.mergeContent nested field bytes with
    | none =>
      unfold Envelope.mergeContent at hn
      split_ifs at hn with hd
      exact .inr (.content hk hf hd hm hn)
    | some value =>
      refine .inl ⟨{ e with content := some (field, value) }, ?_, hl.id, hl.err, rfl⟩
      simp only [Envelope.mergeField, if_neg hid, if_neg herr, hf, hm, Option.bind_some, hn]
      rfl
  | other hid herr hf hs =>
    refine .inl ⟨e, ?_, hl⟩
    simp only [Envelope.mergeField, if_neg hid, if_neg herr, hf, hs]
    rfl

/-- What the full decoder takes, the view takes. -/
theorem field_alike {nested : Nested E C} {o : Opaque} {e e' : Envelope E C} (hl : Alike o e)
    {tag : ℕ} {wire : WireType} {buf rest : Bytes}
    (h : e.mergeField nested tag wire buf = some (e', rest)) :
    ∃ o', o.mergeField tag wire buf = some (o', rest) ∧ Alike o' e' := by
  unfold Envelope.mergeField at h
  split_ifs at h with hid herr
  · obtain ⟨⟨id, rest'⟩, hm, he⟩ := Option.map_eq_some_iff.mp h
    cases he
    refine ⟨{ o with id }, ?_, rfl, hl.err, hl.content⟩
    rw [Opaque.mergeField, if_pos hid, hm]
    rfl
  · obtain ⟨⟨bytes, rest'⟩, hm, hn⟩ := Option.bind_eq_some_iff.mp h
    obtain ⟨err, -, he⟩ := Option.map_eq_some_iff.mp hn
    cases he
    refine ⟨{ o with err := some bytes }, ?_, hl.id, rfl, hl.content⟩
    rw [Opaque.mergeField, if_neg hid, if_pos herr, hm]
    rfl
  · split at h
    · next field hf =>
      obtain ⟨⟨bytes, rest'⟩, hm, hn⟩ := Option.bind_eq_some_iff.mp h
      obtain ⟨value, -, he⟩ := Option.map_eq_some_iff.mp hn
      cases he
      refine ⟨{ o with content := some (field, bytes) }, ?_, hl.id, hl.err, rfl⟩
      simp only [Opaque.mergeField, if_neg hid, if_neg herr, hf, hm]
      rfl
    · next hf =>
      obtain ⟨rest', hs, he⟩ := Option.map_eq_some_iff.mp h
      cases he
      refine ⟨o, ?_, hl⟩
      simp only [Opaque.mergeField, if_neg hid, if_neg herr, hf, hs]
      rfl

theorem reads_envelope (nested : Nested E C) : Reads (Envelope.mergeField nested) := by
  intro e tag wire buf e' rest h
  have hl : Alike ⟨e.id, e.err.map fun _ => [], e.content.map fun c => (c.1, [])⟩ e := by
    refine ⟨rfl, ?_, ?_⟩
    · rw [Option.isSome_map]
    · rw [Option.map_map]
      rfl
  obtain ⟨o', ho, -⟩ := field_alike hl h
  exact (opaque_cases ho).skip

/-! ### The whole envelope -/

/-- What is decoded in full has a view. -/
theorem decode_alike {nested : Nested E C} {o : Opaque} {e e' : Envelope E C} (hl : Alike o e)
    {buf : Bytes} (h : Lib.Protobuf.decode (Envelope.mergeField nested) e buf = some e') :
    ∃ o', Lib.Protobuf.decode Opaque.mergeField o buf = some o' ∧ Alike o' e' := by
  refine decode_induction (reads_envelope nested) (P := fun e buf => ∀ o, Alike o e →
    ∃ o', Lib.Protobuf.decode Opaque.mergeField o buf = some o' ∧ Alike o' e') ?_ ?_ h o hl
  · exact fun o hl => ⟨o, rfl, hl⟩
  · intro e buf tag wire rest e₁ rest₁ hk hf _ ih o hl
    obtain ⟨o₁, ho, hl₁⟩ := field_alike hl hf
    obtain ⟨o', hd, hl'⟩ := ih o₁ hl₁
    exact ⟨o', (decode_field reads_opaque hk ho).trans hd, hl'⟩

/-- **What has a view is decoded in full**, unless a nested message is invalid. -/
theorem alike_decode (nested : Nested E C) {o o' : Opaque} {e : Envelope E C} (hl : Alike o e)
    {buf : Bytes} (h : Lib.Protobuf.decode Opaque.mergeField o buf = some o') :
    (∃ e', Lib.Protobuf.decode (Envelope.mergeField nested) e buf = some e' ∧ Alike o' e') ∨
      Invalid nested e buf := by
  refine decode_induction reads_opaque (P := fun o buf => ∀ e, Alike o e →
    (∃ e', Lib.Protobuf.decode (Envelope.mergeField nested) e buf = some e' ∧ Alike o' e') ∨
      Invalid nested e buf) ?_ ?_ h e hl
  · exact fun e hl => .inl ⟨e, rfl, hl⟩
  · intro o buf tag wire rest o₁ rest₁ hk hf _ ih e hl
    rcases alike_field hl hk (opaque_cases hf) with ⟨e₁, he, hl₁⟩ | hinvalid
    · rcases ih e₁ hl₁ with ⟨e', hd, hl'⟩ | hinvalid
      · exact .inl ⟨e', (decode_field (reads_envelope nested) hk he).trans hd, hl'⟩
      · exact .inr (.later hk he hinvalid)
    · exact .inr hinvalid

/-- Which bodies a view has, by the tags of its fields. -/
theorem decode_tags {o o' : Opaque} {buf : Bytes}
    (h : Lib.Protobuf.decode Opaque.mergeField o buf = some o') :
    (o'.err.isSome ↔ o.err.isSome ∨ errTag ∈ tags buf) ∧
      (o'.content.isSome ↔ o.content.isSome ∨ ∃ tag ∈ tags buf, (Field.ofTag tag).isSome) := by
  refine decode_induction reads_opaque (P := fun o buf =>
    (o'.err.isSome ↔ o.err.isSome ∨ errTag ∈ tags buf) ∧
      (o'.content.isSome ↔ o.content.isSome ∨ ∃ tag ∈ tags buf, (Field.ofTag tag).isSome)) ?_ ?_ h
  · simp [tags_nil]
  · intro o buf tag wire rest o₁ rest₁ hk hf _ ih
    have htakes := opaque_cases hf
    rw [tags_field hk htakes.skip]
    rw [ih.1, ih.2]
    cases htakes with
    | id htag _ =>
      subst htag
      have hnone : Field.ofTag idTag = none := by decide
      have hne : errTag ≠ idTag := by decide
      simp [hnone, hne]
    | err htag _ =>
      subst htag
      have hnone : Field.ofTag errTag = none := by decide
      simp [hnone]
    | content hfield _ =>
      have hne : errTag ≠ tag := by
        rintro rfl
        exact absurd (contentTag_le_of_ofTag hfield) (by decide)
      simp [hfield, hne]
    | other _ hne hfield _ => simp [hfield, Ne.symm hne]

/-- The scan looks for a tag of the content range. -/
theorem scanLoop_tags : ∀ {fuel : ℕ} {buf : Bytes},
    scanLoop fuel buf = true ↔ ∃ tag ∈ tagLoop fuel buf, contentTag ≤ tag
  | 0, _ => by simp [scanLoop, tagLoop]
  | fuel + 1, buf => by
    simp only [scanLoop, tagLoop]
    cases hk : decodeKey buf with
    | none => simp
    | some key =>
      obtain ⟨tag, wire, rest⟩ := key
      cases hs : skip wire tag rest with
      | none => by_cases hle : contentTag ≤ tag <;> simp [hs, hle]
      | some rest' =>
        have ih := @scanLoop_tags fuel rest'
        by_cases hle : contentTag ≤ tag <;> simp [hs, hle, ih]

theorem scan_tags {buf : Bytes} : scan buf = true ↔ ∃ tag ∈ tags buf, contentTag ≤ tag :=
  scanLoop_tags

/-! ### The header and the body -/

/-- **A header is the view's**, and no header of a view is refused but for its number of bodies. -/
theorem decodeHeader_eq_some {side : Side} {buf : Bytes} {h : Header} :
    decodeHeader side buf = some h ↔
      ∃ o, Lib.Protobuf.decode Opaque.mergeField {} buf = some o ∧
        o.header (o.content.isNone && scan buf) = some h := by
  unfold decodeHeader
  constructor
  · intro hh
    split at hh
    · cases hh
    · next o ho => exact ⟨o, ho, hh⟩
  · rintro ⟨o, ho, hh⟩
    rw [ho]
    exact hh

theorem header_eq_some {o : Opaque} {unknown : Bool} {h : Header}
    (hh : o.header unknown = some h) :
    h.id = o.id ∧ h.failed = o.err.isSome ∧ h.unknown = unknown ∧
      (o.content.isSome || unknown) = !o.err.isSome ∧
      ∀ field bytes, o.content = some (field, bytes) → h.payload = some field.name := by
  unfold Opaque.header at hh
  simp only [Option.isSome_map] at hh
  by_cases hbody : (o.content.isSome || unknown) = o.err.isSome
  · rw [if_pos hbody] at hh
    cases hh
  rw [if_neg hbody] at hh
  cases hh
  refine ⟨rfl, rfl, rfl, Bool.eq_not.mpr hbody, ?_⟩
  intro field bytes hc
  simp only [hc, Option.map_some, Option.some_or]

theorem header_eq_none {o : Opaque} {unknown : Bool} :
    o.header unknown = none ↔ (o.content.isSome || unknown) = o.err.isSome := by
  unfold Opaque.header
  simp only [Option.isSome_map, ite_eq_left_iff, reduceCtorEq, imp_false, not_not]

/-- An invalid message is one of an error or of known content. -/
theorem Invalid.tags {nested : Nested E C} {e : Envelope E C} {buf : Bytes}
    (h : Invalid nested e buf) :
    errTag ∈ Lib.Protobuf.tags buf ∨
      ∃ tag ∈ Lib.Protobuf.tags buf, (Field.ofTag tag).isSome := by
  induction h with
  | err hk hm _ =>
    left
    rw [tags_field hk (mergeBytes_skip hm)]
    exact List.mem_cons_self
  | @content _ _ tag _ _ _ _ _ hk hf _ hm _ =>
    right
    rw [tags_field hk (mergeBytes_skip hm)]
    exact ⟨tag, List.mem_cons_self, by rw [hf]; rfl⟩
  | later hk hm _ ih =>
    rw [tags_field hk (reads_envelope nested _ _ _ _ _ _ hm)]
    rcases ih with herr | ⟨tag, htag, hf⟩
    · exact .inl (List.mem_cons_of_mem _ herr)
    · exact .inr ⟨tag, List.mem_cons_of_mem _ htag, hf⟩

theorem body_eq_ok {side : Side} {e : Envelope E C} {id : ℕ} {body : Except E (Message C)}
    (h : e.body side = .ok (id, body)) :
    id = e.id ∧
      ((∃ field value, e.content = some (field, value) ∧ e.err = none ∧
          body = .ok ⟨side.peer, field, value⟩) ∨
        ∃ error, e.content = none ∧ e.err = some error ∧ body = .error error) := by
  unfold Envelope.body at h
  split at h
  · next field value hc he =>
    cases h
    exact ⟨rfl, .inl ⟨field, value, hc, he, rfl⟩⟩
  · next error hc he =>
    cases h
    exact ⟨rfl, .inr ⟨error, hc, he, rfl⟩⟩
  · cases h

theorem body_eq_error {side : Side} {e : Envelope E C} {error : DecodeError}
    (h : e.body side = .error error) : error = .body ∧ e.content.isSome = e.err.isSome := by
  unfold Envelope.body at h
  split at h
  · cases h
  · cases h
  · next hcontent herr =>
    cases h
    refine ⟨rfl, ?_⟩
    cases hc : e.content with
    | none =>
      cases he : e.err with
      | none => rfl
      | some error => exact (herr error hc he).elim
    | some content =>
      cases he : e.err with
      | none => exact (hcontent content.1 content.2 hc he).elim
      | some error => rfl

theorem decode_eq_ok {nested : Nested E C} {side : Side} {buf : Bytes} {id : ℕ}
    {body : Except E (Message C)} (h : decode nested side buf = .ok (id, body)) :
    ∃ e, Lib.Protobuf.decode (Envelope.mergeField nested) {} buf = some e ∧
      e.body side = .ok (id, body) := by
  unfold decode at h
  split at h
  · cases h
  · next e he => exact ⟨e, he, h⟩

theorem alike_empty : Alike {} ({} : Envelope E C) := ⟨rfl, rfl, rfl⟩

theorem Alike.isSome {o : Opaque} {e : Envelope E C} (hl : Alike o e) :
    o.content.isSome = e.content.isSome := by
  have h := congrArg Option.isSome hl.content
  rwa [Option.isSome_map, Option.isSome_map] at h

/-- Both succeed on views of the same bytes, so they are the views. -/
theorem decode_view {nested : Nested E C} {side : Side} {buf : Bytes} {id : ℕ}
    {body : Except E (Message C)} (h : decode nested side buf = .ok (id, body)) :
    ∃ o e, Lib.Protobuf.decode Opaque.mergeField {} buf = some o ∧ Alike o e ∧
      e.body side = .ok (id, body) := by
  obtain ⟨e, he, hbody⟩ := decode_eq_ok h
  obtain ⟨o, ho, hl⟩ := decode_alike alike_empty he
  exact ⟨o, e, ho, hl, hbody⟩

/-- A body is either of content or of an error, in the view as well. -/
theorem view_body {side : Side} {o : Opaque} {e : Envelope E C} (hl : Alike o e) {id : ℕ}
    {body : Except E (Message C)} (h : e.body side = .ok (id, body)) :
    o.content.isSome = !o.err.isSome := by
  rw [hl.isSome, hl.err]
  obtain ⟨-, ⟨field, value, hc, he, -⟩ | ⟨error, hc, he, -⟩⟩ := body_eq_ok h
  · rw [hc, he]
    rfl
  · rw [hc, he]
    rfl

/-- `Message` of the body, when it is content. -/
def content : Except E (Message C) → Option (Message C)
  | .ok message => some message
  | .error _ => none

/-- **The header view and the full decoder agree.** -/
structure Agree (nested : Nested E C) (side : Side) (buf : Bytes) : Prop where
  /-- On the routing fields, where both succeed. -/
  both : ∀ h id body, decodeHeader side buf = some h → decode nested side buf = .ok (id, body) →
    h.id = id ∧ h.failed = (content body).isNone ∧ h.unknown = false ∧
      ∀ message, content body = some message → h.payload = some message.fieldName
  /-- Content this build does not know is no body: there is neither content nor an error. -/
  unknown : ∀ h, decodeHeader side buf = some h → h.unknown = true →
    decode nested side buf = .error .body ∧ errTag ∉ tags buf ∧
      ∀ tag ∈ tags buf, Field.ofTag tag = none
  /-- What is routed and cannot be decoded is unknown or has an invalid message. -/
  routed : ∀ h error, decodeHeader side buf = some h → decode nested side buf = .error error →
    h.unknown = true ∨ Invalid nested {} buf
  /-- What can be decoded and is not routed has an error and unknown content. -/
  refused : ∀ id body, decode nested side buf = .ok (id, body) →
    (decodeHeader side buf = none ↔
      errTag ∈ tags buf ∧ ∃ tag ∈ tags buf, contentTag ≤ tag ∧ Field.ofTag tag = none)

/-- Where both succeed, the header is that of the body. -/
theorem agree_both {nested : Nested E C} {side : Side} {buf : Bytes} {h : Header} {id : ℕ}
    {body : Except E (Message C)} (hh : decodeHeader side buf = some h)
    (hd : decode nested side buf = .ok (id, body)) :
    h.id = id ∧ h.failed = (content body).isNone ∧ h.unknown = false ∧
      ∀ message, content body = some message → h.payload = some message.fieldName := by
  obtain ⟨o, ho, hheader⟩ := decodeHeader_eq_some.mp hh
  obtain ⟨o', e, ho', hl, hbody⟩ := decode_view hd
  cases ho.symm.trans ho'
  obtain ⟨hid, hfailed, hunknown, hone, hpayload⟩ := header_eq_some hheader
  obtain ⟨hid', ⟨field, value, hc, he, hb⟩ | ⟨error, hc, he, hb⟩⟩ := body_eq_ok hbody
  · subst hb
    have hcontent := hl.content
    rw [hc] at hcontent
    obtain ⟨⟨field', bytes⟩, hoc, hfield⟩ := Option.map_eq_some_iff.mp hcontent
    cases hfield
    refine ⟨hid.trans (hl.id.trans hid'.symm), ?_, ?_, ?_⟩
    · rw [hfailed, hl.err, he]
      rfl
    · rw [hunknown, hoc]
      rfl
    · intro message hmessage
      cases hmessage
      exact hpayload field bytes hoc
  · subst hb
    have herr : o.err.isSome = true := by
      rw [hl.err, he]
      rfl
    refine ⟨hid.trans (hl.id.trans hid'.symm), hfailed.trans herr, ?_, ?_⟩
    · rw [herr, Bool.not_true, Bool.or_eq_false_iff] at hone
      rw [hunknown]
      exact hone.2
    · intro message hmessage
      cases hmessage

theorem agree_unknown {nested : Nested E C} {side : Side} {buf : Bytes} {h : Header}
    (hh : decodeHeader side buf = some h) (hu : h.unknown = true) :
    decode nested side buf = .error .body ∧ errTag ∉ tags buf ∧
      ∀ tag ∈ tags buf, Field.ofTag tag = none := by
  obtain ⟨o, ho, hheader⟩ := decodeHeader_eq_some.mp hh
  obtain ⟨-, -, hunknown, hone, -⟩ := header_eq_some hheader
  rw [hu] at hunknown
  have hcontent : o.content.isNone = true := (Bool.and_eq_true_iff.mp hunknown.symm).1
  rw [← hunknown, Bool.or_true] at hone
  have herr : o.err.isSome = false := by
    rw [← Bool.not_inj_iff, ← hone]
    rfl
  have hsome : o.content.isSome = false := by
    rw [← Option.not_isNone, hcontent]
    rfl
  obtain ⟨htags, hfields⟩ := decode_tags ho
  have hnerr : errTag ∉ tags buf := by
    intro hmem
    have := htags.mpr (.inr hmem)
    rw [herr] at this
    cases this
  have hnone : ¬ ∃ tag ∈ tags buf, (Field.ofTag tag).isSome := by
    intro hmem
    have := hfields.mpr (.inr hmem)
    rw [hsome] at this
    cases this
  refine ⟨?_, hnerr, ?_⟩
  · rcases alike_decode nested alike_empty ho with ⟨e, he, hl⟩ | hinvalid
    · have hce : e.content = none := by
        rw [← Option.not_isSome_iff_eq_none, ← hl.isSome, hsome]
        decide
      have hee : e.err = none := by
        rw [← Option.not_isSome_iff_eq_none, ← hl.err, herr]
        decide
      simp only [decode, he, Envelope.body, hce, hee]
    · exact (hinvalid.tags.elim hnerr hnone).elim
  · intro tag htag
    by_contra hsome
    exact hnone ⟨tag, htag, Option.isSome_iff_ne_none.mpr hsome⟩

theorem agree_routed {nested : Nested E C} {side : Side} {buf : Bytes} {h : Header}
    {error : DecodeError} (hh : decodeHeader side buf = some h)
    (hd : decode nested side buf = .error error) :
    h.unknown = true ∨ Invalid nested {} buf := by
  obtain ⟨o, ho, hheader⟩ := decodeHeader_eq_some.mp hh
  obtain ⟨-, -, hunknown, hone, -⟩ := header_eq_some hheader
  rcases alike_decode nested alike_empty ho with ⟨e, he, hl⟩ | hinvalid
  · left
    simp only [decode, he] at hd
    obtain ⟨-, hsame⟩ := body_eq_error hd
    rw [hunknown]
    rw [← hl.isSome, ← hl.err] at hsame
    -- The view has as many bodies as the envelope, so only unknown content makes it one.
    rw [hsame] at hone
    cases herr : o.err.isSome with
    | true =>
      rw [herr, Bool.true_or] at hone
      cases hone
    | false =>
      rw [herr, Bool.false_or] at hone
      exact hone
  · exact .inr hinvalid

theorem agree_refused {nested : Nested E C} {side : Side} {buf : Bytes} {id : ℕ}
    {body : Except E (Message C)} (hd : decode nested side buf = .ok (id, body)) :
    decodeHeader side buf = none ↔
      errTag ∈ tags buf ∧ ∃ tag ∈ tags buf, contentTag ≤ tag ∧ Field.ofTag tag = none := by
  obtain ⟨o, e, ho, hl, hbody⟩ := decode_view hd
  have hone := view_body hl hbody
  obtain ⟨herr, hcontent⟩ := decode_tags ho
  have hheader : decodeHeader side buf = o.header (o.content.isNone && scan buf) := by
    simp only [decodeHeader, ho]
  rw [hheader, header_eq_none]
  cases he : o.err.isSome with
  | false =>
    rw [he] at hone herr
    rw [hone]
    constructor
    · rintro ⟨⟩
    · rintro ⟨hmem, -⟩
      cases herr.mpr (.inr hmem)
  | true =>
    rw [he] at hone herr
    have hnone : o.content.isNone = true := by
      rw [← Option.not_isSome, hone]
      rfl
    have hfields : ∀ tag ∈ tags buf, Field.ofTag tag = none := by
      intro tag htag
      by_contra hsome
      have := hcontent.mpr (.inr ⟨tag, htag, Option.isSome_iff_ne_none.mpr hsome⟩)
      rw [hone] at this
      cases this
    have hmem : errTag ∈ tags buf := by
      rcases herr.mp rfl with hempty | hmem
      · cases hempty
      · exact hmem
    rw [hone, hnone, Bool.not_true, Bool.false_or, Bool.true_and, scan_tags]
    constructor
    · rintro ⟨tag, htag, hle⟩
      exact ⟨hmem, tag, htag, hle, hfields tag htag⟩
    · rintro ⟨-, tag, htag, hle, -⟩
      exact ⟨tag, htag, hle⟩

/-- **The header view and the full decoder agree on every byte string.** -/
theorem headers_agree (nested : Nested E C) (side : Side) (buf : Bytes) :
    Agree nested side buf where
  both _ _ _ hh hd := agree_both hh hd
  unknown _ hh hu := agree_unknown hh hu
  routed _ _ hh hd := agree_routed hh hd
  refused _ _ hd := agree_refused hd

-- An error together with content that is not known: a body to the one, none to the other.
example (nested : Nested Unit Unit) (h : nested.mergeErr none [] = some ()) :
    decode nested .client [0x12, 0x00, 0x80, 0x80, 0x01, 0x00] = .ok (0, .error ()) ∧
      decodeHeader .client [0x12, 0x00, 0x80, 0x80, 0x01, 0x00] = none := by
  refine ⟨?_, by decide⟩
  simp [decode, Lib.Protobuf.decode, mergeLoop, decodeKey, decodeVarint, varint, WireType.of,
    Envelope.mergeField, mergeBytes, advance, idTag, errTag, h, Field.ofTag, Field.all, Field.tag,
    skip, skipField, recursionLimit, Envelope.body]

end ArkWire.Protocol.Headers
