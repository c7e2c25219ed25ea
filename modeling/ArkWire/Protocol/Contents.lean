import ArkWire.Protocol.Headers

/-! # Message bodies and their fields

`Message` has one variant for each body type of the two envelopes, and each envelope has its own
field for some of them. A field name and its tag stand for different bodies in the two directions,
and `develop` for the same. The tables are those of the schema. -/

namespace ArkWire.Protocol.Contents

open ArkWire.Protocol.Envelope (Side)
open ArkWire.Protocol.Headers (Field)

/-- The variants of `Message`. -/
inductive Variant where
  | cloudSyncFinishRequest
  | cloudSyncFinishResponse
  | cloudSyncStartRequest
  | cloudSyncStartResponse
  | datasetPathsRequest
  | datasetPathsResponse
  | develop
  | deviceInfoRequest
  | deviceInfoResponse
  | executionCancelRequest
  | executionCancelResponse
  | executionCreateRequest
  | executionCreateResponse
  | executionLoadRequest
  | executionLoadResponse
  | executionModuleReadRequest
  | executionModuleReadResponse
  | executionModuleSizeRequest
  | executionModuleSizeResponse
  | executionOutputRequest
  | executionOutputResponse
  | executionResultRequest
  | executionResultResponse
  | executionStartRequest
  | executionStartResponse
  | executionStatusRequest
  | executionStatusResponse
  | firmwareUpdateInitRequest
  | firmwareUpdateInitResponse
  | firmwareUpdateInstallRequest
  | firmwareUpdateInstallResponse
  | firmwareUpdatePrepRequest
  | firmwareUpdatePrepResponse
  | firmwareUpdateUploadRequest
  | firmwareUpdateUploadResponse
  | firmwareUpdateVerifyRequest
  | firmwareUpdateVerifyResponse
  | genuinityProofRequest
  | genuinityProofResponse
  | onboardingRequest
  | onboardingResponse
  | pairingAcceptanceRequest
  | pairingAcceptanceResponse
  | pairingAckArkStorageRequest
  | pairingAckArkStorageResponse
  | pairingAuthRequest
  | pairingAuthResponse
  | pairingCompletionRequest
  | pairingCompletionResponse
  | pairingSetAppIdentityRequest
  | pairingSetAppIdentityResponse
  | pairingSetAppStorageRequest
  | pairingSetAppStorageResponse
  | relayInboundRequest
  | relayInboundResponse
  | relayJoinRequest
  | relayJoinResponse
  | relayOutboundRequest
  | relayOutboundResponse
  | slotDeleteRequest
  | slotDeleteResponse
  | slotIdentifyRequest
  | slotIdentifyResponse
  | slotListRequest
  | slotListResponse
  | slotRepairRequest
  | slotRepairResponse
  | slotUploadCancelRequest
  | slotUploadCancelResponse
  | slotUploadChunkRequest
  | slotUploadChunkResponse
  | slotUploadProcessRequest
  | slotUploadProcessResponse
  | slotUploadStartRequest
  | slotUploadStartResponse
  | unlockRequest
  | unlockResponse
  deriving DecidableEq, Repr

/-- The payload's type name, `Message::type_name`. -/
def Variant.typeName : Variant → String
  | .cloudSyncFinishRequest => "CloudSyncFinishRequest"
  | .cloudSyncFinishResponse => "CloudSyncFinishResponse"
  | .cloudSyncStartRequest => "CloudSyncStartRequest"
  | .cloudSyncStartResponse => "CloudSyncStartResponse"
  | .datasetPathsRequest => "DatasetPathsRequest"
  | .datasetPathsResponse => "DatasetPathsResponse"
  | .develop => "Vec<u8>"
  | .deviceInfoRequest => "DeviceInfoRequest"
  | .deviceInfoResponse => "DeviceInfoResponse"
  | .executionCancelRequest => "ExecutionCancelRequest"
  | .executionCancelResponse => "ExecutionCancelResponse"
  | .executionCreateRequest => "ExecutionCreateRequest"
  | .executionCreateResponse => "ExecutionCreateResponse"
  | .executionLoadRequest => "ExecutionLoadRequest"
  | .executionLoadResponse => "ExecutionLoadResponse"
  | .executionModuleReadRequest => "ExecutionModuleReadRequest"
  | .executionModuleReadResponse => "ExecutionModuleReadResponse"
  | .executionModuleSizeRequest => "ExecutionModuleSizeRequest"
  | .executionModuleSizeResponse => "ExecutionModuleSizeResponse"
  | .executionOutputRequest => "ExecutionOutputRequest"
  | .executionOutputResponse => "ExecutionOutputResponse"
  | .executionResultRequest => "ExecutionResultRequest"
  | .executionResultResponse => "ExecutionResultResponse"
  | .executionStartRequest => "ExecutionStartRequest"
  | .executionStartResponse => "ExecutionStartResponse"
  | .executionStatusRequest => "ExecutionStatusRequest"
  | .executionStatusResponse => "ExecutionStatusResponse"
  | .firmwareUpdateInitRequest => "FirmwareUpdateInitRequest"
  | .firmwareUpdateInitResponse => "FirmwareUpdateInitResponse"
  | .firmwareUpdateInstallRequest => "FirmwareUpdateInstallRequest"
  | .firmwareUpdateInstallResponse => "FirmwareUpdateInstallResponse"
  | .firmwareUpdatePrepRequest => "FirmwareUpdatePrepRequest"
  | .firmwareUpdatePrepResponse => "FirmwareUpdatePrepResponse"
  | .firmwareUpdateUploadRequest => "FirmwareUpdateUploadRequest"
  | .firmwareUpdateUploadResponse => "FirmwareUpdateUploadResponse"
  | .firmwareUpdateVerifyRequest => "FirmwareUpdateVerifyRequest"
  | .firmwareUpdateVerifyResponse => "FirmwareUpdateVerifyResponse"
  | .genuinityProofRequest => "GenuinityProofRequest"
  | .genuinityProofResponse => "GenuinityProofResponse"
  | .onboardingRequest => "OnboardingRequest"
  | .onboardingResponse => "OnboardingResponse"
  | .pairingAcceptanceRequest => "PairingAcceptanceRequest"
  | .pairingAcceptanceResponse => "PairingAcceptanceResponse"
  | .pairingAckArkStorageRequest => "PairingAckArkStorageRequest"
  | .pairingAckArkStorageResponse => "PairingAckArkStorageResponse"
  | .pairingAuthRequest => "PairingAuthRequest"
  | .pairingAuthResponse => "PairingAuthResponse"
  | .pairingCompletionRequest => "PairingCompletionRequest"
  | .pairingCompletionResponse => "PairingCompletionResponse"
  | .pairingSetAppIdentityRequest => "PairingSetAppIdentityRequest"
  | .pairingSetAppIdentityResponse => "PairingSetAppIdentityResponse"
  | .pairingSetAppStorageRequest => "PairingSetAppStorageRequest"
  | .pairingSetAppStorageResponse => "PairingSetAppStorageResponse"
  | .relayInboundRequest => "RelayInboundRequest"
  | .relayInboundResponse => "RelayInboundResponse"
  | .relayJoinRequest => "RelayJoinRequest"
  | .relayJoinResponse => "RelayJoinResponse"
  | .relayOutboundRequest => "RelayOutboundRequest"
  | .relayOutboundResponse => "RelayOutboundResponse"
  | .slotDeleteRequest => "SlotDeleteRequest"
  | .slotDeleteResponse => "SlotDeleteResponse"
  | .slotIdentifyRequest => "SlotIdentifyRequest"
  | .slotIdentifyResponse => "SlotIdentifyResponse"
  | .slotListRequest => "SlotListRequest"
  | .slotListResponse => "SlotListResponse"
  | .slotRepairRequest => "SlotRepairRequest"
  | .slotRepairResponse => "SlotRepairResponse"
  | .slotUploadCancelRequest => "SlotUploadCancelRequest"
  | .slotUploadCancelResponse => "SlotUploadCancelResponse"
  | .slotUploadChunkRequest => "SlotUploadChunkRequest"
  | .slotUploadChunkResponse => "SlotUploadChunkResponse"
  | .slotUploadProcessRequest => "SlotUploadProcessRequest"
  | .slotUploadProcessResponse => "SlotUploadProcessResponse"
  | .slotUploadStartRequest => "SlotUploadStartRequest"
  | .slotUploadStartResponse => "SlotUploadStartResponse"
  | .unlockRequest => "UnlockRequest"
  | .unlockResponse => "UnlockResponse"

/-- The fields of `HostToArk`, as messages. -/
def hostToArk : Field → Variant
  | .onboard => .onboardingRequest
  | .deviceInfo => .deviceInfoRequest
  | .cloudSyncStart => .cloudSyncStartRequest
  | .cloudSyncFinish => .cloudSyncFinishRequest
  | .genuinityProof => .genuinityProofRequest
  | .firmwareUpdatePrep => .firmwareUpdatePrepRequest
  | .firmwareUpdateInit => .firmwareUpdateInitRequest
  | .firmwareUpdateUpload => .firmwareUpdateUploadRequest
  | .firmwareUpdateVerify => .firmwareUpdateVerifyRequest
  | .firmwareUpdateInstall => .firmwareUpdateInstallRequest
  | .pairingAuth => .pairingAuthRequest
  | .pairingSetAppId => .pairingSetAppIdentityRequest
  | .pairingSetAppStorage => .pairingSetAppStorageRequest
  | .pairingAckArkStorage => .pairingAckArkStorageRequest
  | .pairingAccept => .pairingAcceptanceRequest
  | .pairingComplete => .pairingCompletionRequest
  | .relayJoin => .relayJoinRequest
  | .relayInbound => .relayInboundRequest
  | .relayOutbound => .relayOutboundResponse
  | .unlock => .unlockRequest
  | .execCreate => .executionCreateRequest
  | .execLoad => .executionLoadRequest
  | .execStart => .executionStartRequest
  | .execStatus => .executionStatusRequest
  | .execCancel => .executionCancelRequest
  | .execResult => .executionResultRequest
  | .execOutput => .executionOutputRequest
  | .execModuleSize => .executionModuleSizeResponse
  | .execModuleRead => .executionModuleReadResponse
  | .slotList => .slotListRequest
  | .slotRepair => .slotRepairRequest
  | .slotDelete => .slotDeleteRequest
  | .slotIdentify => .slotIdentifyRequest
  | .slotUploadStart => .slotUploadStartRequest
  | .slotUploadChunk => .slotUploadChunkRequest
  | .slotUploadCancel => .slotUploadCancelRequest
  | .slotUploadProcess => .slotUploadProcessRequest
  | .datasetPaths => .datasetPathsRequest
  | .develop => .develop

/-- The fields of `ArkToHost`, as messages. -/
def arkToHost : Field → Variant
  | .onboard => .onboardingResponse
  | .deviceInfo => .deviceInfoResponse
  | .cloudSyncStart => .cloudSyncStartResponse
  | .cloudSyncFinish => .cloudSyncFinishResponse
  | .genuinityProof => .genuinityProofResponse
  | .firmwareUpdatePrep => .firmwareUpdatePrepResponse
  | .firmwareUpdateInit => .firmwareUpdateInitResponse
  | .firmwareUpdateUpload => .firmwareUpdateUploadResponse
  | .firmwareUpdateVerify => .firmwareUpdateVerifyResponse
  | .firmwareUpdateInstall => .firmwareUpdateInstallResponse
  | .pairingAuth => .pairingAuthResponse
  | .pairingSetAppId => .pairingSetAppIdentityResponse
  | .pairingSetAppStorage => .pairingSetAppStorageResponse
  | .pairingAckArkStorage => .pairingAckArkStorageResponse
  | .pairingAccept => .pairingAcceptanceResponse
  | .pairingComplete => .pairingCompletionResponse
  | .relayJoin => .relayJoinResponse
  | .relayInbound => .relayInboundResponse
  | .relayOutbound => .relayOutboundRequest
  | .unlock => .unlockResponse
  | .execCreate => .executionCreateResponse
  | .execLoad => .executionLoadResponse
  | .execStart => .executionStartResponse
  | .execStatus => .executionStatusResponse
  | .execCancel => .executionCancelResponse
  | .execResult => .executionResultResponse
  | .execOutput => .executionOutputResponse
  | .execModuleSize => .executionModuleSizeRequest
  | .execModuleRead => .executionModuleReadRequest
  | .slotList => .slotListResponse
  | .slotRepair => .slotRepairResponse
  | .slotDelete => .slotDeleteResponse
  | .slotIdentify => .slotIdentifyResponse
  | .slotUploadStart => .slotUploadStartResponse
  | .slotUploadChunk => .slotUploadChunkResponse
  | .slotUploadCancel => .slotUploadCancelResponse
  | .slotUploadProcess => .slotUploadProcessResponse
  | .datasetPaths => .datasetPathsResponse
  | .develop => .develop

/-- `From<Content> for Message`, by the sender of the envelope. -/
def variant : Side → Field → Variant
  | .client => hostToArk
  | .server => arkToHost

/-- `TryFrom<Message> for Content`: the field of the sender's envelope for a body, if it has one. -/
def fieldOf (sender : Side) (v : Variant) : Option Field :=
  Field.all.find? fun field => variant sender field = v

theorem mem_all (field : Field) : field ∈ Field.all := by
  cases field <;> decide

/-- A field is that of its body: no two fields of an envelope have one body. -/
theorem fieldOf_variant (sender : Side) (field : Field) :
    fieldOf sender (variant sender field) = some field := by
  cases sender <;> cases field <;> rfl

theorem variant_of_fieldOf {sender : Side} {v : Variant} {field : Field}
    (h : fieldOf sender v = some field) : variant sender field = v := by
  have hfind := List.find?_some h
  exact of_decide_eq_true hfind

theorem fieldOf_eq_none {sender : Side} {v : Variant} :
    fieldOf sender v = none ↔ ∀ field, variant sender field ≠ v := by
  rw [fieldOf, List.find?_eq_none]
  constructor
  · intro h field heq
    exact h field (mem_all field) (decide_eq_true heq)
  · intro h field _ heq
    exact h field (of_decide_eq_true heq)

/-- Only the field `develop` has the body of that name. -/
theorem variant_eq_develop {sender : Side} {field : Field} :
    variant sender field = .develop ↔ field = .develop := by
  cases sender <;> cases field <;> decide

end ArkWire.Protocol.Contents
