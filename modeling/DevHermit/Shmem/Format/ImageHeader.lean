import DevHermit.Lib.Check
import DevHermit.Lib.Wire

namespace DevHermit.Shmem.Format

open Lib Wire

structure HeaderError where
  message : String
  deriving DecidableEq, Repr

def imageMagic : List.Vector UInt8 8 := ⟨[0x53, 0x48, 0x50, 0x4f, 0x44, 0x49, 0x32, 0], rfl⟩

def imageVersion : UInt16 := 2

def imageAbiRevision : UInt32 := 2

def headerSize : Nat := 4096

def pageSize : Nat := 4096

def methodEntrySize : Nat := 32

def methodTableOffset : Nat := 320

def maxMethods : Nat := (headerSize - methodTableOffset) / methodEntrySize

def targetOsLinux : UInt16 := 1

def targetArchX86 : UInt16 := 0x3e

def endianLittle : UInt8 := 1

def pointerWidth : UInt8 := 64

def stateEnvelopeSize : Nat := pageSize

def defaultPayloadLen : Nat := 1024 * 1024

def defaultStateFileLen : Nat := stateEnvelopeSize + defaultPayloadLen

def capOffsetArena : UInt64 := 1

def capRequiresSameVa : UInt64 := 2

def capAllocatorApi : UInt64 := 4

def knownCapabilities : UInt64 := capOffsetArena ||| capRequiresSameVa ||| capAllocatorApi

def hardeningWX : UInt64 := 1

def hardeningNxState : UInt64 := 2

def knownHardening : UInt64 := hardeningWX ||| hardeningNxState

def cpuX86Baseline : UInt64 := 1

def knownCpuFeatures : UInt64 := cpuX86Baseline

inductive MethodSignature where
  | noArgsU64
  | stateU64Status
  | stateU64U64Status
  | stateU64OutU64Status
  | stateU64
  deriving DecidableEq, Repr

def MethodSignature.fromU16 (value : UInt16) : Option MethodSignature :=
  if value = 1 then some .noArgsU64
  else if value = 2 then some .stateU64Status
  else if value = 3 then some .stateU64U64Status
  else if value = 4 then some .stateU64OutU64Status
  else if value = 5 then some .stateU64
  else none

structure ImageMetadata where
  apiFingerprint : BitVec 128
  stateFingerprint : BitVec 128
  buildSha256 : List.Vector UInt8 32
  provenanceSha256 : List.Vector UInt8 32
  requiredCapabilities : UInt64
  optionalCapabilities : UInt64
  requiredHardening : UInt64
  requiredCpuFeatures : UInt64
  requiredStateAddress : UInt64
  deriving DecidableEq

structure MethodEntry where
  id : UInt32
  signature : UInt16
  flags : UInt16
  offset : UInt64
  size : UInt32
  alignment : UInt32
  reserved : UInt64
  deriving DecidableEq, Repr

structure ImageHeader where
  imageLen : UInt64
  codeOffset : UInt64
  codeLen : UInt64
  codeAlignment : UInt64
  stateFileLen : UInt64
  payloadOffset : UInt64
  payloadLen : UInt64
  stateAlignment : UInt64
  codeSha256 : List.Vector UInt8 32
  metadata : ImageMetadata
  methods : List MethodEntry
  deriving DecidableEq

def checkedAdd (a b : UInt64) (message : String) : Except HeaderError UInt64 :=
  if a.toNat + b.toNat < 2 ^ 64 then .ok (a + b) else .error ⟨message⟩

def isPowerOfTwo (n : UInt64) : Prop := n ≠ 0 ∧ n &&& (n - 1) = 0

instance (n : UInt64) : Decidable (isPowerOfTwo n) := inferInstanceAs (Decidable (_ ∧ _))

def MethodEntry.decodedSignature (method : MethodEntry) : Except HeaderError MethodSignature :=
  match MethodSignature.fromU16 method.signature with
  | some signature => .ok signature
  | none => .error ⟨"method " ++ toString method.id ++ " has unknown signature"⟩

namespace ImageHeader

def validateCode (h : ImageHeader) : Except HeaderError Unit := do
  let codeEnd ← checkedAdd h.codeOffset h.codeLen "code extent overflow"
  reject (h.codeOffset.toNat ≠ headerSize ∨ h.imageLen ≠ codeEnd ∨ h.codeLen = 0 ∨
      h.codeAlignment = 0 ∨ ¬ isPowerOfTwo h.codeAlignment ∨
      UInt64.ofNat pageSize < h.codeAlignment)
    ⟨"invalid code extent or alignment"⟩

def validateState (h : ImageHeader) : Except HeaderError Unit := do
  let payloadEnd ← checkedAdd h.payloadOffset h.payloadLen "state extent overflow"
  reject (h.stateFileLen.toNat ≠ defaultStateFileLen ∨
      h.payloadOffset.toNat ≠ stateEnvelopeSize ∨ h.payloadLen.toNat ≠ defaultPayloadLen ∨
      payloadEnd ≠ h.stateFileLen ∨ h.stateAlignment = 0 ∨ ¬ isPowerOfTwo h.stateAlignment ∨
      UInt64.ofNat pageSize < h.stateAlignment)
    ⟨"invalid state extent or alignment"⟩

def capabilities (h : ImageHeader) : UInt64 :=
  h.metadata.requiredCapabilities ||| h.metadata.optionalCapabilities

def validateMetadata (h : ImageHeader) : Except HeaderError Unit := do
  reject (allZero h.codeSha256 ∨ allZero h.metadata.buildSha256 ∨
      allZero h.metadata.provenanceSha256 ∨ h.metadata.apiFingerprint = 0 ∨
      h.metadata.stateFingerprint = 0)
    ⟨"authenticated image metadata contains zero identity"⟩
  reject (h.metadata.requiredCapabilities = 0 ∨
      h.metadata.requiredCapabilities &&& h.metadata.optionalCapabilities ≠ 0 ∨
      h.metadata.optionalCapabilities &&& capRequiresSameVa ≠ 0 ∨
      h.capabilities &&& ~~~ knownCapabilities ≠ 0 ∨ h.metadata.requiredHardening = 0 ∨
      h.metadata.requiredHardening &&& ~~~ knownHardening ≠ 0 ∨
      h.metadata.requiredCpuFeatures = 0 ∨
      h.metadata.requiredCpuFeatures &&& ~~~ knownCpuFeatures ≠ 0)
    ⟨"image requirements contain unknown or empty bits"⟩
  if h.capabilities &&& capRequiresSameVa ≠ 0 then
    reject (h.metadata.requiredStateAddress = 0 ∨
        h.metadata.requiredStateAddress % UInt64.ofNat pageSize ≠ 0)
      ⟨"required state address is invalid"⟩
  else
    reject (h.metadata.requiredStateAddress ≠ 0) ⟨"relocatable state declares a fixed address"⟩

def validateMethod (h : ImageHeader) (previousId : UInt32) (method : MethodEntry) :
    Except HeaderError Unit := do
  let stop ← checkedAdd method.offset method.size.toUInt64
    ("method " ++ toString method.id ++ " extent overflow")
  reject (method.id = 0 ∨ method.id ≤ previousId ∨ method.offset < h.codeOffset ∨
      method.size = 0 ∨ h.imageLen < stop ∨ method.alignment = 0 ∨
      ¬ isPowerOfTwo method.alignment.toUInt64 ∨ h.codeAlignment < method.alignment.toUInt64 ∨
      method.offset % method.alignment.toUInt64 ≠ 0 ∨ method.flags ≠ 0 ∨ method.reserved ≠ 0)
    ⟨"method " ++ toString method.id ++ " is malformed"⟩
  let _ ← method.decodedSignature
  pure ()

def validateMethods (h : ImageHeader) : UInt32 → List MethodEntry → Except HeaderError Unit
  | _, [] => pure ()
  | previousId, method :: rest => do
      h.validateMethod previousId method
      validateMethods h method.id rest

def validateOverlap (left : MethodEntry) : List MethodEntry → Except HeaderError Unit
  | [] => pure ()
  | right :: rest => do
      reject (left.offset < right.offset + right.size.toUInt64 ∧
          right.offset < left.offset + left.size.toUInt64)
        ⟨"methods " ++ toString left.id ++ " and " ++ toString right.id ++ " overlap"⟩
      validateOverlap left rest

def validateOverlaps : List MethodEntry → Except HeaderError Unit
  | [] => pure ()
  | left :: rest => do
      validateOverlap left rest
      validateOverlaps rest

def validate (h : ImageHeader) : Except HeaderError Unit := do
  h.validateCode
  h.validateState
  h.validateMetadata
  reject (h.methods = [] ∨ maxMethods < h.methods.length) ⟨"invalid method count"⟩
  h.validateMethods 0 h.methods
  validateOverlaps h.methods

def fixedFields (h : ImageHeader) : List Field :=
  [(Codec.array 8).field 0 imageMagic,
    Codec.u16.field 8 imageVersion,
    Codec.byte.field 10 endianLittle,
    Codec.byte.field 11 pointerWidth,
    Codec.u32.field 12 (UInt32.ofNat headerSize),
    Codec.u16.field 16 targetOsLinux,
    Codec.u16.field 18 targetArchX86,
    Codec.u32.field 20 (UInt32.ofNat pageSize),
    Codec.u16.field 24 (UInt16.ofNat methodEntrySize),
    Codec.u16.field 26 (UInt16.ofNat h.methods.length),
    Codec.u32.field 28 imageAbiRevision,
    Codec.u64.field 32 h.imageLen,
    Codec.u64.field 40 h.codeOffset,
    Codec.u64.field 48 h.codeLen,
    Codec.u64.field 56 h.codeAlignment,
    Codec.u64.field 64 h.stateFileLen,
    Codec.u64.field 72 h.payloadOffset,
    Codec.u64.field 80 h.payloadLen,
    Codec.u64.field 88 h.stateAlignment,
    Codec.u64.field 96 h.metadata.requiredStateAddress,
    Codec.u64.field 104 h.metadata.requiredCapabilities,
    Codec.u64.field 112 h.metadata.optionalCapabilities,
    Codec.u64.field 120 h.metadata.requiredHardening,
    Codec.u64.field 128 h.metadata.requiredCpuFeatures,
    Codec.u128.field 136 h.metadata.apiFingerprint,
    Codec.u128.field 152 h.metadata.stateFingerprint,
    (Codec.array 32).field 168 h.codeSha256,
    (Codec.array 32).field 200 h.metadata.provenanceSha256,
    (Codec.array 32).field 232 h.metadata.buildSha256,
    Codec.u32.field 264 (UInt32.ofNat methodTableOffset),
    Codec.u32.field 268 (UInt32.ofNat (h.methods.length * methodEntrySize))]

end ImageHeader

def MethodEntry.fields (offset : Nat) (method : MethodEntry) : List Field :=
  [Codec.u32.field offset method.id,
    Codec.u16.field (offset + 4) method.signature,
    Codec.u16.field (offset + 6) method.flags,
    Codec.u64.field (offset + 8) method.offset,
    Codec.u32.field (offset + 16) method.size,
    Codec.u32.field (offset + 20) method.alignment,
    Codec.u64.field (offset + 24) method.reserved]

def MethodEntry.read (bytes : List UInt8) (offset : Nat) : MethodEntry where
  id := Codec.u32.get bytes offset
  signature := Codec.u16.get bytes (offset + 4)
  flags := Codec.u16.get bytes (offset + 6)
  offset := Codec.u64.get bytes (offset + 8)
  size := Codec.u32.get bytes (offset + 16)
  alignment := Codec.u32.get bytes (offset + 20)
  reserved := Codec.u64.get bytes (offset + 24)

def entryOffset (index : Nat) : Nat := methodTableOffset + index * methodEntrySize

def tableFields : Nat → List MethodEntry → List Field
  | _, [] => []
  | index, method :: rest => method.fields (entryOffset index) ++ tableFields (index + 1) rest

namespace ImageHeader

def encode (h : ImageHeader) : Except HeaderError (List UInt8) := do
  h.validate
  pure (writeAll (List.replicate headerSize 0) (h.fixedFields ++ tableFields 0 h.methods))

def read (bytes : List UInt8) (methodCount : Nat) : ImageHeader where
  imageLen := Codec.u64.get bytes 32
  codeOffset := Codec.u64.get bytes 40
  codeLen := Codec.u64.get bytes 48
  codeAlignment := Codec.u64.get bytes 56
  stateFileLen := Codec.u64.get bytes 64
  payloadOffset := Codec.u64.get bytes 72
  payloadLen := Codec.u64.get bytes 80
  stateAlignment := Codec.u64.get bytes 88
  codeSha256 := (Codec.array 32).get bytes 168
  metadata :=
    { requiredStateAddress := Codec.u64.get bytes 96
      requiredCapabilities := Codec.u64.get bytes 104
      optionalCapabilities := Codec.u64.get bytes 112
      requiredHardening := Codec.u64.get bytes 120
      requiredCpuFeatures := Codec.u64.get bytes 128
      apiFingerprint := Codec.u128.get bytes 136
      stateFingerprint := Codec.u128.get bytes 152
      provenanceSha256 := (Codec.array 32).get bytes 200
      buildSha256 := (Codec.array 32).get bytes 232 }
  methods := (List.range' 0 methodCount).map fun index => MethodEntry.read bytes (entryOffset index)

def decode (bytes : List UInt8) : Except HeaderError ImageHeader := do
  reject (bytes.length < headerSize) ⟨"image header is truncated"⟩
  reject ((Codec.array 8).get bytes 0 ≠ imageMagic) ⟨"bad image magic"⟩
  reject (Codec.u16.get bytes 8 ≠ imageVersion ∨ Codec.byte.get bytes 10 ≠ endianLittle ∨
      Codec.byte.get bytes 11 ≠ pointerWidth ∨ (Codec.u32.get bytes 12).toNat ≠ headerSize ∨
      Codec.u16.get bytes 16 ≠ targetOsLinux ∨ Codec.u16.get bytes 18 ≠ targetArchX86 ∨
      (Codec.u32.get bytes 20).toNat ≠ pageSize ∨
      (Codec.u16.get bytes 24).toNat ≠ methodEntrySize ∨
      Codec.u32.get bytes 28 ≠ imageAbiRevision)
    ⟨"unsupported image target or ABI"⟩
  reject ((Codec.u32.get bytes 264).toNat ≠ methodTableOffset) ⟨"invalid method table offset"⟩
  let methodCount := (Codec.u16.get bytes 26).toNat
  let methodBytes := methodCount * methodEntrySize
  reject (2 ^ 64 ≤ methodBytes) ⟨"method table length overflow"⟩
  reject (methodCount = 0 ∨ maxMethods < methodCount ∨
      (Codec.u32.get bytes 268).toNat ≠ methodBytes ∨
      headerSize < methodTableOffset + methodBytes)
    ⟨"invalid method table extent"⟩
  reject ((slice bytes 272 (methodTableOffset - 272)).any (· != 0) = true ∨
      (slice bytes (methodTableOffset + methodBytes)
        (headerSize - (methodTableOffset + methodBytes))).any (· != 0) = true)
    ⟨"reserved header bytes are nonzero"⟩
  let header := read bytes methodCount
  header.validate
  pure header

end ImageHeader

end DevHermit.Shmem.Format
