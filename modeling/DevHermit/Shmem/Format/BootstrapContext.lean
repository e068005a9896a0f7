import DevHermit.Lib.Check
import DevHermit.Lib.Wire

namespace DevHermit.Shmem.Format

open Lib Wire List

def bootstrapPageSize : UInt64 := 4096

def maxArtifactLen : UInt64 := 256 * 1024 * 1024

def maxStateLen : UInt64 := 1024 * 1024 * 1024 * 1024

inductive ConnectorKind where
  | cooperative
  | preload
  | ptrace
  | trampoline
  deriving DecidableEq, Repr

def ConnectorKind.toU32 : ConnectorKind → UInt32
  | .cooperative => 1
  | .preload => 2
  | .ptrace => 3
  | .trampoline => 4

def ConnectorKind.fromU32 (value : UInt32) : Option ConnectorKind :=
  if value = 1 then some .cooperative
  else if value = 2 then some .preload
  else if value = 3 then some .ptrace
  else if value = 4 then some .trampoline
  else none

namespace BootstrapFlags

def required : UInt32 := 1

def inheritAcrossExec : UInt32 := 2

def fixedCodeAddress : UInt32 := 4

def fixedStateAddress : UInt32 := 8

def scmRightsTransport : UInt32 := 16

def known : UInt32 :=
  required ||| inheritAcrossExec ||| fixedCodeAddress ||| fixedStateAddress ||| scmRightsTransport

def contains (flags other : UInt32) : Prop := flags &&& other = other

instance (flags other : UInt32) : Decidable (contains flags other) :=
  inferInstanceAs (Decidable (_ = _))

end BootstrapFlags

inductive DescriptorRole where
  | artifact
  | code
  | state
  | control
  deriving DecidableEq, Repr

inductive AddressRole where
  | code
  | state
  deriving DecidableEq, Repr

inductive BootstrapError where
  | encodedLength (length : Nat)
  | badMagic
  | unsupportedVersion (version : UInt16)
  | wrongSize (size : UInt16)
  | unknownFlags (flags : UInt32)
  | builderManagedFlags (flags : UInt32)
  | unknownConnector (connector : UInt32)
  | nonzeroReserved
  | invalidDescriptor (role : DescriptorRole) (fd : Int32)
  | invalidControlDescriptor (fd : Int32)
  | aliasedDescriptors
  | incoherentControlTransport
  | invalidArtifactLength (length : UInt64)
  | invalidStateLength (length : UInt64)
  | invalidAddress (role : AddressRole) (address : UInt64)
  | aliasedFixedAddresses (address : UInt64)
  | zeroGeneration
  | zeroApiFingerprint
  | zeroArtifactDigest
  | zeroInstanceNonce
  deriving DecidableEq, Repr

structure BootstrapContext where
  magic : List.Vector UInt8 8
  abiVersion : UInt16
  structSize : UInt16
  flags : UInt32
  connector : UInt32
  reservedWord : UInt32
  artifactFd : Int32
  codeFd : Int32
  stateFd : Int32
  controlFd : Int32
  artifactLen : UInt64
  stateLen : UInt64
  codeAddress : UInt64
  stateAddress : UInt64
  generation : UInt64
  apiFingerprint : List.Vector UInt8 16
  artifactSha256 : List.Vector UInt8 32
  instanceNonce : List.Vector UInt8 16
  reserved : List.Vector UInt8 16
  deriving DecidableEq

def validateFd (fd : Int32) (role : DescriptorRole) : Except BootstrapError Unit :=
  reject (fd ≤ 2) (.invalidDescriptor role fd)

def validateAddress (address : UInt64) (required : Prop) [Decidable required]
    (role : AddressRole) : Except BootstrapError Unit :=
  if required then
    reject (address = 0 ∨ address % bootstrapPageSize ≠ 0) (.invalidAddress role address)
  else reject (address ≠ 0) (.invalidAddress role address)

namespace BootstrapContext

def contextMagic : List.Vector UInt8 8 := ⟨[0x53, 0x48, 0x50, 0x4f, 0x44, 0x42, 0x43, 0], rfl⟩

def currentAbiVersion : UInt16 := 1

def encodedLen : Nat := 160

def connectorKind (c : BootstrapContext) : Option ConnectorKind :=
  ConnectorKind.fromU32 c.connector

def validateIdentity (c : BootstrapContext) : Except BootstrapError Unit := do
  reject (c.magic ≠ contextMagic) .badMagic
  reject (c.abiVersion ≠ currentAbiVersion) (.unsupportedVersion c.abiVersion)
  reject (c.structSize.toNat ≠ encodedLen) (.wrongSize c.structSize)
  reject (c.flags &&& ~~~ BootstrapFlags.known ≠ 0) (.unknownFlags c.flags)
  reject (c.connectorKind = none) (.unknownConnector c.connector)
  reject (c.reservedWord ≠ 0 ∨ c.reserved.val.any (· != 0) = true) .nonzeroReserved

def validateControl (c : BootstrapContext) : Except BootstrapError Unit :=
  if 0 ≤ c.controlFd then do
    validateFd c.controlFd .control
    reject (c.controlFd = c.artifactFd ∨ c.controlFd = c.codeFd ∨ c.controlFd = c.stateFd)
      .aliasedDescriptors
  else pure ()

def validateDescriptors (c : BootstrapContext) : Except BootstrapError Unit := do
  validateFd c.artifactFd .artifact
  validateFd c.codeFd .code
  validateFd c.stateFd .state
  reject (c.artifactFd = c.codeFd ∨ c.artifactFd = c.stateFd ∨ c.codeFd = c.stateFd)
    .aliasedDescriptors
  reject (c.controlFd < -1) (.invalidControlDescriptor c.controlFd)
  c.validateControl
  reject (¬ (BootstrapFlags.contains c.flags BootstrapFlags.scmRightsTransport ↔
    0 ≤ c.controlFd)) .incoherentControlTransport

def validateExtents (c : BootstrapContext) : Except BootstrapError Unit := do
  reject (c.artifactLen < bootstrapPageSize ∨ maxArtifactLen < c.artifactLen)
    (.invalidArtifactLength c.artifactLen)
  reject (c.stateLen < bootstrapPageSize ∨ maxStateLen < c.stateLen ∨
    c.stateLen % bootstrapPageSize ≠ 0) (.invalidStateLength c.stateLen)
  validateAddress c.codeAddress (BootstrapFlags.contains c.flags BootstrapFlags.fixedCodeAddress)
    .code
  validateAddress c.stateAddress
    (BootstrapFlags.contains c.flags BootstrapFlags.fixedStateAddress) .state
  reject (c.codeAddress ≠ 0 ∧ c.codeAddress = c.stateAddress)
    (.aliasedFixedAddresses c.codeAddress)

def validateLaunch (c : BootstrapContext) : Except BootstrapError Unit := do
  reject (c.generation = 0) .zeroGeneration
  reject (allZero c.apiFingerprint) .zeroApiFingerprint
  reject (allZero c.artifactSha256) .zeroArtifactDigest
  reject (allZero c.instanceNonce) .zeroInstanceNonce

def validate (c : BootstrapContext) : Except BootstrapError Unit := do
  c.validateIdentity
  c.validateDescriptors
  c.validateExtents
  c.validateLaunch

def validated (c : BootstrapContext) : Except BootstrapError BootstrapContext := do
  c.validate
  pure c

def builderManaged : UInt32 :=
  BootstrapFlags.fixedCodeAddress ||| BootstrapFlags.fixedStateAddress |||
    BootstrapFlags.scmRightsTransport

def new (connector : ConnectorKind) (flags : UInt32) (artifactFd codeFd stateFd : Int32)
    (artifactLen stateLen generation : UInt64) (apiFingerprint : BitVec 128)
    (artifactSha256 : List.Vector UInt8 32) (instanceNonce : List.Vector UInt8 16) :
    Except BootstrapError BootstrapContext := do
  reject (flags &&& builderManaged ≠ 0) (.builderManagedFlags (flags &&& builderManaged))
  validated
    { magic := contextMagic
      abiVersion := currentAbiVersion
      structSize := UInt16.ofNat encodedLen
      flags := flags
      connector := connector.toU32
      reservedWord := 0
      artifactFd := artifactFd
      codeFd := codeFd
      stateFd := stateFd
      controlFd := -1
      artifactLen := artifactLen
      stateLen := stateLen
      codeAddress := 0
      stateAddress := 0
      generation := generation
      apiFingerprint := ⟨toLe 16 apiFingerprint.toNat, length_toLe 16 _⟩
      artifactSha256 := artifactSha256
      instanceNonce := instanceNonce
      reserved := List.Vector.replicate 16 0 }

def withScmRightsProvenance (c : BootstrapContext) (controlFd : Int32) :
    Except BootstrapError BootstrapContext :=
  validated
    { c with flags := c.flags ||| BootstrapFlags.scmRightsTransport, controlFd := controlFd }

def withFixedCodeAddress (c : BootstrapContext) (codeAddress : UInt64) :
    Except BootstrapError BootstrapContext :=
  validated
    { c with flags := c.flags ||| BootstrapFlags.fixedCodeAddress, codeAddress := codeAddress }

def withFixedStateAddress (c : BootstrapContext) (stateAddress : UInt64) :
    Except BootstrapError BootstrapContext :=
  validated
    { c with flags := c.flags ||| BootstrapFlags.fixedStateAddress, stateAddress := stateAddress }

def withFixedAddresses (c : BootstrapContext) (codeAddress stateAddress : UInt64) :
    Except BootstrapError BootstrapContext :=
  validated
    { c with
      flags := c.flags ||| (BootstrapFlags.fixedCodeAddress ||| BootstrapFlags.fixedStateAddress)
      codeAddress := codeAddress
      stateAddress := stateAddress }

def fields (c : BootstrapContext) : List Field :=
  [(Codec.array 8).field 0 c.magic,
    Codec.u16.field 8 c.abiVersion,
    Codec.u16.field 10 c.structSize,
    Codec.u32.field 12 c.flags,
    Codec.u32.field 16 c.connector,
    Codec.u32.field 20 c.reservedWord,
    Codec.i32.field 24 c.artifactFd,
    Codec.i32.field 28 c.codeFd,
    Codec.i32.field 32 c.stateFd,
    Codec.i32.field 36 c.controlFd,
    Codec.u64.field 40 c.artifactLen,
    Codec.u64.field 48 c.stateLen,
    Codec.u64.field 56 c.codeAddress,
    Codec.u64.field 64 c.stateAddress,
    Codec.u64.field 72 c.generation,
    (Codec.array 16).field 80 c.apiFingerprint,
    (Codec.array 32).field 96 c.artifactSha256,
    (Codec.array 16).field 128 c.instanceNonce,
    (Codec.array 16).field 144 c.reserved]

def encode (c : BootstrapContext) : List UInt8 :=
  writeAll (List.replicate encodedLen 0) c.fields

def read (encoded : List UInt8) : BootstrapContext where
  magic := (Codec.array 8).get encoded 0
  abiVersion := Codec.u16.get encoded 8
  structSize := Codec.u16.get encoded 10
  flags := Codec.u32.get encoded 12
  connector := Codec.u32.get encoded 16
  reservedWord := Codec.u32.get encoded 20
  artifactFd := Codec.i32.get encoded 24
  codeFd := Codec.i32.get encoded 28
  stateFd := Codec.i32.get encoded 32
  controlFd := Codec.i32.get encoded 36
  artifactLen := Codec.u64.get encoded 40
  stateLen := Codec.u64.get encoded 48
  codeAddress := Codec.u64.get encoded 56
  stateAddress := Codec.u64.get encoded 64
  generation := Codec.u64.get encoded 72
  apiFingerprint := (Codec.array 16).get encoded 80
  artifactSha256 := (Codec.array 32).get encoded 96
  instanceNonce := (Codec.array 16).get encoded 128
  reserved := (Codec.array 16).get encoded 144

def decode (encoded : List UInt8) : Except BootstrapError BootstrapContext := do
  reject (encoded.length ≠ encodedLen) (.encodedLength encoded.length)
  let context := read encoded
  context.validate
  pure { context with structSize := UInt16.ofNat encodedLen }

theorem spans_fields (c : BootstrapContext) : Spans 0 c.fields encodedLen := by
  simp only [fields, Spans, Codec.field_offset, Codec.field_fin]
  decide

variable {b : List UInt8} {c : BootstrapContext}

theorem holds_fields : (∀ f ∈ c.fields, f.Holds b) ↔ read b = c := by
  obtain ⟨magic, version, size, flags, connector, word, artifact, code, state, control, artifactLen,
    stateLen, codeAddress, stateAddress, generation, api, sha, nonce, reserved⟩ := c
  simp only [fields, read, forall_mem_cons, Codec.field_holds, BootstrapContext.mk.injEq,
    not_mem_nil, false_implies, implies_true, and_true]

theorem fields_fin_le {f : Field} (hf : f ∈ c.fields) :
    f.fin ≤ (replicate encodedLen (0 : UInt8)).length := by
  rw [length_replicate]
  exact (c.spans_fields.bounds hf).2

theorem length_encode (c : BootstrapContext) : c.encode.length = encodedLen :=
  (length_writeAll fun _ => fields_fin_le).trans (length_replicate ..)

theorem read_encode (c : BootstrapContext) : read c.encode = c :=
  holds_fields.mp fun _ hf => holds_writeAll c.spans_fields.pairwise (fun _ => fields_fin_le) hf

theorem encode_read (h : b.length = encodedLen) : (read b).encode = b := by
  refine writeAll_eq ?_ (fun _ => fields_fin_le) (holds_fields.mpr rfl) fun i hi => ?_
  · rw [length_replicate, h]
  · by_cases hlt : i < encodedLen
    · obtain ⟨f, hf, hc⟩ := (read b).spans_fields.covered (Nat.zero_le i) hlt
      exact absurd hc (hi f hf)
    · rw [List.getElem?_eq_none (by rw [length_replicate]; omega), List.getElem?_eq_none (by omega)]

theorem structSize_of_validate (h : c.validate = .ok ()) :
    { c with structSize := UInt16.ofNat encodedLen } = c := by
  simp only [validate, validateIdentity, andThen_eq_ok, reject_eq_ok, ne_eq, not_not] at h
  obtain ⟨⟨-, -, hsize, -⟩, -⟩ := h
  rw [← hsize, UInt16.ofNat_toNat]

theorem decode_eq_ok :
    decode b = .ok c ↔ b.length = encodedLen ∧ read b = c ∧ c.validate = .ok () := by
  simp only [decode, andThen_eq_ok, reject_eq_ok, ne_eq, not_not]
  refine and_congr_right fun _ => ?_
  constructor
  · rintro ⟨hv, hc⟩
    rw [structSize_of_validate hv] at hc
    cases hc
    exact ⟨rfl, hv⟩
  · rintro ⟨rfl, hv⟩
    rw [structSize_of_validate hv]
    exact ⟨hv, rfl⟩

theorem validated_eq_ok {c' : BootstrapContext} (h : c.validated = .ok c') :
    c'.validate = .ok () := by
  rw [validated, andThen_eq_ok] at h
  obtain ⟨hv, hc⟩ := h
  cases hc
  exact hv

inductive Built : BootstrapContext → Prop
  | new {connector : ConnectorKind} {flags : UInt32} {artifactFd codeFd stateFd : Int32}
      {artifactLen stateLen generation : UInt64} {apiFingerprint : BitVec 128}
      {artifactSha256 : List.Vector UInt8 32} {instanceNonce : List.Vector UInt8 16}
      {c : BootstrapContext}
      (h : new connector flags artifactFd codeFd stateFd artifactLen stateLen generation
        apiFingerprint artifactSha256 instanceNonce = .ok c) : Built c
  | scmRights {c c' : BootstrapContext} {controlFd : Int32} (hc : Built c)
      (h : c.withScmRightsProvenance controlFd = .ok c') : Built c'
  | codeAddress {c c' : BootstrapContext} {address : UInt64} (hc : Built c)
      (h : c.withFixedCodeAddress address = .ok c') : Built c'
  | stateAddress {c c' : BootstrapContext} {address : UInt64} (hc : Built c)
      (h : c.withFixedStateAddress address = .ok c') : Built c'
  | addresses {c c' : BootstrapContext} {code state : UInt64} (hc : Built c)
      (h : c.withFixedAddresses code state = .ok c') : Built c'

theorem Built.valid (h : Built c) : c.validate = .ok () := by
  cases h with
  | new h =>
    rw [BootstrapContext.new, andThen_eq_ok] at h
    exact validated_eq_ok h.2
  | scmRights _ h | codeAddress _ h | stateAddress _ h | addresses _ h => exact validated_eq_ok h

theorem bootstrap_format_is_canonical :
    (∀ c : BootstrapContext, c.validate = .ok () → decode c.encode = .ok c) ∧
    (∀ (b : List UInt8) (c : BootstrapContext), decode b = .ok c →
      b.length = encodedLen ∧ c.validate = .ok () ∧ c.encode = b) ∧
    ∀ c : BootstrapContext, Built c → c.validate = .ok () := by
  refine ⟨fun c hv => ?_, fun b c hd => ?_, fun c hb => hb.valid⟩
  · exact decode_eq_ok.mpr ⟨length_encode c, read_encode c, hv⟩
  · obtain ⟨hlen, rfl, hv⟩ := decode_eq_ok.mp hd
    exact ⟨hlen, hv, encode_read hlen⟩

def demoContext : BootstrapContext where
  magic := contextMagic
  abiVersion := 1
  structSize := 160
  flags := 29
  connector := 2
  reservedWord := 0
  artifactFd := 10
  codeFd := 11
  stateFd := 12
  controlFd := 13
  artifactLen := 8192
  stateLen := 8192
  codeAddress := 65536
  stateAddress := 131072
  generation := 1
  apiFingerprint := ⟨toLe 16 7, length_toLe 16 7⟩
  artifactSha256 := List.Vector.replicate 32 3
  instanceNonce := List.Vector.replicate 16 9
  reserved := List.Vector.replicate 16 0

theorem demo_context_round_trips :
    demoContext.validate = .ok () ∧ Built demoContext ∧
      decode demoContext.encode = .ok demoContext := by
  have hnew : new .preload 1 10 11 12 8192 8192 1 7 (List.Vector.replicate 32 3)
      (List.Vector.replicate 16 9) =
        .ok { demoContext with flags := 1, controlFd := -1, codeAddress := 0, stateAddress := 0 } := by
    decide +kernel
  have hscm : withScmRightsProvenance
      { demoContext with flags := 1, controlFd := -1, codeAddress := 0, stateAddress := 0 } 13 =
        .ok { demoContext with flags := 17, codeAddress := 0, stateAddress := 0 } := by
    decide +kernel
  have haddresses : withFixedAddresses
      { demoContext with flags := 17, codeAddress := 0, stateAddress := 0 } 65536 131072 =
        .ok demoContext := by
    decide +kernel
  have hbuilt : Built demoContext := .addresses (.scmRights (.new hnew) hscm) haddresses
  have hv := bootstrap_format_is_canonical.2.2 demoContext hbuilt
  exact ⟨hv, hbuilt, bootstrap_format_is_canonical.1 demoContext hv⟩

end BootstrapContext

end DevHermit.Shmem.Format
