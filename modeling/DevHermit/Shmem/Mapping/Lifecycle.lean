import DevHermit.Lib.Word

namespace DevHermit.Shmem.TypedMapping

open Lib Word

def attachmentBits : UInt64 := 28
def activeBits : UInt64 := 28
def attachmentMask : UInt64 := (1 <<< attachmentBits) - 1
def activeShift : UInt64 := attachmentBits
def activeMask : UInt64 := ((1 <<< activeBits) - 1) <<< activeShift
def phaseShift : UInt64 := attachmentBits + activeBits
def attachmentOne : UInt64 := 1
def activeOne : UInt64 := 1 <<< activeShift
def maxCount : Nat := 2 ^ 28 - 1

inductive Phase where
  | uninitialized
  | initializing
  | opened
  | draining
  | closed
  | poisoned
  deriving DecidableEq, Repr

def Phase.raw : Phase → UInt64
  | .uninitialized => 0
  | .initializing => 1
  | .opened => 2
  | .draining => 3
  | .closed => 4
  | .poisoned => 5

def Phase.fromRaw (raw : UInt8) : Option Phase :=
  if raw = 0 then some .uninitialized
  else if raw = 1 then some .initializing
  else if raw = 2 then some .opened
  else if raw = 3 then some .draining
  else if raw = 4 then some .closed
  else if raw = 5 then some .poisoned
  else none

structure LifecycleSnapshot where
  phase : Phase
  attachments : Nat
  admissions : Nat
  deriving DecidableEq, Repr

structure LayoutDescriptor where
  fingerprint : Nat
  size : UInt64
  alignment : UInt64
  deriving DecidableEq, Repr

inductive LayoutField where
  | fingerprint
  | size
  | alignment
  deriving DecidableEq, Repr

structure LayoutMismatch where
  field : LayoutField
  expected : LayoutDescriptor
  found : LayoutDescriptor
  deriving DecidableEq, Repr

inductive MappingError where
  | corruptLifecycle (raw : UInt64)
  | wrongPhase (expected actual : Phase)
  | geometryOverflow
  | payloadExtent (offset length mappingLength : UInt64)
  | misalignedPayload (required address : UInt64)
  | payloadLength (expected found : UInt64)
  | layoutEncoding
  | layoutMismatch (mismatch : LayoutMismatch)
  | attachmentLimit
  | admissionLimit
  | notDrained
  deriving DecidableEq, Repr

def pack (phase : Phase) (attachments admissions : UInt32) : UInt64 :=
  (phase.raw <<< phaseShift) ||| (admissions.toUInt64 <<< activeShift) ||| attachments.toUInt64

def withPhase (value : UInt64) (phase : Phase) : UInt64 :=
  (value &&& ((1 <<< phaseShift) - 1)) ||| (phase.raw <<< phaseShift)

def decode (value : UInt64) : Except MappingError LifecycleSnapshot :=
  match Phase.fromRaw (value >>> phaseShift).toUInt8 with
  | none => .error (.corruptLifecycle value)
  | some phase => .ok {
      phase := phase
      attachments := (value &&& attachmentMask).toNat
      admissions := ((value &&& activeMask) >>> activeShift).toNat }

def wrongPhase (expected : Phase) (actual : UInt64) : MappingError :=
  match decode actual with
  | .ok snapshot => .wrongPhase expected snapshot.phase
  | .error error => error

theorem Phase.raw_lt (phase : Phase) : phase.raw.toNat < 6 := by cases phase <;> decide

theorem Phase.fromRaw_eq_some {raw : UInt8} {phase : Phase} :
    Phase.fromRaw raw = some phase ↔ raw.toNat = phase.raw.toNat := by
  constructor
  · intro h
    unfold Phase.fromRaw at h
    split_ifs at h with h0 h1 h2 h3 h4 h5
    all_goals
      obtain rfl := Option.some.inj h
      subst raw
      rfl
  · intro h
    have hr : raw = UInt8.ofNat phase.raw.toNat := by rw [← h, UInt8.ofNat_toNat]
    cases phase <;> (rw [hr]; rfl)

variable (value : UInt64)

theorem toNat_attachments : (value &&& attachmentMask).toNat = value.toNat % 2 ^ 28 :=
  toNat_and_mask value (n := 28) (by decide)

theorem toNat_admissions :
    ((value &&& activeMask) >>> activeShift).toNat = value.toNat / 2 ^ 28 % 2 ^ 28 := by
  have hm : (value &&& activeMask) >>> activeShift = (value >>> UInt64.ofNat 28) &&& mask 28 := by
    rw [UInt64.shiftRight_and]
    rfl
  rw [hm, toNat_and_mask _ (by decide), toNat_shiftRight _ (by decide)]

theorem toNat_phase : (value >>> phaseShift).toUInt8.toNat = value.toNat / 2 ^ 56 := by
  have hs : (value >>> phaseShift).toNat = value.toNat / 2 ^ 56 :=
    toNat_shiftRight value (n := 56) (by decide)
  have hv := value.toNat_lt
  rw [UInt64.toNat_toUInt8, hs]
  omega

def LifecycleSnapshot.word (s : LifecycleSnapshot) : Nat :=
  s.phase.raw.toNat * 2 ^ 56 + s.admissions * 2 ^ 28 + s.attachments

variable {s : LifecycleSnapshot} {value : UInt64}

theorem decode_eq_ok : decode value = .ok s ↔
      value.toNat = s.word ∧ s.attachments ≤ maxCount ∧ s.admissions ≤ maxCount := by
  unfold decode LifecycleSnapshot.word maxCount
  obtain ⟨phase, attachments, admissions⟩ := s
  constructor
  · intro h
    split at h
    · cases h
    · rename_i ph hp
      rw [Phase.fromRaw_eq_some, toNat_phase] at hp
      simp only [Except.ok.injEq, LifecycleSnapshot.mk.injEq] at h
      obtain ⟨rfl, rfl, rfl⟩ := h
      simp only [toNat_attachments, toNat_admissions]
      omega
  · rintro ⟨hw, ha, hg⟩
    simp only at hw ha hg
    have hp : Phase.fromRaw (value >>> phaseShift).toUInt8 = some phase := by
      rw [Phase.fromRaw_eq_some, toNat_phase]
      omega
    simp only [hp, Except.ok.injEq, LifecycleSnapshot.mk.injEq, true_and, toNat_attachments,
      toNat_admissions]
    omega

theorem decode_inj {v w : UInt64} (hv : decode v = .ok s) (hw : decode w = .ok s) : v = w := by
  rw [decode_eq_ok] at hv hw
  exact UInt64.toNat_inj.mp (hv.1.trans hw.1.symm)

theorem decode_pack (phase : Phase) (attachments admissions : UInt32)
    (ha : attachments.toNat ≤ maxCount) (hg : admissions.toNat ≤ maxCount) :
    decode (pack phase attachments admissions) =
      .ok ⟨phase, attachments.toNat, admissions.toNat⟩ := by
  unfold maxCount at ha hg
  have hp := phase.raw_lt
  have hlow : (admissions.toUInt64 <<< activeShift ||| attachments.toUInt64).toNat =
      admissions.toNat * 2 ^ 28 + attachments.toNat :=
    toNat_shiftLeft_or (n := 28) (by decide)
      (by rw [UInt32.toNat_toUInt64]; omega) (by rw [UInt32.toNat_toUInt64]; omega)
  have hall : (pack phase attachments admissions).toNat = phase.raw.toNat * 2 ^ 56 +
        (admissions.toUInt64 <<< activeShift ||| attachments.toUInt64).toNat := by
    rw [pack, UInt64.or_assoc]
    exact toNat_shiftLeft_or (n := 56) (by decide) (by omega) (by omega)
  rw [decode_eq_ok]
  refine ⟨?_, ha, hg⟩
  rw [hall, hlow, LifecycleSnapshot.word, Nat.add_assoc]

variable (h : decode value = .ok s)
include h

theorem decode_withPhase (phase : Phase) :
    decode (withPhase value phase) = .ok { s with phase := phase } := by
  rw [decode_eq_ok] at h ⊢
  obtain ⟨hw, ha, hg⟩ := h
  refine ⟨?_, ha, hg⟩
  have hm : (value &&& ((1 <<< phaseShift) - 1)).toNat = value.toNat % 2 ^ 56 :=
    toNat_and_mask value (n := 56) (by decide)
  have hp := phase.raw_lt
  have ho : (withPhase value phase).toNat =
      phase.raw.toNat * 2 ^ 56 + (value &&& ((1 <<< phaseShift) - 1)).toNat := by
    rw [withPhase, UInt64.or_comm]
    exact toNat_shiftLeft_or (n := 56) (by decide) (by omega) (by omega)
  rw [ho, hm, hw]
  unfold LifecycleSnapshot.word maxCount at *
  simp only
  omega

theorem decode_add_attachment (hlt : s.attachments ≠ maxCount) :
    decode (value + attachmentOne) = .ok { s with attachments := s.attachments + 1 } := by
  rw [decode_eq_ok] at h ⊢
  obtain ⟨hw, ha, hg⟩ := h
  have hp := s.phase.raw_lt
  have hn : (value + attachmentOne).toNat = (value.toNat + 1) % 2 ^ 64 := UInt64.toNat_add _ _
  unfold LifecycleSnapshot.word maxCount at *
  simp only
  omega

theorem decode_add_active (hlt : s.admissions ≠ maxCount) :
    decode (value + activeOne) = .ok { s with admissions := s.admissions + 1 } := by
  rw [decode_eq_ok] at h ⊢
  obtain ⟨hw, ha, hg⟩ := h
  have hp := s.phase.raw_lt
  have hn : (value + activeOne).toNat = (value.toNat + 2 ^ 28) % 2 ^ 64 := UInt64.toNat_add _ _
  unfold LifecycleSnapshot.word maxCount at *
  simp only
  omega

theorem decode_sub_attachment (hpos : 0 < s.attachments) :
    decode (value - attachmentOne) = .ok { s with attachments := s.attachments - 1 } := by
  rw [decode_eq_ok] at h ⊢
  obtain ⟨hw, ha, hg⟩ := h
  have hp := s.phase.raw_lt
  have hn : (value - attachmentOne).toNat = (2 ^ 64 - 1 + value.toNat) % 2 ^ 64 :=
    UInt64.toNat_sub _ _
  unfold LifecycleSnapshot.word maxCount at *
  simp only
  omega

theorem decode_sub_active (hpos : 0 < s.admissions) :
    decode (value - activeOne) = .ok { s with admissions := s.admissions - 1 } := by
  rw [decode_eq_ok] at h ⊢
  obtain ⟨hw, ha, hg⟩ := h
  have hp := s.phase.raw_lt
  have hn : (value - activeOne).toNat = (2 ^ 64 - 2 ^ 28 + value.toNat) % 2 ^ 64 :=
    UInt64.toNat_sub _ _
  unfold LifecycleSnapshot.word maxCount at *
  simp only
  omega

end DevHermit.Shmem.TypedMapping
