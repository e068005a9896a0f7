import DevHermit.Lib.Check

namespace DevHermit.Shmem.Reloc

open Lib

inductive RelocError where
  | unsupportedSlotCount (requested maximum : Nat)
  | nullBase
  | regionTooLarge
  | addressOverflow
  | allocatorOutsideRegion
  | slotSizeAlignment (required : Nat)
  | geometryOverflow
  | arenaAlignment (required : Nat)
  | arenaOutOfBounds (offset byteLen mappingLen : Nat)
  | arenaOverlapsAllocator
  | unsupportedAlignment (requested maximum : Nat)
  | lengthOverflow
  | allocationTooLarge (requested slotSize : Nat)
  | resolvedMisalignment (address required : Nat)
deriving DecidableEq, Repr

def maxRelocSlots : Nat := 1024

def relocSlotAlignment : Nat := 64

def isizeMax : Nat := 2 ^ 63 - 1

structure RelocAllocator where
  slots : Nat
  address : Nat
  size : Nat
  arenaOffset : Nat
  slotSize : Nat

namespace RelocAllocator

variable (a : RelocAllocator)

def validateGeometry (base mappingLen arenaOffset slotSize : Nat) : Except RelocError Nat := do
  reject (a.slots = 0 ∨ maxRelocSlots < a.slots) (.unsupportedSlotCount a.slots maxRelocSlots)
  reject (base = 0) .nullBase
  reject (isizeMax < mappingLen) .regionTooLarge
  let mappingEnd ← checked .addressOverflow (base + mappingLen)
  let controlEnd ← checked .addressOverflow (a.address + a.size)
  reject (a.address < base ∨ mappingEnd < controlEnd) .allocatorOutsideRegion
  reject (slotSize = 0 ∨ slotSize % relocSlotAlignment ≠ 0) (.slotSizeAlignment relocSlotAlignment)
  let arenaOffset ← checked .geometryOverflow arenaOffset
  let arenaStart ← checked .geometryOverflow (base + arenaOffset)
  reject (arenaStart % relocSlotAlignment ≠ 0) (.arenaAlignment relocSlotAlignment)
  let arenaLen ← checked .geometryOverflow (slotSize * a.slots)
  let arenaEnd ← checked .geometryOverflow (arenaStart + arenaLen)
  reject (mappingEnd < arenaEnd) (.arenaOutOfBounds arenaOffset arenaLen mappingLen)
  reject (a.address < arenaEnd ∧ arenaStart < controlEnd) .arenaOverlapsAllocator
  return a.address - base

def expectedOffset (slot : Nat) : Except RelocError Nat := do
  let relative ← checked .geometryOverflow (a.slotSize * slot)
  checked .geometryOverflow (a.arenaOffset + relative)

def validateRequest (byteLen alignment : Nat) : Except RelocError Unit := do
  reject (¬ alignment.isPowerOfTwo ∨ relocSlotAlignment < alignment)
    (.unsupportedAlignment alignment relocSlotAlignment)
  reject (isizeMax < byteLen) .lengthOverflow
  let slotSize ← checked .geometryOverflow a.slotSize
  reject (slotSize < byteLen) (.allocationTooLarge byteLen slotSize)

end RelocAllocator

def pointer (base len offset byteLen alignment : Nat) : Except RelocError Nat := do
  let offset ← checked .geometryOverflow offset
  let stop ← checked .geometryOverflow (offset + byteLen)
  reject (len < stop) (.arenaOutOfBounds offset byteLen len)
  reject ((base + offset) % alignment ≠ 0) (.resolvedMisalignment (base + offset) alignment)
  return base + offset

structure Placed (a : RelocAllocator) (base len : Nat) : Prop where
  mapped : base + len < 2 ^ 64
  slotAligned : relocSlotAlignment ∣ a.slotSize
  arenaAligned : relocSlotAlignment ∣ base + a.arenaOffset
  fits : a.arenaOffset + a.slotSize * a.slots ≤ len
  apart : base + a.arenaOffset + a.slotSize * a.slots ≤ a.address ∨
    a.address + a.size ≤ base + a.arenaOffset

variable {a : RelocAllocator} {base len : Nat}

theorem placed_of_validateGeometry {control : Nat}
    (h : a.validateGeometry base len a.arenaOffset a.slotSize = .ok control) :
    Placed a base len := by
  simp only [RelocAllocator.validateGeometry, bind_eq_ok, checked_eq_ok] at h
  obtain ⟨⟨⟩, -, ⟨⟩, -, ⟨⟩, -, _, ⟨hmapped, rfl⟩, _, ⟨-, rfl⟩, ⟨⟩, -, ⟨⟩, hslot, _, ⟨-, rfl⟩, _,
    ⟨-, rfl⟩, ⟨⟩, harena, _, ⟨-, rfl⟩, _, ⟨-, rfl⟩, ⟨⟩, hfits, ⟨⟩, hapart, -⟩ := h
  rw [reject_eq_ok] at hslot harena hfits hapart
  rw [not_or, not_not] at hslot
  exact ⟨hmapped, Nat.dvd_of_mod_eq_zero hslot.2, Nat.dvd_of_mod_eq_zero (not_not.mp harena),
    by omega, by omega⟩

theorem slot_end_le {slot slots : Nat} (size : Nat) (h : slot < slots) :
    size * slot + size ≤ size * slots := by
  rw [← Nat.mul_succ]
  exact Nat.mul_le_mul_left size h

theorem relocated_slots_resolve (a : RelocAllocator) (base len control : Nat)
    (h : a.validateGeometry base len a.arenaOffset a.slotSize = .ok control) :
    ∀ slot < a.slots, ∃ offset, a.expectedOffset slot = .ok offset ∧
      (∀ byteLen alignment, a.validateRequest byteLen alignment = .ok () →
        pointer base len offset byteLen alignment = .ok (base + offset) ∧
          alignment ∣ base + offset) ∧
      (base + offset + a.slotSize ≤ a.address ∨ a.address + a.size ≤ base + offset) ∧
      ∀ slot' < a.slots, slot' ≠ slot → ∀ offset', a.expectedOffset slot' = .ok offset' →
        offset + a.slotSize ≤ offset' ∨ offset' + a.slotSize ≤ offset := by
  intro slot hslot
  obtain ⟨hmapped, hslotAligned, harena, hfits, hapart⟩ := placed_of_validateGeometry h
  have hend := slot_end_le a.slotSize hslot
  have hoffset : ∀ slot' < a.slots,
      a.expectedOffset slot' = .ok (a.arenaOffset + a.slotSize * slot') := by
    intro slot' hslot'
    have hend' := slot_end_le a.slotSize hslot'
    rw [RelocAllocator.expectedOffset, bind_eq_ok]
    exact ⟨_, checked_eq_ok.mpr ⟨by omega, rfl⟩, checked_eq_ok.mpr ⟨by omega, rfl⟩⟩
  refine ⟨_, hoffset slot hslot, fun byteLen alignment hrequest => ?_, by omega, ?_⟩
  · simp only [RelocAllocator.validateRequest, bind_eq_ok, checked_eq_ok] at hrequest
    obtain ⟨⟨⟩, halign, ⟨⟩, -, _, ⟨-, rfl⟩, hlen⟩ := hrequest
    rw [reject_eq_ok] at halign hlen
    rw [not_or, not_not] at halign
    obtain ⟨⟨k, rfl⟩, hk⟩ := halign
    have hdvd : 2 ^ k ∣ base + (a.arenaOffset + a.slotSize * slot) := by
      have h64 : 2 ^ k ∣ relocSlotAlignment := by
        have hle : k ≤ 6 := (Nat.pow_le_pow_iff_right (a := 2) (by decide)).mp (Nat.not_lt.mp hk)
        exact Nat.pow_dvd_pow 2 hle
      rw [← Nat.add_assoc]
      exact h64.trans (Nat.dvd_add harena (hslotAligned.mul_right slot))
    refine ⟨?_, hdvd⟩
    simp only [pointer, bind_eq_ok, checked_eq_ok]
    exact ⟨_, ⟨by omega, rfl⟩, _, ⟨by omega, rfl⟩, (), reject_eq_ok.mpr (by omega), (),
      reject_eq_ok.mpr (not_not.mpr (Nat.mod_eq_zero_of_dvd hdvd)), rfl⟩
  · intro slot' hslot' hne offset' hoffset'
    cases (hoffset slot' hslot').symm.trans hoffset'
    rcases Nat.lt_or_gt_of_ne hne with hlt | hgt
    · have hbefore := slot_end_le a.slotSize hlt
      omega
    · have hafter := slot_end_le a.slotSize hgt
      omega

theorem second_slot_resolves : ∃ offset,
    RelocAllocator.expectedOffset ⟨2, 4096, 64, 64, 64⟩ 1 = .ok offset ∧
      pointer 4096 4096 offset 8 8 = .ok (4096 + offset) := by
  obtain ⟨offset, hoffset, hpointer, -⟩ :=
    relocated_slots_resolve ⟨2, 4096, 64, 64, 64⟩ 4096 4096 0 (by decide) 1 (by decide)
  exact ⟨offset, hoffset, (hpointer 8 8 (by decide +kernel)).1⟩

end DevHermit.Shmem.Reloc
