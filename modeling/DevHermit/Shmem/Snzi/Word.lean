import DevHermit.Lib.Word

namespace DevHermit.Shmem.Snzi

open Lib Word

def countMask : UInt64 := Word.mask 16

def halfBit : UInt64 := 1 <<< UInt64.ofNat 16

def versionMask : UInt64 := Word.mask 47

def stateCount (state : UInt64) : UInt64 := state &&& countMask

def stateIsHalf (state : UInt64) : Bool := state &&& halfBit != 0

def stateGeneration (state : UInt64) : UInt64 := state >>> UInt64.ofNat 17

def stateWithCount (generation count : UInt64) : UInt64 := generation <<< UInt64.ofNat 17 ||| count

def stateHalf (generation : UInt64) : UInt64 := generation <<< UInt64.ofNat 17 ||| halfBit

def incremented (state : UInt64) : UInt64 :=
  stateWithCount (stateGeneration state) (stateCount state + 1)

def decremented (state : UInt64) : UInt64 :=
  stateWithCount (stateGeneration state) (stateCount state - 1)

theorem toNat_halfBit : halfBit.toNat = 2 ^ 16 := by decide +kernel

variable (state : UInt64)

theorem toNat_stateCount : (stateCount state).toNat = state.toNat % 2 ^ 16 :=
  toNat_and_mask state (by decide)

theorem toNat_stateGeneration : (stateGeneration state).toNat = state.toNat / 2 ^ 17 :=
  toNat_shiftRight state (by decide)

theorem stateIsHalf_iff : stateIsHalf state = true ↔ state.toNat / 2 ^ 16 % 2 = 1 := by
  have hz : state &&& halfBit = 0 ↔ (state &&& halfBit).toNat = 0 :=
    ⟨fun h => by rw [h]; rfl, fun h => UInt64.toNat_inj.mp h⟩
  rw [stateIsHalf, bne_iff_ne, ne_eq, hz, UInt64.toNat_and, toNat_halfBit, Nat.and_two_pow,
    Nat.testBit_eq_decide_div_mod_eq]
  simp

theorem stateCount_lt : (stateCount state).toNat < 2 ^ 16 := by
  rw [toNat_stateCount]
  exact Nat.mod_lt _ (by decide)

theorem stateGeneration_lt : (stateGeneration state).toNat < 2 ^ 47 := by
  have := state.toNat_lt
  rw [toNat_stateGeneration]
  omega

variable {state : UInt64}

theorem stateCount_eq_zero : stateCount state = 0 ↔ (stateCount state).toNat = 0 :=
  ⟨fun h => by rw [h]; rfl, fun h => UInt64.toNat_inj.mp h⟩

theorem eq_of_fields {a b : UInt64} (hg : stateGeneration a = stateGeneration b)
    (hh : stateIsHalf a = stateIsHalf b) (hc : stateCount a = stateCount b) : a = b := by
  have hg' := congrArg UInt64.toNat hg
  have hc' := congrArg UInt64.toNat hc
  have hh' : stateIsHalf a = true ↔ stateIsHalf b = true := by rw [hh]
  rw [stateIsHalf_iff, stateIsHalf_iff] at hh'
  rw [toNat_stateGeneration, toNat_stateGeneration] at hg'
  rw [toNat_stateCount, toNat_stateCount] at hc'
  exact UInt64.toNat_inj.mp (by omega)

section

variable {generation count : UInt64}

theorem toNat_stateWithCount (hg : generation.toNat < 2 ^ 47) (hc : count.toNat < 2 ^ 16) :
    (stateWithCount generation count).toNat = generation.toNat * 2 ^ 17 + count.toNat :=
  toNat_shiftLeft_or (by decide) (by omega) (by omega)

theorem toNat_stateHalf (hg : generation.toNat < 2 ^ 47) :
    (stateHalf generation).toNat = generation.toNat * 2 ^ 17 + 2 ^ 16 := by
  rw [stateHalf, toNat_shiftLeft_or (by decide) (by omega) (by rw [toNat_halfBit]; decide),
    toNat_halfBit]

structure Packed (state generation : UInt64) (half : Bool) (count : UInt64) : Prop where
  generation : stateGeneration state = generation
  half : stateIsHalf state = half
  count : stateCount state = count

theorem stateWithCount_packed (hg : generation.toNat < 2 ^ 47) (hc : count.toNat < 2 ^ 16) :
    Packed (stateWithCount generation count) generation false count := by
  have hn := toNat_stateWithCount hg hc
  constructor
  · apply UInt64.toNat_inj.mp
    rw [toNat_stateGeneration, hn]
    omega
  · rw [← Bool.not_eq_true, stateIsHalf_iff, hn]
    omega
  · apply UInt64.toNat_inj.mp
    rw [toNat_stateCount, hn]
    omega

theorem stateHalf_packed (hg : generation.toNat < 2 ^ 47) :
    Packed (stateHalf generation) generation true 0 := by
  have hn := toNat_stateHalf hg
  constructor
  · apply UInt64.toNat_inj.mp
    rw [toNat_stateGeneration, hn]
    omega
  · rw [stateIsHalf_iff, hn]
    omega
  · rw [stateCount_eq_zero, toNat_stateCount, hn]
    omega

theorem Packed.unique {a b : UInt64} {half : Bool} (ha : Packed a generation half count)
    (hb : Packed b generation half count) : a = b :=
  eq_of_fields (ha.generation.trans hb.generation.symm) (ha.half.trans hb.half.symm)
    (ha.count.trans hb.count.symm)

end

structure ValidState (state : UInt64) : Prop where
  half : stateIsHalf state = true → stateCount state = 0
  generation : stateIsHalf state = true ∨ stateCount state ≠ 0 → stateGeneration state ≠ 0

theorem validState_zero : ValidState 0 := by
  have hh : stateIsHalf 0 = false := by decide +kernel
  have hc : stateCount 0 = 0 := by decide +kernel
  exact ⟨fun _ => hc, by simp [hh, hc]⟩

def virtual (state : UInt64) : Nat := if stateIsHalf state then 1 else (stateCount state).toNat

def isActive (state : UInt64) : Bool := !stateIsHalf state && stateCount state != 0

theorem virtual_zero : virtual 0 = 0 := by decide +kernel

theorem isActive_iff :
    isActive state = true ↔ stateIsHalf state = false ∧ stateCount state ≠ 0 := by
  simp [isActive]

theorem virtual_of_active (h : isActive state = true) :
    virtual state = (stateCount state).toNat := by
  rw [virtual, (isActive_iff.mp h).1]
  rfl

theorem virtual_eq_zero : virtual state = 0 ↔ stateIsHalf state = false ∧ stateCount state = 0 := by
  rw [virtual, stateCount_eq_zero]
  cases stateIsHalf state <;> simp

theorem virtual_lt (state : UInt64) : virtual state < 2 ^ 16 := by
  have := stateCount_lt state
  rw [virtual]
  split_ifs <;> omega

variable {state : UInt64}

structure Installed (state state' : UInt64) : Prop where
  valid : ValidState state'
  half : stateIsHalf state' = true
  generation : stateGeneration state' = stateGeneration state + 1

theorem stateHalf_installed (hg : stateGeneration state ≠ versionMask) :
    Installed state (stateHalf (stateGeneration state + 1)) := by
  obtain ⟨hadd, hlt⟩ := toNat_succ (by decide) (stateGeneration_lt state) hg
  have hp : Packed (stateHalf (stateGeneration state + 1)) (stateGeneration state + 1) true 0 :=
    stateHalf_packed (by omega)
  refine ⟨⟨fun _ => hp.count, fun _ he => ?_⟩, hp.half, hp.generation⟩
  rw [hp.generation] at he
  rw [he] at hadd
  simp at hadd

structure Published (state state' : UInt64) : Prop where
  valid : ValidState state'
  active : isActive state' = true
  virtual : virtual state' = 1
  generation : stateGeneration state' = stateGeneration state

theorem stateWithCount_published (hv : ValidState state) (hh : stateIsHalf state = true) :
    Published state (stateWithCount (stateGeneration state) 1) := by
  have hp : Packed (stateWithCount (stateGeneration state) 1) (stateGeneration state) false 1 :=
    stateWithCount_packed (stateGeneration_lt state) (by decide)
  have hone : (1 : UInt64) ≠ 0 := by decide
  refine ⟨⟨fun h => absurd (hp.half.symm.trans h) Bool.false_ne_true, fun _ => ?_⟩, ?_, ?_,
    hp.generation⟩
  · rw [hp.generation]
    exact hv.generation (.inl hh)
  · rw [isActive_iff, hp.count]
    exact ⟨hp.half, hone⟩
  · rw [virtual, hp.half, hp.count]
    rfl

structure Shifted (state state' : UInt64) : Prop where
  valid : ValidState state'
  whole : stateIsHalf state' = false
  generation : stateGeneration state' = stateGeneration state

variable (hv : ValidState state) (ha : isActive state = true)
include hv ha

theorem stateWithCount_shifted {count : UInt64} (hc : count.toNat < 2 ^ 16) :
    Shifted state (stateWithCount (stateGeneration state) count) := by
  have hp := stateWithCount_packed (stateGeneration_lt state) hc
  refine ⟨⟨fun h => absurd (hp.half.symm.trans h) Bool.false_ne_true, fun _ => ?_⟩, hp.half,
    hp.generation⟩
  rw [hp.generation]
  exact hv.generation (.inr (isActive_iff.mp ha).2)

theorem incremented_spec (hm : stateCount state ≠ countMask) :
    Shifted state (incremented state) ∧ virtual (incremented state) = virtual state + 1 := by
  obtain ⟨hadd, hlt⟩ := toNat_succ (by decide) (stateCount_lt state) hm
  have hc : (stateCount state + 1).toNat < 2 ^ 16 := by omega
  have hp := stateWithCount_packed (stateGeneration_lt state) hc
  refine ⟨stateWithCount_shifted hv ha hc, ?_⟩
  rw [incremented, virtual, hp.half, hp.count, virtual_of_active ha]
  exact hadd

theorem decremented_spec :
    Shifted state (decremented state) ∧ virtual (decremented state) + 1 = virtual state := by
  have hlt := stateCount_lt state
  have hsub := toNat_pred (isActive_iff.mp ha).2
  have hc : (stateCount state - 1).toNat < 2 ^ 16 := by omega
  have hp := stateWithCount_packed (stateGeneration_lt state) hc
  refine ⟨stateWithCount_shifted hv ha hc, ?_⟩
  rw [decremented, virtual, hp.half, hp.count, virtual_of_active ha]
  exact hsub

end DevHermit.Shmem.Snzi
