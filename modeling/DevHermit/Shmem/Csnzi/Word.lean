import DevHermit.Lib.Word

namespace DevHermit.Shmem.Csnzi

open Lib Word

def nodeCountMask : UInt64 := Word.mask 16

def nodeGenerationMask : UInt64 := Word.mask 47

def nodeReservedBit : UInt64 := 1 <<< UInt64.ofNat 63

def nodeCount (state : UInt64) : UInt64 := state &&& nodeCountMask

def nodeGeneration (state : UInt64) : UInt64 := (state >>> UInt64.ofNat 16) &&& nodeGenerationMask

def nodeState (generation count : UInt64) : UInt64 := generation <<< UInt64.ofNat 16 ||| count

def validNodeState (state : UInt64) : Bool :=
  !(state &&& nodeReservedBit != 0 || (nodeCount state != 0 && nodeGeneration state == 0))

def nextGeneration (state : UInt64) : UInt64 :=
  if nodeCount state = 0 then
    if nodeGeneration state = nodeGenerationMask then 1 else nodeGeneration state + 1
  else
    nodeGeneration state

def incremented (state : UInt64) : UInt64 := nodeState (nextGeneration state) (nodeCount state + 1)

def decremented (state : UInt64) : UInt64 := nodeState (nodeGeneration state) (nodeCount state - 1)

inductive RootPhase where
  | opened
  | closed
  | closing
  | openTail
  | closedTail
  | drained
  deriving DecidableEq, Repr

def rootCountMask : UInt64 := Word.mask 61

def rootStatusMask : UInt64 := ~~~ rootCountMask

def rootOpen : UInt64 := 0

def rootClosed : UInt64 := 1 <<< UInt64.ofNat 61

def rootOpenTail : UInt64 := 2 <<< UInt64.ofNat 61

def rootClosedTail : UInt64 := 3 <<< UInt64.ofNat 61

def rootDrained : UInt64 := 4 <<< UInt64.ofNat 61

def rootClosing : UInt64 := 5 <<< UInt64.ofNat 61

def decodeRoot (root : UInt64) : Option (RootPhase × UInt64) :=
  let count := root &&& rootCountMask
  let status := root &&& rootStatusMask
  if status = rootOpen then some (.opened, count)
  else if status = rootClosed then some (.closed, count)
  else if status = rootClosing ∧ count = 0 then some (.closing, count)
  else if status = rootOpenTail ∧ count = 0 then some (.openTail, count)
  else if status = rootClosedTail ∧ count = 0 then some (.closedTail, count)
  else if status = rootDrained ∧ count = 0 then some (.drained, count)
  else none

def RootPhase.status : RootPhase → UInt64
  | .opened => rootOpen
  | .closed => rootClosed
  | .closing => rootClosing
  | .openTail => rootOpenTail
  | .closedTail => rootClosedTail
  | .drained => rootDrained

def RootPhase.counts : RootPhase → Bool
  | .opened => true
  | .closed => true
  | .closing => false
  | .openTail => false
  | .closedTail => false
  | .drained => false

def RootPhase.isTail : RootPhase → Bool
  | .opened => false
  | .closed => false
  | .closing => false
  | .openTail => true
  | .closedTail => true
  | .drained => false

def RootPhase.isClosed : RootPhase → Bool
  | .opened => false
  | .closed => true
  | .closing => true
  | .openTail => false
  | .closedTail => true
  | .drained => true

variable (state : UInt64)

theorem toNat_nodeCount : (nodeCount state).toNat = state.toNat % 2 ^ 16 :=
  toNat_and_mask state (by decide)

theorem toNat_nodeGeneration : (nodeGeneration state).toNat = state.toNat / 2 ^ 16 % 2 ^ 47 := by
  rw [nodeGeneration, nodeGenerationMask, toNat_and_mask _ (by decide),
    toNat_shiftRight _ (by decide)]

theorem nodeCount_lt : (nodeCount state).toNat < 2 ^ 16 := by
  rw [toNat_nodeCount]
  exact Nat.mod_lt _ (by decide)

theorem nodeGeneration_lt : (nodeGeneration state).toNat < 2 ^ 47 := by
  rw [toNat_nodeGeneration]
  exact Nat.mod_lt _ (by decide)

section

variable {generation count : UInt64}

section

variable (hg : generation.toNat < 2 ^ 47) (hc : count.toNat < 2 ^ 16)
include hg hc

theorem toNat_nodeState :
    (nodeState generation count).toNat = generation.toNat * 2 ^ 16 + count.toNat :=
  toNat_shiftLeft_or (by decide) (by omega) hc

theorem nodeCount_nodeState : nodeCount (nodeState generation count) = count := by
  apply UInt64.toNat_inj.mp
  rw [toNat_nodeCount, toNat_nodeState hg hc]
  omega

theorem nodeGeneration_nodeState : nodeGeneration (nodeState generation count) = generation := by
  apply UInt64.toNat_inj.mp
  rw [toNat_nodeGeneration, toNat_nodeState hg hc]
  omega

theorem validNodeState_nodeState
    (hz : count ≠ 0 → generation ≠ 0) : validNodeState (nodeState generation count) = true := by
  have hr : nodeState generation count &&& nodeReservedBit = 0 := by
    refine and_bit_of_lt (by decide) ?_
    rw [toNat_nodeState hg hc]
    omega
  simp only [validNodeState, hr, nodeCount_nodeState hg hc, nodeGeneration_nodeState hg hc]
  by_cases hc0 : count = 0
  · simp [hc0]
  · simp [hz hc0]

end

end

variable {state : UInt64}

theorem validNodeState_generation (h : validNodeState state = true) (hc : nodeCount state ≠ 0) :
    nodeGeneration state ≠ 0 := by
  simp only [validNodeState, Bool.not_eq_true', Bool.or_eq_false_iff, Bool.and_eq_false_iff] at h
  simpa [hc] using h.2

theorem nextGeneration_spec (h : validNodeState state = true) :
    (nextGeneration state).toNat < 2 ^ 47 ∧ nextGeneration state ≠ 0 := by
  have hlt := nodeGeneration_lt state
  rw [nextGeneration]
  split_ifs with hc hm
  · decide
  · obtain ⟨hadd, hsucc⟩ := toNat_succ (by decide) hlt hm
    refine ⟨by omega, fun he => ?_⟩
    rw [he] at hadd
    simp at hadd
  · exact ⟨hlt, validNodeState_generation h hc⟩

theorem validNodeState_zero : validNodeState 0 = true := by decide +kernel

theorem nodeCount_zero : nodeCount 0 = 0 := by decide +kernel

structure Arrived (state state' : UInt64) : Prop where
  valid : validNodeState state' = true
  count : (nodeCount state').toNat = (nodeCount state).toNat + 1
  generation : nodeGeneration state' = nextGeneration state

theorem incremented_spec (h : validNodeState state = true) (hm : nodeCount state ≠ nodeCountMask) :
    Arrived state (incremented state) := by
  obtain ⟨hg, hne⟩ := nextGeneration_spec h
  obtain ⟨hadd, hlt⟩ := toNat_succ (by decide) (nodeCount_lt state) hm
  have hc : (nodeCount state + 1).toNat < 2 ^ 16 := by omega
  constructor
  · exact validNodeState_nodeState hg hc fun _ => hne
  · rw [incremented, nodeCount_nodeState hg hc, hadd]
  · exact nodeGeneration_nodeState hg hc

structure Departed (state state' : UInt64) : Prop where
  valid : validNodeState state' = true
  count : (nodeCount state').toNat + 1 = (nodeCount state).toNat
  generation : nodeGeneration state' = nodeGeneration state

theorem decremented_spec (h : validNodeState state = true) (hc : nodeCount state ≠ 0) :
    Departed state (decremented state) := by
  have hg := nodeGeneration_lt state
  have hne := validNodeState_generation h hc
  have hlt := nodeCount_lt state
  have hsub := toNat_pred hc
  have hc' : (nodeCount state - 1).toNat < 2 ^ 16 := by omega
  constructor
  · exact validNodeState_nodeState hg hc' fun _ => hne
  · rw [decremented, nodeCount_nodeState hg hc', hsub]
  · exact nodeGeneration_nodeState hg hc'

theorem status_and_statusMask (phase : RootPhase) :
    phase.status &&& rootStatusMask = phase.status := by
  cases phase <;> decide +kernel

theorem status_and_countMask (phase : RootPhase) : phase.status &&& rootCountMask = 0 := by
  cases phase <;> decide +kernel

def rootWord (phase : RootPhase) (count : UInt64) : UInt64 := phase.status ||| count

variable {root count : UInt64} {phase : RootPhase}

theorem rootWord_status (hk : count.toNat < 2 ^ 61) :
    rootWord phase count &&& rootStatusMask = phase.status := by
  rw [rootWord, or_and_distrib, status_and_statusMask, rootStatusMask, rootCountMask,
    and_not_mask_of_lt (by decide) hk, UInt64.or_zero]

theorem rootWord_count (hk : count.toNat < 2 ^ 61) :
    rootWord phase count &&& rootCountMask = count := by
  rw [rootWord, or_and_distrib, status_and_countMask, rootCountMask,
    and_mask_of_lt (by decide) hk, UInt64.zero_or]

theorem decodeRoot_rootWord (phase : RootPhase) (hk : count.toNat < 2 ^ 61)
    (hz : phase.counts = false → count = 0) :
    decodeRoot (rootWord phase count) = some (phase, count) := by
  simp only [decodeRoot, rootWord_status hk, rootWord_count hk]
  cases phase <;> simp_all [RootPhase.counts, RootPhase.status] <;> decide +kernel

theorem rootCount_lt (root : UInt64) : (root &&& rootCountMask).toNat < 2 ^ 61 := by
  rw [rootCountMask, toNat_and_mask _ (by decide)]
  exact Nat.mod_lt _ (by decide)

structure RootIs (root : UInt64) (phase : RootPhase) (count : UInt64) : Prop where
  status : root &&& rootStatusMask = phase.status
  field : root &&& rootCountMask = count
  empty : phase.counts = false → count = 0

theorem rootIs_of_decode (h : decodeRoot root = some (phase, count)) : RootIs root phase count := by
  simp only [decodeRoot] at h
  split_ifs at h with h₁ h₂ h₃ h₄ h₅ h₆ <;>
    cases h
  · exact ⟨h₁, rfl, nofun⟩
  · exact ⟨h₂, rfl, nofun⟩
  · exact ⟨h₃.1, rfl, fun _ => h₃.2⟩
  · exact ⟨h₄.1, rfl, fun _ => h₄.2⟩
  · exact ⟨h₅.1, rfl, fun _ => h₅.2⟩
  · exact ⟨h₆.1, rfl, fun _ => h₆.2⟩

theorem decodeRoot_unique {phase' : RootPhase} {count' : UInt64}
    (h : decodeRoot root = some (phase, count)) (h' : decodeRoot root = some (phase', count')) :
    phase = phase' ∧ count = count' := by
  rw [h] at h'
  simpa only [Option.some.injEq, Prod.mk.injEq] using h'

theorem RootIs.eq_rootWord (h : RootIs root phase count) : root = rootWord phase count := by
  rw [rootWord, ← h.status, ← h.field]
  exact (split_mask root rootCountMask).symm

theorem RootIs.lt (h : RootIs root phase count) : count.toNat < 2 ^ 61 := by
  rw [← h.field]
  exact rootCount_lt root

def rootIncremented (root : UInt64) : UInt64 :=
  (root &&& rootStatusMask) ||| ((root &&& rootCountMask) + 1)

def rootDecremented (root : UInt64) : UInt64 :=
  (root &&& rootStatusMask) ||| ((root &&& rootCountMask) - 1)

section

variable (h : decodeRoot root = some (phase, count))
include h

theorem decodeRoot_rootIncremented (hp : phase.counts = true) (hm : count ≠ rootCountMask) :
    decodeRoot (rootIncremented root) = some (phase, count + 1) ∧
      (count + 1).toNat = count.toNat + 1 := by
  have hr := rootIs_of_decode h
  obtain ⟨hadd, hlt⟩ := toNat_succ (by decide) hr.lt hm
  refine ⟨?_, hadd⟩
  rw [rootIncremented, hr.status, hr.field]
  exact decodeRoot_rootWord phase (by omega) (by simp [hp])

theorem decodeRoot_rootDecremented (hp : phase.counts = true) (hc : count ≠ 0) :
    decodeRoot (rootDecremented root) = some (phase, count - 1) ∧
      (count - 1).toNat + 1 = count.toNat := by
  have hr := rootIs_of_decode h
  have hlt := hr.lt
  have hsub := toNat_pred hc
  refine ⟨?_, hsub⟩
  rw [rootDecremented, hr.status, hr.field]
  exact decodeRoot_rootWord phase (by omega) (by simp [hp])

theorem decodeRoot_closed : decodeRoot (rootClosed ||| count) = some (.closed, count) :=
  decodeRoot_rootWord .closed (rootIs_of_decode h).lt nofun

end

theorem decodeRoot_status (phase : RootPhase) : decodeRoot phase.status = some (phase, 0) := by
  cases phase <;> decide +kernel

theorem eq_rootDrained_of_decode (h : decodeRoot root = some (.drained, count)) :
    root = rootDrained := by
  have hr := rootIs_of_decode h
  rw [hr.eq_rootWord, hr.empty rfl]
  exact UInt64.or_zero

end DevHermit.Shmem.Csnzi
