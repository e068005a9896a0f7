import DevHermit.Lib.Word

namespace DevHermit.Shmem

open Lib

namespace Tree

def fanout : Nat := 4

def tokenLeafBits : Nat := 16

def maxLeaves : Nat := 1 <<< tokenLeafBits

def completeLevels (nodes total levelWidth : Nat) (hw : 0 < levelWidth) : Bool :=
  if total = nodes then
    decide (levelWidth ≤ maxLeaves)
  else if nodes < total ∨ maxLeaves / fanout < levelWidth then
    false
  else if nodes - total < levelWidth * fanout then
    false
  else
    completeLevels nodes (total + levelWidth * fanout) (levelWidth * fanout)
      (Nat.mul_pos hw (by decide))
termination_by nodes - total
decreasing_by
  have : 0 < levelWidth * fanout := Nat.mul_pos hw (by decide)
  omega

def isValidNodeCount (nodes : Nat) : Bool :=
  if nodes < fanout then false else completeLevels nodes fanout fanout (by decide)

def leafStart (nodes : Nat) : Nat := (nodes - fanout) / fanout

def layoutLeafCount (nodes : Nat) : Nat :=
  if isValidNodeCount nodes then nodes - (nodes - fanout) / fanout else 0

def parent (node : Nat) : Option Nat :=
  if node < fanout then none else some ((node - fanout) / fanout)

theorem parent_lt {node up : Nat} (h : parent node = some up) : up < node := by
  simp only [parent, fanout] at h
  by_cases hn : node < 4
  · simp [hn] at h
  · simp only [hn, if_false, Option.some.injEq] at h
    omega

theorem completeLevels_leaves {nodes total levelWidth : Nat} {hw : 0 < levelWidth}
    (hinv : 3 * total + 4 = 4 * levelWidth) (h : completeLevels nodes total levelWidth hw = true) :
    nodes - (nodes - fanout) / fanout ≤ maxLeaves := by
  induction total, levelWidth, hw using completeLevels.induct nodes with
  | case1 levelWidth hw =>
    rw [completeLevels, if_pos rfl, decide_eq_true_eq] at h
    simp only [fanout]
    omega
  | case2 total levelWidth hw hne hbad =>
    rw [completeLevels, if_neg hne, if_pos hbad] at h
    exact absurd h (by decide)
  | case3 total levelWidth hw hne hbad hshort =>
    rw [completeLevels, if_neg hne, if_neg hbad, if_pos hshort] at h
    exact absurd h (by decide)
  | case4 total levelWidth hw hne hbad hshort ih =>
    rw [completeLevels, if_neg hne, if_neg hbad, if_neg hshort] at h
    exact ih (by simp only [fanout]; omega) h

theorem layoutLeafCount_le (nodes : Nat) : layoutLeafCount nodes ≤ maxLeaves := by
  rw [layoutLeafCount]
  split_ifs with hv
  · rw [isValidNodeCount] at hv
    split_ifs at hv
    exact completeLevels_leaves (by decide) hv
  · exact Nat.zero_le _

theorem leaf_node_lt {nodes leaf : Nat} (h : leaf < layoutLeafCount nodes) :
    leafStart nodes + leaf < nodes := by
  simp only [layoutLeafCount] at h
  split_ifs at h with hv
  · simp only [leafStart]
    omega
  · exact absurd h (Nat.not_lt_zero _)

end Tree

structure TreeSize where
  nodes : Nat
  valid : Tree.isValidNodeCount nodes = true

theorem TreeSize.nodes_pos (t : TreeSize) : 0 < t.nodes := by
  have hv := t.valid
  rw [Tree.isValidNodeCount] at hv
  split_ifs at hv with hsmall
  simp only [Tree.fanout] at hsmall
  omega

def fourNodes : TreeSize := ⟨4, by decide +kernel⟩

structure Token where
  leaf : Nat
  generation : UInt64
  deriving DecidableEq, Repr

def tokenLeafMask : UInt64 := Word.mask 16

def tokenGenerationMask : UInt64 := Word.mask 47

def tokenReservedBit : UInt64 := 1 <<< UInt64.ofNat 63

def Token.intoRaw (t : Token) : UInt64 := t.generation <<< UInt64.ofNat 16 ||| UInt64.ofNat t.leaf

def decodeRaw (raw : UInt64) : Option Token :=
  if raw &&& tokenReservedBit ≠ 0 then none
  else
    let generation := raw >>> UInt64.ofNat 16
    if generation = 0 ∨ tokenGenerationMask < generation then none
    else some ⟨(raw &&& tokenLeafMask).toNat, generation⟩

theorem decodeRaw_intoRaw {t : Token} (hl : t.leaf < 2 ^ 16) (hg : t.generation.toNat < 2 ^ 47)
    (hz : t.generation ≠ 0) : decodeRaw t.intoRaw = some t := by
  have hleaf : (UInt64.ofNat t.leaf).toNat = t.leaf := by
    rw [UInt64.toNat_ofNat', Nat.mod_eq_of_lt (by omega)]
  have hraw : t.intoRaw.toNat = t.generation.toNat * 2 ^ 16 + t.leaf := by
    rw [Token.intoRaw, Word.toNat_shiftLeft_or (by decide) (by omega) (by omega), hleaf]
  have hres : t.intoRaw &&& tokenReservedBit = 0 := Word.and_bit_of_lt (by decide) (by omega)
  have hgen : t.intoRaw >>> UInt64.ofNat 16 = t.generation := by
    apply UInt64.toNat_inj.mp
    rw [Word.toNat_shiftRight _ (by decide), hraw]
    omega
  have hlow : (t.intoRaw &&& tokenLeafMask).toNat = t.leaf := by
    rw [tokenLeafMask, Word.toNat_and_mask _ (by decide), hraw]
    omega
  have hle : ¬ tokenGenerationMask < t.generation := by
    rw [UInt64.lt_iff_toNat_lt, tokenGenerationMask, Word.toNat_mask (by decide)]
    omega
  simp only [decodeRaw, hres, hgen, hlow, hz, hle, ne_eq, not_true_eq_false, or_self, if_false]

end DevHermit.Shmem
