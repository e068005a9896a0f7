import DevHermit.Lib.Check

namespace DevHermit.Shmem.Audit

open Lib

inductive RelocationKind where
  | relative
  | pltRelative
  | other
deriving DecidableEq

inductive RelocationEncoding where
  | generic
  | x86Branch
  | x86RipRelative
  | other
deriving DecidableEq

inductive RelocationTarget where
  | symbol (index : Nat)
  | section (index : Nat)
  | other
deriving DecidableEq

structure Relocation where
  kind : RelocationKind
  size : Nat
  encoding : RelocationEncoding
  hasImplicitAddend : Bool
  target : RelocationTarget
  addend : Int

structure Section where
  name : String
  address : Nat
  size : Nat
  align : Nat
  alloc : Bool
  writable : Bool
  executable : Bool
deriving DecidableEq

structure Symbol where
  address : Nat
  sectionIndex : Option Nat
  isUndefined : Bool
  isWeak : Bool

structure Elf where
  isExecutable : Bool
  sections : List Section
  symbols : List Symbol
  relocations : List (Nat × Relocation)

inductive ReferenceError where
  | storageOverflow
  | storageOutside
  | podOverflow
  | placeOverflow
  | targetOverflow
  | outside (effective podAddress podEnd : Nat)
  | displacement
deriving DecidableEq

inductive AuditError where
  | format
  | noPod
  | podAddress
  | podAlignment (alignment : Nat)
  | forbiddenSection
  | undefinedSymbol
  | forbiddenRelocation (offset : Nat)
  | forbiddenEncoding (offset : Nat)
  | implicitAddend (offset : Nat)
  | targetOutside (offset : Nat)
  | unsupportedTarget
  | noSuchIndex
  | reference (offset : Nat) (error : ReferenceError)
deriving DecidableEq

def validateEffectiveReference (podAddress podSize offset targetAddress : Nat) (addend : Int) :
    Except ReferenceError Unit := do
  let relocationEnd ← checked .storageOverflow (offset + 4)
  reject (podSize < relocationEnd) .storageOutside
  let podEnd ← checked .podOverflow (podAddress + podSize)
  let place ← checked .placeOverflow (podAddress + offset)
  reject (targetAddress + addend + 4 < 0 ∨ 2 ^ 64 - 1 < targetAddress + addend + 4) .targetOverflow
  let effective := (targetAddress + addend + 4).toNat
  reject (effective < podAddress ∨ podEnd ≤ effective)
    (.outside effective podAddress podEnd)
  let displacement : Int := effective - (place + 4)
  reject (displacement < -2 ^ 31 ∨ 2 ^ 31 - 1 < displacement) .displacement

def relocationTargetAddress (elf : Elf) (podIndex : Nat) :
    RelocationTarget → Except AuditError (Nat × Bool)
  | .symbol index =>
    match elf.symbols[index]? with
    | none => .error .noSuchIndex
    | some symbol => .ok (symbol.address, symbol.sectionIndex = some podIndex)
  | .section index =>
    match elf.sections[index]? with
    | none => .error .noSuchIndex
    | some found => .ok (found.address, index = podIndex)
  | .other => .error .unsupportedTarget

def validatePodRelocation (elf : Elf) (pod : Section) (podIndex offset : Nat)
    (relocation : Relocation) : Except AuditError Unit := do
  reject relocation.hasImplicitAddend (.implicitAddend offset)
  let target ← relocationTargetAddress elf podIndex relocation.target
  reject (target.2 = false) (.targetOutside offset)
  (validateEffectiveReference pod.address pod.size offset target.1 relocation.addend).mapError
    (.reference offset)

def auditRelocation (elf : Elf) (pod : Section) (podIndex : Nat) (entry : Nat × Relocation) :
    Except AuditError Unit := do
  reject (entry.2.kind = .other ∨ entry.2.size ≠ 32) (.forbiddenRelocation entry.1)
  reject (entry.2.encoding = .other) (.forbiddenEncoding entry.1)
  validatePodRelocation elf pod podIndex entry.1 entry.2

def forbidden (podIndex : Nat) (entry : Section × Nat) : Bool :=
  entry.1.alloc && entry.1.size ≠ 0 &&
    (entry.2 ≠ podIndex || entry.1.writable || !entry.1.executable)

def auditLinkedElf (elf : Elf) : Except AuditError (Nat × Section) := do
  reject (elf.isExecutable = false) .format
  match elf.sections.zipIdx.find? fun entry => entry.1.name = ".pod" with
  | none => .error .noPod
  | some (pod, podIndex) =>
    reject (pod.address ≠ 0 ∨ pod.size = 0) .podAddress
    reject (¬ pod.align.isPowerOfTwo ∨ 4096 < pod.align) (.podAlignment pod.align)
    reject (elf.sections.zipIdx.any (forbidden podIndex)) .forbiddenSection
    reject (elf.symbols.any fun symbol => symbol.isUndefined && !symbol.isWeak) .undefinedSymbol
    elf.relocations.forM (auditRelocation elf pod podIndex)
    return (podIndex, pod)

def displacement (pod : Section) (offset targetAddress : Nat) (addend : Int) : Int :=
  targetAddress + addend - (pod.address + offset)

theorem of_forM_eq_ok {α ε : Type} {f : α → Except ε Unit} {l : List α} (h : l.forM f = .ok ())
    {x : α} (hx : x ∈ l) : f x = .ok () := by
  induction l with
  | nil => cases hx
  | cons y l ih =>
    obtain ⟨⟨⟩, hy, h⟩ := bind_eq_ok.mp h
    rcases List.mem_cons.mp hx with rfl | hx
    · exact hy
    · exact ih h hx

theorem accepted_reference_stays_inside_iff (elf : Elf) (podIndex : Nat) (pod : Section)
    (h : auditLinkedElf elf = .ok (podIndex, pod)) (offset : Nat) (relocation : Relocation)
    (hmem : (offset, relocation) ∈ elf.relocations) (immediate base : Nat) :
    ∃ target d, relocationTargetAddress elf podIndex relocation.target = .ok (target, true) ∧
      d = displacement pod offset target relocation.addend ∧ -2 ^ 31 ≤ d ∧ d < 2 ^ 31 ∧
      base + offset + 4 + immediate + d =
        base + (pod.address + offset + 4 + immediate + d) - pod.address ∧
      ((base ≤ base + offset + 4 + immediate + d ∧
        base + offset + 4 + immediate + d < base + pod.size) ↔
        target + relocation.addend + 4 + immediate < pod.size) ∧
      target + relocation.addend + 4 < pod.size := by
  simp only [auditLinkedElf, andThen_eq_ok] at h
  obtain ⟨-, h⟩ := h
  split at h
  · cases h
  · rename_i pod' podIndex' hfound
    simp only [andThen_eq_ok, reject_eq_ok] at h
    obtain ⟨haddress, -, -, -, haudit, hret⟩ := h
    cases hret
    have hentry := of_forM_eq_ok haudit hmem
    simp only [auditRelocation, validatePodRelocation, andThen_eq_ok, reject_eq_ok] at hentry
    obtain ⟨-, -, -, hentry⟩ := hentry
    obtain ⟨target, htarget, hentry⟩ := bind_eq_ok.mp hentry
    obtain ⟨hinside, hentry⟩ := andThen_eq_ok.mp hentry
    replace hentry := mapError_eq_ok hentry
    simp only [validateEffectiveReference, bind_eq_ok, checked_eq_ok] at hentry
    obtain ⟨_, ⟨-, rfl⟩, ⟨⟩, -, _, ⟨-, rfl⟩, _, ⟨-, rfl⟩, ⟨⟩, hrange, ⟨⟩, heffective, hdisplacement⟩ :=
      hentry
    rw [reject_eq_ok] at hinside hrange heffective hdisplacement
    refine ⟨target.1, _, ?_, rfl, ?_⟩
    · rw [htarget, ← Bool.eq_true_of_not_eq_false hinside]
    · simp only [displacement]
      omega

def linked (addend : Int) : Elf :=
  ⟨true, [⟨".pod", 0, 16, 16, true, false, true⟩], [⟨16, some 0, false, false⟩],
    [(4, ⟨.relative, 32, .x86RipRelative, false, .symbol 0, addend⟩)]⟩

theorem byte_compare_reads_past_the_pod :
    ∃ pod, auditLinkedElf (linked (-5)) = .ok (0, pod) ∧
      relocationTargetAddress (linked (-5)) 0 (.symbol 0) = .ok (16, true) ∧
      (4096 + 4 + 4 + 1 + displacement pod 4 16 (-5) : Int) = 4096 + pod.size :=
  ⟨⟨".pod", 0, 16, 16, true, false, true⟩, by decide, by decide, by decide⟩

theorem load_of_last_byte_stays_inside :
    ∃ target d : Int, d = target - 9 ∧ target = 16 ∧
      4096 ≤ 4096 + 4 + 4 + 0 + d ∧ 4096 + 4 + 4 + 0 + d < 4096 + 16 := by
  obtain ⟨target, d, htarget, hd, -, -, -, hiff, hinside⟩ := accepted_reference_stays_inside_iff (linked (-5))
    0 ⟨".pod", 0, 16, 16, true, false, true⟩ (by decide) 4 _ (.head _) 0 4096
  cases htarget
  exact ⟨16, d, hd, rfl, hiff.mpr hinside⟩

end DevHermit.Shmem.Audit
