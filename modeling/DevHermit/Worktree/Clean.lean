import DevHermit.Worktree.Transaction

namespace DevHermit.Worktree.Clean

open Lib Script

def commitSlot (window : Window) (s : SlotState) : Task SlotState := do
  saveState window (some s)
  let _ ← regenActiveMd (some s)
  .ret s

def SlotState.armed (s : SlotState) (p : Product) (fenced : Loc) : SlotState :=
  { s with status := "releasing", releaseJournal := some ⟨p, .canonical, fenced, .armed⟩ }

def armReleaseJournal (s : SlotState) (p : Product) : Task (SlotState × Loc) := do
  let nonce ← clock
  let s' ← commitSlot .settled (s.armed p (.fenced nonce))
  .ret (s', .fenced nonce)

def SlotState.completed (s : SlotState) : SlotState :=
  { s with
    releaseJournal := s.releaseJournal.map fun j => { j with phase := .gitRemovalComplete } }

def markGitRemovalComplete (s : SlotState) : Task SlotState := commitSlot .exposed s.completed

def SlotState.cleared (s : SlotState) : SlotState :=
  { s with
    status := if s.coordinatorLeaseRevocation.isSome then "owner-lease-revoked" else "active"
    releaseJournal := none }

def SlotState.without (s : SlotState) (p : Product) : SlotState :=
  { s with branch := Function.update s.branch p "-" }

def clearReleaseJournal (s : SlotState) : Task SlotState := commitSlot .settled s.cleared

def SlotState.revocation (s : SlotState) (status : String) (phase : RevocationPhase) : SlotState :=
  { s with status := status, coordinatorLeaseRevocation := some phase }

def armCoordinatorLeaseRevocation (s : SlotState) : Task SlotState :=
  if s.coordinatorLeaseRevocation.isSome then
    .raise "coordinator lease revocation is already journaled"
  else if !s.coordinatorLease then .raise "slot has no Codex coordinator lease to revoke"
  else do
    inspect "coordinator lease is not live"
    commitSlot .settled (s.revocation "revoking-coordinator-lease" .stopAuthorized)

def completeCoordinatorLeaseRevocation (s : SlotState) : Task SlotState := do
  inspect "coordinator lease does not bind the slot"
  match s.coordinatorLeaseRevocation with
  | none => .raise "slot has no coordinator lease revocation journal"
  | some .stopAuthorized => do
      inspect "coordinator sentinel could not be stopped"
      commitSlot .settled (s.revocation "owner-lease-revoked" .revoked)
  | some .revoked => do
      inspect "coordinator sentinel is not revoked"
      .ret s

def recordedOwnerAuthorities (s : SlotState) : Task Unit := do
  inspect "owner lease refused cleanup"
  if !s.coordinatorLease && s.coordinatorLeaseRevocation.isSome then
    .raise "sentinel revocation journal without a coordinator lease"
  else .ret ()

def SlotState.sentinelLive (s : SlotState) : Bool :=
  s.coordinatorLease && s.coordinatorLeaseRevocation != some .revoked

def SlotState.targets (s : SlotState) : List Product := products.filter fun p => s.branch p != "-"

def World.boundTargets (w : World) (s : SlotState) : Bool :=
  (s.targets.all fun p => decide (.canonical ∈ (w.tree p).dirs) &&
    (w.tree p).registered.count .canonical == 1) &&
  (!w.slotDir || products.all fun p => (w.tree p).dirs.all fun place =>
    place == .canonical && decide (p ∈ s.targets))

def cleanTargetsFromState (s : SlotState) : Task (List Product) := do
  demand .settled "clean targets do not bind the slot" fun w => w.boundTargets s
  .ret s.targets

def journalTarget (s : SlotState) : Task (Option (Product × Loc)) :=
  match s.releaseJournal with
  | none =>
    if s.status = "releasing" then .raise "slot is releasing without a release_journal"
    else .ret none
  | some j =>
    if j.original ≠ .canonical ∨ j.fenced = .canonical then
      .raise "release_journal does not bind its exact canonical target"
    else .ret (some (j.label, j.fenced))

inductive PathFenceRecovery where
  | none
  | restored
  | removalCompleted (target : Product)

def recoverAtCanonical (p : Product) (fenced : Loc) : Task Unit := do
  submoduleAdminPaths p .canonical
  let present ← observe .settled "inspect path-fence marker" fun w => (w.tree p).pathFence.isSome
  if present then do
    let method ← validatePathFenceMarker p fenced
    match method with
    | .gitWorktreeMove => removePathFence "clear recovered path-fence marker" p
    | .atomicRenameRepair => restoreAtomicPathFence p fenced
  else .ret ()

def recoverAtFence (p : Product) (fenced : Loc) : Task Unit := do
  submoduleAdminPaths p fenced
  unfence "clear recovered path-fence marker" p fenced

def SlotState.removalRecorded (s : SlotState) : Bool :=
  s.releaseJournal.any fun j => j.phase == .gitRemovalComplete

def recoverPlace (s : SlotState) (p : Product) (fenced : Loc) :
    Bool → Bool → Task PathFenceRecovery
  | true, false => do
      recoverAtCanonical p fenced
      restoreForceFenceAdmin p
      .ret .restored
  | false, true => do
      recoverAtFence p fenced
      restoreForceFenceAdmin p
      .ret .restored
  | true, true => .raise "both canonical and fenced targets exist"
  | false, false =>
    if s.removalRecorded then do
      verifyCompletedGitRemoval .settled p fenced
      .ret (.removalCompleted p)
    else .raise "both release paths are absent without durable git-removal-complete evidence"

def recoverPathFence (s : SlotState) : Task PathFenceRecovery := do
  let journaled ← journalTarget s
  match journaled with
  | none => .ret .none
  | some (p, fenced) => do
      let originalExists ← exactPathPresent .settled p .canonical
      let fencedExists ← exactPathPresent .settled p fenced
      recoverPlace s p fenced originalExists fencedExists

def recoverJournaled (s : SlotState) : Task (SlotState × Bool) := do
  let journaled ← journalTarget s
  match journaled with
  | none => .ret (s, false)
  | some _ => do
      inspect "release journal remains in use; refusing recovery"
      let recovery ← recoverPathFence s
      match recovery with
      | .none => .ret (s, false)
      | .restored => .ret (s, true)
      | .removalCompleted p => do
          let s' ← clearReleaseJournal (s.without p)
          .ret (s', true)

structure Proofs where
  recoveredAny : Bool
  anyDirty : Bool
  nested : Product → Bool

def recoverOrRefuse (recover : Bool) (p : Product) : Task Bool :=
  if recover then recoverSubmoduleCleanup p
  else do
    ensureNoSubmoduleCleanupArtifacts p
    .ret false

def proveTarget (recover : Bool) (p : Product) (proofs : Proofs) : Task Proofs := do
  let recovered ← recoverOrRefuse recover p
  let nested ← observe .settled "could not inspect target recursively" fun w =>
    (w.tree p).populated
  let dirty ← survey "could not inspect target recursively"
  .ret ⟨proofs.recoveredAny || recovered, proofs.anyDirty || dirty,
    Function.update proofs.nested p nested⟩

def finalRemovalBoundary (s : SlotState) (p : Product) (nested force : Bool) : Task Unit := do
  verifyRegistry
  let current ← observe .settled "load state" (·.slot)
  match current with
  | none => .raise "slot disappeared from state"
  | some current =>
    if current ≠ s then
      .raise "slot owner/task/status/branch/path authorization changed before removal"
    else do
      let targets ← cleanTargetsFromState current
      if p ∉ targets then .raise "target disappeared from state"
      else do
        demand .settled "recursive repository identity/HEAD/origin changed before removal"
          fun w => (w.tree p).populated == nested
        let dirty ← survey "could not inspect target recursively"
        if !force && dirty then .raise "final cleanliness check found work"
        else inspect "live process ownership below the target"

def removeProduct (force : Bool) (nested : Product → Bool) (p : Product) (s : SlotState) :
    Task SlotState := do
  finalRemovalBoundary s p (nested p) force
  let (s, fenced) ← armReleaseJournal s p
  removeTarget p fenced (nested p) force
  let s ← markGitRemovalComplete s
  clearReleaseJournal (s.without p)

def finishSlot : Task Unit := do
  let remains ← pathExists (·.slotDir)
  doIf remains (mutate .settled "could not remove now-empty exact slot directory" fun w =>
    if products.all fun p => (w.tree p).dirs.isEmpty then some { w with slotDir := false }
    else none)
  saveState .settled none
  let _ ← regenActiveMd none
  .ret ()

def pushAtRisk (push atRisk : Bool) : Task Bool :=
  if atRisk && push then survey "could not push" else .ret atRisk

def checkOrigin (push force : Bool) : Task Unit := do
  let atRisk ← survey "origin durability inspection failed"
  let atRisk ← pushAtRisk push atRisk
  if atRisk && !force then .raise "REFUSING to release: committed work not on origin"
  else .ret ()

def revokeSentinel (s : SlotState) : Task SlotState :=
  if s.sentinelLive then do
    let s ← armCoordinatorLeaseRevocation s
    let s ← completeCoordinatorLeaseRevocation s
    recordedOwnerAuthorities s
    .ret s
  else .ret s

def clearRecovered (recover : Bool) (s : SlotState) : Task SlotState :=
  if recover && s.releaseJournal.isSome then do
    let s ← clearReleaseJournal s
    verifyRegistry
    .ret s
  else .ret s

structure Flags where
  force : Bool
  push : Bool
  recover : Bool

def recoverRelease (flags : Flags) (s : SlotState) : Task (SlotState × Bool) :=
  if flags.recover then recoverJournaled s else .ret (s, false)

def recoverActive (flags : Flags) (state : Option SlotState) : Task Bool :=
  if flags.recover then regenActiveMd state else .ret false

def recoverRevocation (flags : Flags) (s : SlotState) : Task (SlotState × Bool) :=
  if flags.recover && s.coordinatorLeaseRevocation.isSome then do
    let s ← completeCoordinatorLeaseRevocation s
    recordedOwnerAuthorities s
    .ret (s, true)
  else .ret (s, false)

def removeTargets (flags : Flags) (s : SlotState) (targets : List Product)
    (nested : Product → Bool) : Task Unit := do
  let _ ← Script.thread (removeProduct flags.force nested) targets s
  finishSlot

def cleanRecovered (flags : Flags) (recoveredAny : Bool) (s : SlotState) : Task Unit := do
  verifyRegistry
  let targets ← cleanTargetsFromState s
  inspect "refusing --clean while live processes use the slot"
  let proofs ← Script.thread (proveTarget flags.recover) targets
    ⟨recoveredAny, false, fun _ => false⟩
  if flags.recover && !proofs.recoveredAny then
    .raise "--recover-submodule-cleanup found no interrupted transaction marker"
  else do
    let s ← clearRecovered flags.recover s
    if proofs.anyDirty && !flags.force then
      .raise "refusing --clean with uncommitted work; pass --force to override"
    else do
      checkOrigin flags.push flags.force
      let s ← revokeSentinel s
      inspect "refusing --clean while live processes use the slot"
      removeTargets flags s targets proofs.nested

def cleanSlot (flags : Flags) (recoveredActiveDrift : Bool) (s : SlotState) : Task Unit := do
  inspect "invalid slot ownership"
  if (s.status = "releasing" || s.releaseJournal.isSome || s.coordinatorLeaseRevocation.isSome) &&
      !flags.recover then
    .raise
      ("slot has an unfinished release journal or coordinator revocation journal; " ++
        "retain it and run --clean --recover-submodule-cleanup")
  else do
    inspect "container lifecycle fence unavailable"
    recordedOwnerAuthorities s
    let (s, recoveredRevocation) ← recoverRevocation flags s
    if flags.recover && s.releaseJournal.isSome && s.sentinelLive then
      .raise
        ("release journal exists for a live Codex sentinel " ++
          "without its required prior revocation journal")
    else do
      let (s, recoveredPathFence) ← recoverRelease flags s
      cleanRecovered flags (recoveredPathFence || recoveredActiveDrift || recoveredRevocation) s

def verifyAbsentSlotRecovery : Task Unit := do
  demand .settled "slot is absent from state but physical path remains" fun w => !w.slotDir
  demand .settled "slot is absent from state but still registered" fun w =>
    products.all fun p => (w.tree p).registered.isEmpty

def clean (flags : Flags) : Task Unit :=
  if flags.recover && flags.force then
    .raise "--recover-submodule-cleanup requires --clean and is incompatible with --force"
  else do
    let state ← observe .settled "read state" (·.slot)
    let drift ← recoverActive flags state
    match state with
    | none =>
      if flags.recover && drift then do
        verifyAbsentSlotRecovery
        verifyRegistry
      else .raise "slot is not registered in worktree-state.json"
    | some s => cleanSlot flags drift s

abbrev Release := Runner Window World Answer String

def releases (w : World) : System Release (Signal Flags Answer) := Runner.system clean w

end DevHermit.Worktree.Clean
