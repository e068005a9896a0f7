import DevHermit.Lib.Script
import DevHermit.Worktree.Registry

namespace DevHermit.Worktree.Clean

open Lib Script

inductive Loc where
  | canonical
  | fenced (nonce : Nat)
  deriving DecidableEq

inductive AtomicPhase where
  | prepared
  | renamed
  | repaired
  deriving DecidableEq

inductive Marker where
  | created
  | gitMove (original fenced : Loc)
  | atomic (original fenced : Loc) (phase : AtomicPhase)
  deriving DecidableEq

structure Tree where
  dirs : List Loc
  registered : List Loc
  modules : Bool
  quarantine : Bool
  forceFenceQuarantine : Bool
  inProgress : Bool
  pathFence : Option Marker
  gitlinks : Bool
  populated : Bool
  stray : Bool
  deriving DecidableEq

inductive JournalPhase where
  | armed
  | gitRemovalComplete
  deriving DecidableEq

structure Journal where
  label : Product
  original : Loc
  fenced : Loc
  phase : JournalPhase
  deriving DecidableEq

inductive RevocationPhase where
  | stopAuthorized
  | revoked
  deriving DecidableEq

instance : Fintype Product :=
  ⟨{.hermit, .reverie, .liteinst2}, fun p => by cases p <;> decide⟩

structure SlotState where
  branch : Product → String
  status : String
  releaseJournal : Option Journal
  coordinatorLease : Bool
  coordinatorLeaseRevocation : Option RevocationPhase
  deriving DecidableEq

structure ActiveRow where
  branch : Product → String
  status : String
  deriving DecidableEq

def SlotState.row (s : SlotState) : ActiveRow := ⟨s.branch, s.status⟩

def products : List Product := [.hermit, .reverie, .liteinst2]

structure World where
  slot : Option SlotState
  active : Option ActiveRow
  slotDir : Bool
  tree : Product → Tree

def World.renders (w : World) (state : Option SlotState) : Bool :=
  w.active = state.map SlotState.row

def World.setTree (w : World) (p : Product) (t : Tree) : World :=
  { w with tree := Function.update w.tree p t }

structure Answer where
  fault : Bool
  refused : Bool
  blind : Bool
  doubted : Bool
  stamp : Nat

inductive Window where
  | settled
  | exposed
  deriving DecidableEq

abbrev Task := Script Window World World Answer String

def observe {α : Type} (window : Window) (error : String) (view : World → α) : Task α :=
  .step window (fun w _ => w) fun w a => if a.fault then .raise error else .ret (view w)

def demand (window : Window) (error : String) (test : World → Bool) : Task Unit :=
  .step window (fun w _ => w) fun w a => if a.fault || !test w then .raise error else .ret ()

def inspect (error : String) : Task Unit :=
  .step .settled (fun w _ => w) fun _ a => if a.fault || a.refused then .raise error else .ret ()

def survey (error : String) : Task Bool :=
  .step .settled (fun w _ => w) fun _ a => if a.fault then .raise error else .ret a.refused

def clock : Task Nat :=
  .step .settled (fun w _ => w) fun _ a => .ret a.stamp

def pathExists (test : World → Bool) : Task Bool :=
  .step .settled (fun w _ => w) fun w a => .ret (!a.blind && test w)

def mutate (window : Window) (error : String) (change : World → Option World) : Task Unit :=
  .step window (fun w a => if a.fault then w else (change w).getD w) fun w a =>
    if a.fault || (change w).isNone then .raise error else .ret ()

def Tree.rename (t : Tree) (source target : Loc) : Option Tree :=
  if source ∈ t.dirs ∧ target ∉ t.dirs then
    some { t with dirs := target :: t.dirs.filter (· ≠ source) }
  else none

def Tree.gitMove (t : Tree) (source target : Loc) : Option Tree :=
  if t.modules = false ∧ source ∈ t.dirs ∧ source ∈ t.registered ∧ target ∉ t.dirs then
    some { t with
      dirs := target :: t.dirs.filter (· ≠ source)
      registered := target :: t.registered.filter (· ≠ source) }
  else none

def Tree.gitRepair (t : Tree) (place : Loc) : Option Tree :=
  if place ∈ t.dirs ∧ t.registered ≠ [] then some { t with registered := [place] } else none

def Tree.gitRemove (force : Bool) (t : Tree) (place : Loc) : Option Tree :=
  if place ∈ t.dirs ∧ place ∈ t.registered ∧ (force = true ∨ t.modules = false) then
    some { t with
      dirs := t.dirs.filter (· ≠ place)
      registered := t.registered.filter (· ≠ place)
      modules := false
      quarantine := false
      forceFenceQuarantine := false
      inProgress := false
      pathFence := none
      populated := false
      stray := false }
  else none

def Tree.deinit (t : Tree) (place : Loc) : Option Tree :=
  if place ∈ t.dirs then
    some { t with modules := t.modules || t.populated, populated := false }
  else none

def Tree.submoduleUpdate (t : Tree) (place : Loc) : Option Tree :=
  if place ∈ t.dirs ∧ t.stray = false then
    some { t with populated := t.populated || t.gitlinks }
  else none

def Tree.quarantineModules (t : Tree) : Option Tree :=
  if t.modules = true ∧ t.quarantine = false then
    some { t with modules := false, quarantine := true }
  else none

def Tree.restoreModules (t : Tree) : Option Tree :=
  if t.quarantine = true ∧ t.modules = false then
    some { t with modules := true, quarantine := false }
  else none

def Tree.quarantineForceFence (t : Tree) : Option Tree :=
  if t.modules = true ∧ t.forceFenceQuarantine = false then
    some { t with modules := false, forceFenceQuarantine := true }
  else none

def Tree.restoreForceFence (t : Tree) : Option Tree :=
  if t.forceFenceQuarantine = true ∧ t.modules = false then
    some { t with modules := true, forceFenceQuarantine := false }
  else none

def Tree.hasAdmin (t : Tree) (place : Loc) : Bool := place ∈ t.dirs ∧ t.registered ≠ []

def Tree.registrations (t : Tree) (original fenced : Loc) : Nat × Nat :=
  (t.registered.count original, t.registered.count fenced)

inductive PathFenceMethod where
  | gitWorktreeMove
  | atomicRenameRepair
  deriving DecidableEq

def Tree.fenceMethod (t : Tree) (original fenced : Loc) : Option PathFenceMethod :=
  match t.pathFence with
  | some (.gitMove o f) => if o = original ∧ f = fenced then some .gitWorktreeMove else none
  | some (.atomic o f _) => if o = original ∧ f = fenced then some .atomicRenameRepair else none
  | _ => none

def onTree (window : Window) (error : String) (p : Product) (change : Tree → Option Tree) :
    Task Unit :=
  mutate window error fun w => (change (w.tree p)).map (w.setTree p)

def saveState (window : Window) (state : Option SlotState) : Task Unit :=
  mutate window "write state" fun w => some { w with slot := state }

def regenActiveMd (state : Option SlotState) : Task Bool :=
  .step .settled
    (fun w a => if a.fault then w else { w with active := state.map SlotState.row }) fun w a =>
      if w.renders state then .ret false
      else if a.fault then .raise "write ACTIVE.md" else .ret true

def World.consistent (w : World) : Bool :=
  w.renders w.slot && match w.slot with
    | none => true
    | some s => products.all fun p =>
      (decide (.canonical ∈ (w.tree p).dirs)) == (s.branch p != "-")

def verifyRegistry : Task Unit :=
  .step .settled (fun w _ => w) fun w a =>
    if a.fault || (a.doubted && !w.consistent) then
      .raise "canonical registry verifier refused cleanup"
    else .ret ()

def exactPathPresent (window : Window) (p : Product) (place : Loc) : Task Bool :=
  observe window "inspect journal target" fun w => place ∈ (w.tree p).dirs

def submoduleAdminPaths (p : Product) (place : Loc) : Task Unit :=
  demand .settled "not an exact linked-worktree admin entry" fun w => (w.tree p).hasAdmin place

def requireWorktreeRegistrations (p : Product) (fenced : Loc) (expected : Nat × Nat)
    (boundary : String) : Task Unit :=
  demand .settled (boundary ++ " worktree registration mismatch") fun w =>
    (w.tree p).registrations .canonical fenced == expected

def validatePathFenceMarker (p : Product) (fenced : Loc) : Task PathFenceMethod := do
  let method ← observe .settled "read path-fence marker" fun w =>
    (w.tree p).fenceMethod .canonical fenced
  match method with
  | some method => .ret method
  | none => .raise "path-fence marker does not bind the exact original/fenced paths"

def removePathFence (error : String) (p : Product) : Task Unit :=
  onTree .settled error p fun t =>
    if t.pathFence.isSome then some { t with pathFence := none } else none

def persistAtomicPathFenceMarker (p : Product) (fenced : Loc) (phase : AtomicPhase) : Task Unit :=
  onTree .settled "persist atomic path-fence marker" p fun t =>
    some { t with pathFence := some (.atomic .canonical fenced phase) }

def ensureNoSubmoduleCleanupArtifacts (p : Product) : Task Unit := do
  submoduleAdminPaths p .canonical
  demand .settled "unfinished submodule cleanup artifact(s); retain slot for recovery" fun w =>
    !((w.tree p).inProgress || (w.tree p).quarantine || (w.tree p).forceFenceQuarantine ||
      (w.tree p).pathFence.isSome)

def restoreSubmoduleAdmin (p : Product) : Task Unit :=
  onTree .settled "could not restore submodule admin" p Tree.restoreModules

def restoreForceFenceAdmin (p : Product) : Task Unit := do
  let present ← observe .settled "inspect force-fence quarantine" fun w =>
    (w.tree p).forceFenceQuarantine
  doIf present (onTree .settled "could not restore force-fence admin" p Tree.restoreForceFence)

def restoreQuarantined (p : Product) : Task Unit := do
  demand .settled "both submodule admin and quarantine exist" fun w => !(w.tree p).modules
  restoreSubmoduleAdmin p

def reinit (p : Product) : Task Unit := do
  demand .settled "recoverable submodule admin is unavailable" fun w => (w.tree p).modules
  onTree .settled "submodule cleanup recovery reinitialization failed" p fun t =>
    t.submoduleUpdate .canonical
  demand .settled "submodule cleanup recovery initialized no nested repositories" fun w =>
    (w.tree p).populated
  onTree .settled "could not clear recovered submodule-cleanup marker" p fun t =>
    some { t with inProgress := false }

def recoverSubmoduleCleanup (p : Product) : Task Bool := do
  submoduleAdminPaths p .canonical
  let inProgress ← observe .settled "could not inspect submodule-cleanup marker" fun w =>
    (w.tree p).inProgress
  let quarantine ← observe .settled "could not inspect submodule-admin quarantine" fun w =>
    (w.tree p).quarantine
  if inProgress then do
    doIf quarantine (restoreQuarantined p)
    reinit p
    .ret true
  else if quarantine then .raise "submodule-admin quarantine has no recovery marker"
  else .ret false

def createSubmoduleCleanupMarker (p : Product) : Task Unit := do
  onTree .settled "could not create submodule-cleanup marker" p fun t =>
    if t.inProgress then none else some { t with inProgress := true }
  inspect "could not persist submodule-cleanup marker"

def beginSubmoduleCleanup (p : Product) : Task Unit := do
  ensureNoSubmoduleCleanupArtifacts p
  createSubmoduleCleanupMarker p

def beginDeinitializedSubmoduleCleanup (p : Product) (fenced : Loc) : Task Unit := do
  demand .settled "deinitialized-submodule fallback found conflicting admin artifact" fun w =>
    !((w.tree p).inProgress || (w.tree p).quarantine || (w.tree p).forceFenceQuarantine)
  let _ ← validatePathFenceMarker p fenced
  createSubmoduleCleanupMarker p

def quarantineSubmoduleAdmin (p : Product) : Task Unit :=
  onTree .settled "could not quarantine submodule admin" p Tree.quarantineModules

def verifyFullyDeinitializedSubmodules (p : Product) : Task Unit :=
  demand .settled "submodule move fallback requires fully deinitialized submodules" fun w =>
    decide (.canonical ∈ (w.tree p).dirs) && !(w.tree p).populated && (w.tree p).gitlinks &&
      !(w.tree p).stray && (w.tree p).modules && !((w.tree p).inProgress || (w.tree p).quarantine ||
        (w.tree p).forceFenceQuarantine)

def beginAtomicPathFence (p : Product) (fenced : Loc) : Task Unit := do
  verifyFullyDeinitializedSubmodules p
  inspect "submodule move fallback requires a clean outer worktree"
  requireWorktreeRegistrations p fenced (1, 0) "pre-fallback"
  submoduleAdminPaths p .canonical
  inspect "atomic path fence refuses cross-device rename"
  persistAtomicPathFenceMarker p fenced .prepared
  onTree .settled "atomic path fence rename failed" p fun t => t.rename .canonical fenced
  persistAtomicPathFenceMarker p fenced .renamed
  demand .settled "atomic path fence did not establish exact original/fenced presence" fun w =>
    decide (.canonical ∉ (w.tree p).dirs) && decide (fenced ∈ (w.tree p).dirs)
  requireWorktreeRegistrations p fenced (1, 0) "post-rename/pre-repair"
  submoduleAdminPaths p fenced
  onTree .settled "git worktree repair failed" p fun t => t.gitRepair fenced
  requireWorktreeRegistrations p fenced (0, 1) "post-repair"
  submoduleAdminPaths p fenced
  persistAtomicPathFenceMarker p fenced .repaired

inductive GitOutcome where
  | success
  | submoduleRefusal
  | failure

def gitWorktreeMove (p : Product) (source target : Loc) : Task GitOutcome :=
  .step .settled
    (fun w a => if a.fault then w
      else (((w.tree p).gitMove source target).map (w.setTree p)).getD w) fun w a =>
    if a.fault then .ret (if a.refused then .submoduleRefusal else .failure)
    else if (w.tree p).modules then .ret .submoduleRefusal
    else if ((w.tree p).gitMove source target).isSome then .ret .success
    else .ret .failure

def acquireFence (p : Product) (fenced : Loc) (allowDeinitializedFallback : Bool) :
    GitOutcome → Task Bool
  | .success => .ret false
  | .submoduleRefusal =>
    if allowDeinitializedFallback then do
      beginAtomicPathFence p fenced
      .ret true
    else .raise "git worktree move failed"
  | .failure => .raise "git worktree move failed"

def markPathFence (p : Product) (fenced : Loc) : Task Unit := do
  onTree .settled "create path-fence marker" p fun t =>
    if t.pathFence.isSome then none else some { t with pathFence := some .created }
  onTree .exposed "persist path-fence marker" p fun t =>
    some { t with pathFence := some (.gitMove .canonical fenced) }

def beginPathFence (p : Product) (fenced : Loc) (allowDeinitializedFallback : Bool) :
    Task Bool := do
  demand .settled "path-fence destination already exists" fun w =>
    decide (fenced ∉ (w.tree p).dirs)
  submoduleAdminPaths p .canonical
  demand .settled "unfinished path-fence marker; use --recover-submodule-cleanup" fun w =>
    (w.tree p).pathFence.isNone
  markPathFence p fenced
  inspect "persist path-fence directory entry"
  let outcome ← gitWorktreeMove p .canonical fenced
  let fallback ← acquireFence p fenced allowDeinitializedFallback outcome
  let remains ← pathExists fun w => decide (.canonical ∈ (w.tree p).dirs)
  if remains then .raise "canonical target still exists after path fence"
  else do
    demand .settled "canonicalize fenced target" fun w => decide (fenced ∈ (w.tree p).dirs)
    let _ ← validatePathFenceMarker p fenced
    .ret fallback

def repairCanonical (p : Product) : Task Unit :=
  onTree .settled "git worktree repair failed" p fun t => t.gitRepair .canonical

def restorePlace (p : Product) (fenced : Loc) (registrations : Nat × Nat) :
    Bool → Bool → Task Unit
  | false, true =>
    if registrations ≠ (1, 0) ∧ registrations ≠ (0, 1) then
      .raise "atomic path-fence recovery registration mismatch before restore"
    else do
      submoduleAdminPaths p fenced
      inspect "atomic path fence refuses cross-device rename"
      onTree .settled "atomic path-fence restore failed" p fun t => t.rename fenced .canonical
      doIf (registrations = (0, 1)) (repairCanonical p)
  | true, false =>
    if registrations = (0, 1) then repairCanonical p
    else if registrations ≠ (1, 0) then
      .raise "atomic path-fence recovery registration mismatch at canonical path"
    else .ret ()
  | true, true => .raise "both canonical and fenced targets exist during atomic recovery"
  | false, false => .raise "both canonical and fenced targets are absent during atomic recovery"

def restoreAtomicPathFence (p : Product) (fenced : Loc) : Task Unit := do
  let method ← validatePathFenceMarker p fenced
  if method ≠ .atomicRenameRepair then
    .raise "atomic path-fence recovery received a non-atomic marker"
  else do
    let originalPresent ← exactPathPresent .settled p .canonical
    let fencedPresent ← exactPathPresent .settled p fenced
    let registrations ← observe .settled "git worktree list" fun w =>
      (w.tree p).registrations .canonical fenced
    restorePlace p fenced registrations originalPresent fencedPresent
    demand .settled "atomic path-fence recovery did not restore exact path presence" fun w =>
      decide (.canonical ∈ (w.tree p).dirs) && decide (fenced ∉ (w.tree p).dirs)
    requireWorktreeRegistrations p fenced (1, 0) "post-restore"
    submoduleAdminPaths p .canonical
    removePathFence "clear rolled-back path-fence marker" p
    inspect "persist atomic path-fence marker removal"

def moveBack (error : String) (p : Product) (fenced : Loc) : Task Unit := do
  let outcome ← gitWorktreeMove p fenced .canonical
  match outcome with
  | .success => removePathFence error p
  | _ => .raise "git worktree move failed"

def unfence (label : String) (p : Product) (fenced : Loc) : Task Unit := do
  let method ← validatePathFenceMarker p fenced
  match method with
  | .gitWorktreeMove => moveBack label p fenced
  | .atomicRenameRepair => restoreAtomicPathFence p fenced

def rollbackPathFence : Product → Loc → Task Unit := unfence "clear rolled-back path-fence marker"

def rollbackFencedRemoval (p : Product) (fenced : Loc) (submoduleCleanup forceFenceAdmin : Bool) :
    Task Unit := do
  rollbackPathFence p fenced
  doIf submoduleCleanup (restoreSubmoduleAdmin p)
  doIf forceFenceAdmin (restoreForceFenceAdmin p)

def abandon (p : Product) (fenced : Loc) (submoduleCleanup forceFenceAdmin : Bool)
    (error : String) : Task Unit := do
  let outcome ← (rollbackFencedRemoval p fenced submoduleCleanup forceFenceAdmin).attempt
  match outcome with
  | .ok _ => .raise error
  | .error rollback =>
    .raise (error ++ "; path-fence rollback failed: " ++ rollback ++
      "; use --recover-submodule-cleanup")

def verifyCompletedGitRemoval (window : Window) (p : Product) (fenced : Loc) : Task Unit := do
  let originalPresent ← exactPathPresent window p .canonical
  let fencedPresent ← exactPathPresent window p fenced
  let registrations ← observe window "git worktree list" fun w =>
    (w.tree p).registrations .canonical fenced
  if originalPresent || fencedPresent || registrations ≠ (0, 0) then
    .raise "Git removal postcondition failed"
  else .ret ()

def deinitSubmodules (p : Product) : Task Unit := do
  beginSubmoduleCleanup p
  onTree .settled "git submodule deinit failed" p fun t => t.deinit .canonical

def quarantineForceFenceAdmin (p : Product) : Task Unit := do
  submoduleAdminPaths p .canonical
  onTree .settled "could not quarantine force-only path-fence admin" p Tree.quarantineForceFence

def prepareSubmodules (p : Product) (nested force : Bool) : Task Unit := do
  doIf (!force && nested) (deinitSubmodules p)
  let dirty ← survey "git status failed"
  if !force && dirty then .raise "last-moment work appeared"
  else do
    doIf (!force && nested) (quarantineSubmoduleAdmin p)
    doIf (force && nested) (quarantineForceFenceAdmin p)
    inspect "container release audit failed"

def fenceTarget (p : Product) (fenced : Loc) (nested force : Bool) : Task Bool := do
  let fallback ← beginPathFence p fenced (!force)
  if fallback then
    if nested then
      .raise "deinitialized-submodule path fallback conflicted with initialized/force admin state"
    else do
      beginDeinitializedSubmoduleCleanup p fenced
      quarantineSubmoduleAdmin p
      .ret true
  else .ret (!force && nested)

def removeTarget (p : Product) (fenced : Loc) (nested force : Bool) : Task Unit := do
  ensureNoSubmoduleCleanupArtifacts p
  prepareSubmodules p nested force
  let submoduleCleanup ← fenceTarget p fenced nested force
  let users ← (inspect "post-fence live process ownership").attempt
  match users with
  | .error error => abandon p fenced submoduleCleanup (force && nested) error
  | .ok _ => do
      let removed ← (onTree .settled "could not remove exact target" p
        (fun t => t.gitRemove force fenced)).attempt
      match removed with
      | .error error => abandon p fenced submoduleCleanup (force && nested) error
      | .ok _ => do
          let verified ← (verifyCompletedGitRemoval .exposed p fenced).attempt
          match verified with
          | .error error => abandon p fenced submoduleCleanup (force && nested) error
          | .ok _ => .ret ()

end DevHermit.Worktree.Clean
