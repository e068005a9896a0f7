import DevHermit.Lib.Text
import DevHermit.Landing.Files

namespace DevHermit.Landing

open Lib

abbrev Plan (α : Type) := List FsOp × α

structure AcquireArgs where
  agent : String
  pr : String
  hold : UInt64
  deriving DecidableEq, Repr

def AcquireArgs.Plain (args : AcquireArgs) : Prop :=
  PlainField args.agent.toList ∧ PlainField args.pr.toList

instance (args : AcquireArgs) : Decidable args.Plain := inferInstanceAs (Decidable (_ ∧ _))

inductive AcquireToken where
  | acquired
  | acquiredReclaimed (previous : Reclaimed)
  | held (agent : String) (secondsLeft : Int)
  | waitTurn (head : String)
  deriving DecidableEq, Repr

def enqueue (now : Int) (args : AcquireArgs) (queue : List QueueEntry) : List QueueEntry :=
  if ∃ entry ∈ queue, entry.agent = args.agent then queue
  else queue ++ [⟨now, args.agent, args.pr⟩]

def prune (now : Int) (queue : List QueueEntry) : List QueueEntry :=
  queue.filter fun entry => decide (now - 2 * defaultWaitSeconds ≤ entry.enqueuedAt)

def withdraw (agent : String) (queue : List QueueEntry) : List QueueEntry :=
  queue.filter fun entry => decide (entry.agent ≠ agent)

def deadOwner (env : Env) (d : Disk) (holder : Option LockState) :
    Except LandLockError (Option DeathReason) :=
  match holder with
  | none => pure none
  | some holder =>
    if holder.liveAt env.now then do
      match ← ownerLiveness env d with
      | .dead reason => pure (some reason)
      | .alive => pure none
      | .unknown => pure none
    else pure none

def grantToken (reclaimed : Option Reclaimed) : AcquireToken :=
  match reclaimed with
  | none => .acquired
  | some previous =>
    if previous.agent = "" ∧ previous.deadOwner = none then .acquired
    else .acquiredReclaimed previous

def grant (env : Env) (args : AcquireArgs) (holder : Option LockState)
    (dead : Option DeathReason) (queue : List QueueEntry) : Plan AcquireToken :=
  let reclaimed := holder.map fun holder => ⟨holder.agent, dead⟩
  ([.truncateHolder, .writeHolder (newHolder env args.agent args.pr args.hold reclaimed),
    .removeOwner, .renameQueue (withdraw args.agent queue)], grantToken reclaimed)

def takeTurn (env : Env) (args : AcquireArgs) (holder : Option LockState)
    (dead : Option DeathReason) (queue : List QueueEntry) : Plan AcquireToken :=
  match queue.head? with
  | some head =>
    if head.agent ≠ args.agent then ([.renameQueue queue], .waitTurn head.agent)
    else grant env args holder dead queue
  | none => grant env args holder dead queue

def tryAcquire (env : Env) (args : AcquireArgs) (d : Disk) :
    Except LandLockError (Plan AcquireToken) := do
  let holder ← d.readHolder
  requireNoCleanup env d holder
  let queue := prune env.now (enqueue env.now args d.queue)
  let dead ← deadOwner env d holder
  match holder with
  | some live =>
    if live.liveAt env.now ∧ dead = none then
      pure ([.renameQueue queue], .held live.agent (live.expiresAt - env.now))
    else pure (takeTurn env args holder dead queue)
  | none => pure (takeTurn env args holder dead queue)

def removeFromQueue (agent : String) (d : Disk) : List FsOp :=
  [.renameQueue (withdraw agent d.queue)]

def renew (env : Env) (agent : String) (hold : UInt64) (d : Disk) :
    Except LandLockError (Plan Unit) := do
  match ← d.readHolder with
  | none => .error (.renewNotOwner agent)
  | some holder =>
    requireNoCleanup env d (some holder)
    reject (holder.agent ≠ agent) (.renewNotOwner agent)
    assertCurrentProcessOwner env d
    pure ([.truncateHolder, .writeHolder (holder.renewed env hold)], ())

def release (env : Env) (agent : String) (d : Disk) :
    Except LandLockError (Plan (Bool × Option String)) := do
  let holder ← d.readHolder
  requireNoCleanup env d holder
  match holder with
  | none => pure ([.removeOwner], (false, none))
  | some holder =>
    reject (holder.agent ≠ agent) (.releaseNotOwner agent holder.agent)
    assertCurrentProcessOwner env d
    pure ([.removeHolder, .removeOwner, .renameQueue (withdraw agent d.queue)],
      (true, (withdraw agent d.queue).head?.map QueueEntry.agent))

def requireRecoverable (verification : CleanupVerification) : Except LandLockError Unit :=
  match verification with
  | .recoverable _ => .ok ()
  | .none => .ok ()
  | .armed _ => .error .reclaimNotProven
  | .active _ => .error .reclaimNotProven
  | .uncensused _ => .error .reclaimNotProven
  | .unknown _ => .error .reclaimNotProven

def requireDeadOwner (env : Env) (d : Disk) : Except LandLockError DeathReason := do
  match ← ownerLiveness env d with
  | .dead reason => pure reason
  | .alive => .error .reclaimNotProven
  | .unknown => .error .reclaimNotProven

def reclaimDead (env : Env) (d : Disk) :
    Except LandLockError (Plan (Option (String × String × DeathReason))) := do
  match ← d.readHolder with
  | none =>
    match cleanupVerification env d none with
    | .none => pure ([.removeOwner], none)
    | _ => .error .reclaimNotProven
  | some holder =>
    requireRecoverable (cleanupVerification env d (some holder))
    let reason ← requireDeadOwner env d
    pure ([.removeHolder, .removeOwner, .removeCleanup, .clearClaim],
      some (holder.agent, holder.pr, reason))

def writeCurrentProcessOwner (env : Env) : Except LandLockError (Plan Unit) := do
  let owner ← currentProcessOwner env
  pure ([.truncateOwner, .writeOwner owner], ())

def CleanupRecord.new (env : Env) (agent pr : String) : Except LandLockError CleanupRecord := do
  reject (env.host = "unknown") .io
  let bootId ← currentBootId env
  pure ⟨agent, operationOf pr, env.host, bootId, .armed, none⟩

def holderOf (agent pr : String) (d : Disk) : Except LandLockError LockState := do
  match ← d.readHolder with
  | none => .error .invalidState
  | some holder =>
    reject (holder.agent ≠ agent ∨ holder.pr ≠ pr) .invalidState
    pure holder

def armRun (env : Env) (agent pr : String) (d : Disk) : Except LandLockError (Plan Unit) := do
  let record ← CleanupRecord.new env agent pr
  let holder ← holderOf agent pr d
  requireNoCleanup env d (some holder)
  pure ([.renameCleanup record, .registerClaim], ())

def transitionAuthority (verification : CleanupVerification) : Except LandLockError CleanupRecord :=
  match verification with
  | .armed record => .ok record
  | .active record => .ok record
  | .uncensused record => .ok record
  | .recoverable record => .ok record
  | .none => .error .invalidState
  | .unknown _ => .error .cleanupQuarantined

def transitionRunCleanup (env : Env) (agent pr : String) (expected : CleanupPhase → Bool)
    (next : CleanupPhase) (cgroup : Option String) (d : Disk) :
    Except LandLockError (Plan Unit) := do
  let holder ← holderOf agent pr d
  let record ← transitionAuthority (cleanupVerification env d (some holder))
  reject (expected record.phase = false) .invalidState
  pure ([.renameCleanup { record with phase := next, cgroup := cgroup.or record.cgroup }], ())

def CleanupPhase.isArmed : CleanupPhase → Bool
  | .armed => true
  | _ => false

def CleanupPhase.isPublished : CleanupPhase → Bool
  | .published _ _ => true
  | _ => false

def CleanupPhase.isCensusPending : CleanupPhase → Bool
  | .censusPending _ _ => true
  | _ => false

def publishRun (env : Env) (agent pr : String) (leader : ProcessIdentity)
    (cgroup : Option String) : Disk → Except LandLockError (Plan Unit) :=
  transitionRunCleanup env agent pr CleanupPhase.isArmed (.published leader leader.pid) cgroup

def beginRunCensus (env : Env) (agent pr : String) (leader : ProcessIdentity) :
    Disk → Except LandLockError (Plan Unit) :=
  transitionRunCleanup env agent pr CleanupPhase.isPublished
    (.censusPending leader leader.pid) none

def recordResiduals (env : Env) (agent pr : String) (pgid : Nat) (complete : Bool)
    (identities : List ProcessIdentity) : Disk → Except LandLockError (Plan Unit) :=
  transitionRunCleanup env agent pr CleanupPhase.isCensusPending
    (.residual pgid complete identities) none

def clearUnstartedRun (env : Env) (agent pr : String) (d : Disk) :
    Except LandLockError (Plan Unit) := do
  let holder ← holderOf agent pr d
  match cleanupVerification env d (some holder) with
  | .armed _ => do
      assertCurrentProcessOwner env d
      pure ([.removeCleanup, .clearClaim], ())
  | _ => .error .invalidState

def clearProvenRun (env : Env) (d : Disk) : Except LandLockError (Plan Unit) := do
  match ← d.readHolder with
  | none => .error .invalidState
  | some holder =>
    match cleanupVerification env d (some holder) with
    | .recoverable _ => pure ([.removeCleanup, .clearClaim], ())
    | _ => .error .invalidState

def renewRunLease (env : Env) (agent pr : String) (hold : UInt64) (d : Disk) :
    Except LandLockError (Plan Unit) := do
  match ← d.readHolder with
  | none => .error (.renewNotOwner agent)
  | some holder =>
    reject (holder.agent ≠ agent ∨ holder.pr ≠ pr) (.renewNotOwner agent)
    match cleanupVerification env d (some holder) with
    | .active record => do
        reject (record.phase.isPublished = false) .cleanupQuarantined
        assertCurrentProcessOwner env d
        pure ([.truncateHolder, .writeHolder (holder.renewed env hold)], ())
    | _ => .error .cleanupQuarantined

structure CensusArgs where
  agent : String
  operation : String
  leader : ProcessIdentity
  pgid : Nat
  attestDomainEmpty : Bool
  evidenceGiven : Bool
  deriving DecidableEq, Repr

def uncensusedAuthority (verification : CleanupVerification) : Except LandLockError CleanupRecord :=
  match verification with
  | .uncensused record => .ok record
  | _ => .error .reclaimNotProven

def CleanupPhase.publishedDomain :
    CleanupPhase → Except LandLockError (ProcessIdentity × Nat)
  | .published leader pgid => .ok (leader, pgid)
  | .censusPending leader pgid => .ok (leader, pgid)
  | _ => .error .reclaimNotProven

def censusDisposition (domain : DomainEvidence) (args : CensusArgs) : Except LandLockError Unit :=
  match domain with
  | .provenEmpty => .ok ()
  | .populated =>
    reject (args.attestDomainEmpty = false ∨ args.evidenceGiven = false) .reclaimNotProven
  | .unproven =>
    reject (args.attestDomainEmpty = false ∨ args.evidenceGiven = false) .reclaimNotProven

def censusOrphanedDomain (env : Env) (args : CensusArgs) (domain : DomainEvidence) (d : Disk) :
    Except LandLockError (Plan Unit) := do
  match ← d.readHolder with
  | none => .error .reclaimNotProven
  | some holder =>
    let record ← uncensusedAuthority (cleanupVerification env d (some holder))
    let published ← record.phase.publishedDomain
    reject (record.agent ≠ args.agent ∨ record.operation ≠ args.operation ∨
      published.1 ≠ args.leader ∨ published.2 ≠ args.pgid) .reclaimNotProven
    let _ ← requireDeadOwner env d
    reject (exactProcessLiveness env published.1 ≠ some false) .reclaimNotProven
    reject (processGroupExists env published.2 = true) .reclaimNotProven
    censusDisposition domain args
    pure ([.renameCleanup { record with phase := .residual published.2 true [] }], ())

end DevHermit.Landing
