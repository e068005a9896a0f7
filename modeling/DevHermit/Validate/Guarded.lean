import DevHermit.Landing.Guarded
import DevHermit.Validate.Files

namespace DevHermit.Validate

open Lib Landing

abbrev Plan (α : Type) := List FsOp × α

structure AcquireArgs where
  agent : String
  kind : Kind
  target : String
  hold : UInt64
  deriving DecidableEq, Repr

inductive AcquireToken where
  | acquired
  | acquiredReclaimed (previous : Reclaimed)
  | held (agent : String) (kind : Kind) (target : String) (secondsLeft : Int) (ahead : Nat)
  | waitTurn (head : String) (ahead : Nat)
  deriving DecidableEq, Repr

def AcquireToken.granted : AcquireToken → Bool
  | .acquired | .acquiredReclaimed _ => true
  | .held _ _ _ _ _ | .waitTurn _ _ => false

def enqueue (now : Int) (args : AcquireArgs) (queue : List QueueEntry) : List QueueEntry :=
  if ∃ entry ∈ queue, entry.agent = args.agent then queue
  else queue ++ [⟨now, args.agent, args.target⟩]

def prune (now : Int) (queue : List QueueEntry) : List QueueEntry :=
  queue.filter fun entry => decide (now - 2 * defaultWaitSeconds ≤ entry.enqueuedAt)

def withdraw (agent : String) (queue : List QueueEntry) : List QueueEntry :=
  queue.filter fun entry => decide (entry.agent ≠ agent)

def myIndex (agent : String) (queue : List QueueEntry) : Nat :=
  (queue.findIdx? fun entry => decide (entry.agent = agent)).getD 0

def deadOwner (env : Env) (d : Disk) (holder : Option ValidateLockState) :
    Except ValidateLockError (Option DeathReason) :=
  match holder with
  | none => pure none
  | some holder =>
    if holder.liveAt env.now then do
      match ← ownerLiveness env d with
      | .dead reason => pure (some reason)
      | .alive => pure none
      | .unknown => pure none
    else pure none

def grantToken (reclaimed : Option Reclaimed) : AcquireToken :=
  match reclaimed with
  | none => .acquired
  | some previous =>
    if previous.agent = "" ∧ previous.deadOwner = none then .acquired
    else .acquiredReclaimed previous

def grant (env : Env) (args : AcquireArgs) (holder : Option ValidateLockState)
    (dead : Option DeathReason) (queue : List QueueEntry) : Plan AcquireToken :=
  let reclaimed := holder.map fun holder => ⟨holder.agent, dead⟩
  ([.truncateHolder,
    .writeHolder (newHolder env args.agent args.kind args.target args.hold reclaimed),
    .removeOwner, .renameQueue (withdraw args.agent queue)], grantToken reclaimed)

def takeTurn (env : Env) (args : AcquireArgs) (holder : Option ValidateLockState)
    (dead : Option DeathReason) (queue : List QueueEntry) : Plan AcquireToken :=
  match queue.head? with
  | some head =>
    if head.agent ≠ args.agent then
      ([.renameQueue queue], .waitTurn head.agent (myIndex args.agent queue))
    else grant env args holder dead queue
  | none => grant env args holder dead queue

def tryAcquire (env : Env) (args : AcquireArgs) (d : Disk) :
    Except ValidateLockError (Plan AcquireToken) := do
  let holder ← d.readHolder
  requireNoCleanup env d holder
  let queue := prune env.now (enqueue env.now args d.queue)
  let dead ← deadOwner env d holder
  match holder with
  | some live =>
    if live.liveAt env.now ∧ dead = none then
      pure ([.renameQueue queue], .held live.agent live.kind live.target
        (live.expiresAt - env.now) (myIndex args.agent queue))
    else pure (takeTurn env args holder dead queue)
  | none => pure (takeTurn env args holder dead queue)

def removeFromQueue (agent : String) (d : Disk) : Except ValidateLockError (Plan Unit) :=
  pure ([.renameQueue (withdraw agent d.queue)], ())

def renew (env : Env) (agent : String) (hold : UInt64) (d : Disk) :
    Except ValidateLockError (Plan Unit) := do
  match ← d.readHolder with
  | none => .error (.renewNotOwner agent)
  | some holder =>
    requireNoCleanup env d (some holder)
    reject (holder.agent ≠ agent) (.renewNotOwner agent)
    assertCurrentProcessOwner env d
    pure ([.truncateHolder,
      .writeHolder (newHolder env agent holder.kind holder.target hold none)], ())

def release (env : Env) (agent : String) (d : Disk) :
    Except ValidateLockError (Plan (Bool × Option String)) := do
  let holder ← d.readHolder
  requireNoCleanup env d holder
  match holder with
  | none => pure ([.removeOwner], (false, none))
  | some holder =>
    reject (holder.agent ≠ agent) (.releaseNotOwner agent holder.agent)
    assertCurrentProcessOwner env d
    pure ([.removeHolder, .removeOwner, .renameQueue (withdraw agent d.queue)],
      (true, (withdraw agent d.queue).head?.map QueueEntry.agent))

def requireRecoverable (verification : CleanupVerification) : Except ValidateLockError Unit :=
  match verification with
  | .recoverable _ => .ok ()
  | .none => .ok ()
  | .armed _ => .error .reclaimNotProven
  | .active _ => .error .reclaimNotProven
  | .uncensused _ => .error .reclaimNotProven
  | .unknown _ => .error .reclaimNotProven

def requireDeadOwner (env : Env) (e : ValidateLockError) (d : Disk) :
    Except ValidateLockError DeathReason := do
  match ← ownerLiveness env d with
  | .dead reason => pure reason
  | .alive => .error e
  | .unknown => .error e

def reclaimDead (env : Env) (d : Disk) :
    Except ValidateLockError (Plan (Option (String × Kind × String × DeathReason))) := do
  match ← d.readHolder with
  | none =>
    match cleanupVerification env d none with
    | .none => pure ([.removeOwner], none)
    | _ => .error .reclaimNotProven
  | some holder =>
    requireRecoverable (cleanupVerification env d (some holder))
    let reason ← requireDeadOwner env .reclaimNotProven d
    pure ([.removeHolder, .removeOwner, .removeCleanup, .removeClaim],
      some (holder.agent, holder.kind, holder.target, reason))

def writeCurrentProcessOwner (env : Env) : Except ValidateLockError (Plan Unit) := do
  let owner ← currentProcessOwner env
  pure ([.truncateOwner, .writeOwner owner], ())

def newCleanupRecord (env : Env) (agent operation : String) :
    Except ValidateLockError CleanupRecord := do
  reject (env.host = "unknown") .io
  let bootId ← currentBootId env
  pure ⟨agent, operation, env.host, bootId, .armed, none⟩

def holderOf (args : AcquireArgs) (d : Disk) : Except ValidateLockError ValidateLockState := do
  match ← d.readHolder with
  | none => .error .invalidState
  | some holder =>
    reject (holder.agent ≠ args.agent ∨ holder.kind ≠ args.kind ∨ holder.target ≠ args.target)
      .invalidState
    pure holder

def armRun (env : Env) (args : AcquireArgs) (d : Disk) : Except ValidateLockError (Plan Unit) := do
  let record ← newCleanupRecord env args.agent (operationOf args.kind args.target)
  let holder ← holderOf args d
  requireNoCleanup env d (some holder)
  pure ([.renameCleanup record, .openClaim,
    .writeClaim args.agent (operationOf args.kind args.target) env.host], ())

def transitionAuthority (verification : CleanupVerification) :
    Except ValidateLockError CleanupRecord :=
  match verification with
  | .armed record => .ok record
  | .active record => .ok record
  | .uncensused record => .ok record
  | .recoverable record => .ok record
  | .none => .error .invalidState
  | .unknown _ => .error .cleanupQuarantined

def transitionRunCleanup (env : Env) (args : AcquireArgs) (expected : CleanupPhase → Bool)
    (next : CleanupPhase) (cgroup : Option String) (d : Disk) :
    Except ValidateLockError (Plan Unit) := do
  let holder ← holderOf args d
  let record ← transitionAuthority (cleanupVerification env d (some holder))
  reject (expected record.phase = false) .invalidState
  pure ([.renameCleanup { record with phase := next, cgroup := cgroup.or record.cgroup }], ())

def publishRun (env : Env) (args : AcquireArgs) (leader : ProcessIdentity)
    (cgroup : Option String) : Disk → Except ValidateLockError (Plan Unit) :=
  transitionRunCleanup env args CleanupPhase.isArmed (.published leader leader.pid) cgroup

def beginRunCensus (env : Env) (args : AcquireArgs) (leader : ProcessIdentity) :
    Disk → Except ValidateLockError (Plan Unit) :=
  transitionRunCleanup env args CleanupPhase.isPublished (.censusPending leader leader.pid) none

def recordResiduals (env : Env) (args : AcquireArgs) (pgid : Nat) (complete : Bool)
    (identities : List ProcessIdentity) : Disk → Except ValidateLockError (Plan Unit) :=
  transitionRunCleanup env args CleanupPhase.isCensusPending
    (.residual pgid complete identities) none

def clearUnstartedRun (env : Env) (args : AcquireArgs) (d : Disk) :
    Except ValidateLockError (Plan Unit) := do
  let holder ← holderOf args d
  match cleanupVerification env d (some holder) with
  | .armed _ => do
      assertCurrentProcessOwner env d
      pure ([.removeCleanup, .removeClaim], ())
  | _ => .error .invalidState

def clearProvenRun (env : Env) (d : Disk) : Except ValidateLockError (Plan Unit) := do
  match ← d.readHolder with
  | none => .error .invalidState
  | some holder =>
    match cleanupVerification env d (some holder) with
    | .recoverable _ => pure ([.removeCleanup, .removeClaim], ())
    | _ => .error .invalidState

def renewRunLease (env : Env) (args : AcquireArgs) (d : Disk) :
    Except ValidateLockError (Plan Unit) := do
  match ← d.readHolder with
  | none => .error (.renewNotOwner args.agent)
  | some holder =>
    reject (holder.agent ≠ args.agent ∨ holder.kind ≠ args.kind ∨ holder.target ≠ args.target)
      (.renewNotOwner args.agent)
    match cleanupVerification env d (some holder) with
    | .active record => do
        reject (record.phase.isPublished = false) .cleanupQuarantined
        assertCurrentProcessOwner env d
        pure ([.truncateHolder,
          .writeHolder (newHolder env args.agent args.kind args.target args.hold none)], ())
    | _ => .error .cleanupQuarantined

def uncensusedAuthority (verification : CleanupVerification) :
    Except ValidateLockError CleanupRecord :=
  match verification with
  | .uncensused record => .ok record
  | _ => .error .recoveryNotProven

def publishedDomain : CleanupPhase → Except ValidateLockError (ProcessIdentity × Nat)
  | .published leader pgid => .ok (leader, pgid)
  | .censusPending leader pgid => .ok (leader, pgid)
  | _ => .error .recoveryNotProven

def censusOrphanedDomain (env : Env) (args : CensusArgs) (domain : DomainEvidence) (d : Disk) :
    Except ValidateLockError (Plan Unit) := do
  match ← d.readHolder with
  | none => .error .recoveryNotProven
  | some holder =>
    let record ← uncensusedAuthority (cleanupVerification env d (some holder))
    let published ← publishedDomain record.phase
    reject (record.agent ≠ args.agent ∨ record.operation ≠ args.operation ∨
      published.1 ≠ args.leader ∨ published.2 ≠ args.pgid) .recoveryNotProven
    let _ ← requireDeadOwner env .recoveryNotProven d
    reject (exactProcessLiveness env published.1 ≠ some false) .recoveryNotProven
    reject (processGroupExists env published.2 = true) .recoveryNotProven
    (censusDisposition domain args).mapError fun _ => .recoveryNotProven
    pure ([.renameCleanup { record with phase := .residual published.2 true [] }], ())

inductive AuthorityState where
  | held
  | free
  | lapsed
  | orphaned
  | quarantined
  | indeterminate
  deriving DecidableEq, Repr

inductive AuthorityCleanupState where
  | none
  | activeBound
  | armed
  | recoverable
  | uncensused
  | unknown
  deriving DecidableEq, Repr

inductive AuthorityOwnerLiveness where
  | alive
  | dead
  | unknown
  deriving DecidableEq, Repr

structure AuthorityHolder where
  agent : String
  kind : Kind
  target : String
  host : String
  acquiredAt : Int
  expiresAt : Int
  deriving DecidableEq, Repr

def ValidateLockState.reported (holder : ValidateLockState) : AuthorityHolder :=
  ⟨holder.agent, holder.kind, holder.target, holder.host, holder.acquiredAt, holder.expiresAt⟩

structure AuthorityOwner where
  host : String
  bootId : BootId
  identity : ProcessIdentity
  liveness : AuthorityOwnerLiveness
  deriving DecidableEq, Repr

def fromProcess (owner : ProcessOwner) (liveness : AuthorityOwnerLiveness) : AuthorityOwner :=
  ⟨owner.host, owner.bootId, owner.identity, liveness⟩

structure AuthorityStatus where
  schemaVersion : Nat
  admissible : Bool
  state : AuthorityState
  reasonCode : Option String
  holder : Option AuthorityHolder
  owner : Option AuthorityOwner
  canonicalAnchorHeld : Bool
  cleanupState : AuthorityCleanupState
  deriving DecidableEq, Repr

def AuthorityStatus.refused (state : AuthorityState) (reason : String)
    (holder : Option AuthorityHolder) (owner : Option AuthorityOwner) (anchorHeld : Bool)
    (cleanup : AuthorityCleanupState) : AuthorityStatus :=
  ⟨1, false, state, some reason, holder, owner, anchorHeld, cleanup⟩

def AuthorityStatus.admitted (holder : AuthorityHolder) (owner : AuthorityOwner)
    (cleanup : AuthorityCleanupState) : AuthorityStatus :=
  ⟨1, true, .held, none, some holder, some owner, true, cleanup⟩

def authorityCleanup : CleanupVerification → AuthorityCleanupState × Option String
  | .none => (.none, none)
  | .active record =>
    match record.phase with
    | .published _ _ => (.activeBound, none)
    | .censusPending _ _ => (.activeBound, some "canonical-cleanup-census-pending")
    | .residual _ _ _ => (.activeBound, some "canonical-cleanup-residual-active")
    | .armed => (.unknown, some "canonical-cleanup-phase-inconsistent")
  | .armed _ => (.armed, some "canonical-cleanup-armed")
  | .recoverable _ => (.recoverable, some "canonical-cleanup-recoverable")
  | .uncensused _ => (.uncensused, some "canonical-cleanup-uncensused")
  | .unknown _ => (.unknown, some "canonical-cleanup-indeterminate")

def authorityLiveness (env : Env) (owner : ProcessOwner) :
    Except ValidateLockError (AuthorityOwnerLiveness × Option (AuthorityState × String)) :=
  if env.host = "unknown" then
    pure (.unknown, some (.indeterminate, "canonical-current-host-unavailable"))
  else if owner.host ≠ env.host then
    pure (.unknown, some (.indeterminate, "canonical-owner-host-mismatch"))
  else do
    let bootId ← currentBootId env
    if owner.bootId ≠ bootId then
      pure (.dead, some (.orphaned, "canonical-owner-boot-id-mismatch"))
    else
      match env.ticks owner.identity.pid with
      | .found observed =>
        if observed = owner.identity.startTicks then pure (.alive, none)
        else pure (.dead, some (.orphaned, "canonical-owner-start-ticks-mismatch"))
      | .missing => pure (.dead, some (.orphaned, "canonical-owner-pid-absent"))
      | .failed =>
        pure (.unknown, some (.indeterminate, "canonical-owner-liveness-indeterminate"))

def authorityOwner (env : Env) (owner : File ProcessOwner) :
    Except ValidateLockError (Option AuthorityOwner × Option (AuthorityState × String)) :=
  match owner with
  | .absent => pure (none, none)
  | .blank => pure (none, some (.indeterminate, "canonical-owner-malformed"))
  | .full owner => do
      let verdict ← authorityLiveness env owner
      pure (some (fromProcess owner verdict.1), verdict.2)

def contentOf {α : Type} : File α → Option α
  | .full content => some content
  | .absent | .blank => none

def authorityWithHolder (env : Env) (holder : ValidateLockState) (d : Disk)
    (owner : Option AuthorityOwner) (ownerRefusal : Option (AuthorityState × String))
    (anchorHeld : Bool) (cleanup : AuthorityCleanupState) :
    Except ValidateLockError AuthorityStatus :=
  if ¬ holder.liveAt env.now then
    pure (.refused .lapsed "canonical-holder-lapsed" holder.reported owner anchorHeld cleanup)
  else if anchorHeld = false then
    pure (.refused .orphaned "canonical-anchor-not-held" holder.reported owner false cleanup)
  else if holder.kind ≠ .validate then
    pure (.refused .held "canonical-holder-kind-not-validate" holder.reported owner true cleanup)
  else if env.host = "unknown" then
    pure (.refused .indeterminate "canonical-current-host-unavailable" holder.reported owner true
      cleanup)
  else if holder.host ≠ env.host then
    pure (.refused .indeterminate "canonical-holder-host-mismatch" holder.reported owner true
      cleanup)
  else if d.owner = .absent then
    pure (.refused .indeterminate "canonical-owner-missing" holder.reported none true cleanup)
  else
    match ownerRefusal with
    | some refusal =>
      pure (.refused refusal.1 refusal.2 holder.reported owner true cleanup)
    | none =>
      match owner with
      | none => .error .invalidState
      | some owner => pure (.admitted holder.reported owner cleanup)

def authorityWithoutHolder (d : Disk) (owner : Option AuthorityOwner) (anchorHeld : Bool)
    (cleanup : AuthorityCleanupState) : AuthorityStatus :=
  if d.owner ≠ .absent then
    .refused .indeterminate "canonical-owner-without-holder" none owner anchorHeld cleanup
  else if anchorHeld then
    .refused .indeterminate "canonical-holder-missing" none none anchorHeld cleanup
  else .refused .free "canonical-lock-not-held" none none anchorHeld cleanup

def authorityStatusGuarded (env : Env) (anchorBefore anchorAfter : Bool) (d : Disk) :
    Except ValidateLockError AuthorityStatus := do
  let holder := contentOf d.holder
  let cleanup := authorityCleanup (cleanupVerification env d holder)
  let owner ← authorityOwner env d.owner
  if anchorBefore ≠ anchorAfter then
    pure (.refused .indeterminate "canonical-anchor-raced"
      (holder.map ValidateLockState.reported) owner.1 false cleanup.1)
  else if d.holder = .blank then
    pure (.refused .indeterminate "canonical-holder-malformed" none owner.1
      (anchorBefore && anchorAfter) cleanup.1)
  else
    match cleanup.2 with
    | some reason =>
      pure (.refused .quarantined reason (holder.map ValidateLockState.reported) owner.1
        (anchorBefore && anchorAfter) cleanup.1)
    | none =>
      match holder with
      | none =>
        pure (authorityWithoutHolder d owner.1 (anchorBefore && anchorAfter) cleanup.1)
      | some holder =>
        authorityWithHolder env holder d owner.1 owner.2 (anchorBefore && anchorAfter)
          cleanup.1

end DevHermit.Validate
