import DevHermit.Lib.Check

namespace DevHermit.Landing

open Lib

abbrev BootId := Nat

def defaultWaitSeconds : Int := 1800

structure ProcessIdentity where
  pid : Nat
  startTicks : Nat
  deriving DecidableEq, Repr

inductive DeathReason where
  | rebooted
  | reused
  | missing
  deriving DecidableEq, Repr

structure Reclaimed where
  agent : String
  deadOwner : Option DeathReason
  deriving DecidableEq, Repr

structure Annotations where
  repo : Option String
  operation : Option String
  pendingMutation : Option String
  pendingAttempt : Option String
  pendingCallCount : Option Nat
  pendingCallId : Option String
  deriving DecidableEq, Repr

structure LockState where
  agent : String
  annotations : Annotations
  pr : String
  host : String
  acquiredAt : Int
  expiresAt : Int
  reclaimedFrom : Option Reclaimed
  deriving DecidableEq, Repr

structure ProcessOwner where
  host : String
  bootId : BootId
  identity : ProcessIdentity
  deriving DecidableEq, Repr

inductive CleanupPhase where
  | armed
  | published (leader : ProcessIdentity) (pgid : Nat)
  | censusPending (leader : ProcessIdentity) (pgid : Nat)
  | residual (pgid : Nat) (domainComplete : Bool) (residuals : List ProcessIdentity)
  deriving DecidableEq, Repr

structure CleanupRecord where
  agent : String
  operation : String
  host : String
  bootId : BootId
  phase : CleanupPhase
  cgroup : Option String
  deriving DecidableEq, Repr

structure QueueEntry where
  enqueuedAt : Int
  agent : String
  pr : String
  deriving DecidableEq, Repr

inductive LandLockError where
  | io
  | invalidState
  | renewNotOwner (agent : String)
  | releaseNotOwner (agent holder : String)
  | processNotOwner (pid : Nat)
  | reclaimNotProven
  | cleanupQuarantined
  deriving DecidableEq, Repr

inductive File (α : Type) where
  | absent
  | blank
  | full (content : α)
  deriving DecidableEq, Repr

structure Disk where
  holder : File LockState
  owner : File ProcessOwner
  cleanup : Option CleanupRecord
  claim : Bool
  queue : List QueueEntry
  deriving DecidableEq, Repr

def Disk.empty : Disk := ⟨.absent, .absent, none, false, []⟩

inductive FsOp where
  | truncateHolder
  | writeHolder (holder : LockState)
  | removeHolder
  | truncateOwner
  | writeOwner (owner : ProcessOwner)
  | removeOwner
  | renameCleanup (record : CleanupRecord)
  | removeCleanup
  | registerClaim
  | clearClaim
  | renameQueue (queue : List QueueEntry)
  deriving DecidableEq, Repr

def FsOp.apply (d : Disk) : FsOp → Disk
  | .truncateHolder => { d with holder := .blank }
  | .writeHolder holder => { d with holder := .full holder }
  | .removeHolder => { d with holder := .absent }
  | .truncateOwner => { d with owner := .blank }
  | .writeOwner owner => { d with owner := .full owner }
  | .removeOwner => { d with owner := .absent }
  | .renameCleanup record => { d with cleanup := some record }
  | .removeCleanup => { d with cleanup := none }
  | .registerClaim => { d with claim := true }
  | .clearClaim => { d with claim := false }
  | .renameQueue queue => { d with queue := queue }

def Disk.perform (d : Disk) (ops : List FsOp) : Disk := ops.foldl FsOp.apply d

inductive Ticks where
  | found (startTicks : Nat)
  | missing
  | failed
  deriving DecidableEq, Repr

inductive GroupLiveness where
  | active
  | absent
  | unknown
  deriving DecidableEq, Repr

inductive DomainEvidence where
  | provenEmpty
  | populated
  | unproven
  deriving DecidableEq, Repr

structure Env where
  now : Int
  later : Int
  host : String
  bootId : Option BootId
  ticks : Nat → Ticks
  group : Nat → GroupLiveness
  self : ProcessIdentity

inductive OwnerLiveness where
  | alive
  | dead (reason : DeathReason)
  | unknown
  deriving DecidableEq, Repr

inductive CleanupVerification where
  | none
  | armed (record : CleanupRecord)
  | active (record : CleanupRecord)
  | uncensused (record : CleanupRecord)
  | recoverable (record : CleanupRecord)
  | unknown (record : Option CleanupRecord)
  deriving DecidableEq, Repr

def LockState.liveAt (holder : LockState) (now : Int) : Prop := now < holder.expiresAt

instance (holder : LockState) (now : Int) : Decidable (holder.liveAt now) :=
  inferInstanceAs (Decidable (_ < _))

def asI64 (hold : UInt64) : Int :=
  if hold.toNat < 2 ^ 63 then hold.toNat else (hold.toNat : Int) - 2 ^ 64

def saturatingAdd (a b : Int) : Int := max (-2 ^ 63) (min (a + b) (2 ^ 63 - 1))

def newHolder (env : Env) (agent pr : String) (hold : UInt64) (reclaimedFrom : Option Reclaimed) :
    LockState where
  agent := agent
  annotations := ⟨none, none, none, none, none, none⟩
  pr := pr
  host := env.host
  acquiredAt := env.later
  expiresAt := saturatingAdd env.later (asI64 hold)
  reclaimedFrom := reclaimedFrom

def LockState.renewed (env : Env) (holder : LockState) (hold : UInt64) : LockState :=
  { newHolder env holder.agent holder.pr hold none with annotations := holder.annotations }

def operationOf (pr : String) : String := "pr:" ++ pr

def Disk.readHolder (d : Disk) : Except LandLockError (Option LockState) :=
  match d.holder with
  | .absent => .ok none
  | .blank => .error .invalidState
  | .full holder => .ok (some holder)

def Disk.readProcessOwner (d : Disk) : Except LandLockError (Option ProcessOwner) :=
  match d.owner with
  | .absent => .ok none
  | .blank => .error .invalidState
  | .full owner => .ok (some owner)

def currentBootId (env : Env) : Except LandLockError BootId :=
  match env.bootId with
  | none => .error .io
  | some bootId => .ok bootId

def currentProcessOwner (env : Env) : Except LandLockError ProcessOwner := do
  let bootId ← currentBootId env
  pure ⟨env.host, bootId, env.self⟩

def processLiveness (env : Env) (identity : ProcessIdentity) : OwnerLiveness :=
  match env.ticks identity.pid with
  | .found startTicks => if startTicks = identity.startTicks then .alive else .dead .reused
  | .missing => .dead .missing
  | .failed => .unknown

def ownerLiveness (env : Env) (d : Disk) : Except LandLockError OwnerLiveness := do
  match ← d.readProcessOwner with
  | none => pure .unknown
  | some owner =>
    if owner.host ≠ env.host then pure .unknown
    else
      let bootId ← currentBootId env
      if owner.bootId ≠ bootId then pure (.dead .rebooted)
      else pure (processLiveness env owner.identity)

def assertCurrentProcessOwner (env : Env) (d : Disk) : Except LandLockError Unit := do
  match ← d.readProcessOwner with
  | none => pure ()
  | some owner =>
    let current ← currentProcessOwner env
    if owner = current then pure () else .error (.processNotOwner owner.identity.pid)

def exactProcessLiveness (env : Env) (identity : ProcessIdentity) : Option Bool :=
  match env.ticks identity.pid with
  | .found startTicks => some (startTicks == identity.startTicks)
  | .missing => some false
  | .failed => none

def processGroupExists (env : Env) (pgid : Nat) : Bool := env.group pgid != .absent

def verifyPublished (env : Env) (record : CleanupRecord) (leader : ProcessIdentity) (pgid : Nat) :
    CleanupVerification :=
  if exactProcessLiveness env leader = some true ∨ env.group pgid = .active then .active record
  else .uncensused record

def verifyResidual (env : Env) (record : CleanupRecord) (pgid : Nat)
    (residuals : List ProcessIdentity) : CleanupVerification :=
  if (∃ identity ∈ residuals, exactProcessLiveness env identity = some true) ∨
      env.group pgid = .active then .active record
  else if (∃ identity ∈ residuals, exactProcessLiveness env identity = none) ∨
      env.group pgid = .unknown then .unknown (some record)
  else .recoverable record

def verifyPhase (env : Env) (record : CleanupRecord) : CleanupVerification :=
  match record.phase with
  | .armed => .armed record
  | .published leader pgid => verifyPublished env record leader pgid
  | .censusPending leader pgid => verifyPublished env record leader pgid
  | .residual pgid domainComplete residuals =>
    if domainComplete then verifyResidual env record pgid residuals else .unknown (some record)

def verifyRecord (env : Env) (record : CleanupRecord) (agent operation : String) :
    CleanupVerification :=
  if record.agent ≠ agent ∨ record.operation ≠ operation then .unknown (some record)
  else if env.host = "unknown" ∨ record.host ≠ env.host then .unknown (some record)
  else
    match env.bootId with
    | none => .unknown (some record)
    | some bootId =>
      if record.bootId ≠ bootId then .recoverable record else verifyPhase env record

def cleanupVerification (env : Env) (d : Disk) (holder : Option LockState) : CleanupVerification :=
  match d.cleanup with
  | none => .none
  | some record =>
    match holder with
    | none => .unknown (some record)
    | some holder => verifyRecord env record holder.agent (operationOf holder.pr)

def requireNoCleanup (env : Env) (d : Disk) (holder : Option LockState) :
    Except LandLockError Unit :=
  match cleanupVerification env d holder with
  | .none => .ok ()
  | _ => .error .cleanupQuarantined

end DevHermit.Landing
