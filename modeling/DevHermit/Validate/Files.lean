import DevHermit.Landing.Files

namespace DevHermit.Validate

open Lib Landing

def defaultWaitSeconds : Int := 1800

inductive Kind where
  | validate
  | bench
  deriving DecidableEq, Repr

def Kind.asStr : Kind → String
  | .validate => "validate"
  | .bench => "bench"

structure ValidateLockState where
  agent : String
  kind : Kind
  target : String
  host : String
  acquiredAt : Int
  expiresAt : Int
  reclaimedFrom : Option Reclaimed
  deriving DecidableEq, Repr

structure QueueEntry where
  enqueuedAt : Int
  agent : String
  target : String
  deriving DecidableEq, Repr

inductive ValidateLockError where
  | io
  | invalidState
  | guardTimeout
  | renewNotOwner (agent : String)
  | releaseNotOwner (agent holder : String)
  | emptyChild
  | unboundedChildDeadline
  | badMax
  | staleBase
  | processNotOwner (pid : Nat)
  | reclaimNotProven
  | cleanupQuarantined
  | recoveryNotProven
  deriving DecidableEq, Repr

structure Disk where
  holder : File ValidateLockState
  owner : File ProcessOwner
  cleanup : Option CleanupRecord
  queue : List QueueEntry
  deriving DecidableEq, Repr

def Disk.empty : Disk := ⟨.absent, .absent, none, []⟩

inductive FsOp where
  | truncateHolder
  | writeHolder (holder : ValidateLockState)
  | removeHolder
  | truncateOwner
  | writeOwner (owner : ProcessOwner)
  | removeOwner
  | renameCleanup (record : CleanupRecord)
  | removeCleanup
  | openClaim
  | writeClaim (agent operation host : String)
  | removeClaim
  | renameQueue (queue : List QueueEntry)
  deriving DecidableEq, Repr

def FsOp.apply (d : Disk) : FsOp → Disk
  | .truncateHolder => { d with holder := .blank }
  | .writeHolder holder => { d with holder := .full holder }
  | .removeHolder => { d with holder := .absent }
  | .truncateOwner => { d with owner := .blank }
  | .writeOwner owner => { d with owner := .full owner }
  | .removeOwner => { d with owner := .absent }
  | .renameCleanup record => { d with cleanup := some record }
  | .removeCleanup => { d with cleanup := none }
  | .openClaim | .writeClaim _ _ _ | .removeClaim => d
  | .renameQueue queue => { d with queue := queue }

def Disk.perform (d : Disk) (ops : List FsOp) : Disk := ops.foldl FsOp.apply d

def ValidateLockState.liveAt (holder : ValidateLockState) (now : Int) : Prop :=
  now < holder.expiresAt

instance (holder : ValidateLockState) (now : Int) : Decidable (holder.liveAt now) :=
  inferInstanceAs (Decidable (_ < _))

def newHolder (env : Env) (agent : String) (kind : Kind) (target : String) (hold : UInt64)
    (reclaimedFrom : Option Reclaimed) : ValidateLockState where
  agent := agent
  kind := kind
  target := target
  host := env.host
  acquiredAt := env.later
  expiresAt := saturatingAdd env.later (asI64 hold)
  reclaimedFrom := reclaimedFrom

def operationOf (kind : Kind) (target : String) : String := kind.asStr ++ ":" ++ target

def Disk.readHolder (d : Disk) : Except ValidateLockError (Option ValidateLockState) :=
  match d.holder with
  | .absent => .ok none
  | .blank => .error .invalidState
  | .full holder => .ok (some holder)

def Disk.readProcessOwner (d : Disk) : Except ValidateLockError (Option ProcessOwner) :=
  match d.owner with
  | .absent => .ok none
  | .blank => .error .invalidState
  | .full owner => .ok (some owner)

def currentBootId (env : Env) : Except ValidateLockError BootId :=
  match env.bootId with
  | none => .error .io
  | some bootId => .ok bootId

def currentProcessOwner (env : Env) : Except ValidateLockError ProcessOwner := do
  let bootId ← currentBootId env
  pure ⟨env.host, bootId, env.self⟩

def ownerLiveness (env : Env) (d : Disk) : Except ValidateLockError OwnerLiveness := do
  match ← d.readProcessOwner with
  | none => pure .unknown
  | some owner =>
    if owner.host ≠ env.host then pure .unknown
    else
      let bootId ← currentBootId env
      if owner.bootId ≠ bootId then pure (.dead .rebooted)
      else pure (processLiveness env owner.identity)

def assertCurrentProcessOwner (env : Env) (d : Disk) : Except ValidateLockError Unit := do
  match ← d.readProcessOwner with
  | none => pure ()
  | some owner =>
    let current ← currentProcessOwner env
    if owner = current then pure () else .error (.processNotOwner owner.identity.pid)

def cleanupVerification (env : Env) (d : Disk) (holder : Option ValidateLockState) :
    CleanupVerification :=
  match d.cleanup with
  | none => .none
  | some record =>
    match holder with
    | none => .unknown (some record)
    | some holder => verifyRecord env record holder.agent (operationOf holder.kind holder.target)

def requireNoCleanup (env : Env) (d : Disk) (holder : Option ValidateLockState) :
    Except ValidateLockError Unit :=
  match cleanupVerification env d holder with
  | .none => .ok ()
  | _ => .error .cleanupQuarantined

end DevHermit.Validate
