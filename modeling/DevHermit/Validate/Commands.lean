import DevHermit.Lib.Process
import DevHermit.Validate.Guarded

namespace DevHermit.Validate

open Lib Landing

structure Answer where
  now : Int
  later : Int
  named : Bool
  bootReadable : Bool
  ticks : Nat → Ticks
  group : Nat → GroupLiveness
  busyBefore : Bool
  busyAfter : Bool
  refuse : Bool
  polls : Nat
  leader : ProcessIdentity
  cgroup : Option String
  complete : Bool
  residuals : List ProcessIdentity
  domain : DomainEvidence
  exitCode : Int
  listing : List (List Char)

def Answer.plain (now : Int) : Answer where
  now := now
  later := now
  named := true
  bootReadable := true
  ticks := fun _ => .missing
  group := fun _ => .absent
  busyBefore := false
  busyAfter := false
  refuse := false
  polls := 0
  leader := ⟨100, 7⟩
  cgroup := none
  complete := true
  residuals := []
  domain := .unproven
  exitCode := 0
  listing := []

structure Site where
  host : String
  boot : BootId
  identity : Nat → ProcessIdentity

def probe (present born : List ProcessIdentity) (pid : Nat) : Ticks → Ticks
  | .found ticks =>
    if (∀ x ∈ present, x.pid = pid → x.startTicks = ticks) ∧
        ((⟨pid, ticks⟩ : ProcessIdentity) ∈ born → (⟨pid, ticks⟩ : ProcessIdentity) ∈ present)
    then .found ticks else .failed
  | .missing => if ∃ x ∈ present, x.pid = pid then .failed else .missing
  | .failed => .failed

def Site.born {W : Type} (site : Site) (s : Sys W) : List ProcessIdentity :=
  (List.range s.live.length).map site.identity

def Site.living {W : Type} (site : Site) (s : Sys W) : List ProcessIdentity :=
  ((List.range s.live.length).filter s.alive).map site.identity

def Site.env (site : Site) (a : Answer) (clock : Int) (present born : List ProcessIdentity)
    (p : Nat) : Env where
  now := max clock a.now
  later := max (max clock a.now) a.later
  host := if a.named then site.host else "unknown"
  bootId := if a.bootReadable then some site.boot else none
  ticks := fun pid => probe present born pid (a.ticks pid)
  group := a.group
  self := site.identity p

structure View where
  env : Env
  anchorBefore : Bool
  anchorAfter : Bool
  domain : DomainEvidence
  honest : Bool

inductive Act where
  | grant (supervised : Bool)
  | owner
  | arm
  | ask
  | other
  deriving DecidableEq, Repr

structure Captured where
  complete : Bool
  residuals : List ProcessIdentity
  groupExists : Bool

def Captured.domainEmpty (c : Captured) : Bool :=
  !c.groupExists && c.complete && c.residuals.isEmpty

abbrev Task (L W α : Type) := Prog L ValidateLockError W Answer α

structure Kit (L W : Type) where
  guarded : {α : Type} → Act → (View → Disk → Except ValidateLockError (Plan α)) → Task L W α
  outcome : {α : Type} → (Answer → α) → Task L W α
  takeAnchor : Task L W Bool
  dropAnchor : Task L W Unit
  heldByAnother : Task L W Bool
  foreignBoxClaim : Task L W Bool
  releaseGate : ProcessIdentity → Task L W Bool
  capture : ProcessIdentity → Task L W Captured

structure RunArgs where
  lease : AcquireArgs
  noWait : Bool
  child : List String
  childDeadline : Nat
  max : Nat
  skipBaseCheck : Bool
  deriving DecidableEq, Repr

inductive Command where
  | acquire (args : AcquireArgs) (max : Nat) (skipBaseCheck : Bool)
  | renew (agent : String) (hold : UInt64)
  | release (agent : String)
  | authorityStatus
  | reclaimDead
  | censusOrphanedDomain (args : CensusArgs)
  | run (args : RunArgs)
  deriving DecidableEq, Repr

def refusedExitCode : Int := 3

def rejectBadMax (max : Nat) : Except ValidateLockError Unit := reject (max ≠ 1) .badMax

def isFullSha (target : String) : Bool :=
  target.toList.length = 40 &&
    target.toList.all fun c => c.isDigit || ('a' ≤ c && c ≤ 'f')

def baseAdmissionCheck (args : AcquireArgs) (skip preflight : Bool) :
    Except ValidateLockError Unit :=
  if args.kind ≠ .validate then .ok ()
  else if skip then .error .staleBase
  else if isFullSha args.target = false then .error .staleBase
  else if preflight then .ok ()
  else .error .staleBase

def RunArgs.check (args : RunArgs) : Except ValidateLockError Unit := do
  reject (args.child = []) .emptyChild
  reject (args.childDeadline = 0) .unboundedChildDeadline
  rejectBadMax args.max

variable {L W : Type} (k : Kit L W)

def lift (r : Except ValidateLockError Unit) : Task L W Unit :=
  match r with
  | .ok _ => .ret ()
  | .error e => .raise e

def demand : Task L W Unit := do
  let failed ← k.outcome Answer.refuse
  lift (reject (failed = true) .io)

def releaseLease (agent : String) : Task L W Unit := do
  let _ ← k.guarded .other fun v d => release v.env agent d
  pure ()

def poll (supervised : Bool) (args : AcquireArgs) : Task L W Bool := do
  let token ← k.guarded (.grant supervised) fun v d => tryAcquire v.env args d
  pure token.granted

def waiting (supervised : Bool) (args : AcquireArgs) : Nat → Task L W Int
  | 0 => do
      let granted ← poll k supervised args
      if granted then pure 0
      else do
        k.guarded .other fun _ d => removeFromQueue args.agent d
        pure 1
  | n + 1 => do
      let granted ← poll k supervised args
      if granted then pure 0 else waiting supervised args n

def acquire (supervised : Bool) (args : AcquireArgs) : Task L W Int := do
  let polls ← k.outcome Answer.polls
  waiting k supervised args polls

def acquireCommand (args : AcquireArgs) (max : Nat) (skip : Bool) : Task L W Int := do
  lift (rejectBadMax max)
  let preflight ← k.outcome fun a => !a.refuse
  lift (baseAdmissionCheck args skip preflight)
  let busy ← k.heldByAnother
  if busy then pure refusedExitCode
  else do
    let foreign ← k.foreignBoxClaim
    if foreign then pure refusedExitCode else acquire k false args

def beats (args : AcquireArgs) : Nat → Task L W Unit
  | 0 => pure ()
  | n + 1 => do
      let alive ← ((k.guarded .other fun v d => renewRunLease v.env args d).bind
        fun _ => .ret true).handle fun _ => .ret false
      if alive then beats args n else pure ()

def heartbeat (args : AcquireArgs) : Task L W Unit := do
  let n ← k.outcome Answer.polls
  beats k args n

def finish (args : AcquireArgs) : Task L W Int := do
  releaseLease k args.agent
  demand k
  k.outcome Answer.exitCode

def clearProven (args : AcquireArgs) (pgid : Nat) : Task L W Int := do
  k.guarded .other fun v d => recordResiduals v.env args pgid true [] d
  k.guarded .other fun v d => clearProvenRun v.env d
  finish k args

def quarantine (args : AcquireArgs) (pgid : Nat) (captured : Captured) : Task L W Int := do
  k.guarded .other fun v d =>
    recordResiduals v.env args pgid captured.complete captured.residuals d
  .raise .cleanupQuarantined

def census (args : AcquireArgs) (leader : ProcessIdentity) : Task L W Int := do
  let captured ← k.capture leader
  if captured.domainEmpty then clearProven k args leader.pid
  else quarantine k args leader.pid captured

def abandonHeartbeat (args : AcquireArgs) (e : ValidateLockError) : Task L W Unit := do
  k.dropAnchor
  heartbeat k args
  .raise e

def supervise (args : AcquireArgs) (leader : ProcessIdentity) : Task L W Int := do
  heartbeat k args
  (k.guarded .other fun v d => beginRunCensus v.env args leader d).handle
    (abandonHeartbeat k args)
  census k args leader

def launch (args : AcquireArgs) (leader : ProcessIdentity) : Task L W Int := do
  let cgroup ← k.outcome Answer.cgroup
  k.guarded .other fun v d => publishRun v.env args leader cgroup d
  let started ← k.releaseGate leader
  if started then supervise k args leader else .raise .io

def unstarted (args : AcquireArgs) : Task L W Int := do
  k.guarded .other fun v d => clearUnstartedRun v.env args d
  releaseLease k args.agent
  .raise .io

def spawnChild (args : AcquireArgs) : Task L W Int := do
  let child ← k.outcome fun a => if a.refuse then none else some a.leader
  match child with
  | none => unstarted k args
  | some leader => launch k args leader

def abandonLease (agent : String) (e : ValidateLockError) : Task L W Unit := do
  (releaseLease k agent).handle fun _ => .ret ()
  .raise e

def owned (args : AcquireArgs) : Task L W Int := do
  (k.guarded .owner fun v _ => writeCurrentProcessOwner v.env).handle
    (abandonLease k args.agent)
  demand k
  k.guarded .arm fun v d => armRun v.env args d
  spawnChild k args

def admission (args : RunArgs) : Task L W Int :=
  if args.noWait then do
    let granted ← poll k true args.lease
    if granted then pure 0 else pure refusedExitCode
  else acquire k true args.lease

def admitted (args : RunArgs) : Task L W Int := do
  let status ← admission k args
  if status ≠ 0 then pure status else owned k args.lease

def anchored (args : RunArgs) : Task L W Int := do
  let foreign ← k.foreignBoxClaim
  if foreign then pure refusedExitCode else admitted k args

def staleOr (e : ValidateLockError) (m : Task L W Int) : Task L W Int :=
  if e = .staleBase then pure refusedExitCode else m

def runAnchored (args : RunArgs) : Task L W Int := do
  let taken ← k.takeAnchor
  if taken then (anchored k args).ensuring k.dropAnchor else pure refusedExitCode

def run (args : RunArgs) : Task L W Int := do
  lift args.check
  demand k
  let preflight ← k.outcome fun a => !a.refuse
  match baseAdmissionCheck args.lease args.skipBaseCheck preflight with
  | .error e => staleOr e (.raise e)
  | .ok _ => runAnchored k args

def CensusArgs.truthful (args : CensusArgs) (honest : Bool) : CensusArgs :=
  { args with attestDomainEmpty := args.attestDomainEmpty && honest }

def execute : Command → Task L W Unit
  | .acquire args max skip => do
      let _ ← acquireCommand k args max skip
      pure ()
  | .renew agent hold => k.guarded .other fun v d => renew v.env agent hold d
  | .release agent => releaseLease k agent
  | .authorityStatus => do
      let _ ← k.guarded .ask fun v d =>
        (authorityStatusGuarded v.env v.anchorBefore v.anchorAfter d).map fun status =>
          (([] : List FsOp), status)
      pure ()
  | .reclaimDead => do
      let _ ← k.guarded .other fun v d => reclaimDead v.env d
      pure ()
  | .censusOrphanedDomain args =>
    k.guarded .other fun v d =>
      censusOrphanedDomain v.env (CensusArgs.truthful args v.honest) v.domain d
  | .run args => do
      let _ ← run k args
      pure ()

end DevHermit.Validate
