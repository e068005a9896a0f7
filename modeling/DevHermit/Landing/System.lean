import DevHermit.Landing.Specs
import DevHermit.Lib.System

namespace DevHermit.Landing

open Lib

inductive Kind where
  | acquire
  | renew
  | release
  | reclaimDead
  | census (args : CensusArgs)
  | run
  deriving DecidableEq, Repr

inductive Pc where
  | takeAnchor
  | checkAnchor
  | checkClaims
  | poll
  | timeOut
  | single
  | writeOwner
  | abandon
  | arm
  | spawn
  | clearUnstarted
  | publish (leader : ProcessIdentity)
  | token (leader : ProcessIdentity)
  | supervise (leader : ProcessIdentity)
  | beginCensus (leader : ProcessIdentity)
  | capture (leader : ProcessIdentity)
  | record (pgid : Nat) (complete : Bool) (residuals : List ProcessIdentity)
  | prove (pgid : Nat)
  | clear
  | finish
  | leaving
  deriving DecidableEq, Repr

def Kind.entry : Kind → Pc
  | .acquire => .checkAnchor
  | .run => .takeAnchor
  | .renew | .release | .reclaimDead | .census _ => .single

structure Process where
  kind : Kind
  args : AcquireArgs
  pc : Pc
  self : ProcessIdentity
  alive : Bool
  deriving DecidableEq, Repr

structure Oracle where
  now : Int
  later : Int
  named : Bool
  bootReadable : Bool
  readable : Nat → Bool
  group : Nat → GroupLiveness
  refuse : Bool
  elapsed : Bool
  leader : ProcessIdentity
  cgroup : Option String
  complete : Bool
  residuals : List ProcessIdentity
  domain : DomainEvidence
  cut : Option Nat

def Oracle.plain (now : Int) : Oracle where
  now := now
  later := now
  named := true
  bootReadable := true
  readable := fun _ => true
  group := fun _ => .absent
  refuse := false
  elapsed := false
  leader := ⟨100, 7⟩
  cgroup := none
  complete := true
  residuals := []
  domain := .unproven
  cut := none

inductive Reply where
  | done
  | waiting
  deriving DecidableEq, Repr

def AcquireToken.reply : AcquireToken → Reply
  | .acquired | .acquiredReclaimed _ => .done
  | .held _ _ | .waitTurn _ => .waiting

def settled {α : Type} (plan : Except LandLockError (Plan α)) :
    Except LandLockError (Plan Reply) := do
  let p ← plan
  pure (p.1, .done)

def Process.single (proc : Process) (o : Oracle) (env : Env) (d : Disk) :
    Except LandLockError (Plan Reply) :=
  match proc.kind with
  | .renew => settled (renew env proc.args.agent proc.args.hold d)
  | .release => settled (release env proc.args.agent d)
  | .reclaimDead => settled (reclaimDead env d)
  | .census args => settled (censusOrphanedDomain env args o.domain d)
  | .acquire | .run => pure ([], .done)

def Process.plan (proc : Process) (o : Oracle) (env : Env) (d : Disk) :
    Except LandLockError (Plan Reply) :=
  match proc.pc with
  | .poll => do
      let p ← tryAcquire env proc.args d
      pure (p.1, p.2.reply)
  | .timeOut => pure (removeFromQueue proc.args.agent d, .done)
  | .single => proc.single o env d
  | .writeOwner => settled (writeCurrentProcessOwner env)
  | .abandon | .finish => settled (release env proc.args.agent d)
  | .arm => settled (armRun env proc.args.agent proc.args.pr d)
  | .clearUnstarted => settled (clearUnstartedRun env proc.args.agent proc.args.pr d)
  | .publish leader =>
    settled (publishRun env proc.args.agent proc.args.pr leader o.cgroup d)
  | .beginCensus leader => settled (beginRunCensus env proc.args.agent proc.args.pr leader d)
  | .record pgid complete residuals =>
    settled (recordResiduals env proc.args.agent proc.args.pr pgid complete residuals d)
  | .prove pgid => settled (recordResiduals env proc.args.agent proc.args.pr pgid true [] d)
  | .clear => settled (clearProvenRun env d)
  | .takeAnchor | .checkAnchor | .checkClaims | .spawn | .token _ | .supervise _ | .capture _
  | .leaving => pure ([], .done)

def Oracle.settle (o : Oracle) (plan : Except LandLockError (Plan Reply)) :
    List FsOp × Option Reply :=
  match plan with
  | .error _ => ([], none)
  | .ok p =>
    match o.cut with
    | none => (p.1, some p.2)
    | some k => (p.1.take k, none)

def onSuccess (reply : Option Reply) (next otherwise : Pc) : Pc :=
  match reply with
  | none => otherwise
  | some _ => next

def Process.next (proc : Process) (o : Oracle) (env : Env) (free : Bool) (reply : Option Reply) :
    Pc :=
  match proc.pc with
  | .takeAnchor => if o.refuse then .leaving else if free then .checkClaims else .takeAnchor
  | .checkAnchor => if o.refuse || !free then .leaving else .checkClaims
  | .checkClaims => if o.refuse then .leaving else .poll
  | .poll =>
    match reply with
    | none => .leaving
    | some .waiting => if o.elapsed then .timeOut else .poll
    | some .done => if proc.kind = .run then .writeOwner else .leaving
  | .writeOwner => onSuccess reply .arm .abandon
  | .arm => onSuccess reply .spawn .leaving
  | .spawn => if o.refuse then .clearUnstarted else .publish o.leader
  | .clearUnstarted => onSuccess reply .finish .leaving
  | .publish leader => onSuccess reply (.token leader) .leaving
  | .token leader => if o.refuse then .leaving else .supervise leader
  | .supervise leader => .beginCensus leader
  | .beginCensus leader => onSuccess reply (.capture leader) .leaving
  | .capture leader =>
    if !processGroupExists env leader.pid && o.complete && o.residuals.isEmpty then
      .prove leader.pid
    else .record leader.pid o.complete o.residuals
  | .prove _ => onSuccess reply .clear .leaving
  | .clear => onSuccess reply .finish .leaving
  | .timeOut | .single | .abandon | .record _ _ _ | .finish | .leaving => .leaving

structure State (P : Type) where
  host : String
  boot : BootId
  disk : Disk
  anchor : Option P
  running : List (P × ProcessIdentity)
  living : List ProcessIdentity
  proc : P → Option Process
  domain : P → List ProcessIdentity
  frozen : P → Bool
  author : Option P
  lessee : Option P

def State.init (P : Type) (host : String) : State P where
  host := host
  boot := 0
  disk := Disk.empty
  anchor := none
  running := []
  living := []
  proc := fun _ => none
  domain := fun _ => []
  frozen := fun _ => false
  author := none
  lessee := none

variable {P : Type} [DecidableEq P]

def State.table (s : State P) : List ProcessIdentity := s.running.map Prod.snd ++ s.living

def State.look (s : State P) (pid : Nat) : Ticks :=
  match s.table.find? fun identity => identity.pid == pid with
  | some identity => .found identity.startTicks
  | none => .missing

def State.unused (s : State P) (pid : Nat) : Bool := s.table.all fun identity => identity.pid != pid

def State.env (s : State P) (o : Oracle) (self : ProcessIdentity) : Env where
  now := o.now
  later := o.later
  host := if o.named then s.host else "unknown"
  bootId := if o.bootReadable then some s.boot else none
  ticks := fun pid => if o.readable pid then s.look pid else .failed
  group := o.group
  self := self

def FsOp.writesHolder : FsOp → Bool
  | .writeHolder _ => true
  | _ => false

def State.turn (s : State P) (proc : Process) (o : Oracle) : List FsOp × Option Reply :=
  o.settle (proc.plan o (s.env o proc.self) s.disk)

def State.goto (s : State P) (proc : Process) (o : Oracle) : Pc :=
  proc.next o (s.env o proc.self) s.anchor.isNone (s.turn proc o).2

def CensusArgs.vouches (args : CensusArgs) (o : Oracle) : Bool :=
  o.domain == .provenEmpty || args.attestDomainEmpty

def State.authorEmpty (s : State P) : Bool :=
  match s.author with
  | none => true
  | some author => (s.domain author).isEmpty

def State.admits (s : State P) (p : P) (proc : Process) (o : Oracle) : Bool :=
  match proc.pc with
  | .spawn => o.refuse || s.unused o.leader.pid
  | .capture _ => !o.complete || (s.domain p).all fun identity => o.residuals.contains identity
  | .single =>
    match proc.kind with
    | .census args => !args.vouches o || s.authorEmpty
    | _ => true
  | _ => true

def State.anchorAfter (s : State P) (p : P) (pc : Pc) (pc' : Pc) : Option P :=
  if pc = .takeAnchor ∧ pc' = .checkClaims then some p
  else if pc' = .leaving ∧ s.anchor = some p then none
  else s.anchor

def State.act (s : State P) (p : P) (proc : Process) (o : Oracle) : State P :=
  let ops := (s.turn proc o).1
  let pc' := s.goto proc o
  { s with
    disk := s.disk.perform ops
    anchor := s.anchorAfter p proc.pc pc'
    proc := Function.update s.proc p (some { proc with pc := pc' })
    living := if proc.pc = .spawn ∧ pc' ≠ .clearUnstarted then o.leader :: s.living else s.living
    domain := match proc.pc with
      | .token leader =>
        if pc' = .leaving then s.domain
        else Function.update s.domain p (if leader ∈ s.living then [leader] else [])
      | _ => s.domain
    frozen := match proc.pc with
      | .token _ => Function.update s.frozen p false
      | .capture _ => Function.update s.frozen p o.complete
      | _ => s.frozen
    author := if proc.pc = .arm ∧ ops ≠ [] then some p else s.author
    lessee := if proc.pc = .poll ∧ ops.any FsOp.writesHolder then some p else s.lessee }

def State.pulse (s : State P) (proc : Process) (o : Oracle) : List FsOp :=
  (o.settle (settled (renewRunLease (s.env o proc.self) proc.args.agent proc.args.pr
    proc.args.hold s.disk))).1

def State.beat (s : State P) (proc : Process) (o : Oracle) : State P :=
  { s with disk := s.disk.perform (s.pulse proc o) }

def State.die (s : State P) (p : P) (proc : Process) : State P :=
  { s with
    anchor := if s.anchor = some p then none else s.anchor
    running := s.running.filter fun entry => entry.1 != p
    proc := Function.update s.proc p (some { proc with alive := false }) }

def State.exit (s : State P) (identity : ProcessIdentity) : State P :=
  { s with
    living := s.living.filter fun other => other != identity
    domain := fun p => (s.domain p).filter fun other => other != identity }

def State.reboot (s : State P) : State P :=
  { s with
    boot := s.boot + 1
    anchor := none
    running := []
    living := []
    proc := fun p => (s.proc p).map fun proc => { proc with alive := false }
    domain := fun _ => [] }

inductive Event (P : Type) where
  | start (p : P) (kind : Kind) (args : AcquireArgs) (self : ProcessIdentity)
  | act (p : P) (o : Oracle)
  | beat (p : P) (o : Oracle)
  | die (p : P)
  | appear (identity : ProcessIdentity)
  | fork (p : P) (identity : ProcessIdentity)
  | exit (identity : ProcessIdentity)
  | reboot

def State.step (s : State P) : Event P → Option (State P)
  | .start p kind args self =>
    if (s.proc p).isNone ∧ s.unused self.pid then
      some { s with
        running := (p, self) :: s.running
        proc := Function.update s.proc p (some ⟨kind, args, kind.entry, self, true⟩) }
    else none
  | .act p o =>
    match s.proc p with
    | none => none
    | some proc => if proc.alive ∧ s.admits p proc o then some (s.act p proc o) else none
  | .beat p o =>
    match s.proc p with
    | none => none
    | some proc => if proc.alive ∧ proc.kind = .run then some (s.beat proc o) else none
  | .die p =>
    match s.proc p with
    | none => none
    | some proc => if proc.alive then some (s.die p proc) else none
  | .appear identity =>
    if s.unused identity.pid then some { s with living := identity :: s.living } else none
  | .fork p identity =>
    if s.domain p ≠ [] ∧ s.frozen p = false ∧ s.unused identity.pid then
      some { s with
        living := identity :: s.living
        domain := Function.update s.domain p (identity :: s.domain p) }
    else none
  | .exit identity => some (s.exit identity)
  | .reboot => some s.reboot

def landing (P : Type) [DecidableEq P] (host : String) : System (State P) (Event P) where
  start := State.init P host
  step := State.step

end DevHermit.Landing
