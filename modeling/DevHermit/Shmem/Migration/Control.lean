import DevHermit.Lib.Machine
import DevHermit.Shmem.Migration.Plan

namespace DevHermit.Shmem.Migration

open Lib

def Raw.uninitialized : UInt64 := 0
def Raw.initializing : UInt64 := 1
def Raw.copying : UInt64 := 2
def Raw.targetReady : UInt64 := 3
def Raw.committed : UInt64 := 4
def Raw.reclaimed : UInt64 := 5
def Raw.poisoned : UInt64 := 6

def MigrationPhase.decode (raw : UInt64) : Except MigrationError MigrationPhase :=
  if raw = Raw.uninitialized then .ok .uninitialized
  else if raw = Raw.initializing then .ok .initializing
  else if raw = Raw.copying then .ok .copying
  else if raw = Raw.targetReady then .ok .targetReady
  else if raw = Raw.committed then .ok .committed
  else if raw = Raw.reclaimed then .ok .reclaimed
  else if raw = Raw.poisoned then .ok .poisoned
  else .error (.corruptPhase raw)

def MigrationPhase.hasPublishedPlan : MigrationPhase → Bool
  | .copying | .targetReady | .committed | .reclaimed => true
  | _ => false

inductive AuthoritativeGeneration where
  | source
  | target
  deriving DecidableEq, Repr

def MigrationPhase.authoritative : MigrationPhase → Option AuthoritativeGeneration
  | .copying | .targetReady => some .source
  | .committed | .reclaimed => some .target
  | _ => none

structure Backing where
  generation : GenerationIdentity
  recoveryAuthority : AuthorityIdentity
  isPrivate : Bool
  deriving DecidableEq, Repr

inductive Outcome where
  | begun
  | ready
  | committed (plan : MigrationPlan)
  | unit
  | snapshot (phase : MigrationPhase) (plan : Option MigrationPlan)
  | authoritative (generation : AuthoritativeGeneration) (plan : MigrationPlan)
  | permit (plan : MigrationPlan) (resumed : Bool)
  | error (error : MigrationError)
  deriving DecidableEq, Repr

inductive After where
  | finish
  | dropAuthority (transactionId : UInt64)
  | dropInitialization
  deriving DecidableEq, Repr

inductive Caller where
  | snapshot
  | authoritativeGeneration
  | authorizeReclamation (witness : MigrationPlan)
  | resumeReclamation
  deriving DecidableEq, Repr

inductive Edge where
  | ready
  | commit
  | reclaim
  deriving DecidableEq, Repr

def Edge.expected : Edge → MigrationPhase
  | .ready => .copying
  | .commit => .targetReady
  | .reclaim => .committed

def Edge.expectedRaw : Edge → UInt64
  | .ready => Raw.copying
  | .commit => Raw.targetReady
  | .reclaim => Raw.committed

def Edge.nextRaw : Edge → UInt64
  | .ready => Raw.targetReady
  | .commit => Raw.committed
  | .reclaim => Raw.reclaimed

def Edge.after (plan : MigrationPlan) : Edge → After
  | .reclaim => .finish
  | _ => .dropAuthority plan.transactionId

inductive Loading where
  | snapshot (phase : MigrationPhase) (caller : Caller)
  | transition (plan : MigrationPlan) (edge : Edge)
  deriving DecidableEq, Repr

inductive Op where
  | begin (witness plan : MigrationPlan)
  | markTargetReady (plan : MigrationPlan) (target : Backing)
  | commit (plan : MigrationPlan) (target : Backing)
  | dropMigration (plan : MigrationPlan)
  | dropTargetReady (plan : MigrationPlan)
  | poison
  | observe (caller : Caller)
  deriving DecidableEq, Repr

inductive Pc where
  | idle
  | beginQuiescent (plan : MigrationPlan)
  | beginCas (plan : MigrationPlan)
  | beginStore (plan : MigrationPlan) (index : Nat)
  | beginPublish (plan : MigrationPlan)
  | initPoison (outcome : Outcome)
  | poisonStore (after : After) (outcome : Outcome)
  | snapLoad (caller : Caller)
  | load (loaded : List UInt64) (loading : Loading)
  | authorizeQuiescent (plan : MigrationPlan) (phase : MigrationPhase)
  | transitionCas (plan : MigrationPlan) (edge : Edge)
  | dropLoadId (transactionId : UInt64) (outcome : Outcome)
  | dropLoad (outcome : Outcome)
  | dropCas (phase : UInt64) (outcome : Outcome)
  | poisonLoad
  | poisonCas (phase : UInt64)
  | done (outcome : Outcome)
  deriving DecidableEq, Repr

structure Shared where
  phase : UInt64
  words : List UInt64
  migrations : List MigrationPlan
  readies : List MigrationPlan
  begun : List MigrationPlan
  permits : Nat
  deriving DecidableEq, Repr

inductive In where
  | call (op : Op)
  | go
  | spurious
  | quiescent (answer : Bool)
  deriving DecidableEq, Repr

def After.next : After → Outcome → Pc
  | .finish, outcome => .done outcome
  | .dropAuthority transactionId, outcome => .dropLoadId transactionId outcome
  | .dropInitialization, outcome => .initPoison outcome

def decodeOrPoison (raw : UInt64) (after : After) (found : MigrationPhase → Outcome) : Pc :=
  match MigrationPhase.decode raw with
  | .ok phase => after.next (found phase)
  | .error e => .poisonStore after (.error e)

def wrongPhase (expected actual : MigrationPhase) : Outcome := .error (.wrongPhase expected actual)

def finishSnapshot (phase : MigrationPhase) (plan : Option MigrationPlan) : Caller → Pc
  | .snapshot => .done (.snapshot phase plan)
  | .authoritativeGeneration =>
    match phase.authoritative, plan with
    | some generation, some plan => .done (.authoritative generation plan)
    | _, _ => .done (.error (.noAuthoritativeGeneration phase))
  | .authorizeReclamation witness =>
    match plan with
    | none => .done (wrongPhase .committed phase)
    | some plan =>
      if witness ≠ plan then .done (.error (sourcePlanMismatch witness plan))
      else .authorizeQuiescent plan phase
  | .resumeReclamation =>
    match plan with
    | none => .done (wrongPhase .reclaimed phase)
    | some plan =>
      if phase ≠ .reclaimed then .done (wrongPhase .reclaimed phase)
      else .done (.permit plan true)

def snapshotPhase (raw : UInt64) (caller : Caller) : Pc :=
  match MigrationPhase.decode raw with
  | .error e => .poisonStore .finish (.error e)
  | .ok phase =>
    if phase.hasPublishedPlan then .load [] (.snapshot phase caller)
    else finishSnapshot phase none caller

def Loading.after : Loading → After
  | .snapshot _ _ => .finish
  | .transition plan edge => edge.after plan

def finishLoad (loaded : List UInt64) (loading : Loading) : Pc :=
  match checkRecord loaded with
  | none => .poisonStore loading.after (.error .corruptMetadata)
  | some found =>
    match loading with
    | .snapshot phase caller => finishSnapshot phase (some found) caller
    | .transition plan edge =>
      if found ≠ plan then .poisonStore (edge.after plan) (.error .transactionMismatch)
      else .transitionCas plan edge

def checkTarget (plan : MigrationPlan) (target : Backing) (edge : Edge) : Pc :=
  if target.generation ≠ plan.target then
    .dropLoadId plan.transactionId (.error (.targetGenerationMismatch (generationTag plan.target)
      (generationTag target.generation)))
  else if target.recoveryAuthority ≠ plan.targetAuthority then
    .dropLoadId plan.transactionId
      (.error (.targetAuthorityMismatch plan.targetAuthority target.recoveryAuthority))
  else if ¬ target.isPrivate then
    .dropLoadId plan.transactionId (.error .targetAlreadyPublished)
  else .load [] (.transition plan edge)

def authorize (plan : MigrationPlan) (phase : MigrationPhase) (quiescent : Bool) : Pc :=
  if ¬ quiescent then .done (.error .sourceNotDrained)
  else if phase = .reclaimed then .done (.permit plan true)
  else if phase ≠ .committed then .done (wrongPhase .committed phase)
  else .load [] (.transition plan .reclaim)

def startBegin (plan : MigrationPlan) (quiescent : Bool) : Pc :=
  if ¬ quiescent then .done (.error .sourceNotDrained)
  else
    match plan.validate with
    | .error e => .done (.error e)
    | .ok () => .beginCas plan

def poisonDecide (phase : UInt64) : Pc :=
  if phase = Raw.committed ∨ phase = Raw.reclaimed ∨ phase = Raw.poisoned then .done .unit
  else
    match MigrationPhase.decode phase with
    | .error _ => .poisonStore .finish .unit
    | .ok _ => .poisonCas phase

def dropDecide (phase : UInt64) (outcome : Outcome) : Pc :=
  if phase ≠ Raw.copying ∧ phase ≠ Raw.targetReady then .done outcome else .dropCas phase outcome

def call (sh : Shared) : Op → Option (Shared × Pc)
  | .begin witness plan =>
    if witness ≠ plan then some (sh, .done (.error (sourcePlanMismatch witness plan)))
    else some (sh, .beginQuiescent plan)
  | .markTargetReady plan target =>
    if plan ∈ sh.migrations then
      some ({ sh with migrations := sh.migrations.erase plan }, checkTarget plan target .ready)
    else none
  | .commit plan target =>
    if plan ∈ sh.readies then
      some ({ sh with readies := sh.readies.erase plan }, checkTarget plan target .commit)
    else none
  | .dropMigration plan =>
    if plan ∈ sh.migrations then
      some ({ sh with migrations := sh.migrations.erase plan },
        .dropLoadId plan.transactionId .unit)
    else none
  | .dropTargetReady plan =>
    if plan ∈ sh.readies then
      some ({ sh with readies := sh.readies.erase plan }, .dropLoadId plan.transactionId .unit)
    else none
  | .poison => some (sh, .poisonLoad)
  | .observe caller => some (sh, .snapLoad caller)

def transitioned (sh : Shared) (plan : MigrationPlan) (edge : Edge) : Shared × Pc :=
  match edge with
  | .ready => ({ sh with phase := edge.nextRaw, readies := plan :: sh.readies }, .done .ready)
  | .commit => ({ sh with phase := edge.nextRaw }, .done (.committed plan))
  | .reclaim =>
    ({ sh with phase := edge.nextRaw, permits := sh.permits + 1 }, .done (.permit plan false))

def advance (sh : Shared) : Pc → Option (Shared × Pc)
  | .idle | .beginQuiescent _ | .authorizeQuiescent _ _ => none
  | .beginCas plan =>
    if sh.phase = Raw.uninitialized then
      some ({ sh with phase := Raw.initializing }, .beginStore plan 0)
    else some (sh, decodeOrPoison sh.phase .finish (wrongPhase .uninitialized))
  | .beginStore plan index =>
    some ({ sh with words := sh.words.set index (plan.record.getD index 0) },
      if index + 1 < recordLen then .beginStore plan (index + 1) else .beginPublish plan)
  | .beginPublish plan =>
    if sh.phase = Raw.initializing then
      some ({ sh with
        phase := Raw.copying, migrations := plan :: sh.migrations, begun := plan :: sh.begun },
        .done .begun)
    else some (sh, decodeOrPoison sh.phase .dropInitialization (wrongPhase .initializing))
  | .initPoison outcome => some ({ sh with phase := Raw.poisoned }, .done outcome)
  | .poisonStore after outcome => some ({ sh with phase := Raw.poisoned }, after.next outcome)
  | .snapLoad caller => some (sh, snapshotPhase sh.phase caller)
  | .load loaded loading =>
    if loaded.length < recordLen then
      some (sh, .load (loaded ++ [sh.words.getD loaded.length 0]) loading)
    else some (sh, finishLoad loaded loading)
  | .transitionCas plan edge =>
    if sh.phase = edge.expectedRaw then some (transitioned sh plan edge)
    else some (sh, decodeOrPoison sh.phase (edge.after plan) (wrongPhase edge.expected))
  | .dropLoadId transactionId outcome =>
    some (sh, if sh.words.getD 0 0 ≠ transactionId then .done outcome else .dropLoad outcome)
  | .dropLoad outcome => some (sh, dropDecide sh.phase outcome)
  | .dropCas phase outcome =>
    if sh.phase = phase then some ({ sh with phase := Raw.poisoned }, .done outcome)
    else some (sh, dropDecide sh.phase outcome)
  | .poisonLoad => some (sh, poisonDecide sh.phase)
  | .poisonCas phase =>
    if sh.phase = phase then some ({ sh with phase := Raw.poisoned }, .done .unit)
    else some (sh, poisonDecide sh.phase)
  | .done _ => some (sh, .idle)

def step (sh : Shared) (pc : Pc) : In → Option (Shared × Pc)
  | .call op => if pc = .idle then call sh op else none
  | .go => advance sh pc
  | .spurious => match pc with
      | .dropCas _ outcome => some (sh, dropDecide sh.phase outcome)
      | .poisonCas _ => some (sh, poisonDecide sh.phase)
      | _ => none
  | .quiescent answer => match pc with
      | .beginQuiescent plan => some (sh, startBegin plan answer)
      | .authorizeQuiescent plan phase => some (sh, authorize plan phase answer)
      | _ => none

def machine (P : Type) : Machine P Shared Pc In where
  start := ⟨Raw.uninitialized, List.replicate recordLen 0, [], [], [], 0⟩
  idle := .idle
  step := fun _ => step

end DevHermit.Shmem.Migration
