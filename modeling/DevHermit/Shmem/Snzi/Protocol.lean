import DevHermit.Lib.Machine
import DevHermit.Shmem.Snzi.Word
import DevHermit.Shmem.Tree

namespace DevHermit.Shmem.Snzi

open Lib

inductive PoisonReason where
  | nodeCountOverflow
  | generationExhausted
  | rootCountOverflow
  | invariantViolation
  | compensationOverflow
  deriving DecidableEq, Repr

def poisonNone : UInt64 := 0

def PoisonReason.code : PoisonReason → UInt64
  | .nodeCountOverflow => 1
  | .generationExhausted => 2
  | .rootCountOverflow => 3
  | .invariantViolation => 4
  | .compensationOverflow => 5

def PoisonReason.fromCode (code : UInt64) : Option PoisonReason :=
  if code = poisonNone then none
  else if code = 1 then some .nodeCountOverflow
  else if code = 2 then some .generationExhausted
  else if code = 3 then some .rootCountOverflow
  else if code = 4 then some .invariantViolation
  else if code = 5 then some .compensationOverflow
  else some .invariantViolation

inductive SnziError where
  | invalidLeaf (leaf leafCount : Nat)
  | malformedToken
  | generationMismatch (leaf : Nat) (tokenGeneration currentGeneration : UInt64)
  | inactiveToken (leaf : Nat) (generation : UInt64)
  | poisoned (reason : PoisonReason)
  deriving DecidableEq, Repr

structure SnziSnapshot where
  rootCount : UInt64
  activeNodes : Nat
  halfNodes : Nat
  localCountSum : UInt64
  invalidNodes : Nat
  poison : Option PoisonReason
  deriving DecidableEq, Repr

def SnziSnapshot.isQuiescent (s : SnziSnapshot) : Bool :=
  s.rootCount == 0 && s.activeNodes == 0 && s.halfNodes == 0 && s.invalidNodes == 0 &&
    s.poison.isNone

inductive Op where
  | arrive (leaf : Nat)
  | depart (token : Token)
  | departRaw (token : Token)
  | query
  | isQuiescent
  deriving DecidableEq, Repr

inductive Kind where
  | arrive
  | depart
  deriving DecidableEq, Repr

inductive Ret where
  | arrived (token : Token)
  | departed
  | active (answer : Bool)
  | quiescent (answer : Bool)
  | error (kind : Kind) (error : SnziError)
  deriving DecidableEq, Repr

inductive Target where
  | token (leaf : Nat) (generation : UInt64)
  | inner (child up : Nat)
  deriving DecidableEq, Repr

inductive DepartPc where
  | healthy (target : Target)
  | load (target : Target)
  | cas (target : Target) (state : UInt64)
  | rootHealthy (child : Nat)
  | rootLoad (child : Nat)
  | rootCas (child : Nat) (count : UInt64)
  deriving DecidableEq, Repr

inductive Caller where
  | help (node redundant : Nat) (state : UInt64)
  | init (node redundant : Nat) (generation : UInt64)
  deriving DecidableEq, Repr

def Caller.node : Caller → Nat
  | .help node _ _ => node
  | .init node _ _ => node

def Caller.redundant : Caller → Nat
  | .help _ redundant _ => redundant
  | .init _ redundant _ => redundant

inductive ArrivePc where
  | healthy (node redundant : Nat)
  | load (node redundant : Nat)
  | casHalf (node redundant : Nat) (state : UInt64)
  | casCount (node redundant : Nat) (state : UInt64)
  | publish (caller : Caller)
  | rootHealthy
  | rootLoad
  | rootCas (count : UInt64)
  | compensate (node : Nat) (generation : UInt64) (redundant : Nat) (pc : DepartPc)
  deriving DecidableEq, Repr

structure Scan where
  activeNodes : Nat
  halfNodes : Nat
  localCountSum : UInt64
  invalidNodes : Nat
  deriving DecidableEq, Repr

inductive Pc where
  | idle
  | arriveHealthy (leaf : Nat)
  | arrive (leaf : Nat) (callers : List Caller) (pc : ArrivePc)
  | arriveFinish (leaf : Nat) (generation : UInt64)
  | departHealthy (leaf : Nat) (generation : UInt64)
  | depart (pc : DepartPc)
  | departFinish
  | queryRoot
  | queryPoison
  | scanNode (index : Nat) (scan : Scan)
  | scanRoot (scan : Scan)
  | scanPoison (scan : Scan) (root : UInt64)
  | poison (kind : Kind) (reason : PoisonReason)
  | poisonReason (kind : Kind) (reason : PoisonReason)
  | done (ret : Ret)
  deriving DecidableEq, Repr

structure Memory where
  root : UInt64
  poison : UInt64
  nodes : Nat → UInt64

def Memory.new : Memory := ⟨0, poisonNone, fun _ => 0⟩

def usizeMax : Nat := 2 ^ 64 - 1

def u64Max : UInt64 := 0 - 1

def leafNode (t : TreeSize) (leaf : Nat) : Except SnziError Nat :=
  if Tree.layoutLeafCount t.nodes ≤ leaf then
    .error (.invalidLeaf leaf (Tree.layoutLeafCount t.nodes))
  else
    .ok (Tree.leafStart t.nodes + leaf)

def ensureHealthy (m : Memory) (kind : Kind) (next : Pc) : Pc :=
  match PoisonReason.fromCode m.poison with
  | some reason => .done (.error kind (.poisoned reason))
  | none => next

def arriveParent (leaf : Nat) (callers : List Caller) (caller : Caller) : Pc :=
  match Tree.parent caller.node with
  | none => .arrive leaf (caller :: callers) .rootHealthy
  | some up => .arrive leaf (caller :: callers) (.healthy up 0)

def arriveReturn (leaf : Nat) (callers : List Caller) (generation : UInt64) : Pc :=
  match callers with
  | [] => .arriveFinish leaf generation
  | caller :: rest => .arrive leaf rest (.publish caller)

def departParent (node : Nat) : DepartPc :=
  match Tree.parent node with
  | none => .rootHealthy node
  | some up => .healthy (.inner node up)

def compensateNext (leaf : Nat) (callers : List Caller) (node : Nat) (generation : UInt64)
    (redundant : Nat) : Pc :=
  if redundant = 0 then arriveReturn leaf callers generation
  else .arrive leaf callers (.compensate node generation redundant (departParent node))

def arriveDecide (leaf : Nat) (callers : List Caller) (node redundant : Nat) (state : UInt64) :
    Pc :=
  if stateIsHalf state then
    if stateCount state ≠ 0 then .poison .arrive .invariantViolation
    else arriveParent leaf callers (.help node redundant state)
  else if stateCount state = 0 then
    if stateGeneration state = versionMask then .poison .arrive .generationExhausted
    else .arrive leaf callers (.casHalf node redundant state)
  else if stateCount state = countMask then .poison .arrive .nodeCountOverflow
  else .arrive leaf callers (.casCount node redundant state)

inductive DepartResult where
  | next (pc : DepartPc)
  | finished
  | fail (error : SnziError)
  | poison (reason : PoisonReason)
  deriving DecidableEq, Repr

def Target.node (t : TreeSize) : Target → Nat
  | .token leaf _ => Tree.leafStart t.nodes + leaf
  | .inner _ up => up

def departHealthy (m : Memory) (next : DepartResult) : DepartResult :=
  match PoisonReason.fromCode m.poison with
  | some reason => .fail (.poisoned reason)
  | none => next

def departDecide (target : Target) (state : UInt64) : DepartResult :=
  if stateIsHalf state = true ∧ stateCount state ≠ 0 then .poison .invariantViolation
  else
    match target with
    | .token leaf generation =>
      if stateGeneration state ≠ generation then
        .fail (.generationMismatch leaf generation (stateGeneration state))
      else if stateIsHalf state = true ∨ stateCount state = 0 then
        .fail (.inactiveToken leaf generation)
      else .next (.cas target state)
    | .inner _ _ =>
      if stateIsHalf state = true ∨ stateCount state = 0 then .poison .invariantViolation
      else .next (.cas target state)

def Memory.setNode (m : Memory) (n : Nat) (state : UInt64) : Memory :=
  { m with nodes := Function.update m.nodes n state }

def Memory.setRoot (m : Memory) (root : UInt64) : Memory := { m with root := root }

def departStep (t : TreeSize) (m : Memory) : DepartPc → Memory × DepartResult
  | .healthy target => (m, departHealthy m (.next (.load target)))
  | .load target => (m, departDecide target (m.nodes (target.node t)))
  | .cas target state =>
    if m.nodes (target.node t) = state then
      (m.setNode (target.node t) (decremented state),
        if stateCount state = 1 then .next (departParent (target.node t)) else .finished)
    else (m, .next (.healthy target))
  | .rootHealthy child => (m, departHealthy m (.next (.rootLoad child)))
  | .rootLoad child =>
    (m, if m.root = 0 then .poison .invariantViolation else .next (.rootCas child m.root))
  | .rootCas child count =>
    if m.root = count then (m.setRoot (count - 1), .finished)
    else (m, .next (.rootHealthy child))

def compensateReturn (leaf : Nat) (callers : List Caller) (node : Nat) (generation : UInt64)
    (redundant : Nat) : DepartResult → Pc
  | .next pc => .arrive leaf callers (.compensate node generation redundant pc)
  | .finished => compensateNext leaf callers node generation (redundant - 1)
  | .fail error => .done (.error .arrive error)
  | .poison reason => .poison .arrive reason

def Caller.expected : Caller → UInt64
  | .help _ _ state => state
  | .init _ _ generation => stateHalf generation

def Caller.active : Caller → UInt64
  | .help _ _ state => stateWithCount (stateGeneration state) 1
  | .init _ _ generation => stateWithCount generation 1

def Caller.resume (leaf : Nat) (callers : List Caller) (redundant : Nat) : Caller → Pc
  | .help node _ _ => .arrive leaf callers (.healthy node redundant)
  | .init node _ generation => compensateNext leaf callers node generation redundant

def arriveStep (t : TreeSize) (m : Memory) (leaf : Nat) (callers : List Caller) :
    ArrivePc → Memory × Pc
  | .healthy node redundant =>
    (m, ensureHealthy m .arrive (.arrive leaf callers (.load node redundant)))
  | .load node redundant => (m, arriveDecide leaf callers node redundant (m.nodes node))
  | .casHalf node redundant state =>
    if m.nodes node = state then
      (m.setNode node (stateHalf (stateGeneration state + 1)),
        arriveParent leaf callers (.init node redundant (stateGeneration state + 1)))
    else (m, .arrive leaf callers (.healthy node redundant))
  | .casCount node redundant state =>
    if m.nodes node = state then
      (m.setNode node (incremented state),
        compensateNext leaf callers node (stateGeneration state) redundant)
    else (m, .arrive leaf callers (.healthy node redundant))
  | .publish caller =>
    if m.nodes caller.node = caller.expected then
      (m.setNode caller.node caller.active, caller.resume leaf callers caller.redundant)
    else if caller.redundant = usizeMax then (m, .poison .arrive .compensationOverflow)
    else (m, caller.resume leaf callers (caller.redundant + 1))
  | .rootHealthy => (m, ensureHealthy m .arrive (.arrive leaf callers .rootLoad))
  | .rootLoad =>
    (m, if m.root = u64Max then .poison .arrive .rootCountOverflow
      else .arrive leaf callers (.rootCas m.root))
  | .rootCas count =>
    if m.root = count then (m.setRoot (count + 1), arriveReturn leaf callers 0)
    else (m, .arrive leaf callers .rootHealthy)
  | .compensate node generation redundant pc =>
    let (m', result) := departStep t m pc
    (m', compensateReturn leaf callers node generation redundant result)

def departReturn : DepartResult → Pc
  | .next pc => .depart pc
  | .finished => .departFinish
  | .fail error => .done (.error .depart error)
  | .poison reason => .poison .depart reason

def departToken (t : TreeSize) (token : Token) : Pc :=
  match leafNode t token.leaf with
  | .error error => .done (.error .depart error)
  | .ok _ => .departHealthy token.leaf token.generation

def saturatingAdd (a b : UInt64) : UInt64 :=
  if a.toNat + b.toNat ≤ u64Max.toNat then a + b else u64Max

def Scan.visit (s : Scan) (state : UInt64) : Scan :=
  if stateIsHalf state then
    { s with
      halfNodes := s.halfNodes + 1
      invalidNodes := if stateCount state ≠ 0 then s.invalidNodes + 1 else s.invalidNodes }
  else if stateCount state ≠ 0 then
    { s with
      activeNodes := s.activeNodes + 1
      localCountSum := saturatingAdd s.localCountSum (stateCount state) }
  else s

def Scan.snapshot (s : Scan) (root poison : UInt64) : SnziSnapshot where
  rootCount := root
  activeNodes := s.activeNodes
  halfNodes := s.halfNodes
  localCountSum := s.localCountSum
  invalidNodes := s.invalidNodes
  poison := PoisonReason.fromCode poison

def advance (t : TreeSize) (m : Memory) : Pc → Option (Memory × Pc)
  | .idle => none
  | .arriveHealthy leaf =>
    some (m, ensureHealthy m .arrive
      (.arrive leaf [] (.healthy (Tree.leafStart t.nodes + leaf) 0)))
  | .arrive leaf callers pc => some (arriveStep t m leaf callers pc)
  | .arriveFinish leaf generation =>
    some (m, ensureHealthy m .arrive (.done (.arrived ⟨leaf % Tree.maxLeaves, generation⟩)))
  | .departHealthy leaf generation =>
    some (m, ensureHealthy m .depart (.depart (.healthy (.token leaf generation))))
  | .depart pc =>
    let (m', result) := departStep t m pc
    some (m', departReturn result)
  | .departFinish => some (m, ensureHealthy m .depart (.done .departed))
  | .queryRoot => some (m, if m.root ≠ 0 then .done (.active true) else .queryPoison)
  | .queryPoison => some (m, .done (.active (decide (m.poison ≠ poisonNone))))
  | .scanNode index scan =>
    some (m, if index + 1 < t.nodes then .scanNode (index + 1) (scan.visit (m.nodes index))
      else .scanRoot (scan.visit (m.nodes index)))
  | .scanRoot scan => some (m, .scanPoison scan m.root)
  | .scanPoison scan root =>
    some (m, .done (.quiescent (scan.snapshot root m.poison).isQuiescent))
  | .poison kind reason =>
    some (if m.poison = poisonNone then { m with poison := reason.code } else m,
      .poisonReason kind reason)
  | .poisonReason kind reason =>
    some (m, .done (.error kind
      (.poisoned ((PoisonReason.fromCode m.poison).getD reason))))
  | .done _ => none

def arriveStart (t : TreeSize) (leaf : Nat) : Pc :=
  match leafNode t leaf with
  | .error error => .done (.error .arrive error)
  | .ok _ => .arriveHealthy leaf

def departRawStart (t : TreeSize) (raw : UInt64) : Pc :=
  match decodeRaw raw with
  | none => .done (.error .depart .malformedToken)
  | some decoded => departToken t decoded

def scanStart : Pc := .scanNode 0 ⟨0, 0, 0, 0⟩

structure Shared where
  mem : Memory
  tokens : List Token

def start (t : TreeSize) (sh : Shared) : Op → Option (Shared × Pc)
  | .arrive leaf => some (sh, arriveStart t leaf)
  | .depart token =>
    if token ∈ sh.tokens then
      some ({ sh with tokens := sh.tokens.erase token }, departToken t token)
    else none
  | .departRaw token =>
    if token ∈ sh.tokens then
      some ({ sh with tokens := sh.tokens.erase token }, departRawStart t token.intoRaw)
    else none
  | .query => some (sh, .queryRoot)
  | .isQuiescent => some (sh, scanStart)

inductive In where
  | call (op : Op)
  | go
  deriving DecidableEq, Repr

def returned (sh : Shared) : Ret → Shared
  | .arrived token => { sh with tokens := token :: sh.tokens }
  | _ => sh

def step (t : TreeSize) (sh : Shared) (pc : Pc) : In → Option (Shared × Pc)
  | .call op => if pc = .idle then start t sh op else none
  | .go =>
    match pc with
    | .done ret => some (returned sh ret, .idle)
    | pc => (advance t sh.mem pc).map fun r => ({ sh with mem := r.1 }, r.2)

def machine (t : TreeSize) (P : Type) : Machine P Shared Pc In where
  start := ⟨Memory.new, []⟩
  idle := .idle
  step := fun _ sh pc i => step t sh pc i

end DevHermit.Shmem.Snzi
