import DevHermit.Lib.Machine
import DevHermit.Shmem.Csnzi.Word
import DevHermit.Shmem.Tree

namespace DevHermit.Shmem.Csnzi

open Lib

inductive CsnziPoisonReason where
  | invariantViolation
  | compensationSelectedTail
  | rootStateCorrupt
  deriving DecidableEq, Repr

def poisonNone : UInt64 := 0

def CsnziPoisonReason.code : CsnziPoisonReason → UInt64
  | .invariantViolation => 1
  | .compensationSelectedTail => 2
  | .rootStateCorrupt => 3

def CsnziPoisonReason.fromCode (code : UInt64) : Option CsnziPoisonReason :=
  if code = poisonNone then none
  else if code = 1 then some .invariantViolation
  else if code = 2 then some .compensationSelectedTail
  else if code = 3 then some .rootStateCorrupt
  else some .invariantViolation

inductive CsnziCapacity where
  | nodeCount
  | rootCount
  deriving DecidableEq, Repr

inductive CsnziError where
  | invalidLeaf (leaf leafCount : Nat)
  | closed
  | departureTailBusy
  | malformedToken
  | generationMismatch (leaf : Nat) (tokenGeneration currentGeneration : UInt64)
  | inactiveToken (leaf : Nat) (generation : UInt64)
  | capacityExhausted (capacity : CsnziCapacity)
  | poisoned (reason : CsnziPoisonReason)
  deriving DecidableEq, Repr

inductive CloseOutcome where
  | pending
  | drained
  | alreadyClosed
  deriving DecidableEq, Repr

inductive DepartOutcome where
  | active
  | drained
  deriving DecidableEq, Repr

inductive Op where
  | tryEnter (leaf : Nat)
  | depart (token : Token)
  | departRaw (token : Token)
  | close
  | isDrained
  | query
  deriving DecidableEq, Repr

inductive Kind where
  | tryEnter
  | depart
  | close
  deriving DecidableEq, Repr

inductive Ret where
  | entered (token : Token)
  | departed (outcome : DepartOutcome)
  | closed (outcome : CloseOutcome)
  | drained (answer : Bool)
  | active (answer : Bool)
  | error (kind : Kind) (error : CsnziError)
  deriving DecidableEq, Repr

inductive Target where
  | token (leaf : Nat) (generation : UInt64)
  | inner (child up : Nat)
  deriving DecidableEq, Repr

inductive DepartPc where
  | healthy (target : Target)
  | load (target : Target)
  | cas (target : Target) (state : UInt64)
  | rootLoad (child : Nat)
  | rootHealthy (child : Nat) (root : UInt64)
  | rootCas (child : Nat) (root : UInt64)
  deriving DecidableEq, Repr

inductive ArrivePc where
  | healthy (node : Nat) (arrived : Bool)
  | load (node : Nat) (arrived : Bool)
  | cas (node : Nat) (arrived : Bool) (state : UInt64)
  | rootLoad
  | rootHealthy (root : UInt64)
  | rootCas (root : UInt64)
  | compensate (node : Nat) (generation : UInt64) (pc : DepartPc)
  deriving DecidableEq, Repr

inductive Pc where
  | idle
  | enterHealthy (leaf : Nat)
  | observeOpen (leaf : Nat)
  | arrive (leaf : Nat) (callers : List Nat) (pc : ArrivePc)
  | enterFinish (leaf : Nat) (generation : UInt64)
  | departHealthy (leaf : Nat) (generation : UInt64)
  | depart (pc : DepartPc)
  | tailVerify (index : Nat)
  | tailLoad
  | tailHealthy (root : UInt64)
  | tailCas (root : UInt64)
  | closeHealthy
  | closeLoad
  | closeCas (root : UInt64)
  | closeVerify (index : Nat)
  | closeSeal
  | drainedRoot
  | drainedPoison
  | queryRoot
  | queryPoison
  | poison (kind : Kind) (reason : CsnziPoisonReason)
  | poisonReason (kind : Kind) (reason : CsnziPoisonReason)
  | done (ret : Ret)
  deriving DecidableEq, Repr

structure Shared where
  root : UInt64
  poison : UInt64
  nodes : Nat → UInt64
  tokens : List Token

inductive In where
  | call (op : Op)
  | go
  | spurious
  deriving DecidableEq, Repr

def leafNode (t : TreeSize) (leaf : Nat) : Except CsnziError Nat :=
  if Tree.layoutLeafCount t.nodes ≤ leaf then
    .error (.invalidLeaf leaf (Tree.layoutLeafCount t.nodes))
  else
    .ok (Tree.leafStart t.nodes + leaf)

def ensureHealthy (sh : Shared) (kind : Kind) (next : Pc) : Pc :=
  match CsnziPoisonReason.fromCode sh.poison with
  | some reason => .done (.error kind (.poisoned reason))
  | none => next

def observeOpenDecide (t : TreeSize) (leaf : Nat) (root : UInt64) : Pc :=
  match decodeRoot root with
  | none => .poison .tryEnter .rootStateCorrupt
  | some (.opened, _) => .arrive leaf [] (.healthy (Tree.leafStart t.nodes + leaf) false)
  | some (.openTail, _) => .done (.error .tryEnter .departureTailBusy)
  | some (.closed, _) => .done (.error .tryEnter .closed)
  | some (.closing, _) => .done (.error .tryEnter .closed)
  | some (.closedTail, _) => .done (.error .tryEnter .closed)
  | some (.drained, _) => .done (.error .tryEnter .closed)

def arriveParent (leaf : Nat) (callers : List Nat) (node : Nat) : Pc :=
  match Tree.parent node with
  | none => .arrive leaf (node :: callers) .rootLoad
  | some up => .arrive leaf (node :: callers) (.healthy up false)

def arriveReturn (leaf : Nat) (callers : List Nat) (generation : UInt64) : Pc :=
  match callers with
  | [] => .enterFinish leaf generation
  | caller :: rest => .arrive leaf rest (.healthy caller true)

def arriveDecide (leaf : Nat) (callers : List Nat) (node : Nat) (arrived : Bool)
    (state : UInt64) : Pc :=
  if validNodeState state = false then .poison .tryEnter .invariantViolation
  else if nodeCount state = 0 ∧ arrived = false then arriveParent leaf callers node
  else if nodeCount state = nodeCountMask then
    if arrived then .arrive leaf callers (.healthy node arrived)
    else .done (.error .tryEnter (.capacityExhausted .nodeCount))
  else .arrive leaf callers (.cas node arrived state)

def rootArriveDecide (leaf : Nat) (callers : List Nat) (root : UInt64) : Pc :=
  match decodeRoot root with
  | none => .poison .tryEnter .rootStateCorrupt
  | some (.openTail, _) => .done (.error .tryEnter .departureTailBusy)
  | some (.closing, _) => .done (.error .tryEnter .closed)
  | some (.closedTail, _) => .done (.error .tryEnter .closed)
  | some (.drained, _) => .done (.error .tryEnter .closed)
  | some (.closed, count) =>
    if count = 0 then .done (.error .tryEnter .closed)
    else if count = rootCountMask then
      .done (.error .tryEnter (.capacityExhausted .rootCount))
    else .arrive leaf callers (.rootCas root)
  | some (.opened, count) =>
    if count = rootCountMask then .done (.error .tryEnter (.capacityExhausted .rootCount))
    else .arrive leaf callers (.rootCas root)

inductive DepartResult where
  | next (pc : DepartPc)
  | active
  | tail
  | fail (error : CsnziError)
  | poison (reason : CsnziPoisonReason)
  deriving DecidableEq, Repr

def departParent (node : Nat) : DepartPc :=
  match Tree.parent node with
  | none => .rootLoad node
  | some up => .healthy (.inner node up)

def Target.node (t : TreeSize) : Target → Nat
  | .token leaf _ => Tree.leafStart t.nodes + leaf
  | .inner _ up => up

def departHealthy (sh : Shared) (next : DepartResult) : DepartResult :=
  match CsnziPoisonReason.fromCode sh.poison with
  | some reason => .fail (.poisoned reason)
  | none => next

def departDecide (target : Target) (state : UInt64) : DepartResult :=
  if validNodeState state = false then .poison .invariantViolation
  else
    match target with
    | .token leaf generation =>
      if nodeGeneration state ≠ generation then
        .fail (.generationMismatch leaf generation (nodeGeneration state))
      else if nodeCount state = 0 then .fail (.inactiveToken leaf generation)
      else .next (.cas target state)
    | .inner _ _ =>
      if nodeCount state = 0 then .poison .invariantViolation
      else .next (.cas target state)

def rootDepartDecide (child : Nat) (root : UInt64) : DepartResult :=
  match decodeRoot root with
  | none => .poison .rootStateCorrupt
  | some (phase, count) =>
    if phase.counts = false ∨ count = 0 then .poison .invariantViolation
    else .next (.rootCas child root)

def rootDepartNext (root : UInt64) : UInt64 :=
  if root &&& rootCountMask = 1 then
    match decodeRoot root with
    | some (.closed, _) => rootClosedTail
    | _ => rootOpenTail
  else rootDecremented root

def departStep (t : TreeSize) (sh : Shared) (weak : Bool) : DepartPc → Shared × DepartResult
  | .healthy target => (sh, departHealthy sh (.next (.load target)))
  | .load target => (sh, departDecide target (sh.nodes (target.node t)))
  | .cas target state =>
    if weak = false ∧ sh.nodes (target.node t) = state then
      ({ sh with nodes := Function.update sh.nodes (target.node t) (decremented state) },
        if nodeCount state = 1 then .next (departParent (target.node t)) else .active)
    else (sh, .next (.healthy target))
  | .rootLoad child => (sh, .next (.rootHealthy child sh.root))
  | .rootHealthy child root => (sh, departHealthy sh (rootDepartDecide child root))
  | .rootCas child root =>
    if weak = false ∧ sh.root = root then
      ({ sh with root := rootDepartNext root },
        if root &&& rootCountMask = 1 then .tail else .active)
    else (sh, .next (.rootHealthy child sh.root))

def compensateReturn (leaf : Nat) (callers : List Nat) (node : Nat) (generation : UInt64) :
    DepartResult → Pc
  | .next pc => .arrive leaf callers (.compensate node generation pc)
  | .active => arriveReturn leaf callers generation
  | .tail => .poison .tryEnter .compensationSelectedTail
  | .fail error => .done (.error .tryEnter error)
  | .poison reason => .poison .tryEnter reason

def arriveStep (t : TreeSize) (sh : Shared) (weak : Bool) (leaf : Nat) (callers : List Nat) :
    ArrivePc → Shared × Pc
  | .healthy node arrived =>
    (sh, ensureHealthy sh .tryEnter (.arrive leaf callers (.load node arrived)))
  | .load node arrived => (sh, arriveDecide leaf callers node arrived (sh.nodes node))
  | .cas node arrived state =>
    if weak = false ∧ sh.nodes node = state then
      ({ sh with nodes := Function.update sh.nodes node (incremented state) },
        if arrived = true ∧ nodeCount state ≠ 0 then
          .arrive leaf callers (.compensate node (nextGeneration state) (departParent node))
        else arriveReturn leaf callers (nextGeneration state))
    else (sh, .arrive leaf callers (.healthy node arrived))
  | .rootLoad => (sh, .arrive leaf callers (.rootHealthy sh.root))
  | .rootHealthy root => (sh, ensureHealthy sh .tryEnter (rootArriveDecide leaf callers root))
  | .rootCas root =>
    if weak = false ∧ sh.root = root then
      ({ sh with root := rootIncremented root }, arriveReturn leaf callers 0)
    else (sh, .arrive leaf callers (.rootHealthy sh.root))
  | .compensate node generation pc =>
    let (sh', result) := departStep t sh weak pc
    (sh', compensateReturn leaf callers node generation result)

def departReturn : DepartResult → Pc
  | .next pc => .depart pc
  | .active => .done (.departed .active)
  | .tail => .tailVerify 0
  | .fail error => .done (.error .depart error)
  | .poison reason => .poison .depart reason

def departToken (t : TreeSize) (token : Token) : Pc :=
  match leafNode t token.leaf with
  | .error error => .done (.error .depart error)
  | .ok _ => .departHealthy token.leaf token.generation

def verifyNode (t : TreeSize) (sh : Shared) (kind : Kind) (index : Nat) (next : Nat → Pc)
    (finish : Pc) : Pc :=
  let state := sh.nodes index
  if validNodeState state = false then .poison kind .invariantViolation
  else if nodeCount state ≠ 0 then .poison kind .invariantViolation
  else if index + 1 < t.nodes then next (index + 1)
  else finish

def tailDecide (root : UInt64) : Pc :=
  match decodeRoot root with
  | none => .poison .depart .rootStateCorrupt
  | some (phase, count) =>
    if count ≠ 0 then .poison .depart .invariantViolation
    else if phase.isTail then .tailCas root
    else .poison .depart .invariantViolation

def closeDecide (root : UInt64) : Pc :=
  match decodeRoot root with
  | none => .poison .close .rootStateCorrupt
  | some (.opened, _) => .closeCas root
  | some (.openTail, _) => .closeCas root
  | some (.closed, _) => .done (.closed .alreadyClosed)
  | some (.closing, _) => .done (.closed .alreadyClosed)
  | some (.closedTail, _) => .done (.closed .alreadyClosed)
  | some (.drained, _) => .done (.closed .alreadyClosed)

def closeClaim (root : UInt64) : UInt64 × Pc :=
  match decodeRoot root with
  | some (.opened, count) =>
    if count = 0 then (rootClosing, .closeVerify 0)
    else (rootClosed ||| count, .done (.closed .pending))
  | _ => (rootClosedTail, .done (.closed .pending))

def tailSeal (root : UInt64) : UInt64 × DepartOutcome :=
  match decodeRoot root with
  | some (.openTail, _) => (rootOpen, .active)
  | _ => (rootDrained, .drained)

def queryRoot (root : UInt64) : Bool :=
  root &&& rootCountMask != 0 || root &&& rootStatusMask == rootOpenTail ||
    root &&& rootStatusMask == rootClosedTail

def returned (sh : Shared) : Ret → Shared
  | .entered token => { sh with tokens := token :: sh.tokens }
  | _ => sh

def advance (t : TreeSize) (sh : Shared) (weak : Bool) : Pc → Option (Shared × Pc)
  | .idle => none
  | .enterHealthy leaf => some (sh, ensureHealthy sh .tryEnter (.observeOpen leaf))
  | .observeOpen leaf => some (sh, observeOpenDecide t leaf sh.root)
  | .arrive leaf callers pc => some (arriveStep t sh weak leaf callers pc)
  | .enterFinish leaf generation =>
    some (sh, ensureHealthy sh .tryEnter
      (.done (.entered ⟨leaf % Tree.maxLeaves, generation⟩)))
  | .departHealthy leaf generation =>
    some (sh, ensureHealthy sh .depart (.depart (.healthy (.token leaf generation))))
  | .depart pc =>
    let (sh', result) := departStep t sh weak pc
    some (sh', departReturn result)
  | .tailVerify index => some (sh, verifyNode t sh .depart index .tailVerify .tailLoad)
  | .tailLoad => some (sh, .tailHealthy sh.root)
  | .tailHealthy root => some (sh, ensureHealthy sh .depart (tailDecide root))
  | .tailCas root =>
    if weak = false ∧ sh.root = root then
      some ({ sh with root := (tailSeal root).1 }, .done (.departed (tailSeal root).2))
    else some (sh, .tailHealthy sh.root)
  | .closeHealthy => some (sh, ensureHealthy sh .close .closeLoad)
  | .closeLoad => some (sh, closeDecide sh.root)
  | .closeCas root =>
    if weak = false ∧ sh.root = root then
      some ({ sh with root := (closeClaim root).1 }, (closeClaim root).2)
    else some (sh, closeDecide sh.root)
  | .closeVerify index => some (sh, verifyNode t sh .close index .closeVerify .closeSeal)
  | .closeSeal =>
    if sh.root = rootClosing then
      some ({ sh with root := rootDrained }, .done (.closed .drained))
    else some (sh, .poison .close .rootStateCorrupt)
  | .drainedRoot =>
    some (sh, if sh.root = rootDrained then .drainedPoison else .done (.drained false))
  | .drainedPoison => some (sh, .done (.drained (decide (sh.poison = poisonNone))))
  | .queryRoot =>
    some (sh, if queryRoot sh.root then .done (.active true) else .queryPoison)
  | .queryPoison => some (sh, .done (.active (decide (sh.poison ≠ poisonNone))))
  | .poison kind reason =>
    some (if sh.poison = poisonNone then { sh with poison := reason.code } else sh,
      .poisonReason kind reason)
  | .poisonReason kind reason =>
    some (sh, .done (.error kind
      (.poisoned ((CsnziPoisonReason.fromCode sh.poison).getD reason))))
  | .done ret => some (returned sh ret, .idle)

def start (t : TreeSize) (sh : Shared) : Op → Option (Shared × Pc)
  | .tryEnter leaf =>
    match leafNode t leaf with
    | .error error => some (sh, .done (.error .tryEnter error))
    | .ok _ => some (sh, .enterHealthy leaf)
  | .depart token =>
    if token ∈ sh.tokens then
      some ({ sh with tokens := sh.tokens.erase token }, departToken t token)
    else none
  | .departRaw token =>
    if token ∈ sh.tokens then
      some ({ sh with tokens := sh.tokens.erase token },
        match decodeRaw token.intoRaw with
        | none => .done (.error .depart .malformedToken)
        | some decoded => departToken t decoded)
    else none
  | .close => some (sh, .closeHealthy)
  | .isDrained => some (sh, .drainedRoot)
  | .query => some (sh, .queryRoot)

def step (t : TreeSize) (sh : Shared) (pc : Pc) : In → Option (Shared × Pc)
  | .call op => if pc = .idle then start t sh op else none
  | .go => advance t sh false pc
  | .spurious => advance t sh true pc

def machine (t : TreeSize) (P : Type) : Machine P Shared Pc In where
  start := ⟨rootOpen, poisonNone, fun _ => 0, []⟩
  idle := .idle
  step := fun _ sh pc i => step t sh pc i

end DevHermit.Shmem.Csnzi
