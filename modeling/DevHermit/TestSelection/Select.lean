import DevHermit.Lib.Search
import DevHermit.TestSelection.Rules

namespace DevHermit.TestSelection

open Lib List

def insertId (ids : List String) (id : String) : List String :=
  if id ∈ ids then ids else ids.orderedInsert (· ≤ ·) id

@[simp]
theorem mem_insertId {ids : List String} {id other : String} :
    other ∈ insertId ids id ↔ other = id ∨ other ∈ ids := by
  unfold insertId
  split_ifs with h
  · constructor
    · exact .inr
    · rintro (rfl | h')
      · exact h
      · exact h'
  · exact mem_orderedInsert _

theorem mem_foldl_insertId {ids more : List String} {other : String} :
    other ∈ more.foldl insertId ids ↔ other ∈ ids ∨ other ∈ more := by
  induction more generalizing ids with
  | nil => simp only [foldl_nil, not_mem_nil, or_false]
  | cons id more ih =>
    rw [foldl_cons, ih, mem_insertId, mem_cons, or_comm (a := other = id), or_assoc]

inductive Lane where
  | portable
  | privileged
  deriving DecidableEq, Repr

def Lane.name : Lane → String
  | .portable => "portable"
  | .privileged => "privileged"

def Lane.qualify (lane : Lane) (job : String) : String := lane.name ++ ":" ++ job

structure Step where
  group : Option String
  job : Option String
  deps : Option (List (Option String))
  deriving DecidableEq, Repr

def Step.jobName (s : Step) : String := s.group.getD "" ++ "." ++ s.job.getD ""

structure Node where
  id : String
  lane : Lane
  deps : List String
  deriving DecidableEq, Repr

def Step.node (lane : Lane) (s : Step) : Node where
  id := lane.qualify s.jobName
  lane := lane
  deps := (s.deps.getD []).filterMap fun d => d.map lane.qualify

structure Dag where
  nodes : List Node
  deriving DecidableEq, Repr

namespace Dag

def insert (nodes : List Node) (node : Node) : List Node :=
  nodes.filter (fun n => n.id ≠ node.id) ++ [node]

def load (files : Lane → List Step) : Option Dag :=
  let nodes := ([.portable, .privileged] : List Lane).foldl
    (fun nodes lane => (files lane).foldl (fun nodes s => insert nodes (s.node lane)) nodes) []
  if nodes = [] then none else some ⟨nodes⟩

variable (dag : Dag)

def get? (id : String) : Option Node := dag.nodes.find? fun n => n.id == id

def containsKey (id : String) : Bool := (dag.get? id).isSome

def allIds : List String := (dag.nodes.map Node.id).foldl insertId []

def depsOf (id : String) : List String := ((dag.get? id).map Node.deps).getD []

def pushDep (found : List String × List String) (dep : String) : List String × List String :=
  if dep ∈ found.1 then found else (insertId found.1 dep, dep :: found.2)

def pushDeps (id : String) (out stack : List String) : List String × List String :=
  (dag.depsOf id).foldl pushDep (out, stack)

def pendingWork (out stack : List String) : Nat :=
  ((dag.nodes.flatMap Node.deps).filter fun d => d ∉ out).length + stack.length

theorem depsOf_subset (id : String) : dag.depsOf id ⊆ dag.nodes.flatMap Node.deps := by
  intro d hd
  unfold depsOf at hd
  cases hget : dag.get? id with
  | none =>
    rw [hget] at hd
    cases hd
  | some node =>
    rw [hget] at hd
    exact mem_flatMap.mpr ⟨node, List.mem_of_find?_eq_some hget, hd⟩

theorem pendingWork_foldl_le {deps : List String} (hsub : deps ⊆ dag.nodes.flatMap Node.deps)
    (found : List String × List String) :
    dag.pendingWork (deps.foldl pushDep found).1 (deps.foldl pushDep found).2 ≤
      dag.pendingWork found.1 found.2 := by
  induction deps generalizing found with
  | nil => exact Nat.le_refl _
  | cons d deps ih =>
    refine (ih (subset_of_cons_subset hsub) (pushDep found d)).trans ?_
    unfold pushDep
    split_ifs with hnew
    · exact Nat.le_refl _
    · have hlt : ((dag.nodes.flatMap Node.deps).filter fun e => e ∉ insertId found.1 d).length <
          ((dag.nodes.flatMap Node.deps).filter fun e => e ∉ found.1).length := by
        refine length_filter_lt ?_ (hsub mem_cons_self) ?_ ?_
        · intro e he
          simp only [mem_insertId, not_or, decide_eq_true_eq] at he ⊢
          exact he.2
        · simp only [mem_insertId, true_or, not_true_eq_false, decide_false]
        · simpa only [decide_eq_true_eq] using hnew
      simp only [pendingWork, length_cons]
      omega

theorem pendingWork_pushDeps_lt (id : String) (out stack : List String) :
    dag.pendingWork (dag.pushDeps id out stack).1 (dag.pushDeps id out stack).2 <
      dag.pendingWork out (id :: stack) := by
  refine (dag.pendingWork_foldl_le (dag.depsOf_subset id) (out, stack)).trans_lt ?_
  simp only [pendingWork, length_cons]
  omega

def closeLoop (out stack : List String) : List String :=
  match stack with
  | [] => out
  | id :: rest => closeLoop (dag.pushDeps id out rest).1 (dag.pushDeps id out rest).2
termination_by dag.pendingWork out stack
decreasing_by exact dag.pendingWork_pushDeps_lt id out rest

def closeOverDeps (seed : List String) : List String := dag.closeLoop seed seed.reverse

end Dag

inductive Decision where
  | skip
  | selective
  | full
  deriving DecidableEq, Repr

structure Selection where
  decision : Decision
  selected : List String
  reasons : List String
  deriving DecidableEq, Repr

structure Scan where
  steps : List String
  anyFull : Bool
  anyNarrowing : Bool
  allInert : Bool
  reasons : List String
  fullReasons : List String
  deriving DecidableEq, Repr

def Scan.file (scan : Scan) (f : String) : Scan :=
  let why := (classify f).2
  match (classify f).1 with
  | .full => { scan with
      anyFull := true
      allInert := false
      fullReasons := scan.fullReasons ++ [s!"{f} -> FULL ({why})"] }
  | .irrelevant => { scan with reasons := scan.reasons ++ [s!"{f} -> inert ({why})"] }
  | .steps ids =>
    let joined := ", ".intercalate ids
    { scan with
      allInert := false
      anyNarrowing := true
      steps := ids.foldl insertId scan.steps
      reasons := scan.reasons ++ [s!"{f} -> {joined} ({why})"] }

def scanFiles (files : List String) : Scan := files.foldl Scan.file ⟨[], false, false, true, [], []⟩

def withPreflight (dag : Dag) (steps : List String) : List String :=
  (preflight.filter dag.containsKey).foldl insertId steps

def select (dag : Dag) (files : List String) : Selection :=
  if files = [] then
    ⟨.full, dag.allIds, ["no changed-path information -> full suite"]⟩
  else
    let scan := scanFiles files
    if scan.anyFull then
      ⟨.full, dag.allIds,
        scan.reasons ++ scan.fullReasons ++ ["at least one path forces the whole suite"]⟩
    else if !scan.anyNarrowing && scan.allInert then
      ⟨.skip, [], scan.reasons ++ ["every changed path is CI-irrelevant -> nothing to run"]⟩
    else if scan.steps = [] then
      ⟨.full, dag.allIds,
        scan.reasons ++ ["no steps mapped but paths not proven inert -> full suite"]⟩
    else
      let steps := withPreflight dag scan.steps
      let missing := steps.filter fun s => !dag.containsKey s
      if missing = [] then
        let closed := dag.closeOverDeps steps
        let leaves := steps.length
        let count := closed.length
        let total := dag.nodes.length
        ⟨.selective, closed, scan.reasons ++
          [s!"{leaves} leaf step(s) + preflight + build deps -> {count} of {total} DAG steps"]⟩
      else
        let count := missing.length
        let joined := ", ".intercalate missing
        ⟨.full, dag.allIds, scan.reasons ++
          [s!"map referenced {count} node(s) absent from the live DAG ({joined}) -> full suite (stale map)"]⟩

def stripLane (lane : Lane) (id : String) : Option String :=
  (id.toList.dropPrefix? (lane.name ++ ":").toList).map String.ofList

def emitStep (keep : List String) (s : Step) : Option Step :=
  if s.jobName ∈ keep then
    some { s with
      deps := s.deps.map fun deps => deps.filter fun d => (d.map keep.contains).getD false }
  else none

def emitDag (lane : Lane) (steps : List Step) (sel : Selection) : List Step × Nat :=
  let keep := (sel.selected.filterMap (stripLane lane)).foldl insertId []
  let kept := steps.filterMap (emitStep keep)
  (kept, kept.length)

end DevHermit.TestSelection
