import DevHermit.Lib.Search

namespace DevHermit.ConflictGraph

open Lib List

structure PrInfo where
  number : Nat
  isDraft : Bool
  mergeable : String
  createdAt : String
  additions : Nat
  deletions : Nat
  baseConflictPaths : List String
  deriving DecidableEq, Repr

def PrInfo.size (node : PrInfo) : Nat := node.additions + node.deletions

def PrInfo.baseConflicting (node : PrInfo) : Bool :=
  !node.baseConflictPaths.isEmpty || node.mergeable == "CONFLICTING"

structure ConflictEdge where
  a : Nat
  b : Nat
  deriving DecidableEq, Repr

structure OrderingEdge where
  before : Nat
  after : Nat
  deriving DecidableEq, Repr

structure Graph where
  nodes : List PrInfo
  conflictEdges : List ConflictEdge
  orderingEdges : List OrderingEdge
  deriving DecidableEq, Repr

structure RebaseStep where
  pr : Nat
  after : List Nat
  reasons : List String
  deriving DecidableEq, Repr

structure LandingPlan where
  batches : List (List Nat)
  rebaseSteps : List RebaseStep
  cycleNodes : List Nat
  deriving DecidableEq, Repr

def without (remaining batch : List Nat) : List Nat := remaining.filter fun n => n ∉ batch

namespace Graph

variable (g : Graph)

def numbers : List Nat := (g.nodes.map PrInfo.number).dedup

def node? (number : Nat) : Option PrInfo := g.nodes.reverse.find? fun node => node.number == number

def conflictPairs : List (Nat × Nat) :=
  (g.conflictEdges.filter fun e => e.a ∈ g.numbers ∧ e.b ∈ g.numbers).flatMap fun e =>
    [(e.a, e.b), (e.b, e.a)]

def orderingPairs : List (Nat × Nat) :=
  (g.orderingEdges.filter fun e => e.before ∈ g.numbers ∧ e.after ∈ g.numbers).map fun e =>
    (e.before, e.after)

def conflicts (number : Nat) : List Nat :=
  ((g.conflictPairs.filter fun e => e.1 = number).map Prod.snd).dedup

def predecessors (number : Nat) : List Nat :=
  ((g.orderingPairs.filter fun e => e.2 = number).map Prod.fst).dedup

def children (number : Nat) : List Nat :=
  ((g.orderingPairs.filter fun e => e.1 = number).map Prod.snd).dedup

variable {m n : Nat}

theorem mem_conflicts : m ∈ g.conflicts n ↔ (n, m) ∈ g.conflictPairs := by simp [conflicts]

theorem mem_predecessors : m ∈ g.predecessors n ↔ (m, n) ∈ g.orderingPairs := by simp [predecessors]

theorem mem_children : m ∈ g.children n ↔ (n, m) ∈ g.orderingPairs := by simp [children]

theorem mem_orderingPairs : (n, m) ∈ g.orderingPairs ↔
    ⟨n, m⟩ ∈ g.orderingEdges ∧ n ∈ g.numbers ∧ m ∈ g.numbers := by
  simp only [orderingPairs, List.mem_map, mem_filter, decide_eq_true_eq]
  constructor
  · rintro ⟨e, he, heq⟩
    cases heq
    exact he
  · intro h
    exact ⟨⟨n, m⟩, h, rfl⟩

def unseen (reachable : List Nat) : Nat := (g.numbers.filter fun n => n ∉ reachable).length

theorem unseen_cons_lt {reachable : List Nat} (hn : n ∈ g.numbers) (hnew : n ∉ reachable) :
    g.unseen (n :: reachable) < g.unseen reachable := by
  refine length_filter_lt ?_ hn ?_ ?_
  · intro m hm
    simp only [mem_cons, not_or, decide_eq_true_eq] at hm ⊢
    exact hm.2
  · simp only [mem_cons_self, not_true_eq_false, decide_false]
  · simpa only [decide_eq_true_eq] using hnew

theorem unseen_cons_of_notMem (reachable : List Nat) (hn : n ∉ g.numbers) :
    g.unseen (n :: reachable) = g.unseen reachable := by
  refine congrArg List.length (filter_congr fun m hm => ?_)
  have hne : m ≠ n := ne_of_mem_of_not_mem hm hn
  simp only [mem_cons, hne, false_or]

theorem children_of_notMem (hn : n ∉ g.numbers) : g.children n = [] := by
  refine eq_nil_iff_forall_not_mem.mpr fun m hm => hn ?_
  exact (g.mem_orderingPairs.mp (g.mem_children.mp hm)).2.1

def descend (reachable pending : List Nat) : List Nat :=
  match pending with
  | [] => reachable
  | child :: rest =>
    if child ∈ reachable then descend reachable rest
    else descend (child :: reachable) (g.children child ++ rest)
termination_by (g.unseen reachable, pending.length)
decreasing_by
  · exact Prod.Lex.right _ (Nat.lt_succ_self _)
  · rename_i hnew
    by_cases hn : child ∈ g.numbers
    · exact Prod.Lex.left _ _ (g.unseen_cons_lt hn hnew)
    · rw [g.unseen_cons_of_notMem reachable hn, g.children_of_notMem hn]
      exact Prod.Lex.right _ (Nat.lt_succ_self _)

def descendantCount (number : Nat) : Nat := (g.descend [] (g.children number)).length

def size (number : Nat) : Nat := ((g.node? number).map PrInfo.size).getD 0

def createdAt (number : Nat) : String := ((g.node? number).map PrInfo.createdAt).getD ""

def conflictDegree (remaining : List Nat) (number : Nat) : Nat :=
  ((g.conflicts number).filter fun peer => peer ∈ remaining).length

def landsBefore (remaining : List Nat) (n m : Nat) : Bool :=
  ((compare (g.descendantCount m) (g.descendantCount n)).then
    ((compare (g.conflictDegree remaining n) (g.conflictDegree remaining m)).then
      ((compare (g.size n) (g.size m)).then
        ((compare (g.createdAt n) (g.createdAt m)).then (compare n m))))).isLE

def ready (remaining placed : List Nat) : List Nat :=
  remaining.filter fun n => (g.predecessors n).all fun p => p ∈ placed

def sortReady (remaining ready : List Nat) : List Nat :=
  ready.insertionSort fun n m => g.landsBefore remaining n m = true

def joinBatch (batch : List Nat) (n : Nat) : List Nat :=
  if batch.all fun peer => peer ∉ g.conflicts n then batch ++ [n] else batch

def pickBatch (ready : List Nat) : List Nat := ready.foldl g.joinBatch []

theorem mem_sortReady {remaining ready : List Nat} {n : Nat} :
    n ∈ g.sortReady remaining ready ↔ n ∈ ready :=
  (perm_insertionSort _ ready).mem_iff

theorem foldl_joinBatch_sublist (batch ready : List Nat) :
    ∃ chosen, chosen.Sublist ready ∧ ready.foldl g.joinBatch batch = batch ++ chosen := by
  induction ready generalizing batch with
  | nil => exact ⟨[], List.Sublist.refl [], (append_nil batch).symm⟩
  | cons n ready ih =>
    obtain ⟨chosen, hsub, heq⟩ := ih (g.joinBatch batch n)
    rw [foldl_cons, heq, joinBatch]
    split
    · exact ⟨n :: chosen, hsub.cons_cons n, by rw [append_assoc, singleton_append]⟩
    · exact ⟨chosen, hsub.cons n, rfl⟩

theorem pickBatch_sublist (ready : List Nat) : (g.pickBatch ready).Sublist ready := by
  obtain ⟨chosen, hsub, heq⟩ := g.foldl_joinBatch_sublist [] ready
  rw [pickBatch, heq]
  exact hsub

theorem head_mem_pickBatch (n : Nat) (ready : List Nat) : n ∈ g.pickBatch (n :: ready) := by
  obtain ⟨chosen, -, heq⟩ := g.foldl_joinBatch_sublist [n] ready
  have hfirst : g.pickBatch (n :: ready) = [n] ++ chosen := heq
  rw [hfirst]
  exact mem_cons_self

def nextBatch (remaining placed : List Nat) : List Nat :=
  g.pickBatch (g.sortReady remaining (g.ready remaining placed))

variable {placed remaining : List Nat}

theorem nextBatch_subset (h : n ∈ g.nextBatch remaining placed) : n ∈ g.ready remaining placed :=
  g.mem_sortReady.mp ((g.pickBatch_sublist _).subset h)

theorem exists_mem_nextBatch (h : g.ready remaining placed ≠ []) :
    ∃ n ∈ remaining, n ∈ g.nextBatch remaining placed := by
  obtain ⟨m, hm⟩ := exists_mem_of_ne_nil _ h
  obtain ⟨n, rest, hsort⟩ := exists_cons_of_ne_nil
    (ne_nil_of_mem ((@mem_sortReady g remaining _ _).mpr hm))
  have hn : n ∈ g.nextBatch remaining placed := by
    rw [nextBatch, hsort]
    exact g.head_mem_pickBatch n rest
  exact ⟨n, (mem_filter.mp (g.nextBatch_subset hn)).1, hn⟩

def planLoop (batches : List (List Nat)) (remaining placed : List Nat) :
    List (List Nat) × List Nat :=
  if remaining = [] then (batches, [])
  else if g.ready remaining placed = [] then
    let cycleNodes := remaining.insertionSort (· ≤ ·)
    (batches ++ cycleNodes.map fun n => [n], cycleNodes)
  else
    let batch := g.nextBatch remaining placed
    planLoop (batches ++ [batch]) (without remaining batch) (placed ++ batch)
termination_by remaining.length
decreasing_by
  rename_i hready
  obtain ⟨n, hmem, hbatch⟩ := g.exists_mem_nextBatch hready
  refine length_filter_lt_length_iff_exists.mpr ⟨n, hmem, ?_⟩
  simpa only [decide_eq_true_eq, not_not] using hbatch

end Graph

def batchOf (batches : List (List Nat)) (number : Nat) : Option Nat :=
  batches.zipIdx.foldl (fun found b => if number ∈ b.1 then some b.2 else found) none

def position (batches : List (List Nat)) (number : Nat) : Nat := (batchOf batches number).getD 0

def earlier (batches : List (List Nat)) (number : Nat) (peers : List Nat) : List Nat :=
  (peers.filter fun peer => position batches peer < position batches number).insertionSort (· ≤ ·)

namespace Graph

variable (g : Graph)

def rebaseStep (batches : List (List Nat)) (number : Nat) : Option RebaseStep :=
  let earlierConflicts := earlier batches number (g.conflicts number)
  let earlierDependencies := earlier batches number (g.predecessors number)
  let after := (earlierConflicts ++ earlierDependencies).dedup.insertionSort (· ≤ ·)
  let reasons := (if earlierConflicts = [] then [] else ["pair-conflict"]) ++
    (if earlierDependencies = [] then [] else ["stack-dependency"])
  if after = [] then none else some ⟨number, after, reasons⟩

def rebaseOrder (batches : List (List Nat)) : List Nat :=
  g.numbers.insertionSort fun n m =>
    ((compare (position batches n) (position batches m)).then (compare n m)).isLE = true

def planLanding : LandingPlan :=
  let plan := g.planLoop [] g.numbers []
  ⟨plan.1, (g.rebaseOrder plan.1).filterMap (g.rebaseStep plan.1), plan.2⟩

end Graph

abbrev Holds := List (Nat × List String)

def Holds.keys (reasons : Holds) : List Nat := reasons.map Prod.fst

def nodeReasons (node : PrInfo) : List String :=
  (if node.isDraft then ["draft"] else []) ++
    (if node.baseConflictPaths = [] then [] else ["local-base-conflict"]) ++
      (if node.mergeable = "CONFLICTING" then ["github-base-conflicting"] else [])

def Holds.set (reasons : Holds) (number : Nat) (texts : List String) : Holds :=
  if number ∈ reasons.keys then
    reasons.map fun entry => if entry.1 = number then (number, texts) else entry
  else reasons ++ [(number, texts)]

def holdNode (reasons : Holds) (node : PrInfo) : Holds :=
  if nodeReasons node = [] then reasons else reasons.set node.number (nodeReasons node)

def holdEdge (pass : Holds × Bool) (edge : OrderingEdge) : Holds × Bool :=
  if edge.before ∈ pass.1.keys ∧ edge.after ∉ pass.1.keys then
    (pass.1.set edge.after [s!"depends-on-held:#{edge.before}"], true)
  else pass

def unheld (edges : List OrderingEdge) (reasons : Holds) : Nat :=
  (edges.filter fun e => e.after ∉ reasons.keys).length

variable {reasons : Holds}

theorem mem_keys_set {n m : Nat} {texts : List String} :
    m ∈ (reasons.set n texts).keys ↔ m = n ∨ m ∈ reasons.keys := by
  unfold Holds.set
  split_ifs with hn
  · have hkeys : ∀ entry : Nat × List String,
        (if entry.1 = n then (n, texts) else entry).1 = entry.1 := by
      intro entry
      split_ifs with he
      · exact he.symm
      · rfl
    simp only [Holds.keys, List.map_map, Function.comp_def, hkeys]
    constructor
    · exact .inr
    · rintro (rfl | h)
      · exact hn
      · exact h
  · simp only [Holds.keys, map_append, map_cons, map_nil, mem_append, mem_singleton]
    exact or_comm

theorem keys_subset_foldl_holdEdge (todo : List OrderingEdge) (pass : Holds × Bool) :
    pass.1.keys ⊆ (todo.foldl holdEdge pass).1.keys := by
  induction todo generalizing pass with
  | nil => exact List.Subset.refl _
  | cons e todo ih =>
    refine List.Subset.trans ?_ (ih (holdEdge pass e))
    intro n hn
    unfold holdEdge
    split
    · exact mem_keys_set.mpr (.inr hn)
    · exact hn

variable {edges : List OrderingEdge}

theorem unheld_anti {reasons' : Holds} (h : reasons.keys ⊆ reasons'.keys) :
    unheld edges reasons' ≤ unheld edges reasons := by
  refine (monotone_filter_right edges ?_).length_le
  intro e he
  simp only [decide_eq_true_eq] at he ⊢
  exact fun hmem => he (h hmem)

theorem unheld_pass_lt {todo : List OrderingEdge} (hsub : todo ⊆ edges) (pass : Holds × Bool)
    (h : (todo.foldl holdEdge pass).2 = true) (hp : pass.2 = false) :
    unheld edges (todo.foldl holdEdge pass).1 < unheld edges pass.1 := by
  induction todo generalizing pass with
  | nil => cases hp.symm.trans h
  | cons e todo ih =>
    rw [foldl_cons] at h ⊢
    by_cases hfire : e.before ∈ pass.1.keys ∧ e.after ∉ pass.1.keys
    · refine (unheld_anti (keys_subset_foldl_holdEdge todo _)).trans_lt ?_
      rw [holdEdge, if_pos hfire]
      refine length_filter_lt ?_ (hsub mem_cons_self) ?_ ?_
      · intro e' he'
        simp only [mem_keys_set, not_or, decide_eq_true_eq] at he' ⊢
        exact he'.2
      · simp only [mem_keys_set, true_or, not_true_eq_false, decide_false]
      · simpa only [decide_eq_true_eq] using hfire.2
    · rw [holdEdge, if_neg hfire] at h ⊢
      exact ih (subset_of_cons_subset hsub) pass h hp

def holdPass (edges : List OrderingEdge) (reasons : Holds) : Holds × Bool :=
  edges.foldl holdEdge (reasons, false)

def holdLoop (edges : List OrderingEdge) (reasons : Holds) : Holds :=
  let pass := holdPass edges reasons
  if pass.2 then holdLoop edges pass.1 else pass.1
termination_by unheld edges reasons
decreasing_by exact unheld_pass_lt (List.Subset.refl edges) (reasons, false) ‹_› rfl

def heldReasons (nodes : List PrInfo) (orderingEdges : List OrderingEdge) : Holds :=
  holdLoop orderingEdges (nodes.foldl holdNode [])

structure GraphJson where
  suggestedLandingBatches : List (List Nat)
  suggestedRebasePlan : List RebaseStep
  readyLandingBatches : List (List Nat)
  readyNow : List Nat
  heldPrs : Holds
  orderingCycles : List Nat
  deriving DecidableEq, Repr

def Graph.eligible (g : Graph) : Graph :=
  let holds := heldReasons g.nodes g.orderingEdges
  let nodes := g.nodes.filter fun node => node.number ∉ holds.keys
  let numbers := nodes.map PrInfo.number
  ⟨nodes, g.conflictEdges.filter fun e => e.a ∈ numbers ∧ e.b ∈ numbers,
    g.orderingEdges.filter fun e => e.before ∈ numbers ∧ e.after ∈ numbers⟩

def Graph.graphJson (g : Graph) (eventual : LandingPlan) : GraphJson where
  suggestedLandingBatches := eventual.batches
  suggestedRebasePlan := eventual.rebaseSteps
  readyLandingBatches := g.eligible.planLanding.batches
  readyNow := g.eligible.planLanding.batches.headD []
  heldPrs := (heldReasons g.nodes g.orderingEdges).insertionSort fun e f => e.1 ≤ f.1
  orderingCycles := eventual.cycleNodes

end DevHermit.ConflictGraph
