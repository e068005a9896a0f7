import DevHermit.ConflictGraph.Schedule

namespace DevHermit.ConflictGraph

open Lib List

section

variable {edges todo : List OrderingEdge} {nodes : List PrInfo} {reasons : Holds}

def Blocked (nodes : List PrInfo) (n : Nat) : Prop :=
  ∃ node ∈ nodes, node.number = n ∧ (node.isDraft = true ∨ node.baseConflicting = true)

theorem nodeReasons_ne_nil {node : PrInfo} :
    nodeReasons node ≠ [] ↔ node.isDraft = true ∨ node.baseConflicting = true := by
  simp only [nodeReasons, PrInfo.baseConflicting, Bool.or_eq_true, Bool.not_eq_true',
    isEmpty_eq_false_iff, beq_iff_eq, ne_eq, append_eq_nil_iff, not_and_or,
    ite_eq_right_iff, ite_eq_left_iff, cons_ne_nil, imp_false, not_not, or_assoc]

theorem mem_keys_foldl_holdNode (reasons : Holds) (nodes : List PrInfo) (n : Nat) :
    n ∈ (nodes.foldl holdNode reasons).keys ↔ n ∈ reasons.keys ∨ Blocked nodes n := by
  induction nodes generalizing reasons with
  | nil => simp [Blocked]
  | cons node nodes ih =>
    have hhead : n ∈ (holdNode reasons node).keys ↔ n ∈ reasons.keys ∨
        node.number = n ∧ (node.isDraft = true ∨ node.baseConflicting = true) := by
      rw [← nodeReasons_ne_nil, holdNode]
      split_ifs with h
      · simp only [h, ne_eq, not_true_eq_false, and_false, or_false]
      · rw [mem_keys_set]
        simp only [ne_eq, h, not_false_eq_true, and_true, eq_comm, or_comm]
    rw [foldl_cons, ih, hhead]
    simp only [Blocked, mem_cons, exists_eq_or_imp, or_assoc]

theorem foldl_holdEdge_sound (hsub : todo ⊆ edges) (pass : Holds × Bool) {s : Set Nat}
    (h : ∀ n ∈ pass.1.keys, n ∈ From (Leads edges) s) :
    ∀ n ∈ (todo.foldl holdEdge pass).1.keys, n ∈ From (Leads edges) s := by
  induction todo generalizing pass with
  | nil => exact h
  | cons e todo ih =>
    refine ih (subset_of_cons_subset hsub) _ ?_
    unfold holdEdge
    split
    case isFalse => exact h
    case isTrue hfire =>
      intro n hn
      obtain rfl | hn := mem_keys_set.mp hn
      · exact From.step (h _ hfire.1) (hsub mem_cons_self)
      · exact h n hn

theorem foldl_holdEdge_quiet (pass : Holds × Bool) (h : (todo.foldl holdEdge pass).2 = false) :
    todo.foldl holdEdge pass = pass ∧
      ∀ e ∈ todo, e.before ∈ pass.1.keys → e.after ∈ pass.1.keys := by
  induction todo generalizing pass with
  | nil => exact ⟨rfl, fun e he => absurd he not_mem_nil⟩
  | cons e todo ih =>
    rw [foldl_cons] at h ⊢
    obtain ⟨heq, hrest⟩ := ih _ h
    by_cases hfire : e.before ∈ pass.1.keys ∧ e.after ∉ pass.1.keys
    · rw [heq, holdEdge, if_pos hfire] at h
      cases h
    · rw [holdEdge, if_neg hfire] at heq hrest ⊢
      refine ⟨heq, forall_mem_cons.mpr ⟨fun hb => ?_, hrest⟩⟩
      by_contra ha
      exact hfire ⟨hb, ha⟩

theorem mem_keys_holdLoop (n : Nat) :
    n ∈ (holdLoop edges reasons).keys ↔ n ∈ From (Leads edges) {m | m ∈ reasons.keys} := by
  induction reasons using holdLoop.induct edges with
  | case1 reasons pass hpass ih =>
    rw [holdLoop, if_pos hpass, ih]
    have hsound := foldl_holdEdge_sound (List.Subset.refl edges) (reasons, false)
      (s := {m | m ∈ reasons.keys}) fun m hm => From.seed hm
    constructor
    · exact fun h => From.least hsound (fun _ hx _ hr => From.step hx hr) h
    · exact fun h => From.mono (keys_subset_foldl_holdEdge edges (reasons, false)) h
  | case2 reasons pass hpass =>
    rw [holdLoop, if_neg hpass]
    obtain ⟨heq, hclosed⟩ := foldl_holdEdge_quiet (reasons, false) (Bool.eq_false_iff.mpr hpass)
    have hkeys : (holdPass edges reasons).1 = reasons := congrArg Prod.fst heq
    rw [hkeys]
    constructor
    · exact fun h => From.seed h
    · exact fun h => From.least (fun _ hx => hx) (fun x hx y hr => hclosed ⟨x, y⟩ hr hx) h

theorem mem_heldReasons (n : Nat) :
    n ∈ (heldReasons nodes edges).keys ↔ n ∈ From (Leads edges) {m | Blocked nodes m} := by
  rw [heldReasons, mem_keys_holdLoop]
  have hseed : {m | m ∈ (nodes.foldl holdNode []).keys} = {m | Blocked nodes m} := by
    ext m
    rw [Set.mem_ofPred_eq, mem_keys_foldl_holdNode]
    simp only [Holds.keys, map_nil, not_mem_nil, false_or, Set.mem_ofPred_eq]
  rw [hseed]

end

namespace Graph

variable {g : Graph}

structure SoundSchedule (g : Graph) (plan : LandingPlan) : Prop where
  partition : plan.batches.flatten.Perm (g.nodes.map PrInfo.number) ∧ ∀ b ∈ plan.batches, b ≠ []
  conflictFree : ∀ b ∈ plan.batches, ∀ n ∈ b, ∀ m ∈ b, n ≠ m → ¬ g.Conflicting n m
  cycles : ∀ n, n ∈ plan.cycleNodes ↔ Cyclic (Leads g.orderingEdges) n
  ordered : ∀ n m, Leads g.orderingEdges n m → m ∉ plan.cycleNodes →
    ∃ i j, i < j ∧ InBatch plan.batches i n ∧ InBatch plan.batches j m
  steps : (plan.rebaseSteps.map RebaseStep.pr).Nodup
  rebases : ∀ n p, (∃ step ∈ plan.rebaseSteps, step.pr = n ∧ p ∈ step.after) ↔
    (g.Conflicting n p ∨ Leads g.orderingEdges p n) ∧
      ∃ i j, i < j ∧ InBatch plan.batches i p ∧ InBatch plan.batches j n

def Closed (g : Graph) : Prop :=
  ∀ e ∈ g.orderingEdges, e.before ∈ g.nodes.map PrInfo.number ∧
    e.after ∈ g.nodes.map PrInfo.number

variable {n : Nat}

theorem mem_numbers : n ∈ g.numbers ↔ n ∈ g.nodes.map PrInfo.number := mem_dedup

variable {m : Nat}

theorem Closed.ordered_iff (h : g.Closed) : g.Ordered n m ↔ Leads g.orderingEdges n m := by
  rw [Ordered, mem_orderingPairs, mem_numbers, mem_numbers]
  exact ⟨And.left, fun he => ⟨he, h _ he⟩⟩

theorem Closed.ordered_eq (h : g.Closed) : g.Ordered = Leads g.orderingEdges := by
  funext n m
  exact propext h.ordered_iff

theorem Closed.mem_of_cyclic (h : g.Closed) (hn : Cyclic (Leads g.orderingEdges) n) :
    n ∈ g.numbers := by
  obtain ⟨c, hcycle, hreach⟩ := hn
  rw [mem_numbers]
  obtain rfl | ⟨k, -, hk⟩ := hreach.cases_tail
  · obtain ⟨k, -, hk⟩ := Relation.TransGen.tail'_iff.mp hcycle
    exact (h _ hk).2
  · exact (h _ hk).2

theorem planned (g : Graph) : g.Planned g.planLanding.batches g.planLanding.cycleNodes :=
  (Progress.start g).planLoop

variable {b : List Nat} {batches : List (List Nat)} {cycleNodes : List Nat}

theorem Planned.conflict_free (h : g.Planned batches cycleNodes) (hb : b ∈ batches) (hn : n ∈ b)
    (hm : m ∈ b) (hne : n ≠ m) : ¬ g.Conflicting n m := by
  have hnumbers : ∀ {k}, k ∈ b → k ∈ g.numbers := fun hk =>
    h.perm.mem_iff.mp (mem_flatten.mpr ⟨b, hb, hk⟩)
  have hsymm : Std.Symm fun k l => k ∉ g.conflicts l := by
    refine ⟨fun k l hk hl => hk ?_⟩
    obtain ⟨hc, hk', hl'⟩ := g.mem_conflictPairs.mp (g.mem_conflicts.mp hl)
    exact g.mem_conflicts.mpr (g.mem_conflictPairs.mpr ⟨hc.symm, hl', hk'⟩)
  have hfree : n ∉ g.conflicts m := (h.free b hb).forall hn hm hne
  intro hc
  exact hfree (g.mem_conflicts.mpr (g.mem_conflictPairs.mpr ⟨hc.symm, hnumbers hm, hnumbers hn⟩))

variable {p : Nat}

theorem Planned.rebases_iff (h : g.Planned batches cycleNodes) (hclosed : g.Closed) :
    g.Rebases batches n p ↔ (g.Conflicting n p ∨ Leads g.orderingEdges p n) ∧
      ∃ i j, i < j ∧ InBatch batches i p ∧ InBatch batches j n := by
  have hflat : batches.flatten.Nodup := h.perm.nodup_iff.mpr g.nodup_numbers
  have hmem : ∀ {i k}, InBatch batches i k → k ∈ g.numbers := fun hk =>
    h.perm.mem_iff.mp (mem_flatten_iff_inBatch.mpr ⟨_, hk⟩)
  rw [Rebases, mem_conflicts, mem_conflictPairs, mem_predecessors]
  constructor
  · rintro ⟨hpeer, hlt⟩
    have hnumbers : p ∈ g.numbers ∧ n ∈ g.numbers := by
      obtain ⟨-, hn, hp⟩ | hpair := hpeer
      · exact ⟨hp, hn⟩
      · exact (g.mem_orderingPairs.mp hpair).2
    exact ⟨hpeer.imp And.left hclosed.ordered_iff.mp, _, _, hlt,
      h.inBatch_position hnumbers.1, h.inBatch_position hnumbers.2⟩
  · rintro ⟨hpeer, i, j, hlt, hp, hn⟩
    rw [hp.position hflat, hn.position hflat]
    exact ⟨hpeer.imp (fun hc => ⟨hc, hmem hn, hmem hp⟩) hclosed.ordered_iff.mpr, hlt⟩

theorem soundSchedule (hclosed : g.Closed) (hdistinct : (g.nodes.map PrInfo.number).Nodup) :
    g.SoundSchedule g.planLanding := by
  have h := g.planned
  have hnumbers : g.numbers = g.nodes.map PrInfo.number := hdistinct.dedup
  refine ⟨⟨hnumbers ▸ h.perm, h.nonempty⟩, ?_, ?_, ?_, ?_, ?_⟩
  · intro b hb n hn m hm hne
    exact h.conflict_free hb hn hm hne
  · intro n
    rw [h.cycles, hclosed.ordered_eq]
    exact ⟨And.right, fun hc => ⟨hclosed.mem_of_cyclic hc, hc⟩⟩
  · intro n m hnm hout
    have hm := h.inBatch_position (g.mem_numbers.mpr (hclosed _ hnm).2)
    obtain ⟨i, hlt, hn⟩ := h.ordered hm (hclosed.ordered_iff.mpr hnm) hout
    exact ⟨i, _, hlt, hn, hm⟩
  · exact nodup_rebaseSteps g g.planLanding.batches
  · intro n p
    rw [← h.rebases_iff hclosed]
    constructor
    · rintro ⟨step, hstep, rfl, hp⟩
      obtain ⟨k, -, hk⟩ := mem_filterMap.mp hstep
      obtain ⟨hpr, hafter⟩ := rebaseStep_some hk
      rw [hpr]
      exact (hafter p).mp hp
    · intro hr
      obtain ⟨step, hstep⟩ := hr.exists_step
      obtain ⟨hpr, hafter⟩ := rebaseStep_some hstep
      have hn : n ∈ g.numbers := by
        obtain ⟨-, i, j, -, -, hj⟩ := (h.rebases_iff hclosed).mp hr
        exact h.perm.mem_iff.mp (mem_flatten_iff_inBatch.mpr ⟨j, hj⟩)
      exact ⟨step, mem_filterMap.mpr ⟨n, mem_rebaseOrder.mpr hn, hstep⟩, hpr, (hafter p).mpr hr⟩

theorem mem_eligible_numbers : n ∈ g.eligible.nodes.map PrInfo.number ↔
    n ∈ g.nodes.map PrInfo.number ∧ n ∉ (heldReasons g.nodes g.orderingEdges).keys := by
  simp only [eligible, List.mem_map, mem_filter, decide_eq_true_eq]
  constructor
  · rintro ⟨node, ⟨hnode, hfree⟩, rfl⟩
    exact ⟨⟨node, hnode, rfl⟩, hfree⟩
  · rintro ⟨⟨node, hnode, rfl⟩, hfree⟩
    exact ⟨node, ⟨hnode, hfree⟩, rfl⟩

theorem eligible_leads : Leads g.eligible.orderingEdges n m ↔
    Leads g.orderingEdges n m ∧ n ∈ g.eligible.nodes.map PrInfo.number ∧
      m ∈ g.eligible.nodes.map PrInfo.number := by
  simp only [Leads, eligible, mem_filter, decide_eq_true_eq]

theorem eligible_closed (g : Graph) : g.eligible.Closed := by
  intro e he
  exact (eligible_leads.mp he).2

theorem mem_ready_batch (hb : b ∈ g.eligible.planLanding.batches) (hn : n ∈ b) :
    n ∈ g.eligible.nodes.map PrInfo.number :=
  mem_numbers.mp (g.eligible.planned.perm.mem_iff.mp (mem_flatten.mpr ⟨b, hb, hn⟩))

theorem eligible_predecessor (hn : n ∈ g.eligible.nodes.map PrInfo.number)
    (hp : Leads g.orderingEdges p n) : p ∉ (heldReasons g.nodes g.orderingEdges).keys := by
  intro hheld
  refine (mem_eligible_numbers.mp hn).2 ?_
  rw [mem_heldReasons] at hheld ⊢
  exact From.step hheld hp

theorem mem_held (eventual : LandingPlan) : n ∈ (g.graphJson eventual).heldPrs.keys ↔
    n ∈ From (Leads g.orderingEdges) {m | Blocked g.nodes m} := by
  rw [← mem_heldReasons]
  exact ((perm_insertionSort _ _).map Prod.fst).mem_iff

theorem ready_now_unblocked (hclosed : g.Closed)
    (hacyclic : ∀ n, ¬ Relation.TransGen (Leads g.orderingEdges) n n)
    (hn : n ∈ g.eligible.planLanding.batches.headD []) : ¬ Leads g.orderingEdges p n := by
  intro hp
  have hfirst : InBatch g.eligible.planLanding.batches 0 n := by
    cases hb : g.eligible.planLanding.batches with
    | nil =>
      rw [hb] at hn
      cases hn
    | cons b rest =>
      rw [hb] at hn
      exact ⟨b, rfl, hn⟩
  have hmem : n ∈ g.eligible.nodes.map PrInfo.number := by
    obtain ⟨b, hb, hn⟩ := hfirst
    exact mem_ready_batch (mem_of_getElem? hb) hn
  have hpmem : p ∈ g.eligible.nodes.map PrInfo.number :=
    mem_eligible_numbers.mpr ⟨(hclosed _ hp).1, eligible_predecessor hmem hp⟩
  have hout : n ∉ g.eligible.planLanding.cycleNodes := by
    intro hcycle
    obtain ⟨-, c, hcc, -⟩ := (g.eligible.planned.cycles n).mp hcycle
    rw [(eligible_closed g).ordered_eq] at hcc
    exact hacyclic c (hcc.lift id fun _ _ h => (eligible_leads.mp h).1)
  have hedge : g.eligible.Ordered p n :=
    (eligible_closed g).ordered_iff.mpr (eligible_leads.mpr ⟨hp, hpmem, hmem⟩)
  obtain ⟨i, hlt, -⟩ := g.eligible.planned.ordered hfirst hedge hout
  exact Nat.not_lt_zero i hlt

theorem landing_plan_is_sound_schedule (g : Graph)
    (hdistinct : (g.nodes.map PrInfo.number).Nodup) (hclosed : g.Closed) :
    g.SoundSchedule g.planLanding ∧
    (∀ n, n ∈ (g.graphJson g.planLanding).heldPrs.keys ↔
      n ∈ From (Leads g.orderingEdges) {m | Blocked g.nodes m}) ∧
    (∀ b ∈ (g.graphJson g.planLanding).readyLandingBatches, ∀ n ∈ b, ∀ p,
      Leads g.orderingEdges p n → p ∉ (g.graphJson g.planLanding).heldPrs.keys) ∧
    ((∀ n, ¬ Relation.TransGen (Leads g.orderingEdges) n n) →
      ∀ n ∈ (g.graphJson g.planLanding).readyNow, ∀ p, ¬ Leads g.orderingEdges p n) := by
  refine ⟨soundSchedule hclosed hdistinct, fun n => mem_held _, ?_, ?_⟩
  · intro b hb n hn p hp
    rw [mem_held, ← mem_heldReasons]
    exact eligible_predecessor (mem_ready_batch hb hn) hp
  · intro hacyclic n hn p
    exact ready_now_unblocked hclosed hacyclic hn

end Graph

def openPr (number : Nat) (isDraft : Bool) : PrInfo :=
  ⟨number, isDraft, "MERGEABLE", "2026-01-01T00:00:00Z", 1, 0, []⟩

def stackedPair : Graph :=
  ⟨[openPr 1 false, openPr 2 false, openPr 3 true], [⟨1, 3⟩], [⟨1, 2⟩]⟩

theorem stackedPair_increases {n m : Nat}
    (h : Relation.TransGen (Leads stackedPair.orderingEdges) n m) : n < m := by
  have hedge : ∀ e ∈ stackedPair.orderingEdges, e.before < e.after := by decide
  induction h with
  | single he => exact hedge _ he
  | tail _ he ih => exact ih.trans (hedge _ he)

theorem stacked_pair_lands_in_order : stackedPair.SoundSchedule stackedPair.planLanding ∧
    ∀ n ∈ (stackedPair.graphJson stackedPair.planLanding).readyNow, ∀ p,
      ¬ Leads stackedPair.orderingEdges p n := by
  obtain ⟨hsound, -, -, hready⟩ := Graph.landing_plan_is_sound_schedule stackedPair
    (by decide) (by unfold Graph.Closed; decide)
  exact ⟨hsound, hready fun n hn => Nat.lt_irrefl n (stackedPair_increases hn)⟩

end DevHermit.ConflictGraph
