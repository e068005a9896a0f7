import DevHermit.ConflictGraph.Plan

namespace DevHermit.ConflictGraph

open Lib List

def InBatch (batches : List (List Nat)) (i n : Nat) : Prop := ∃ b, batches[i]? = some b ∧ n ∈ b

variable {batches : List (List Nat)} {n : Nat}

theorem mem_flatten_iff_inBatch : n ∈ batches.flatten ↔ ∃ i, InBatch batches i n := by
  constructor
  · intro h
    obtain ⟨b, hb, hn⟩ := mem_flatten.mp h
    obtain ⟨i, hi⟩ := mem_iff_getElem?.mp hb
    exact ⟨i, b, hi, hn⟩
  · rintro ⟨i, b, hi, hn⟩
    exact mem_flatten.mpr ⟨b, mem_of_getElem? hi, hn⟩

variable {i : Nat}

theorem InBatch.append (h : InBatch batches i n) (more : List (List Nat)) :
    InBatch (batches ++ more) i n := by
  obtain ⟨b, hb, hn⟩ := h
  obtain ⟨hlt, -⟩ := List.getElem?_eq_some_iff.mp hb
  exact ⟨b, (List.getElem?_append_left hlt).trans hb, hn⟩

theorem InBatch.of_append {more : List (List Nat)} (h : InBatch (batches ++ more) i n) :
    InBatch batches i n ∨ batches.length ≤ i ∧ InBatch more (i - batches.length) n := by
  obtain ⟨b, hb, hn⟩ := h
  by_cases hlt : i < batches.length
  · exact .inl ⟨b, (List.getElem?_append_left hlt).symm.trans hb, hn⟩
  · have hge : batches.length ≤ i := Nat.le_of_not_lt hlt
    exact .inr ⟨hge, b, (List.getElem?_append_right hge).symm.trans hb, hn⟩

theorem InBatch.unique (hnodup : batches.flatten.Nodup) {j : Nat} (hi : InBatch batches i n)
    (hj : InBatch batches j n) : i = j := by
  wlog hlt : i < j generalizing i j
  · by_contra hne
    exact hne (this hj hi (by omega)).symm
  obtain ⟨b, hb, hn⟩ := hi
  obtain ⟨b', hb', hn'⟩ := hj
  obtain ⟨hi, rfl⟩ := List.getElem?_eq_some_iff.mp hb
  obtain ⟨hj, rfl⟩ := List.getElem?_eq_some_iff.mp hb'
  have hdisjoint := pairwise_iff_getElem.mp (nodup_flatten.mp hnodup).2 i j hi hj hlt
  exact absurd hn' (hdisjoint hn)

theorem batchOf_foldl (found : Option Nat) (l : List (List Nat × Nat)) : (∀ b ∈ l, n ∉ b.1) ∧
        l.foldl (fun found b => if n ∈ b.1 then some b.2 else found) found = found ∨
      ∃ b ∈ l, n ∈ b.1 ∧
        l.foldl (fun found b => if n ∈ b.1 then some b.2 else found) found = some b.2 := by
  induction l generalizing found with
  | nil => exact .inl ⟨fun b hb => absurd hb not_mem_nil, rfl⟩
  | cons b l ih =>
    rw [foldl_cons]
    obtain ⟨hnone, heq⟩ | ⟨b', hmem, hn, heq⟩ := ih (if n ∈ b.1 then some b.2 else found)
    · rw [heq]
      by_cases hb : n ∈ b.1
      · exact .inr ⟨b, mem_cons_self, hb, if_pos hb⟩
      · exact .inl ⟨forall_mem_cons.mpr ⟨hb, hnone⟩, if_neg hb⟩
    · exact .inr ⟨b', mem_cons_of_mem b hmem, hn, heq⟩

theorem InBatch.position (hnodup : batches.flatten.Nodup) (h : InBatch batches i n) :
    position batches n = i := by
  have hcases := batchOf_foldl (n := n) none batches.zipIdx
  obtain ⟨b, hb, hn⟩ := h
  have hzip : (b, i) ∈ batches.zipIdx := mk_mem_zipIdx_iff_getElem?.mpr hb
  obtain ⟨hnone, -⟩ | ⟨⟨b', j⟩, hmem, hn', heq⟩ := hcases
  · exact absurd hn (hnone _ hzip)
  · have hj : InBatch batches j n := ⟨b', mk_mem_zipIdx_iff_getElem?.mp hmem, hn'⟩
    rw [hj.unique hnodup ⟨b, hb, hn⟩] at heq
    rw [ConflictGraph.position, batchOf, heq]
    rfl

def Leads (edges : List OrderingEdge) (n m : Nat) : Prop := ⟨n, m⟩ ∈ edges

namespace Graph

variable (g : Graph)

def Conflicting (n m : Nat) : Prop := ⟨n, m⟩ ∈ g.conflictEdges ∨ ⟨m, n⟩ ∈ g.conflictEdges

def Ordered (n m : Nat) : Prop := (n, m) ∈ g.orderingPairs

variable {n : Nat}

theorem mem_conflictPairs {m : Nat} : (n, m) ∈ g.conflictPairs ↔
    g.Conflicting n m ∧ n ∈ g.numbers ∧ m ∈ g.numbers := by
  simp only [conflictPairs, mem_flatMap, mem_filter, decide_eq_true_eq, mem_cons,
    not_mem_nil, or_false, Prod.mk.injEq]
  constructor
  · rintro ⟨e, ⟨he, ha, hb⟩, ⟨rfl, rfl⟩ | ⟨rfl, rfl⟩⟩
    · exact ⟨.inl he, ha, hb⟩
    · exact ⟨.inr he, hb, ha⟩
  · rintro ⟨he | he, hn, hm⟩
    · exact ⟨⟨n, m⟩, ⟨he, hn, hm⟩, .inl ⟨rfl, rfl⟩⟩
    · exact ⟨⟨m, n⟩, ⟨he, hm, hn⟩, .inr ⟨rfl, rfl⟩⟩

theorem Conflicting.symm {m : Nat} (h : g.Conflicting n m) : g.Conflicting m n := Or.symm h

theorem nodup_numbers : g.numbers.Nodup := nodup_dedup _

theorem setOf_mem_nil : {n : Nat | n ∈ ([] : List Nat)} = ∅ :=
  Set.eq_empty_of_forall_notMem fun _ hn => not_mem_nil hn

theorem descend_nodup {reachable : List Nat} (pending : List Nat) (h : reachable.Nodup) :
    (g.descend reachable pending).Nodup := by
  induction reachable, pending using Graph.descend.induct g with
  | case1 reachable =>
    rw [descend]
    exact h
  | case2 reachable child rest hmem ih =>
    rw [descend, if_pos hmem]
    exact ih h
  | case3 reachable child rest hnew ih =>
    rw [descend, if_neg hnew]
    exact ih (h.cons hnew)

theorem descend_search {seed : Set Nat} (reachable pending : List Nat)
    (h : Search g.Ordered seed {n | n ∈ reachable} {n | n ∈ pending}) :
    {n | n ∈ g.descend reachable pending} = From g.Ordered seed := by
  induction reachable, pending using Graph.descend.induct g with
  | case1 reachable =>
    rw [descend]
    refine Search.finish ?_
    rw [← setOf_mem_nil]
    exact h
  | case2 reachable child rest hmem ih =>
    rw [descend, if_pos hmem]
    refine ih (h.skip ?_)
    ext n
    simp only [Set.mem_union, Set.mem_ofPred_eq, mem_cons]
    constructor
    · exact Or.imp_right .inr
    · rintro (hn | rfl | hn)
      · exact .inl hn
      · exact .inl hmem
      · exact .inr hn
  | case3 reachable child rest hnew ih =>
    rw [descend, if_neg hnew]
    refine ih (h.visit (x := child) (.inr mem_cons_self) ?_ ?_)
    · ext n
      simp only [Set.mem_union, Set.mem_ofPred_eq, mem_cons, mem_append, mem_children, Ordered]
      tauto
    · intro n hn
      exact mem_cons.mp hn

theorem descendantCount_spec (n : Nat) : ∃ l : List Nat, l.Nodup ∧ l.length = g.descendantCount n ∧
    ∀ d, d ∈ l ↔ Relation.TransGen g.Ordered n d := by
  refine ⟨_, g.descend_nodup (g.children n) nodup_nil, rfl, fun d => ?_⟩
  have hfrom := @descend_search g {m | m ∈ g.children n} [] (g.children n) ?_
  · have hmem : d ∈ g.descend [] (g.children n) ↔ d ∈ From g.Ordered {m | m ∈ g.children n} := by
      rw [← hfrom]
      exact Iff.rfl
    rw [hmem, Relation.TransGen.head'_iff]
    constructor
    · rintro ⟨m, hm, hd⟩
      exact ⟨m, g.mem_children.mp hm, hd⟩
    · rintro ⟨m, hm, hd⟩
      exact ⟨m, g.mem_children.mpr hm, hd⟩
  · rw [setOf_mem_nil]
    exact Search.start _ _

structure Progress (batches : List (List Nat)) (remaining placed : List Nat) : Prop where
  placed : placed = batches.flatten
  perm : (batches.flatten ++ remaining).Perm g.numbers
  nonempty : ∀ b ∈ batches, b ≠ []
  free : ∀ b ∈ batches, b.Pairwise fun n m => n ∉ g.conflicts m
  ordered : ∀ {j n m}, InBatch batches j m → g.Ordered n m → ∃ i < j, InBatch batches i n

theorem foldl_joinBatch_free {batch : List Nat} (ready : List Nat)
    (h : batch.Pairwise fun n m => n ∉ g.conflicts m) :
    (ready.foldl g.joinBatch batch).Pairwise fun n m => n ∉ g.conflicts m := by
  induction ready generalizing batch with
  | nil => exact h
  | cons n ready ih =>
    refine ih ?_
    unfold joinBatch
    split_ifs with hall
    · refine pairwise_append.mpr ⟨h, pairwise_singleton _ n, ?_⟩
      intro peer hpeer m hm
      rw [mem_singleton.mp hm]
      exact of_decide_eq_true (all_eq_true.mp hall peer hpeer)
    · exact h

theorem nextBatch_nodup {remaining placed : List Nat} (h : remaining.Nodup) :
    (g.nextBatch remaining placed).Nodup := by
  refine (g.pickBatch_sublist _).nodup ?_
  refine (perm_insertionSort _ _).nodup_iff.mpr ?_
  exact h.filter _

theorem perm_without {remaining batch : List Nat} (hr : remaining.Nodup) (hb : batch.Nodup)
    (hsub : batch ⊆ remaining) : (batch ++ without remaining batch).Perm remaining := by
  refine (perm_ext_iff_of_nodup ?_ hr).mpr ?_
  · refine nodup_append.mpr ⟨hb, hr.filter _, ?_⟩
    intro n hn m hm
    rintro rfl
    exact of_decide_eq_true (mem_filter.mp hm).2 hn
  · intro n
    simp only [without, mem_append, mem_filter, decide_eq_true_eq]
    constructor
    · rintro (h | h)
      · exact hsub h
      · exact h.1
    · intro h
      by_cases hn : n ∈ batch
      · exact .inl hn
      · exact .inr ⟨h, hn⟩

variable {g} {batches : List (List Nat)} {remaining placed cycleNodes : List Nat}

theorem Progress.start (g : Graph) : g.Progress [] g.numbers [] where
  placed := rfl
  perm := List.Perm.refl _
  nonempty := fun b hb => absurd hb not_mem_nil
  free := fun b hb => absurd hb not_mem_nil
  ordered := by
    rintro j n m ⟨b, hb, -⟩
    cases hb

section

variable (h : g.Progress batches remaining placed)
include h

theorem Progress.nodup : (batches.flatten ++ remaining).Nodup :=
  h.perm.nodup_iff.mpr g.nodup_numbers

theorem Progress.mem_numbers : n ∈ g.numbers ↔ n ∈ batches.flatten ∨ n ∈ remaining := by
  rw [← h.perm.mem_iff, mem_append]

theorem Progress.advance (hready : g.ready remaining placed ≠ []) :
    g.Progress (batches ++ [g.nextBatch remaining placed])
      (without remaining (g.nextBatch remaining placed))
      (placed ++ g.nextBatch remaining placed) := by
  have hremaining : remaining.Nodup := (nodup_append.mp h.nodup).2.1
  have hsub : g.nextBatch remaining placed ⊆ remaining :=
    fun n hn => (mem_filter.mp (g.nextBatch_subset hn)).1
  refine ⟨?_, ?_, ?_, ?_, ?_⟩
  · rw [flatten_append, flatten_singleton, h.placed]
  · rw [flatten_append, flatten_singleton, append_assoc]
    exact ((perm_without hremaining (g.nextBatch_nodup hremaining) hsub).append_left _).trans h.perm
  · intro b hb
    obtain hb | hb := mem_append.mp hb
    · exact h.nonempty b hb
    · obtain ⟨n, -, hn⟩ := g.exists_mem_nextBatch hready
      rw [mem_singleton.mp hb]
      exact ne_nil_of_mem hn
  · intro b hb
    obtain hb | hb := mem_append.mp hb
    · exact h.free b hb
    · rw [mem_singleton.mp hb]
      exact g.foldl_joinBatch_free _ List.Pairwise.nil
  · intro j n m hm hnm
    obtain hm | ⟨hj, b, hb, hm⟩ := hm.of_append
    · obtain ⟨i, hi, hn⟩ := h.ordered hm hnm
      exact ⟨i, hi, hn.append _⟩
    · have hb' : b = g.nextBatch remaining placed := by
        obtain ⟨hlt, heq⟩ := List.getElem?_eq_some_iff.mp hb
        rw [getElem_singleton] at heq
        exact heq.symm
      subst hb'
      have hpreds := all_eq_true.mp (mem_filter.mp (g.nextBatch_subset hm)).2
      have hplaced := of_decide_eq_true (hpreds n (g.mem_predecessors.mpr hnm))
      rw [h.placed] at hplaced
      obtain ⟨i, hn⟩ := mem_flatten_iff_inBatch.mp hplaced
      obtain ⟨b, hb, -⟩ := id hn
      obtain ⟨hlt, -⟩ := List.getElem?_eq_some_iff.mp hb
      exact ⟨i, hlt.trans_le hj, hn.append _⟩

theorem Progress.not_cyclic (hn : n ∈ batches.flatten) : ¬ Cyclic g.Ordered n := by
  have hrank : ∀ m ∈ {m | m ∈ batches.flatten}, ∀ k, g.Ordered k m →
      k ∈ {m | m ∈ batches.flatten} ∧ position batches k < position batches m := by
    intro m hm k hkm
    obtain ⟨j, hj⟩ := mem_flatten_iff_inBatch.mp hm
    obtain ⟨i, hlt, hi⟩ := h.ordered hj hkm
    have hflat : batches.flatten.Nodup := (nodup_append.mp h.nodup).1
    rw [hi.position hflat, hj.position hflat]
    exact ⟨mem_flatten_iff_inBatch.mpr ⟨i, hi⟩, hlt⟩
  exact Cyclic.not_of_rank hrank hn

theorem Progress.stuck (hready : g.ready remaining placed = []) (hn : n ∈ remaining) :
    Cyclic g.Ordered n := by
  refine Cyclic.of_predecessors (s := remaining.toFinset) ?_ (mem_toFinset.mpr hn)
  intro m hm
  have hm' : m ∈ remaining := mem_toFinset.mp hm
  have hblocked : ¬ ((g.predecessors m).all fun p => p ∈ placed) = true :=
    filter_eq_nil_iff.mp hready m hm'
  obtain ⟨p, hp, hnot⟩ : ∃ p ∈ g.predecessors m, p ∉ placed := by
    simpa only [all_eq_true, decide_eq_true_eq, not_forall, exists_prop] using hblocked
  have hpair := g.mem_predecessors.mp hp
  refine ⟨p, mem_toFinset.mpr ?_, hpair⟩
  obtain hflat | hrem := h.mem_numbers.mp (g.mem_orderingPairs.mp hpair).2.1
  · exact absurd (h.placed ▸ hflat) hnot
  · exact hrem

end

structure Planned (g : Graph) (batches : List (List Nat)) (cycleNodes : List Nat) : Prop where
  perm : batches.flatten.Perm g.numbers
  nonempty : ∀ b ∈ batches, b ≠ []
  free : ∀ b ∈ batches, b.Pairwise fun n m => n ∉ g.conflicts m
  cycles : ∀ n, n ∈ cycleNodes ↔ n ∈ g.numbers ∧ Cyclic g.Ordered n
  ordered : ∀ {j n m}, InBatch batches j m → g.Ordered n m → m ∉ cycleNodes →
    ∃ i < j, InBatch batches i n

theorem Progress.finished (h : g.Progress batches [] placed) : g.Planned batches [] where
  perm := by
    rw [← append_nil batches.flatten]
    exact h.perm
  nonempty := h.nonempty
  free := h.free
  cycles := by
    intro n
    constructor
    · intro hn
      cases hn
    · rintro ⟨hn, hcyclic⟩
      obtain hn | hn := h.mem_numbers.mp hn
      · exact absurd hcyclic (h.not_cyclic hn)
      · exact hn
  ordered := fun hm hnm _ => h.ordered hm hnm

theorem flatten_singletons (l : List Nat) : (l.map fun n => [n]).flatten = l := by
  induction l with
  | nil => rfl
  | cons n l ih => rw [map_cons, flatten_cons, ih, singleton_append]

theorem Progress.broken (h : g.Progress batches remaining placed)
    (hready : g.ready remaining placed = []) :
    g.Planned (batches ++ (remaining.insertionSort (· ≤ ·)).map fun n => [n])
      (remaining.insertionSort (· ≤ ·)) := by
  have hsort := perm_insertionSort (· ≤ ·) remaining
  refine ⟨?_, ?_, ?_, ?_, ?_⟩
  · rw [flatten_append, flatten_singletons]
    exact (hsort.append_left _).trans h.perm
  · intro b hb
    obtain hb | hb := mem_append.mp hb
    · exact h.nonempty b hb
    · obtain ⟨n, -, rfl⟩ := mem_map.mp hb
      exact cons_ne_nil n []
  · intro b hb
    obtain hb | hb := mem_append.mp hb
    · exact h.free b hb
    · obtain ⟨n, -, rfl⟩ := mem_map.mp hb
      exact pairwise_singleton _ n
  · intro n
    rw [hsort.mem_iff]
    constructor
    · intro hn
      exact ⟨h.mem_numbers.mpr (.inr hn), h.stuck hready hn⟩
    · rintro ⟨hn, hcyclic⟩
      obtain hn | hn := h.mem_numbers.mp hn
      · exact absurd hcyclic (h.not_cyclic hn)
      · exact hn
  · intro j n m hm hnm hout
    obtain hm | ⟨-, b, hb, hm⟩ := hm.of_append
    · obtain ⟨i, hlt, hi⟩ := h.ordered hm hnm
      exact ⟨i, hlt, hi.append _⟩
    · obtain ⟨k, hk, rfl⟩ := mem_map.mp (mem_of_getElem? hb)
      rw [mem_singleton.mp hm] at hout
      exact absurd hk hout

theorem Progress.planLoop (h : g.Progress batches remaining placed) :
    g.Planned (g.planLoop batches remaining placed).1 (g.planLoop batches remaining placed).2 := by
  induction batches, remaining, placed using Graph.planLoop.induct g with
  | case1 batches placed =>
    rw [Graph.planLoop, if_pos rfl]
    exact h.finished
  | case2 batches remaining placed hne hready =>
    rw [Graph.planLoop, if_neg hne, if_pos hready]
    exact h.broken hready
  | case3 batches remaining placed hne hready batch ih =>
    rw [Graph.planLoop, if_neg hne, if_neg hready]
    exact ih (h.advance hready)

theorem Planned.inBatch_position (h : g.Planned batches cycleNodes) (hn : n ∈ g.numbers) :
    InBatch batches (position batches n) n := by
  obtain ⟨i, hi⟩ := mem_flatten_iff_inBatch.mp (h.perm.mem_iff.mpr hn)
  rw [hi.position (h.perm.nodup_iff.mpr g.nodup_numbers)]
  exact hi

variable {p : Nat}

theorem mem_earlier {peers : List Nat} :
    p ∈ earlier batches n peers ↔ p ∈ peers ∧ position batches p < position batches n := by
  rw [earlier, (perm_insertionSort _ _).mem_iff, mem_filter, decide_eq_true_eq]

def Rebases (g : Graph) (batches : List (List Nat)) (n p : Nat) : Prop :=
  (p ∈ g.conflicts n ∨ p ∈ g.predecessors n) ∧ position batches p < position batches n

def rebaseAfter (g : Graph) (batches : List (List Nat)) (n : Nat) : List Nat :=
  (earlier batches n (g.conflicts n) ++ earlier batches n (g.predecessors n)).dedup.insertionSort
    (· ≤ ·)

theorem mem_rebaseAfter : p ∈ g.rebaseAfter batches n ↔ g.Rebases batches n p := by
  rw [rebaseAfter, (perm_insertionSort _ _).mem_iff, mem_dedup, mem_append,
    mem_earlier, mem_earlier, Rebases, or_and_right]

theorem rebaseStep_some {step : RebaseStep} (h : g.rebaseStep batches n = some step) :
    step.pr = n ∧ ∀ p, p ∈ step.after ↔ g.Rebases batches n p := by
  simp only [rebaseStep, Option.ite_none_left_eq_some, Option.some.injEq] at h
  obtain ⟨-, rfl⟩ := h
  exact ⟨rfl, fun p => mem_rebaseAfter⟩

theorem Rebases.exists_step (h : g.Rebases batches n p) :
    ∃ step, g.rebaseStep batches n = some step := by
  have hne : g.rebaseAfter batches n ≠ [] := ne_nil_of_mem (mem_rebaseAfter.mpr h)
  exact ⟨_, if_neg hne⟩

theorem mem_rebaseOrder : n ∈ g.rebaseOrder batches ↔ n ∈ g.numbers :=
  (perm_insertionSort _ _).mem_iff

theorem nodup_rebaseSteps (g : Graph) (batches : List (List Nat)) :
    (((g.rebaseOrder batches).filterMap (g.rebaseStep batches)).map RebaseStep.pr).Nodup := by
  have horder : (g.rebaseOrder batches).Nodup :=
    (perm_insertionSort _ _).nodup_iff.mpr g.nodup_numbers
  have hsub : ∀ l : List Nat,
      ((l.filterMap (g.rebaseStep batches)).map RebaseStep.pr).Sublist l := by
    intro l
    induction l with
    | nil => exact List.Sublist.refl []
    | cons n l ih =>
      cases hstep : g.rebaseStep batches n with
      | none =>
        rw [filterMap_cons_none hstep]
        exact ih.cons n
      | some step =>
        rw [filterMap_cons_some hstep, map_cons, (rebaseStep_some hstep).1]
        exact ih.cons_cons n
  exact (hsub _).nodup horder

end Graph

end DevHermit.ConflictGraph
