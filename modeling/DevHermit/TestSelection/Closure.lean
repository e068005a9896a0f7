import DevHermit.TestSelection.Select

namespace DevHermit.TestSelection

open Lib List

namespace Dag

variable (dag : Dag)

def Needs (id dep : String) : Prop := dep ∈ dag.depsOf id

theorem mem_foldl_pushDep (deps out stack : List String) (x : String) :
    (x ∈ (deps.foldl pushDep (out, stack)).1 ↔ x ∈ out ∨ x ∈ deps) ∧
      (x ∈ (deps.foldl pushDep (out, stack)).2 ↔ x ∈ stack ∨ x ∈ deps ∧ x ∉ out) := by
  induction deps generalizing out stack with
  | nil => simp only [foldl_nil, not_mem_nil, or_false, false_and, and_self]
  | cons d deps ih =>
    rw [foldl_cons, pushDep]
    split_ifs with hd
    · obtain ⟨hout, hstack⟩ := ih out stack
      rw [hout, hstack, mem_cons]
      have hne : x ∉ out → x ≠ d := by
        rintro hx rfl
        exact hx hd
      by_cases hx : x ∈ out
      · simp only [hx, true_or, not_true_eq_false, and_false, and_self]
      · simp only [hx, hne hx, false_or, not_false_eq_true, and_true, and_self]
    · obtain ⟨hout, hstack⟩ := ih (insertId out d) (d :: stack)
      rw [hout, hstack, mem_insertId, mem_cons, mem_cons]
      by_cases hx : x = d
      · subst hx
        simp only [hd, true_or, or_true, not_false_eq_true, and_self]
      · simp only [hx, false_or, and_self]

theorem closeLoop_search {seed : Set String} (out stack : List String) (hsub : stack ⊆ out)
    (h : Search dag.Needs seed {x | x ∈ out ∧ x ∉ stack} {x | x ∈ stack}) :
    {x | x ∈ dag.closeLoop out stack} = From dag.Needs seed := by
  induction out, stack using Dag.closeLoop.induct dag with
  | case1 out =>
    rw [closeLoop]
    have hdone : {x | x ∈ out ∧ x ∉ ([] : List String)} = {x | x ∈ out} := by
      ext x
      simp only [not_mem_nil, not_false_eq_true, and_true]
    have hfront : {x : String | x ∈ ([] : List String)} = ∅ :=
      Set.eq_empty_of_forall_notMem fun x hx => not_mem_nil hx
    rw [hdone, hfront] at h
    exact h.finish
  | case2 out id rest ih =>
    rw [closeLoop]
    have hmem := mem_foldl_pushDep (dag.depsOf id) out rest
    refine ih ?_ (h.visit (x := id) (.inr mem_cons_self) ?_ ?_)
    · intro x hx
      obtain hx | hx := (hmem x).2.mp hx
      · exact (hmem x).1.mpr (.inl (hsub (mem_cons_of_mem id hx)))
      · exact (hmem x).1.mpr (.inr hx.1)
    · ext x
      have hrest : x ∈ rest → x ∈ out := fun hx => hsub (mem_cons_of_mem id hx)
      have hid : x = id → x ∈ out := by
        rintro rfl
        exact hsub mem_cons_self
      simp only [pushDeps, Set.mem_union, Set.mem_ofPred_eq, (hmem x).1, (hmem x).2, Needs,
        mem_cons]
      tauto
    · rintro x ⟨hx, hout⟩
      simp only [pushDeps, (hmem x).1, (hmem x).2, Set.mem_insert_iff, Set.mem_ofPred_eq,
        mem_cons] at hx hout ⊢
      tauto

theorem mem_closeOverDeps (seed : List String) (x : String) :
    x ∈ dag.closeOverDeps seed ↔ x ∈ From dag.Needs {s | s ∈ seed} := by
  have hdone : {x | x ∈ seed ∧ x ∉ seed.reverse} = ∅ := by
    refine Set.eq_empty_of_forall_notMem fun x hx => ?_
    exact hx.2 (mem_reverse.mpr hx.1)
  have hfront : {x | x ∈ seed.reverse} = {s | s ∈ seed} := by
    ext x
    exact mem_reverse
  have h : {x | x ∈ dag.closeLoop seed seed.reverse} = From dag.Needs {s | s ∈ seed} :=
    dag.closeLoop_search seed seed.reverse
    (reverse_subset.mpr (List.Subset.refl seed)) (by
      rw [hdone, hfront]
      exact Search.start _ _)
  rw [← h]
  rfl

theorem containsKey_iff {id : String} : dag.containsKey id = true ↔ id ∈ dag.nodes.map Node.id := by
  rw [containsKey, get?, List.find?_isSome]
  simp only [beq_iff_eq, List.mem_map]

theorem mem_allIds {id : String} : id ∈ dag.allIds ↔ dag.containsKey id = true := by
  rw [containsKey_iff, allIds, mem_foldl_insertId]
  simp only [not_mem_nil, false_or]

end Dag

end DevHermit.TestSelection
