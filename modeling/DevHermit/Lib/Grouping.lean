import Mathlib

namespace DevHermit.Lib

open List

namespace Grouping

variable {κ : Type} [DecidableEq κ]

def addIndex (k : κ) (i : Nat) : List (κ × List Nat) → List (κ × List Nat)
  | [] => [(k, [i])]
  | (l, members) :: rest =>
    if l = k then (l, members ++ [i]) :: rest else (l, members) :: addIndex k i rest

def groups (keys : List κ) : List (κ × List Nat) :=
  keys.zipIdx.foldl (fun gs p => addIndex p.1 p.2 gs) []

def members (keys : List κ) (k : κ) : List Nat :=
  (List.range keys.length).filter fun i => keys[i]? = some k

def groupCount (keys : List κ) : Nat := keys.eraseDups.length

def groupIndex (keys : List κ) (k : κ) : Nat := keys.eraseDups.idxOf k

def position (keys : List κ) (i : Nat) (k : κ) : Nat := (keys.take i).count k

theorem members_concat (keys : List κ) (k l : κ) : members (keys ++ [k]) l =
      if l = k then members keys l ++ [keys.length] else members keys l := by
  have hold : (range keys.length).filter (fun i => (keys ++ [k])[i]? = some l) =
      members keys l := by
    refine filter_congr fun i hi => ?_
    rw [List.getElem?_append_left (mem_range.mp hi)]
  rw [members, length_append, length_singleton, range_succ, filter_append, hold,
    filter_singleton, List.getElem?_concat_length]
  by_cases h : l = k
  · simp [h]
  · have h' : ¬ k = l := fun heq => h heq.symm
    simp [h, h']

theorem addIndex_map (k : κ) (i : Nat) (f : κ → List Nat) (ks : List κ) (hnd : ks.Nodup) :
    addIndex k i (ks.map fun l => (l, f l)) =
      if k ∈ ks then ks.map fun l => (l, if l = k then f l ++ [i] else f l)
      else (ks.map fun l => (l, f l)) ++ [(k, [i])] := by
  induction ks with
  | nil => rfl
  | cons l rest ih =>
    rw [nodup_cons] at hnd
    rw [map_cons, addIndex]
    by_cases hl : l = k
    · subst hl
      have hrest : ∀ m ∈ rest, (m, f m) = (m, if m = l then f m ++ [i] else f m) := by
        intro m hm
        rw [if_neg fun heq : m = l => hnd.1 (heq ▸ hm)]
      rw [if_pos rfl, if_pos mem_cons_self, map_cons, if_pos rfl, map_congr_left hrest]
    · rw [if_neg hl, ih hnd.2]
      have hk : k ∈ l :: rest ↔ k ∈ rest := by rw [mem_cons, or_iff_right fun heq => hl heq.symm]
      by_cases hmem : k ∈ rest
      · rw [if_pos hmem, if_pos (hk.mpr hmem), map_cons, if_neg hl]
      · rw [if_neg hmem, if_neg fun h => hmem (hk.mp h), cons_append]

theorem eraseDups_concat (keys : List κ) (k : κ) :
    (keys ++ [k]).eraseDups = if k ∈ keys then keys.eraseDups else keys.eraseDups ++ [k] := by
  rw [eraseDups_append]
  have hsingle : [k].eraseDups = [k] := rfl
  by_cases hk : k ∈ keys <;> simp [removeAll, hk, hsingle]

theorem nodup_eraseDups (keys : List κ) : keys.eraseDups.Nodup := by
  induction keys using reverseRecOn with
  | nil => simp
  | append_singleton keys k ih =>
    rw [eraseDups_concat]
    split_ifs with hk
    · exact ih
    · refine nodup_append.mpr ⟨ih, nodup_singleton k, fun a ha b hb heq => ?_⟩
      rw [mem_singleton.mp hb] at heq
      exact hk (heq ▸ mem_eraseDups.mp ha)

variable {k : κ} {keys : List κ}

theorem members_eq_nil (h : k ∉ keys) : members keys k = [] := by
  rw [members, filter_eq_nil_iff]
  intro i _ hi
  exact h (mem_of_getElem? (of_decide_eq_true hi))

theorem groups_eq (keys : List κ) :
    groups keys = keys.eraseDups.map fun k => (k, members keys k) := by
  induction keys using reverseRecOn with
  | nil => rfl
  | append_singleton keys k ih =>
    rw [groups, zipIdx_append, foldl_append, ← groups, ih]
    simp only [zipIdx_cons, zipIdx_nil, foldl_cons, foldl_nil, zero_add]
    rw [addIndex_map _ _ _ _ (nodup_eraseDups keys), eraseDups_concat]
    have hmembers : ∀ l ∈ keys.eraseDups, (l, if l = k then members keys l ++ [keys.length]
        else members keys l) = (l, members (keys ++ [k]) l) := by
      intro l _
      rw [members_concat]
    by_cases hk : k ∈ keys
    · rw [if_pos (mem_eraseDups.mpr hk), if_pos hk, map_congr_left hmembers]
    · have hne : ∀ l ∈ keys.eraseDups, (l, members keys l) = (l, members (keys ++ [k]) l) := by
        intro l hl
        have hlk : l ≠ k := fun heq => hk (heq ▸ mem_eraseDups.mp hl)
        rw [members_concat, if_neg hlk]
      rw [if_neg fun h => hk (mem_eraseDups.mp h), if_neg hk, map_append,
        map_congr_left hne, map_singleton,
        members_concat, if_pos rfl, members_eq_nil hk, nil_append]

theorem length_members (keys : List κ) (k : κ) : (members keys k).length = keys.count k := by
  induction keys using reverseRecOn with
  | nil => rfl
  | append_singleton keys l ih =>
    rw [members_concat, count_append, count_singleton]
    by_cases hl : k = l
    · subst hl
      simp [ih]
    · have hl' : ¬ l = k := fun heq => hl heq.symm
      simp [hl, hl', ih]

variable {i : Nat}

theorem getElem?_members_position (h : keys[i]? = some k) :
    (members keys k)[position keys i k]? = some i := by
  induction keys using reverseRecOn with
  | nil => simp at h
  | append_singleton keys l ih =>
    rw [members_concat, position]
    rcases Nat.lt_or_ge i keys.length with hi | hi
    · rw [List.getElem?_append_left hi] at h
      have hold := ih h
      rw [take_append_of_le_length hi.le, ← position]
      split
      · rw [List.getElem?_append_left (List.getElem?_eq_some_iff.mp hold).1, hold]
      · exact hold
    · have hlen := (List.getElem?_eq_some_iff.mp h).1
      rw [length_append, length_singleton] at hlen
      obtain rfl : i = keys.length := by omega
      rw [List.getElem?_concat_length] at h
      obtain rfl : l = k := Option.some.inj h
      rw [if_pos rfl, take_left, ← length_members, List.getElem?_concat_length]

theorem position_of_getElem?_members {p : Nat} (h : (members keys k)[p]? = some i) :
    keys[i]? = some k ∧ position keys i k = p := by
  have hmem := mem_of_getElem? h
  rw [members, mem_filter, decide_eq_true_iff] at hmem
  refine ⟨hmem.2, ?_⟩
  have hnd : (members keys k).Nodup := nodup_range.filter _
  have hpos := getElem?_members_position hmem.2
  obtain ⟨hp, hpi⟩ := List.getElem?_eq_some_iff.mp h
  obtain ⟨hq, hqi⟩ := List.getElem?_eq_some_iff.mp hpos
  exact (List.Nodup.getElem_inj_iff hnd).mp (hqi.trans hpi.symm)

theorem members_ne_nil (h : k ∈ keys) : members keys k ≠ [] := by
  obtain ⟨i, hi⟩ := mem_iff_getElem?.mp h
  exact ne_nil_of_mem (mem_of_getElem? (getElem?_members_position hi))

theorem headD_members_lt (h : k ∈ keys) : (members keys k).headD 0 < keys.length := by
  cases hm : members keys k with
  | nil => exact absurd hm (members_ne_nil h)
  | cons i rest =>
    have hmem : i ∈ members keys k := hm ▸ mem_cons_self
    rw [members, mem_filter] at hmem
    exact mem_range.mp hmem.1

theorem headD_members_concat {l : κ} (h : l ∈ keys) :
    (members (keys ++ [k]) l).headD 0 = (members keys l).headD 0 := by
  rw [members_concat]
  split
  · cases hm : members keys l with
    | nil => exact absurd hm (members_ne_nil h)
    | cons i rest => rfl
  · rfl

theorem eraseDups_pairwise_head (keys : List κ) :
    keys.eraseDups.Pairwise fun k l => (members keys k).headD 0 ≤ (members keys l).headD 0 := by
  induction keys using reverseRecOn with
  | nil => exact .nil
  | append_singleton keys k ih =>
    have hold : keys.eraseDups.Pairwise fun l m =>
        (members (keys ++ [k]) l).headD 0 ≤ (members (keys ++ [k]) m).headD 0 := by
      refine ih.imp_of_mem fun {l m} hl hm hle => ?_
      rwa [headD_members_concat (mem_eraseDups.mp hl), headD_members_concat (mem_eraseDups.mp hm)]
    rw [eraseDups_concat]
    split_ifs with hk
    · exact hold
    · refine pairwise_append.mpr ⟨hold, pairwise_singleton _ _, fun l hl m hm => ?_⟩
      have hlt := headD_members_lt (mem_eraseDups.mp hl)
      rw [mem_singleton.mp hm, headD_members_concat (mem_eraseDups.mp hl),
        members_concat, if_pos rfl, members_eq_nil hk]
      exact hlt.le

theorem groups_pairwise_head (keys : List κ) :
    (groups keys).Pairwise fun a b => a.2.headD 0 ≤ b.2.headD 0 := by
  rw [groups_eq, pairwise_map]
  exact eraseDups_pairwise_head keys

variable {g : Nat}

theorem groupIndex_of_getElem? (h : keys.eraseDups[g]? = some k) : groupIndex keys k = g := by
  obtain ⟨hg, rfl⟩ := List.getElem?_eq_some_iff.mp h
  exact (nodup_eraseDups keys).idxOf_getElem g hg

theorem getElem?_groupIndex (h : k ∈ keys) : keys.eraseDups[groupIndex keys k]? = some k := by
  have hmem := mem_eraseDups.mpr h
  rw [groupIndex, List.getElem?_eq_getElem (idxOf_lt_length_of_mem hmem), getElem_idxOf]

variable {as bs : List κ}

theorem eraseDups_append_of_disjoint (h : ∀ k ∈ bs, k ∉ as) :
    (as ++ bs).eraseDups = as.eraseDups ++ bs.eraseDups := by
  rw [eraseDups_append, removeAll, filter_eq_self.mpr]
  intro k hk
  simpa using h k hk

theorem groupIndex_append_left (h : k ∈ as) : groupIndex (as ++ bs) k = groupIndex as k := by
  rw [groupIndex, eraseDups_append, idxOf_append_of_mem (mem_eraseDups.mpr h), groupIndex]

theorem groupIndex_append_right (h : ∀ k ∈ bs, k ∉ as) (hk : k ∈ bs) :
    groupIndex (as ++ bs) k = groupCount as + groupIndex bs k := by
  have hnot : k ∉ as.eraseDups := fun hmem => h k hk (mem_eraseDups.mp hmem)
  rw [groupIndex, eraseDups_append_of_disjoint h, idxOf_append_of_notMem hnot, groupIndex,
    groupCount]

theorem position_append_left (hi : i ≤ as.length) (k : κ) :
    position (as ++ bs) i k = position as i k := by
  rw [position, take_append_of_le_length hi, position]

theorem position_append_right (hk : k ∉ as) (j : Nat) :
    position (as ++ bs) (as.length + j) k = position bs j k := by
  rw [position, take_length_add_append, count_append, count_eq_zero_of_not_mem hk,
    zero_add, position]

theorem groupCount_concat (keys : List κ) (k : κ) :
    groupCount (keys ++ [k]) = if k ∈ keys then groupCount keys else groupCount keys + 1 := by
  rw [groupCount, eraseDups_concat]
  split
  · rfl
  · rw [length_append, length_singleton, groupCount]

theorem groupCount_append_le (as bs : List κ) :
    groupCount (as ++ bs) ≤ groupCount as + groupCount bs := by
  induction bs using reverseRecOn with
  | nil => simp
  | append_singleton bs k ih =>
    rw [← append_assoc, groupCount_concat, groupCount_concat]
    by_cases hb : k ∈ bs
    · rw [if_pos (mem_append_right as hb), if_pos hb]
      exact ih
    · rw [if_neg hb]
      split
      · omega
      · omega

theorem groupCount_append_lt (ha : k ∈ as) (hb : k ∈ bs) :
    groupCount (as ++ bs) < groupCount as + groupCount bs := by
  induction bs using reverseRecOn with
  | nil => cases hb
  | append_singleton bs l ih =>
    rw [← append_assoc, groupCount_concat, groupCount_concat]
    by_cases hk : k ∈ bs
    · have hlt := ih hk
      by_cases hl : l ∈ bs
      · rw [if_pos (mem_append_right as hl), if_pos hl]
        exact hlt
      · rw [if_neg hl]
        split
        · omega
        · omega
    · obtain rfl : k = l := by
        rcases mem_append.mp hb with hmem | hmem
        · exact absurd hmem hk
        · exact mem_singleton.mp hmem
      have hle := groupCount_append_le as bs
      rw [if_pos (mem_append_left bs ha), if_neg hk]
      omega

theorem groupIndex_lt (h : k ∈ keys) : groupIndex keys k < groupCount keys :=
  idxOf_lt_length_of_mem (mem_eraseDups.mpr h)

theorem exists_groupIndex (h : g < groupCount keys) : ∃ k ∈ keys, groupIndex keys k = g := by
  have hget : keys.eraseDups[g]? = some keys.eraseDups[g] := List.getElem?_eq_getElem h
  exact ⟨keys.eraseDups[g], mem_eraseDups.mp (getElem_mem h), groupIndex_of_getElem? hget⟩

end Grouping

variable {β : Type}

def scatter (n : Nat) (assignments : List (Nat × β)) : List (Option β) :=
  assignments.foldl (fun out p => out.set p.1 (some p.2)) (List.replicate n none)

variable {assignments : List (Nat × β)} {f : Nat → β}

theorem getElem?_foldl_set (hval : ∀ p ∈ assignments, p.2 = f p.1) (out : List (Option β)) {i : Nat}
    (hi : i < out.length) : (assignments.foldl (fun out p => out.set p.1 (some p.2)) out)[i]? =
      if ∃ p ∈ assignments, p.1 = i then some (some (f i)) else out[i]? := by
  induction assignments generalizing out with
  | nil => simp
  | cons p rest ih =>
    have hrest := ih (fun q hq => hval q (.tail p hq)) (out.set p.1 (some p.2))
      (by rwa [length_set])
    rw [foldl_cons, hrest]
    by_cases hmem : ∃ q ∈ rest, q.1 = i
    · obtain ⟨q, hq, hqi⟩ := hmem
      rw [if_pos ⟨q, hq, hqi⟩, if_pos ⟨q, .tail p hq, hqi⟩]
    · rw [if_neg hmem, List.getElem?_set]
      by_cases hp : p.1 = i
      · rw [if_pos hp, if_pos (hp ▸ hi), if_pos ⟨p, mem_cons_self, hp⟩, hval p mem_cons_self, hp]
      · rw [if_neg hp, if_neg]
        rintro ⟨q, hq, hqi⟩
        rcases mem_cons.mp hq with rfl | hq'
        · exact hp hqi
        · exact hmem ⟨q, hq', hqi⟩

theorem length_scatter (n : Nat) (assignments : List (Nat × β)) :
    (scatter n assignments).length = n := by
  have h : ∀ out : List (Option β),
      (assignments.foldl (fun out p => out.set p.1 (some p.2)) out).length = out.length := by
    induction assignments with
    | nil => exact fun _ => rfl
    | cons p rest ih =>
      intro out
      rw [foldl_cons, ih, length_set]
  rw [scatter, h, length_replicate]

theorem scatter_eq {n : Nat} (hval : ∀ p ∈ assignments, p.2 = f p.1)
    (hcover : ∀ i < n, ∃ p ∈ assignments, p.1 = i) :
    scatter n assignments = (range n).map fun i => some (f i) := by
  apply ext_getElem?
  intro i
  rcases Nat.lt_or_ge i n with hi | hi
  · rw [scatter, getElem?_foldl_set hval _ (by rwa [length_replicate]),
      if_pos (hcover i hi), List.getElem?_map, List.getElem?_range hi, Option.map_some]
  · rw [List.getElem?_eq_none (by rwa [length_scatter]),
      List.getElem?_eq_none (by rwa [length_map, length_range])]

end DevHermit.Lib
