import DevHermit.Ledger.ImportChains

namespace DevHermit.Ledger

open Lib List Grouping

def legacyIndex (event : Event) : Except PyError Int :=
  match (event.get? "legacy_index").getD (.int 0) with
  | .int n => .ok n
  | .bool b => .ok (if b then 1 else 0)
  | _ => .error .typeError

def legacyPair (event : Event) : Option (Except PyError (Int × Json)) :=
  (event.get? "legacy_row").map fun row => (legacyIndex event).map fun index => (index, row)

def replayLegacy (events : List Event) : Except PyError (List Json) := do
  let keyed ← (events.filterMap legacyPair).mapM id
  return (keyed.mergeSort fun a b => decide (a.1 ≤ b.1)).map Prod.snd

def indexed (start : Nat) (rows : List Row) : List (Int × Json) :=
  rows.mapIdx fun i row => (((start + i : Nat) : Int), canonical row)

theorem indexed_append (start : Nat) (as bs : List Row) :
    indexed start (as ++ bs) = indexed start as ++ indexed (start + as.length) bs := by
  rw [indexed, mapIdx_append, indexed, indexed]
  simp only [Nat.add_comm, Nat.add_left_comm]

section

variable (team : String) (startRun startLegacy : Nat)

theorem legacyPair_rowEvent (keys : List RowKey) (i : Nat) (p : RowKey × Row) :
    legacyPair (reload (rowEvent team startRun startLegacy keys i p)) =
      some (.ok (((startLegacy + i : Nat) : Int), canonical p.2)) := by
  rw [legacyPair, legacyIndex, get?_rowEvent_reload rfl, get?_rowEvent_reload rfl]
  rfl

theorem legacyPairs_rowEvents (keyed : Keyed) :
    ((rowEvents team startRun startLegacy keyed).map reload).filterMap legacyPair =
      (indexed startLegacy keyed.rows).map .ok := by
  rw [rowEvents, mapIdx_eq_zipIdx_map, map_map, filterMap_map, indexed, Keyed.rows,
    mapIdx_eq_zipIdx_map, zipIdx_map, map_map, map_map]
  simp only [Function.comp_def, legacyPair_rowEvent]
  rw [filterMap_eq_map']
  rfl

variable (segments : List Keyed)

theorem legacyPairs_segmented :
    ((segmented team startRun startLegacy segments).map reload).filterMap legacyPair =
      (indexed startLegacy (segments.map Keyed.rows).flatten).map .ok := by
  induction segments generalizing startRun startLegacy with
  | nil => rfl
  | cons segment rest ih =>
    rw [segmented, map_append, filterMap_append, legacyPairs_rowEvents, ih,
      map_cons, flatten_cons, indexed_append, map_append, Keyed.rows, length_map]

theorem indexed_snd (start : Nat) (rows : List Row) :
    (indexed start rows).map Prod.snd = rows.map canonical := by
  refine ext_getElem (by simp [indexed]) fun i hi hi' => ?_
  simp [indexed]

theorem indexed_sorted (start : Nat) (rows : List Row) :
    (indexed start rows).Pairwise fun a b => decide (a.1 ≤ b.1) = true := by
  rw [indexed, pairwise_iff_getElem]
  intro i j hi hj hij
  rw [getElem_mapIdx, getElem_mapIdx, decide_eq_true_iff]
  omega

theorem replayLegacy_segmented : replayLegacy ((segmented team 0 0 segments).map reload) =
      .ok ((segments.map Keyed.rows).flatten.map canonical) := by
  have hmap : ∀ l : List (Int × Json), (l.map .ok).mapM (id : Except PyError _ → _) = .ok l := by
    intro l
    induction l with
    | nil => rfl
    | cons a l ih => rw [map_cons, mapM_cons, ih]; rfl
  rw [replayLegacy, legacyPairs_segmented, hmap]
  simp only [bind, Except.bind, pure, Except.pure]
  rw [mergeSort_of_pairwise (indexed_sorted 0 _), indexed_snd]

theorem idText_rowEvent (keys : List RowKey) (i : Nat) (p : RowKey × Row) :
    idText (reload (rowEvent team startRun startLegacy keys i p)) =
      legacyEventId (startRun + groupIndex keys p.1) (position keys i p.1) := by
  rw [idText, get?_rowEvent_reload rfl]
  rfl

theorem dash_not_mem_padded (width n : Nat) : '-' ∉ padded width n := by
  intro h
  obtain ⟨d, hd, heq⟩ := mem_map.mp h
  have hnat := congrArg Char.toNat heq
  rw [digitChar_toNat (padDigits_lt width n d hd)] at hnat
  have hdash : '-'.toNat = 45 := rfl
  omega

theorem legacyEventId_inj {g p g' p' : Nat} (h : legacyEventId g p = legacyEventId g' p') :
    g = g' ∧ p = p' := by
  have htext := congrArg String.toList h
  simp only [legacyEventId, legacyRunId, String.toList_append, String.toList_ofList,
    append_assoc] at htext
  obtain ⟨hrun, -, hposition⟩ := (append_cons_inj_of_notMem (dash_not_mem_padded 6 g)
    (dash_not_mem_padded 3 p)).mp (append_cancel_left htext)
  exact ⟨padded_injective 6 hrun, padded_injective 3 hposition⟩

theorem rowEvents_ids_nodup (keyed : Keyed) :
    (((rowEvents team startRun startLegacy keyed).map reload).map idText).Nodup := by
  rw [List.Nodup, pairwise_map, pairwise_map, rowEvents, pairwise_iff_getElem]
  intro i j hi hj hij heq
  rw [getElem_mapIdx, getElem_mapIdx, idText_rowEvent, idText_rowEvent] at heq
  rw [length_mapIdx] at hi hj
  obtain ⟨hgroup, hposition⟩ := legacyEventId_inj heq
  have hki : keyed.keys[i]? = some keyed[i].1 := by
    rw [Keyed.keys, List.getElem?_map, List.getElem?_eq_getElem hi, Option.map_some]
  have hkj : keyed.keys[j]? = some keyed[j].1 := by
    rw [Keyed.keys, List.getElem?_map, List.getElem?_eq_getElem hj, Option.map_some]
  have hgi := getElem?_groupIndex (mem_of_getElem? hki)
  rw [Nat.add_left_cancel hgroup, getElem?_groupIndex (mem_of_getElem? hkj)] at hgi
  have hmi := getElem?_members_position hki
  rw [hposition, ← Option.some.inj hgi, getElem?_members_position hkj] at hmi
  exact absurd (Option.some.inj hmi) hij.ne'

variable {team startRun startLegacy} in
theorem mem_segmented_id {segments : List Keyed} {id : String}
    (h : id ∈ ((segmented team startRun startLegacy segments).map reload).map idText) :
    ∃ run position, startRun ≤ run ∧ id = legacyEventId run position := by
  induction segments generalizing startRun startLegacy with
  | nil => cases h
  | cons segment rest ih =>
    rw [segmented, map_append, map_append, mem_append] at h
    rcases h with h | h
    · rw [map_map, mem_map] at h
      obtain ⟨e, he, rfl⟩ := h
      obtain ⟨i, p, -, rfl⟩ := mem_rowEvents he
      rw [Function.comp_apply, idText_rowEvent]
      exact ⟨_, _, Nat.le_add_right _ _, rfl⟩
    · obtain ⟨run, position, hle, rfl⟩ := ih h
      exact ⟨run, position, (Nat.le_add_right _ _).trans hle, rfl⟩

theorem segmented_ids_nodup :
    (((segmented team startRun startLegacy segments).map reload).map idText).Nodup := by
  induction segments generalizing startRun startLegacy with
  | nil => exact nodup_nil
  | cons segment rest ih =>
    rw [segmented, map_append, map_append]
    refine (rowEvents_ids_nodup _ _ _ _).append (ih _ _) fun id hid hrest => ?_
    rw [map_map, mem_map] at hid
    obtain ⟨e, he, rfl⟩ := hid
    obtain ⟨i, p, hp, rfl⟩ := mem_rowEvents he
    obtain ⟨run, position, hle, heq⟩ := mem_segmented_id hrest
    rw [Function.comp_apply, idText_rowEvent] at heq
    have hrun := (legacyEventId_inj heq).1
    have hlt : groupIndex segment.keys p.1 < runCount segment :=
      groupIndex_lt (mem_map_of_mem (mem_of_getElem? hp))
    omega

end

def Outcome.Extends (events : List Event) (outcome : Outcome) : Prop :=
  events <+: outcome.shard ∧ (outcome.exit = 0 ∨ outcome.exit = 6 ∨ outcome.shard = events)

theorem Outcome.extends_self (exit : Nat) (events : List Event) :
    Outcome.Extends events ⟨exit, events⟩ :=
  ⟨prefix_rfl, .inr (.inr rfl)⟩

variable {args : Args} {events : List Event} {outcome : Outcome}

theorem publish_extends {newEvents : List Event} {quarantined : Bool}
    (h : publish args events newEvents quarantined = .ok outcome) : outcome.Extends events := by
  rw [publish] at h
  split at h
  · cases h
    exact Outcome.extends_self _ _
  · cases hl : lint args.shard (events.map idText) newEvents with
    | error err =>
      rw [hl] at h
      cases h
    | ok problems =>
      rw [hl] at h
      simp only [bind, Except.bind, verifyAppendOnly_append, pure, Except.pure] at h
      split_ifs at h with hproblems hpure
      · cases h
        exact Outcome.extends_self _ _
      · exact absurd rfl hpure
      · cases h
        exact Outcome.extends_self _ _
      · cases h
        exact ⟨prefix_append _ _, .inr (.inl rfl)⟩
      · cases h
        exact ⟨prefix_append _ _, .inl rfl⟩

theorem importMain_extends {rows : List Row}
    (h : importMain args (some rows) events = .ok outcome) : outcome.Extends events := by
  rw [importMain] at h
  dsimp only at h
  split_ifs at h
  · cases h
    exact Outcome.extends_self _ _
  · cases h
    exact Outcome.extends_self _ _
  · cases h
    exact Outcome.extends_self _ _
  · obtain ⟨newEvents, -, h⟩ := bind_eq_ok.mp h
    exact publish_extends h

inductive ImportRuns (args : Args) : List Row → List Row → List Event → Prop where
  | start : ImportRuns args [] [] []
  | grow {live seen : List Row} {shard : List Event} (rows : List Row)
      (h : ImportRuns args live seen shard) : ImportRuns args (live ++ rows) seen shard
  | imported {live seen : List Row} {shard shard' : List Event}
      (h : ImportRuns args live seen shard)
      (hmain : importMain args (some live) shard = .ok ⟨0, shard'⟩) :
      ImportRuns args live live shard'
  | refused {live seen : List Row} {shard : List Event} {exit : Nat} {shard' : List Event}
      (h : ImportRuns args live seen shard)
      (hmain : importMain args (some live) shard = .ok ⟨exit, shard'⟩) (hzero : exit ≠ 0)
      (hsix : exit ≠ 6) : ImportRuns args live seen shard'

variable {live seen : List Row} {shard : List Event}

theorem ImportRuns.segments (h : ImportRuns args live seen shard) :
    ∃ segments, Imported args segments shard ∧ segments.flatten = seen ∧ seen <+: live := by
  induction h with
  | start => exact ⟨[], .none, rfl, nil_prefix⟩
  | grow rows _ ih =>
    obtain ⟨segments, himported, hseen, hlive⟩ := ih
    exact ⟨segments, himported, hseen, hlive.trans (prefix_append _ _)⟩
  | imported _ hmain ih =>
    obtain ⟨segments, himported, rfl, added, rfl⟩ := ih
    exact ⟨segments ++ [added], .next added himported hmain, by simp, prefix_rfl⟩
  | refused _ hmain hzero hsix ih =>
    obtain hexit | hexit | hshard := (importMain_extends hmain).2
    · exact absurd hexit hzero
    · exact absurd hexit hsix
    · dsimp only at hshard
      rw [hshard]
      exact ih

theorem legacy_import_lossless (hdry : args.dryRun = false)
    (h : ImportRuns args live seen shard) :
    replayLegacy shard = .ok ((seen.map (redactRow args.workspaceRoot)).map canonical) ∧
      (shard.map idText).Nodup ∧
      importMain args (some seen) shard = .ok ⟨0, shard⟩ ∧
      ∀ outcome, importMain args (some live) shard = .ok outcome → shard <+: outcome.shard := by
  obtain ⟨segments, himported, rfl, -⟩ := h.segments
  obtain ⟨keyed, -, hrows, rfl⟩ := imported_segmented hdry himported
  have hseen : segments.flatten.map (redactRow args.workspaceRoot) =
      (keyed.map Keyed.rows).flatten := by
    rw [map_flatten, hrows]
  refine ⟨?_, segmented_ids_nodup _ _ _ _, ?_, fun outcome hmain => (importMain_extends hmain).1⟩
  · rw [replayLegacy_segmented, hseen]
  · have hpending := pendingFrom_append (keyed.map Keyed.rows).flatten []
    rw [append_nil] at hpending
    simp only [importMain, hseen, pending, importedRows_segmented, hpending, if_true]

def rowTwice : List Row := [otherRow, otherRow]

theorem repeated_row_imports_lossless :
    ∃ shard, ImportRuns importArgs rowTwice rowTwice shard ∧
      replayLegacy shard = .ok ((rowTwice.map (redactRow "/work/dev-hermit")).map canonical) := by
  obtain ⟨middle, shard, hfirst, hsecond⟩ := @imported_twice importArgs [otherRow] [otherRow]
    (by decide +kernel)
  have hruns : ImportRuns importArgs rowTwice rowTwice shard :=
    .imported (.grow [otherRow] (.imported (.grow [otherRow] .start) hfirst)) hsecond
  exact ⟨shard, hruns, (legacy_import_lossless rfl hruns).1⟩

end DevHermit.Ledger
