import DevHermit.Ledger.Migration

namespace DevHermit.Ledger

open Lib Option List Grouping

def runTotal (segments : List Keyed) : Nat := (segments.map runCount).sum

def rowTotal (segments : List Keyed) : Nat := (segments.map List.length).sum

def segmented (team : String) (startRun startLegacy : Nat) : List Keyed → List Event
  | [] => []
  | segment :: rest =>
    rowEvents team startRun startLegacy segment ++
      segmented team (startRun + runCount segment) (startLegacy + segment.length) rest

variable (team : String)

theorem segmented_concat (startRun startLegacy : Nat) (segments : List Keyed) (segment : Keyed) :
    segmented team startRun startLegacy (segments ++ [segment]) =
      segmented team startRun startLegacy segments ++
        rowEvents team (startRun + runTotal segments) (startLegacy + rowTotal segments) segment := by
  induction segments generalizing startRun startLegacy with
  | nil => simp [segmented, runTotal, rowTotal]
  | cons first rest ih =>
    rw [cons_append, segmented, ih, segmented, append_assoc]
    simp only [runTotal, rowTotal, map_cons, sum_cons, Nat.add_assoc]

variable {startLegacy startRun : Nat} {team : String}

theorem mem_rowEvents {keyed : Keyed} {e : Event}
    (h : e ∈ rowEvents team startRun startLegacy keyed) :
    ∃ i p, keyed[i]? = some p ∧ e = rowEvent team startRun startLegacy keyed.keys i p := by
  obtain ⟨i, hi⟩ := mem_iff_getElem?.mp h
  rw [rowEvents, List.getElem?_mapIdx, map_eq_some_iff] at hi
  obtain ⟨p, hp, rfl⟩ := hi
  exact ⟨i, p, hp, rfl⟩

variable {d : Nat}

theorem decimalValue_digitChar (hd : d < 10) : decimalValue? (digitChar d) = some d := by
  interval_cases d <;> decide +kernel

theorem newline_ne_digitChar (hd : d < 10) : digitChar d ≠ '\n' := by interval_cases d <;> decide

theorem parseRunIndex_legacyRunId (n : Nat) : parseRunIndex (legacyRunId n) = some n := by
  have hchars : (legacyRunId n).toList = "legacy-".toList ++ padded 6 n := by
    simp only [legacyRunId, String.toList_append, String.toList_ofList]
  have hstarts : "legacy-".toList.isPrefixOf ("legacy-".toList ++ padded 6 n) = true := by simp
  have hdrop : ("legacy-".toList ++ padded 6 n).drop 7 = padded 6 n := drop_left' rfl
  have hlt := padDigits_lt 6 n
  have hlast : ¬ (padded 6 n).getLast? = some '\n' := by
    intro h
    obtain ⟨d, hd, heq⟩ := List.mem_map.mp (mem_of_getLast? h)
    exact newline_ne_digitChar (hlt d hd) heq
  have hdigits : (padded 6 n).all isDecimalDigit = true := by
    rw [padded, List.all_map, List.all_eq_true]
    intro d hd
    simp only [Function.comp, isDecimalDigit, decimalValue_digitChar (hlt d hd), isSome_some]
  have hvalues : ((padded 6 n).map fun c => (decimalValue? c).getD 0) = padDigits 6 n := by
    rw [padded, List.map_map]
    refine (map_congr_left fun d hd => ?_).trans (List.map_id _)
    simp only [Function.comp, decimalValue_digitChar (hlt d hd), getD_some, id]
  have hne : padded 6 n ≠ [] := fun h => padDigits_ne_nil 6 n (map_eq_nil_iff.mp h)
  rw [parseRunIndex, hchars]
  simp only [hstarts, if_true, hdrop, if_neg hlast]
  rw [if_pos ⟨hne, hdigits⟩, hvalues, ofDecimal_padDigits]

theorem legacyRunId_injective : Function.Injective legacyRunId := by
  intro n m h
  have hparse := parseRunIndex_legacyRunId n
  rw [h, parseRunIndex_legacyRunId] at hparse
  exact (Option.some.inj hparse).symm

theorem get?_rowEvent_reload {keys : List RowKey} {i : Nat} {p : RowKey × Row} {k : String}
    {v : Json} (h : (legacyFields team (startRun + groupIndex keys p.1) (position keys i p.1) p.2
      (startLegacy + i)).lookup k = some v) :
    (reload (rowEvent team startRun startLegacy keys i p)).get? k = some v.canonical := by
  rw [get?_reload, rowEvent, legacyEvent_get? h, map_some]

theorem nextRun_reload (next : Nat) (team : String) (startRun startLegacy : Nat)
    (keys : List RowKey) (i : Nat) (p : RowKey × Row) :
    nextRun next (reload (rowEvent team startRun startLegacy keys i p)) =
      max next (startRun + groupIndex keys p.1 + 1) := by
  have hid : strGet (reload (rowEvent team startRun startLegacy keys i p)) "run_id" =
      legacyRunId (startRun + groupIndex keys p.1) := by
    rw [strGet, get?_rowEvent_reload rfl]
    rfl
  rw [nextRun, hid, parseRunIndex_legacyRunId]

theorem nextLegacy_reload (next : Nat) (team : String) (startRun startLegacy : Nat)
    (keys : List RowKey) (i : Nat) (p : RowKey × Row) :
    nextLegacy next (reload (rowEvent team startRun startLegacy keys i p)) =
      max next (startLegacy + i + 1) := by
  rw [nextLegacy, get?_rowEvent_reload rfl]
  rfl

variable {α : Type}

theorem foldl_max_le_iff (f : α → Nat) (l : List α) (next x : Nat) :
    l.foldl (fun n a => max n (f a)) next ≤ x ↔ next ≤ x ∧ ∀ a ∈ l, f a ≤ x := by
  induction l generalizing next with
  | nil => simp
  | cons a rest ih => rw [foldl_cons, ih, max_le_iff, forall_mem_cons, and_assoc]

theorem foldl_mapIdx_max (f : Nat → α → Nat) (l : List α) (next x : Nat) :
    (l.mapIdx f).foldl max next ≤ x ↔ next ≤ x ∧ ∀ i a, l[i]? = some a → f i a ≤ x := by
  have hfold := foldl_max_le_iff id (l.mapIdx f) next x
  simp only [id] at hfold
  rw [hfold]
  refine and_congr_right fun _ => ?_
  constructor
  · intro h i a ha
    refine h (f i a) (mem_iff_getElem?.mpr ⟨i, ?_⟩)
    rw [List.getElem?_mapIdx, ha, map_some]
  · intro h b hb
    obtain ⟨i, hi⟩ := mem_iff_getElem?.mp hb
    rw [List.getElem?_mapIdx, map_eq_some_iff] at hi
    obtain ⟨a, ha, rfl⟩ := hi
    exact h i a ha

theorem foldl_nextRun_rowEvents (startRun startLegacy : Nat) (keyed : Keyed) :
    ((rowEvents team startRun startLegacy keyed).map reload).foldl nextRun startRun =
      startRun + runCount keyed := by
  have hmax : ((rowEvents team startRun startLegacy keyed).map reload).foldl nextRun startRun =
      (keyed.mapIdx fun _ p => startRun + groupIndex keyed.keys p.1 + 1).foldl max startRun := by
    rw [rowEvents, foldl_map, mapIdx_eq_zipIdx_map, foldl_map, mapIdx_eq_zipIdx_map, foldl_map]
    simp only [nextRun_reload]
  rw [hmax]
  apply Nat.le_antisymm
  · rw [foldl_mapIdx_max]
    refine ⟨Nat.le_add_right _ _, fun i p hp => ?_⟩
    have hlt := groupIndex_lt (List.mem_map_of_mem (f := Prod.fst) (mem_of_getElem? hp))
    have hlt' : groupIndex keyed.keys p.1 < runCount keyed := hlt
    omega
  · have hle := (foldl_mapIdx_max (fun _ p => startRun + groupIndex keyed.keys p.1 + 1) keyed
      startRun _).mp le_rfl
    rcases Nat.eq_zero_or_pos (runCount keyed) with hzero | hpos
    · rw [hzero]
      exact hle.1
    · obtain ⟨k, hk, hg⟩ := exists_groupIndex (Nat.sub_lt hpos Nat.one_pos)
      obtain ⟨p, hp, rfl⟩ := List.mem_map.mp hk
      obtain ⟨i, hi⟩ := mem_iff_getElem?.mp hp
      have hbound := hle.2 i p hi
      have hg' : groupIndex keyed.keys p.1 = runCount keyed - 1 := hg
      omega

theorem foldl_nextLegacy_rowEvents (startRun startLegacy : Nat) (keyed : Keyed) :
    ((rowEvents team startRun startLegacy keyed).map reload).foldl nextLegacy startLegacy =
      startLegacy + keyed.length := by
  have hmax : ((rowEvents team startRun startLegacy keyed).map reload).foldl nextLegacy
      startLegacy = (keyed.mapIdx fun i _ => startLegacy + i + 1).foldl max startLegacy := by
    rw [rowEvents, foldl_map, mapIdx_eq_zipIdx_map, foldl_map, mapIdx_eq_zipIdx_map, foldl_map]
    simp only [nextLegacy_reload]
  rw [hmax]
  apply Nat.le_antisymm
  · rw [foldl_mapIdx_max]
    refine ⟨Nat.le_add_right _ _, fun i p hp => ?_⟩
    have hlt := (List.getElem?_eq_some_iff.mp hp).1
    omega
  · have hle := (foldl_mapIdx_max (fun i _ => startLegacy + i + 1) keyed startLegacy _).mp le_rfl
    rcases Nat.eq_zero_or_pos keyed.length with hzero | hpos
    · rw [hzero]
      exact hle.1
    · have hbound := hle.2 (keyed.length - 1) _
        (List.getElem?_eq_getElem (Nat.sub_lt hpos Nat.one_pos))
      omega

theorem highWater_segmented (segments : List Keyed) :
    highWater ((segmented team 0 0 segments).map reload) =
      (runTotal segments, rowTotal segments) := by
  induction segments using List.reverseRecOn with
  | nil => rfl
  | append_singleton segments segment ih =>
    obtain ⟨hrun, hlegacy⟩ := Prod.mk.inj ih
    rw [highWater, segmented_concat, map_append, foldl_append, foldl_append, hrun,
      hlegacy, Nat.zero_add, Nat.zero_add, foldl_nextRun_rowEvents, foldl_nextLegacy_rowEvents]
    simp [runTotal, rowTotal]

theorem importedRows_rowEvents (startRun startLegacy : Nat) (keyed : Keyed) :
    (importedRows ((rowEvents team startRun startLegacy keyed).map reload)).map
      (fun fields => Json.canonical (.obj fields)) = keyed.rows.map canonical := by
  have hrow : ∀ i p, legacyRow? (reload (rowEvent team startRun startLegacy keyed.keys i p)) =
      some (Json.sortFields (Json.canonicalFields p.2.entries)) := by
    intro i p
    rw [legacyRow?, get?_rowEvent_reload rfl]
    rfl
  have hcanonical : ∀ row : Row,
      Json.canonical (.obj (Json.sortFields (Json.canonicalFields row.entries))) = canonical row :=
    fun row => Json.canonical_idem (.obj row.entries)
  rw [importedRows, rowEvents, mapIdx_eq_zipIdx_map, List.map_map, filterMap_map]
  simp only [Function.comp_def, hrow]
  rw [filterMap_eq_map', List.map_map, Keyed.rows]
  have hsnd : keyed.map Prod.snd = keyed.zipIdx.map fun q => q.1.2 := by
    conv_lhs => rw [← zipIdx_map_fst 0 keyed]
    rw [List.map_map]
    rfl
  rw [hsnd, List.map_map]
  exact map_congr_left fun q _ => hcanonical q.1.2

theorem importedRows_segmented (startRun startLegacy : Nat) (segments : List Keyed) :
    (importedRows ((segmented team startRun startLegacy segments).map reload)).map
      (fun fields => Json.canonical (.obj fields)) =
        (segments.map Keyed.rows).flatten.map canonical := by
  induction segments generalizing startRun startLegacy with
  | nil => rfl
  | cons segment rest ih =>
    rw [segmented, map_append, importedRows, filterMap_append, map_append, ← importedRows,
      ← importedRows, importedRows_rowEvents, ih, map_cons, flatten_cons, map_append]

theorem pendingFrom_nil (rows : List Row) : pendingFrom [] rows = rows := by
  induction rows with
  | nil => rfl
  | cons row rest ih => rw [pendingFrom, if_neg not_mem_nil, ih]

theorem pendingFrom_append (imported rows : List Row) :
    pendingFrom (imported.map canonical) (imported ++ rows) = rows := by
  induction imported with
  | nil => exact pendingFrom_nil rows
  | cons row rest ih =>
    rw [map_cons, cons_append, pendingFrom, if_pos mem_cons_self, erase_cons_head, ih]

inductive Imported (args : Args) : List (List Row) → List Event → Prop where
  | none : Imported args [] []
  | next {segments : List (List Row)} {shard shard' : List Event} (segment : List Row) :
      Imported args segments shard →
      importMain args (some (segments.flatten ++ segment)) shard = .ok ⟨0, shard'⟩ →
      Imported args (segments ++ [segment]) shard'

theorem verifyAppendOnly_eq_nil_iff [DecidableEq α] (old new : List α) :
    verifyAppendOnly old new = [] ↔ old <+: new := by
  induction old generalizing new with
  | nil => simp [verifyAppendOnly]
  | cons a old ih =>
    cases new with
    | nil => simp [verifyAppendOnly]
    | cons b new =>
      rw [cons_prefix_cons, ← ih new]
      by_cases hab : a = b
      · rw [verifyAppendOnly, zip_cons_cons, any_cons, decide_eq_false (not_not.mpr hab),
          Bool.false_or]
        simp [verifyAppendOnly, hab]
      · simp [verifyAppendOnly, hab]

theorem verifyAppendOnly_append [DecidableEq α] (old added : List α) :
    verifyAppendOnly old (old ++ added) = [] :=
  (verifyAppendOnly_eq_nil_iff old _).mpr (prefix_append old added)

variable {args : Args} {events shard : List Event}

theorem publish_ok {newEvents : List Event} {quarantined : Bool} (hdry : args.dryRun = false)
    (h : publish args events newEvents quarantined = .ok ⟨0, shard⟩) :
    quarantined = false ∧ shard = events ++ newEvents.map reload := by
  rw [publish] at h
  split at h
  · cases h
  · cases hl : lint args.shard (events.map idText) newEvents with
    | error err =>
      rw [hl] at h
      cases h
    | ok problems =>
      rw [hl] at h
      simp only [bind, Except.bind, verifyAppendOnly_append, hdry, pure, Except.pure] at h
      split at h
      · cases h
      · cases quarantined with
        | true => cases h
        | false =>
          cases h
          exact ⟨rfl, rfl⟩

theorem importMain_ok {rows : List Row} (hdry : args.dryRun = false)
    (h : importMain args (some rows) events = .ok ⟨0, shard⟩) : ∃ newEvents,
      migrateLegacy args.team (highWater events).1 (highWater events).2
        (pending (rows.map (redactRow args.workspaceRoot)) (importedRows events)) = .ok newEvents ∧
      shard = events ++ newEvents.map reload := by
  rw [importMain] at h
  dsimp only at h
  generalize pending (rows.map (redactRow args.workspaceRoot)) (importedRows events) = todo at h ⊢
  split at h
  case isTrue htodo =>
    cases h
    exact ⟨[], by rw [htodo]; rfl, by simp⟩
  case isFalse =>
    split at h
    · cases h
    · split at h
      · cases h
      · cases hm : migrateLegacy args.team (highWater events).1 (highWater events).2
            (todo.filter fun row => ownerPathFields "" (.obj row.entries) = []) with
        | error err =>
          simp only [hm, bind, Except.bind] at h
          cases h
        | ok newEvents =>
          simp only [hm, bind, Except.bind] at h
          obtain ⟨hquarantined, hshard⟩ := publish_ok hdry h
          have hclean := not_not.mp (of_decide_eq_false hquarantined)
          rw [hclean] at hm
          exact ⟨newEvents, hm, hshard⟩

theorem imported_segmented (hdry : args.dryRun = false) {segments : List (List Row)}
    (h : Imported args segments shard) : ∃ keyed : List Keyed, (∀ segment ∈ keyed, segment.Valid) ∧
      keyed.map Keyed.rows = segments.map (List.map (redactRow args.workspaceRoot)) ∧
      shard = (segmented args.team 0 0 keyed).map reload := by
  induction h with
  | none => exact ⟨[], forall_mem_nil _, rfl, rfl⟩
  | @next segments shard shard' segment _ hmain ih =>
    obtain ⟨keyed, hvalid, hrows, rfl⟩ := ih
    obtain ⟨newEvents, hmigrate, rfl⟩ := importMain_ok hdry hmain
    have hlive : (segments.flatten ++ segment).map (redactRow args.workspaceRoot) =
        (keyed.map Keyed.rows).flatten ++ segment.map (redactRow args.workspaceRoot) := by
      rw [map_append, map_flatten, hrows]
    rw [hlive, pending, importedRows_segmented, pendingFrom_append, highWater_segmented] at hmigrate
    cases hkeys : (segment.map (redactRow args.workspaceRoot)).mapM rowKey with
    | error err =>
      rw [migrateLegacy, hkeys] at hmigrate
      cases hmigrate
    | ok keys =>
      obtain ⟨last, hlast, hlastRows, -⟩ := (mapM_rowKey_iff _ keys).mp hkeys
      rw [← hlastRows, migrateLegacy_eq _ _ _ hlast] at hmigrate
      cases hmigrate
      refine ⟨keyed ++ [last], ?_, ?_, ?_⟩
      · intro s hs
        rcases mem_append.mp hs with hs | hs
        · exact hvalid s hs
        · exact mem_singleton.mp hs ▸ hlast
      · rw [map_append, hrows, map_append, map_singleton, map_singleton, hlastRows]
      · rw [segmented_concat, map_append, Nat.zero_add, Nat.zero_add]

end DevHermit.Ledger
