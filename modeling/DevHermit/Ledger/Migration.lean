import DevHermit.Ledger.Import
import DevHermit.Ledger.Provenance

namespace DevHermit.Ledger

open Lib List Option Grouping

abbrev Keyed := List (RowKey × Row)

def Keyed.keys (keyed : Keyed) : List RowKey := keyed.map Prod.fst

def Keyed.rows (keyed : Keyed) : List Row := keyed.map Prod.snd

def Keyed.Valid (keyed : Keyed) : Prop := ∀ p ∈ keyed, rowKey p.2 = .ok p.1

def rowEvent (team : String) (startRun startLegacy : Nat) (keys : List RowKey) (i : Nat)
    (keyed : RowKey × Row) : Event :=
  legacyEvent team (startRun + groupIndex keys keyed.1) (position keys i keyed.1) keyed.2
    (startLegacy + i)

def rowEvents (team : String) (startRun startLegacy : Nat) (keyed : Keyed) : List Event :=
  keyed.mapIdx fun i p => rowEvent team startRun startLegacy keyed.keys i p

theorem mapM_rowKey_iff (rows : List Row) (keys : List RowKey) : rows.mapM rowKey = .ok keys ↔
      ∃ keyed : Keyed, keyed.Valid ∧ keyed.rows = rows ∧ keyed.keys = keys := by
  induction rows generalizing keys with
  | nil =>
    constructor
    · intro h
      cases h
      exact ⟨[], forall_mem_nil _, rfl, rfl⟩
    · rintro ⟨keyed, -, hrows, rfl⟩
      rw [Keyed.rows, map_eq_nil_iff] at hrows
      rw [hrows]
      rfl
  | cons row rest ih =>
    rw [mapM_cons]
    constructor
    · intro h
      cases hk : rowKey row with
      | error err =>
        rw [hk] at h
        cases h
      | ok key =>
        rw [hk] at h
        cases hr : rest.mapM rowKey with
        | error err =>
          rw [hr] at h
          cases h
        | ok others =>
          rw [hr] at h
          cases h
          obtain ⟨keyed, hvalid, hrows, hkeys⟩ := (ih others).mp hr
          refine ⟨(key, row) :: keyed, forall_mem_cons.mpr ⟨hk, hvalid⟩, ?_, ?_⟩
          · exact congrArg (row :: ·) hrows
          · exact congrArg (key :: ·) hkeys
    · rintro ⟨keyed, hvalid, hrows, rfl⟩
      cases keyed with
      | nil => cases hrows
      | cons p others =>
        obtain ⟨rfl, hothers⟩ := List.cons.inj hrows
        obtain ⟨hp, hvalid'⟩ := forall_mem_cons.mp hvalid
        rw [hp, (ih (Keyed.keys others)).mpr ⟨others, hvalid', hothers, rfl⟩]
        rfl

def assignments (team : String) (startRun startLegacy : Nat) (keyed : Keyed) : List (Nat × Event) :=
  (groups keyed.keys).zipIdx.flatMap fun group =>
    group.1.2.zipIdx.filterMap fun member =>
      keyed.rows[member.1]?.map fun row =>
        (member.1, legacyEvent team (startRun + group.2) member.2 row (startLegacy + member.1))

def eventAt (team : String) (startRun startLegacy : Nat) (keyed : Keyed) (i : Nat) : Event :=
  match keyed[i]? with
  | some p => rowEvent team startRun startLegacy keyed.keys i p
  | none => .empty

variable {i : Nat} {keyed : Keyed} {row : Row}

theorem getElem?_split {k : RowKey} (hk : keyed.keys[i]? = some k)
    (hrow : keyed.rows[i]? = some row) : keyed[i]? = some (k, row) := by
  rw [Keyed.keys, List.getElem?_map] at hk
  rw [Keyed.rows, List.getElem?_map] at hrow
  cases hp : keyed[i]? with
  | none =>
    rw [hp] at hk
    cases hk
  | some p =>
    rw [hp] at hk hrow
    rw [← Option.some.inj hk, ← Option.some.inj hrow]

variable {team : String}

theorem mem_assignments {startRun startLegacy : Nat} {q : Nat × Event}
    (h : q ∈ assignments team startRun startLegacy keyed) :
    q.2 = eventAt team startRun startLegacy keyed q.1 := by
  obtain ⟨⟨⟨k, ms⟩, g⟩, hgroup, hq⟩ := mem_flatMap.mp h
  obtain ⟨⟨i, pos⟩, hmember, hrow⟩ := mem_filterMap.mp hq
  rw [map_eq_some_iff] at hrow
  obtain ⟨row, hrow, rfl⟩ := hrow
  rw [mk_mem_zipIdx_iff_getElem?, groups_eq, List.getElem?_map, map_eq_some_iff] at hgroup
  obtain ⟨k', hk', heq⟩ := hgroup
  cases heq
  rw [mk_mem_zipIdx_iff_getElem?] at hmember
  obtain ⟨hkey, hpos⟩ := position_of_getElem?_members hmember
  rw [eventAt, getElem?_split hkey hrow]
  dsimp only
  rw [rowEvent, hpos, groupIndex_of_getElem? hk']

variable (team : String)

theorem assignments_cover (startRun startLegacy : Nat) (keyed : Keyed)
    (hi : i < keyed.rows.length) : ∃ q ∈ assignments team startRun startLegacy keyed, q.1 = i := by
  have hi' : i < keyed.keys.length := by rwa [Keyed.keys, length_map, ← length_map (f := Prod.snd)]
  have hkey := List.getElem?_eq_getElem hi'
  have hmem := mem_of_getElem? hkey
  have hgroup : ((keyed.keys[i], members keyed.keys keyed.keys[i]),
      groupIndex keyed.keys keyed.keys[i]) ∈ (groups keyed.keys).zipIdx := by
    rw [mk_mem_zipIdx_iff_getElem?, groups_eq, List.getElem?_map, getElem?_groupIndex hmem,
      map_some]
  have hmember : (i, position keyed.keys i keyed.keys[i]) ∈
      (members keyed.keys keyed.keys[i]).zipIdx := by
    rw [mk_mem_zipIdx_iff_getElem?]
    exact getElem?_members_position hkey
  refine ⟨(i, legacyEvent team (startRun + groupIndex keyed.keys keyed.keys[i])
    (position keyed.keys i keyed.keys[i]) keyed.rows[i] (startLegacy + i)), ?_, rfl⟩
  refine mem_flatMap.mpr ⟨_, hgroup, mem_filterMap.mpr ⟨_, hmember, ?_⟩⟩
  rw [List.getElem?_eq_getElem hi, map_some]

theorem rowEvents_eq_map_range (startRun startLegacy : Nat) (keyed : Keyed) :
    rowEvents team startRun startLegacy keyed =
      (List.range keyed.length).map (eventAt team startRun startLegacy keyed) := by
  apply ext_getElem?
  intro i
  rw [rowEvents, List.getElem?_mapIdx, List.getElem?_map]
  rcases Nat.lt_or_ge i keyed.length with hi | hi
  · rw [List.getElem?_range hi, List.getElem?_eq_getElem hi, map_some, map_some,
      eventAt, List.getElem?_eq_getElem hi]
  · rw [List.getElem?_eq_none hi, List.getElem?_eq_none (by rwa [length_range])]
    rfl

theorem migrateLegacy_eq (startRun startLegacy : Nat) (hvalid : keyed.Valid) :
    migrateLegacy team startRun startLegacy keyed.rows =
      .ok (rowEvents team startRun startLegacy keyed) := by
  have hkeys := (mapM_rowKey_iff keyed.rows keyed.keys).mpr ⟨keyed, hvalid, rfl, rfl⟩
  have hscatter : scatter keyed.rows.length (assignments team startRun startLegacy keyed) =
      (List.range keyed.rows.length).map fun i =>
        some (eventAt team startRun startLegacy keyed i) :=
    scatter_eq (fun q hq => mem_assignments hq)
      fun i hi => assignments_cover team startRun startLegacy keyed hi
  have hlen : keyed.rows.length = keyed.length := length_map _
  rw [migrateLegacy, hkeys]
  show Except.ok (scatter _ _).reduceOption = _
  rw [Pairwise.insertionSort_eq (r := fun a b => firstMember a ≤ firstMember b)
    (groups_pairwise_head _)]
  show Except.ok (scatter _ (assignments team startRun startLegacy keyed)).reduceOption = _
  rw [hscatter, reduceOption, filterMap_map, rowEvents_eq_map_range, ← hlen]
  exact congrArg Except.ok (congrFun filterMap_eq_map _)

theorem keys_append (as bs : Keyed) : Keyed.keys (as ++ bs) = as.keys ++ bs.keys := map_append

def runCount (keyed : Keyed) : Nat := groupCount keyed.keys

theorem rowEvents_append (startRun startLegacy : Nat) {as bs : Keyed}
    (hdisjoint : ∀ k ∈ bs.keys, k ∉ as.keys) : rowEvents team startRun startLegacy (as ++ bs) =
      rowEvents team startRun startLegacy as ++
        rowEvents team (startRun + runCount as) (startLegacy + as.length) bs := by
  have hleft : as.mapIdx (fun i p => rowEvent team startRun startLegacy (Keyed.keys (as ++ bs)) i p) =
      rowEvents team startRun startLegacy as := by
    refine mapIdx_eq_mapIdx_iff.mpr fun i hi => ?_
    have hmem : as[i].1 ∈ as.keys := List.mem_map_of_mem (getElem_mem hi)
    rw [rowEvent, rowEvent, keys_append, groupIndex_append_left hmem,
      position_append_left (by rw [Keyed.keys, length_map]; exact hi.le)]
  have hright : bs.mapIdx (fun i p =>
        rowEvent team startRun startLegacy (Keyed.keys (as ++ bs)) (i + as.length) p) =
      rowEvents team (startRun + runCount as) (startLegacy + as.length) bs := by
    refine mapIdx_eq_mapIdx_iff.mpr fun i hi => ?_
    have hmem : bs[i].1 ∈ bs.keys := List.mem_map_of_mem (getElem_mem hi)
    have hlen : i + as.length = as.keys.length + i := by rw [Keyed.keys, length_map, Nat.add_comm]
    have hpos : position (as.keys ++ bs.keys) (i + as.length) bs[i].1 =
        position bs.keys i bs[i].1 := by
      rw [hlen, position_append_right (hdisjoint _ hmem)]
    have hrun : startRun + groupIndex (as.keys ++ bs.keys) bs[i].1 =
        startRun + runCount as + groupIndex bs.keys bs[i].1 := by
      rw [groupIndex_append_right hdisjoint hmem, runCount, Nat.add_assoc]
    have hindex : startLegacy + (i + as.length) = startLegacy + as.length + i := by omega
    rw [rowEvent, rowEvent, keys_append, hpos, hrun, hindex]
  rw [rowEvents, mapIdx_append, hleft, hright]

theorem legacyEvent_get? {team k : String} {run position legacyIndex : Nat} {v : Json}
    (h : (legacyFields team run position row legacyIndex).lookup k = some v) :
    (legacyEvent team run position row legacyIndex).get? k = some v := by
  rw [Dict.get?, legacyEvent, lookup_append, h, some_or]

def reload (event : Event) : Event := event.canonicalDict

theorem get?_reload (event : Event) (k : String) :
    (reload event).get? k = (event.get? k).map Json.canonical :=
  event.get?_canonicalDict k

end DevHermit.Ledger
