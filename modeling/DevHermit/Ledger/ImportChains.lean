import DevHermit.Ledger.ImportRuns
import DevHermit.Lib.Check

namespace DevHermit.Ledger

open Lib Option List Json Grouping

def NoSplit (segments : List Keyed) : Prop :=
  segments.Pairwise fun earlier later => ∀ k ∈ later.keys, k ∉ earlier.keys

variable {k : RowKey} {segments : List Keyed}

theorem mem_keys_flatten :
    k ∈ Keyed.keys segments.flatten ↔ ∃ segment ∈ segments, k ∈ segment.keys := by
  rw [Keyed.keys, map_flatten, mem_flatten]
  simp [Keyed.keys]

theorem segmented_of_noSplit (team : String) (startRun startLegacy : Nat) (h : NoSplit segments) :
    segmented team startRun startLegacy segments =
      rowEvents team startRun startLegacy segments.flatten := by
  induction segments generalizing startRun startLegacy with
  | nil => rfl
  | cons segment rest ih =>
    rw [NoSplit, pairwise_cons] at h
    have hdisjoint : ∀ k ∈ Keyed.keys rest.flatten, k ∉ segment.keys := by
      intro k hk
      obtain ⟨later, hlater, hmem⟩ := mem_keys_flatten.mp hk
      exact h.1 later hlater k hmem
    rw [segmented, ih _ _ h.2, flatten_cons, rowEvents_append _ _ _ hdisjoint]

theorem runCount_flatten_cons (segment : Keyed) (rest : List Keyed) :
    runCount (segment :: rest).flatten = groupCount (segment.keys ++ Keyed.keys rest.flatten) := by
  rw [runCount, flatten_cons, keys_append]

theorem runCount_flatten_le (segments : List Keyed) :
    runCount segments.flatten ≤ runTotal segments := by
  induction segments with
  | nil => exact Nat.zero_le _
  | cons segment rest ih =>
    rw [runCount_flatten_cons]
    have hle := groupCount_append_le segment.keys (Keyed.keys rest.flatten)
    have hrest : groupCount (Keyed.keys rest.flatten) ≤ runTotal rest := ih
    have htotal : runTotal (segment :: rest) = groupCount segment.keys + runTotal rest := rfl
    omega

theorem runCount_flatten_lt (h : ¬ NoSplit segments) :
    runCount segments.flatten < runTotal segments := by
  induction segments with
  | nil => exact absurd .nil h
  | cons segment rest ih =>
    rw [NoSplit, pairwise_cons, not_and_or] at h
    rw [runCount_flatten_cons]
    have htotal : runTotal (segment :: rest) = groupCount segment.keys + runTotal rest := rfl
    rcases h with h | h
    · simp only [not_forall, not_not] at h
      obtain ⟨later, hlater, k, hk, hmem⟩ := h
      have hflat := mem_keys_flatten.mpr ⟨later, hlater, hk⟩
      have hlt := groupCount_append_lt hmem hflat
      have hle : groupCount (Keyed.keys rest.flatten) ≤ runTotal rest := runCount_flatten_le rest
      omega
    · have hle := groupCount_append_le segment.keys (Keyed.keys rest.flatten)
      have hlt : groupCount (Keyed.keys rest.flatten) < runTotal rest := ih h
      omega

section

variable (team : String) (startRun startLegacy : Nat) (keys : List RowKey) (i : Nat)
  (p : RowKey × Row)

theorem runId_rowEvent : runId (rowEvent team startRun startLegacy keys i p) =
      legacyRunId (startRun + groupIndex keys p.1) := by
  rw [runId, rowEvent, legacyEvent_get? rfl]
  rfl

theorem runId_reload_rowEvent : runId (reload (rowEvent team startRun startLegacy keys i p)) =
      legacyRunId (startRun + groupIndex keys p.1) := by
  rw [runId, get?_rowEvent_reload rfl]
  rfl

theorem eventId_reload : eventKey (reload (rowEvent team startRun startLegacy keys i p)) =
      toLex (legacyEmittedAt p.2,
        legacyEventId (startRun + groupIndex keys p.1) (position keys i p.1)) := by
  rw [eventKey, eventId, strGet, strGet, get?_rowEvent_reload rfl, get?_rowEvent_reload rfl]
  rfl

theorem eventKey_rowEvent : eventKey (rowEvent team startRun startLegacy keys i p) =
      toLex (legacyEmittedAt p.2,
        legacyEventId (startRun + groupIndex keys p.1) (position keys i p.1)) := by
  rw [eventKey, eventId, strGet, strGet, rowEvent, legacyEvent_get? rfl, legacyEvent_get? rfl]
  rfl

end

theorem exists_segmented_run (team : String) (startRun startLegacy : Nat) (segments : List Keyed)
    {g : Nat} (hlo : startRun ≤ g) (hhi : g < startRun + runTotal segments) :
    ∃ e ∈ (segmented team startRun startLegacy segments).map reload, runId e = legacyRunId g := by
  induction segments generalizing startRun startLegacy with
  | nil => exact absurd hhi (by simp [runTotal]; omega)
  | cons segment rest ih =>
    have htotal : runTotal (segment :: rest) = runCount segment + runTotal rest := rfl
    rw [segmented, map_append]
    rcases Nat.lt_or_ge g (startRun + runCount segment) with hg | hg
    · have hlt : g - startRun < groupCount segment.keys := by
        have hcount : runCount segment = groupCount segment.keys := rfl
        omega
      obtain ⟨k, hk, hindex⟩ := exists_groupIndex hlt
      obtain ⟨p, hp, rfl⟩ := List.mem_map.mp hk
      obtain ⟨i, hi⟩ := mem_iff_getElem?.mp hp
      refine ⟨reload (rowEvent team startRun startLegacy segment.keys i p),
        mem_append_left _ (List.mem_map_of_mem ?_), ?_⟩
      · refine mem_iff_getElem?.mpr ⟨i, ?_⟩
        rw [rowEvents, List.getElem?_mapIdx, hi, map_some]
      · rw [runId_reload_rowEvent, hindex]
        congr 1
        omega
    · obtain ⟨e, he, hid⟩ := ih (startRun + runCount segment) (startLegacy + segment.length) hg
        (by omega)
      exact ⟨e, mem_append_right _ he, hid⟩

theorem fold_isSome_iff (events : List Event) (id : String) :
    ((fold events).get? id).isSome = true ↔ ∃ e ∈ events, runId e = id := by
  rw [get?_fold]
  constructor
  · intro h
    split_ifs at h with hne
    · cases h
    · obtain ⟨e, he⟩ := exists_mem_of_ne_nil _ hne
      obtain ⟨hmem, hid⟩ := mem_runEvents.mp he
      exact ⟨e, hmem, hid⟩
  · rintro ⟨e, he, hid⟩
    rw [if_neg (ne_nil_of_mem (mem_runEvents.mpr ⟨he, hid⟩))]
    rfl

theorem lookup_map_snd {α β : Type} (f : α → β) (entries : List (String × α)) (k : String) :
    (entries.map fun entry => (entry.1, f entry.2)).lookup k = (entries.lookup k).map f := by
  induction entries with
  | nil => rfl
  | cons entry rest ih =>
    rw [map_cons, lookup_cons, lookup_cons]
    split
    · rfl
    · exact ih

theorem isSome_of_runsJson {runs runs' : Dict Run}
    (h : (runsJson runs).canonical = (runsJson runs').canonical) (id : String) :
    (runs.get? id).isSome = (runs'.get? id).isSome := by
  have hlookup := lookup_of_canonical h id
  rw [lookup_map_snd (fun run : Run => Json.obj run.entries),
    lookup_map_snd (fun run : Run => Json.obj run.entries)] at hlookup
  have hsome := congrArg isSome hlookup
  simpa [Dict.get?] using hsome

variable {team : String}

theorem noSplit_of_same_runs
    (h : (runsJson (fold ((segmented team 0 0 segments).map reload))).canonical =
      (runsJson (fold (rowEvents team 0 0 segments.flatten))).canonical) : NoSplit segments := by
  by_contra hsplit
  have hlt := runCount_flatten_lt hsplit
  obtain ⟨e, he, hid⟩ := exists_segmented_run team 0 0 segments (Nat.zero_le (runTotal segments - 1))
    (by omega)
  have hsome := (fold_isSome_iff _ _).mpr ⟨e, he, hid⟩
  rw [isSome_of_runsJson h] at hsome
  obtain ⟨f, hf, hfid⟩ := (fold_isSome_iff _ _).mp hsome
  obtain ⟨i, p, hp, rfl⟩ := mem_rowEvents hf
  rw [runId_rowEvent] at hfid
  have hindex := legacyRunId_injective hfid
  have hbound : groupIndex (Keyed.keys segments.flatten) p.1 < runCount segments.flatten :=
    groupIndex_lt (List.mem_map_of_mem (mem_of_getElem? hp))
  omega

theorem hashable_of_hashKey {j : Json} {key : ℚ ⊕ Json} (h : j.hashKey = .ok key) :
    j.hashable = true := by
  rw [hashKey] at h
  cases j with
  | arr items => cases h
  | obj fields => cases h
  | _ => rfl

theorem host_hashable {row : Row} {key : RowKey} (h : rowKey row = .ok key) :
    ((row.get? "host").getD .null).hashable = true := by
  rw [rowKey, legacyGroupKeys, mapM_cons] at h
  cases hhost : ((row.get? "host").getD .null).hashKey with
  | error err =>
    rw [hhost] at h
    cases h
  | ok hostKey => exact hashable_of_hashKey hhost

theorem canonical_reload (event : Event) : canonical (reload event) = canonical event :=
  canonical_idem (.obj event.entries)

theorem get?_reload_canonical (event : Event) (k : String) :
    (event.get? k).map Json.canonical = ((reload event).get? k).map Json.canonical := by
  rw [get?_reload, Option.map_map]
  cases event.get? k with
  | none => rfl
  | some v => exact congrArg some (canonical_idem v).symm

theorem alike_reload (team : String) (startRun startLegacy : Nat) (keys : List RowKey) (i : Nat)
    {p : RowKey × Row} (hp : rowKey p.2 = .ok p.1) :
    Alike (rowEvent team startRun startLegacy keys i p)
      (reload (rowEvent team startRun startLegacy keys i p)) := by
  refine ⟨⟨get?_reload_canonical _, fun k hk => ?_⟩, (canonical_reload _).symm, ?_, ?_⟩
  · rw [mem_cons, mem_singleton] at hk
    rcases hk with rfl | rfl
    · rw [get?_rowEvent_reload rfl, rowEvent, legacyEvent_get? rfl]
      rfl
    · rw [get?_rowEvent_reload rfl, rowEvent, legacyEvent_get? rfl,
        canonical_of_hashable (host_hashable hp)]
  · rw [runId_rowEvent, runId_reload_rowEvent]
  · rw [strGet, strGet, get?_rowEvent_reload rfl, rowEvent, legacyEvent_get? rfl]
    rfl

def SameKey (e f : Event) : Prop := Alike e f ∧ eventKey e = eventKey f

theorem orderedInsert_same {e f : Event} (hef : SameKey e f) {es fs : List Event}
    (h : List.Forall₂ SameKey es fs) :
    List.Forall₂ SameKey (es.orderedInsert (fun a b => eventKey a ≤ eventKey b) e)
      (fs.orderedInsert (fun a b => eventKey a ≤ eventKey b) f) := by
  induction h with
  | nil => exact .cons hef .nil
  | @cons a b rest rest' hab hrest ih =>
    rw [orderedInsert_cons, orderedInsert_cons, hef.2, hab.2]
    split
    · exact .cons hef (.cons hab hrest)
    · exact .cons hab ih

theorem sortEvents_same {es fs : List Event} (h : List.Forall₂ SameKey es fs) :
    List.Forall₂ SameKey (sortEvents es) (sortEvents fs) := by
  induction h with
  | nil => exact .nil
  | cons hef _ ih => exact orderedInsert_same hef ih

variable {keyed : Keyed}

theorem rowEvents_reload_same (team : String) (startRun startLegacy : Nat) (hvalid : keyed.Valid) :
    List.Forall₂ SameKey (rowEvents team startRun startLegacy keyed)
      ((rowEvents team startRun startLegacy keyed).map reload) := by
  rw [forall₂_map_right_iff, forall₂_same]
  intro e he
  obtain ⟨i, p, hp, rfl⟩ := mem_rowEvents he
  refine ⟨alike_reload _ _ _ _ _ (hvalid p (mem_of_getElem? hp)), ?_⟩
  rw [eventKey_rowEvent, eventId_reload]

theorem same_runs_of_valid (hvalid : keyed.Valid) :
    (runsJson (fold ((rowEvents team 0 0 keyed).map reload))).canonical =
      (runsJson (fold (rowEvents team 0 0 keyed))).canonical := by
  have hsorted := sortEvents_same (rowEvents_reload_same team 0 0 hvalid)
  have hempty : SameRuns .empty .empty := .nil
  exact (runsJson_canonical (foldl_foldEvent_same (hsorted.imp fun _ _ h => h.1) hempty)).symm

def chain (team : String) (keyed : Keyed) (k : RowKey) : List Event :=
  (members keyed.keys k).map fun i => reload (eventAt team 0 0 keyed i)

theorem groupIndex_inj {keys : List RowKey} {l : RowKey} (hk : k ∈ keys)
    (h : groupIndex keys l = groupIndex keys k) (hl : l ∈ keys) : l = k := by
  have hget := getElem?_groupIndex hl
  rw [h, getElem?_groupIndex hk] at hget
  exact (some.inj hget).symm

variable {i : Nat}

theorem exists_keyed_of_lt (hi : i < keyed.length) :
    ∃ p, keyed[i]? = some p ∧ p.1 ∈ keyed.keys ∧ keyed.keys[i]? = some p.1 := by
  have hget := List.getElem?_eq_getElem hi
  refine ⟨keyed[i], hget, List.mem_map_of_mem (getElem_mem hi), ?_⟩
  rw [Keyed.keys, List.getElem?_map, hget, map_some]

theorem filter_reload_eq_chain (team : String) (keyed : Keyed) (hk : k ∈ keyed.keys) :
    (((rowEvents team 0 0 keyed).map reload).filter fun e =>
      runId e = legacyRunId (groupIndex keyed.keys k)) = chain team keyed k := by
  rw [rowEvents_eq_map_range, List.map_map, List.filter_map, chain, members]
  have hlen : keyed.keys.length = keyed.length := length_map _
  rw [hlen]
  refine congrArg (List.map _) (filter_congr fun i hi => ?_)
  obtain ⟨p, hp, hmem, hkey⟩ := exists_keyed_of_lt (mem_range.mp hi)
  simp only [Function.comp, eventAt, hp, hkey]
  rw [decide_eq_decide, runId_reload_rowEvent, Nat.zero_add, some.injEq]
  constructor
  · intro h
    exact groupIndex_inj hk (legacyRunId_injective h) hmem
  · rintro rfl
    rfl

theorem runEvents_reload (team : String) (keyed : Keyed) (hk : k ∈ keyed.keys) :
    runEvents ((rowEvents team 0 0 keyed).map reload) (legacyRunId (groupIndex keyed.keys k)) =
      sortEvents (chain team keyed k) := by
  rw [runEvents, ← sortEvents_filter, filter_reload_eq_chain team keyed hk]

def emittedAt (keyed : Keyed) (i : Nat) : String :=
  (keyed[i]?.map fun p => legacyEmittedAt p.2).getD ""

def stamp (keyed : Keyed) (k : RowKey) (i : Nat) : String ×ₗ List Char :=
  toLex (emittedAt keyed i, padded 3 (position keyed.keys i k))

def Chained (keyed : Keyed) : Prop :=
  ∀ k ∈ keyed.keys, (members keyed.keys k).Pairwise fun i j => stamp keyed k i < stamp keyed k j

theorem append_lt_append_iff (common as bs : List Char) :
    common ++ as < common ++ bs ↔ as < bs := by
  constructor
  · intro h
    rcases lt_trichotomy as bs with hlt | rfl | hgt
    · exact hlt
    · exact absurd h (lt_irrefl _)
    · exact absurd h (append_left_lt hgt).asymm
  · exact append_left_lt

theorem legacyEventId_toList (g p : Nat) :
    (legacyEventId g p).toList = (legacyRunId g ++ "-").toList ++ padded 3 p := by
  rw [legacyEventId, String.toList_append, String.toList_ofList]

theorem legacyEventId_lt_iff (g p q : Nat) :
    legacyEventId g p < legacyEventId g q ↔ padded 3 p < padded 3 q := by
  rw [String.lt_iff_toList_lt, legacyEventId_toList, legacyEventId_toList, append_lt_append_iff]

theorem mem_members (h : i ∈ members keyed.keys k) : ∃ row, keyed[i]? = some (k, row) := by
  rw [members, mem_filter, decide_eq_true_iff, Keyed.keys, List.getElem?_map, map_eq_some_iff] at h
  obtain ⟨-, ⟨k', row⟩, hp, rfl⟩ := h
  exact ⟨row, hp⟩

theorem eventAt_of_mem (team : String) (h : i ∈ members keyed.keys k) :
    ∃ row, keyed[i]? = some (k, row) ∧
      eventAt team 0 0 keyed i = rowEvent team 0 0 keyed.keys i (k, row) := by
  obtain ⟨row, hrow⟩ := mem_members h
  exact ⟨row, hrow, by rw [eventAt, hrow]⟩

theorem eventKey_chain (h : i ∈ members keyed.keys k) :
    eventKey (reload (eventAt team 0 0 keyed i)) = toLex (emittedAt keyed i,
        legacyEventId (groupIndex keyed.keys k) (position keyed.keys i k)) := by
  obtain ⟨row, hrow, heq⟩ := eventAt_of_mem team h
  rw [heq, eventId_reload, emittedAt, hrow, Nat.zero_add]
  rfl

variable {j : Nat}

theorem eventKey_lt_iff (hi : i ∈ members keyed.keys k) (hj : j ∈ members keyed.keys k) :
    eventKey (reload (eventAt team 0 0 keyed i)) < eventKey (reload (eventAt team 0 0 keyed j)) ↔
      stamp keyed k i < stamp keyed k j := by
  rw [eventKey_chain hi, eventKey_chain hj, stamp, stamp, Prod.Lex.toLex_lt_toLex,
    Prod.Lex.toLex_lt_toLex, legacyEventId_lt_iff]

theorem position_injOn {keys : List RowKey} (hi : i ∈ members keys k) (hj : j ∈ members keys k)
    (h : position keys i k = position keys j k) : i = j := by
  rw [members, mem_filter, decide_eq_true_iff] at hi hj
  have hget := getElem?_members_position hi.2
  rw [h, getElem?_members_position hj.2] at hget
  exact (some.inj hget).symm

theorem stamp_ne (hi : i ∈ members keyed.keys k) (hj : j ∈ members keyed.keys k) (hne : i ≠ j) :
    stamp keyed k i ≠ stamp keyed k j := by
  intro h
  have hpad : padded 3 (position keyed.keys i k) = padded 3 (position keyed.keys j k) :=
    congrArg (fun s => (ofLex s).2) h
  exact hne (position_injOn hi hj (padded_injective 3 hpad))

theorem sortEvents_chain_iff (team : String) (keyed : Keyed) (k : RowKey) :
    sortEvents (chain team keyed k) = chain team keyed k ↔
      (members keyed.keys k).Pairwise fun i j => stamp keyed k i < stamp keyed k j := by
  constructor
  · intro h
    have hsorted : (chain team keyed k).Pairwise fun e f => eventKey e ≤ eventKey f :=
      h ▸ pairwise_insertionSort _ _
    rw [chain, pairwise_map] at hsorted
    refine (hsorted.and (nodup_range.filter _)).imp_of_mem fun {i j} hi hj hij => ?_
    rcases lt_trichotomy (stamp keyed k i) (stamp keyed k j) with hlt | heq | hgt
    · exact hlt
    · exact absurd heq (stamp_ne hi hj hij.2)
    · exact absurd hij.1 (not_le.mpr ((eventKey_lt_iff hj hi).mpr hgt))
  · intro h
    apply sortEvents_of_increasing
    rw [chain, pairwise_map]
    exact h.imp_of_mem fun {i j} hi hj hij => (eventKey_lt_iff hi hj).mpr hij

def legacyMark (event : Event) : Option Json × Option Json :=
  (event.get? "legacy_index", event.get? "event_type")

def expectedMark (p i : Nat) : Option Json × Option Json :=
  (some (.int i), some (.str (if p = 0 then "run.result" else "run.enrich")))

theorem legacyMark_chain (team : String) (h : i ∈ members keyed.keys k) :
    legacyMark (reload (eventAt team 0 0 keyed i)) = expectedMark (position keyed.keys i k) i := by
  obtain ⟨row, -, heq⟩ := eventAt_of_mem team h
  rw [heq, legacyMark, get?_rowEvent_reload rfl, get?_rowEvent_reload rfl, Nat.zero_add]
  rfl

theorem map_legacyMark_chain (team : String) (keyed : Keyed) (k : RowKey) :
    (chain team keyed k).map legacyMark = (members keyed.keys k).mapIdx expectedMark := by
  rw [chain, List.map_map]
  apply ext_getElem?
  intro p
  rw [List.getElem?_map, List.getElem?_mapIdx]
  cases hp : (members keyed.keys k)[p]? with
  | none => rfl
  | some i =>
    have hmark := legacyMark_chain team (mem_of_getElem? hp)
    rw [(position_of_getElem?_members hp).2] at hmark
    exact congrArg some hmark

theorem legacyMark_injOn {e f : Event} (he : e ∈ chain team keyed k) (hf : f ∈ chain team keyed k)
    (h : legacyMark e = legacyMark f) : e = f := by
  obtain ⟨i, hi, rfl⟩ := List.mem_map.mp he
  obtain ⟨j, hj, rfl⟩ := List.mem_map.mp hf
  rw [legacyMark_chain team hi, legacyMark_chain team hj] at h
  have hint := int.inj (some.inj (congrArg Prod.fst h))
  rw [Int.ofNat_inj.mp hint]

theorem runEvents_in_ledger_order_iff (team : String) (keyed : Keyed) (hk : k ∈ keyed.keys) :
    (runEvents ((rowEvents team 0 0 keyed).map reload)
      (legacyRunId (groupIndex keyed.keys k))).map legacyMark =
        (members keyed.keys k).mapIdx expectedMark ↔
      (members keyed.keys k).Pairwise fun i j => stamp keyed k i < stamp keyed k j := by
  rw [runEvents_reload team keyed hk, ← sortEvents_chain_iff team, ← map_legacyMark_chain team]
  constructor
  · intro h
    have hmem := fun e => (sortEvents_perm (chain team keyed k)).mem_iff (a := e)
    have heq := forall₂_of_map_eq h fun e he f hf hmark =>
      legacyMark_injOn ((hmem e).mp he) hf hmark
    exact forall₂_eq_eq_eq ▸ heq
  · intro h
    rw [h]

def lastSet (values : List Json) : Json := (values.reverse.find? (· ≠ .null)).getD .null

theorem lastSet_concat (values : List Json) (v : Json) :
    lastSet (values ++ [v]) = if v = .null then lastSet values else v := by
  rw [lastSet, reverse_append, reverse_singleton, singleton_append, List.find?_cons]
  by_cases hv : v = .null
  · simp [hv, lastSet]
  · simp [hv]

theorem value_concat (key : String) (events : List Event) (event : Event) :
    value key (events ++ [event]) =
      if overrides event then (supplied key event).or (value key events)
      else (value key events).or (supplied key event) := by
  rw [← get?_foldl_applyEvent, foldl_append, foldl_cons, foldl_nil,
    get?_applyEvent_supplied, get?_foldl_applyEvent]

theorem value_enriched {key : String} (hkey : ∀ e, payloadGet e key = e.get? key) {first : Event}
    (hfirst : eventType first = .str "run.result") (hset : (first.get? key).isSome = true)
    {rest : List Event} (hrest : ∀ e ∈ rest, eventType e = .str "run.enrich") :
    value key (first :: rest) =
      some (lastSet ((first :: rest).map fun e => (e.get? key).getD .null)) := by
  induction rest using List.reverseRecOn with
  | nil =>
    obtain ⟨v, hv⟩ := isSome_iff_exists.mp hset
    have hdefaults : ¬ overrides first = true := by simp [overrides, hfirst]
    have hvalue := value_concat key [] first
    rw [if_neg hdefaults] at hvalue
    rw [nil_append] at hvalue
    rw [hvalue, supplied, if_pos hfirst, hv]
    by_cases hnull : v = .null <;> simp [value, supplier, lastSet, hv, hnull]
  | append_singleton rest e ih =>
    have henrich := hrest e (by simp)
    have hresult : ¬ eventType e = .str "run.result" := by rw [henrich]; simp
    have hoverrides : overrides e = true := by simp [overrides, henrich]
    have hold := ih fun f hf => hrest f (mem_append_left _ hf)
    rw [← cons_append, value_concat, if_pos hoverrides, hold, map_append,
      map_singleton, lastSet_concat, supplied, if_neg hresult, if_pos henrich, hkey]
    cases he : e.get? key with
    | none => simp
    | some v => by_cases hnull : v = .null <;> simp [hnull, filter_some]

def rowResult (keyed : Keyed) (i : Nat) : Json :=
  (keyed[i]?.map fun p => ((p.2.get? "result").getD .null).canonical).getD .null

theorem outcome_chain (team : String) (h : i ∈ members keyed.keys k) :
    (reload (eventAt team 0 0 keyed i)).get? "outcome" = some (rowResult keyed i) := by
  obtain ⟨row, hrow, heq⟩ := eventAt_of_mem team h
  rw [heq, get?_rowEvent_reload rfl, rowResult, hrow]
  rfl

theorem eventType_chain (team : String) {p : Nat} (h : (members keyed.keys k)[p]? = some i) :
    eventType (reload (eventAt team 0 0 keyed i)) =
      .str (if p = 0 then "run.result" else "run.enrich") := by
  have hmark := congrArg Prod.snd (legacyMark_chain team (mem_of_getElem? h))
  rw [(position_of_getElem?_members h).2] at hmark
  have htype : (reload (eventAt team 0 0 keyed i)).get? "event_type" =
      some (.str (if p = 0 then "run.result" else "run.enrich")) := hmark
  rw [eventType, htype, getD_some]

theorem value_outcome_chain (team : String) (hk : k ∈ keyed.keys) :
    value "outcome" (chain team keyed k) =
      some (lastSet ((members keyed.keys k).map (rowResult keyed))) := by
  have hvalues : (chain team keyed k).map (fun e => (e.get? "outcome").getD .null) =
      (members keyed.keys k).map (rowResult keyed) := by
    rw [chain, List.map_map]
    refine map_congr_left fun i hi => ?_
    simp only [Function.comp, outcome_chain team hi, getD_some]
  rw [← hvalues, chain]
  cases hm : members keyed.keys k with
  | nil => exact absurd hm (members_ne_nil hk)
  | cons i rest =>
    have hzero : (members keyed.keys k)[0]? = some i := by rw [hm]; rfl
    rw [map_cons]
    refine value_enriched (fun _ => if_neg (by decide)) (eventType_chain team hzero) ?_ fun e he => ?_
    · rw [outcome_chain team (mem_of_getElem? hzero)]
      rfl
    · obtain ⟨j, hj, rfl⟩ := List.mem_map.mp he
      obtain ⟨p, hp⟩ := mem_iff_getElem?.mp hj
      have hsucc : (members keyed.keys k)[p + 1]? = some j := by rw [hm]; exact hp
      exact eventType_chain team hsucc

structure WholeImport (keyed : Keyed) (migrated shard : List Event) : Prop where
  sameRuns : (runsJson (fold shard)).canonical = (runsJson (fold migrated)).canonical
  runPerKey : ∀ id, ((fold shard).get? id).isSome = true ↔
    ∃ k ∈ keyed.keys, id = legacyRunId (groupIndex keyed.keys k)
  ledgerOrder : ∀ k ∈ keyed.keys,
    (runEvents shard (legacyRunId (groupIndex keyed.keys k))).map legacyMark =
      (members keyed.keys k).mapIdx expectedMark
  outcome : ∀ k ∈ keyed.keys, ∀ run,
    (fold shard).get? (legacyRunId (groupIndex keyed.keys k)) = some run →
      run.get? "outcome" = some (lastSet ((members keyed.keys k).map (rowResult keyed)))

theorem runPerKey_reload (team : String) (keyed : Keyed) (id : String) :
    ((fold ((rowEvents team 0 0 keyed).map reload)).get? id).isSome = true ↔
      ∃ k ∈ keyed.keys, id = legacyRunId (groupIndex keyed.keys k) := by
  rw [fold_isSome_iff]
  constructor
  · rintro ⟨e, he, rfl⟩
    obtain ⟨e', he', rfl⟩ := List.mem_map.mp he
    obtain ⟨i, p, hp, rfl⟩ := mem_rowEvents he'
    refine ⟨p.1, List.mem_map_of_mem (mem_of_getElem? hp), ?_⟩
    rw [runId_reload_rowEvent, Nat.zero_add]
  · rintro ⟨k, hk, rfl⟩
    obtain ⟨p, hp, rfl⟩ := List.mem_map.mp hk
    obtain ⟨i, hi⟩ := mem_iff_getElem?.mp hp
    refine ⟨reload (rowEvent team 0 0 keyed.keys i p), List.mem_map_of_mem ?_, ?_⟩
    · refine mem_iff_getElem?.mpr ⟨i, ?_⟩
      rw [rowEvents, List.getElem?_mapIdx, hi, map_some]
    · rw [runId_reload_rowEvent, Nat.zero_add]

theorem wholeImport_of_chained (hvalid : keyed.Valid) (hchained : Chained keyed) :
    WholeImport keyed (rowEvents team 0 0 keyed) ((rowEvents team 0 0 keyed).map reload) where
  sameRuns := same_runs_of_valid hvalid
  runPerKey := runPerKey_reload team keyed
  ledgerOrder := fun k hk => (runEvents_in_ledger_order_iff team keyed hk).mpr (hchained k hk)
  outcome := fun k hk run hrun => by
    rw [fold_field hrun, runEvents_reload team keyed hk,
      (sortEvents_chain_iff team keyed k).mpr (hchained k hk), value_outcome_chain team hk]

theorem imports_match_whole_migration {args : Args} (hdry : args.dryRun = false)
    {segments : List (List Row)} {shard : List Event} (h : Imported args segments shard) :
    ∃ (keyed : List Keyed) (migrated : List Event),
      (∀ segment ∈ keyed, segment.Valid) ∧
      keyed.map Keyed.rows = segments.map (List.map (redactRow args.workspaceRoot)) ∧
      migrateLegacy args.team 0 0 (segments.flatten.map (redactRow args.workspaceRoot)) =
        .ok migrated ∧
      (WholeImport keyed.flatten migrated shard ↔ NoSplit keyed ∧ Chained keyed.flatten) := by
  obtain ⟨keyed, hvalid, hrows, rfl⟩ := imported_segmented hdry h
  have hflat : Keyed.Valid keyed.flatten := by
    intro p hp
    obtain ⟨segment, hsegment, hmem⟩ := mem_flatten.mp hp
    exact hvalid segment hsegment p hmem
  have hlive : segments.flatten.map (redactRow args.workspaceRoot) = Keyed.rows keyed.flatten := by
    rw [map_flatten, ← hrows, Keyed.rows, map_flatten]
    rfl
  refine ⟨keyed, rowEvents args.team 0 0 keyed.flatten, hvalid, hrows, ?_, ?_⟩
  · rw [hlive, migrateLegacy_eq _ _ _ hflat]
  · constructor
    · intro hwhole
      have hsplit := noSplit_of_same_runs hwhole.sameRuns
      refine ⟨hsplit, fun k hk => ?_⟩
      have horder := hwhole.ledgerOrder k hk
      rw [segmented_of_noSplit _ _ _ hsplit] at horder
      exact (runEvents_in_ledger_order_iff args.team keyed.flatten hk).mp horder
    · rintro ⟨hsplit, hchained⟩
      rw [segmented_of_noSplit _ _ _ hsplit]
      exact wholeImport_of_chained hflat hchained

def importArgs : Args :=
  ⟨⟨["ledger", "hermit", "hosta"], "2026-08.jsonl"⟩, "hermit", "/work/dev-hermit", false, false⟩

def rowAt (commit : String) (result : Json) (checks : Int) : Row :=
  ⟨[("host", .str "hosta"), ("started_at", .str "2026-08-03T18:30:22Z"),
    ("finished_at", .str "2026-08-03T18:38:32Z"), ("commit", .str commit), ("result", result),
    ("checks", .int checks)], by simp⟩

def ledgerRow : Json → Int → Row := rowAt "469a0f92"

theorem padded_three_lt {p q : Nat} (hpq : p < q) (hq : q < 1000) : padded 3 p < padded 3 q := by
  have hstep : ∀ n < 999, padded 3 n < padded 3 (n + 1) := by decide +kernel
  induction q with
  | zero => cases hpq
  | succ q ih =>
    have hlast := hstep q (by omega)
    rcases Nat.lt_succ_iff_lt_or_eq.mp hpq with hlt | rfl
    · exact (ih hlt (by omega)).trans hlast
    · exact hlast

theorem one_timestamp_run_keeps_order_iff (team : String) {keyed : Keyed} (hvalid : keyed.Valid)
    (hk : k ∈ keyed.keys) {text : String}
    (htext : ∀ i ∈ members keyed.keys k, emittedAt keyed i = text) :
    ∃ migrated, migrateLegacy team 0 0 keyed.rows = .ok migrated ∧
      ((runEvents (migrated.map reload) (legacyRunId (groupIndex keyed.keys k))).map legacyMark =
        (members keyed.keys k).mapIdx expectedMark ↔ (members keyed.keys k).length ≤ 1000) := by
  refine ⟨_, migrateLegacy_eq team 0 0 hvalid, ?_⟩
  have hstamp : ∀ p (hp : p < (members keyed.keys k).length),
      stamp keyed k (members keyed.keys k)[p] = toLex (text, padded 3 p) := by
    intro p hp
    rw [stamp, htext _ (getElem_mem hp),
      (position_of_getElem?_members (List.getElem?_eq_getElem hp)).2]
  rw [runEvents_in_ledger_order_iff team keyed hk, pairwise_iff_getElem]
  constructor
  · intro h
    by_contra hlong
    have hlt := h 999 1000 (by omega) (by omega) (by omega)
    rw [hstamp, hstamp, Prod.Lex.toLex_lt_toLex] at hlt
    rcases hlt with hlt | ⟨-, hlt⟩
    · exact lt_irrefl _ hlt
    · have hno : ¬ padded 3 999 < padded 3 1000 := by decide +kernel
      exact hno hlt
  · intro hshort p q hp hq hpq
    rw [hstamp, hstamp, Prod.Lex.toLex_lt_toLex]
    exact Or.inr ⟨rfl, padded_three_lt hpq (by omega)⟩

def rowsKey : RowKey := (rowKey (ledgerRow .null 7)).toOption.getD []

def twoRows : Keyed := [(rowsKey, ledgerRow .null 7), (rowsKey, ledgerRow .null 9)]

theorem two_rows_keep_order : ∃ migrated, migrateLegacy "hermit" 0 0 twoRows.rows = .ok migrated ∧
    (runEvents (migrated.map reload) (legacyRunId (groupIndex twoRows.keys rowsKey))).map
      legacyMark = (members twoRows.keys rowsKey).mapIdx expectedMark := by
  obtain ⟨migrated, hmigrated, hiff⟩ := one_timestamp_run_keeps_order_iff "hermit"
    (show ∀ p ∈ twoRows, rowKey p.2 = .ok p.1 by decide +kernel) mem_cons_self
    (by decide +kernel : ∀ i ∈ _, _ = "2026-08-03T18:38:32Z")
  exact ⟨migrated, hmigrated, hiff.mpr (by decide +kernel)⟩

theorem split_chain_imports_as_two_runs :
    let rows := [ledgerRow (.str "pass") 7, ledgerRow (.str "fail") 9]
    ((importMain importArgs (some [ledgerRow (.str "pass") 7]) []).bind fun first =>
        importMain importArgs (some rows) first.shard).map
          (fun second => (second.exit, (fold second.shard).entries.map fun entry =>
            (entry.1, entry.2.get? "outcome"))) =
      .ok (0, [("legacy-000000", some (.str "pass")), ("legacy-000001", some (.str "fail"))]) ∧
    (migrateLegacy "hermit" 0 0 rows).map (fun events => (fold events).entries.map fun entry =>
        (entry.1, entry.2.get? "outcome")) =
      .ok [("legacy-000000", some (.str "fail"))] := by
  decide +kernel

theorem imported_twice {args : Args} {rows added : List Row}
    (h : ((importMain args (some rows) []).bind fun first =>
      (importMain args (some (rows ++ added)) first.shard).map fun second =>
        (first.exit, second.exit)) = .ok (0, 0)) :
    ∃ middle shard, importMain args (some rows) [] = .ok ⟨0, middle⟩ ∧
      importMain args (some (rows ++ added)) middle = .ok ⟨0, shard⟩ := by
  obtain ⟨⟨exit, middle⟩, hfirst, h⟩ := bind_eq_ok.mp h
  cases hsecond : importMain args (some (rows ++ added)) middle with
  | error err =>
    rw [hsecond] at h
    cases h
  | ok outcome =>
    obtain ⟨last, shard⟩ := outcome
    rw [hsecond] at h
    cases h
    exact ⟨middle, shard, hfirst, hsecond⟩

def firstRows : List Row := [ledgerRow (.str "pass") 7, ledgerRow .null 9]

def otherRow : Row := rowAt "0b1c2d3e" (.str "fail") 4

def keyedOf (rows : List Row) : Keyed := rows.map fun row => ((rowKey row).toOption.getD [], row)

theorem keyedOf_rows {keyed : Keyed} (h : keyed.Valid) : keyedOf keyed.rows = keyed := by
  rw [keyedOf, Keyed.rows, List.map_map]
  refine (map_congr_left fun p hp => ?_).trans (List.map_id _)
  simp [h p hp, Except.toOption]

theorem map_keyedOf_rows {keyed : List Keyed} (h : ∀ segment ∈ keyed, segment.Valid) :
    (keyed.map Keyed.rows).map keyedOf = keyed := by
  rw [List.map_map]
  exact (map_congr_left fun segment hs => keyedOf_rows (h segment hs)).trans (List.map_id _)

theorem two_imports_match_whole_migration :
    ∃ shard migrated, Imported importArgs [firstRows, [otherRow]] shard ∧
      migrateLegacy "hermit" 0 0 ((firstRows ++ [otherRow]).map (redactRow "/work/dev-hermit")) =
        .ok migrated ∧
      WholeImport (keyedOf ((firstRows ++ [otherRow]).map (redactRow "/work/dev-hermit"))) migrated
        shard := by
  obtain ⟨middle, shard, hfirst, hsecond⟩ := @imported_twice importArgs firstRows [otherRow]
    (by decide +kernel)
  have himported : Imported importArgs [firstRows, [otherRow]] shard :=
    .next [otherRow] (.next firstRows .none hfirst) hsecond
  obtain ⟨keyed, migrated, hvalid, hrows, hmigrated, hiff⟩ :=
    imports_match_whole_migration rfl himported
  have hkeyed := map_keyedOf_rows hvalid
  rw [hrows] at hkeyed
  subst hkeyed
  refine ⟨shard, migrated, himported, hmigrated, hiff.mpr ⟨?_, ?_⟩⟩
  · have hsplit : (([firstRows, [otherRow]].map (List.map (redactRow "/work/dev-hermit"))).map
        keyedOf).Pairwise fun earlier later => ∀ k ∈ later.keys, ∀ k' ∈ earlier.keys, k ≠ k' := by
      decide +kernel
    exact hsplit.imp fun h k hk hk' => h k hk k hk' rfl
  · simp only [Chained, stamp, Prod.Lex.toLex_lt_toLex]
    decide +kernel

end DevHermit.Ledger
