import DevHermit.TestSelection.Closure

namespace DevHermit.TestSelection

open Lib List

def Inert (path : String) : Prop := ∃ r, firstRule path = some r ∧ r.action = .irrelevant

def Unmapped (path : String) : Prop :=
  firstRule path = none ∨ ∃ r, firstRule path = some r ∧ r.action = .full

def Mapped (path id : String) : Prop :=
  ∃ r ids, firstRule path = some r ∧ r.action = .steps ids ∧ id ∈ ids

variable {path : String}

theorem classify_full : (classify path).1 = .full ↔ Unmapped path := by
  unfold classify Unmapped
  cases firstRule path with
  | none => simp
  | some r => simp

theorem classify_irrelevant : (classify path).1 = .irrelevant ↔ Inert path := by
  unfold classify Inert
  cases firstRule path with
  | none => simp
  | some r => simp

theorem classify_steps {ids : List String} (h : (classify path).1 = .steps ids) :
    ids ≠ [] ∧ ¬ Unmapped path ∧ ¬ Inert path ∧ ∀ id, Mapped path id ↔ id ∈ ids := by
  have hrule : ∃ r, firstRule path = some r ∧ r.action = .steps ids := by
    unfold classify at h
    cases hr : firstRule path with
    | none =>
      rw [hr] at h
      cases h
    | some r =>
      rw [hr] at h
      exact ⟨r, rfl, h⟩
  obtain ⟨r, hr, ha⟩ := hrule
  refine ⟨firstRule_steps_ne_nil hr ha, ?_, ?_, fun id => ⟨?_, fun hid => ⟨r, ids, hr, ha, hid⟩⟩⟩
  · rw [← classify_full, h]
    exact Action.noConfusion
  · rw [← classify_irrelevant, h]
    exact Action.noConfusion
  · rintro ⟨r', ids', hr', ha', hid⟩
    cases hr.symm.trans hr'
    cases ha.symm.trans ha'
    exact hid

structure Scanned (scan scan' : Scan) (files : List String) : Prop where
  anyFull : scan'.anyFull = true ↔ scan.anyFull = true ∨ ∃ f ∈ files, Unmapped f
  anyNarrowing : scan'.anyNarrowing = true ↔
    scan.anyNarrowing = true ∨ ∃ f ∈ files, ∃ id, Mapped f id
  allInert : scan'.allInert = true ↔ scan.allInert = true ∧ ∀ f ∈ files, Inert f
  steps : ∀ id, id ∈ scan'.steps ↔ id ∈ scan.steps ∨ ∃ f ∈ files, Mapped f id

theorem not_mapped (h : Unmapped path ∨ Inert path) (id : String) : ¬ Mapped path id := by
  rintro ⟨r, ids, hr, ha, -⟩
  rcases h with (hnone | ⟨r', hr', ha'⟩) | ⟨r', hr', ha'⟩
  · cases hnone.symm.trans hr
  · cases hr.symm.trans hr'
    cases ha.symm.trans ha'
  · cases hr.symm.trans hr'
    cases ha.symm.trans ha'

theorem Unmapped.not_inert (h : Unmapped path) : ¬ Inert path := by
  rw [← classify_irrelevant, classify_full.mpr h]
  exact Action.noConfusion

theorem Scanned.file (scan : Scan) (f : String) : Scanned scan (scan.file f) [f] := by
  unfold Scan.file
  cases hc : (classify f).1 with
  | full =>
    have hf := classify_full.mp hc
    have hm := not_mapped (.inl hf)
    refine ⟨?_, ?_, ?_, ?_⟩
    · simp only [mem_singleton, exists_eq_left, hf, or_true]
    · simp only [mem_singleton, exists_eq_left, hm, exists_false, or_false]
    · simp only [mem_singleton, forall_eq, hf.not_inert, and_false, Bool.false_eq_true]
    · simp only [mem_singleton, exists_eq_left, hm, or_false, implies_true]
  | irrelevant =>
    have hi := classify_irrelevant.mp hc
    have hm := not_mapped (.inr hi)
    have hu : ¬ Unmapped f := fun hu => hu.not_inert hi
    refine ⟨?_, ?_, ?_, ?_⟩
    · simp only [mem_singleton, exists_eq_left, hu, or_false]
    · simp only [mem_singleton, exists_eq_left, hm, exists_false, or_false]
    · simp only [mem_singleton, forall_eq, hi, and_true]
    · simp only [mem_singleton, exists_eq_left, hm, or_false, implies_true]
  | steps ids =>
    obtain ⟨hne, hu, hi, hm⟩ := classify_steps hc
    have hsome : ∃ id, id ∈ ids := exists_mem_of_ne_nil ids hne
    refine ⟨?_, ?_, ?_, ?_⟩
    · simp only [mem_singleton, exists_eq_left, hu, or_false]
    · simp only [mem_singleton, exists_eq_left, hm, hsome, or_true]
    · simp only [mem_singleton, forall_eq, hi, and_false, Bool.false_eq_true]
    · simp only [mem_singleton, exists_eq_left, hm, mem_foldl_insertId, implies_true]

theorem Scanned.foldl (scan : Scan) (files : List String) :
    Scanned scan (files.foldl Scan.file scan) files := by
  induction files generalizing scan with
  | nil =>
    refine ⟨?_, ?_, ?_, ?_⟩ <;>
      simp only [foldl_nil, not_mem_nil, false_and, exists_false, or_false,
        false_imp_iff, implies_true, and_true]
  | cons f files ih =>
    have hhead := Scanned.file scan f
    have htail := ih (scan.file f)
    refine ⟨?_, ?_, ?_, ?_⟩
    · rw [foldl_cons, htail.anyFull, hhead.anyFull]
      simp only [mem_cons, not_mem_nil, or_false, exists_eq_left, exists_eq_or_imp, or_assoc]
    · rw [foldl_cons, htail.anyNarrowing, hhead.anyNarrowing]
      simp only [mem_cons, not_mem_nil, or_false, exists_eq_left, exists_eq_or_imp, or_assoc]
    · rw [foldl_cons, htail.allInert, hhead.allInert]
      simp only [mem_cons, not_mem_nil, or_false, forall_eq, forall_eq_or_imp, and_assoc]
    · intro id
      rw [foldl_cons, htail.steps, hhead.steps]
      simp only [mem_cons, not_mem_nil, or_false, exists_eq_left, exists_eq_or_imp, or_assoc]

variable (dag : Dag) (files : List String)

def Forces : Prop :=
  ∃ f ∈ files, Unmapped f ∨ ∃ id, Mapped f id ∧ dag.containsKey id = false

def Seeds : Set String :=
  {id | (∃ f ∈ files, Mapped f id) ∨ id ∈ preflight ∧ dag.containsKey id = true}

theorem scanFiles_anyFull : (scanFiles files).anyFull = true ↔ ∃ f ∈ files, Unmapped f := by
  rw [scanFiles, (Scanned.foldl _ files).anyFull]
  simp only [Bool.false_eq_true, false_or]

theorem scanFiles_allInert : (scanFiles files).allInert = true ↔ ∀ f ∈ files, Inert f := by
  rw [scanFiles, (Scanned.foldl _ files).allInert]
  simp only [true_and]

theorem mem_scanFiles_steps (id : String) :
    id ∈ (scanFiles files).steps ↔ ∃ f ∈ files, Mapped f id := by
  rw [scanFiles, (Scanned.foldl _ files).steps]
  simp only [not_mem_nil, false_or]

theorem scanFiles_anyNarrowing :
    (scanFiles files).anyNarrowing = true ↔ ∃ f ∈ files, ∃ id, Mapped f id := by
  rw [scanFiles, (Scanned.foldl _ files).anyNarrowing]
  simp only [Bool.false_eq_true, false_or]

theorem mem_withPreflight (id : String) :
    id ∈ withPreflight dag (scanFiles files).steps ↔ id ∈ Seeds dag files := by
  rw [withPreflight, mem_foldl_insertId, mem_filter, mem_scanFiles_steps]
  rfl

theorem inert_or_unmapped_or_mapped (path : String) :
    Inert path ∨ Unmapped path ∨ ∃ id, Mapped path id := by
  cases hc : (classify path).1 with
  | full => exact .inr (.inl (classify_full.mp hc))
  | irrelevant => exact .inl (classify_irrelevant.mp hc)
  | steps ids =>
    obtain ⟨hne, -, -, hm⟩ := classify_steps hc
    obtain ⟨id, hid⟩ := exists_mem_of_ne_nil ids hne
    exact .inr (.inr ⟨id, (hm id).mpr hid⟩)

variable {dag files}

theorem select_inert (hne : files ≠ []) (h : ∀ f ∈ files, Inert f) :
    (select dag files).decision = .skip ∧ (select dag files).selected = [] := by
  have hfull : (scanFiles files).anyFull = false := by
    rw [Bool.eq_false_iff, ne_eq, scanFiles_anyFull]
    rintro ⟨f, hf, hu⟩
    exact hu.not_inert (h f hf)
  have hnarrow : (scanFiles files).anyNarrowing = false := by
    rw [Bool.eq_false_iff, ne_eq, scanFiles_anyNarrowing]
    rintro ⟨f, hf, id, hm⟩
    exact not_mapped (.inr (h f hf)) id hm
  have hinert : (scanFiles files).allInert = true := (scanFiles_allInert files).mpr h
  simp only [select, hne, hfull, hnarrow, hinert, if_false, Bool.false_eq_true, Bool.not_false,
    Bool.and_self, if_true, and_self]

theorem not_inert_of_forces (h : Forces dag files) : ¬ ∀ f ∈ files, Inert f := by
  intro hall
  obtain ⟨f, hf, hu | ⟨id, hm, -⟩⟩ := h
  · exact hu.not_inert (hall f hf)
  · exact not_mapped (.inr (hall f hf)) id hm

theorem select_forced (hne : files ≠ []) (h : Forces dag files) :
    (select dag files).decision = .full ∧ (select dag files).selected = dag.allIds := by
  have hinert : (scanFiles files).allInert = false := by
    rw [Bool.eq_false_iff, ne_eq, scanFiles_allInert]
    exact not_inert_of_forces h
  by_cases hfull : (scanFiles files).anyFull = true
  · simp only [select, hne, hfull, if_false, if_true, and_self]
  · have hmissing : (withPreflight dag (scanFiles files).steps).filter
        (fun s => !dag.containsKey s) ≠ [] := by
      obtain ⟨f, hf, hu | ⟨id, hm, hid⟩⟩ := h
      · exact absurd ((scanFiles_anyFull files).mpr ⟨f, hf, hu⟩) hfull
      · refine ne_nil_of_mem (a := id) (mem_filter.mpr ⟨?_, ?_⟩)
        · exact (mem_withPreflight dag files id).mpr (.inl ⟨f, hf, hm⟩)
        · rw [hid, Bool.not_false]
    by_cases hsteps : (scanFiles files).steps = []
    · simp only [select, hne, hfull, hinert, hsteps, if_false, Bool.and_false,
        Bool.false_eq_true, if_true, and_self]
    · simp only [select, hne, hfull, hinert, hsteps, hmissing, if_false, Bool.and_false,
        Bool.false_eq_true, and_self]

theorem select_narrow (hne : files ≠ []) (hforce : ¬ Forces dag files)
    (hinert : ¬ ∀ f ∈ files, Inert f) : (select dag files).decision = .selective ∧
      ∀ id, id ∈ (select dag files).selected ↔ id ∈ From dag.Needs (Seeds dag files) := by
  have hfull : (scanFiles files).anyFull = false := by
    rw [Bool.eq_false_iff, ne_eq, scanFiles_anyFull]
    rintro ⟨f, hf, hu⟩
    exact hforce ⟨f, hf, .inl hu⟩
  have hinert' : (scanFiles files).allInert = false := by
    rw [Bool.eq_false_iff, ne_eq, scanFiles_allInert]
    exact hinert
  have hsteps : (scanFiles files).steps ≠ [] := by
    push Not at hinert
    obtain ⟨f, hf, hni⟩ := hinert
    obtain hi | hu | ⟨id, hm⟩ := inert_or_unmapped_or_mapped f
    · exact absurd hi hni
    · exact absurd ⟨f, hf, .inl hu⟩ hforce
    · exact ne_nil_of_mem ((mem_scanFiles_steps files id).mpr ⟨f, hf, hm⟩)
  have hmissing : (withPreflight dag (scanFiles files).steps).filter
      (fun s => !dag.containsKey s) = [] := by
    refine filter_eq_nil_iff.mpr fun id hid hmiss => ?_
    rw [Bool.not_eq_true'] at hmiss
    obtain ⟨f, hf, hm⟩ | ⟨-, hp⟩ := (mem_withPreflight dag files id).mp hid
    · exact hforce ⟨f, hf, .inr ⟨id, hm, hmiss⟩⟩
    · cases hmiss.symm.trans hp
  have hseeds : {s | s ∈ withPreflight dag (scanFiles files).steps} = Seeds dag files := by
    ext id
    exact mem_withPreflight dag files id
  simp only [select, hne, hfull, hinert', hsteps, hmissing, if_false, Bool.and_false,
    Bool.false_eq_true, if_true, dag.mem_closeOverDeps, hseeds, true_and, implies_true]

end DevHermit.TestSelection
