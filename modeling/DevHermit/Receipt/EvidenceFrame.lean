import DevHermit.Receipt.CellEvidence

namespace DevHermit.Receipt

open Lib List Option

def GateHistoryRow.core (gate : GateHistoryRow) : GateHistoryRow := { gate with extra := [] }

def fresh (seen : List (String × String)) : List GateHistoryRow → List GateHistoryRow
  | [] => []
  | gate :: gates =>
    if seen.contains (gateKey gate) then fresh seen gates
    else gate :: fresh (gateKey gate :: seen) gates

def offeredCells (cache : CellEvidenceCache) (logs : Logs) (row : LedgerRow) :
    List GateHistoryRow :=
  match cache.retained row with
  | some record => record.gates
  | none =>
    if row.receipt.commit.isSome then ((row.logFile.bind logs).map parseLogObservations).getD []
    else []

def addedCells (path : String) (file : CacheFile) (logs : Logs) (row : LedgerRow) :
    List GateHistoryRow :=
  match file.load path with
  | .error _ => []
  | .ok cache => fresh (row.gates.map gateKey) (offeredCells cache logs row)

section

variable (raw : String)

theorem excerpted_eq (gate : GateHistoryRow) :
    ∃ extra, excerpted raw gate = { gate with extra := extra } := by
  simp only [excerpted]
  split_ifs
  · exact ⟨_, rfl⟩
  · exact ⟨gate.extra, rfl⟩
  · exact ⟨gate.extra, rfl⟩

theorem core_excerpted (gate : GateHistoryRow) : (excerpted raw gate).core = gate.core := by
  obtain ⟨extra, h⟩ := excerpted_eq raw gate
  rw [h]
  rfl

theorem gateKey_excerpted (gate : GateHistoryRow) :
    gateKey (excerpted raw gate) = gateKey gate := by
  obtain ⟨extra, h⟩ := excerpted_eq raw gate
  rw [h]
  rfl

theorem cores_extendFirst (gate : GateHistoryRow) (gates : List GateHistoryRow) :
    (extendFirst gate gates).map GateHistoryRow.core = gates.map GateHistoryRow.core := by
  induction gates with
  | nil => rfl
  | cons existing rest ih =>
    rw [extendFirst]
    split_ifs
    · rw [map_cons, map_cons]
      rfl
    · rw [map_cons, ih, map_cons]

theorem cores_fresh_excerpted (seen : List (String × String)) (gates : List GateHistoryRow) :
    (fresh seen (gates.map (excerpted raw))).map GateHistoryRow.core =
      (fresh seen gates).map GateHistoryRow.core := by
  induction gates generalizing seen with
  | nil => rfl
  | cons gate gates ih =>
    rw [map_cons, fresh, fresh, gateKey_excerpted]
    split_ifs
    · exact ih seen
    · rw [map_cons, map_cons, core_excerpted, ih]

theorem cores_observed (index : GateIndex) (gates : List GateHistoryRow) :
    (gates.foldl GateIndex.observe index).gates.map GateHistoryRow.core =
      (index.gates ++ fresh index.seen gates).map GateHistoryRow.core := by
  induction gates generalizing index with
  | nil => simp [fresh]
  | cons gate gates ih =>
    rw [foldl_cons, ih, fresh, GateIndex.observe]
    by_cases hseen : gateKey gate ∈ index.seen
    · rw [if_pos hseen, if_pos (contains_iff_mem.mpr hseen), map_append,
        cores_extendFirst, ← map_append]
    · rw [if_neg hseen, if_neg (mt contains_iff_mem.mp hseen), append_assoc, singleton_append]

theorem gates_retained (index : GateIndex) (gates : List GateHistoryRow) :
    (gates.foldl GateIndex.retain index).gates = index.gates ++ fresh index.seen gates := by
  induction gates generalizing index with
  | nil => simp [fresh]
  | cons gate gates ih =>
    rw [foldl_cons, ih, fresh, GateIndex.retain]
    by_cases hseen : gateKey gate ∈ index.seen
    · rw [if_pos hseen, if_pos (contains_iff_mem.mpr hseen)]
    · rw [if_neg hseen, if_neg (mt contains_iff_mem.mp hseen), append_assoc, singleton_append]

end

structure Enriched (added : LedgerRow → List GateHistoryRow) (row row' : LedgerRow) : Prop where
  same : row' = { row with gates := row'.gates }
  cores : row'.gates.map GateHistoryRow.core =
    (row.gates ++ added row).map GateHistoryRow.core

variable {cache : CellEvidenceCache} {logs : Logs} {row : LedgerRow}

theorem enriched_log (hnone : cache.retained row = none)
    (hcommit : row.receipt.commit.isSome = true) :
    Enriched (fun row => fresh (row.gates.map gateKey) (offeredCells cache logs row)) row
      (enrichRowFromLog logs row) := by
  rw [enrichRowFromLog]
  cases hlog : row.logFile.bind logs with
  | none =>
    refine ⟨rfl, ?_⟩
    simp [offeredCells, hnone, hlog, fresh]
  | some raw =>
    refine ⟨rfl, ?_⟩
    simp only [cores_observed, GateIndex.of, map_append, cores_fresh_excerpted, offeredCells,
      hnone, hlog, hcommit, if_true, map_some, getD_some]

theorem enriched_cache {record : RetainedCellEvidence} (hsome : cache.retained row = some record) :
    Enriched (fun row => fresh (row.gates.map gateKey) (offeredCells cache logs row)) row
      (mergeRetainedRow cache row) := by
  rw [mergeRetainedRow, hsome]
  refine ⟨rfl, ?_⟩
  simp only [gates_retained, GateIndex.of, offeredCells, hsome]

theorem retained_mergeRetainedRow (cache : CellEvidenceCache) (row : LedgerRow) :
    (mergeRetainedRow cache row).receipt = row.receipt := by
  rw [mergeRetainedRow]
  split <;> rfl

theorem retain_rows {path : String} {file : CacheFile}
    {save : CellEvidenceCache → Except String Unit} {rows : List LedgerRow}
    (h : file.load path = .ok cache) : (retainCellEvidence path file save logs rows).rows =
      rows.map fun row => if row.receipt.commit.isSome ∧ (cache.retained row).isNone then
          enrichRowFromLog logs (mergeRetainedRow cache row) else mergeRetainedRow cache row := by
  have hrows : ∀ row, (if (mergeRetainedRow cache row).receipt.commit.isSome ∧
      !(cache.retained (mergeRetainedRow cache row)).isSome then
        (enrichRowsFromLogs logs [mergeRetainedRow cache row]).headD (mergeRetainedRow cache row)
      else mergeRetainedRow cache row) =
      if row.receipt.commit.isSome ∧ (cache.retained row).isNone then
        enrichRowFromLog logs (mergeRetainedRow cache row)
      else mergeRetainedRow cache row := by
    intro row
    have hret : cache.retained (mergeRetainedRow cache row) = cache.retained row := by
      rw [CellEvidenceCache.retained, retained_mergeRetainedRow, CellEvidenceCache.retained]
    simp only [retained_mergeRetainedRow, hret, enrichRowsFromLogs, map_cons, map_nil,
      headD_cons, not_isSome]
  rw [retainCellEvidence, h]
  simp only [mergeRetainedCellEvidence, List.map_map, Function.comp_def, hrows]
  split_ifs
  · rfl
  · split <;> rfl

theorem retain_enriched (path : String) (file : CacheFile)
    (save : CellEvidenceCache → Except String Unit) (logs : Logs) (rows : List LedgerRow) :
    List.Forall₂ (Enriched (addedCells path file logs)) rows
      (retainCellEvidence path file save logs rows).rows := by
  cases hload : file.load path with
  | error error =>
    rw [retainCellEvidence, hload]
    refine forall₂_same.mpr fun row _ => ⟨rfl, ?_⟩
    rw [addedCells, hload, append_nil]
  | ok cache =>
    have hadded : addedCells path file logs =
        fun row => fresh (row.gates.map gateKey) (offeredCells cache logs row) := by
      funext row
      rw [addedCells, hload]
    rw [retain_rows hload, hadded, forall₂_map_right_iff]
    refine forall₂_same.mpr fun row _ => ?_
    cases hret : cache.retained row with
    | some record =>
      rw [if_neg (by simp)]
      exact enriched_cache hret
    | none =>
      have hmerge : mergeRetainedRow cache row = row := by rw [mergeRetainedRow, hret]
      rw [hmerge]
      split_ifs with hcommit
      · exact enriched_log hret hcommit.1
      · refine ⟨rfl, ?_⟩
        simp only [isNone_none, and_true] at hcommit
        simp [offeredCells, hret, hcommit, fresh]

namespace Enriched

variable {added : LedgerRow → List GateHistoryRow} {row row' : LedgerRow}

theorem sameRun (h : Enriched added row row') : SameRun row row' := by
  have hsame := h.same
  generalize row'.gates = gates at hsame
  subst hsame
  exact ⟨rfl, rfl⟩

end Enriched

section

def LedgerRow.withGates (row : LedgerRow) (gates : List GateHistoryRow) : LedgerRow :=
  { row with gates := gates }

theorem isEnvFaultRed_cores (row : LedgerRow) (gates red : List GateHistoryRow) :
    Rust.isEnvFaultRed (row.withGates (gates.map GateHistoryRow.core))
        (red.map GateHistoryRow.core) = Rust.isEnvFaultRed (row.withGates gates) red := by
  simp only [Rust.isEnvFaultRed, LedgerRow.withGates, map_eq_nil_iff, List.any_map,
    List.all_map, ne_eq]
  rfl

theorem originBound_cores (red : List GateHistoryRow) :
    Rust.originBound (red.map GateHistoryRow.core) = Rust.originBound red := by
  simp only [Rust.originBound, map_eq_nil_iff, List.all_map, ne_eq]
  rfl

theorem failureDisposition_cores (row : LedgerRow) (gates : List GateHistoryRow) (sha : String) :
    Rust.failureDisposition (row.withGates (gates.map GateHistoryRow.core)) sha =
      Rust.failureDisposition (row.withGates gates) sha := by
  have hred : (row.withGates (gates.map GateHistoryRow.core)).gates.filter Rust.gateIsRed =
      ((row.withGates gates).gates.filter Rust.gateIsRed).map GateHistoryRow.core :=
    List.filter_map
  simp only [Rust.failureDisposition, hred, isEnvFaultRed_cores, originBound_cores,
    Rust.hasRealFailure, map_eq_nil_iff, ne_eq]
  rfl

theorem Enriched.disposition {added : LedgerRow → List GateHistoryRow} {row row' : LedgerRow}
    (h : Enriched added row row') (sha : String) : Rust.failureDisposition row' sha =
      Rust.failureDisposition (row.withGates (row.gates ++ added row)) sha := by
  have hrow : row' = row.withGates row'.gates := h.same
  rw [hrow, ← failureDisposition_cores, h.cores, failureDisposition_cores]

end

section

variable {row : LedgerRow} {cells : List GateHistoryRow}

def CleanRed (row : LedgerRow) (sha : String) : Prop :=
  Rust.isCleanFullCoverage row sha = true ∧ Rust.isRedText row.receipt.result = true

structure Quiet (row : LedgerRow) (cells : List GateHistoryRow) : Prop where
  unred : ∀ cell ∈ cells, Rust.gateIsRed cell = false
  collapse : row.realSeconds.any (· ≤ 1) = true → row.gates ≠ [] →
    row.gates.all Rust.gateIsRed = true → cells = []

theorem Quiet.reds (h : Quiet row cells) :
    (row.gates ++ cells).filter Rust.gateIsRed = row.gates.filter Rust.gateIsRed := by
  have hnil : cells.filter Rust.gateIsRed = [] := by simpa [filter_eq_nil_iff] using h.unred
  rw [filter_append, hnil, append_nil]

theorem Quiet.isEnvFaultRed (h : Quiet row cells) :
    Rust.isEnvFaultRed (row.withGates (row.gates ++ cells)) (row.gates.filter Rust.gateIsRed) =
      Rust.isEnvFaultRed row (row.gates.filter Rust.gateIsRed) := by
  cases cells with
  | nil =>
    rw [append_nil]
    rfl
  | cons cell rest =>
    have hcell := h.unred cell mem_cons_self
    have hcollapse : ¬ (row.realSeconds.any (· ≤ 1) = true ∧ row.gates ≠ [] ∧
        row.gates.all Rust.gateIsRed = true) := by
      rintro ⟨hwall, hne, hall⟩
      cases h.collapse hwall hne hall
    have hbefore : (row.realSeconds.any (· ≤ 1) && decide (row.gates ≠ []) &&
        row.gates.all Rust.gateIsRed) = false := by
      rw [← Bool.not_eq_true, Bool.and_eq_true, Bool.and_eq_true, decide_eq_true_eq, and_assoc]
      exact hcollapse
    have hafter : (row.gates ++ cell :: rest).all Rust.gateIsRed = false := by
      rw [all_append, all_cons, hcell, Bool.false_and, Bool.and_false]
    simp only [Rust.isEnvFaultRed, LedgerRow.withGates, hbefore, hafter, Bool.and_false]

theorem Quiet.disposition {sha : String} (h : CleanRed row sha → Quiet row cells) :
    Rust.failureDisposition (row.withGates (row.gates ++ cells)) sha =
      Rust.failureDisposition row sha := by
  by_cases hred : CleanRed row sha
  · have hquiet := h hred
    have hgates : (row.withGates (row.gates ++ cells)).gates.filter Rust.gateIsRed =
        row.gates.filter Rust.gateIsRed := hquiet.reds
    simp only [Rust.failureDisposition, hgates, hquiet.isEnvFaultRed]
    rfl
  · have hstop : (!Rust.isCleanFullCoverage row sha || !Rust.isRedText row.receipt.result) =
        true := by
      rw [CleanRed, not_and_or] at hred
      simpa using hred
    have hstop' : (!Rust.isCleanFullCoverage (row.withGates (row.gates ++ cells)) sha ||
        !Rust.isRedText (row.withGates (row.gates ++ cells)).receipt.result) = true := hstop
    rw [Rust.failureDisposition, Rust.failureDisposition, if_pos hstop, if_pos hstop']
    rfl

end

theorem dispositions_enriched {rows rows' : List LedgerRow}
    {added : LedgerRow → List GateHistoryRow} {sha : String}
    (h : List.Forall₂ (Enriched added) rows rows')
    (hquiet : ∀ row ∈ rows, CleanRed row sha → Quiet row (added row)) :
    List.Forall₂ (fun row row' =>
      Rust.failureDisposition row' sha = Rust.failureDisposition row sha) rows rows' := by
  induction h with
  | nil => exact .nil
  | cons hrow _ ih =>
    refine .cons ?_ (ih fun row hrow => hquiet row (mem_cons_of_mem _ hrow))
    rw [hrow.disposition, Quiet.disposition (hquiet _ mem_cons_self)]

def KeepsVerdicts (pred : QualifyingPredicate) (rows rows' : List LedgerRow) : Prop :=
  (∀ sha, (assess pred rows' sha).verdict = (assess pred rows sha).verdict) ∧
    ∀ branch branchRef gateSchema gateSchemaFloor commits,
      newestGreen pred branch branchRef gateSchema gateSchemaFloor commits rows' =
        newestGreen pred branch branchRef gateSchema gateSchemaFloor commits rows

theorem quiet_cells_keep_verdicts (pred : QualifyingPredicate) (path : String)
    (file : CacheFile) (save : CellEvidenceCache → Except String Unit) (logs : Logs)
    (rows : List LedgerRow) (hquiet : ∀ row ∈ rows, ∀ sha, CleanRed row sha →
      Quiet row (addedCells path file logs row)) :
    KeepsVerdicts pred rows (retainCellEvidence path file save logs rows).rows := by
  have henriched := retain_enriched path file save logs rows
  have hsame := henriched.imp fun _ _ h => h.sameRun
  have hkeep : ∀ sha, (assess pred (retainCellEvidence path file save logs rows).rows sha).verdict =
      (assess pred rows sha).verdict := fun sha =>
    verdict_same hsame (dispositions_enriched henriched fun row hrow => hquiet row hrow sha)
  exact ⟨hkeep, newestGreen_same hsame hkeep⟩

def outerFailure : GateHistoryRow :=
  ⟨"outer failure", some "fail", none, some 1, none, none, some "outer_gate", [], []⟩

def failedRun : LedgerRow where
  receipt := ⟨some 4, some "2026-08-03T03:00:00Z", some "full", some "full", some sampleSha,
    some true, some false, some "fail", some 765, some 0, none, some 1, some 0, []⟩
  exitCode := some 1
  checks := some 1
  gatesRun := some 1
  gatesExpected := some 1
  dagJobs := some 4
  knownFlakyFailure := some false
  soloRerunConfirmation := some false
  realSeconds := none
  logFile := some "validate.log"
  gates := [outerFailure]

def passingLog : String := "[test.unit] ✓ PASS (12s)\n"

theorem passing_log_keeps_failed_verdict :
    (addedCells "cache.json" .notFound (fun _ => some passingLog) failedRun).length = 1 ∧
    KeepsVerdicts (livePolicy true) [failedRun] (retainCellEvidence "cache.json" .notFound
      (fun _ => .ok ()) (fun _ => some passingLog) [failedRun]).rows := by
  refine ⟨by decide +kernel, quiet_cells_keep_verdicts _ _ _ _ _ _ fun row hrow sha _ => ?_⟩
  obtain rfl := mem_singleton.mp hrow
  exact ⟨by decide +kernel, by decide +kernel⟩

def failingLog : String := "[test.unit] ✗ FAIL (12s)\n"

theorem log_cell_unbinds_failed_run :
    (assess (livePolicy true) [failedRun] sampleSha).verdict = .failedOnRecord ∧
    (assess (livePolicy true) (retainCellEvidence "cache.json" .notFound (fun _ => .ok ())
      (fun _ => some failingLog) [failedRun]).rows sampleSha).verdict = .needsRerun ∧
    newestGreen (livePolicy true) "main" "origin/main" "merge-gate-v2" "floor" [sampleSha]
      [failedRun] = .failedOnly sampleSha 1 1 ∧
    newestGreen (livePolicy true) "main" "origin/main" "merge-gate-v2" "floor" [sampleSha]
      (retainCellEvidence "cache.json" .notFound (fun _ => .ok ()) (fun _ => some failingLog)
        [failedRun]).rows = .noEvidence sampleSha 1 0 := by
  decide +kernel

end DevHermit.Receipt
