import DevHermit.Receipt.RedAgreement

namespace DevHermit.Receipt

open Lib List

inductive Verdict where
  | validated
  | failedOnRecord
  | truncated
  | needsRerun
  | noResult
  | notValidated
  deriving DecidableEq, Repr

structure Tally where
  qualifying : List LedgerRow
  disqualified : List LedgerRow
  failedRecords : Nat
  withheldNonpassRecords : Nat
  sawFailed : Bool
  sawNeedsRerun : Bool
  sawTruncated : Bool
  sawNoResult : Bool

namespace Tally

def start : Tally := ⟨[], [], 0, 0, false, false, false, false⟩

def withhold (t : Tally) (row : LedgerRow) (sha : String) : Tally :=
  if Rust.isCleanFullCoverage row sha then
    { t with withheldNonpassRecords := t.withheldNonpassRecords + 1 }
  else t

def disqualify (t : Tally) (row : LedgerRow) (sha : String) : FailureDisposition → Tally
  | .failed => { t with sawFailed := true, failedRecords := t.failedRecords + 1 }
  | .needsRerun => withhold { t with sawNeedsRerun := true } row sha
  | .truncated => withhold { t with sawTruncated := true } row sha
  | .noResult => withhold { t with sawNoResult := true } row sha
  | .notFailure => t

def count (pred : QualifyingPredicate) (sha : String) (t : Tally) (row : LedgerRow) : Tally :=
  if row.receipt.commit ≠ some sha then t
  else if Rust.rowQualifies row.receipt sha pred then { t with qualifying := t.qualifying ++ [row] }
  else
    let t := t.disqualify row sha (Rust.failureDisposition row sha)
    { t with disqualified := t.disqualified ++ [row] }

def verdict (t : Tally) : Verdict :=
  if t.qualifying ≠ [] then .validated
  else if t.sawFailed then .failedOnRecord
  else if t.sawNeedsRerun then .needsRerun
  else if t.sawTruncated then .truncated
  else if t.sawNoResult then .noResult
  else .notValidated

end Tally

structure Assessment where
  verdict : Verdict
  qualifying : List LedgerRow
  disqualified : List LedgerRow
  failedRecords : Nat
  withheldNonpassRecords : Nat

def assess (pred : QualifyingPredicate) (rows : List LedgerRow) (sha : String) : Assessment :=
  let t := rows.foldl (Tally.count pred sha) .start
  ⟨t.verdict, t.qualifying, t.disqualified, t.failedRecords, t.withheldNonpassRecords⟩

def finishedKey (row : LedgerRow) : String := row.receipt.finishedAt.getD ""

def later (best row : LedgerRow) : LedgerRow :=
  if finishedKey row < finishedKey best then best else row

def newest : List LedgerRow → Option LedgerRow
  | [] => none
  | row :: rows => some (rows.foldl later row)

inductive CoverageStrength where
  | full
  | smartSelection
  | narrowerProfile
  deriving DecidableEq, Repr

def scopeStrength (row : LedgerRow) : CoverageStrength :=
  if row.receipt.profile = some "full" then
    if row.receipt.selectionMode = some "full" then .full else .smartSelection
  else .narrowerProfile

def coverage (pred : QualifyingPredicate) (row : LedgerRow) :
    Option CoverageStrength × Option Bool × String :=
  if !pred.coverage.perNode ∨ row.receipt.schemaVersion.getD 0 < pred.coverage.appliesAtSchemaMin
  then (none, none, "grandfathered-unknown")
  else
    match row.receipt.coverage.map Rust.coverageVerdict with
    | some .satisfied => (some (scopeStrength row), some true, "satisfied")
    | some .unsatisfied => (none, some false, "unsatisfied")
    | _ => (none, none, "unavailable")

structure ValidationEvidence where
  sha : String
  finishedAt : Option String
  profile : String
  selectionMode : String
  coverage : Option CoverageStrength
  coverageSatisfied : Option Bool
  coverageStatus : String
  result : String
  logFile : Option String
  deriving DecidableEq, Repr

def evidence (pred : QualifyingPredicate) (sha : String) (row : LedgerRow) : ValidationEvidence where
  sha := sha
  finishedAt := row.receipt.finishedAt
  profile := row.receipt.profile.getD "unknown"
  selectionMode := row.receipt.selectionMode.getD "unknown"
  coverage := (coverage pred row).1
  coverageSatisfied := (coverage pred row).2.1
  coverageStatus := (coverage pred row).2.2
  result := row.receipt.result.getD "unknown"
  logFile := row.logFile

structure NewestGreenReport where
  schemaVersion : Nat
  branch : String
  branchRef : String
  branchTip : String
  gateSchema : String
  gateSchemaFloor : String
  rangeOldestCommit : String
  branchCommitsInRange : Nat
  trustworthyRecordedCommitsInRange : Nat
  fullGreenCommitsInRange : Nat
  green : ValidationEvidence
  commitsAfterGreen : Nat
  commitsWithoutAnyRecord : Nat
  commitsWithRecords : Nat
  deriving DecidableEq, Repr

inductive NewestGreenOutcome where
  | found (report : NewestGreenReport)
  | failedOnly (branchTip : String) (recorded commitsInRange : Nat)
  | noEvidence (branchTip : String) (commitsInRange recorded : Nat)
  deriving DecidableEq, Repr

structure GreenScan where
  trustworthyRecorded : Nat
  failedRecorded : Nat
  fullGreenCommits : Nat
  newestFullGreen : Option (Nat × ValidationEvidence)
  deriving DecidableEq

def rowsOf (rows : List LedgerRow) (sha : String) : List LedgerRow :=
  rows.filter fun row => row.receipt.commit = some sha

def isPartialPass (row : LedgerRow) : Bool :=
  row.receipt.commitAnchored = some true && row.receipt.treeDirty = some false &&
    row.receipt.result = some "pass"

def scanCommit (pred : QualifyingPredicate) (rows : List LedgerRow) (scan : GreenScan)
    (entry : String × Nat) : GreenScan :=
  if rowsOf rows entry.1 = [] then scan
  else
    let assessment := assess pred (rowsOf rows entry.1) entry.1
    match assessment.verdict with
    | .validated =>
      { scan with
        trustworthyRecorded := scan.trustworthyRecorded + 1
        fullGreenCommits := scan.fullGreenCommits + 1
        newestFullGreen := scan.newestFullGreen.or
          ((newest assessment.qualifying).map fun row => (entry.2, evidence pred entry.1 row)) }
    | .failedOnRecord =>
      { scan with
        trustworthyRecorded := scan.trustworthyRecorded + 1
        failedRecorded := scan.failedRecorded + 1 }
    | .notValidated =>
      if (rowsOf rows entry.1).any isPartialPass then
        { scan with trustworthyRecorded := scan.trustworthyRecorded + 1 }
      else scan
    | _ => scan

def newestGreen (pred : QualifyingPredicate) (branch branchRef gateSchema gateSchemaFloor : String)
    (commits : List String) (rows : List LedgerRow) : NewestGreenOutcome :=
  let branchTip := commits.head?.getD ""
  let scan := commits.zipIdx.foldl (scanCommit pred rows) ⟨0, 0, 0, none⟩
  match scan.newestFullGreen with
  | some (index, green) =>
    let newer := commits.take index
    let missing := newer.countP fun sha => rowsOf rows sha = []
    .found ⟨4, branch, branchRef, branchTip, gateSchema, gateSchemaFloor,
      commits.getLast?.getD "", commits.length, scan.trustworthyRecorded, scan.fullGreenCommits,
      green, newer.length, missing, newer.length - missing⟩
  | none =>
    if 0 < scan.failedRecorded then
      .failedOnly branchTip scan.trustworthyRecorded commits.length
    else .noEvidence branchTip commits.length scan.trustworthyRecorded

structure SameRun (row row' : LedgerRow) : Prop where
  receipt : row'.receipt = row.receipt
  logFile : row'.logFile = row.logFile

section

variable {pred : QualifyingPredicate} {rows rows' : List LedgerRow}

theorem rowsOf_same (h : List.Forall₂ SameRun rows rows') (sha : String) :
    List.Forall₂ SameRun (rowsOf rows sha) (rowsOf rows' sha) := by
  induction h with
  | nil => exact .nil
  | cons hrow _ ih =>
    rw [rowsOf, rowsOf, filter_cons, filter_cons, hrow.receipt]
    split_ifs
    · exact .cons hrow ih
    · exact ih

theorem rowsOf_nil_iff (h : List.Forall₂ SameRun rows rows') (sha : String) :
    rowsOf rows' sha = [] ↔ rowsOf rows sha = [] := by
  have hlen := (rowsOf_same h sha).length_eq
  rw [← length_eq_zero_iff, ← length_eq_zero_iff, hlen]

theorem evidence_same {row row' : LedgerRow} (h : SameRun row row') (sha : String) :
    evidence pred sha row' = evidence pred sha row := by
  simp only [evidence, coverage, scopeStrength, h.receipt, h.logFile]

theorem foldl_later_same {row row' : LedgerRow} (hrow : SameRun row row')
    (h : List.Forall₂ SameRun rows rows') :
    SameRun (rows.foldl later row) (rows'.foldl later row') := by
  induction h generalizing row row' with
  | nil => exact hrow
  | cons hnext _ ih =>
    rw [foldl_cons, foldl_cons]
    refine ih ?_
    rw [later, later, finishedKey, finishedKey, finishedKey, finishedKey, hnext.receipt,
      hrow.receipt]
    split_ifs
    · exact hrow
    · exact hnext

theorem newest_same (h : List.Forall₂ SameRun rows rows') (index : Nat) (sha : String) :
    (newest rows').map (fun row => (index, evidence pred sha row)) =
      (newest rows).map fun row => (index, evidence pred sha row) := by
  cases h with
  | nil => rfl
  | cons hrow hrest =>
    rw [newest, newest, Option.map_some, Option.map_some,
      evidence_same (foldl_later_same hrow hrest)]

end

def Qualified (pred : QualifyingPredicate) (sha : String) (row : LedgerRow) : Bool :=
  row.receipt.commit = some sha && Rust.rowQualifies row.receipt sha pred

namespace Tally

def flags (t : Tally) : Bool × Bool × Bool × Bool × Bool :=
  (t.qualifying.isEmpty, t.sawFailed, t.sawNeedsRerun, t.sawTruncated, t.sawNoResult)

theorem verdict_of_flags {t t' : Tally} (h : t'.flags = t.flags) : t'.verdict = t.verdict := by
  simp only [flags, Prod.mk.injEq] at h
  obtain ⟨hq, hf, hn, ht, hr⟩ := h
  have hnil : t'.qualifying = [] ↔ t.qualifying = [] := by
    rw [← List.isEmpty_iff, ← List.isEmpty_iff, hq]
  simp only [verdict, ne_eq, hnil, hf, hn, ht, hr]

theorem qualifying_disqualify (t : Tally) (row : LedgerRow) (sha : String)
    (disposition : FailureDisposition) :
    (t.disqualify row sha disposition).qualifying = t.qualifying := by
  cases disposition <;> rw [disqualify]
  all_goals
    rw [withhold]
    split_ifs <;> rfl

variable {pred : QualifyingPredicate} {sha : String}

theorem qualifying_count (t : Tally) (row : LedgerRow) : (count pred sha t row).qualifying =
      t.qualifying ++ [row].filter (Qualified pred sha) := by
  rw [count, filter_singleton, Qualified]
  cases hq : Rust.rowQualifies row.receipt sha pred with
  | false => split_ifs <;> simp_all [qualifying_disqualify]
  | true => split_ifs <;> simp_all

theorem flags_withhold (t : Tally) (row : LedgerRow) (sha : String) :
    (t.withhold row sha).flags = t.flags := by
  rw [withhold]
  split_ifs <;> rfl

theorem flags_count {t t' : Tally} {row row' : LedgerRow} (h : t'.flags = t.flags)
    (hrow : SameRun row row')
    (hd : Rust.failureDisposition row' sha = Rust.failureDisposition row sha) :
    (count pred sha t' row').flags = (count pred sha t row).flags := by
  rw [count, count, hrow.receipt, hd]
  simp only [flags, Prod.mk.injEq] at h
  obtain ⟨hq, hf, hn, ht, hr⟩ := h
  split_ifs
  · simp only [flags, hq, hf, hn, ht, hr]
  · have happended : ∀ (rows : List LedgerRow) row, (rows ++ [row]).isEmpty = false := by
      rintro ⟨⟩ row <;> rfl
    simp only [flags, happended, hf, hn, ht, hr]
  · change (t'.disqualify row' sha _).flags = (t.disqualify row sha _).flags
    cases Rust.failureDisposition row sha <;>
      simp only [disqualify, flags_withhold] <;> simp only [flags, hq, hf, hn, ht, hr]

theorem flags_foldl {rows rows' : List LedgerRow} (h : List.Forall₂ SameRun rows rows')
    (hd : List.Forall₂ (fun row row' =>
      Rust.failureDisposition row' sha = Rust.failureDisposition row sha) rows rows')
    {t t' : Tally} (ht : t'.flags = t.flags) :
    (rows'.foldl (count pred sha) t').flags = (rows.foldl (count pred sha) t).flags := by
  induction h generalizing t t' with
  | nil => exact ht
  | cons hrow _ ih =>
    cases hd with
    | cons hd hrest => exact ih hrest (flags_count ht hrow hd)

theorem qualifying_foldl (rows : List LedgerRow) (t : Tally) :
    (rows.foldl (count pred sha) t).qualifying =
      t.qualifying ++ rows.filter (Qualified pred sha) := by
  induction rows generalizing t with
  | nil => simp
  | cons row rows ih =>
    rw [foldl_cons, ih, qualifying_count, append_assoc, ← filter_append, singleton_append]

end Tally

section

variable {pred : QualifyingPredicate} {rows rows' : List LedgerRow} {sha : String}

theorem assess_qualifying :
    (assess pred rows sha).qualifying = rows.filter (Qualified pred sha) := by
  rw [assess, Tally.qualifying_foldl]
  rfl

theorem filter_qualified_same (h : List.Forall₂ SameRun rows rows') :
    List.Forall₂ SameRun (rows.filter (Qualified pred sha)) (rows'.filter (Qualified pred sha)) := by
  induction h with
  | nil => exact .nil
  | cons hrow _ ih =>
    rw [filter_cons, filter_cons, Qualified, Qualified, hrow.receipt]
    split_ifs
    · exact .cons hrow ih
    · exact ih

theorem verdict_same (h : List.Forall₂ SameRun rows rows')
    (hd : List.Forall₂ (fun row row' =>
      Rust.failureDisposition row' sha = Rust.failureDisposition row sha) rows rows') :
    (assess pred rows' sha).verdict = (assess pred rows sha).verdict :=
  Tally.verdict_of_flags (Tally.flags_foldl h hd rfl)

theorem assess_rowsOf : assess pred (rowsOf rows sha) sha = assess pred rows sha := by
  have hfold : ∀ t, (rowsOf rows sha).foldl (Tally.count pred sha) t =
      rows.foldl (Tally.count pred sha) t := by
    induction rows with
    | nil => exact fun t => rfl
    | cons row rows ih =>
      intro t
      rw [rowsOf] at ih ⊢
      rw [filter_cons, foldl_cons]
      by_cases hcommit : row.receipt.commit = some sha
      · rw [if_pos (decide_eq_true hcommit), foldl_cons, ih]
      · rw [if_neg (by simpa using hcommit), ih, Tally.count, if_pos hcommit]
  rw [assess, assess, hfold]

end

variable {pred : QualifyingPredicate} {rows rows' : List LedgerRow}

theorem any_partialPass_same (h : List.Forall₂ SameRun rows rows') :
    rows'.any isPartialPass = rows.any isPartialPass := by
  induction h with
  | nil => rfl
  | cons hrow _ ih => rw [any_cons, any_cons, ih, isPartialPass, isPartialPass, hrow.receipt]

theorem scanCommit_same (h : List.Forall₂ SameRun rows rows')
    (hverdict : ∀ sha, (assess pred rows' sha).verdict = (assess pred rows sha).verdict)
    (scan : GreenScan) (entry : String × Nat) :
    scanCommit pred rows' scan entry = scanCommit pred rows scan entry := by
  have hany := any_partialPass_same (rowsOf_same h entry.1)
  have hnewest := @newest_same pred _ _ (@filter_qualified_same pred _ _ entry.1 h) entry.2 entry.1
  rw [← assess_qualifying, ← assess_qualifying] at hnewest
  simp only [scanCommit, rowsOf_nil_iff h, assess_rowsOf, hverdict, hany, hnewest]

theorem newestGreen_same (h : List.Forall₂ SameRun rows rows')
    (hverdict : ∀ sha, (assess pred rows' sha).verdict = (assess pred rows sha).verdict)
    (branch branchRef gateSchema gateSchemaFloor : String) (commits : List String) :
    newestGreen pred branch branchRef gateSchema gateSchemaFloor commits rows' =
      newestGreen pred branch branchRef gateSchema gateSchemaFloor commits rows := by
  have hscan : scanCommit pred rows' = scanCommit pred rows :=
    funext fun scan => funext fun entry => scanCommit_same h hverdict scan entry
  simp only [newestGreen, hscan, rowsOf_nil_iff h]

end DevHermit.Receipt
