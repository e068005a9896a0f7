import DevHermit.Finalize.Coverage
import DevHermit.Lib.System
import DevHermit.Receipt.Evidence

namespace DevHermit.Finalize

open Lib Receipt

abbrev Row := Dict Json

def receiptCanonicalization : String := "serde_json::to_vec(HistoryRow)-v1"

def producer : String := "ci-hub-finalize-receipt"

def isLowerHex (length : Nat) (text : String) : Bool :=
  text.length = length && text.toList.all fun c => ('0' ≤ c && c ≤ '9') || ('a' ≤ c && c ≤ 'f')

structure Authority where
  digest : Row → String → Except String String
  qualifying : Row → String → Except String String

inductive SelectedRowReason where
  | invalidSha
  | invalidSelectedRowSha256
  | selectedRowMissing
  | ambiguousSelectedRow
  | ambiguousFinalization
  | invalidExistingFinalization
  deriving DecidableEq, Repr

structure SelectedRowError where
  reason : SelectedRowReason
  detail : String
  deriving DecidableEq, Repr

section

variable (authority : Authority)

def isSelected (sha digest : String) (row : Row) : Bool :=
  Fields.value row.get? "commit" = .str sha &&
    match authority.digest row sha with
    | .ok found => found = digest
    | .error _ => false

def resolveSelectedRow (rows : List Row) (sha digest : String) : Except SelectedRowError Row :=
  if !isLowerHex 40 sha then
    .error ⟨.invalidSha, "--sha must be exactly 40 lowercase hex"⟩
  else if !isLowerHex 64 digest then
    .error ⟨.invalidSelectedRowSha256, "--selected-row-sha256 must be exactly 64 lowercase hex"⟩
  else
    match rows.filter (isSelected authority sha digest) with
    | [] => .error ⟨.selectedRowMissing,
        "no canonical row for " ++ sha ++ " has digest " ++ digest⟩
    | [row] => .ok row
    | found => .error ⟨.ambiguousSelectedRow,
        toString found.length ++ " rows for " ++ sha ++ " have digest " ++ digest⟩

def isCountlessCleanFullPass (row : Row) : Bool :=
  Fields.value row.get? "commit_anchored" = .bool true &&
    Fields.value row.get? "tree_dirty" = .bool false &&
    Fields.value row.get? "selection_mode" = .str "full" &&
    Fields.value row.get? "profile" = .str "full" &&
    Fields.value row.get? "result" = .str "pass" &&
    Fields.value row.get? "executed_tests" = .null

def claimsSource (sha digest : String) (row : Row) : Bool :=
  Fields.value row.get? "commit" = .str sha &&
    match Fields.value row.get? "finalized_from" with
    | .obj entries =>
      (Fields.of entries).value "digest_algorithm" = .str "sha256" &&
        (Fields.of entries).value "digest" = .str digest &&
        (Fields.of entries).value "canonicalization" = .str receiptCanonicalization
    | _ => false

def existingFinalization (rows : List Row) (sha digest : String) :
    Except SelectedRowError (Option Row) :=
  match rows.filter (claimsSource sha digest) with
  | [] => .ok none
  | [row] =>
    match authority.qualifying row sha with
    | .ok _ => .ok (some row)
    | .error error => .error ⟨.invalidExistingFinalization,
        "existing clone of " ++ digest ++ " is not canonical: " ++ error⟩
  | found => .error ⟨.ambiguousFinalization,
      toString found.length ++ " finalized rows claim source " ++ digest⟩

end

structure BaseEvidence where
  baseSha : String
  baseTree : String
  reverieBaseSha : String
  reverieBaseTree : String

def countJson : Option Nat → Json
  | none => .null
  | some n => .int n

def coverageJson (c : CoverageObject) : Json :=
  .obj [("planned_test_nodes", .int c.plannedTestNodes),
    ("executed_test_nodes", .int c.executedTestNodes),
    ("zero_executed_nodes", .arr (c.zeroExecutedNodes.map .str)),
    ("absent_nodes", .arr (c.absentNodes.map .str))]

def derivedFields (c : CoverageObject) (base : BaseEvidence) : List (String × Json) :=
  [("schema_version", .int c.schemaVersion), ("executed_tests", countJson c.executedTests),
    ("filtered_tests", countJson c.filteredTests), ("coverage", coverageJson c),
    ("repo", .str "hermit"), ("base_sha", .str base.baseSha), ("base_tree", .str base.baseTree),
    ("reverie_base_sha", .str base.reverieBaseSha),
    ("reverie_base_tree", .str base.reverieBaseTree)]

def finalizedFrom (baseRow : Row) (digest : String) : Json :=
  .obj ([("digest_algorithm", .str "sha256"), ("canonicalization", .str receiptCanonicalization),
    ("digest", .str digest)] ++ (baseRow.get? "producer").toList.map fun j => ("producer", j))

def cloneUpgraded (baseRow : Row) (fields : List (String × Json)) (digest : String) : Row :=
  ((baseRow.update fields).set "finalized_from" (finalizedFrom baseRow digest)).set "producer"
    (.str producer)

inductive Reason where
  | insufficientSourceRow
  | noLog
  | noManifest
  | noBase
  | unsatisfiedCoverage
  | alreadyFinalized
  | wouldMint
  | minted
  deriving DecidableEq, Repr

structure Report where
  sha : String
  satisfied : Bool
  reason : Reason
  exitCode : Nat
  appended : Nat
  detail : Option String
  executedTests : Option (Option Nat)
  plannedTestNodes : Option Nat

inductive Outcome where
  | report (r : Report)
  | selectedRowError (e : SelectedRowError)
  | raised (e : PyError)

structure Reads where
  logText : Option (List Char)
  planned : List String
  base : Except String BaseEvidence

structure Preflight where
  clone : Row
  executedTests : Option Nat
  plannedTestNodes : Nat

def refusal (sha : String) (reason : Reason) (detail : Option String) : Outcome :=
  .report ⟨sha, false, reason, 1, 0, detail, none, none⟩

def gatherEvidence (isWord : Char → Bool) (authority : Authority) (sha digest : String)
    (selected : Row) (reads : Reads) : Except Outcome Preflight :=
  if !isCountlessCleanFullPass selected then
    .error (refusal sha .insufficientSourceRow
      (some "selected row is not a count-less clean/full/pass source"))
  else if Fields.value selected.get? "repo" ∉
      [.null, .str "hermit", .str "rrnewton/hermit"] then
    .error (refusal sha .insufficientSourceRow
      (some ("selected row names non-Hermit repo " ++
        (Fields.value selected.get? "repo").pyRepr)))
  else
    match Fields.value selected.get? "log_file", reads.logText with
    | .str _, some logText =>
      if reads.planned = [] then .error (refusal sha .noManifest none)
      else
        match buildCoverage isWord logText reads.planned with
        | .error e => .error (.raised e)
        | .ok c =>
          match reads.base with
          | .error error => .error (refusal sha .noBase (some error))
          | .ok base =>
            if Python.coverageVerdict (coverageJson c) ≠ .satisfied then
              .error (.report ⟨sha, false, .unsatisfiedCoverage, 1, 0, none,
                some c.executedTests, some c.plannedTestNodes⟩)
            else
              let clone := cloneUpgraded selected (derivedFields c base) digest
              match authority.qualifying clone sha with
              | .error error => .error (.report ⟨sha, false, .insufficientSourceRow, 1, 0,
                  some error, some c.executedTests, some c.plannedTestNodes⟩)
              | .ok _ => .ok ⟨clone, c.executedTests, c.plannedTestNodes⟩
    | _, _ => .error (refusal sha .noLog none)

def decideAppend (authority : Authority) (rows : List Row) (sha digest : String) (dryRun : Bool)
    (ready : Preflight) : Outcome ⊕ Row :=
  match resolveSelectedRow authority rows sha digest with
  | .error e => .inl (.selectedRowError e)
  | .ok _ =>
    match existingFinalization authority rows sha digest with
    | .error e => .inl (.selectedRowError e)
    | .ok (some _) => .inl (.report ⟨sha, true, .alreadyFinalized, 0, 0, none, none, none⟩)
    | .ok none =>
      if dryRun then
        .inl (.report ⟨sha, true, .wouldMint, 0, 0, none, some ready.executedTests,
          some ready.plannedTestNodes⟩)
      else .inr ready.clone

def mintedReport (sha : String) (ready : Preflight) : Report :=
  ⟨sha, true, .minted, 0, 1, none, some ready.executedTests, some ready.plannedTestNodes⟩

inductive Stage where
  | opened
  | selected (row : Row)
  | ready (preflight : Preflight)
  | done (outcome : Outcome)

structure Call where
  sha : String
  digest : String
  dryRun : Bool
  stage : Stage

structure LedgerText (Line : Type) where
  bytes : Line → List Char
  rowsIn : Line → List Row
  render : Row → Line
  rowsIn_render : ∀ row, rowsIn (render row) = [row]

structure Mint where
  sha : String
  digest : String
  row : Row
  place : Nat
  source : Nat

structure World (Line : Type) where
  ledger : List Line
  calls : List Call
  mints : List Mint

inductive Event (Line : Type) where
  | append (line : Line)
  | call (sha digest : String) (dryRun : Bool)
  | select (p : Nat)
  | gather (p : Nat) (reads : Reads)
  | commit (p : Nat)

variable {Line : Type} (text : LedgerText Line) (isWord : Char → Bool) (authority : Authority)

def content (ledger : List Line) : List Char := ledger.flatMap fun line => text.bytes line ++ ['\n']

def rowsOf (ledger : List Line) : List Row := ledger.flatMap text.rowsIn

def placesOf (rows : List Row) (p : Row → Bool) : List Nat :=
  (rows.zipIdx.filter fun e => p e.1).map Prod.snd

def selectStep (rows : List Row) (call : Call) : Stage :=
  match resolveSelectedRow authority rows call.sha call.digest with
  | .error e => .done (.selectedRowError e)
  | .ok row => .selected row

def gatherStep (call : Call) (row : Row) (reads : Reads) : Stage :=
  match gatherEvidence isWord authority call.sha call.digest row reads with
  | .error outcome => .done outcome
  | .ok preflight => .ready preflight

def World.setStage (w : World Line) (p : Nat) (call : Call) (stage : Stage) : World Line :=
  { w with calls := w.calls.set p { call with stage := stage } }

def commitStep (w : World Line) (p : Nat) (call : Call) (ready : Preflight) : World Line :=
  let rows := rowsOf text w.ledger
  match decideAppend authority rows call.sha call.digest call.dryRun ready with
  | .inl outcome => w.setStage p call (.done outcome)
  | .inr row =>
    { w.setStage p call (.done (.report (mintedReport call.sha ready))) with
      ledger := w.ledger ++ [text.render row]
      mints := w.mints ++ [⟨call.sha, call.digest, row, rows.length,
        (placesOf rows (isSelected authority call.sha call.digest)).headD 0⟩] }

def step (w : World Line) : Event Line → Option (World Line)
  | .append line => some { w with ledger := w.ledger ++ [line] }
  | .call sha digest dryRun => some { w with calls := w.calls ++ [⟨sha, digest, dryRun, .opened⟩] }
  | .select p =>
    match w.calls[p]? with
    | some call =>
      match call.stage with
      | .opened => some (w.setStage p call (selectStep authority (rowsOf text w.ledger) call))
      | _ => none
    | none => none
  | .gather p reads =>
    match w.calls[p]? with
    | some call =>
      match call.stage with
      | .selected row => some (w.setStage p call (gatherStep isWord authority call row reads))
      | _ => none
    | none => none
  | .commit p =>
    match w.calls[p]? with
    | some call =>
      match call.stage with
      | .ready preflight => some (commitStep text authority w p call preflight)
      | _ => none
    | none => none

def system (ledger : List Line) : System (World Line) (Event Line) where
  start := ⟨ledger, [], []⟩
  step := step text isWord authority

end DevHermit.Finalize
