import DevHermit.Receipt.Agreement

namespace DevHermit.Receipt

open Lib

def redTexts : List String := ["fail", "failed", "timeout"]

def fullGatesExpected : Nat := 5

def exitCommandNotFound : Int := 127

def floatBound : Int := 2 ^ 1024 - 2 ^ 970

def asF64 : Json → Option ℚ
  | .int n => if -floatBound < n ∧ n < floatBound then some n else none
  | .float _ v => some v
  | _ => none

def secondsField (fields : Fields) : Option (Option ℚ) :=
  fields.defaulted "real_seconds" none fun j => if j = .null then some none else (asF64 j).map some

structure GateHistoryRow where
  name : String
  result : Option String
  kind : Option String
  exitCode : Option Int
  realSeconds : Option ℚ
  sourceNode : Option String
  failureOrigin : Option String
  failedSubsteps : List String
  extra : List (String × Json)
  deriving DecidableEq

def gateFields : List String :=
  ["name", "result", "kind", "exit_code", "real_seconds", "source_node", "failure_origin",
    "failed_substeps"]

def GateHistoryRow.read (fields : Fields) (extra : List (String × Json)) :
    Option GateHistoryRow := do
  let name ← fields.required "name" .str
  let result ← fields.optional "result" .str
  let kind ← fields.optional "kind" .str
  let exitCode ← fields.optional "exit_code" (.signed 32)
  let realSeconds ← secondsField fields
  let sourceNode ← fields.optional "source_node" .str
  let failureOrigin ← fields.optional "failure_origin" .str
  let failedSubsteps ← fields.defaulted "failed_substeps" [] Codec.str.list.decode
  some ⟨name, result, kind, exitCode, realSeconds, sourceNode, failureOrigin, failedSubsteps, extra⟩

def GateHistoryRow.deserialise : Json → Option GateHistoryRow
  | .obj entries => read (.of entries) (entries.filter fun e => e.1 ∉ gateFields)
  | _ => none

def gatesField (fields : Fields) : Option (List GateHistoryRow) :=
  fields.defaulted "gates" [] fun j => j.asArray.bind (·.mapM GateHistoryRow.deserialise)

structure LedgerRow where
  receipt : HistoryRow
  exitCode : Option Int
  checks : Option Nat
  gatesRun : Option Nat
  gatesExpected : Option Nat
  dagJobs : Option Nat
  knownFlakyFailure : Option Bool
  soloRerunConfirmation : Option Bool
  realSeconds : Option ℚ
  logFile : Option String
  gates : List GateHistoryRow

def LedgerRow.deserialise (row : Dict Json) : Option LedgerRow := do
  let receipt ← HistoryRow.deserialise row
  let exitCode ← Fields.optional row.get? "exit_code" (.signed 32)
  let checks ← Fields.optional row.get? "checks" (.unsigned 64)
  let gatesRun ← Fields.optional row.get? "gates_run" (.unsigned 64)
  let gatesExpected ← Fields.optional row.get? "gates_expected" (.unsigned 64)
  let dagJobs ← Fields.optional row.get? "dag_jobs" (.unsigned 64)
  let knownFlakyFailure ← Fields.optional row.get? "known_flaky_failure" .bool
  let soloRerunConfirmation ← Fields.optional row.get? "solo_rerun_confirmation" .bool
  let realSeconds ← secondsField row.get?
  let logFile ← Fields.optional row.get? "log_file" .str
  let gates ← gatesField row.get?
  some ⟨receipt, exitCode, checks, gatesRun, gatesExpected, dagJobs, knownFlakyFailure,
    soloRerunConfirmation, realSeconds, logFile, gates⟩

inductive FailureDisposition where
  | notFailure
  | truncated
  | needsRerun
  | noResult
  | failed
  deriving DecidableEq, Repr

namespace Rust

def isRedText (text : Option String) : Bool := text.any (· ∈ redTexts)

def gateIsRed (gate : GateHistoryRow) : Bool := isRedText gate.result || isRedText gate.kind

def isGenuineRed (gate : GateHistoryRow) : Bool :=
  gate.exitCode ≠ some exitCommandNotFound && gate.realSeconds.any (0 < ·)

def isEnvFaultRed (row : LedgerRow) (failedGates : List GateHistoryRow) : Bool :=
  if failedGates = [] then false
  else
    let anyGenuineRed := failedGates.any isGenuineRed
    let anyCommandNotFound := failedGates.any (·.exitCode = some exitCommandNotFound)
    let commandNotFoundStorm := anyCommandNotFound && !anyGenuineRed
    let subsecondCollapse := row.realSeconds.any (· ≤ 1) && row.gates ≠ [] && row.gates.all gateIsRed
    commandNotFoundStorm || subsecondCollapse

def isCleanFullCoverage (row : LedgerRow) (sha : String) : Bool :=
  row.receipt.commit = some sha && row.receipt.commitAnchored = some true &&
    row.receipt.treeDirty = some false && row.receipt.selectionMode = some "full" &&
    row.receipt.profile = some "full"

def gatesRan (row : LedgerRow) : Option Nat := row.gatesRun.or row.checks

def gatesExpected (row : LedgerRow) : Option Nat :=
  row.gatesExpected.or
    (if row.receipt.profile = some "full" ∧ row.receipt.schemaVersion.any (3 ≤ ·) then
      some fullGatesExpected else none)

def underRun (row : LedgerRow) : Bool :=
  (gatesExpected row).any fun expected => (gatesRan row).any fun ran => 0 < expected ∧ ran < expected

def complete (row : LedgerRow) : Bool :=
  (gatesExpected row).any fun expected => (gatesRan row).any fun ran => 0 < expected ∧ expected ≤ ran

def hasRealFailure (row : LedgerRow) (failedGates : List GateHistoryRow) : Bool :=
  row.receipt.failures.any (1 ≤ ·) || failedGates ≠ []

def originBound (failedGates : List GateHistoryRow) : Bool :=
  failedGates ≠ [] && failedGates.all fun gate =>
    gate.failureOrigin = some "outer_gate" ||
      (gate.failureOrigin = some "lane_substep" && gate.failedSubsteps ≠ [])

def conditionsPresent (row : LedgerRow) : Bool :=
  row.dagJobs.isSome && row.receipt.concurrentValidates.isSome && row.knownFlakyFailure.isSome

def unconfirmed (row : LedgerRow) : Bool :=
  let contended := row.receipt.concurrentValidates.any (0 < ·) || row.dagJobs.any (4 < ·)
  let flaky := row.knownFlakyFailure = some true
  let confirmed := row.soloRerunConfirmation = some true && row.dagJobs = some 4 &&
    row.receipt.concurrentValidates = some 0
  (contended || flaky) && !confirmed

def failureDisposition (row : LedgerRow) (sha : String) : FailureDisposition :=
  if row.receipt.result = some "truncated" then .truncated
  else if row.receipt.result = some "needs-rerun" ∨ row.receipt.result = some "needs_rerun" then
    .needsRerun
  else if !isCleanFullCoverage row sha || !isRedText row.receipt.result then .notFailure
  else
    let failedGates := row.gates.filter gateIsRed
    if isEnvFaultRed row failedGates then .noResult
    else if underRun row || (!hasRealFailure row failedGates &&
        (row.exitCode = some 130 || (row.receipt.failures = some 0 && failedGates = []))) then
      .truncated
    else if !hasRealFailure row failedGates then .noResult
    else if !complete row || !conditionsPresent row || !originBound failedGates then .needsRerun
    else if unconfirmed row then .needsRerun
    else .failed

end Rust

namespace Python

def isInt? : Json → Option Int
  | .int n => some n
  | .bool b => some (if b then 1 else 0)
  | _ => none

def iterate : Json → Except PyError (List Json)
  | .arr items => .ok items
  | .str s => .ok (s.toList.map fun c => .str (String.singleton c))
  | .obj entries => .ok (entries.map fun e => .str e.1)
  | _ => .error .typeError

def isRedText : Json → Bool
  | .str s => s ∈ redTexts
  | _ => false

def gateDicts (record : Fields) : Except PyError (List Fields) := do
  let gates ← iterate ((record "gates").getD (.arr []))
  .ok (gates.filterMap fun g => g.asObject.map Fields.of)

def gateCounts (record : Fields) : Option Int × Option Int :=
  let ran := (record "gates_run").getD (record.value "checks")
  let expected := record.value "gates_expected"
  let schema := isInt? (record.value "schema_version")
  let expected := if expected = .null ∧ (record.value "profile").pyEq (.str "full") ∧
    schema.any (3 ≤ ·) then .int fullGatesExpected else expected
  (isInt? ran, isInt? expected)

def failingGates (record : Fields) : Except PyError (List Fields) := do
  let gates ← gateDicts record
  .ok (gates.filter fun g => isRedText (g.value "result"))

def hasRealFailure (record : Fields) : Except PyError Bool := do
  let failing ← failingGates record
  .ok (failing ≠ [] || (isInt? (record.value "failures")).any (1 ≤ ·))

def isTruncated (record : Fields) : Except PyError Bool :=
  if (record.value "result").pyEq (.str "truncated") then .ok true
  else
    match gateCounts record with
    | (some ran, some expected) =>
      if 0 < expected then .ok (ran < expected)
      else interrupted
    | _ => interrupted
where
  interrupted : Except PyError Bool := do
    let real ← hasRealFailure record
    .ok (!real && (record.value "exit_code").pyEq (.int 130))

def gateExit (g : Fields) : Option Int := isInt? (g.value "exit_code")

def gateSeconds (g : Fields) : Except PyError ℚ :=
  match g.value "real_seconds" with
  | .int n =>
    if -floatBound < n ∧ n < floatBound then .ok n else .error (.raised "OverflowError")
  | j => .ok (j.number?.getD 0)

def genuineRed (g : Fields) : Except PyError Bool :=
  if gateExit g = some exitCommandNotFound then .ok false
  else do
    let seconds ← gateSeconds g
    .ok (0 < seconds)

def isEnvFault (record : Fields) : Except PyError Bool := do
  let failed ← failingGates record
  if failed = [] then .ok false
  else
    let anyGenuineRed ← failed.anyM genuineRed
    let storm := (failed.any fun g => gateExit g = some exitCommandNotFound) && !anyGenuineRed
    let gates ← gateDicts record
    let subsecond := (record.value "real_seconds").number?.any (· ≤ 1) && gates ≠ [] &&
      gates.all fun g => isRedText (g.value "result")
    .ok (storm || subsecond)

def isFullCoverage (record : Fields) : Bool :=
  match record.value "full_coverage" with
  | .bool b => b
  | _ => (record.value "profile").pyEq (.str "full")

def effectiveResult (record : Fields) : Except PyError Json := do
  let result := record.value "result"
  let red := result.pyEq (.str "fail") || result.pyEq (.str "timeout")
  if ← (if red then isEnvFault record else .ok false) then return .str "no-result"
  if ← isTruncated record then return .str "truncated"
  if ← (if red then (!·) <$> hasRealFailure record else .ok false) then return .str "no-result"
  if result.pyEq (.str "pass") && !isFullCoverage record then return .str "pass-partial"
  return result

end Python

end DevHermit.Receipt
