import DevHermit.Receipt.Evidence

namespace DevHermit.Receipt

open Lib

def timestampShape : List (Option Char) :=
  [none, none, none, none, some '-', none, none, some '-', none, none, some 'T', none, none,
    some ':', none, none, some ':', none, none, some 'Z']

def fits (digit : Char → Bool) : List (Option Char) → List Char → Bool
  | [], [] => true
  | none :: shape, c :: text => digit c && fits digit shape text
  | some literal :: shape, c :: text => c == literal && fits digit shape text
  | _, _ => false

inductive ProducerVerdict where
  | ok
  | grandfathered
  | missing
  | unknownWriter
  deriving DecidableEq, Repr

def ProducerVerdict.value : ProducerVerdict → String
  | .ok => "ok"
  | .grandfathered => "grandfathered-unknown"
  | .missing => "missing"
  | .unknownWriter => "unknown-writer"

namespace Rust

inductive Qualification where
  | fullCoverage
  | countsOnlyGrandfathered (schema : Nat)
  | refused (reason : String)
  deriving DecidableEq, Repr

def Qualification.accepted : Qualification → Bool
  | .refused _ => false
  | _ => true

def isRfc3339Z (ts : String) : Bool := fits Char.isDigit timestampShape ts.toList

def producerEnforcedFor (row : HistoryRow) (pred : QualifyingPredicate) : Bool :=
  if !pred.producer.required then false
  else
    match pred.producer.appliesFromFinishedAt with
    | none => false
    | some epoch =>
      if epoch = "" then false
      else
        match row.finishedAt with
        | some ts => if isRfc3339Z ts then epoch ≤ ts else true
        | none => true

def producerVerdict (row : HistoryRow) (pred : QualifyingPredicate) : ProducerVerdict :=
  match ((row.extra.lookup "producer").bind Json.asStr).filter fun s => s ≠ "" with
  | some name =>
    if pred.producer.known = [] ∨ name ∈ pred.producer.known then .ok else .unknownWriter
  | none => if producerEnforcedFor row pred then .missing else .grandfathered

def gates (row : HistoryRow) (pred : QualifyingPredicate) (qualification : Qualification) :
    Qualification :=
  if !qualification.accepted then qualification
  else if producerEnforcedFor row pred ∧ producerVerdict row pred = .missing then
    .refused "producer missing"
  else if producerEnforcedFor row pred ∧ producerVerdict row pred = .unknownWriter then
    .refused "producer unknown-writer"
  else if !sharedEvidenceAccepts row pred then .refused "shared evidence contract not satisfied"
  else
    match derivedGreenClass row.commit fun k => row.extra.lookup k with
    | none => .refused "no derivable green class"
    | some greenClass =>
      if greenClass.text ∈ pred.acceptsGreenClass then qualification
      else .refused "green class not accepted by predicate"

def coverageQualification (row : HistoryRow) : Qualification :=
  match row.coverage.map coverageVerdict with
  | some .satisfied => .fullCoverage
  | some .unsatisfied => .refused "coverage reported inert or absent nodes"
  | some (.unavailable why) => .refused why
  | none => .refused ("count-capable receipt carries no coverage object; unavailable coverage " ++
      "is refused, never accepted")

def executedOk (row : HistoryRow) (pred : QualifyingPredicate) : Bool :=
  row.executedTests.any fun n => pred.require.executedTestsMin ≤ n

def countQualification (row : HistoryRow) (pred : QualifyingPredicate) : Qualification :=
  let schema := row.schemaVersion.getD 0
  if pred.countsSchema ≤ schema then
    if !executedOk row pred then .refused "executed_tests below executed_tests_min"
    else if !pred.coverage.perNode ∨ schema < pred.coverage.appliesAtSchemaMin then .fullCoverage
    else gates row pred (coverageQualification row)
  else if row.executedTests.isSome ∧ row.filteredTests.isSome then
    gates row pred
      (if executedOk row pred then .countsOnlyGrandfathered schema
        else .refused "pre-coverage receipt below executed_tests_min")
  else gates row pred (.refused "no counts: receipt proves nothing")

def rowQualification (row : HistoryRow) (sha : String) (pred : QualifyingPredicate) :
    Qualification :=
  let req := pred.require
  if ¬ (row.commit = some sha ∧ row.commitAnchored = some req.commitAnchored ∧
      row.treeDirty = some req.treeDirty ∧ row.selectionMode = some req.selectionMode ∧
      row.profile = some req.profile ∧ row.result = some req.result) then
    .refused "identity/result clause"
  else if row.failures.getD 0 > req.failuresMax then .refused "failures > failures_max"
  else if row.executedTests = some 0 then .refused "executed_tests == 0"
  else if pred.gateFilteredTests ∧ row.filteredTests ≠ some 0 then .refused "filtered_tests != 0"
  else countQualification row pred

def rowQualifies (row : HistoryRow) (sha : String) (pred : QualifyingPredicate) : Bool :=
  (rowQualification row sha pred).accepted

end Rust

namespace Python

def isRfc3339Z (ts : String) : Bool := fits isDecimalDigit timestampShape ts.toList

def producerEnforcedFor (row pred : Fields) : Except PyError Bool :=
  (producerClause pred).map fun clause =>
    if !clause.required then false
    else
      match nonempty? clause.appliesFromFinishedAt with
      | none => false
      | some epoch =>
        match row.value "finished_at" with
        | .str finished => if isRfc3339Z finished then epoch ≤ finished else true
        | _ => true

def producerVerdict (row pred : Fields) : Except PyError ProducerVerdict :=
  (producerClause pred).bind fun clause =>
    match nonempty? (row.value "producer") with
    | some named =>
      .ok (if clause.known = [] ∨ named ∈ clause.known then .ok else .unknownWriter)
    | none => (producerEnforcedFor row pred).map fun enforced =>
      if enforced then .missing else .grandfathered

def entriesOf : Json → Fields
  | .obj entries => .of entries
  | _ => .of []

def identityChecks (row req : Fields) (sha : String) : List (Bool × String) :=
  let commit := row.value "commit"
  [(commit = .null ∨ commit = .str "" ∨ commit = .str "unknown", "no-commit"),
    (!commit.pyEq (.str sha), "commit=" ++ commit.pyRepr),
    (!(row.value "commit_anchored").identical (req.value "commit_anchored"), "commit_anchored"),
    (!(row.value "tree_dirty").identical (req.value "tree_dirty"), "tree_dirty"),
    (!(row.value "profile").pyEq (req.value "profile"),
      "profile=" ++ (row.value "profile").pyRepr),
    (!(row.value "selection_mode").pyEq (req.value "selection_mode"),
      "selection_mode=" ++ (row.value "selection_mode").pyRepr ++ "(1-hop)"),
    (!(row.value "result").pyEq (req.value "result"), "result=" ++ (row.value "result").pyRepr)]

def executedOk (value min : Json) : Except PyError Bool :=
  match value with
  | .int _ | .bool _ => min.numLe value
  | _ => .ok false

def coverageCheck (row : Fields) (applies : Bool) : Bool × String :=
  if applies then
    let verdict := coverageVerdict (row.value "coverage")
    if verdict = .satisfied then (true, "qualifies")
    else (false, "count-capable receipt coverage " ++ verdict.value)
  else (true, "qualifies")

def perNodeApplies (cov : Fields) (schema : Json) : Except PyError Bool :=
  if (cov.value "per_node").truthy then (cov.value "applies_at_schema_min").numLe schema
  else .ok false

def countChecks (row pred : Fields) : Except PyError (Bool × String) :=
  let schema := (row.value "schema_version").orZero
  let req := entriesOf (pred.value "require")
  ((pred.value "counts_schema").numLe schema).bind fun countCapable =>
    (executedOk (row.value "executed_tests") (req.value "executed_tests_min")).bind
      fun executedOk =>
        if countCapable then
          if !executedOk then .ok (false, "count-capable receipt missing executed_tests")
          else (perNodeApplies (entriesOf (pred.value "coverage")) schema).map (coverageCheck row)
        else if row.value "executed_tests" ≠ .null ∧ row.value "filtered_tests" ≠ .null ∧ executedOk
        then .ok (true, "qualifies")
        else .ok (false, "pre-count receipt cannot prove nonzero execution")

def rowQualificationWithoutClass (row : Fields) (sha : String) (pred : Fields) :
    Except PyError (Bool × String) :=
  let req := entriesOf (pred.value "require")
  match (identityChecks row req sha).find? fun check => check.1 with
  | some check => .ok (false, check.2)
  | none =>
    ((row.value "failures").orZero.numLe (req.value "failures_max")).bind fun within =>
      if !within then .ok (false, "failures=" ++ (row.value "failures").pyStr)
      else if (row.value "executed_tests").pyEq (.int 0) then .ok (false, "executed_tests==0")
      else if (pred.value "gate_filtered_tests").truthy ∧
          !(row.value "filtered_tests").pyEq (.int 0) then
        .ok (false, "filtered_tests!=0")
      else
        let coverageSchema := coverageSchemaVerdict row pred
        if !coverageSchemaAccepted coverageSchema then
          .ok (false, "coverage schema " ++ coverageSchema.value)
        else countChecks row pred

def acceptedClasses (pred : Fields) : Except PyError (List String) :=
  match pred.value "accepts_green_class" with
  | .null => .ok ["hard"]
  | value =>
    match pathList? value with
    | some classes => .ok classes
    | none => .error (.raised "Refusal")

def classCheck (row : Dict Json) (pred : Fields) : Except PyError (Bool × String) :=
  (deriveClass row).bind fun derived =>
    (acceptedClasses pred).map fun classes =>
      if derived.1.text ∈ classes then (true, "qualifies")
      else (false, "green_class=" ++ Json.reprString derived.1.text ++ ": " ++ derived.2)

def evidenceChecks (row : Dict Json) (pred : Fields) : Except PyError (Bool × String) :=
  let base := baseEvidenceVerdict row.get? pred
  if !baseAccepted base then .ok (false, "base " ++ base.value)
  else
    (admissionVerdict row.get? pred).bind fun admission =>
      if !admissionAccepted admission then .ok (false, "admission " ++ admission.value)
      else classCheck row pred

def rowQualification (row : Dict Json) (sha : String) (pred : Fields) :
    Except PyError (Bool × String) :=
  (rowQualificationWithoutClass row.get? sha pred).bind fun valued =>
    if !valued.1 then .ok (false, valued.2)
    else
      (producerVerdict row.get? pred).bind fun verdict =>
        (producerEnforcedFor row.get? pred).bind fun enforced =>
          if (verdict = .missing ∨ verdict = .unknownWriter) ∧ enforced then
            .ok (false, "producer " ++ verdict.value)
          else evidenceChecks row pred

def rowQualifies (row : Dict Json) (sha : String) (pred : Fields) : Except PyError Bool :=
  (rowQualification row sha pred).map Prod.fst

end Python

end DevHermit.Receipt
