import DevHermit.Receipt.GreenClass

namespace DevHermit.Receipt

open Lib Option Fields

structure CoverageRow where
  plannedTestNodes : Nat
  executedTestNodes : Nat
  zeroExecutedNodes : Option (List String)
  absentNodes : Option (List String)
  deriving DecidableEq

def coverageRowKeys : List String :=
  ["planned_test_nodes", "executed_test_nodes", "zero_executed_nodes", "absent_nodes"]

def CoverageRow.deserialise (j : Json) : Option CoverageRow := do
  let fields ← Fields.ofStruct coverageRowKeys j
  let planned ← fields.defaulted "planned_test_nodes" 0 (Codec.unsigned 64).decode
  let executed ← fields.defaulted "executed_test_nodes" 0 (Codec.unsigned 64).decode
  let zeroExecuted ← fields.optional "zero_executed_nodes" Codec.str.list
  let absent ← fields.optional "absent_nodes" Codec.str.list
  some ⟨planned, executed, zeroExecuted, absent⟩

def CoverageRow.serialise (c : CoverageRow) : Json :=
  .obj [("planned_test_nodes", .int c.plannedTestNodes),
    ("executed_test_nodes", .int c.executedTestNodes),
    ("zero_executed_nodes", Codec.str.list.nullable.encode c.zeroExecutedNodes),
    ("absent_nodes", Codec.str.list.nullable.encode c.absentNodes)]

def coverageField (fields : Fields) : Option (Option CoverageRow) :=
  fields.defaulted "coverage" none fun j =>
    if j = .null then some none else (CoverageRow.deserialise j).map some

inductive UnreadType where
  | string
  | bool
  | i32
  | u64
  | f64
  deriving DecidableEq, Repr

def UnreadType.accepts (t : UnreadType) (j : Json) : Bool :=
  j = .null ||
    match t with
    | .string => j.asStr.isSome
    | .bool => j.asBool.isSome
    | .i32 => (j.asSigned 32).isSome
    | .u64 => j.asU64.isSome
    | .f64 => j.isNumber

def unreadFields : List (String × UnreadType) :=
  [("started_at", .string), ("host", .string), ("slot", .string), ("repo", .string),
    ("cwd", .string), ("exit_code", .i32), ("full_coverage", .bool), ("checks", .u64),
    ("gates_run", .u64), ("gates_expected", .u64), ("dag_jobs", .u64),
    ("known_flaky_failure", .bool), ("solo_rerun_confirmation", .bool), ("real_seconds", .f64),
    ("user_seconds", .f64), ("sys_seconds", .f64), ("log_file", .string), ("source", .string)]

def unreadGateFields : List (String × UnreadType) :=
  [("result", .string), ("kind", .string), ("exit_code", .i32), ("real_seconds", .f64),
    ("source_node", .string), ("failure_origin", .string)]

def gateAccepts : Json → Bool
  | .obj entries =>
    (Fields.required (.of entries) "name" .str).isSome &&
      (unreadGateFields.all fun f => f.2.accepts (Fields.value (.of entries) f.1)) &&
      (Fields.defaulted (.of entries) "failed_substeps" [] Codec.str.list.decode).isSome
  | _ => false

def gatesAccept (fields : Fields) : Bool :=
  match fields "gates" with
  | none => true
  | some (.arr gates) => gates.all gateAccepts
  | some _ => false

structure HistoryRow where
  schemaVersion : Option Nat
  finishedAt : Option String
  profile : Option String
  selectionMode : Option String
  commit : Option String
  commitAnchored : Option Bool
  treeDirty : Option Bool
  result : Option String
  executedTests : Option Int
  filteredTests : Option Int
  coverage : Option CoverageRow
  failures : Option Nat
  concurrentValidates : Option Nat
  extra : List (String × Json)

def readFields : List String :=
  ["schema_version", "finished_at", "profile", "selection_mode", "commit", "commit_anchored",
    "tree_dirty", "result", "executed_tests", "filtered_tests", "coverage", "failures",
    "concurrent_validates"]

def isDeclared (k : String) : Bool :=
  k ∈ readFields || k ∈ unreadFields.map Prod.fst || k = "gates"

namespace HistoryRow

def readDeclared (fields : Fields) (extra : List (String × Json)) : Option HistoryRow := do
  let schemaVersion ← fields.optional "schema_version" (.unsigned 32)
  let finishedAt ← fields.optional "finished_at" .str
  let profile ← fields.optional "profile" .str
  let selectionMode ← fields.optional "selection_mode" .str
  let commit ← fields.optional "commit" .str
  let commitAnchored ← fields.optional "commit_anchored" .bool
  let treeDirty ← fields.optional "tree_dirty" .bool
  let result ← fields.optional "result" .str
  let executedTests ← fields.optional "executed_tests" (.signed 64)
  let filteredTests ← fields.optional "filtered_tests" (.signed 64)
  let coverage ← coverageField fields
  let failures ← fields.optional "failures" (.unsigned 64)
  let concurrentValidates ← fields.optional "concurrent_validates" (.unsigned 64)
  some ⟨schemaVersion, finishedAt, profile, selectionMode, commit, commitAnchored, treeDirty,
    result, executedTests, filteredTests, coverage, failures, concurrentValidates, extra⟩

def deserialise (row : Dict Json) : Option HistoryRow :=
  if (unreadFields.all fun f => f.2.accepts (Fields.value row.get? f.1)) && gatesAccept row.get?
  then readDeclared row.get? (row.entries.filter fun e => !isDeclared e.1)
  else none

def serialise (r : HistoryRow) : List (String × Json) :=
  [("schema_version", (Codec.unsigned 32).nullable.encode r.schemaVersion),
    ("finished_at", Codec.str.nullable.encode r.finishedAt),
    ("profile", Codec.str.nullable.encode r.profile),
    ("selection_mode", Codec.str.nullable.encode r.selectionMode),
    ("commit", Codec.str.nullable.encode r.commit),
    ("commit_anchored", Codec.bool.nullable.encode r.commitAnchored),
    ("tree_dirty", Codec.bool.nullable.encode r.treeDirty),
    ("result", Codec.str.nullable.encode r.result),
    ("executed_tests", (Codec.signed 64).nullable.encode r.executedTests),
    ("filtered_tests", (Codec.signed 64).nullable.encode r.filteredTests),
    ("coverage", (r.coverage.map CoverageRow.serialise).getD .null),
    ("failures", (Codec.unsigned 64).nullable.encode r.failures),
    ("concurrent_validates", (Codec.unsigned 64).nullable.encode r.concurrentValidates)] ++
    r.extra

end HistoryRow

inductive Rust.CoverageVerdict where
  | satisfied
  | unsatisfied
  | unavailable (why : String)
  deriving DecidableEq, Repr

def Rust.coverageVerdict (c : CoverageRow) : Rust.CoverageVerdict :=
  match c.zeroExecutedNodes, c.absentNodes with
  | some zero, some absent =>
    if c.plannedTestNodes = 0 then
      .unavailable "planned_test_nodes == 0: no planned set to cover"
    else if zero = [] ∧ absent = [] then .satisfied
    else .unsatisfied
  | _, _ =>
    .unavailable ("coverage omitted zero_executed_nodes and/or absent_nodes; " ++
      "an unreported list is unknown, not empty")

inductive Python.CoverageVerdict where
  | satisfied
  | unsatisfied
  | unavailable
  deriving DecidableEq, Repr

def Python.CoverageVerdict.value : Python.CoverageVerdict → String
  | .satisfied => "satisfied"
  | .unsatisfied => "unsatisfied"
  | .unavailable => "unavailable"

def Python.countWithin (low : Int) : Json → Bool
  | .int n => low ≤ n ∧ n ≤ 2 ^ 64 - 1
  | _ => false

def Python.coverageVerdict : Json → Python.CoverageVerdict
  | .obj entries =>
    let cov : Fields := .of entries
    if Python.countWithin 1 (cov.value "planned_test_nodes") ∧
        (cov "executed_test_nodes").all (Python.countWithin 0) then
      match pathList? (cov.value "zero_executed_nodes"), pathList? (cov.value "absent_nodes") with
      | some zero, some absent =>
        if zero ≠ [] ∨ absent ≠ [] then .unsatisfied else .satisfied
      | _, _ => .unavailable
    else .unavailable
  | _ => .unavailable

theorem pathList?_encode (names : Option (List String)) :
    pathList? (Codec.str.list.nullable.encode names) = names := by
  cases names with
  | none => rfl
  | some names =>
    have hmap : (names.map Json.str).mapM Json.asStr = some names := by
      induction names with
      | nil => rfl
      | cons name rest ih =>
        rw [List.map_cons, List.mapM_cons, ih]
        rfl
    exact hmap

theorem coverageVerdict_agree {entries : List (String × Json)} {c : CoverageRow}
    (h : CoverageRow.deserialise (.obj entries) = some c) :
    Python.coverageVerdict (.obj entries) = .satisfied ↔ Rust.coverageVerdict c = .satisfied := by
  simp only [CoverageRow.deserialise, bind_eq_bind, bind_eq_some_iff] at h
  obtain ⟨fields, hfields, planned, hplanned, executed, hexecuted, zero, hzero, absent, habsent,
    h⟩ := h
  cases some.inj hfields
  cases some.inj h
  have hzero' := congrArg pathList? (value_of_optional hzero)
  have habsent' := congrArg pathList? (value_of_optional habsent)
  rw [pathList?_encode] at hzero' habsent'
  have hcount : Python.countWithin 1 ((of entries).value "planned_test_nodes") = true ↔
      planned ≠ 0 := by
    rw [defaulted] at hplanned
    rw [Fields.value]
    cases hp : of entries "planned_test_nodes" with
    | none =>
      rw [hp] at hplanned
      rw [← some.inj hplanned]
      exact iff_of_false Bool.false_ne_true (not_not.mpr rfl)
    | some j =>
      rw [hp] at hplanned
      have hlt : planned < 2 ^ 64 := Json.lt_of_asUnsigned hplanned
      rw [getD_some, (Codec.unsigned 64).exact hplanned]
      simp only [Codec.unsigned, Python.countWithin, decide_eq_true_eq]
      omega
  have hexec : (of entries "executed_test_nodes").all (Python.countWithin 0) = true := by
    rw [defaulted] at hexecuted
    cases he : of entries "executed_test_nodes" with
    | none => rfl
    | some j =>
      rw [he] at hexecuted
      have hlt : executed < 2 ^ 64 := Json.lt_of_asUnsigned hexecuted
      rw [(Codec.unsigned 64).exact hexecuted]
      simp only [Codec.unsigned, Python.countWithin, all_some, decide_eq_true_eq]
      omega
  rw [Python.coverageVerdict, Rust.coverageVerdict]
  simp only [hzero', habsent', hcount, hexec, and_true]
  by_cases hp : planned = 0
  · simp only [hp, ne_eq, not_true_eq_false, if_false, if_true]
    cases zero <;> cases absent <;> simp
  · simp only [hp, ne_eq, not_false_eq_true, if_true, if_false]
    cases zero <;> cases absent <;> simp

namespace HistoryRow

structure Reads (r : HistoryRow) (fields : Fields) : Prop where
  schemaVersion :
    fields.value "schema_version" = (Codec.unsigned 32).nullable.encode r.schemaVersion
  finishedAt : fields.value "finished_at" = Codec.str.nullable.encode r.finishedAt
  profile : fields.value "profile" = Codec.str.nullable.encode r.profile
  selectionMode : fields.value "selection_mode" = Codec.str.nullable.encode r.selectionMode
  commit : fields.value "commit" = Codec.str.nullable.encode r.commit
  commitAnchored : fields.value "commit_anchored" = Codec.bool.nullable.encode r.commitAnchored
  treeDirty : fields.value "tree_dirty" = Codec.bool.nullable.encode r.treeDirty
  result : fields.value "result" = Codec.str.nullable.encode r.result
  executedTests :
    fields.value "executed_tests" = (Codec.signed 64).nullable.encode r.executedTests
  filteredTests :
    fields.value "filtered_tests" = (Codec.signed 64).nullable.encode r.filteredTests
  failures : fields.value "failures" = (Codec.unsigned 64).nullable.encode r.failures
  concurrentValidates : fields.value "concurrent_validates" =
    (Codec.unsigned 64).nullable.encode r.concurrentValidates
  coverage_none : fields.value "coverage" = .null ↔ r.coverage = none
  extra : ∀ k, isDeclared k = false → r.extra.lookup k = fields k

variable {fields : Fields}

theorem coverage_none_of_field {coverage : Option CoverageRow}
    (h : coverageField fields = some coverage) :
    fields.value "coverage" = .null ↔ coverage = none := by
  rw [coverageField, defaulted] at h
  rw [Fields.value]
  cases hj : fields "coverage" with
  | none =>
    rw [hj] at h
    exact iff_of_true rfl (some.inj h).symm
  | some j =>
    rw [hj] at h
    dsimp only at h
    split_ifs at h with hnull
    · exact iff_of_true hnull (some.inj h).symm
    · obtain ⟨c, -, rfl⟩ := map_eq_some_iff.mp h
      exact iff_of_false hnull (some_ne_none c)

theorem coverage_of_field {c : CoverageRow} (h : coverageField fields = some (some c)) :
    ∃ j, fields "coverage" = some j ∧ CoverageRow.deserialise j = some c := by
  rw [coverageField, defaulted] at h
  cases hj : fields "coverage" with
  | none =>
    rw [hj] at h
    cases h
  | some j =>
    rw [hj] at h
    dsimp only at h
    split at h
    · cases h
    · obtain ⟨c', hc', heq⟩ := map_eq_some_iff.mp h
      cases heq
      exact ⟨j, rfl, hc'⟩

variable {r : HistoryRow}

theorem deserialise_reads {row : Dict Json} (h : deserialise row = some r) :
    r.Reads row.get? ∧ coverageField row.get? = some r.coverage := by
  rw [deserialise] at h
  split at h
  case isFalse => cases h
  case isTrue =>
    rw [readDeclared] at h
    obtain ⟨schemaVersion, h1, h⟩ := bind_eq_some_iff.mp h
    obtain ⟨finishedAt, h2, h⟩ := bind_eq_some_iff.mp h
    obtain ⟨profile, h3, h⟩ := bind_eq_some_iff.mp h
    obtain ⟨selectionMode, h4, h⟩ := bind_eq_some_iff.mp h
    obtain ⟨commit, h5, h⟩ := bind_eq_some_iff.mp h
    obtain ⟨commitAnchored, h6, h⟩ := bind_eq_some_iff.mp h
    obtain ⟨treeDirty, h7, h⟩ := bind_eq_some_iff.mp h
    obtain ⟨result, h8, h⟩ := bind_eq_some_iff.mp h
    obtain ⟨executedTests, h9, h⟩ := bind_eq_some_iff.mp h
    obtain ⟨filteredTests, h10, h⟩ := bind_eq_some_iff.mp h
    obtain ⟨coverage, h11, h⟩ := bind_eq_some_iff.mp h
    obtain ⟨failures, h12, h⟩ := bind_eq_some_iff.mp h
    obtain ⟨concurrentValidates, h13, h⟩ := bind_eq_some_iff.mp h
    cases some.inj h
    refine ⟨?_, h11⟩
    exact {
      schemaVersion := value_of_optional h1
      finishedAt := value_of_optional h2
      profile := value_of_optional h3
      selectionMode := value_of_optional h4
      commit := value_of_optional h5
      commitAnchored := value_of_optional h6
      treeDirty := value_of_optional h7
      result := value_of_optional h8
      executedTests := value_of_optional h9
      filteredTests := value_of_optional h10
      failures := value_of_optional h12
      concurrentValidates := value_of_optional h13
      coverage_none := coverage_none_of_field h11
      extra := by
        intro k hk
        rw [Dict.lookup_filter row.nodup]
        dsimp only
        rw [hk, Dict.get?]
        cases row.entries.lookup k <;> rfl }

variable {k : String}

theorem serialise_extra (r : HistoryRow) (hk : isDeclared k = false) :
    of r.serialise k = r.extra.lookup k := by
  have hread : k ∉ readFields := by
    intro hmem
    rw [isDeclared, decide_eq_true hmem, Bool.true_or, Bool.true_or] at hk
    cases hk
  rw [of, serialise, List.lookup_append, Dict.lookup_eq_none_of_not_mem]
  · rfl
  · exact hread

theorem serialise_value_extra (hreads : r.Reads fields) (hk : isDeclared k = false) :
    (of r.serialise).value k = fields.value k := by
  rw [Fields.value, serialise_extra r hk, hreads.extra k hk, Fields.value]

theorem serialise_coverage (r : HistoryRow) :
    (of r.serialise).value "coverage" = .null ↔ r.coverage = none := by
  have hvalue : (of r.serialise).value "coverage" =
      (r.coverage.map CoverageRow.serialise).getD .null := rfl
  rw [hvalue]
  cases r.coverage with
  | none => exact iff_of_true rfl rfl
  | some c => exact iff_of_false Json.noConfusion (some_ne_none c)

end HistoryRow

end DevHermit.Receipt
