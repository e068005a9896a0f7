import DevHermit.Lib.Python
import DevHermit.Lib.Serde

namespace DevHermit.Receipt

open Lib Option Fields

structure RequireClause where
  commitAnchored : Bool
  treeDirty : Bool
  profile : String
  selectionMode : String
  result : String
  failuresMax : Nat
  executedTestsMin : Int

structure CoverageClause where
  appliesAtSchemaMin : Nat
  perNode : Bool

structure BaseClause where
  appliesAtSchemaMin : Nat
  branch : String

structure AdmissionClause where
  appliesAtSchemaMin : Nat
  requiredAdmission : String
  requiredConcurrentValidates : Nat
  requiredConcurrencyProof : String
  requireRegisteredProducer : Bool

structure ProducerClause where
  required : Bool
  appliesFromFinishedAt : Option String
  known : List String

def ProducerClause.inert : ProducerClause := ⟨false, none, []⟩

structure QualifyingPredicate where
  countsSchema : Nat
  require : RequireClause
  gateFilteredTests : Bool
  acceptsGreenClass : List String
  coverage : CoverageClause
  base : BaseClause
  admission : AdmissionClause
  producer : ProducerClause

def requireKeys : List String :=
  ["commit_anchored", "tree_dirty", "profile", "selection_mode", "result", "failures_max",
    "executed_tests_min"]

def coverageKeys : List String := ["applies_at_schema_min", "per_node"]

def baseKeys : List String := ["applies_at_schema_min", "branch"]

def admissionKeys : List String :=
  ["applies_at_schema_min", "required_admission", "required_concurrent_validates",
    "required_concurrency_proof", "require_registered_producer"]

def producerKeys : List String := ["required", "applies_from_finished_at", "known"]

def defaultAcceptsGreenClass : List String := ["hard"]

namespace Rust

def requireClause (j : Json) : Option RequireClause := do
  let clause ← Fields.ofStruct requireKeys j
  let commitAnchored ← clause.required "commit_anchored" .bool
  let treeDirty ← clause.required "tree_dirty" .bool
  let profile ← clause.required "profile" .str
  let selectionMode ← clause.required "selection_mode" .str
  let result ← clause.required "result" .str
  let failuresMax ← clause.required "failures_max" (.unsigned 64)
  let executedTestsMin ← clause.required "executed_tests_min" (.signed 64)
  some ⟨commitAnchored, treeDirty, profile, selectionMode, result, failuresMax, executedTestsMin⟩

def coverageClause (j : Json) : Option CoverageClause := do
  let clause ← Fields.ofStruct coverageKeys j
  let appliesAtSchemaMin ← clause.required "applies_at_schema_min" (.unsigned 32)
  let perNode ← clause.required "per_node" .bool
  some ⟨appliesAtSchemaMin, perNode⟩

def baseClause (j : Json) : Option BaseClause := do
  let clause ← Fields.ofStruct baseKeys j
  let appliesAtSchemaMin ← clause.required "applies_at_schema_min" (.unsigned 32)
  let branch ← clause.required "branch" .str
  some ⟨appliesAtSchemaMin, branch⟩

def admissionClause (j : Json) : Option AdmissionClause := do
  let clause ← Fields.ofStruct admissionKeys j
  let appliesAtSchemaMin ← clause.required "applies_at_schema_min" (.unsigned 32)
  let requiredAdmission ← clause.required "required_admission" .str
  let requiredConcurrentValidates ←
    clause.required "required_concurrent_validates" (.unsigned 64)
  let requiredConcurrencyProof ← clause.required "required_concurrency_proof" .str
  let requireRegisteredProducer ← clause.required "require_registered_producer" .bool
  some ⟨appliesAtSchemaMin, requiredAdmission, requiredConcurrentValidates,
    requiredConcurrencyProof, requireRegisteredProducer⟩

def producerClause (j : Json) : Option ProducerClause := do
  let clause ← Fields.ofStruct producerKeys j
  let required ← clause.required "required" .bool
  let appliesFromFinishedAt ← clause.optional "applies_from_finished_at" .str
  let known ← clause.defaulted "known" [] Codec.str.list.decode
  some ⟨required, appliesFromFinishedAt, known⟩

def parse (pred : Fields) : Option QualifyingPredicate := do
  let countsSchema ← pred.required "counts_schema" (.unsigned 32)
  let require ← (pred "require").bind requireClause
  let gateFilteredTests ← pred.defaulted "gate_filtered_tests" false Json.asBool
  let acceptsGreenClass ←
    pred.defaulted "accepts_green_class" defaultAcceptsGreenClass Codec.str.list.decode
  let coverage ← (pred "coverage").bind coverageClause
  let base ← (pred "base").bind baseClause
  let admission ← (pred "admission").bind admissionClause
  let producer ← pred.defaulted "producer" .inert producerClause
  some ⟨countsSchema, require, gateFilteredTests, acceptsGreenClass, coverage, base, admission,
    producer⟩

end Rust

namespace Python

def hasKey (k : String) : Json → Bool
  | .obj fields => (fields.lookup k).isSome
  | .arr items => items.any fun item => item.pyEq (.str k)
  | .str s => hasInfix k.toList s.toList
  | _ => false

def loads (pred : Fields) : Bool :=
  (["counts_schema", "require", "coverage", "base", "admission"].all fun k => (pred k).isSome) &&
    [("require", requireKeys), ("coverage", coverageKeys), ("base", baseKeys),
      ("admission", admissionKeys)].all fun clause =>
        clause.2.all fun k => hasKey k (pred.value clause.1)

end Python

theorem pyEq_str (j : Json) (s : String) : j.pyEq (.str s) = true ↔ j = .str s := by
  cases j with
  | str t => simp [Json.pyEq]
  | _ => simp [Json.pyEq, Json.number?]

variable {j : Json} {k : String}

theorem obj_of_ofStruct {names : List String} (hnodup : names.Nodup) {clause : Fields}
    (hclause : ofStruct names j = some clause)
    (hkeys : ∀ k ∈ names, Python.hasKey k j = true) {v : Json} (hv : clause k = some v)
    (htext : v.asStr = none) : ∃ entries, j = .obj entries ∧ clause = .of entries := by
  cases j with
  | obj entries => exact ⟨entries, rfl, (some.inj hclause).symm⟩
  | arr items =>
    obtain ⟨hlen, hmem⟩ := ofStruct_arr hclause
    have hsub : names ⊆ items.filterMap Json.asStr := by
      intro name hname
      have hkey := hkeys name hname
      rw [Python.hasKey, List.any_eq_true] at hkey
      obtain ⟨item, hitem, heq⟩ := hkey
      rw [pyEq_str] at heq
      exact List.mem_filterMap.mpr ⟨item, hitem, by rw [heq, Json.asStr]⟩
    have hle := (List.subperm_of_subset hnodup hsub).length_le
    have hlt := List.length_filterMap_lt_length_iff_exists.mpr ⟨v, hmem hv, htext⟩
    omega
  | _ => cases hclause

def RequireClause.Reads (c : RequireClause) (j : Json) : Prop :=
  ∃ entries, j = .obj entries ∧
    (Fields.of entries).value "commit_anchored" = .bool c.commitAnchored ∧
    (Fields.of entries).value "tree_dirty" = .bool c.treeDirty ∧
    (Fields.of entries).value "profile" = .str c.profile ∧
    (Fields.of entries).value "selection_mode" = .str c.selectionMode ∧
    (Fields.of entries).value "result" = .str c.result ∧
    (Fields.of entries).value "failures_max" = .int c.failuresMax ∧
    (Fields.of entries).value "executed_tests_min" = .int c.executedTestsMin

def CoverageClause.Reads (c : CoverageClause) (j : Json) : Prop :=
  ∃ entries, j = .obj entries ∧
    (Fields.of entries).value "applies_at_schema_min" = .int c.appliesAtSchemaMin ∧
    (Fields.of entries).value "per_node" = .bool c.perNode

def BaseClause.Reads (c : BaseClause) (j : Json) : Prop :=
  ∃ entries, j = .obj entries ∧
    (Fields.of entries).value "applies_at_schema_min" = .int c.appliesAtSchemaMin

def AdmissionClause.Reads (c : AdmissionClause) (j : Json) : Prop :=
  ∃ entries, j = .obj entries ∧
    (Fields.of entries).value "applies_at_schema_min" = .int c.appliesAtSchemaMin ∧
    (Fields.of entries).value "required_admission" = .str c.requiredAdmission ∧
    (Fields.of entries).value "required_concurrent_validates" =
      .int c.requiredConcurrentValidates ∧
    (Fields.of entries).value "required_concurrency_proof" = .str c.requiredConcurrencyProof ∧
    (Fields.of entries).value "require_registered_producer" = .bool c.requireRegisteredProducer

def ProducerClause.Reads (c : ProducerClause) (j : Json) : Prop :=
  ∃ entries, j = .obj entries ∧
    (Fields.of entries).value "required" = .bool c.required ∧
    (Fields.of entries).value "applies_from_finished_at" =
      Codec.str.nullable.encode c.appliesFromFinishedAt ∧
    (((Fields.of entries "known" = none) ∧ c.known = []) ∨
      Fields.of entries "known" = some (.arr (c.known.map Json.str)))

theorem requireClause_reads {c : RequireClause} (h : Rust.requireClause j = some c)
    (hkeys : ∀ k ∈ requireKeys, Python.hasKey k j = true) : c.Reads j := by
  simp only [Rust.requireClause, bind_eq_bind, bind_eq_some_iff] at h
  obtain ⟨clause, hclause, commitAnchored, h1, treeDirty, h2, profile, h3, selectionMode, h4,
    result, h5, failuresMax, h6, executedTestsMin, h7, h⟩ := h
  cases some.inj h
  obtain ⟨entries, rfl, rfl⟩ :=
    obj_of_ofStruct (by decide) hclause hkeys (eq_some_of_required h1) rfl
  exact ⟨entries, rfl, value_of_required h1, value_of_required h2,
    value_of_required h3, value_of_required h4, value_of_required h5,
    value_of_required h6, value_of_required h7⟩

theorem coverageClause_reads {c : CoverageClause} (h : Rust.coverageClause j = some c)
    (hkeys : ∀ k ∈ coverageKeys, Python.hasKey k j = true) : c.Reads j := by
  simp only [Rust.coverageClause, bind_eq_bind, bind_eq_some_iff] at h
  obtain ⟨clause, hclause, appliesAtSchemaMin, h1, perNode, h2, h⟩ := h
  cases some.inj h
  obtain ⟨entries, rfl, rfl⟩ :=
    obj_of_ofStruct (by decide) hclause hkeys (eq_some_of_required h1) rfl
  exact ⟨entries, rfl, value_of_required h1, value_of_required h2⟩

theorem baseClause_reads {c : BaseClause} (h : Rust.baseClause j = some c)
    (hkeys : ∀ k ∈ baseKeys, Python.hasKey k j = true) : c.Reads j := by
  simp only [Rust.baseClause, bind_eq_bind, bind_eq_some_iff] at h
  obtain ⟨clause, hclause, appliesAtSchemaMin, h1, branch, h2, h⟩ := h
  cases some.inj h
  obtain ⟨entries, rfl, rfl⟩ :=
    obj_of_ofStruct (by decide) hclause hkeys (eq_some_of_required h1) rfl
  exact ⟨entries, rfl, value_of_required h1⟩

theorem admissionClause_reads {c : AdmissionClause} (h : Rust.admissionClause j = some c)
    (hkeys : ∀ k ∈ admissionKeys, Python.hasKey k j = true) : c.Reads j := by
  simp only [Rust.admissionClause, bind_eq_bind, bind_eq_some_iff] at h
  obtain ⟨clause, hclause, appliesAtSchemaMin, h1, requiredAdmission, h2,
    requiredConcurrentValidates, h3, requiredConcurrencyProof, h4, requireRegisteredProducer, h5,
    h⟩ := h
  cases some.inj h
  obtain ⟨entries, rfl, rfl⟩ :=
    obj_of_ofStruct (by decide) hclause hkeys (eq_some_of_required h1) rfl
  exact ⟨entries, rfl, value_of_required h1, value_of_required h2,
    value_of_required h3, value_of_required h4, value_of_required h5⟩

theorem producerClause_reads {entries : List (String × Json)} {c : ProducerClause}
    (h : Rust.producerClause (.obj entries) = some c) : c.Reads (.obj entries) := by
  simp only [Rust.producerClause, bind_eq_bind, bind_eq_some_iff] at h
  obtain ⟨clause, hclause, required, h1, appliesFromFinishedAt, h2, known, h3, h⟩ := h
  cases some.inj h
  cases some.inj hclause
  refine ⟨entries, rfl, value_of_required h1, value_of_optional h2, ?_⟩
  rw [defaulted] at h3
  cases hknown : of entries "known" with
  | none =>
    rw [hknown] at h3
    exact Or.inl ⟨rfl, (some.inj h3).symm⟩
  | some value =>
    rw [hknown] at h3
    exact Or.inr (congrArg some (Codec.str.list.exact h3))

structure QualifyingPredicate.Reads (p : QualifyingPredicate) (pred : Fields) : Prop where
  countsSchema : pred.value "counts_schema" = .int p.countsSchema
  require : p.require.Reads (pred.value "require")
  gateFilteredTests : (pred.value "gate_filtered_tests").truthy = p.gateFilteredTests
  acceptsGreenClass : (pred "accepts_green_class" = none ∧
      p.acceptsGreenClass = defaultAcceptsGreenClass) ∨
    pred "accepts_green_class" = some (.arr (p.acceptsGreenClass.map Json.str))
  coverage : p.coverage.Reads (pred.value "coverage")
  base : p.base.Reads (pred.value "base")
  admission : p.admission.Reads (pred.value "admission")
  producer : (pred "producer" = none ∧ p.producer = .inert) ∨
    (∃ items, pred "producer" = some (.arr items)) ∨ p.producer.Reads (pred.value "producer")

variable {pred : Fields}

theorem decode_value {α : Type} {f : Json → Option α} {a : α}
    (h : ∃ j, pred k = some j ∧ f j = some a) : f (pred.value k) = some a := by
  obtain ⟨j, hj, ha⟩ := h
  rw [Fields.value, hj, getD_some, ha]

theorem parse_reads {p : QualifyingPredicate} (hparse : Rust.parse pred = some p)
    (hloads : Python.loads pred = true) : p.Reads pred := by
  simp only [Rust.parse, bind_eq_bind, bind_eq_some_iff] at hparse
  obtain ⟨countsSchema, hcounts, require, hrequire, gateFilteredTests, hgate, acceptsGreenClass,
    haccepts, coverage, hcoverage, base, hbase, admission, hadmission, producer, hproducer, h⟩ :=
    hparse
  cases some.inj h
  rw [Python.loads, Bool.and_eq_true] at hloads
  have hkeys := hloads.2
  simp only [List.all_cons, List.all_nil, Bool.and_true, Bool.and_eq_true] at hkeys
  simp only [List.all_eq_true] at hkeys
  exact {
    countsSchema := value_of_required hcounts
    require := requireClause_reads (decode_value hrequire) hkeys.1
    gateFilteredTests := by
      rw [Fields.value]
      rw [defaulted] at hgate
      cases hg : pred "gate_filtered_tests" with
      | none =>
        rw [hg] at hgate
        rw [← some.inj hgate]
        rfl
      | some value =>
        rw [hg] at hgate
        rw [getD_some, Codec.bool.exact hgate]
        rfl
    acceptsGreenClass := by
      rw [defaulted] at haccepts
      cases ha : pred "accepts_green_class" with
      | none =>
        rw [ha] at haccepts
        exact Or.inl ⟨rfl, (some.inj haccepts).symm⟩
      | some value =>
        rw [ha] at haccepts
        exact Or.inr (congrArg some (Codec.str.list.exact haccepts))
    coverage := coverageClause_reads (decode_value hcoverage) hkeys.2.1
    base := baseClause_reads (decode_value hbase) hkeys.2.2.1
    admission := admissionClause_reads (decode_value hadmission) hkeys.2.2.2
    producer := by
      rw [defaulted] at hproducer
      rw [Fields.value]
      cases hp : pred "producer" with
      | none =>
        rw [hp] at hproducer
        exact Or.inl ⟨rfl, (some.inj hproducer).symm⟩
      | some value =>
        rw [hp] at hproducer
        cases value with
        | obj entries => exact Or.inr (Or.inr (producerClause_reads hproducer))
        | arr items => exact Or.inr (Or.inl ⟨items, rfl⟩)
        | _ => cases hproducer }

end DevHermit.Receipt
