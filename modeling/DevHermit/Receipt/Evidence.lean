import DevHermit.Receipt.HistoryRow
import DevHermit.Receipt.Predicate

namespace DevHermit.Receipt

open Lib Fields

inductive CoverageSchemaVerdict where
  | satisfied
  | grandfatheredUnknown
  | schemaUnavailable
  | policyUnavailable
  | legacyClaimsCoverage
  deriving DecidableEq, Repr

def CoverageSchemaVerdict.value : CoverageSchemaVerdict → String
  | .satisfied => "satisfied"
  | .grandfatheredUnknown => "grandfathered-unknown"
  | .schemaUnavailable => "schema-unavailable"
  | .policyUnavailable => "policy-unavailable"
  | .legacyClaimsCoverage => "legacy-schema-claims-coverage"

inductive BaseVerdict where
  | satisfied
  | grandfatheredUnknown
  | schemaUnavailable
  | baseShaMissing
  | baseShaInvalid
  | baseTreeMissing
  | baseTreeInvalid
  | reverieBaseMissing
  | reverieBaseInvalid
  | reverieTreeMissing
  | reverieTreeInvalid
  | policyUnavailable
  deriving DecidableEq, Repr

def BaseVerdict.value : BaseVerdict → String
  | .satisfied => "satisfied"
  | .grandfatheredUnknown => "grandfathered-unknown"
  | .schemaUnavailable => "schema-unavailable"
  | .baseShaMissing => "base-sha-missing"
  | .baseShaInvalid => "base-sha-invalid"
  | .baseTreeMissing => "base-tree-missing"
  | .baseTreeInvalid => "base-tree-invalid"
  | .reverieBaseMissing => "reverie-base-sha-missing"
  | .reverieBaseInvalid => "reverie-base-sha-invalid"
  | .reverieTreeMissing => "reverie-base-tree-missing"
  | .reverieTreeInvalid => "reverie-base-tree-invalid"
  | .policyUnavailable => "policy-unavailable"

inductive AdmissionVerdict where
  | satisfied
  | grandfatheredUnknown
  | schemaUnavailable
  | producerMissing
  | producerUnknown
  | admissionMissing
  | admissionNoncanonical
  | concurrencyMissing
  | concurrencyInvalid
  | ownerAncestryMissing
  | ownerAncestryUnproven
  | policyUnavailable
  deriving DecidableEq, Repr

def AdmissionVerdict.value : AdmissionVerdict → String
  | .satisfied => "satisfied"
  | .grandfatheredUnknown => "grandfathered-unknown"
  | .schemaUnavailable => "schema-unavailable"
  | .producerMissing => "producer-missing"
  | .producerUnknown => "producer-unknown"
  | .admissionMissing => "admission-missing"
  | .admissionNoncanonical => "admission-noncanonical"
  | .concurrencyMissing => "concurrent-validates-missing"
  | .concurrencyInvalid => "concurrent-validates-invalid"
  | .ownerAncestryMissing => "owner-ancestry-missing"
  | .ownerAncestryUnproven => "owner-ancestry-unproven"
  | .policyUnavailable => "policy-unavailable"

namespace Python

def natural? : Json → Option Nat
  | .int n => if 0 ≤ n then some n.toNat else none
  | _ => none

def nonempty? : Json → Option String
  | .str s => if s = "" then none else some s
  | _ => none

def isLowerHex (c : Char) : Bool := c.isDigit || ('a' ≤ c ∧ c ≤ 'f')

def isSha40 (s : String) : Bool := s.toList.length = 40 ∧ s.toList.all isLowerHex

def coverageSchemaVerdict (row pred : Fields) : CoverageSchemaVerdict :=
  match pred.value "coverage" with
  | .obj entries =>
    match (Fields.of entries).value "per_node" with
    | .bool false => .satisfied
    | .bool true =>
      match natural? ((Fields.of entries).value "applies_at_schema_min") with
      | none => .policyUnavailable
      | some schemaMin =>
        match natural? (row.value "schema_version") with
        | none => .schemaUnavailable
        | some schema =>
          if schema < schemaMin then
            if row.value "coverage" ≠ .null then .legacyClaimsCoverage
            else .grandfatheredUnknown
          else .satisfied
    | _ => .policyUnavailable
  | _ => .policyUnavailable

def coverageSchemaAccepted (verdict : CoverageSchemaVerdict) : Bool :=
  verdict ∈ [CoverageSchemaVerdict.satisfied, .grandfatheredUnknown]

def shaRefusal (value : Json) (missing invalid : BaseVerdict) : Option BaseVerdict :=
  match nonempty? value with
  | none => some missing
  | some sha => if isSha40 sha then none else some invalid

def recordedBase (row : Fields) : BaseVerdict :=
  ((shaRefusal (row.value "base_sha") .baseShaMissing .baseShaInvalid).or <|
    (shaRefusal (row.value "base_tree") .baseTreeMissing .baseTreeInvalid).or <|
    (shaRefusal (row.value "reverie_base_sha") .reverieBaseMissing .reverieBaseInvalid).or <|
    shaRefusal (row.value "reverie_base_tree") .reverieTreeMissing .reverieTreeInvalid).getD
      .satisfied

def baseEvidenceVerdict (row pred : Fields) : BaseVerdict :=
  match pred.value "base" with
  | .obj entries =>
    match natural? ((Fields.of entries).value "applies_at_schema_min") with
    | none => .policyUnavailable
    | some schemaMin =>
      match natural? (row.value "schema_version") with
      | none => .schemaUnavailable
      | some schema =>
        if schema < schemaMin then .grandfatheredUnknown else recordedBase row
  | _ => .policyUnavailable

def baseAccepted (verdict : BaseVerdict) : Bool :=
  verdict ∈ [BaseVerdict.satisfied, .grandfatheredUnknown]

structure ProducerView where
  required : Bool
  appliesFromFinishedAt : Json
  known : List String

def iterStrings (known : Json) : Except PyError (List String) :=
  if known.truthy then
    match known with
    | .arr items => .ok (items.filterMap Json.asStr)
    | .str s => .ok (s.toList.map fun c => String.ofList [c])
    | .obj entries => .ok (entries.map Prod.fst)
    | _ => .error .typeError
  else .ok []

def producerClause (pred : Fields) : Except PyError ProducerView :=
  match pred.value "producer" with
  | .obj entries =>
    (iterStrings ((Fields.of entries).value "known")).map fun known =>
      ⟨((Fields.of entries "required").getD (.bool false)).truthy,
        (Fields.of entries).value "applies_from_finished_at", known⟩
  | _ => .ok ⟨false, .null, []⟩

def registeredRefusal (row clause pred : Fields) : Except PyError (Option AdmissionVerdict) :=
  if clause.value "require_registered_producer" = .bool true then
    (producerClause pred).map fun registered =>
      match nonempty? (row.value "producer") with
      | none => some .producerMissing
      | some producer => if producer ∈ registered.known then none else some .producerUnknown
  else .ok none

def textRefusal (value required : Json) (missing mismatch : AdmissionVerdict) :
    Option AdmissionVerdict :=
  match nonempty? value with
  | none => some missing
  | some text =>
    match nonempty? required with
    | none => some .policyUnavailable
    | some wanted => if text = wanted then none else some mismatch

def concurrencyRefusal (value required : Json) : Option AdmissionVerdict :=
  if value = .null then some .concurrencyMissing
  else
    match natural? required with
    | none => some .policyUnavailable
    | some wanted => if value = .int wanted then none else some .concurrencyInvalid

def recordedAdmission (row clause : Fields) (registered : Option AdmissionVerdict) :
    AdmissionVerdict :=
  (registered.or <|
    (textRefusal (row.value "admission") (clause.value "required_admission") .admissionMissing
      .admissionNoncanonical).or <|
    (concurrencyRefusal (row.value "concurrent_validates")
      (clause.value "required_concurrent_validates")).or <|
    textRefusal (row.value "concurrency_proof") (clause.value "required_concurrency_proof")
      .ownerAncestryMissing .ownerAncestryUnproven).getD .satisfied

def admissionVerdict (row pred : Fields) : Except PyError AdmissionVerdict :=
  match pred.value "admission" with
  | .obj entries =>
    match natural? ((Fields.of entries).value "applies_at_schema_min") with
    | none => .ok .policyUnavailable
    | some schemaMin =>
      match natural? (row.value "schema_version") with
      | none => .ok .schemaUnavailable
      | some schema =>
        if schema < schemaMin then .ok .grandfatheredUnknown
        else
          (registeredRefusal row (.of entries) pred).map (recordedAdmission row (.of entries))
  | _ => .ok .policyUnavailable

def admissionAccepted (verdict : AdmissionVerdict) : Bool :=
  verdict ∈ [AdmissionVerdict.satisfied, .grandfatheredUnknown]

structure Report where
  accepted : Bool
  admissionSatisfied : Option Bool
  admissionStatus : String
  baseSatisfied : Option Bool
  baseStatus : String
  coverageSchemaSatisfied : Option Bool
  coverageSchemaStatus : String

def evidenceReport (admission : AdmissionVerdict) (base : BaseVerdict)
    (coverageSchema : CoverageSchemaVerdict) : Nat × Report :=
  let accepted := admissionAccepted admission && baseAccepted base &&
    coverageSchemaAccepted coverageSchema
  (if accepted then 0 else 1,
    { accepted
      admissionSatisfied :=
        if admission = .satisfied then some true
        else if admission = .grandfatheredUnknown then none else some false
      admissionStatus := admission.value
      baseSatisfied :=
        if base = .satisfied then some true
        else if base = .grandfatheredUnknown then none else some false
      baseStatus := base.value
      coverageSchemaSatisfied :=
        if coverageSchema = .satisfied then some true
        else if coverageSchema = .grandfatheredUnknown then none else some false
      coverageSchemaStatus := coverageSchema.value })

def evidenceOnly (request : Fields) : Except PyError (Nat × Option Report) :=
  match request.value "row" with
  | .obj row =>
    let pred : Fields := .of [("admission", request.value "admission"),
      ("producer", request.value "producer"), ("base", request.value "base"),
      ("coverage", request.value "coverage")]
    (admissionVerdict (.of row) pred).map fun admission =>
      let report := evidenceReport admission (baseEvidenceVerdict (.of row) pred)
        (coverageSchemaVerdict (.of row) pred)
      (report.1, some report.2)
  | _ => .ok (2, none)

end Python

namespace Rust

def evidenceRequest (row : HistoryRow) (pred : QualifyingPredicate) : Fields :=
  .of [("row", .obj row.serialise),
    ("admission", .obj
      [("applies_at_schema_min", .int pred.admission.appliesAtSchemaMin),
        ("required_admission", .str pred.admission.requiredAdmission),
        ("required_concurrent_validates", .int pred.admission.requiredConcurrentValidates),
        ("required_concurrency_proof", .str pred.admission.requiredConcurrencyProof),
        ("require_registered_producer", .bool pred.admission.requireRegisteredProducer)]),
    ("base", .obj
      [("applies_at_schema_min", .int pred.base.appliesAtSchemaMin),
        ("branch", .str pred.base.branch)]),
    ("coverage", .obj
      [("applies_at_schema_min", .int pred.coverage.appliesAtSchemaMin),
        ("per_node", .bool pred.coverage.perNode)]),
    ("producer", .obj
      [("required", .bool pred.producer.required),
        ("applies_from_finished_at",
          Codec.str.nullable.encode pred.producer.appliesFromFinishedAt),
        ("known", .arr (pred.producer.known.map Json.str))])]

def statusMatches (status : String) (satisfied : Option Bool) : Bool :=
  if status = "satisfied" then satisfied = some true
  else if status = "grandfathered-unknown" then satisfied = none
  else satisfied = some false

def exitMatches (code : Nat) (accepted : Bool) : Bool :=
  if code = 0 then accepted else if code = 1 then !accepted else false

def sharedEvidenceAccepts (row : HistoryRow) (pred : QualifyingPredicate) : Bool :=
  match Python.evidenceOnly (evidenceRequest row pred) with
  | .ok (code, some report) =>
    exitMatches code report.accepted &&
      statusMatches report.admissionStatus report.admissionSatisfied &&
      statusMatches report.baseStatus report.baseSatisfied &&
      statusMatches report.coverageSchemaStatus report.coverageSchemaSatisfied &&
      report.accepted
  | _ => false

end Rust

namespace Python

variable {pred pred' row row' : Fields}

theorem coverageSchemaVerdict_congr {c : CoverageClause} (hclause : c.Reads (pred.value "coverage"))
    (hclause' : c.Reads (pred'.value "coverage"))
    (hschema : row.value "schema_version" = row'.value "schema_version")
    (hcoverage : row.value "coverage" = .null ↔ row'.value "coverage" = .null) :
    coverageSchemaVerdict row pred = coverageSchemaVerdict row' pred' := by
  obtain ⟨entries, hentries, hmin, hnode⟩ := hclause
  obtain ⟨entries', hentries', hmin', hnode'⟩ := hclause'
  simp only [coverageSchemaVerdict, hentries, hentries', hmin, hmin', hnode, hnode', hschema,
    ne_eq, hcoverage]

theorem baseEvidenceVerdict_congr {c : BaseClause} (hclause : c.Reads (pred.value "base"))
    (hclause' : c.Reads (pred'.value "base"))
    (hschema : row.value "schema_version" = row'.value "schema_version")
    (hbase : recordedBase row = recordedBase row') :
    baseEvidenceVerdict row pred = baseEvidenceVerdict row' pred' := by
  obtain ⟨entries, hentries, hmin⟩ := hclause
  obtain ⟨entries', hentries', hmin'⟩ := hclause'
  simp only [baseEvidenceVerdict, hentries, hentries', hmin, hmin', hschema, hbase]

theorem natural?_natCast (n : Nat) : natural? (.int n) = some n := by
  rw [natural?, if_pos (Int.natCast_nonneg n), Int.toNat_natCast]

def registeredRefusalOf (c : AdmissionClause) (known : List String) (row : Fields) :
    Option AdmissionVerdict :=
  if c.requireRegisteredProducer then
    match nonempty? (row.value "producer") with
    | none => some .producerMissing
    | some producer => if producer ∈ known then none else some .producerUnknown
  else none

def admissionRecordOf (c : AdmissionClause) (row : Fields) : Option AdmissionVerdict :=
  (textRefusal (row.value "admission") (.str c.requiredAdmission) .admissionMissing
    .admissionNoncanonical).or <|
  (concurrencyRefusal (row.value "concurrent_validates") (.int c.requiredConcurrentValidates)).or <|
  textRefusal (row.value "concurrency_proof") (.str c.requiredConcurrencyProof)
    .ownerAncestryMissing .ownerAncestryUnproven

def admissionOf (c : AdmissionClause) (known : List String) (row : Fields) : AdmissionVerdict :=
  match natural? (row.value "schema_version") with
  | none => .schemaUnavailable
  | some schema =>
    if schema < c.appliesAtSchemaMin then .grandfatheredUnknown
    else ((registeredRefusalOf c known row).or (admissionRecordOf c row)).getD .satisfied

theorem admissionVerdict_eq {c : AdmissionClause} {row pred : Fields} {view : ProducerView}
    (hclause : c.Reads (pred.value "admission")) (hview : producerClause pred = .ok view) :
    admissionVerdict row pred = .ok (admissionOf c view.known row) := by
  obtain ⟨entries, hentries, hmin, hadmission, hconcurrent, hproof, hregistered⟩ := hclause
  have hrefusal : registeredRefusal row (.of entries) pred =
      .ok (registeredRefusalOf c view.known row) := by
    rw [registeredRefusal, registeredRefusalOf, hregistered, hview]
    cases c.requireRegisteredProducer <;> rfl
  rw [admissionVerdict, admissionOf, hentries]
  dsimp only
  rw [hmin, natural?_natCast]
  cases natural? (row.value "schema_version") with
  | none => rfl
  | some schema =>
    dsimp only
    split
    · rfl
    · rw [hrefusal, Except.map, recordedAdmission, hadmission, hconcurrent, hproof]
      rfl

theorem admissionOf_congr (c : AdmissionClause) (known : List String)
    (hfields : ∀ k ∈ ["schema_version", "producer", "admission", "concurrent_validates",
      "concurrency_proof"], row.value k = row'.value k) :
    admissionOf c known row = admissionOf c known row' := by
  simp only [admissionOf, registeredRefusalOf, admissionRecordOf,
    hfields "schema_version" (by decide), hfields "producer" (by decide),
    hfields "admission" (by decide), hfields "concurrent_validates" (by decide),
    hfields "concurrency_proof" (by decide)]

theorem filterMap_asStr (known : List String) :
    (known.map Json.str).filterMap Json.asStr = known := by
  rw [List.filterMap_map]
  exact List.filterMap_some

theorem producerClause_reads_view {c : ProducerClause} (hclause : c.Reads (pred.value "producer")) :
    producerClause pred =
      .ok ⟨c.required, Codec.str.nullable.encode c.appliesFromFinishedAt, c.known⟩ := by
  obtain ⟨entries, hentries, hrequired, hepoch, hknown⟩ := hclause
  have hiter : iterStrings ((of entries).value "known") = .ok c.known := by
    rcases hknown with ⟨hnone, hempty⟩ | hsome
    · rw [Fields.value, hnone, hempty]
      rfl
    · rw [Fields.value, hsome, Option.getD_some, iterStrings]
      cases hc : c.known with
      | nil => rfl
      | cons name rest =>
        rw [← hc, filterMap_asStr, hc]
        rfl
  have hrequired' : (of entries "required").getD (.bool false) = .bool c.required := by
    rw [Fields.value] at hrequired
    cases hget : of entries "required" with
    | none =>
      rw [hget] at hrequired
      cases hrequired
    | some value =>
      rw [hget] at hrequired
      exact hrequired
  rw [producerClause, hentries]
  dsimp only
  rw [hiter, hrequired', hepoch]
  rfl

end Python

namespace Rust

theorem statusMatches_of {α : Type} [DecidableEq α] (value : α → String) {satisfied unknown : α}
    (h : ∀ verdict, (value verdict = "satisfied" ↔ verdict = satisfied) ∧
      (value verdict = "grandfathered-unknown" ↔ verdict = unknown)) (verdict : α) :
    statusMatches (value verdict) (if verdict = satisfied then some true
      else if verdict = unknown then none else some false) = true := by
  simp only [statusMatches, h]
  split_ifs <;> rfl

variable {p : QualifyingPredicate} {r : HistoryRow}

theorem sharedEvidenceAccepts_of_verdict {admission : AdmissionVerdict} {base : BaseVerdict}
    {coverageSchema : CoverageSchemaVerdict} (h : Python.evidenceOnly (evidenceRequest r p) =
      .ok ((Python.evidenceReport admission base coverageSchema).1,
      some (Python.evidenceReport admission base coverageSchema).2)) :
    sharedEvidenceAccepts r p = (Python.admissionAccepted admission && Python.baseAccepted base &&
      Python.coverageSchemaAccepted coverageSchema) := by
  rw [sharedEvidenceAccepts, h]
  simp only [Python.evidenceReport]
  rw [statusMatches_of AdmissionVerdict.value (fun v => by cases v <;> decide),
    statusMatches_of BaseVerdict.value (fun v => by cases v <;> decide),
    statusMatches_of CoverageSchemaVerdict.value (fun v => by cases v <;> decide)]
  simp only [Bool.and_true]
  generalize (Python.admissionAccepted admission && Python.baseAccepted base &&
    Python.coverageSchemaAccepted coverageSchema) = accepted
  cases accepted <;> rfl

theorem sharedEvidenceAccepts_eq {row pred : Fields} (hr : r.Reads row) (hp : p.Reads pred) :
    sharedEvidenceAccepts r p =
      (Python.admissionAccepted (Python.admissionOf p.admission p.producer.known row) &&
        Python.baseAccepted (Python.baseEvidenceVerdict row pred) &&
        Python.coverageSchemaAccepted (Python.coverageSchemaVerdict row pred)) := by
  have hschema : (of r.serialise).value "schema_version" = row.value "schema_version" :=
    hr.schemaVersion.symm
  have hextra : ∀ k, isDeclared k = false → (of r.serialise).value k = row.value k :=
    fun k hk => HistoryRow.serialise_value_extra hr hk
  let request : Fields := .of [("admission", (evidenceRequest r p).value "admission"),
    ("producer", (evidenceRequest r p).value "producer"),
    ("base", (evidenceRequest r p).value "base"),
    ("coverage", (evidenceRequest r p).value "coverage")]
  have hadmission : Python.admissionVerdict (.of r.serialise) request =
      .ok (Python.admissionOf p.admission p.producer.known (.of r.serialise)) := by
    have hproducer : p.producer.Reads (request.value "producer") := ⟨_, rfl, rfl, rfl, Or.inr rfl⟩
    exact Python.admissionVerdict_eq ⟨_, rfl, rfl, rfl, rfl, rfl, rfl⟩
      (Python.producerClause_reads_view hproducer)
  have hadmissionOf : Python.admissionOf p.admission p.producer.known (.of r.serialise) =
      Python.admissionOf p.admission p.producer.known row := by
    refine Python.admissionOf_congr _ _ ?_
    simp only [List.forall_mem_cons, List.not_mem_nil, false_imp_iff, implies_true, and_true]
    exact ⟨hschema, hextra _ (by decide), hextra _ (by decide), hr.concurrentValidates.symm,
      hextra _ (by decide)⟩
  have hbase : Python.baseEvidenceVerdict (.of r.serialise) request =
      Python.baseEvidenceVerdict row pred := by
    refine Python.baseEvidenceVerdict_congr (c := p.base) ⟨_, rfl, rfl⟩ hp.base hschema ?_
    rw [Python.recordedBase, hextra "base_sha" (by decide), hextra "base_tree" (by decide),
      hextra "reverie_base_sha" (by decide), hextra "reverie_base_tree" (by decide),
      Python.recordedBase]
  have hcoverage : Python.coverageSchemaVerdict (.of r.serialise) request =
      Python.coverageSchemaVerdict row pred :=
    Python.coverageSchemaVerdict_congr (c := p.coverage) ⟨_, rfl, rfl, rfl⟩ hp.coverage hschema
      ((HistoryRow.serialise_coverage r).trans hr.coverage_none.symm)
  refine sharedEvidenceAccepts_of_verdict ?_
  have hrow : (evidenceRequest r p).value "row" = .obj r.serialise := rfl
  rw [Python.evidenceOnly, hrow]
  dsimp only
  rw [hadmission, hadmissionOf, hbase, hcoverage]
  rfl

end Rust

end DevHermit.Receipt
