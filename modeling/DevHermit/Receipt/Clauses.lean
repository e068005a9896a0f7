import DevHermit.Receipt.Qualify

namespace DevHermit.Receipt

open Lib Fields Json Codec

def isHexDigit (c : Char) : Bool := Python.isLowerHex c || ('A' ≤ c ∧ c ≤ 'F')

def isHexSha (sha : String) : Bool := sha.toList.length = 40 ∧ sha.toList.all isHexDigit

structure Identified (row : HistoryRow) (sha : String) (req : RequireClause) : Prop where
  commit : row.commit = some sha
  commitAnchored : row.commitAnchored = some req.commitAnchored
  treeDirty : row.treeDirty = some req.treeDirty
  profile : row.profile = some req.profile
  selectionMode : row.selectionMode = some req.selectionMode
  result : row.result = some req.result

def CountCapable (row : HistoryRow) (pred : QualifyingPredicate) : Prop :=
  pred.countsSchema ≤ row.schemaVersion.getD 0

def PerNode (row : HistoryRow) (pred : QualifyingPredicate) : Prop :=
  pred.coverage.perNode = true ∧ pred.coverage.appliesAtSchemaMin ≤ row.schemaVersion.getD 0

structure Counted (row : HistoryRow) (sha : String) (pred : QualifyingPredicate) : Prop where
  identified : Identified row sha pred.require
  failures : row.failures.getD 0 ≤ pred.require.failuresMax
  executed : row.executedTests ≠ some 0
  filtered : pred.gateFilteredTests = true → row.filteredTests = some 0
  executedOk : Rust.executedOk row pred = true
  counts : CountCapable row pred ∨ row.filteredTests.isSome

namespace Rust

def CoverageSatisfied (row : HistoryRow) : Prop :=
  ∃ c, row.coverage = some c ∧ coverageVerdict c = .satisfied

def WriterRefused (row : HistoryRow) (pred : QualifyingPredicate) : Prop :=
  producerEnforcedFor row pred = true ∧
    (producerVerdict row pred = .missing ∨ producerVerdict row pred = .unknownWriter)

def ClassAccepted (row : HistoryRow) (pred : QualifyingPredicate) : Prop :=
  ∃ c, derivedGreenClass row.commit (fun k => row.extra.lookup k) = some c ∧
    c.text ∈ pred.acceptsGreenClass

def GatesAccept (row : HistoryRow) (pred : QualifyingPredicate) : Prop :=
  ¬ WriterRefused row pred ∧ sharedEvidenceAccepts row pred = true ∧ ClassAccepted row pred

variable (row : HistoryRow)

theorem accepted_ite {c : Prop} [Decidable c] {x y : Qualification} {Q : Prop}
    (hx : x.accepted = false) (hc : c → ¬ Q) (hy : ¬ c → (y.accepted = true ↔ Q)) :
    (if c then x else y).accepted = true ↔ Q := by
  split_ifs with h
  · exact iff_of_false (by rw [hx]; exact Bool.false_ne_true) (hc h)
  · exact hy h

theorem gates_accepted (pred : QualifyingPredicate) (qualification : Qualification) :
    (gates row pred qualification).accepted = true ↔
      qualification.accepted = true ∧ GatesAccept row pred := by
  rw [gates, GatesAccept, WriterRefused]
  split
  case isTrue hq => simp_all
  case isFalse hq =>
    have hq : qualification.accepted = true := by simpa using hq
    refine accepted_ite rfl (fun h hg => hg.2.1 ⟨h.1, Or.inl h.2⟩) fun hmissing => ?_
    refine accepted_ite rfl (fun h hg => hg.2.1 ⟨h.1, Or.inr h.2⟩) fun hunknown => ?_
    have hwriter : ¬ (producerEnforcedFor row pred = true ∧
        (producerVerdict row pred = .missing ∨ producerVerdict row pred = .unknownWriter)) :=
      fun h => h.2.elim (fun hm => hmissing ⟨h.1, hm⟩) fun hu => hunknown ⟨h.1, hu⟩
    refine accepted_ite rfl (fun h hg => by simp [hg.2.2.1] at h) fun hevidence => ?_
    have hevidence : sharedEvidenceAccepts row pred = true := by simpa using hevidence
    rw [ClassAccepted]
    split
    case h_1 hnone =>
      refine iff_of_false Bool.false_ne_true ?_
      rintro ⟨-, -, -, c, hc, -⟩
      cases hnone.symm.trans hc
    case h_2 greenClass hsome =>
      split_ifs with hmem
      · exact iff_of_true hq ⟨hq, hwriter, hevidence, _, hsome, hmem⟩
      · refine iff_of_false Bool.false_ne_true ?_
        rintro ⟨-, -, -, c, hc, hcmem⟩
        cases hsome.symm.trans hc
        exact hmem hcmem

theorem coverageQualification_accepted :
    (coverageQualification row).accepted = true ↔ CoverageSatisfied row := by
  rw [coverageQualification, CoverageSatisfied]
  cases hc : row.coverage with
  | none =>
    refine iff_of_false Bool.false_ne_true ?_
    rintro ⟨c, h, -⟩
    cases h
  | some c =>
    rw [Option.map_some]
    cases hv : coverageVerdict c with
    | satisfied => exact iff_of_true rfl ⟨c, rfl, hv⟩
    | _ =>
      refine iff_of_false Bool.false_ne_true ?_
      rintro ⟨c', h, hsat⟩
      cases h
      rw [hv] at hsat
      cases hsat

theorem isSome_of_executedOk {row : HistoryRow} {pred : QualifyingPredicate}
    (h : executedOk row pred = true) : row.executedTests.isSome := by
  rw [executedOk] at h
  cases hn : row.executedTests with
  | none =>
    rw [hn] at h
    cases h
  | some n => rfl

theorem countQualification_accepted (pred : QualifyingPredicate) :
    (countQualification row pred).accepted = true ↔
      (executedOk row pred = true ∧ (CountCapable row pred ∨ row.filteredTests.isSome)) ∧
      ((CountCapable row pred ∧ ¬ PerNode row pred) ∨
        ((CountCapable row pred → CoverageSatisfied row) ∧ GatesAccept row pred)) := by
  rw [countQualification]
  by_cases hcapable : CountCapable row pred
  · have hschema : pred.countsSchema ≤ row.schemaVersion.getD 0 := hcapable
    rw [if_pos hschema]
    by_cases hexecuted : executedOk row pred = true
    · rw [hexecuted]
      by_cases hnode : PerNode row pred
      · have hskip : ¬ ((!pred.coverage.perNode) = true ∨
            row.schemaVersion.getD 0 < pred.coverage.appliesAtSchemaMin) := by
          rw [hnode.1]
          exact fun h => h.elim nofun fun h => absurd hnode.2 (Nat.not_le.mpr h)
        rw [if_neg (by decide), if_neg hskip, gates_accepted, coverageQualification_accepted]
        simp [hcapable, hnode]
      · have hskip : (!pred.coverage.perNode) = true ∨
            row.schemaVersion.getD 0 < pred.coverage.appliesAtSchemaMin := by
          rw [PerNode, not_and_or, Nat.not_le] at hnode
          exact hnode.imp_left fun h => by simpa using h
        rw [if_neg (by decide), if_pos hskip]
        simp [hcapable, hnode, Qualification.accepted]
    · rw [if_pos (by simpa using hexecuted)]
      exact iff_of_false Bool.false_ne_true fun h => hexecuted h.1.1
  · have hschema : ¬ pred.countsSchema ≤ row.schemaVersion.getD 0 := hcapable
    rw [if_neg hschema]
    by_cases hcounts : row.executedTests.isSome ∧ row.filteredTests.isSome
    · rw [if_pos hcounts, gates_accepted]
      by_cases hexecuted : executedOk row pred = true
      · simp [hexecuted, hcapable, hcounts.2, Qualification.accepted]
      · rw [if_neg hexecuted]
        exact iff_of_false (fun h => Bool.false_ne_true h.1) fun h => hexecuted h.1.1
    · rw [if_neg hcounts, gates_accepted]
      exact iff_of_false (fun h => Bool.false_ne_true h.1) fun h =>
        hcounts ⟨isSome_of_executedOk h.1.1, h.1.2.resolve_left hcapable⟩

theorem rowQualifies_iff (sha : String) (pred : QualifyingPredicate) :
    rowQualifies row sha pred = true ↔ Counted row sha pred ∧
      ((CountCapable row pred ∧ ¬ PerNode row pred) ∨
        ((CountCapable row pred → CoverageSatisfied row) ∧ GatesAccept row pred)) := by
  rw [rowQualifies, rowQualification]
  refine accepted_ite rfl (fun h hc => h ?_) fun hid => ?_
  · have hid := hc.1.identified
    exact ⟨hid.commit, hid.commitAnchored, hid.treeDirty, hid.selectionMode, hid.profile,
      hid.result⟩
  obtain ⟨hcommit, hanchored, hdirty, hmode, hprofile, hresult⟩ := not_not.mp hid
  refine accepted_ite rfl (fun h hc => absurd hc.1.failures (Nat.not_le.mpr h)) fun hfailures => ?_
  refine accepted_ite rfl (fun h hc => hc.1.executed h) fun hexecuted => ?_
  refine accepted_ite rfl (fun h hc => h.2 (hc.1.filtered h.1)) fun hfiltered => ?_
  rw [countQualification_accepted]
  refine and_congr_left fun _ => ⟨fun h => ?_, fun h => ⟨h.executedOk, h.counts⟩⟩
  exact {
    identified := ⟨hcommit, hanchored, hdirty, hprofile, hmode, hresult⟩
    failures := Nat.not_lt.mp hfailures
    executed := hexecuted
    filtered := fun hgate => by
      by_contra hne
      exact hfiltered ⟨hgate, hne⟩
    executedOk := h.1
    counts := h.2 }

end Rust

namespace Python

theorem identical_encode (v : Option Bool) (b : Bool) :
    (Codec.bool.nullable.encode v).identical (.bool b) = true ↔ v = some b := by
  cases v with
  | none => exact iff_of_false Bool.false_ne_true (Option.some_ne_none b).symm
  | some c => simp [nullable, Codec.bool, identical]

theorem pyEq_encode_str (v : Option String) (s : String) :
    (Codec.str.nullable.encode v).pyEq (.str s) = true ↔ v = some s := by
  rw [pyEq_str]
  cases v with
  | none => exact iff_of_false Json.noConfusion (Option.some_ne_none s).symm
  | some t => simp [nullable, Codec.str]

theorem pyEq_encode_int (v : Option Int) (n : Int) :
    ((signed 64).nullable.encode v).pyEq (.int n) = true ↔ v = some n := by
  cases v with
  | none => simp [nullable, pyEq, number?]
  | some m => simp [nullable, signed, pyEq, number?]

theorem orZero_encode (width : Nat) (v : Option Nat) :
    ((unsigned width).nullable.encode v).orZero = .int (v.getD 0 : Nat) := by
  cases v with
  | none => rfl
  | some n => exact orZero_int n

theorem encode_ne_null {width : Nat} (v : Option Int) :
    (signed width).nullable.encode v ≠ .null ↔ v.isSome = true := by
  cases v with
  | none => exact iff_of_false (not_not.mpr rfl) Bool.false_ne_true
  | some n => exact iff_of_true Json.noConfusion rfl

variable {pred : Fields} {c : RequireClause}

theorem entriesOf_value (h : c.Reads (pred.value "require")) :
    (entriesOf (pred.value "require")).value "commit_anchored" = .bool c.commitAnchored ∧
    (entriesOf (pred.value "require")).value "tree_dirty" = .bool c.treeDirty ∧
    (entriesOf (pred.value "require")).value "profile" = .str c.profile ∧
    (entriesOf (pred.value "require")).value "selection_mode" = .str c.selectionMode ∧
    (entriesOf (pred.value "require")).value "result" = .str c.result ∧
    (entriesOf (pred.value "require")).value "failures_max" = .int c.failuresMax ∧
    (entriesOf (pred.value "require")).value "executed_tests_min" = .int c.executedTestsMin := by
  obtain ⟨entries, hentries, h⟩ := h
  rw [hentries]
  exact h

variable {r : HistoryRow} {row : Fields} {sha : String}

theorem identityChecks_pass (hr : r.Reads row) (hc : c.Reads (pred.value "require"))
    (hempty : sha ≠ "") (hunknown : sha ≠ "unknown") :
    ((identityChecks row (entriesOf (pred.value "require")) sha).find? fun check => check.1) = none ↔
      Identified r sha c := by
  obtain ⟨hanchored, hdirty, hprofile, hmode, hresult, -⟩ := entriesOf_value hc
  rw [identityChecks, List.find?_eq_none, hr.commit, hr.commitAnchored, hr.treeDirty, hr.profile,
    hr.selectionMode, hr.result, hanchored, hdirty, hprofile, hmode, hresult]
  simp only [List.forall_mem_cons, List.not_mem_nil, false_imp_iff, implies_true, and_true,
    Bool.not_eq_true, Bool.not_eq_false', identical_encode, pyEq_encode_str, decide_eq_false_iff_not]
  constructor
  · rintro ⟨-, hcommit, hanchored, hdirty, hprofile, hmode, hresult⟩
    exact ⟨hcommit, hanchored, hdirty, hprofile, hmode, hresult⟩
  · rintro ⟨hcommit, hanchored, hdirty, hprofile, hmode, hresult⟩
    refine ⟨?_, hcommit, hanchored, hdirty, hprofile, hmode, hresult⟩
    rw [hcommit]
    rintro (h | h | h)
    · cases h
    · exact hempty (Json.str.inj h)
    · exact hunknown (Json.str.inj h)

variable {p : QualifyingPredicate}

theorem executedOk_eq (hr : r.Reads row) :
    executedOk (row.value "executed_tests") (.int p.require.executedTestsMin) =
      .ok (Rust.executedOk r p) := by
  rw [hr.executedTests, Rust.executedOk]
  cases r.executedTests with
  | none => rfl
  | some n => exact numLe_int _ _

theorem perNodeApplies_eq {c : CoverageClause} (hr : r.Reads row)
    (hc : c.Reads (pred.value "coverage")) :
    perNodeApplies (entriesOf (pred.value "coverage")) (row.value "schema_version").orZero =
      .ok (c.perNode && decide (c.appliesAtSchemaMin ≤ r.schemaVersion.getD 0)) := by
  obtain ⟨entries, hentries, hmin, hnode⟩ := hc
  rw [perNodeApplies, hentries, entriesOf, hmin, hnode, hr.schemaVersion, orZero_encode]
  cases c.perNode with
  | false => rfl
  | true =>
    rw [truthy, if_pos rfl, numLe_int, Bool.true_and]
    simp only [Nat.cast_le]

theorem coverageCheck_pass (row : Fields) (applies : Bool) : (coverageCheck row applies).1 = true ↔
      (applies = true → coverageVerdict (row.value "coverage") = .satisfied) := by
  rw [coverageCheck]
  cases applies with
  | false => exact iff_of_true rfl fun h => absurd h Bool.false_ne_true
  | true =>
    by_cases hsat : coverageVerdict (row.value "coverage") = .satisfied
    · simp [hsat]
    · simp [hsat]

theorem countChecks_spec (hr : r.Reads row) (hp : p.Reads pred) :
    ∃ out, countChecks row pred = .ok out ∧ (out.1 = true ↔ (Rust.executedOk r p = true ∧
          (CountCapable r p ∨ r.filteredTests.isSome)) ∧ (CountCapable r p → PerNode r p →
          coverageVerdict (row.value "coverage") = .satisfied)) := by
  obtain ⟨-, -, -, -, -, -, hmin⟩ := entriesOf_value hp.require
  rw [countChecks, perNodeApplies_eq hr hp.coverage, hp.countsSchema, hmin,
    executedOk_eq hr (p := p), hr.schemaVersion, orZero_encode, numLe_int]
  simp only [Except.bind, Except.map, Nat.cast_le]
  by_cases hcapable : p.countsSchema ≤ r.schemaVersion.getD 0
  · have hcapable' : CountCapable r p := hcapable
    rw [decide_eq_true hcapable]
    cases hexecuted : Rust.executedOk r p with
    | false => exact ⟨_, rfl, iff_of_false Bool.false_ne_true fun h => Bool.false_ne_true h.1.1⟩
    | true =>
      refine ⟨_, rfl, ?_⟩
      rw [coverageCheck_pass]
      simp [hcapable', PerNode]
  · have hcapable' : ¬ CountCapable r p := hcapable
    rw [decide_eq_false hcapable]
    by_cases hcounts : row.value "executed_tests" ≠ .null ∧ row.value "filtered_tests" ≠ .null ∧
        Rust.executedOk r p = true
    · rw [if_neg (by decide), if_pos hcounts]
      rw [hr.filteredTests, encode_ne_null] at hcounts
      exact ⟨_, rfl, iff_of_true rfl ⟨⟨hcounts.2.2, Or.inr hcounts.2.1⟩,
        fun h => absurd h hcapable'⟩⟩
    · rw [if_neg (by decide), if_neg hcounts]
      refine ⟨_, rfl, iff_of_false Bool.false_ne_true fun h => hcounts ?_⟩
      rw [hr.executedTests, hr.filteredTests, encode_ne_null, encode_ne_null]
      exact ⟨Rust.isSome_of_executedOk h.1.1, h.1.2.resolve_left hcapable', h.1.1⟩

def ValuesAccept (r : HistoryRow) (row : Fields) (sha : String) (p : QualifyingPredicate)
    (pred : Fields) : Prop :=
  Counted r sha p ∧ coverageSchemaAccepted (coverageSchemaVerdict row pred) = true ∧
    (CountCapable r p → PerNode r p → coverageVerdict (row.value "coverage") = .satisfied)

theorem rowQualificationWithoutClass_spec (hr : r.Reads row) (hp : p.Reads pred) (hempty : sha ≠ "")
    (hunknown : sha ≠ "unknown") : ∃ out, rowQualificationWithoutClass row sha pred = .ok out ∧
      (out.1 = true ↔ ValuesAccept r row sha p pred) := by
  have hid := identityChecks_pass hr hp.require hempty hunknown
  obtain ⟨-, -, -, -, -, hmax, -⟩ := entriesOf_value hp.require
  rw [rowQualificationWithoutClass, hmax, hr.failures, orZero_encode, numLe_int]
  split
  case h_1 check hcheck =>
    refine ⟨_, rfl, iff_of_false Bool.false_ne_true fun h => ?_⟩
    have hnone := hid.mpr h.1.identified
    rw [hcheck] at hnone
    cases hnone
  case h_2 hnone =>
    have hidentified := hid.mp hnone
    simp only [Except.bind, Nat.cast_le]
    by_cases hfailures : r.failures.getD 0 ≤ p.require.failuresMax
    · rw [decide_eq_true hfailures, Bool.not_true, if_neg Bool.false_ne_true]
      rw [hr.executedTests, hr.filteredTests, hp.gateFilteredTests]
      by_cases hexecuted : r.executedTests = some 0
      · rw [if_pos ((pyEq_encode_int _ _).mpr hexecuted)]
        exact ⟨_, rfl, iff_of_false Bool.false_ne_true fun h => h.1.executed hexecuted⟩
      · rw [if_neg fun h => hexecuted ((pyEq_encode_int _ _).mp h)]
        split
        case isTrue h =>
          refine ⟨_, rfl, iff_of_false Bool.false_ne_true fun hv => ?_⟩
          have hpy := (pyEq_encode_int r.filteredTests 0).mpr (hv.1.filtered h.1)
          rw [hpy] at h
          exact absurd h.2 (by decide)
        case isFalse hfiltered =>
          have hfiltered : p.gateFilteredTests = true → r.filteredTests = some 0 := by
            intro hgate
            rw [← pyEq_encode_int]
            by_contra hne
            exact hfiltered ⟨hgate, by simpa using hne⟩
          split
          case isTrue h =>
            refine ⟨_, rfl, iff_of_false Bool.false_ne_true fun hv => ?_⟩
            rw [hv.2.1] at h
            cases h
          case isFalse hschema =>
            have hschema : coverageSchemaAccepted (coverageSchemaVerdict row pred) = true := by
              simpa using hschema
            obtain ⟨out, hout, hiff⟩ := countChecks_spec hr hp
            refine ⟨out, hout, hiff.trans ⟨fun h => ⟨?_, hschema, h.2⟩, fun h => ?_⟩⟩
            · exact ⟨hidentified, hfailures, hexecuted, hfiltered, h.1.1, h.1.2⟩
            · exact ⟨⟨h.1.executedOk, h.1.counts⟩, h.2.2⟩
    · rw [decide_eq_false hfailures, Bool.not_false, if_pos rfl]
      exact ⟨_, rfl, iff_of_false Bool.false_ne_true fun h => hfailures h.1.failures⟩

end Python

def enforcedAt (digit : Char → Bool) (finished : Option String) (epoch : String) : Bool :=
  match finished with
  | some ts => if fits digit timestampShape ts.toList then epoch ≤ ts else true
  | none => true

def enforcedFor (digit : Char → Bool) (c : ProducerClause) (finished : Option String) : Bool :=
  c.required && c.appliesFromFinishedAt.any fun epoch =>
    epoch ≠ "" && enforcedAt digit finished epoch

def registered (c : ProducerClause) (producer : Json) : Bool :=
  (Python.nonempty? producer).any fun name => c.known = [] ∨ name ∈ c.known

variable {digit digit' : Char → Bool}

theorem fits_mono (hdigit : ∀ c, digit c = true → digit' c = true) (shape : List (Option Char))
    (text : List Char) (h : fits digit shape text = true) : fits digit' shape text = true := by
  induction shape generalizing text with
  | nil =>
    cases text with
    | nil => rfl
    | cons c text => cases h
  | cons slot shape ih =>
    cases text with
    | nil => cases slot <;> cases h
    | cons c text =>
      cases slot with
      | none =>
        rw [fits, Bool.and_eq_true] at h ⊢
        exact ⟨hdigit c h.1, ih text h.2⟩
      | some literal =>
        rw [fits, Bool.and_eq_true] at h ⊢
        exact ⟨h.1, ih text h.2⟩

theorem isDecimalDigit_of_isDigit (c : Char) (h : c.isDigit = true) : isDecimalDigit c = true := by
  have hbounds : 48 ≤ c.toNat ∧ c.toNat < 58 := by
    rw [Char.isDigit, Bool.and_eq_true, decide_eq_true_eq, decide_eq_true_eq] at h
    exact ⟨h.1, Nat.lt_succ_of_le h.2⟩
  rw [isDecimalDigit, decimalValue?, Option.isSome_map, List.find?_isSome]
  exact ⟨48, by decide, decide_eq_true hbounds⟩

variable {finished : Option String}

theorem enforcedAt_mono (hdigit : ∀ c, digit c = true → digit' c = true) {epoch : String}
    (h : enforcedAt digit' finished epoch = true) : enforcedAt digit finished epoch = true := by
  cases finished with
  | none => rfl
  | some ts =>
    rw [enforcedAt] at h ⊢
    split_ifs with hfits
    · rw [if_pos (fits_mono hdigit _ _ hfits)] at h
      exact h
    · rfl

theorem enforcedFor_mono (hdigit : ∀ c, digit c = true → digit' c = true) {c : ProducerClause}
    (h : enforcedFor digit' c finished = true) : enforcedFor digit c finished = true := by
  rw [enforcedFor, Bool.and_eq_true, Option.any_eq_true] at h ⊢
  obtain ⟨hrequired, epoch, hepoch, henforced⟩ := h
  rw [Bool.and_eq_true] at henforced
  refine ⟨hrequired, epoch, hepoch, ?_⟩
  rw [Bool.and_eq_true]
  exact ⟨henforced.1, enforcedAt_mono hdigit henforced.2⟩

namespace Rust

variable {r : HistoryRow} {row : Fields}

theorem named_eq (hr : r.Reads row) :
    (((r.extra.lookup "producer").bind asStr).filter fun s => s ≠ "") =
      Python.nonempty? (row.value "producer") := by
  rw [hr.extra "producer" (by decide), value]
  cases row "producer" with
  | none => rfl
  | some j =>
    cases j with
    | str s =>
      simp only [Option.bind_some, asStr, Option.getD_some, Python.nonempty?,
        Option.filter_some, ne_eq, decide_not, Bool.not_eq_true', decide_eq_false_iff_not]
      by_cases hs : s = "" <;> simp [hs]
    | _ => rfl

theorem producerEnforcedFor_eq (r : HistoryRow) (p : QualifyingPredicate) :
    producerEnforcedFor r p = enforcedFor Char.isDigit p.producer r.finishedAt := by
  rw [producerEnforcedFor, enforcedFor]
  cases p.producer.required with
  | false => rfl
  | true =>
    cases p.producer.appliesFromFinishedAt with
    | none => rfl
    | some epoch =>
      rw [Bool.not_true, if_neg Bool.false_ne_true, Bool.true_and, Option.any_some]
      by_cases hepoch : epoch = ""
      · rw [hepoch]
        rfl
      · dsimp only
        rw [if_neg hepoch, decide_eq_true hepoch, Bool.true_and]
        rfl

theorem writerRefused_iff {p : QualifyingPredicate} (hr : r.Reads row) :
    WriterRefused r p ↔ enforcedFor Char.isDigit p.producer r.finishedAt = true ∧
      registered p.producer (row.value "producer") = false := by
  rw [WriterRefused, producerEnforcedFor_eq]
  refine and_congr_right fun h => ?_
  rw [producerVerdict, named_eq hr, registered, producerEnforcedFor_eq, h]
  cases Python.nonempty? (row.value "producer") with
  | none => simp
  | some name =>
    rw [Option.any_some]
    by_cases hknown : p.producer.known = [] ∨ name ∈ p.producer.known
    · rw [decide_eq_true hknown]
      simp only [if_pos hknown, reduceCtorEq, or_self]
    · rw [decide_eq_false hknown]
      simp only [if_neg hknown, or_true]

end Rust

namespace Python

def seenProducer (pred : Fields) (p : QualifyingPredicate) : ProducerClause :=
  match pred "producer" with
  | some (.arr _) => .inert
  | _ => p.producer

theorem seenProducer_cases (pred : Fields) (p : QualifyingPredicate) :
    ((∃ items, pred "producer" = some (.arr items)) ∧ seenProducer pred p = .inert) ∨
      seenProducer pred p = p.producer := by
  rw [seenProducer]
  split
  case h_1 items hitems => exact Or.inl ⟨⟨items, hitems⟩, rfl⟩
  case h_2 => exact Or.inr rfl

variable {p : QualifyingPredicate} {pred : Fields}

theorem producerClause_seen (hp : p.Reads pred) :
    producerClause pred = .ok ⟨(seenProducer pred p).required,
      Codec.str.nullable.encode (seenProducer pred p).appliesFromFinishedAt,
      (seenProducer pred p).known⟩ := by
  rcases hp.producer with ⟨hnone, hinert⟩ | ⟨items, harr⟩ | hreads
  · rw [producerClause, seenProducer, value, hnone, hinert]
    rfl
  · rw [producerClause, seenProducer, value, harr]
    rfl
  · have hseen : seenProducer pred p = p.producer := by
      obtain ⟨entries, hentries, -⟩ := hreads
      rw [value] at hentries
      rw [seenProducer]
      cases hget : pred "producer" with
      | none => rfl
      | some j =>
        rw [hget, Option.getD_some] at hentries
        rw [hentries]
    rw [hseen]
    exact producerClause_reads_view hreads

variable {r : HistoryRow} {row : Fields}

theorem producerEnforcedFor_eq (hr : r.Reads row) (hp : p.Reads pred) :
    producerEnforcedFor row pred =
      .ok (enforcedFor isDecimalDigit (seenProducer pred p) r.finishedAt) := by
  rw [producerEnforcedFor, producerClause_seen hp, Except.map, enforcedFor]
  dsimp only
  refine congrArg Except.ok ?_
  cases (seenProducer pred p).required with
  | false => rfl
  | true =>
    rw [hr.finishedAt, Bool.not_true, if_neg Bool.false_ne_true, Bool.true_and]
    cases (seenProducer pred p).appliesFromFinishedAt with
    | none => rfl
    | some epoch =>
      have hencode : Codec.str.nullable.encode (some epoch) = .str epoch := rfl
      rw [hencode, nonempty?, Option.any_some]
      by_cases hepoch : epoch = ""
      · rw [if_pos hepoch, decide_eq_false (not_not.mpr hepoch)]
        rfl
      · rw [if_neg hepoch, decide_eq_true hepoch, Bool.true_and]
        cases r.finishedAt with
        | none => rfl
        | some ts => rfl

def WriterRefused (row pred : Fields) : Prop :=
  producerEnforcedFor row pred = .ok true ∧
    (producerVerdict row pred = .ok .missing ∨ producerVerdict row pred = .ok .unknownWriter)

theorem producerVerdict_eq (hr : r.Reads row) (hp : p.Reads pred) :
    ∃ verdict, producerVerdict row pred = .ok verdict ∧
      (enforcedFor isDecimalDigit (seenProducer pred p) r.finishedAt = true →
        ((verdict = .missing ∨ verdict = .unknownWriter) ↔
          registered (seenProducer pred p) (row.value "producer") = false)) := by
  rw [producerVerdict, producerClause_seen hp, producerEnforcedFor_eq hr hp, Except.bind, registered]
  dsimp only
  cases nonempty? (row.value "producer") with
  | none =>
    refine ⟨_, rfl, fun henforced => ?_⟩
    simp [henforced]
  | some name =>
    refine ⟨_, rfl, fun _ => ?_⟩
    rw [Option.any_some]
    by_cases hknown : (seenProducer pred p).known = [] ∨ name ∈ (seenProducer pred p).known
    · rw [decide_eq_true hknown]
      simp only [if_pos hknown, reduceCtorEq, or_self]
    · rw [decide_eq_false hknown]
      simp only [if_neg hknown, or_true]

theorem writerRefused_iff (hr : r.Reads row) (hp : p.Reads pred) : WriterRefused row pred ↔
      enforcedFor isDecimalDigit (seenProducer pred p) r.finishedAt = true ∧
        registered (seenProducer pred p) (row.value "producer") = false := by
  obtain ⟨verdict, hverdict, hiff⟩ := producerVerdict_eq hr hp
  rw [WriterRefused, producerEnforcedFor_eq hr hp, hverdict, Except.ok.injEq, Except.ok.injEq,
    Except.ok.injEq]
  exact and_congr_right hiff

theorem writerRefused_rust (hr : r.Reads row) (hp : p.Reads pred) (h : WriterRefused row pred) :
    Rust.WriterRefused r p := by
  obtain ⟨henforced, hregistered⟩ := (writerRefused_iff hr hp).mp h
  rw [Rust.writerRefused_iff hr]
  rcases seenProducer_cases pred p with ⟨-, hinert⟩ | hseen
  · rw [hinert] at henforced
    cases henforced
  · rw [hseen] at henforced hregistered
    exact ⟨enforcedFor_mono isDecimalDigit_of_isDigit henforced, hregistered⟩

theorem admissionOf_mono {c : AdmissionClause} {known known' : List String} (hsub : known ⊆ known')
    (h : admissionAccepted (admissionOf c known row) = true) :
    admissionAccepted (admissionOf c known' row) = true := by
  rw [admissionOf] at h ⊢
  cases hschema : natural? (row.value "schema_version") with
  | none =>
    rw [hschema] at h
    exact h
  | some schema =>
    rw [hschema] at h
    dsimp only at h ⊢
    split_ifs with hmin
    · rfl
    · rw [if_neg hmin] at h
      have hnone : registeredRefusalOf c known row = none →
          registeredRefusalOf c known' row = none := by
        rw [registeredRefusalOf, registeredRefusalOf]
        cases c.requireRegisteredProducer with
        | false => exact fun h => h
        | true =>
          cases nonempty? (row.value "producer") with
          | none => exact fun h => h
          | some name =>
            simp only [if_true, ite_eq_left_iff, reduceCtorEq, imp_false, not_not]
            exact fun hmem => hsub hmem
      cases hrefusal : registeredRefusalOf c known row with
      | none =>
        rw [hrefusal] at h
        rw [hnone hrefusal]
        exact h
      | some verdict =>
        rw [hrefusal] at h
        rw [registeredRefusalOf] at hrefusal
        split at hrefusal
        case isFalse => cases hrefusal
        case isTrue =>
          split at hrefusal
          · cases hrefusal
            cases h
          · split at hrefusal
            · cases hrefusal
            · cases hrefusal
              cases h

def AdmissionAccepts (row pred : Fields) : Prop :=
  ∃ verdict, admissionVerdict row pred = .ok verdict ∧ admissionAccepted verdict = true

theorem admissionAccepts_iff (hp : p.Reads pred) : AdmissionAccepts row pred ↔
      admissionAccepted (admissionOf p.admission (seenProducer pred p).known row) = true := by
  have hverdict := @admissionVerdict_eq _ row _ _ hp.admission (producerClause_seen hp)
  rw [AdmissionAccepts, hverdict]
  constructor
  · rintro ⟨verdict, heq, h⟩
    cases heq
    exact h
  · exact fun h => ⟨_, rfl, h⟩

theorem seenProducer_known (pred : Fields) (p : QualifyingPredicate) :
    (seenProducer pred p).known ⊆ p.producer.known := by
  rcases seenProducer_cases pred p with ⟨-, hinert⟩ | hseen
  · rw [hinert]
    exact List.nil_subset _
  · rw [hseen]
    exact List.Subset.refl _

theorem acceptedClasses_eq (hp : p.Reads pred) :
    acceptedClasses pred = .ok p.acceptsGreenClass := by
  rw [acceptedClasses, value]
  rcases hp.acceptsGreenClass with ⟨hnone, hdefault⟩ | hsome
  · rw [hnone, hdefault]
    rfl
  · have hlist : pathList? (.arr (p.acceptsGreenClass.map Json.str)) = some p.acceptsGreenClass :=
      pathList?_encode (some p.acceptsGreenClass)
    rw [hsome, Option.getD_some]
    dsimp only
    rw [hlist]

def ReachesClass (r : HistoryRow) (row : Fields) (sha : String) (p : QualifyingPredicate)
    (pred : Fields) : Prop :=
  ValuesAccept r row sha p pred ∧ ¬ WriterRefused row pred ∧
    baseAccepted (baseEvidenceVerdict row pred) = true ∧ AdmissionAccepts row pred

theorem evidenceChecks_spec {p : QualifyingPredicate} {row : Dict Json} {pred : Fields}
    (hp : p.Reads pred) :
    ((baseAccepted (baseEvidenceVerdict row.get? pred) = true ∧ AdmissionAccepts row.get? pred) →
      (evidenceChecks row pred).map Prod.fst =
        (deriveClass row).map fun derived => decide (derived.1.text ∈ p.acceptsGreenClass)) ∧
    (¬ (baseAccepted (baseEvidenceVerdict row.get? pred) = true ∧ AdmissionAccepts row.get? pred) →
      (evidenceChecks row pred).map Prod.fst = .ok false) := by
  have hverdict := @admissionVerdict_eq _ row.get? _ _ hp.admission (producerClause_seen hp)
  rw [admissionAccepts_iff hp, evidenceChecks, hverdict]
  cases hbase : baseAccepted (baseEvidenceVerdict row.get? pred) with
  | false => refine ⟨fun h => absurd h.1 Bool.false_ne_true, fun _ => rfl⟩
  | true =>
    rw [Bool.not_true, if_neg Bool.false_ne_true, Except.bind]
    cases hadmission :
        admissionAccepted (admissionOf p.admission (seenProducer pred p).known row.get?) with
    | false => exact ⟨fun h => absurd h.2 Bool.false_ne_true, fun _ => rfl⟩
    | true =>
      refine ⟨fun _ => ?_, fun h => absurd ⟨rfl, rfl⟩ h⟩
      rw [Bool.not_true, if_neg Bool.false_ne_true, classCheck, acceptedClasses_eq hp]
      cases deriveClass row with
      | error e => rfl
      | ok derived =>
        refine congrArg Except.ok ?_
        by_cases hmem : derived.1.text ∈ p.acceptsGreenClass <;> simp [hmem]

theorem rowQualifies_spec {row : Dict Json} {sha : String} (hr : r.Reads row.get?)
    (hp : p.Reads pred) (hempty : sha ≠ "") (hunknown : sha ≠ "unknown") :
    (ReachesClass r row.get? sha p pred → rowQualifies row sha pred =
      (deriveClass row).map fun derived => decide (derived.1.text ∈ p.acceptsGreenClass)) ∧
    (¬ ReachesClass r row.get? sha p pred → rowQualifies row sha pred = .ok false) := by
  obtain ⟨valued, hvalued, hvalues⟩ := rowQualificationWithoutClass_spec hr hp hempty hunknown
  obtain ⟨verdict, hverdict, -⟩ := producerVerdict_eq hr hp
  have henforced := producerEnforcedFor_eq hr hp
  have hwriter : WriterRefused row.get? pred ↔ (verdict = .missing ∨ verdict = .unknownWriter) ∧
        enforcedFor isDecimalDigit (seenProducer pred p) r.finishedAt = true := by
    rw [WriterRefused, henforced, hverdict, Except.ok.injEq, Except.ok.injEq, Except.ok.injEq,
      and_comm]
  obtain ⟨hpass, hfail⟩ := @evidenceChecks_spec _ row _ hp
  rw [rowQualifies, rowQualification, hvalued, hverdict, henforced, ReachesClass, ← hvalues]
  simp only [Except.bind]
  cases hv : valued.1 with
  | false => exact ⟨fun h => absurd h.1 Bool.false_ne_true, fun _ => rfl⟩
  | true =>
    rw [Bool.not_true, if_neg Bool.false_ne_true]
    by_cases hrefused : WriterRefused row.get? pred
    · rw [if_pos (hwriter.mp hrefused)]
      exact ⟨fun h => absurd hrefused h.2.1, fun _ => rfl⟩
    · rw [if_neg fun h => hrefused (hwriter.mpr h)]
      exact ⟨fun h => hpass h.2.2, fun h => hfail fun he => h ⟨rfl, hrefused, he⟩⟩

end Python

end DevHermit.Receipt
