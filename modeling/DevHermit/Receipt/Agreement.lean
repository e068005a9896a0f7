import DevHermit.Receipt.Clauses

namespace DevHermit.Receipt

open Lib Option

def Python.ClassAccepted (row : Dict Json) (p : QualifyingPredicate) : Prop :=
  ∃ derived, deriveClass row = .ok derived ∧ derived.1.text ∈ p.acceptsGreenClass

def ArrayCoverage (row : Fields) : Prop := ∃ items, row "coverage" = some (.arr items)

def ArrayProducer (pred : Fields) : Prop := ∃ items, pred "producer" = some (.arr items)

def WideDigits (r : HistoryRow) : Prop :=
  ∃ ts, r.finishedAt = some ts ∧ Python.isRfc3339Z ts = true ∧ Rust.isRfc3339Z ts = false

structure Weighed (r : HistoryRow) (row : Fields) (sha : String) (p : QualifyingPredicate)
    (pred : Fields) : Prop where
  counted : Counted r sha p
  gated : CountCapable r p → PerNode r p
  covered : CountCapable r p → Python.coverageVerdict (row.value "coverage") = .satisfied
  coverageSchema :
    Python.coverageSchemaAccepted (Python.coverageSchemaVerdict row pred) = true
  base : Python.baseAccepted (Python.baseEvidenceVerdict row pred) = true

inductive Diverges (row : Dict Json) (sha : String) (pred : Fields) (r : HistoryRow)
    (p : QualifyingPredicate) : Prop
  | skippedGates (hcounted : Counted r sha p) (hcapable : CountCapable r p)
      (hskip : ¬ PerNode r p)
      (hgate : Python.coverageSchemaAccepted (Python.coverageSchemaVerdict row.get? pred) = false ∨
        Python.WriterRefused row.get? pred ∨
        Python.baseAccepted (Python.baseEvidenceVerdict row.get? pred) = false ∨
        ¬ Python.AdmissionAccepts row.get? pred ∨ ¬ Python.ClassAccepted row p)
  | arrayCoverage (hcounted : Counted r sha p) (hcapable : CountCapable r p)
      (hnode : PerNode r p) (harray : ArrayCoverage row.get?) (hcovered : Rust.CoverageSatisfied r)
      (hgates : Rust.GatesAccept r p)
  | unreadWriters (hweighed : Weighed r row.get? sha p pred) (harray : ArrayProducer pred)
      (hunread : ¬ Python.AdmissionAccepts row.get? pred) (hgates : Rust.GatesAccept r p)
  | looseWriter (hweighed : Weighed r row.get? sha p pred)
      (hkind : WideDigits r ∨ ArrayProducer pred) (hloose : ¬ Python.WriterRefused row.get? pred)
      (hrefused : Rust.WriterRefused r p) (hadmission : Python.AdmissionAccepts row.get? pred)
      (hclass : UnhashableDelta sha row ∨ Python.ClassAccepted row p)
  | unhashableKind (hweighed : Weighed r row.get? sha p pred)
      (hwriter : ¬ Rust.WriterRefused r p) (hadmission : Python.AdmissionAccepts row.get? pred)
      (hkind : UnhashableDelta sha row)
  | refusedAdmitted (hweighed : Weighed r row.get? sha p pred)
      (hwriter : ¬ Rust.WriterRefused r p) (hadmission : Python.AdmissionAccepts row.get? pred)
      (hrefused : derivedGreenClass (some sha) row.get? = none)
      (hadmitted : "refused" ∈ p.acceptsGreenClass)

variable {r : HistoryRow} {row : Dict Json}

theorem covered_iff (hrow : HistoryRow.deserialise row = some r)
    (harray : ¬ ArrayCoverage row.get?) : Rust.CoverageSatisfied r ↔
      Python.coverageVerdict (Fields.value row.get? "coverage") = .satisfied := by
  obtain ⟨hreads, hfield⟩ := HistoryRow.deserialise_reads hrow
  rw [Rust.CoverageSatisfied]
  cases hc : r.coverage with
  | none =>
    rw [hreads.coverage_none.mpr hc]
    refine iff_of_false ?_ (by decide)
    rintro ⟨c, h, -⟩
    cases h
  | some c =>
    rw [hc] at hfield
    obtain ⟨j, hj, hdes⟩ := HistoryRow.coverage_of_field hfield
    rw [Fields.value, hj, getD_some]
    cases j with
    | obj entries =>
      rw [coverageVerdict_agree hdes]
      constructor
      · rintro ⟨c', hc', hsat⟩
        cases hc'
        exact hsat
      · exact fun hsat => ⟨c, rfl, hsat⟩
    | arr items => exact absurd ⟨items, hj⟩ harray
    | _ => cases hdes

theorem uncovered_of_array {row : Fields} (harray : ArrayCoverage row) :
    Python.coverageVerdict (row.value "coverage") ≠ .satisfied := by
  obtain ⟨items, hitems⟩ := harray
  rw [Fields.value, hitems, getD_some]
  rintro ⟨⟩

variable {p : QualifyingPredicate}

theorem loose_kind {row pred : Fields} (hr : r.Reads row) (hp : p.Reads pred)
    (hloose : ¬ Python.WriterRefused row pred) (hrefused : Rust.WriterRefused r p) :
    WideDigits r ∨ ArrayProducer pred := by
  rw [Python.writerRefused_iff hr hp] at hloose
  rw [Rust.writerRefused_iff hr] at hrefused
  rcases Python.seenProducer_cases pred p with ⟨harray, -⟩ | hseen
  · exact Or.inr harray
  · rw [hseen] at hloose
    refine Or.inl ?_
    have hpy : enforcedFor isDecimalDigit p.producer r.finishedAt ≠ true :=
      fun h => hloose ⟨h, hrefused.2⟩
    have hrs := hrefused.1
    rw [enforcedFor, Bool.and_eq_true, any_eq_true] at hrs
    obtain ⟨hrequired, epoch, hepoch, henforced⟩ := hrs
    rw [Bool.and_eq_true] at henforced
    rw [enforcedFor, hrequired, hepoch, Bool.true_and, any_some, henforced.1, Bool.true_and] at hpy
    cases hts : r.finishedAt with
    | none =>
      rw [hts] at hpy
      exact absurd rfl hpy
    | some ts =>
      rw [hts] at hpy henforced
      rw [enforcedAt] at hpy henforced
      refine ⟨ts, hts, ?_, ?_⟩
      · by_contra hne
        exact hpy (if_neg hne)
      · by_contra hne
        have hfits : fits Char.isDigit timestampShape ts.toList = true := by
          simpa [Rust.isRfc3339Z] using hne
        rw [if_pos hfits] at henforced
        rw [if_pos (fits_mono isDecimalDigit_of_isDigit _ _ hfits)] at hpy
        exact hpy henforced.2

theorem class_cases {sha : String} (hr : r.Reads row.get?) (hcommit : r.commit = some sha)
    (hempty : sha ≠ "") (hunknown : sha ≠ "unknown") :
    (UnhashableDelta sha row ∧ deriveClass row = .error .typeError) ∨
    (¬ UnhashableDelta sha row ∧ ∃ derived, deriveClass row = .ok derived ∧
      (Python.ClassAccepted row p ↔ derived.1.text ∈ p.acceptsGreenClass) ∧
      (Rust.ClassAccepted r p ↔ derived.1 ≠ .refused ∧ derived.1.text ∈ p.acceptsGreenClass) ∧
      (derivedGreenClass (some sha) row.get? = none ↔ derived.1 = .refused)) := by
  have hget : row.get? "commit" = some (.str sha) := by
    have hvalue := hr.commit
    rw [hcommit, Fields.value] at hvalue
    cases hget : row.get? "commit" with
    | none =>
      rw [hget] at hvalue
      cases hvalue
    | some j =>
      rw [hget] at hvalue
      exact congrArg some hvalue
  rcases deriveClass_spec hget hempty with ⟨hdelta, herror⟩ | ⟨hdelta, derived, hok, hsame, -⟩
  · exact Or.inl ⟨hdelta.2, herror⟩
  · refine Or.inr ⟨fun h => hdelta ⟨hunknown, h⟩, derived, hok, ?_, ?_, ?_⟩
    · rw [Python.ClassAccepted, hok]
      constructor
      · rintro ⟨out, hout, hmem⟩
        cases hout
        exact hmem
      · exact fun hmem => ⟨derived, rfl, hmem⟩
    · have hextra : derivedGreenClass r.commit (fun k => r.extra.lookup k) =
          derivedGreenClass (some sha) row.get? := by
        rw [hcommit]
        simp only [derivedGreenClass, headClass, hr.extra "validated_head_sha" (by decide),
          hr.extra "inherited_from" (by decide), hr.extra "green_class" (by decide)]
      rw [Rust.ClassAccepted, hextra, hsame, GreenClass.granted]
      by_cases hrefused : derived.1 = .refused
      · rw [if_pos hrefused]
        refine iff_of_false ?_ fun h => h.1 hrefused
        rintro ⟨c, hc, -⟩
        cases hc
      · rw [if_neg hrefused]
        constructor
        · rintro ⟨c, hc, hmem⟩
          cases hc
          exact ⟨hrefused, hmem⟩
        · exact fun h => ⟨_, rfl, h.2⟩
    · rw [hsame, GreenClass.granted]
      by_cases hrefused : derived.1 = .refused
      · rw [if_pos hrefused]
        exact iff_of_true rfl hrefused
      · rw [if_neg hrefused]
        exact iff_of_false (some_ne_none _) hrefused

def Agree (row : Dict Json) (sha : String) (pred : Fields) (r : HistoryRow)
    (p : QualifyingPredicate) : Prop :=
  ∃ qualifies, Python.rowQualifies row sha pred = .ok qualifies ∧
    (Rust.rowQualifies r sha p = true ↔ qualifies = true)

section

variable {row : Dict Json} {sha : String} {pred : Fields} {r : HistoryRow}
  {p : QualifyingPredicate}

section

variable (hr : r.Reads row.get?) (hp : p.Reads pred) (hempty : sha ≠ "")
  (hunknown : sha ≠ "unknown")
include hr hp hempty hunknown

theorem agree_of_unreached (hreach : ¬ Python.ReachesClass r row.get? sha p pred) :
    Agree row sha pred r p ↔ ¬ Rust.rowQualifies r sha p = true := by
  rw [Agree, (Python.rowQualifies_spec hr hp hempty hunknown).2 hreach]
  constructor
  · rintro ⟨qualifies, hok, hiff⟩ haccept
    cases hok
    exact Bool.false_ne_true (hiff.mp haccept)
  · exact fun h => ⟨false, rfl, iff_of_false h Bool.false_ne_true⟩

theorem agree_of_reached (hreach : Python.ReachesClass r row.get? sha p pred) :
    Agree row sha pred r p ↔ ¬ UnhashableDelta sha row ∧
      (Rust.rowQualifies r sha p = true ↔ Python.ClassAccepted row p) := by
  have hcommit := hreach.1.1.identified.commit
  rw [Agree, (Python.rowQualifies_spec hr hp hempty hunknown).1 hreach]
  rcases class_cases (p := p) hr hcommit hempty hunknown with
    ⟨hdelta, herror⟩ | ⟨hdelta, derived, hok, hclass, -⟩
  · rw [herror]
    refine iff_of_false ?_ fun h => h.1 hdelta
    rintro ⟨qualifies, h, -⟩
    cases h
  · rw [hok, hclass]
    constructor
    · rintro ⟨qualifies, h, hiff⟩
      cases h
      exact ⟨hdelta, hiff.trans (decide_eq_true_iff)⟩
    · exact fun h => ⟨_, rfl, h.2.trans decide_eq_true_iff.symm⟩

theorem agree_iff_of_skipped (hcounted : Counted r sha p) (hcapable : CountCapable r p)
    (hskip : ¬ PerNode r p) : Agree row sha pred r p ↔ ¬ Diverges row sha pred r p := by
  have haccept : Rust.rowQualifies r sha p = true :=
    (Rust.rowQualifies_iff r sha p).mpr ⟨hcounted, Or.inl ⟨hcapable, hskip⟩⟩
  have hdiverges : Diverges row sha pred r p ↔
      ¬ (Python.ReachesClass r row.get? sha p pred ∧ Python.ClassAccepted row p) := by
    constructor
    · intro hdiverges hreach
      cases hdiverges with
      | skippedGates _ _ _ hgate =>
        obtain ⟨⟨⟨-, hschema, -⟩, hwriter, hbase, hadmission⟩, hclass⟩ := hreach
        rcases hgate with h | h | h | h | h
        · exact absurd (hschema.symm.trans h) (by decide)
        · exact hwriter h
        · exact absurd (hbase.symm.trans h) (by decide)
        · exact h hadmission
        · exact h hclass
      | arrayCoverage _ _ hnode => exact hskip hnode
      | unreadWriters hweighed | looseWriter hweighed | unhashableKind hweighed =>
        exact hskip (hweighed.gated hcapable)
      | refusedAdmitted hweighed => exact hskip (hweighed.gated hcapable)
    · intro hreach
      refine .skippedGates hcounted hcapable hskip ?_
      by_contra hgates
      simp only [not_or, not_not, Bool.not_eq_false] at hgates
      obtain ⟨hschema, hwriter, hbase, hadmission, hclass⟩ := hgates
      exact hreach ⟨⟨⟨hcounted, hschema, fun _ h => absurd h hskip⟩, hwriter, hbase, hadmission⟩,
        hclass⟩
  rw [hdiverges, not_not]
  by_cases hreach : Python.ReachesClass r row.get? sha p pred
  · rw [agree_of_reached hr hp hempty hunknown hreach]
    refine ⟨fun h => ⟨hreach, h.2.mp haccept⟩, fun h => ⟨?_, iff_of_true haccept h.2⟩⟩
    obtain ⟨derived, hok, -⟩ := h.2
    rcases class_cases (p := p) hr hcounted.identified.commit hempty hunknown with
      ⟨-, herror⟩ | ⟨hdelta, -⟩
    · rw [herror] at hok
      cases hok
    · exact hdelta
  · rw [agree_of_unreached hr hp hempty hunknown hreach]
    exact iff_of_false (not_not.mpr haccept) fun h => hreach h.1

end

theorem gatesAccept_iff (hr : r.Reads row.get?) (hp : p.Reads pred) :
    Rust.GatesAccept r p ↔ ¬ Rust.WriterRefused r p ∧ (Python.admissionAccepted
        (Python.admissionOf p.admission p.producer.known row.get?) = true ∧
      Python.baseAccepted (Python.baseEvidenceVerdict row.get? pred) = true ∧
      Python.coverageSchemaAccepted (Python.coverageSchemaVerdict row.get? pred) = true) ∧
      Rust.ClassAccepted r p := by
  rw [Rust.GatesAccept, Rust.sharedEvidenceAccepts_eq hr hp, Bool.and_eq_true, Bool.and_eq_true,
    and_assoc (a := _ = true)]

theorem admission_kept (hp : p.Reads pred) (h : Python.AdmissionAccepts row.get? pred) :
    Python.admissionAccepted (Python.admissionOf p.admission p.producer.known row.get?) = true :=
  Python.admissionOf_mono (Python.seenProducer_known pred p) ((Python.admissionAccepts_iff hp).mp h)

theorem admission_lost (hp : p.Reads pred) (hr : Python.admissionAccepted
      (Python.admissionOf p.admission p.producer.known row.get?) = true)
    (h : ¬ Python.AdmissionAccepts row.get? pred) : ArrayProducer pred := by
  rcases Python.seenProducer_cases pred p with ⟨harray, -⟩ | hseen
  · exact harray
  · rw [Python.admissionAccepts_iff hp, hseen] at h
    exact absurd hr h

theorem rust_accepts_of_gated (hcounted : Counted r sha p)
    (hgated : CountCapable r p → PerNode r p) : Rust.rowQualifies r sha p = true ↔
      (CountCapable r p → Rust.CoverageSatisfied r) ∧ Rust.GatesAccept r p := by
  rw [Rust.rowQualifies_iff]
  constructor
  · rintro ⟨-, ⟨hcapable, hskip⟩ | h⟩
    · exact absurd (hgated hcapable) hskip
    · exact h
  · exact fun h => ⟨hcounted, Or.inr h⟩

theorem diverges_of_weighed (hweighed : Weighed r row.get? sha p pred)
    (h : Diverges row sha pred r p) :
    (¬ Python.AdmissionAccepts row.get? pred ∧ Rust.GatesAccept r p) ∨
    Python.AdmissionAccepts row.get? pred ∧
      ((¬ Python.WriterRefused row.get? pred ∧ Rust.WriterRefused r p ∧
        (UnhashableDelta sha row ∨ Python.ClassAccepted row p)) ∨
      ¬ Rust.WriterRefused r p ∧ (UnhashableDelta sha row ∨
        (derivedGreenClass (some sha) row.get? = none ∧ "refused" ∈ p.acceptsGreenClass))) := by
  cases h with
  | skippedGates _ hcapable hskip => exact absurd (hweighed.gated hcapable) hskip
  | arrayCoverage _ hcapable _ harray =>
    exact absurd (hweighed.covered hcapable) (uncovered_of_array harray)
  | unreadWriters _ _ hunread hgates => exact Or.inl ⟨hunread, hgates⟩
  | looseWriter _ _ hloose hrefused hadmission hclass =>
    exact Or.inr ⟨hadmission, Or.inl ⟨hloose, hrefused, hclass⟩⟩
  | unhashableKind _ hwriter hadmission hkind =>
    exact Or.inr ⟨hadmission, Or.inr ⟨hwriter, Or.inl hkind⟩⟩
  | refusedAdmitted _ hwriter hadmission hrefused hadmitted =>
    exact Or.inr ⟨hadmission, Or.inr ⟨hwriter, Or.inr ⟨hrefused, hadmitted⟩⟩⟩

theorem reaches_of_weighed (hweighed : Weighed r row.get? sha p pred)
    (hwriter : ¬ Python.WriterRefused row.get? pred)
    (hadmission : Python.AdmissionAccepts row.get? pred) :
    Python.ReachesClass r row.get? sha p pred :=
  ⟨⟨hweighed.counted, hweighed.coverageSchema, fun hcapable _ => hweighed.covered hcapable⟩, hwriter,
    hweighed.base, hadmission⟩

section

variable (hrow : HistoryRow.deserialise row = some r) (hp : p.Reads pred) (hempty : sha ≠ "")
  (hunknown : sha ≠ "unknown")
include hrow hp hempty hunknown

theorem agree_iff_of_weighed (hweighed : Weighed r row.get? sha p pred) :
    Agree row sha pred r p ↔ ¬ Diverges row sha pred r p := by
  have hr := (HistoryRow.deserialise_reads hrow).1
  have hcovered : CountCapable r p → Rust.CoverageSatisfied r := fun hcapable =>
    (covered_iff hrow fun harray => uncovered_of_array harray (hweighed.covered hcapable)).mpr
      (hweighed.covered hcapable)
  have haccept : Rust.rowQualifies r sha p = true ↔ Rust.GatesAccept r p :=
    (rust_accepts_of_gated hweighed.counted hweighed.gated).trans (and_iff_right hcovered)
  by_cases hadmission : Python.AdmissionAccepts row.get? pred
  · by_cases hrefused : Rust.WriterRefused r p
    · have hreject : ¬ Rust.rowQualifies r sha p = true := fun h => (haccept.mp h).1 hrefused
      by_cases hloose : Python.WriterRefused row.get? pred
      · rw [agree_of_unreached hr hp hempty hunknown fun h => h.2.1 hloose]
        refine iff_of_true hreject fun hdiverges => ?_
        rcases diverges_of_weighed hweighed hdiverges with h | ⟨-, h | h⟩
        · exact h.1 hadmission
        · exact h.1 hloose
        · exact h.1 hrefused
      · rw [agree_of_reached hr hp hempty hunknown (reaches_of_weighed hweighed hloose hadmission),
          iff_false_left hreject, ← not_or]
        refine not_congr ⟨fun hclass => ?_, fun hdiverges => ?_⟩
        · exact .looseWriter hweighed (loose_kind hr hp hloose hrefused) hloose hrefused hadmission
            hclass
        · rcases diverges_of_weighed hweighed hdiverges with h | ⟨-, h | h⟩
          · exact absurd hadmission h.1
          · exact h.2.2
          · exact absurd hrefused h.1
    · have hwriter : ¬ Python.WriterRefused row.get? pred :=
        fun h => hrefused (Python.writerRefused_rust hr hp h)
      have hclass : Rust.rowQualifies r sha p = true ↔ Rust.ClassAccepted r p := by
        rw [haccept, gatesAccept_iff hr hp]
        exact ⟨fun h => h.2.2, fun h => ⟨hrefused, ⟨admission_kept hp hadmission, hweighed.base,
          hweighed.coverageSchema⟩, h⟩⟩
      rw [agree_of_reached hr hp hempty hunknown (reaches_of_weighed hweighed hwriter hadmission),
        hclass]
      have hdiverges : Diverges row sha pred r p ↔ UnhashableDelta sha row ∨
          (derivedGreenClass (some sha) row.get? = none ∧ "refused" ∈ p.acceptsGreenClass) := by
        constructor
        · intro hdiverges
          rcases diverges_of_weighed hweighed hdiverges with h | ⟨-, h | h⟩
          · exact absurd hadmission h.1
          · exact absurd h.2.1 hrefused
          · exact h.2
        · rintro (h | ⟨hnone, hmem⟩)
          · exact .unhashableKind hweighed hrefused hadmission h
          · exact .refusedAdmitted hweighed hrefused hadmission hnone hmem
      rw [hdiverges]
      rcases class_cases (p := p) hr hweighed.counted.identified.commit hempty hunknown with
        ⟨hdelta, -⟩ | ⟨hdelta, derived, -, hpy, hrust, hnone⟩
      · exact iff_of_false (fun h => h.1 hdelta) (not_not.mpr (Or.inl hdelta))
      · rw [hpy, hrust, hnone]
        by_cases hderived : derived.1 = .refused
        · rw [hderived]
          simp [hdelta, GreenClass.text]
        · simp [hdelta, hderived]
  · rw [agree_of_unreached hr hp hempty hunknown fun h => hadmission h.2.2.2, haccept]
    refine not_congr ⟨fun hgates => ?_, fun hdiverges => ?_⟩
    · have hkept := ((gatesAccept_iff hr hp).mp hgates).2.1.1
      exact .unreadWriters hweighed (admission_lost hp hkept hadmission) hadmission hgates
    · rcases diverges_of_weighed hweighed hdiverges with h | h
      · exact h.2
      · exact absurd h.1 hadmission

theorem agree_iff_of_unweighed (hcounted : Counted r sha p)
    (hgated : CountCapable r p → PerNode r p) (hweighed : ¬ Weighed r row.get? sha p pred) :
    Agree row sha pred r p ↔ ¬ Diverges row sha pred r p := by
  have hr := (HistoryRow.deserialise_reads hrow).1
  have hreach : ¬ Python.ReachesClass r row.get? sha p pred := by
    rintro ⟨⟨-, hschema, hcovered⟩, -, hbase, -⟩
    exact hweighed ⟨hcounted, hgated, fun h => hcovered h (hgated h), hschema, hbase⟩
  rw [agree_of_unreached hr hp hempty hunknown hreach, rust_accepts_of_gated hcounted hgated]
  refine not_congr ⟨fun h => ?_, fun hdiverges => ?_⟩
  · obtain ⟨hcovered, hgates⟩ := h
    have hevidence := ((gatesAccept_iff hr hp).mp hgates).2.1
    by_cases harray : CountCapable r p ∧ ArrayCoverage row.get?
    · exact .arrayCoverage hcounted harray.1 (hgated harray.1) harray.2 (hcovered harray.1) hgates
    · refine absurd ?_ hweighed
      exact ⟨hcounted, hgated, fun hcapable => (covered_iff hrow fun ha => harray ⟨hcapable, ha⟩).mp
        (hcovered hcapable), hevidence.2.2, hevidence.2.1⟩
  · cases hdiverges with
    | skippedGates _ hcapable hskip => exact absurd (hgated hcapable) hskip
    | arrayCoverage _ _ _ _ hcovered hgates => exact ⟨fun _ => hcovered, hgates⟩
    | unreadWriters h | looseWriter h | unhashableKind h | refusedAdmitted h =>
      exact absurd h hweighed

end

theorem ne_of_isHexSha (h : isHexSha sha = true) : sha ≠ "" ∧ sha ≠ "unknown" := by
  rw [isHexSha, decide_eq_true_eq] at h
  constructor
  · rintro rfl
    exact absurd h.1 (by decide)
  · rintro rfl
    exact absurd h.1 (by decide)

end

theorem agree_iff_not_diverges {row pred : Dict Json} {sha : String} {r : HistoryRow}
    {p : QualifyingPredicate} (hrow : HistoryRow.deserialise row = some r)
    (hparse : Rust.parse pred.get? = some p) (hloads : Python.loads pred.get? = true)
    (hsha : isHexSha sha = true) :
    (∃ qualifies, Python.rowQualifies row sha pred.get? = .ok qualifies ∧
      (Rust.rowQualifies r sha p = true ↔ qualifies = true)) ↔
    ¬ Diverges row sha pred.get? r p := by
  have hp := parse_reads hparse hloads
  have hr := (HistoryRow.deserialise_reads hrow).1
  obtain ⟨hempty, hunknown⟩ := ne_of_isHexSha hsha
  by_cases hcounted : Counted r sha p
  · by_cases hskip : CountCapable r p ∧ ¬ PerNode r p
    · exact agree_iff_of_skipped hr hp hempty hunknown hcounted hskip.1 hskip.2
    · have hgated : CountCapable r p → PerNode r p := by
        intro hcapable
        by_contra hnode
        exact hskip ⟨hcapable, hnode⟩
      by_cases hweighed : Weighed r row.get? sha p pred.get?
      · exact agree_iff_of_weighed hrow hp hempty hunknown hweighed
      · exact agree_iff_of_unweighed hrow hp hempty hunknown hcounted hgated hweighed
  · refine iff_of_true ?_ ?_
    · refine (agree_of_unreached hr hp hempty hunknown fun h => hcounted h.1.1).mpr ?_
      exact fun h => hcounted ((Rust.rowQualifies_iff r sha p).mp h).1
    · intro hdiverges
      cases hdiverges with
      | skippedGates h | arrayCoverage h => exact hcounted h
      | unreadWriters h | looseWriter h | unhashableKind h | refusedAdmitted h =>
        exact hcounted h.counted

theorem engines_agree_unless_divergent {L : Type} {python serde : L → Json}
    {row pred : Document L} {sha : String} {r : HistoryRow} {p : QualifyingPredicate}
    (hnumbers : ∀ l ∈ row.literals ++ pred.literals, python l = serde l)
    (hrow : HistoryRow.deserialise (row.read serde) = some r)
    (hparse : Rust.parse (pred.read serde).get? = some p)
    (hloads : Python.loads (pred.read python).get? = true) (hsha : isHexSha sha = true) :
    (∃ qualifies, Python.rowQualifies (row.read python) sha (pred.read python).get? =
        .ok qualifies ∧ (Rust.rowQualifies r sha p = true ↔ qualifies = true)) ↔
    ¬ Diverges (row.read python) sha (pred.read python).get? r p := by
  rw [← Document.read_congr fun l hl => hnumbers l (List.mem_append_left _ hl)] at hrow
  rw [← Document.read_congr fun l hl => hnumbers l (List.mem_append_right _ hl)] at hparse
  exact agree_iff_not_diverges hrow hparse hloads hsha

def livePredicate (perNode : Bool) : Dict Json :=
  Dict.empty.update [("counts_schema", .int 5),
    ("require", .obj [("commit_anchored", .bool true), ("tree_dirty", .bool false),
      ("profile", .str "full"), ("selection_mode", .str "full"), ("result", .str "pass"),
      ("failures_max", .int 0), ("executed_tests_min", .int 1)]),
    ("coverage", .obj [("applies_at_schema_min", .int 5), ("per_node", .bool perNode)]),
    ("base", .obj [("applies_at_schema_min", .int 5), ("branch", .str "main")]),
    ("admission", .obj [("applies_at_schema_min", .int 5),
      ("required_admission", .str "ci-hub-validate-lock"),
      ("required_concurrent_validates", .int 0),
      ("required_concurrency_proof", .str "validate_lock_owner_ancestry"),
      ("require_registered_producer", .bool true)]),
    ("producer", .obj [("required", .bool true), ("applies_from_finished_at", .null),
      ("known", .arr [.str "hermit-validate-sh", .str "validate.rs"])])]

def livePolicy (perNode : Bool) : QualifyingPredicate where
  countsSchema := 5
  require := ⟨true, false, "full", "full", "pass", 0, 1⟩
  gateFilteredTests := false
  acceptsGreenClass := ["hard"]
  coverage := ⟨5, perNode⟩
  base := ⟨5, "main"⟩
  admission := ⟨5, "ci-hub-validate-lock", 0, "validate_lock_owner_ancestry", true⟩
  producer := ⟨true, none, ["hermit-validate-sh", "validate.rs"]⟩

def sampleSha : String := "0123456789abcdef0123456789abcdef01234567"

def sampleRow : Dict Json :=
  Dict.empty.update [("schema_version", .int 5), ("commit", .str sampleSha),
    ("commit_anchored", .bool true), ("tree_dirty", .bool false), ("profile", .str "full"),
    ("selection_mode", .str "full"), ("result", .str "pass"), ("executed_tests", .int 1)]

def sampleHistory : HistoryRow where
  schemaVersion := some 5
  finishedAt := none
  profile := some "full"
  selectionMode := some "full"
  commit := some sampleSha
  commitAnchored := some true
  treeDirty := some false
  result := some "pass"
  executedTests := some 1
  filteredTests := none
  coverage := none
  failures := none
  concurrentValidates := none
  extra := []

def sampleEvidence : List (String × Json) :=
  [("producer", .str "validate.rs"), ("admission", .str "ci-hub-validate-lock"),
    ("concurrency_proof", .str "validate_lock_owner_ancestry"), ("base_sha", .str sampleSha),
    ("base_tree", .str sampleSha), ("reverie_base_sha", .str sampleSha),
    ("reverie_base_tree", .str sampleSha)]

def completeRow (nodes : List Json) : Dict Json :=
  (sampleRow.update [("concurrent_validates", .int 0),
    ("coverage", .obj [("planned_test_nodes", nodes.headD .null),
      ("executed_test_nodes", nodes.headD .null), ("zero_executed_nodes", .arr []),
      ("absent_nodes", .arr [])])]).update sampleEvidence

def completeHistory : HistoryRow :=
  { sampleHistory with
    coverage := some ⟨2, 2, some [], some []⟩
    concurrentValidates := some 0
    extra := sampleEvidence }

theorem complete_row_qualifies_in_both :
    Python.rowQualifies (completeRow [.int 2]) sampleSha (livePredicate true).get? = .ok true ∧
      ¬ Diverges (completeRow [.int 2]) sampleSha (livePredicate true).get? completeHistory
        (livePolicy true) := by
  have hpy : Python.rowQualifies (completeRow [.int 2]) sampleSha (livePredicate true).get? =
      .ok true := by decide +kernel
  have hrust : Rust.rowQualifies completeHistory sampleSha (livePolicy true) = true := by
    decide +kernel
  refine ⟨hpy, (@engines_agree_unless_divergent Nat plainInteger plainInteger ⟨[2], completeRow⟩
    ⟨[], fun _ => livePredicate true⟩ sampleSha completeHistory (livePolicy true)
    (fun _ _ => rfl) (by rfl) (by rfl) (by decide +kernel) (by decide +kernel)).mp ⟨true, hpy, ?_⟩⟩
  exact iff_of_true hrust rfl

theorem uncovered_row_skips_gates_in_rust :
    HistoryRow.deserialise sampleRow = some sampleHistory ∧
      Rust.parse (livePredicate false).get? = some (livePolicy false) ∧
      Python.loads (livePredicate false).get? = true ∧ isHexSha sampleSha = true ∧
      Rust.rowQualifies sampleHistory sampleSha (livePolicy false) = true ∧
      Python.rowQualifies sampleRow sampleSha (livePredicate false).get? = .ok false := by
  refine ⟨by rfl, by rfl, ?_, ?_, ?_, ?_⟩ <;> decide +kernel

end DevHermit.Receipt
