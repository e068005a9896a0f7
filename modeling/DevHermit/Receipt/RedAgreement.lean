import DevHermit.Receipt.Failure

namespace DevHermit.Receipt

open Lib List Fields Codec Option

structure GateHistoryRow.Reads (g : GateHistoryRow) (fields : Fields) : Prop where
  result : fields.value "result" = Codec.str.nullable.encode g.result
  exitCode : fields.value "exit_code" = (Codec.signed 32).nullable.encode g.exitCode
  seconds : Python.gateSeconds fields = .ok (g.realSeconds.getD 0)

structure LedgerRow.Reads (r : LedgerRow) (fields : Fields) (dicts : List Fields) : Prop where
  receipt : r.receipt.Reads fields
  exitCode : fields.value "exit_code" = (Codec.signed 32).nullable.encode r.exitCode
  checks : fields.value "checks" = (Codec.unsigned 64).nullable.encode r.checks
  gatesRun : fields.value "gates_run" = (Codec.unsigned 64).nullable.encode r.gatesRun
  gatesExpected :
    fields.value "gates_expected" = (Codec.unsigned 64).nullable.encode r.gatesExpected
  seconds : (fields.value "real_seconds").number? = r.realSeconds
  gates : Python.gateDicts fields = .ok dicts
  each : List.Forall₂ GateHistoryRow.Reads r.gates dicts

variable {j : Json}

theorem number?_of_asF64 {v : ℚ} (h : asF64 j = some v) : j.number? = some v := by
  cases j with
  | int n =>
    obtain ⟨-, hv⟩ := ite_none_right_eq_some.mp h
    exact hv
  | float repr value => exact h
  | _ => cases h

variable {fields : Fields} {seconds : Option ℚ}

theorem secondsField_cases (h : secondsField fields = some seconds) :
    (fields.value "real_seconds" = .null ∧ seconds = none) ∨
      ∃ v, asF64 (fields.value "real_seconds") = some v ∧ seconds = some v := by
  rw [secondsField, defaulted] at h
  rw [Fields.value]
  cases hj : fields "real_seconds" with
  | none =>
    rw [hj] at h
    exact .inl ⟨rfl, (Option.some.inj h).symm⟩
  | some j =>
    rw [hj] at h
    dsimp only at h
    split_ifs at h with hnull
    · exact .inl ⟨hnull, (Option.some.inj h).symm⟩
    · obtain ⟨v, hv, rfl⟩ := map_eq_some_iff.mp h
      exact .inr ⟨v, hv, rfl⟩

theorem number?_of_secondsField (h : secondsField fields = some seconds) :
    (fields.value "real_seconds").number? = seconds := by
  rcases secondsField_cases h with ⟨hnull, rfl⟩ | ⟨v, hv, rfl⟩
  · rw [hnull]
    rfl
  · exact number?_of_asF64 hv

theorem gateSeconds_of_secondsField (h : secondsField fields = some seconds) :
    Python.gateSeconds fields = .ok (seconds.getD 0) := by
  rcases secondsField_cases h with ⟨hnull, rfl⟩ | ⟨v, hv, rfl⟩
  · rw [Python.gateSeconds, hnull]
    rfl
  · rw [Python.gateSeconds]
    cases hj : fields.value "real_seconds" with
    | int n =>
      rw [hj] at hv
      obtain ⟨hbound, hn⟩ := ite_none_right_eq_some.mp hv
      dsimp only
      rw [if_pos hbound, ← Option.some.inj hn]
      rfl
    | float repr value =>
      rw [hj] at hv
      cases hv
      rfl
    | _ =>
      rw [hj] at hv
      cases hv

theorem gate_reads {g : GateHistoryRow} (h : GateHistoryRow.deserialise j = some g) :
    ∃ entries, j = .obj entries ∧ g.Reads (.of entries) := by
  cases j with
  | obj entries =>
    rw [GateHistoryRow.deserialise, GateHistoryRow.read] at h
    obtain ⟨name, -, h⟩ := bind_eq_some_iff.mp h
    obtain ⟨result, hresult, h⟩ := bind_eq_some_iff.mp h
    obtain ⟨kind, -, h⟩ := bind_eq_some_iff.mp h
    obtain ⟨exitCode, hexit, h⟩ := bind_eq_some_iff.mp h
    obtain ⟨seconds, hseconds, h⟩ := bind_eq_some_iff.mp h
    obtain ⟨node, -, h⟩ := bind_eq_some_iff.mp h
    obtain ⟨origin, -, h⟩ := bind_eq_some_iff.mp h
    obtain ⟨substeps, -, h⟩ := bind_eq_some_iff.mp h
    cases Option.some.inj h
    exact ⟨entries, rfl, value_of_optional hresult, value_of_optional hexit,
      gateSeconds_of_secondsField hseconds⟩
  | _ => cases h

variable {gates : List GateHistoryRow}

theorem gates_read {items : List Json} (h : items.mapM GateHistoryRow.deserialise = some gates) :
    List.Forall₂ GateHistoryRow.Reads gates (items.filterMap fun g => g.asObject.map of) := by
  induction items generalizing gates with
  | nil =>
    rw [mapM_nil] at h
    rw [← Option.some.inj h]
    exact .nil
  | cons item rest ih =>
    rw [mapM_cons, bind_eq_bind, bind_eq_some_iff] at h
    obtain ⟨gate, hgate, h⟩ := h
    rw [bind_eq_bind, bind_eq_some_iff] at h
    obtain ⟨tail, htail, h⟩ := h
    rw [← Option.some.inj h]
    obtain ⟨entries, rfl, hreads⟩ := gate_reads hgate
    exact .cons hreads (ih htail)

theorem gatesField_reads (h : gatesField fields = some gates) :
    ∃ dicts, Python.gateDicts fields = .ok dicts ∧
      List.Forall₂ GateHistoryRow.Reads gates dicts := by
  rw [gatesField, defaulted] at h
  rw [Python.gateDicts]
  cases hj : fields "gates" with
  | none =>
    rw [hj] at h
    rw [← Option.some.inj h]
    exact ⟨[], rfl, .nil⟩
  | some j =>
    rw [hj] at h
    obtain ⟨items, hitems, hgates⟩ := bind_eq_some_iff.mp h
    cases j with
    | arr items' =>
      cases Option.some.inj hitems
      exact ⟨_, rfl, gates_read hgates⟩
    | _ => cases hitems

variable {r : LedgerRow}

theorem LedgerRow.deserialise_reads {row : Dict Json} (h : LedgerRow.deserialise row = some r) :
    ∃ dicts, r.Reads row.get? dicts := by
  rw [LedgerRow.deserialise] at h
  obtain ⟨receipt, hreceipt, h⟩ := bind_eq_some_iff.mp h
  obtain ⟨exitCode, hexit, h⟩ := bind_eq_some_iff.mp h
  obtain ⟨checks, hchecks, h⟩ := bind_eq_some_iff.mp h
  obtain ⟨gatesRun, hrun, h⟩ := bind_eq_some_iff.mp h
  obtain ⟨gatesExpected, hexpected, h⟩ := bind_eq_some_iff.mp h
  obtain ⟨dagJobs, -, h⟩ := bind_eq_some_iff.mp h
  obtain ⟨flaky, -, h⟩ := bind_eq_some_iff.mp h
  obtain ⟨solo, -, h⟩ := bind_eq_some_iff.mp h
  obtain ⟨seconds, hseconds, h⟩ := bind_eq_some_iff.mp h
  obtain ⟨logFile, -, h⟩ := bind_eq_some_iff.mp h
  obtain ⟨gates, hgates, h⟩ := bind_eq_some_iff.mp h
  cases Option.some.inj h
  obtain ⟨dicts, hdicts, heach⟩ := gatesField_reads hgates
  exact ⟨dicts, (HistoryRow.deserialise_reads hreceipt).1, value_of_optional hexit,
    value_of_optional hchecks, value_of_optional hrun,
    value_of_optional hexpected, number?_of_secondsField hseconds, hdicts, heach⟩

def resultIsRed (gate : GateHistoryRow) : Bool := Rust.isRedText gate.result

def envFault (red : GateHistoryRow → Bool) (r : LedgerRow) : Bool :=
  (r.gates.any red && (r.gates.any fun g => red g && g.exitCode = some exitCommandNotFound) &&
      !r.gates.any fun g => red g && Rust.isGenuineRed g) ||
    (r.gates.any red && r.realSeconds.any (· ≤ 1) && r.gates.all red)

def recordedRun (row : Fields) (r : LedgerRow) : Option Nat :=
  if row "gates_run" = some .null then none else Rust.gatesRan r

structure Symptoms where
  named : Bool
  rustFault : Bool
  pythonFault : Bool
  rustRed : Bool
  pythonRed : Bool
  counted : Bool
  zero : Bool
  interrupted : Bool
  weighed : Bool
  short : Bool

def symptoms (row : Fields) (r : LedgerRow) : Symptoms where
  named := r.receipt.result ≠ some "failed"
  rustFault := envFault Rust.gateIsRed r
  pythonFault := envFault resultIsRed r
  rustRed := r.gates.any Rust.gateIsRed
  pythonRed := r.gates.any resultIsRed
  counted := r.receipt.failures.any (1 ≤ ·)
  zero := r.receipt.failures = some 0
  interrupted := r.exitCode = some 130
  weighed := (Rust.gatesExpected r).any (0 < ·) && (recordedRun row r).isSome
  short := Rust.underRun r

inductive Reading where
  | noResult
  | truncated
  | verdict
  deriving DecidableEq, Repr

namespace Symptoms

def rustReal (s : Symptoms) : Bool := s.counted || s.rustRed

def pythonReal (s : Symptoms) : Bool := s.counted || s.pythonRed

def pythonTruncated (s : Symptoms) : Bool :=
  if s.weighed then s.short else !s.pythonReal && s.interrupted

def rust (s : Symptoms) : Reading :=
  if s.rustFault then .noResult
  else if s.short || (!s.rustReal && (s.interrupted || s.zero)) then .truncated
  else if !s.rustReal then .noResult
  else .verdict

def python (s : Symptoms) : Reading :=
  if s.named && s.pythonFault then .noResult
  else if s.pythonTruncated then .truncated
  else if s.named && !s.pythonReal then .noResult
  else .verdict

structure Coherent (s : Symptoms) : Prop where
  red : s.pythonRed = true → s.rustRed = true
  rustFault : s.rustFault = true → s.rustRed = true
  pythonFault : s.pythonFault = true → s.pythonRed = true
  zero : s.zero = true → s.counted = false

inductive Diverges (s : Symptoms) : Prop
  | nullRunCount (hweighed : s.weighed = false) (hshort : s.short = true)
      (hrust : s.rustFault = false) (hpython : (s.named && s.pythonFault) = false)
      (hshown : s.pythonReal = true ∨ s.interrupted = false)
  | nothingFailed (hreal : s.rustReal = false) (hshort : s.short = false)
      (hsignal : s.interrupted = true ∨ s.zero = true)
      (hmissed : s.weighed = true ∨ s.interrupted = false)
  | interruptedKind (hkind : s.rustRed = true) (hreal : s.pythonReal = false)
      (hinterrupted : s.interrupted = true) (hweighed : s.weighed = false)
      (hshort : s.short = false) (hrust : s.rustFault = false)
  | failedLabelFault (hnamed : s.named = false) (hrust : s.rustFault = true)
  | failedLabelBare (hnamed : s.named = false) (hreal : s.rustReal = false)
      (hinterrupted : s.interrupted = false) (hzero : s.zero = false) (hshort : s.short = false)
  | hiddenKind (hnamed : s.named = true) (hrust : s.rustReal = true)
      (hpython : s.pythonReal = false) (hfault : s.rustFault = false) (hshort : s.short = false)
      (hmissed : s.weighed = true ∨ s.interrupted = false)
  | kindFault (hnamed : s.named = true) (hrust : s.rustFault = true)
      (hpython : s.pythonFault = false)
      (hother : s.pythonTruncated = true ∨ s.pythonReal = true)
  | maskedGenuine (hnamed : s.named = true) (hpython : s.pythonFault = true)
      (hrust : s.rustFault = false)

variable {s : Symptoms}

theorem rust_ne_python_of_diverges (hs : s.Coherent) (h : s.Diverges) : s.rust ≠ s.python := by
  obtain ⟨hred, hrf, hpf, hz⟩ := hs
  obtain ⟨named, rustFault, pythonFault, rustRed, pythonRed, counted, zero, interrupted, weighed,
    short⟩ := s
  cases h <;> simp_all [rust, python, rustReal, pythonReal, pythonTruncated] <;> grind

theorem Coherent.real (hs : s.Coherent) (h : s.rustReal = false) : s.pythonReal = false := by
  rw [rustReal, Bool.or_eq_false_iff] at h
  rw [pythonReal, h.1, Bool.false_or]
  by_contra hred
  rw [hs.red (Bool.not_eq_false _ ▸ hred)] at h
  cases h.2

theorem diverges_of_fault (hfault : s.rustFault = true) (h : s.python ≠ .noResult) : s.Diverges := by
  cases hnamed : s.named with
  | false => exact .failedLabelFault hnamed hfault
  | true =>
    cases hpython : s.pythonFault with
    | true => exact absurd (by simp [python, hnamed, hpython]) h
    | false =>
      refine .kindFault hnamed hfault hpython ?_
      cases htrunc : s.pythonTruncated with
      | true => exact .inl rfl
      | false =>
        cases hreal : s.pythonReal with
        | true => exact .inr rfl
        | false => exact absurd (by simp [python, hnamed, hpython, htrunc, hreal]) h

theorem diverges_of_truncated (hs : s.Coherent) (hfault : s.rustFault = false)
    (hpython : (s.named && s.pythonFault) = false) (h : s.rust = .truncated)
    (hne : s.pythonTruncated = false) : s.Diverges := by
  cases hshort : s.short with
  | true =>
    cases hweighed : s.weighed with
    | true => simp [pythonTruncated, hweighed, hshort] at hne
    | false =>
      refine .nullRunCount hweighed hshort hfault hpython ?_
      cases hreal : s.pythonReal with
      | true => exact .inl rfl
      | false => exact .inr (by simpa [pythonTruncated, hweighed, hreal] using hne)
  | false =>
    cases hreal : s.rustReal with
    | true => simp [rust, hfault, hshort, hreal] at h
    | false =>
      have hsignal : s.interrupted = true ∨ s.zero = true := by
        by_contra hnone
        rw [not_or, Bool.not_eq_true, Bool.not_eq_true] at hnone
        simp [rust, hfault, hshort, hreal, hnone.1, hnone.2] at h
      refine .nothingFailed hreal hshort hsignal ?_
      cases hweighed : s.weighed with
      | true => exact .inl rfl
      | false => exact .inr (by simpa [pythonTruncated, hweighed, hs.real hreal] using hne)

theorem diverges_of_unshared_truncation (hfault : s.rustFault = false) (h : s.rust ≠ .truncated)
    (htrunc : s.pythonTruncated = true) : s.Diverges := by
  cases hweighed : s.weighed with
  | true =>
    rw [pythonTruncated, hweighed, if_pos rfl] at htrunc
    exact absurd (by simp [rust, hfault, htrunc]) h
  | false =>
    rw [pythonTruncated, hweighed, if_neg Bool.false_ne_true, Bool.and_eq_true,
      Bool.not_eq_true'] at htrunc
    have hshort : s.short = false := by
      by_contra hs'
      exact h (by simp [rust, hfault, Bool.not_eq_false _ ▸ hs'])
    have hreal : s.rustReal = true := by
      by_contra hr
      exact h (by simp [rust, hfault, Bool.not_eq_true _ ▸ hr, htrunc.2])
    refine .interruptedKind ?_ htrunc.1 htrunc.2 hweighed hshort hfault
    have hcounted : s.counted = false := (Bool.or_eq_false_iff.mp htrunc.1).1
    rwa [rustReal, hcounted, Bool.false_or] at hreal

theorem diverges_of_unshared_failure (hs : s.Coherent) (hfault : s.rustFault = false)
    (hpython : (s.named && s.pythonFault) = false) (h : s.rust ≠ .truncated)
    (htrunc : s.pythonTruncated = false) (hne : s.rust ≠ s.python) : s.Diverges := by
  have hshort : s.short = false := by
    cases hs' : s.short with
    | true => exact absurd (by simp [rust, hfault, hs']) h
    | false => rfl
  cases hreal : s.rustReal with
  | true =>
    cases hnamed : s.named with
    | false => simp [rust, python, hfault, hshort, hreal, hnamed, htrunc] at hne
    | true =>
      cases hpreal : s.pythonReal with
      | true => simp_all [rust, python]
      | false =>
        refine .hiddenKind hnamed hreal hpreal hfault hshort ?_
        cases hweighed : s.weighed with
        | true => exact .inl rfl
        | false => exact .inr (by simpa [pythonTruncated, hweighed, hpreal] using htrunc)
  | false =>
    have hpreal := hs.real hreal
    cases hnamed : s.named with
    | true => simp_all [rust, python]
    | false =>
      have hquiet : s.interrupted = false ∧ s.zero = false := by
        rw [← Bool.or_eq_false_iff]
        by_contra hsignal
        exact h (by simp_all [rust])
      exact .failedLabelBare hnamed hreal hquiet.1 hquiet.2 hshort

theorem agree_iff (hs : s.Coherent) : s.rust = s.python ↔ ¬ s.Diverges := by
  refine ⟨fun heq h => rust_ne_python_of_diverges hs h heq, fun h => ?_⟩
  by_contra hne
  refine h ?_
  cases hfault : s.rustFault with
  | true =>
    refine diverges_of_fault hfault fun hpython => hne ?_
    rw [hpython, rust, hfault, if_pos rfl]
  | false =>
    cases hpython : s.named && s.pythonFault with
    | true =>
      obtain ⟨hnamed, hpf⟩ := Bool.and_eq_true _ _ ▸ hpython
      exact .maskedGenuine hnamed hpf hfault
    | false =>
      cases htrunc : s.pythonTruncated with
      | true =>
        refine diverges_of_unshared_truncation hfault (fun hrust => hne ?_) htrunc
        rw [hrust, python, hpython, if_neg Bool.false_ne_true, htrunc, if_pos rfl]
      | false =>
        by_cases hrust : s.rust = .truncated
        · exact diverges_of_truncated hs hfault hpython hrust htrunc
        · exact diverges_of_unshared_failure hs hfault hpython hrust htrunc hne

end Symptoms

variable {red : GateHistoryRow → Bool}

theorem envFault_imp (h : envFault red r = true) : r.gates.any red = true := by
  rw [envFault, Bool.or_eq_true, Bool.and_eq_true, Bool.and_eq_true, Bool.and_eq_true,
    Bool.and_eq_true] at h
  rcases h with h | h
  · exact h.1.1
  · exact h.1.1

theorem symptoms_coherent (row : Fields) (r : LedgerRow) : (symptoms row r).Coherent where
  red h := by
    obtain ⟨g, hg, hred⟩ := List.any_eq_true.mp h
    refine List.any_eq_true.mpr ⟨g, hg, ?_⟩
    rw [Rust.gateIsRed, Bool.or_eq_true]
    exact .inl hred
  rustFault := envFault_imp
  pythonFault := envFault_imp
  zero h := by
    have hzero : r.receipt.failures = some 0 := of_decide_eq_true h
    show r.receipt.failures.any (1 ≤ ·) = false
    rw [hzero]
    rfl

theorem filter_ne_nil : decide (gates.filter red ≠ []) = gates.any red := by
  rw [Bool.eq_iff_iff, decide_eq_true_eq, List.any_eq_true, ne_eq, filter_eq_nil_iff]
  simp only [not_forall, not_not, exists_prop]

theorem any_filter_eq (red p : GateHistoryRow → Bool) (gates : List GateHistoryRow) :
    (gates.filter red).any p = gates.any fun g => red g && p g := by
  rw [List.any_filter]

theorem isEnvFaultRed_eq (r : LedgerRow) :
    Rust.isEnvFaultRed r (r.gates.filter Rust.gateIsRed) = envFault Rust.gateIsRed r := by
  rw [Rust.isEnvFaultRed, envFault]
  cases hred : r.gates.any Rust.gateIsRed with
  | false =>
    have hnil : r.gates.filter Rust.gateIsRed = [] := by
      rw [← filter_ne_nil, decide_eq_false_iff_not, not_not] at hred
      exact hred
    rw [if_pos hnil]
    rfl
  | true =>
    have hne : r.gates.filter Rust.gateIsRed ≠ [] := by
      rw [← filter_ne_nil, decide_eq_true_eq] at hred
      exact hred
    have hgates : r.gates ≠ [] := by
      rintro hnil
      rw [hnil] at hred
      cases hred
    rw [if_neg hne]
    simp only [any_filter_eq, hgates, Bool.true_and, ne_eq, not_false_eq_true, decide_true,
      Bool.and_true]

def FailureDisposition.readsAs (disposition : FailureDisposition) : Reading → Prop
  | .noResult => disposition = .noResult
  | .truncated => disposition = .truncated
  | .verdict => disposition = .needsRerun ∨ disposition = .failed

theorem not_early_of_red {text : Option String} (h : Rust.isRedText text = true) :
    text ≠ some "truncated" ∧ ¬ (text = some "needs-rerun" ∨ text = some "needs_rerun") := by
  constructor
  · rintro rfl
    revert h
    decide
  · rintro (rfl | rfl) <;> (revert h; decide)

theorem failureDisposition_reads {sha : String} (row : Fields)
    (hclean : Rust.isCleanFullCoverage r sha = true)
    (hred : Rust.isRedText r.receipt.result = true) :
    (Rust.failureDisposition r sha).readsAs (symptoms row r).rust := by
  obtain ⟨htrunc, hrerun⟩ := not_early_of_red hred
  have hreal : Rust.hasRealFailure r (r.gates.filter Rust.gateIsRed) =
      (symptoms row r).rustReal := by
    rw [Rust.hasRealFailure, filter_ne_nil]
    rfl
  have hnil : decide (r.gates.filter Rust.gateIsRed = []) = !r.gates.any Rust.gateIsRed := by
    rw [← filter_ne_nil, decide_not, Bool.not_not]
  have hsignal : (!(symptoms row r).rustReal &&
      (decide (r.exitCode = some 130) || (decide (r.receipt.failures = some 0) &&
        decide (r.gates.filter Rust.gateIsRed = [])))) =
      (!(symptoms row r).rustReal && ((symptoms row r).interrupted || (symptoms row r).zero)) := by
    rw [hnil]
    show (!(r.receipt.failures.any (1 ≤ ·) || r.gates.any Rust.gateIsRed) && _) =
      (!(r.receipt.failures.any (1 ≤ ·) || r.gates.any Rust.gateIsRed) &&
        (decide (r.exitCode = some 130) || decide (r.receipt.failures = some 0)))
    cases r.gates.any Rust.gateIsRed <;> simp
  rw [Rust.failureDisposition, if_neg htrunc, if_neg hrerun, hclean, hred, if_neg (by decide)]
  simp only [isEnvFaultRed_eq, hreal, hsignal]
  show FailureDisposition.readsAs (if (symptoms row r).rustFault = true then _ else
    if ((symptoms row r).short || _) = true then _ else _) _
  rw [Symptoms.rust]
  split_ifs with h1 h2 h3 h4 h5
  · rfl
  · rfl
  · rfl
  · exact .inl rfl
  · exact .inl rfl
  · exact .inr rfl

namespace Python

theorem isInt?_unsigned (n : Option Nat) :
    isInt? ((unsigned 64).nullable.encode n) = n.map fun m => (m : Int) := by
  cases n <;> rfl

theorem isInt?_signed (n : Option Int) : isInt? ((signed 32).nullable.encode n) = n := by
  cases n <;> rfl

variable {r : LedgerRow} {row : Fields} {dicts : List Fields} {gates : List GateHistoryRow}
  {p : GateHistoryRow → Bool} {q : Fields → Bool}

section

variable (h : List.Forall₂ GateHistoryRow.Reads gates dicts) (hpq : ∀ g d, g.Reads d → q d = p g)
include h hpq

theorem any_dicts : dicts.any q = gates.any p := by
  induction h with
  | nil => rfl
  | cons hgd _ ih => rw [any_cons, any_cons, hpq _ _ hgd, ih]

theorem filter_dicts : List.Forall₂ GateHistoryRow.Reads (gates.filter p) (dicts.filter q) := by
  induction h with
  | nil => exact .nil
  | cons hgd _ ih =>
    rw [filter_cons, filter_cons, hpq _ _ hgd]
    split_ifs
    · exact .cons hgd ih
    · exact ih

end

theorem red_reads (g : GateHistoryRow) (d : Fields) (h : g.Reads d) :
    isRedText (d.value "result") = resultIsRed g := by
  rw [h.result, resultIsRed]
  cases g.result <;> rfl

theorem failingGates_eq (h : r.Reads row dicts) :
    failingGates row = .ok (dicts.filter fun d => isRedText (d.value "result")) := by
  rw [failingGates, h.gates]
  rfl

theorem failing_ne_nil (h : r.Reads row dicts) :
    decide (dicts.filter (fun d => isRedText (d.value "result")) ≠ []) =
      r.gates.any resultIsRed := by
  rw [← any_dicts h.each red_reads, Bool.eq_iff_iff, decide_eq_true_eq, List.any_eq_true, ne_eq,
    filter_eq_nil_iff]
  simp only [not_forall, not_not, exists_prop]

theorem hasRealFailure_eq (h : r.Reads row dicts) :
    hasRealFailure row = .ok (symptoms row r).pythonReal := by
  rw [hasRealFailure, failingGates_eq h]
  show Except.ok (decide _ || _) = _
  rw [failing_ne_nil h, h.receipt.failures, isInt?_unsigned, Option.any_map, Bool.or_comm]
  refine congrArg Except.ok (congrArg (· || _) ?_)
  show _ = r.receipt.failures.any (1 ≤ ·)
  cases r.receipt.failures <;> simp

theorem genuineRed_eq {g : GateHistoryRow} {d : Fields} (h : g.Reads d) :
    genuineRed d = .ok (Rust.isGenuineRed g) := by
  rw [genuineRed, Rust.isGenuineRed, gateExit, h.exitCode, isInt?_signed, h.seconds]
  by_cases hexit : g.exitCode = some exitCommandNotFound
  · rw [if_pos hexit]
    simp [hexit]
  · rw [if_neg hexit]
    show Except.ok _ = _
    cases g.realSeconds <;> simp [hexit]

theorem anyM_genuineRed (h : List.Forall₂ GateHistoryRow.Reads gates dicts) :
    dicts.anyM genuineRed = .ok (gates.any Rust.isGenuineRed) := by
  induction h with
  | nil => rfl
  | @cons g d gates dicts hgd _ ih =>
    rw [List.anyM, genuineRed_eq hgd, any_cons]
    show (match Rust.isGenuineRed g with
      | true => pure true
      | false => dicts.anyM genuineRed) = _
    cases Rust.isGenuineRed g with
    | true => rfl
    | false => exact ih

theorem isEnvFault_eq (h : r.Reads row dicts) :
    isEnvFault row = .ok (symptoms row r).pythonFault := by
  have hfailing := filter_dicts h.each red_reads
  have hne := failing_ne_nil h
  rw [isEnvFault, failingGates_eq h]
  show (if dicts.filter (fun d => isRedText (d.value "result")) = [] then _ else _) =
    Except.ok (envFault resultIsRed r)
  cases hred : r.gates.any resultIsRed with
  | false =>
    rw [hred, decide_eq_false_iff_not, not_not] at hne
    rw [if_pos hne, envFault, hred]
    rfl
  | true =>
    rw [hred, decide_eq_true_eq] at hne
    rw [if_neg hne, anyM_genuineRed hfailing, h.gates]
    show Except.ok _ = Except.ok _
    refine congrArg Except.ok ?_
    rw [any_dicts hfailing fun g d hg => by rw [gateExit, hg.exitCode, isInt?_signed], h.seconds,
      any_filter_eq, any_filter_eq, envFault, hred]
    have hall : (dicts.all fun d => isRedText (d.value "result")) = r.gates.all resultIsRed := by
      rw [all_eq_not_any_not, all_eq_not_any_not,
        any_dicts h.each fun g d hgd => congrArg (!·) (red_reads g d hgd)]
    have hdicts : dicts ≠ [] := by
      rintro rfl
      exact hne rfl
    rw [hall]
    simp [hdicts]

theorem gateCounts_eq (h : r.Reads row dicts) (hprofile : r.receipt.profile = some "full") :
    gateCounts row = ((recordedRun row r).map fun n => (n : Int),
      (Rust.gatesExpected r).map fun n => (n : Int)) := by
  have hran : isInt? ((row "gates_run").getD (row.value "checks")) =
      (recordedRun row r).map fun n => (n : Int) := by
    have hvalue := h.gatesRun
    rw [Fields.value] at hvalue
    rw [recordedRun, Rust.gatesRan]
    cases hrow : row "gates_run" with
    | none =>
      rw [hrow] at hvalue
      have hnone : r.gatesRun = none := by
        cases hr : r.gatesRun with
        | none => rfl
        | some n =>
          rw [hr] at hvalue
          cases hvalue
      rw [getD_none, h.checks, isInt?_unsigned, hnone, none_or]
      simp
    | some j =>
      rw [hrow, getD_some] at hvalue
      rw [getD_some, hvalue, isInt?_unsigned]
      cases r.gatesRun with
      | none => simp [nullable]
      | some n => simp [nullable, unsigned]
  have hexpected : r.gatesExpected = none ↔ row.value "gates_expected" = .null := by
    rw [h.gatesExpected]
    cases r.gatesExpected with
    | none => exact iff_of_true rfl rfl
    | some n => exact iff_of_false (some_ne_none n) Json.noConfusion
  have hfull : (row.value "profile").pyEq (.str "full") = true := by
    rw [h.receipt.profile, hprofile]
    rfl
  have hschema : (isInt? (row.value "schema_version")).any (3 ≤ ·) =
      r.receipt.schemaVersion.any (3 ≤ ·) := by
    rw [h.receipt.schemaVersion]
    cases r.receipt.schemaVersion with
    | none => rfl
    | some n =>
      show decide ((3 : Int) ≤ (n : Int)) = decide (3 ≤ n)
      simp
  rw [gateCounts]
  simp only [hran, hschema, hfull, true_and, ← hexpected]
  refine congrArg (Prod.mk _) ?_
  rw [Rust.gatesExpected, hprofile]
  cases hr : r.gatesExpected with
  | some n =>
    rw [if_neg (by simp), h.gatesExpected, isInt?_unsigned, hr]
    rfl
  | none =>
    simp only [true_and, none_or]
    split_ifs with hthree
    · rfl
    · rw [h.gatesExpected, isInt?_unsigned, hr]

theorem weighed_short (h : (symptoms row r).weighed = true) :
    ∃ ran expected, recordedRun row r = some ran ∧ Rust.gatesExpected r = some expected ∧
      0 < expected ∧ (symptoms row r).short = decide (ran < expected) := by
  obtain ⟨hexpected, hran⟩ := Bool.and_eq_true _ _ ▸ h
  obtain ⟨expected, he⟩ : ∃ expected, Rust.gatesExpected r = some expected := by
    cases he : Rust.gatesExpected r with
    | none =>
      rw [he] at hexpected
      cases hexpected
    | some expected => exact ⟨expected, rfl⟩
  obtain ⟨ran, hr⟩ := isSome_iff_exists.mp hran
  have hpos : 0 < expected := by
    rw [he] at hexpected
    exact of_decide_eq_true hexpected
  refine ⟨ran, expected, hr, he, hpos, ?_⟩
  have hgates : Rust.gatesRan r = some ran := by
    rw [recordedRun] at hr
    split at hr
    · cases hr
    · exact hr
  show Rust.underRun r = _
  rw [Rust.underRun, he, hgates]
  simp [hpos]

theorem isTruncated_eq (h : r.Reads row dicts) (hprofile : r.receipt.profile = some "full")
    (hred : Rust.isRedText r.receipt.result = true) :
    isTruncated row = .ok (symptoms row r).pythonTruncated := by
  have hresult : (row.value "result").pyEq (.str "truncated") = false := by
    rw [h.receipt.result]
    cases hr : r.receipt.result with
    | none => rfl
    | some text =>
      have hne := (not_early_of_red hred).1
      rw [hr] at hne
      exact beq_eq_false_iff_ne.mpr fun heq => hne (congrArg some heq)
  have hexit : (row.value "exit_code").pyEq (.int 130) = (symptoms row r).interrupted := by
    rw [h.exitCode]
    show _ = decide (r.exitCode = some 130)
    cases r.exitCode with
    | none => rfl
    | some n =>
      show decide ((n : ℚ) = ((130 : Int) : ℚ)) = decide (some n = some 130)
      simp only [Rat.intCast_inj, Option.some.injEq]
  have hinterrupted : isTruncated.interrupted row =
      .ok (!(symptoms row r).pythonReal && (symptoms row r).interrupted) := by
    rw [isTruncated.interrupted, hasRealFailure_eq h, ← hexit]
    rfl
  rw [isTruncated, hresult, if_neg Bool.false_ne_true, gateCounts_eq h hprofile,
    Symptoms.pythonTruncated]
  cases hweighed : (symptoms row r).weighed with
  | true =>
    obtain ⟨ran, expected, hran, hexpected, hpos, hshort⟩ := weighed_short hweighed
    rw [hran, hexpected, hshort]
    simp [hpos]
  | false =>
    rw [if_neg Bool.false_ne_true, ← hinterrupted]
    have hnot : ¬ ((Rust.gatesExpected r).any (0 < ·) = true ∧ (recordedRun row r).isSome = true) := by
      rw [← Bool.and_eq_true]
      exact Bool.eq_false_iff.mp hweighed
    cases hran : recordedRun row r with
    | none => rfl
    | some ran =>
      cases hexpected : Rust.gatesExpected r with
      | none => rfl
      | some expected =>
        refine if_neg fun hpos => hnot ⟨?_, ?_⟩
        · rw [hexpected]
          exact decide_eq_true (Int.natCast_pos.mp hpos)
        · rw [hran]
          rfl

def readingText (result : Json) : Reading → Json
  | .noResult => .str "no-result"
  | .truncated => .str "truncated"
  | .verdict => result

theorem effectiveResult_eq (h : r.Reads row dicts) (hprofile : r.receipt.profile = some "full")
    (hred : Rust.isRedText r.receipt.result = true) :
    effectiveResult row = .ok (readingText (row.value "result") (symptoms row r).python) := by
  have hnamed : ((row.value "result").pyEq (.str "fail") ||
      (row.value "result").pyEq (.str "timeout")) = (symptoms row r).named := by
    rw [h.receipt.result]
    show _ = decide (r.receipt.result ≠ some "failed")
    cases hr : r.receipt.result with
    | none =>
      rw [hr] at hred
      cases hred
    | some text =>
      rw [hr] at hred
      have hmem : text ∈ redTexts := of_decide_eq_true hred
      simp only [redTexts, mem_cons, not_mem_nil, or_false] at hmem
      rcases hmem with rfl | rfl | rfl <;> decide
  have hpass : (row.value "result").pyEq (.str "pass") = false := by
    rw [h.receipt.result]
    cases hr : r.receipt.result with
    | none => rfl
    | some text =>
      refine beq_eq_false_iff_ne.mpr ?_
      rintro rfl
      rw [hr] at hred
      revert hred
      decide
  rw [effectiveResult]
  simp only [hnamed, hpass, isEnvFault_eq h, isTruncated_eq h hprofile hred, hasRealFailure_eq h]
  rw [Symptoms.python]
  cases (symptoms row r).named <;> cases (symptoms row r).pythonFault <;>
    cases (symptoms row r).pythonTruncated <;> cases (symptoms row r).pythonReal <;> rfl

end Python

def ReadAlike (row : Fields) (r : LedgerRow) (sha : String) : Prop :=
  ∃ result, Python.effectiveResult row = .ok result ∧
    (result = .str "no-result" ↔ Rust.failureDisposition r sha = .noResult) ∧
    (result = .str "truncated" ↔ Rust.failureDisposition r sha = .truncated) ∧
    (result = row.value "result" ↔
      Rust.failureDisposition r sha = .needsRerun ∨ Rust.failureDisposition r sha = .failed)

theorem readsAs_iff {disposition : FailureDisposition} {reading other : Reading}
    (h : disposition.readsAs reading) : disposition.readsAs other ↔ other = reading := by
  constructor
  · intro hother
    cases reading <;> cases other <;> simp_all [FailureDisposition.readsAs]
  · rintro rfl
    exact h

theorem readingText_iff {text : String} (hred : text ∈ redTexts) (reading other : Reading) :
    Python.readingText (.str text) reading = Python.readingText (.str text) other ↔
      reading = other := by
  simp only [redTexts, mem_cons, not_mem_nil, or_false] at hred
  rcases hred with rfl | rfl | rfl <;> cases reading <;> cases other <;>
    simp [Python.readingText]

theorem readAlike_iff_not_diverges {row : Dict Json} {r : LedgerRow} {sha : String}
    (hrow : LedgerRow.deserialise row = some r) (hclean : Rust.isCleanFullCoverage r sha = true)
    (hred : Rust.isRedText r.receipt.result = true) :
    ReadAlike row.get? r sha ↔ ¬ (symptoms row.get? r).Diverges := by
  obtain ⟨dicts, hreads⟩ := LedgerRow.deserialise_reads hrow
  have hprofile : r.receipt.profile = some "full" := by
    rw [Rust.isCleanFullCoverage, Bool.and_eq_true] at hclean
    exact of_decide_eq_true hclean.2
  obtain ⟨text, htext, hmem⟩ : ∃ text, r.receipt.result = some text ∧ text ∈ redTexts := by
    cases hr : r.receipt.result with
    | none =>
      rw [hr] at hred
      cases hred
    | some text =>
      rw [hr] at hred
      exact ⟨text, rfl, of_decide_eq_true hred⟩
  have hvalue : Fields.value row.get? "result" = .str text := by
    rw [hreads.receipt.result, htext]
    rfl
  have hpython := Python.effectiveResult_eq hreads hprofile hred
  have hrust := failureDisposition_reads row.get? hclean hred
  rw [hvalue] at hpython
  rw [← Symptoms.agree_iff (symptoms_coherent row.get? r), ReadAlike, hvalue]
  constructor
  · rintro ⟨result, hresult, hnone, htrunc, hverdict⟩
    rw [hpython] at hresult
    cases hresult
    have hmatch : ∀ other, Python.readingText (.str text) (symptoms row.get? r).python =
        Python.readingText (.str text) other ↔
        (Rust.failureDisposition r sha).readsAs other := by
      intro other
      cases other with
      | noResult => exact hnone
      | truncated => exact htrunc
      | verdict => exact hverdict
    have hsame := (hmatch (symptoms row.get? r).rust).mpr hrust
    exact ((readingText_iff hmem _ _).mp hsame).symm
  · intro hsame
    have hmatch : ∀ other, Python.readingText (.str text) (symptoms row.get? r).python =
        Python.readingText (.str text) other ↔
        (Rust.failureDisposition r sha).readsAs other := by
      intro other
      rw [readingText_iff hmem, readsAs_iff hrust, hsame, eq_comm]
    exact ⟨_, hpython, hmatch .noResult, hmatch .truncated, hmatch .verdict⟩

theorem red_rows_read_alike_unless_symptoms {L : Type} {python serde : L → Json}
    {row : Document L} {r : LedgerRow} {sha : String}
    (hnumbers : ∀ l ∈ row.literals, python l = serde l)
    (hrow : LedgerRow.deserialise (row.read serde) = some r)
    (hclean : Rust.isCleanFullCoverage r sha = true)
    (hred : Rust.isRedText r.receipt.result = true) :
    ReadAlike (row.read python).get? r sha ↔
      ¬ (symptoms (row.read python).get? r).Diverges := by
  rw [← Document.read_congr hnumbers] at hrow
  exact readAlike_iff_not_diverges hrow hclean hred

def redRow (result : String) (gates : List Json) : Dict Json :=
  Dict.empty.update [("schema_version", .int 4), ("commit", .str sampleSha),
    ("commit_anchored", .bool true), ("tree_dirty", .bool false), ("profile", .str "full"),
    ("selection_mode", .str "full"), ("result", .str result), ("gates_run", .int 5),
    ("gates_expected", .int 5), ("gates", .arr gates)]

def redDocument : Document Nat :=
  ⟨[1], fun numbers => redRow "fail" [.obj [("name", .str "unit"), ("result", .str "fail"),
    ("exit_code", numbers.headD .null)]]⟩

theorem failing_gate_reads_alike : ∃ r,
    LedgerRow.deserialise (redDocument.read plainInteger) = some r ∧
    ReadAlike (redDocument.read plainInteger).get? r sampleSha := by
  refine ⟨_, rfl, (red_rows_read_alike_unless_symptoms (fun _ _ => rfl) rfl (by decide +kernel)
    (by decide +kernel)).mpr ?_⟩
  rw [← Symptoms.agree_iff (symptoms_coherent _ _)]
  decide +kernel

theorem kind_only_red_is_no_result_in_python : ∃ r,
    LedgerRow.deserialise (redRow "fail" [.obj [("name", .str "unit"), ("kind", .str "timeout")]]) =
      some r ∧ Rust.isCleanFullCoverage r sampleSha = true ∧
    Rust.isRedText r.receipt.result = true ∧
    Rust.failureDisposition r sampleSha = .needsRerun ∧
    Python.effectiveResult
      (redRow "fail" [.obj [("name", .str "unit"), ("kind", .str "timeout")]]).get? =
        .ok (.str "no-result") ∧
    ¬ ReadAlike (redRow "fail" [.obj [("name", .str "unit"), ("kind", .str "timeout")]]).get? r
      sampleSha := by
  have hrust : ∀ r, LedgerRow.deserialise
      (redRow "fail" [.obj [("name", .str "unit"), ("kind", .str "timeout")]]) = some r →
      Rust.failureDisposition r sampleSha = .needsRerun := by
    rintro r hr
    cases hr
    decide +kernel
  have hpython : Python.effectiveResult
      (redRow "fail" [.obj [("name", .str "unit"), ("kind", .str "timeout")]]).get? =
        .ok (.str "no-result") := by
    decide +kernel
  refine ⟨_, rfl, by decide +kernel, by decide +kernel, hrust _ rfl, hpython, ?_⟩
  rintro ⟨result, hresult, hnone, -⟩
  rw [hpython] at hresult
  cases hresult
  exact absurd (hnone.mp rfl) (by rw [hrust _ rfl]; decide)

end DevHermit.Receipt
