import Mathlib

namespace DevHermit.Multisect

open List

structure Config where
  k : Nat
  reps : Nat
  minStep : ℚ
  goodFloor : ℚ
  badCeiling : ℚ
  maxRounds : Nat

inductive BoxClass where
  | pass
  | fail
  | oom
  | timeout
  | other
  deriving DecidableEq, Repr

def greenFromBox (boxClass : BoxClass) (returnCode : Int) : Option Bool :=
  match boxClass with
  | .pass => if returnCode = 0 then some true else none
  | .fail | .oom | .timeout => if returnCode ≠ 0 then some false else none
  | .other => none

structure RepResult where
  rep : Nat
  boxClass : BoxClass
  exitCode : Int
  green : Option Bool
  deriving DecidableEq, Repr

structure CommitSample where
  index : Nat
  results : List RepResult
  deriving DecidableEq, Repr

namespace CommitSample

def greenCount (s : CommitSample) : Nat := s.results.countP fun result => result.green = some true

def badCount (s : CommitSample) : Nat := s.results.countP fun result => result.green = some false

def infraCount (s : CommitSample) : Nat := s.results.countP fun result => result.green = none

def rate (s : CommitSample) : ℚ :=
  if s.greenCount + s.badCount = 0 then 0
  else (s.greenCount : ℚ) / ((s.greenCount + s.badCount : Nat) : ℚ)

end CommitSample

abbrev Boxes := Nat → Nat → Nat → BoxClass × Int

def runRepetition (boxes : Boxes) (round index rep : Nat) : RepResult :=
  ⟨rep, (boxes round index rep).1, (boxes round index rep).2,
    greenFromBox (boxes round index rep).1 (boxes round index rep).2⟩

def repetitions (boxes : Boxes) (round index : Nat) : Nat → Nat → List RepResult
  | _, 0 => []
  | rep, left + 1 =>
    if (runRepetition boxes round index rep).green = none then [runRepetition boxes round index rep]
    else runRepetition boxes round index rep :: repetitions boxes round index (rep + 1) left

def sampleCommit (cfg : Config) (boxes : Boxes) (round index : Nat) : CommitSample :=
  ⟨index, repetitions boxes round index 1 cfg.reps⟩

inductive Failure where
  | value
  | assertion
  | index
  | infra
  | ambiguous
  | roundLimit
  deriving DecidableEq, Repr

def probe (low high probes position : Nat) : Nat := low + position * (high - low) / (probes + 1)

def selectIndices (low high k : Nat) : Except Failure (List Nat) :=
  if high ≤ low then .error .value
  else
    let probes := min k (high - low - 1)
    if probes = 0 then .ok [low, high]
    else
      let selected := low :: ((List.range' 1 probes).map (probe low high probes) ++ [high])
      if selected.Nodup then .ok selected else .error .assertion

def Qualifies (cfg : Config) (left right : CommitSample) : Prop :=
  cfg.goodFloor ≤ left.rate ∧ right.rate ≤ cfg.badCeiling ∧ cfg.minStep ≤ left.rate - right.rate

instance (cfg : Config) (left right : CommitSample) : Decidable (Qualifies cfg left right) :=
  inferInstanceAs (Decidable (_ ∧ _ ∧ _))

structure Candidate where
  delta : ℚ
  low : Nat
  high : Nat

def candidates (cfg : Config) (samples : List CommitSample) : List Candidate :=
  (samples.zip samples.tail).filterMap fun pair =>
    if Qualifies cfg pair.1 pair.2 then
      some ⟨pair.1.rate - pair.2.rate, pair.1.index, pair.2.index⟩
    else none

def larger (best candidate : Candidate) : Candidate :=
  if best.delta < candidate.delta then candidate else best

def chooseStep (cfg : Config) (samples : List CommitSample) : Except Failure Candidate :=
  match candidates cfg samples with
  | [] => .error .ambiguous
  | first :: rest => .ok (rest.foldl larger first)

inductive Decision where
  | ambiguous
  | converged
  | recurse (step : Candidate)

structure Round where
  number : Nat
  low : Nat
  high : Nat
  samples : List CommitSample
  decision : Decision

structure Converged (α : Type) where
  candidateGood : α
  candidateBad : α
  roundCount : Nat

structure Report (α : Type) where
  rounds : List Round
  outcome : Except Failure (Converged α)

section

variable {α : Type} (cfg : Config) (history : List α) (boxes : Boxes)

def sampleRound (round : Nat) (indices : List Nat) : Except Failure (List CommitSample) :=
  if ∀ i ∈ indices, i < history.length then
    let samples := indices.map (sampleCommit cfg boxes round)
    if ∃ sample ∈ samples, sample.infraCount ≠ 0 then .error .infra else .ok samples
  else .error .index

def concludeAdjacent (round low high : Nat) (samples : List CommitSample) : Report α :=
  match samples.head?, samples.getLast? with
  | some left, some right =>
    if Qualifies cfg left right then
      match history[low]?, history[high]? with
      | some good, some bad =>
        ⟨[⟨round, low, high, samples, .converged⟩], .ok ⟨good, bad, round⟩⟩
      | _, _ => ⟨[], .error .index⟩
    else ⟨[⟨round, low, high, samples, .ambiguous⟩], .error .ambiguous⟩
  | _, _ => ⟨[], .error .index⟩

def runRounds : Nat → Nat → Nat → Nat → Report α
  | 0, _, _, _ => ⟨[], .error .roundLimit⟩
  | left + 1, round, low, high =>
    match (selectIndices low high cfg.k).bind (sampleRound cfg history boxes round) with
    | .error failure => ⟨[], .error failure⟩
    | .ok samples =>
      if high - low = 1 then concludeAdjacent cfg history round low high samples
      else
        match chooseStep cfg samples with
        | .error failure => ⟨[⟨round, low, high, samples, .ambiguous⟩], .error failure⟩
        | .ok step =>
          ⟨⟨round, low, high, samples, .recurse step⟩ ::
              (runRounds left (round + 1) step.low step.high).rounds,
            (runRounds left (round + 1) step.low step.high).outcome⟩

def runMultisect : Report α := runRounds cfg history boxes cfg.maxRounds 1 0 (history.length - 1)

end

theorem probe_zero (low high probes : Nat) : probe low high probes 0 = low := by simp [probe]

variable {high low : Nat}

theorem probe_last (h : low < high) (probes : Nat) : probe low high probes (probes + 1) = high := by
  rw [probe, Nat.mul_div_cancel_left _ (Nat.succ_pos probes)]
  omega

theorem probe_lt_succ {probes : Nat} (h : probes + 1 ≤ high - low) (position : Nat) :
    probe low high probes position < probe low high probes (position + 1) := by
  have hstep : position * (high - low) / (probes + 1) + 1 ≤
      (position + 1) * (high - low) / (probes + 1) := by
    rw [← Nat.add_div_right _ (Nat.succ_pos probes), Nat.add_mul, Nat.one_mul]
    exact Nat.div_le_div_right (Nat.add_le_add_left h _)
  rw [probe, probe]
  omega

theorem probe_strictMono {low high probes : Nat} (h : probes + 1 ≤ high - low) :
    StrictMono (probe low high probes) :=
  strictMono_nat_of_lt_succ (probe_lt_succ h)

def probes (low high k : Nat) : List Nat :=
  (List.range (min k (high - low - 1) + 2)).map (probe low high (min k (high - low - 1)))

theorem probes_eq {low high : Nat} (h : low < high) (k : Nat) :
    probes low high k = low :: ((List.range' 1 (min k (high - low - 1))).map
      (probe low high (min k (high - low - 1))) ++ [high]) := by
  rw [probes, range_succ, range_eq_range', range'_succ, map_append,
    map_cons, probe_zero, map_singleton, probe_last h]
  rfl

theorem selectIndices_eq {low high : Nat} (h : low < high) (k : Nat) :
    selectIndices low high k = .ok (probes low high k) := by
  have hmono : StrictMono (probe low high (min k (high - low - 1))) := probe_strictMono (by omega)
  have hnodup : (probes low high k).Nodup := nodup_range.map hmono.injective
  rw [probes_eq h] at hnodup ⊢
  rw [selectIndices, if_neg (Nat.not_le.mpr h)]
  by_cases hz : min k (high - low - 1) = 0
  · simp [hz]
  · simp only [hz, if_false]
    exact if_pos hnodup

variable {β : Type} {l : List β} {x y : β}

theorem mem_zip_tail (h : (x, y) ∈ l.zip l.tail) : ∃ j, l[j]? = some x ∧ l[j + 1]? = some y := by
  obtain ⟨j, hj⟩ := mem_iff_getElem?.mp h
  obtain ⟨hx, hy⟩ := List.getElem?_zip_eq_some.mp hj
  exact ⟨j, hx, by rwa [List.getElem?_tail] at hy⟩

theorem zip_tail_mem {j : Nat} (hx : l[j]? = some x) (hy : l[j + 1]? = some y) :
    (x, y) ∈ l.zip l.tail := by
  refine mem_iff_getElem?.mpr ⟨j, List.getElem?_zip_eq_some.mpr ⟨hx, ?_⟩⟩
  rwa [List.getElem?_tail]

variable {cfg : Config} {samples : List CommitSample} {step : Candidate}

theorem mem_candidates :
    step ∈ candidates cfg samples ↔ ∃ left right, (left, right) ∈ samples.zip samples.tail ∧
      Qualifies cfg left right ∧ step = ⟨left.rate - right.rate, left.index, right.index⟩ := by
  rw [candidates, mem_filterMap]
  constructor
  · rintro ⟨⟨left, right⟩, hmem, hstep⟩
    obtain ⟨hq, heq⟩ := Option.ite_none_right_eq_some.mp hstep
    exact ⟨left, right, hmem, hq, (Option.some.inj heq).symm⟩
  · rintro ⟨left, right, hmem, hq, rfl⟩
    exact ⟨(left, right), hmem, if_pos hq⟩

theorem foldl_larger_mem (first : Candidate) (rest : List Candidate) :
    rest.foldl larger first ∈ first :: rest := by
  induction rest generalizing first with
  | nil => exact mem_singleton.mpr rfl
  | cons next rest ih =>
    have hmem := ih (larger first next)
    rw [foldl_cons]
    rcases mem_cons.mp hmem with heq | hrest
    · rw [heq, larger]
      split_ifs
      · exact mem_cons_of_mem _ mem_cons_self
      · exact mem_cons_self
    · exact mem_cons_of_mem _ (mem_cons_of_mem _ hrest)

theorem chooseStep_mem (h : chooseStep cfg samples = .ok step) : step ∈ candidates cfg samples := by
  rw [chooseStep] at h
  cases hc : candidates cfg samples with
  | nil =>
    rw [hc] at h
    cases h
  | cons first rest =>
    rw [hc] at h
    cases h
    exact foldl_larger_mem first rest

theorem chooseStep_error {failure : Failure} (h : chooseStep cfg samples = .error failure) :
    failure = .ambiguous ∧ candidates cfg samples = [] := by
  rw [chooseStep] at h
  cases hc : candidates cfg samples with
  | nil =>
    rw [hc] at h
    cases h
    exact ⟨rfl, rfl⟩
  | cons first rest =>
    rw [hc] at h
    cases h

end DevHermit.Multisect
