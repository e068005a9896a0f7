import DevHermit.Multisect.Search

namespace DevHermit.Multisect

open List

variable {α : Type} {cfg : Config} {history : List α} {boxes : Boxes}

def measured (cfg : Config) (boxes : Boxes) (round low high : Nat) : List CommitSample :=
  (probes low high cfg.k).map (sampleCommit cfg boxes round)

variable {high low : Nat}

theorem mem_probes {k i : Nat} (h : low < high) (hi : i ∈ probes low high k) :
    low ≤ i ∧ i ≤ high := by
  have hmono : StrictMono (probe low high (min k (high - low - 1))) := probe_strictMono (by omega)
  obtain ⟨position, hrange, rfl⟩ := List.mem_map.mp hi
  have hfirst := hmono.monotone (Nat.zero_le position)
  have hlast := hmono.monotone (Nat.le_of_lt_succ (mem_range.mp hrange))
  rw [probe_zero] at hfirst
  rw [probe_last h] at hlast
  exact ⟨hfirst, hlast⟩

variable {round : Nat}

theorem getElem?_measured {position : Nat} {sample : CommitSample}
    (h : (measured cfg boxes round low high)[position]? = some sample) :
    position < min cfg.k (high - low - 1) + 2 ∧
      sample = sampleCommit cfg boxes round (probe low high (min cfg.k (high - low - 1)) position) := by
  rw [measured, probes, List.map_map, List.getElem?_map] at h
  obtain ⟨j, hj, hsample⟩ := Option.map_eq_some_iff.mp h
  obtain ⟨hlt, heq⟩ := List.getElem?_eq_some_iff.mp hj
  rw [getElem_range] at heq
  rw [length_range] at hlt
  subst heq
  exact ⟨hlt, hsample.symm⟩

structure Inside (cfg : Config) (boxes : Boxes) (round low high : Nat) (step : Candidate) :
    Prop where
  low_le : low ≤ step.low
  lt : step.low < step.high
  high_le : step.high ≤ high
  shorter : step.high - step.low < high - low
  left_mem : sampleCommit cfg boxes round step.low ∈ measured cfg boxes round low high
  right_mem : sampleCommit cfg boxes round step.high ∈ measured cfg boxes round low high
  qualifies : Qualifies cfg (sampleCommit cfg boxes round step.low)
    (sampleCommit cfg boxes round step.high)

variable {step : Candidate}

theorem inside_of_candidate (hk : 1 ≤ cfg.k) (hspan : 2 ≤ high - low)
    (h : step ∈ candidates cfg (measured cfg boxes round low high)) :
    Inside cfg boxes round low high step := by
  obtain ⟨left, right, hpair, hq, rfl⟩ := mem_candidates.mp h
  obtain ⟨position, hleft, hright⟩ := mem_zip_tail hpair
  obtain ⟨-, hl⟩ := getElem?_measured hleft
  obtain ⟨hlt, hr⟩ := getElem?_measured hright
  have hmono : StrictMono (probe low high (min cfg.k (high - low - 1))) :=
    probe_strictMono (by omega)
  have hfirst := hmono.monotone (Nat.zero_le position)
  have hstep := hmono (Nat.lt_succ_self position)
  have hlast := hmono.monotone (Nat.le_of_lt_succ hlt)
  rw [probe_zero] at hfirst
  rw [probe_last (by omega)] at hlast
  subst hl hr
  refine ⟨hfirst, hstep, hlast, ?_, mem_of_getElem? hleft, mem_of_getElem? hright, hq⟩
  show probe low high _ (position + 1) - probe low high _ position < high - low
  cases position with
  | zero =>
    have hinner := hmono (show 0 + 1 < min cfg.k (high - low - 1) + 1 by omega)
    rw [probe_last (by omega)] at hinner
    omega
  | succ position =>
    have hinner := hmono (show 0 < position + 1 from Nat.succ_pos position)
    rw [probe_zero] at hinner
    omega

theorem sampleRound_probes (h : low < high) (hbound : high < history.length) :
    (selectIndices low high cfg.k).bind (sampleRound cfg history boxes round) =
      if ∃ sample ∈ measured cfg boxes round low high, sample.infraCount ≠ 0 then .error .infra
      else .ok (measured cfg boxes round low high) := by
  have hin : ∀ i ∈ probes low high cfg.k, i < history.length := by
    intro i hi
    exact Nat.lt_of_le_of_lt (mem_probes h hi).2 hbound
  rw [selectIndices_eq h]
  show sampleRound cfg history boxes round (probes low high cfg.k) = _
  rw [sampleRound, if_pos hin]
  rfl

theorem measured_ends {round low high : Nat} (h : low < high) :
    (measured cfg boxes round low high).head? = some (sampleCommit cfg boxes round low) ∧
      (measured cfg boxes round low high).getLast? = some (sampleCommit cfg boxes round high) := by
  rw [measured, probes_eq h]
  constructor
  · rfl
  · rw [← cons_append, map_append, List.getLast?_append]
    rfl

theorem concludeAdjacent_eq (hbound : low + 1 < history.length) :
    concludeAdjacent cfg history round low (low + 1) (measured cfg boxes round low (low + 1)) =
      if Qualifies cfg (sampleCommit cfg boxes round low) (sampleCommit cfg boxes round (low + 1)) then
        ⟨[⟨round, low, low + 1, measured cfg boxes round low (low + 1), .converged⟩],
          .ok ⟨history[low], history[low + 1], round⟩⟩
      else ⟨[⟨round, low, low + 1, measured cfg boxes round low (low + 1), .ambiguous⟩],
        .error .ambiguous⟩ := by
  obtain ⟨hhead, hlast⟩ := @measured_ends cfg boxes round low (low + 1) (Nat.lt_succ_self low)
  rw [concludeAdjacent, hhead, hlast, List.getElem?_eq_getElem hbound,
    List.getElem?_eq_getElem (Nat.lt_of_succ_lt hbound)]

inductive Turn (cfg : Config) (history : List α) (boxes : Boxes) (left round low high : Nat) :
    Report α → Prop
  | infra (h : ∃ sample ∈ measured cfg boxes round low high, sample.infraCount ≠ 0) :
      Turn cfg history boxes left round low high ⟨[], .error .infra⟩
  | ambiguous (hclean : ∀ sample ∈ measured cfg boxes round low high, sample.infraCount = 0)
      (hnone : candidates cfg (measured cfg boxes round low high) = []) :
      Turn cfg history boxes left round low high
        ⟨[⟨round, low, high, measured cfg boxes round low high, .ambiguous⟩], .error .ambiguous⟩
  | converged {good bad : α} (hnext : high = low + 1) (hgood : history[low]? = some good)
      (hbad : history[high]? = some bad)
      (hstep : Qualifies cfg (sampleCommit cfg boxes round low) (sampleCommit cfg boxes round high)) :
      Turn cfg history boxes left round low high
        ⟨[⟨round, low, high, measured cfg boxes round low high, .converged⟩], .ok ⟨good, bad, round⟩⟩
  | recurse {step : Candidate} (hinside : Inside cfg boxes round low high step)
      (hclean : ∀ sample ∈ measured cfg boxes round low high, sample.infraCount = 0) :
      Turn cfg history boxes left round low high
        ⟨⟨round, low, high, measured cfg boxes round low high, .recurse step⟩ ::
            (runRounds cfg history boxes left (round + 1) step.low step.high).rounds,
          (runRounds cfg history boxes left (round + 1) step.low step.high).outcome⟩

theorem candidates_adjacent : candidates cfg (measured cfg boxes round low (low + 1)) = [] ↔
      ¬ Qualifies cfg (sampleCommit cfg boxes round low) (sampleCommit cfg boxes round (low + 1)) := by
  have hprobes : measured cfg boxes round low (low + 1) =
      [sampleCommit cfg boxes round low, sampleCommit cfg boxes round (low + 1)] := by
    rw [measured, probes_eq (Nat.lt_add_one low), Nat.add_sub_cancel_left, Nat.sub_self,
      Nat.min_zero]
    rfl
  rw [hprobes, candidates]
  simp

theorem runRounds_turn {left round low high : Nat} (hk : 1 ≤ cfg.k) (h : low < high)
    (hbound : high < history.length) : Turn cfg history boxes left round low high
      (runRounds cfg history boxes (left + 1) round low high) := by
  rw [runRounds, sampleRound_probes h hbound]
  by_cases hinfra : ∃ sample ∈ measured cfg boxes round low high, sample.infraCount ≠ 0
  · rw [if_pos hinfra]
    exact .infra hinfra
  · rw [if_neg hinfra]
    have hclean : ∀ sample ∈ measured cfg boxes round low high, sample.infraCount = 0 := by
      intro sample hsample
      by_contra hne
      exact hinfra ⟨sample, hsample, hne⟩
    by_cases hadjacent : high - low = 1
    · obtain rfl : high = low + 1 := by omega
      simp only [hadjacent, if_true]
      rw [concludeAdjacent_eq hbound]
      split_ifs with hq
      · exact .converged rfl (List.getElem?_eq_getElem _) (List.getElem?_eq_getElem _) hq
      · exact .ambiguous hclean (candidates_adjacent.mpr hq)
    · simp only [hadjacent, if_false]
      cases hchoose : chooseStep cfg (measured cfg boxes round low high) with
      | error failure =>
        obtain ⟨rfl, hnone⟩ := chooseStep_error hchoose
        exact .ambiguous hclean hnone
      | ok step =>
        exact .recurse (inside_of_candidate hk (by omega) (chooseStep_mem hchoose)) hclean

structure Culprit (cfg : Config) (boxes : Boxes) (n c : Nat) : Prop where
  before : ∀ round i, i < c → (sampleCommit cfg boxes round i).infraCount = 0 →
    cfg.goodFloor ≤ (sampleCommit cfg boxes round i).rate
  after : ∀ round j, c ≤ j → j < n → (sampleCommit cfg boxes round j).infraCount = 0 →
    (sampleCommit cfg boxes round j).rate ≤ cfg.badCeiling
  apart : ∀ round i j, i < c → c ≤ j → j < n → (sampleCommit cfg boxes round i).infraCount = 0 →
    (sampleCommit cfg boxes round j).infraCount = 0 →
    cfg.minStep ≤ (sampleCommit cfg boxes round i).rate - (sampleCommit cfg boxes round j).rate

variable {c : Nat}

theorem Culprit.candidate (hc : Culprit cfg boxes history.length c) (hlow : low < c)
    (hhigh : c ≤ high) (hbound : high < history.length)
    (hclean : ∀ sample ∈ measured cfg boxes round low high, sample.infraCount = 0) :
    candidates cfg (measured cfg boxes round low high) ≠ [] := by
  have hmono : StrictMono (probe low high (min cfg.k (high - low - 1))) :=
    probe_strictMono (by omega)
  have hreach : ∃ position, c ≤ probe low high (min cfg.k (high - low - 1)) position :=
    ⟨_, hhigh.trans (probe_last (by omega) _).ge⟩
  obtain ⟨position, hposition⟩ : ∃ position, Nat.find hreach = position + 1 := by
    refine Nat.exists_eq_add_one.mpr (Nat.pos_of_ne_zero fun hzero => ?_)
    have hfound := Nat.find_spec hreach
    rw [hzero, probe_zero] at hfound
    omega
  have hright : c ≤ probe low high (min cfg.k (high - low - 1)) (position + 1) :=
    hposition ▸ Nat.find_spec hreach
  have hleft : probe low high (min cfg.k (high - low - 1)) position < c :=
    Nat.not_le.mp (Nat.find_min hreach (by omega))
  have hlast : position + 1 ≤ min cfg.k (high - low - 1) + 1 :=
    hposition ▸ Nat.find_min' hreach (hhigh.trans (probe_last (by omega) _).ge)
  have hget : ∀ j ≤ min cfg.k (high - low - 1) + 1, (measured cfg boxes round low high)[j]? =
      some (sampleCommit cfg boxes round (probe low high (min cfg.k (high - low - 1)) j)) := by
    intro j hj
    rw [measured, probes, List.map_map, List.getElem?_map, List.getElem?_range (by omega)]
    rfl
  have hl := hget position (by omega)
  have hr := hget (position + 1) hlast
  have hlclean := hclean _ (mem_of_getElem? hl)
  have hrclean := hclean _ (mem_of_getElem? hr)
  have hrbound : probe low high (min cfg.k (high - low - 1)) (position + 1) < history.length := by
    have hle := hmono.monotone hlast
    rw [probe_last (by omega)] at hle
    omega
  refine ne_nil_of_mem (mem_candidates.mpr ⟨_, _, zip_tail_mem hl hr, ?_, rfl⟩)
  exact ⟨hc.before round _ hleft hlclean, hc.after round _ hright hrbound hrclean,
    hc.apart round _ _ hleft hright hrbound hlclean hrclean⟩

theorem Culprit.between (hc : Culprit cfg boxes history.length c)
    (hthresholds : cfg.badCeiling < cfg.goodFloor) (hbound : high < history.length)
    (hinside : Inside cfg boxes round low high step)
    (hclean : ∀ sample ∈ measured cfg boxes round low high, sample.infraCount = 0) :
    step.low < c ∧ c ≤ step.high := by
  obtain ⟨hgood, hbad, -⟩ := hinside.qualifies
  have hlow := hinside.lt
  have hhigh := hinside.high_le
  constructor
  · by_contra hge
    have hrate := hc.after round step.low (Nat.not_lt.mp hge) (by omega) (hclean _ hinside.left_mem)
    linarith
  · by_contra hlt
    have hrate := hc.before round step.high (Nat.not_le.mp hlt) (hclean _ hinside.right_mem)
    linarith

variable {left : Nat}

theorem runRounds_head {first : Round} (hk : 1 ≤ cfg.k) (h : low < high)
    (hbound : high < history.length)
    (hfirst : (runRounds cfg history boxes left round low high).rounds[0]? = some first) :
    first.low = low ∧ first.high = high := by
  cases left with
  | zero => cases hfirst
  | succ left =>
    have hturn := @runRounds_turn α cfg history boxes left round low high hk h hbound
    generalize runRounds cfg history boxes (left + 1) round low high = report at hturn hfirst
    cases hturn with
    | infra _ => cases hfirst
    | _ =>
      cases hfirst
      exact ⟨rfl, rfl⟩

structure Recurses (cfg : Config) (boxes : Boxes) (rounds : List Round) (i : Nat) (round : Round)
    (step : Candidate) : Prop where
  samples : round.samples = measured cfg boxes round.number round.low round.high
  inside : Inside cfg boxes round.number round.low round.high step
  next : ∀ next, rounds[i + 1]? = some next → next.low = step.low ∧ next.high = step.high

theorem runRounds_recurses (hk : 1 ≤ cfg.k) (h : low < high) (hbound : high < history.length)
    (i : Nat) (r : Round) (step : Candidate)
    (hr : (runRounds cfg history boxes left round low high).rounds[i]? = some r)
    (hdecision : r.decision = .recurse step) :
    Recurses cfg boxes (runRounds cfg history boxes left round low high).rounds i r step := by
  induction left generalizing round low high i with
  | zero => cases hr
  | succ left ih =>
    have hturn := @runRounds_turn α cfg history boxes left round low high hk h hbound
    generalize runRounds cfg history boxes (left + 1) round low high = report at hturn hr ⊢
    cases hturn with
    | infra _ => cases hr
    | ambiguous _ _ | converged _ _ _ _ =>
      obtain ⟨rfl, rfl⟩ : i = 0 ∧ _ := by simpa using List.getElem?_singleton.symm.trans hr
      cases hdecision
    | @recurse step' hinside hclean =>
      have hlt := hinside.lt
      have hle := hinside.high_le
      cases i with
      | zero =>
        cases hr
        cases hdecision
        exact ⟨rfl, hinside, fun next hnext => runRounds_head hk hlt (by omega) hnext⟩
      | succ i =>
        have hrest := ih hlt (by omega) i hr
        exact ⟨hrest.samples, hrest.inside, hrest.next⟩

structure Blames (cfg : Config) (history : List α) (boxes : Boxes) (rounds : List Round)
    (result : Converged α) (i : Nat) : Prop where
  good : history[i]? = some result.candidateGood
  bad : history[i + 1]? = some result.candidateBad
  last : ∃ last, rounds.getLast? = some last ∧ last.number = result.roundCount ∧ last.low = i ∧
    last.high = i + 1 ∧ last.samples = measured cfg boxes last.number i (i + 1) ∧
    Qualifies cfg (sampleCommit cfg boxes last.number i) (sampleCommit cfg boxes last.number (i + 1))

theorem runRounds_blames (hk : 1 ≤ cfg.k) (h : low < high) (hbound : high < history.length)
    (result : Converged α)
    (hresult : (runRounds cfg history boxes left round low high).outcome = .ok result) :
    ∃ i, low ≤ i ∧ i < high ∧ Blames cfg history boxes
      (runRounds cfg history boxes left round low high).rounds result i := by
  induction left generalizing round low high with
  | zero => cases hresult
  | succ left ih =>
    have hturn := @runRounds_turn α cfg history boxes left round low high hk h hbound
    generalize runRounds cfg history boxes (left + 1) round low high = report at hturn hresult ⊢
    cases hturn with
    | infra _ | ambiguous _ _ => cases hresult
    | converged hnext hgood hbad hstep =>
      cases hresult
      subst hnext
      exact ⟨low, le_rfl, h, hgood, hbad, _, rfl, rfl, rfl, rfl, rfl, hstep⟩
    | @recurse step hinside hclean =>
      have hlt := hinside.lt
      have hlow := hinside.low_le
      have hhigh := hinside.high_le
      obtain ⟨i, hi, hi', hblames⟩ := ih hlt (by omega) hresult
      obtain ⟨last, hlast, hrest⟩ := hblames.last
      refine ⟨i, by omega, by omega, hblames.good, hblames.bad, last, ?_, hrest⟩
      rw [List.getLast?_cons, hlast]
      rfl

def nextSpan (span : Nat × Nat) (round : Round) : Nat × Nat :=
  match round.decision with
  | .recurse step => (step.low, step.high)
  | .ambiguous | .converged => span

def Interrupted (cfg : Config) (boxes : Boxes) (first : Nat) (span : Nat × Nat)
    (rounds : List Round) : Prop :=
  ∃ sample ∈ measured cfg boxes (first + rounds.length) (rounds.foldl nextSpan span).1
      (rounds.foldl nextSpan span).2,
    ∃ result ∈ sample.results, greenFromBox result.boxClass result.exitCode = none

theorem green_of_mem_repetitions {round index rep left : Nat} {result : RepResult}
    (h : result ∈ repetitions boxes round index rep left) :
    result.green = greenFromBox result.boxClass result.exitCode := by
  induction left generalizing rep with
  | zero => cases h
  | succ left ih =>
    rw [repetitions] at h
    split_ifs at h
    · obtain rfl := mem_singleton.mp h
      rfl
    · obtain rfl | h := mem_cons.mp h
      · rfl
      · exact ih h

theorem interrupted_of_infra {round low high : Nat}
    (h : ∃ sample ∈ measured cfg boxes round low high, sample.infraCount ≠ 0) :
    Interrupted cfg boxes round (low, high) [] := by
  obtain ⟨sample, hsample, hinfra⟩ := h
  obtain ⟨result, hresult, hgreen⟩ := countP_pos_iff.mp (Nat.pos_of_ne_zero hinfra)
  refine ⟨sample, hsample, result, hresult, ?_⟩
  obtain ⟨index, -, rfl⟩ := mem_map.mp hsample
  rw [← green_of_mem_repetitions hresult]
  exact of_decide_eq_true hgreen

theorem Culprit.found {c left round low high : Nat} (hc : Culprit cfg boxes history.length c)
    (hk : 1 ≤ cfg.k) (hthresholds : cfg.badCeiling < cfg.goodFloor) (hlow : low < c)
    (hhigh : c ≤ high) (hbound : high < history.length) :
    ((runRounds cfg history boxes left round low high).outcome = .error .infra ∧
      Interrupted cfg boxes round (low, high)
        (runRounds cfg history boxes left round low high).rounds) ∨
      ((runRounds cfg history boxes left round low high).outcome = .error .roundLimit ∧
        left < high - low) ∨
      ∃ result, (runRounds cfg history boxes left round low high).outcome = .ok result ∧
        history[c - 1]? = some result.candidateGood ∧ history[c]? = some result.candidateBad := by
  induction left generalizing round low high with
  | zero => exact .inr (.inl ⟨rfl, by omega⟩)
  | succ left ih =>
    have hturn := @runRounds_turn α cfg history boxes left round low high hk (by omega) hbound
    generalize runRounds cfg history boxes (left + 1) round low high = report at hturn ⊢
    cases hturn with
    | infra hinfra => exact .inl ⟨rfl, interrupted_of_infra hinfra⟩
    | ambiguous hclean hnone => exact absurd hnone (hc.candidate hlow hhigh hbound hclean)
    | converged hnext hgood hbad _ =>
      obtain rfl : c = low + 1 := by omega
      obtain rfl : high = low + 1 := hnext
      exact .inr (.inr ⟨_, rfl, hgood, hbad⟩)
    | @recurse step hinside hclean =>
      obtain ⟨hstepLow, hstepHigh⟩ := hc.between hthresholds hbound hinside hclean
      have hshorter := hinside.shorter
      have hle := hinside.high_le
      rcases ih hstepLow hstepHigh (by omega) with ⟨hinfra, sample, hmem, hresult⟩ |
        ⟨hlimit, hrounds⟩ | hfound
      · refine .inl ⟨hinfra, sample, ?_, hresult⟩
        rwa [length_cons, ← Nat.add_assoc, Nat.add_right_comm]
      · exact .inr (.inl ⟨hlimit, by omega⟩)
      · exact .inr (.inr hfound)

theorem multisect_blames_step (cfg : Config) (history : List α) (boxes : Boxes)
    (hn : 2 ≤ history.length) (hk : 1 ≤ cfg.k)
    (hthresholds : cfg.badCeiling < cfg.goodFloor) :
    (∀ i round step, (runMultisect cfg history boxes).rounds[i]? = some round →
      round.decision = .recurse step →
      Recurses cfg boxes (runMultisect cfg history boxes).rounds i round step) ∧
    (∀ result, (runMultisect cfg history boxes).outcome = .ok result →
      ∃ i, Blames cfg history boxes (runMultisect cfg history boxes).rounds result i) ∧
    ∀ c, 1 ≤ c → c < history.length → Culprit cfg boxes history.length c →
      (runMultisect cfg history boxes).outcome ≠ .error .ambiguous ∧
      ((runMultisect cfg history boxes).outcome = .error .infra ∧
          Interrupted cfg boxes 1 (0, history.length - 1) (runMultisect cfg history boxes).rounds ∨
        ((runMultisect cfg history boxes).outcome = .error .roundLimit ∧
          cfg.maxRounds < history.length - 1) ∨
        ∃ result, (runMultisect cfg history boxes).outcome = .ok result ∧
          history[c - 1]? = some result.candidateGood ∧ history[c]? = some result.candidateBad) := by
  have hspan : 0 < history.length - 1 := by omega
  have hbound : history.length - 1 < history.length := by omega
  refine ⟨fun i round step hr hd => runRounds_recurses hk hspan hbound i round step hr hd,
    fun result hresult => ?_, fun c hpos hlt hc => ?_⟩
  · obtain ⟨i, -, -, hblames⟩ := runRounds_blames hk hspan hbound result hresult
    exact ⟨i, hblames⟩
  · have hfound := @Culprit.found α cfg history boxes c cfg.maxRounds 1 0 (history.length - 1) hc
      hk hthresholds (by omega) (by omega) hbound
    refine ⟨fun hambiguous => ?_, hfound⟩
    rcases hfound with ⟨h, -⟩ | ⟨h, -⟩ | ⟨result, h, -⟩ <;> cases hambiguous.symm.trans h

def sampleConfig : Config := ⟨1, 1, 1 / 2, 2 / 3, 1 / 3, 4⟩

def brokenAtTwo : Boxes := fun _ index _ => if index < 2 then (.pass, 0) else (.fail, 1)

theorem rate_brokenAtTwo (round i : Nat) :
    (sampleCommit sampleConfig brokenAtTwo round i).rate = if i < 2 then 1 else 0 := by
  by_cases h : i < 2
  · simp [sampleCommit, sampleConfig, repetitions, runRepetition, brokenAtTwo, greenFromBox,
      CommitSample.rate, CommitSample.greenCount, CommitSample.badCount, h]
  · simp [sampleCommit, sampleConfig, repetitions, runRepetition, brokenAtTwo, greenFromBox,
      CommitSample.rate, CommitSample.greenCount, CommitSample.badCount, h]

theorem culprit_brokenAtTwo : Culprit sampleConfig brokenAtTwo 4 2 where
  before round i hi _ := by
    rw [rate_brokenAtTwo, if_pos hi, sampleConfig]
    norm_num
  after round j hj _ _ := by
    rw [rate_brokenAtTwo, if_neg (Nat.not_lt.mpr hj), sampleConfig]
    norm_num
  apart round i j hi hj _ _ _ := by
    rw [rate_brokenAtTwo, rate_brokenAtTwo, if_pos hi, if_neg (Nat.not_lt.mpr hj), sampleConfig]
    norm_num

theorem broken_commit_is_blamed :
    ∃ result, (runMultisect sampleConfig [10, 11, 12, 13] brokenAtTwo).outcome = .ok result ∧
      result.candidateGood = 11 ∧ result.candidateBad = 12 := by
  have hthresholds : sampleConfig.badCeiling < sampleConfig.goodFloor := by
    rw [sampleConfig]
    norm_num
  have hblames := multisect_blames_step sampleConfig [10, 11, 12, 13] brokenAtTwo (by decide)
    le_rfl hthresholds
  have hok : (runMultisect sampleConfig [10, 11, 12, 13] brokenAtTwo).outcome.isOk = true := by
    decide +kernel
  rcases (hblames.2.2 2 (by decide) (by decide) culprit_brokenAtTwo).2 with
    ⟨h, -⟩ | ⟨h, -⟩ | ⟨result, h, hgood, hbad⟩
  · rw [h] at hok
    cases hok
  · rw [h] at hok
    cases hok
  · exact ⟨result, h, (Option.some.inj hgood).symm, (Option.some.inj hbad).symm⟩

end DevHermit.Multisect
