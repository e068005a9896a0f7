import DevHermit.Multisect.Culprit

namespace DevHermit.Multisect

theorem probe_gap (low high probes position : Nat) :
    probe low high probes (position + 1) - probe low high probes position =
        (high - low) / (probes + 1) ∨
      probe low high probes (position + 1) - probe low high probes position =
        (high - low) ⌈/⌉ (probes + 1) := by
  have hpos : 0 < probes + 1 := Nat.succ_pos probes
  have hdiff : probe low high probes (position + 1) - probe low high probes position =
      (high - low) / (probes + 1) + if probes + 1 ≤ position * (high - low) % (probes + 1) +
        (high - low) % (probes + 1) then 1 else 0 := by
    rw [probe, probe, Nat.add_mul, Nat.one_mul, Nat.add_div hpos,
      Nat.add_sub_add_left, Nat.add_assoc, Nat.add_sub_cancel_left]
  have hmod := Nat.mod_lt (position * (high - low)) hpos
  rw [hdiff]
  split_ifs with hcarry
  · refine .inr (le_antisymm (Nat.succ_le_of_lt (Nat.lt_of_not_le fun hle => ?_)) ?_)
    · have hmul := (ceilDiv_le_iff_le_mul hpos).mp hle
      have hdecomp := Nat.div_add_mod (high - low) (probes + 1)
      omega
    · exact (ceilDiv_le_iff_le_mul hpos).mpr (Nat.lt_mul_div_succ _ hpos).le
  · exact .inl rfl

theorem ceilDiv_min {w k : Nat} (hw : 1 ≤ w) : w ⌈/⌉ (min k (w - 1) + 1) ≤ w ⌈/⌉ (k + 1) := by
  rcases Nat.le_total k (w - 1) with hk | hk
  · rw [Nat.min_eq_left hk]
  · rw [Nat.min_eq_right hk, Nat.sub_add_cancel hw]
    have hone : w ⌈/⌉ w ≤ 1 := (ceilDiv_le_iff_le_mul hw).mpr (by omega)
    refine hone.trans (Nat.one_le_iff_ne_zero.mpr fun hzero => ?_)
    have hle := (ceilDiv_le_iff_le_mul (Nat.succ_pos k)).mp (Nat.le_of_eq hzero)
    omega

variable {α : Type} {cfg : Config} {history : List α} {boxes : Boxes}

theorem candidate_narrow {round low high : Nat} {step : Candidate} (h : low < high)
    (hstep : step ∈ candidates cfg (measured cfg boxes round low high)) :
    step.high - step.low ≤ (high - low) ⌈/⌉ (cfg.k + 1) := by
  obtain ⟨left, right, hpair, -, rfl⟩ := mem_candidates.mp hstep
  obtain ⟨position, hleft, hright⟩ := mem_zip_tail hpair
  obtain ⟨-, rfl⟩ := getElem?_measured hleft
  obtain ⟨-, rfl⟩ := getElem?_measured hright
  have hfloor : (high - low) / (min cfg.k (high - low - 1) + 1) ≤
      (high - low) ⌈/⌉ (min cfg.k (high - low - 1) + 1) := by
    rw [Nat.ceilDiv_eq_add_pred_div]
    exact Nat.div_le_div_right (by omega)
  refine le_trans ?_ (ceilDiv_min (Nat.sub_pos_of_lt h))
  rcases probe_gap low high _ position with heq | heq
  · exact heq.le.trans hfloor
  · exact heq.le

theorem runRounds_step {left round low high : Nat} (hk : 1 ≤ cfg.k) (h : low < high)
    (hbound : high < history.length) :
    ((runRounds cfg history boxes (left + 1) round low high).outcome ≠ .error .roundLimit ∧
        ∀ i r, (runRounds cfg history boxes (left + 1) round low high).rounds[i]? = some r →
          i = 0 ∧ ∀ step, r.decision ≠ .recurse step) ∨
      high - low ≠ 1 ∧ ∃ step ∈ candidates cfg (measured cfg boxes round low high),
        Inside cfg boxes round low high step ∧
        runRounds cfg history boxes (left + 1) round low high =
          ⟨⟨round, low, high, measured cfg boxes round low high, .recurse step⟩ ::
              (runRounds cfg history boxes left (round + 1) step.low step.high).rounds,
            (runRounds cfg history boxes left (round + 1) step.low step.high).outcome⟩ := by
  rw [runRounds, sampleRound_probes h hbound]
  by_cases hinfra : ∃ sample ∈ measured cfg boxes round low high, sample.infraCount ≠ 0
  · rw [if_pos hinfra]
    exact .inl ⟨by simp, by simp⟩
  · rw [if_neg hinfra]
    by_cases hadjacent : high - low = 1
    · obtain rfl : high = low + 1 := by omega
      refine .inl ?_
      simp only [hadjacent, if_true]
      rw [concludeAdjacent_eq hbound]
      split_ifs <;> simp [List.getElem?_singleton]
    · simp only [hadjacent, if_false]
      cases hchoose : chooseStep cfg (measured cfg boxes round low high) with
      | error failure =>
        obtain ⟨rfl, -⟩ := chooseStep_error hchoose
        exact .inl ⟨by simp, by simp [List.getElem?_singleton]⟩
      | ok step =>
        exact .inr ⟨hadjacent, step, chooseStep_mem hchoose,
          inside_of_candidate hk (by omega) (chooseStep_mem hchoose), rfl⟩

theorem runRounds_ends {j left round low high : Nat} (hk : 1 ≤ cfg.k) (h : low < high)
    (hbound : high < history.length) (hwidth : high - low ≤ (cfg.k + 1) ^ j) (hleft : j + 1 ≤ left) :
    (runRounds cfg history boxes left round low high).outcome ≠ .error .roundLimit := by
  induction left generalizing j round low high with
  | zero => omega
  | succ left ih =>
    rcases @runRounds_step α cfg history boxes left round low high hk h hbound with
      ⟨hout, -⟩ | ⟨hwide, step, hstep, hinside, heq⟩
    · exact hout
    · rw [heq]
      have hlt := hinside.lt
      have hle := hinside.high_le
      cases j with
      | zero =>
        rw [pow_zero] at hwidth
        omega
      | succ j =>
        refine ih hlt (by omega) ((candidate_narrow h hstep).trans ?_) (Nat.le_of_succ_le_succ hleft)
        rw [pow_succ'] at hwidth
        exact (ceilDiv_le_iff_le_mul (Nat.succ_pos cfg.k)).mpr hwidth

theorem runRounds_width {r₀ n left round low high i : Nat} {r : Round} (hk : 1 ≤ cfg.k)
    (h : low < high) (hbound : high < history.length) (hwidth : high - low ≤ n ⌈/⌉ (cfg.k + 1) ^ r₀)
    (hr : (runRounds cfg history boxes left round low high).rounds[i]? = some r) :
    r.high - r.low ≤ n ⌈/⌉ (cfg.k + 1) ^ (r₀ + i) ∧ ∀ step, r.decision = .recurse step →
      step.high - step.low ≤ n ⌈/⌉ (cfg.k + 1) ^ (r₀ + i + 1) := by
  have hshrink : ∀ {w r}, w ≤ n ⌈/⌉ (cfg.k + 1) ^ r →
      w ⌈/⌉ (cfg.k + 1) ≤ n ⌈/⌉ (cfg.k + 1) ^ (r + 1) := by
    intro w r hw
    have hn := (ceilDiv_le_iff_le_mul (Nat.pow_pos (Nat.succ_pos cfg.k))).mp
      (le_refl (n ⌈/⌉ (cfg.k + 1) ^ (r + 1)))
    rw [pow_succ, mul_assoc] at hn
    exact (ceilDiv_le_iff_le_mul (Nat.succ_pos cfg.k)).mpr (hw.trans
      ((ceilDiv_le_iff_le_mul (Nat.pow_pos (Nat.succ_pos cfg.k))).mpr hn))
  induction left generalizing r₀ round low high i with
  | zero => cases hr
  | succ left ih =>
    cases i with
    | zero =>
      obtain ⟨hlow, hhigh⟩ := runRounds_head hk h hbound hr
      rw [hlow, hhigh]
      refine ⟨hwidth, fun step hdecision => ?_⟩
      rcases @runRounds_step α cfg history boxes left round low high hk h hbound with
        ⟨-, hrounds⟩ | ⟨-, step', hstep, -, heq⟩
      · exact absurd hdecision ((hrounds 0 r hr).2 step)
      · rw [heq] at hr
        cases hr
        cases hdecision
        exact (candidate_narrow h hstep).trans (hshrink hwidth)
    | succ i =>
      rcases @runRounds_step α cfg history boxes left round low high hk h hbound with
        ⟨-, hrounds⟩ | ⟨-, step, hstep, hinside, heq⟩
      · exact absurd (hrounds _ r hr).1 (Nat.succ_ne_zero i)
      · rw [heq] at hr
        have hle := hinside.high_le
        have hnext := ih hinside.lt (by omega) ((candidate_narrow h hstep).trans (hshrink hwidth)) hr
        rwa [Nat.add_right_comm, Nat.add_assoc] at hnext

theorem multisect_round_bound {α : Type} :
    (∀ low high k, low < high → 1 ≤ k → ∃ indices, selectIndices low high k = .ok indices ∧
      indices.Pairwise (· < ·) ∧ indices.head? = some low ∧ indices.getLast? = some high ∧
      indices.length = min k (high - low - 1) + 2 ∧
      ∀ i a b, indices[i]? = some a → indices[i + 1]? = some b →
        b - a = (high - low) / (min k (high - low - 1) + 1) ∨
          b - a = (high - low) ⌈/⌉ (min k (high - low - 1) + 1)) ∧
    ∀ (cfg : Config) (history : List α) (boxes : Boxes), 1 ≤ cfg.k →
      (∀ r round, (runMultisect cfg history boxes).rounds[r]? = some round →
        round.high - round.low ≤ (history.length - 1) ⌈/⌉ (cfg.k + 1) ^ r ∧
        ∀ step, round.decision = .recurse step →
          step.high - step.low ≤ (history.length - 1) ⌈/⌉ (cfg.k + 1) ^ (r + 1)) ∧
      ∀ R, history.length - 1 ≤ (cfg.k + 1) ^ R → R + 1 ≤ cfg.maxRounds →
        (runMultisect cfg history boxes).outcome ≠ .error .roundLimit := by
  refine ⟨fun low high k h _ => ?_, fun cfg history boxes hk => ?_⟩
  · have hmono : StrictMono (probe low high (min k (high - low - 1))) := probe_strictMono (by omega)
    refine ⟨_, selectIndices_eq h k, ?_, ?_, ?_, by simp [probes], fun i a b ha hb => ?_⟩
    · exact List.pairwise_map.mpr (List.pairwise_lt_range.imp fun hlt => hmono hlt)
    · rw [probes_eq h]
      rfl
    · rw [probes_eq h, ← List.cons_append, List.getLast?_append]
      rfl
    · simp only [probes, List.getElem?_map, Option.map_eq_some_iff] at ha hb
      obtain ⟨p, hp, rfl⟩ := ha
      obtain ⟨q, hq, rfl⟩ := hb
      simp only [List.getElem?_eq_some_iff, List.getElem_range, exists_prop] at hp hq
      obtain ⟨-, rfl⟩ := hp
      obtain ⟨-, rfl⟩ := hq
      exact probe_gap low high _ i
  · by_cases hlong : 0 < history.length - 1
    · have hbound : history.length - 1 < history.length := by omega
      refine ⟨fun r round hr => ?_, fun R hR hrounds => ?_⟩
      · have hwidth := @runRounds_width _ _ _ _ 0 (history.length - 1) _ _ _ _ _ _ hk hlong hbound
          (by simp) hr
        rwa [Nat.zero_add] at hwidth
      · exact runRounds_ends hk hlong hbound (by omega) hrounds
    · cases hrounds : cfg.maxRounds with
      | zero => simp [runMultisect, hrounds, runRounds]
      | succ left =>
        have hempty : runMultisect cfg history boxes = ⟨[], .error .value⟩ := by
          rw [runMultisect, hrounds, runRounds, selectIndices, if_pos (by omega)]
          rfl
        simp [hempty]

theorem four_commits_within_limit :
    (runMultisect sampleConfig [10, 11, 12, 13] brokenAtTwo).outcome ≠ .error .roundLimit :=
  ((multisect_round_bound (α := Nat)).2 sampleConfig [10, 11, 12, 13] brokenAtTwo (by decide)).2 2
    (by decide) (by decide)

end DevHermit.Multisect
