import DevHermit.Shmem.Admission.Drain

namespace DevHermit.Shmem.Admission

open Lib Function Option Machine Snzi.Memory

abbrev Crowd := Option (Fin maxReservations)

def openFlags : Flags := ⟨false, false, false, false⟩

def refusal : Snzi.SnziError := .invalidLeaf 4 4

def refused : Pc := .entering 4 (.done (.error .arrive refusal))

def failed : Pc := .done (.enterFailed (.snzi refusal))

theorem arriveStart_refused : Snzi.arriveStart fourNodes 4 = .done (.error .arrive refusal) := by
  decide +kernel

section

variable {gate : UInt64} {k : Nat}

theorem view_zero : View 0 openFlags 0 := by constructor <;> decide +kernel

theorem View.open_bits (h : View gate openFlags k) :
    gate &&& closedBit = 0 ∧ gate &&& poisonedBit = 0 := by
  have hf := h.flags
  exact ⟨not_closed_iff.mp (by rw [hf]; rfl), bne_eq_false_iff_eq.mp (congrArg Flags.poisoned hf)⟩

theorem View.succ (h : View gate openFlags k) (hk : k ≠ maxReservations) :
    View (gate + 1) openFlags (k + 1) := by
  obtain ⟨hf, rfl⟩ := h
  exact hf ▸ view_succ hk

theorem View.pred (h : View gate openFlags (k + 1)) : View (gate - 1) openFlags k := by
  have hr : Admission.reservations gate ≠ 0 := by
    rw [h.reservations]
    exact Nat.succ_ne_zero k
  have hv := view_pred hr
  rwa [h.flags, h.reservations] at hv

theorem reserveDecide_room (h : View gate openFlags k) (hk : k ≠ maxReservations) (leaf : Nat) :
    reserveDecide leaf gate = .reserveCas leaf gate := by
  obtain ⟨hclosed, hpoisoned⟩ := h.open_bits
  have hfull : ¬ gate &&& reservationMask = reservationMask := by
    rw [full_iff, h.reservations]
    exact hk
  rw [reserveDecide, if_neg (not_not.mpr hclosed), if_neg (not_not.mpr hpoisoned), if_neg hfull]

theorem reserveDecide_full (h : View gate openFlags maxReservations) (leaf : Nat) :
    reserveDecide leaf gate = .reservePoison := by
  obtain ⟨hclosed, hpoisoned⟩ := h.open_bits
  rw [reserveDecide, if_neg (not_not.mpr hclosed), if_neg (not_not.mpr hpoisoned),
    if_pos (full_iff.mpr h.reservations)]

theorem releaseDecide_held (h : View gate openFlags (k + 1)) (ret : Ret) :
    releaseDecide ret gate = .releaseCas ret gate := by
  have hempty : ¬ gate &&& reservationMask = 0 := by
    rw [empty_iff, h.reservations]
    exact Nat.succ_ne_zero k
  rw [releaseDecide, if_neg hempty]

end

section

variable {P : Type} {gate : UInt64} {k : Nat} (p : P)

theorem step_tryEnter : step fourNodes ⟨gate, new, []⟩ .idle (.call (.tryEnter 4)) =
    some (⟨gate, new, []⟩, .reserveLoad 4) := rfl

theorem follow_reserve (h : View gate openFlags k) (hk : k ≠ maxReservations) :
    (machine fourNodes P).follow p (⟨gate, new, []⟩, .idle) [.call (.tryEnter 4), .go, .go] =
      some (⟨gate + 1, new, []⟩, refused) := by
  have hload : step fourNodes ⟨gate, new, []⟩ (.reserveLoad 4) .go =
      some (⟨gate, new, []⟩, .reserveCas 4 gate) := by
    show some (_, reserveDecide 4 gate) = _
    rw [reserveDecide_room h hk]
  have hcas : step fourNodes ⟨gate, new, []⟩ (.reserveCas 4 gate) .go =
      some (⟨gate + 1, new, []⟩, refused) := by
    show advance fourNodes _ false (.reserveCas 4 gate) = _
    rw [advance, if_pos ⟨rfl, rfl⟩, arriveStart_refused]
    rfl
  simp only [follow, machine, step_tryEnter, hload, hcas, bind_some]

theorem follow_full (h : View gate openFlags maxReservations) :
    (machine fourNodes P).follow p (⟨gate, new, []⟩, .idle) [.call (.tryEnter 4), .go] =
      some (⟨gate, new, []⟩, .reservePoison) := by
  have hload : step fourNodes ⟨gate, new, []⟩ (.reserveLoad 4) .go =
      some (⟨gate, new, []⟩, .reservePoison) := by
    show some (_, reserveDecide 4 gate) = _
    rw [reserveDecide_full h]
  simp only [follow, machine, step_tryEnter, hload, bind_some]

theorem follow_release (h : View gate openFlags (k + 1)) :
    (machine fourNodes P).follow p (⟨gate, new, []⟩, refused) [.go, .go, .go] =
      some (⟨gate - 1, new, []⟩, failed) := by
  have hreturn : step fourNodes ⟨gate, new, []⟩ refused .go =
      some (⟨gate, new, []⟩, .releaseLoad (.enterFailed (.snzi refusal))) := rfl
  have hload : step fourNodes ⟨gate, new, []⟩ (.releaseLoad (.enterFailed (.snzi refusal))) .go =
      some (⟨gate, new, []⟩, .releaseCas (.enterFailed (.snzi refusal)) gate) := by
    show some (_, releaseDecide _ gate) = _
    rw [releaseDecide_held h]
  have hcas : step fourNodes ⟨gate, new, []⟩ (.releaseCas (.enterFailed (.snzi refusal)) gate) .go =
      some (⟨gate - 1, new, []⟩, failed) := by
    show advance fourNodes _ false (.releaseCas _ gate) = _
    rw [advance, if_pos ⟨rfl, rfl⟩]
    rfl
  simp only [follow, machine, hreturn, hload, hcas, bind_some]

theorem follow_drain :
    (machine fourNodes P).follow p (⟨0, new, []⟩, failed)
        ([.go, .call .close, .go, .go, .call .isDrained] ++ List.replicate 13 .go) =
      some (⟨terminalDrained, new, []⟩, .done (.drained true)) := rfl

theorem follow_return :
    (machine fourNodes P).follow p
        (⟨terminalDrained, new, []⟩, .done (.drained true)) [.go] =
      some (⟨terminalDrained, new, []⟩, .idle) := rfl

theorem follow_poison :
    (machine fourNodes P).follow p (⟨terminalDrained, new, []⟩, .reservePoison) [.go] =
      some (⟨terminalDrained ||| poisonedBit, new, []⟩,
        .done (.enterFailed .reservationExhausted)) := rfl

theorem follow_refused_drain :
    (machine fourNodes P).follow p
        (⟨terminalDrained ||| poisonedBit, new, []⟩, .idle) [.call .isDrained, .go] =
      some (⟨terminalDrained ||| poisonedBit, new, []⟩, .done (.drained false)) := rfl

end

structure Crowded (lower upper outside : Pc) (k : Nat) (c : Config Crowd Shared Pc) : Prop where
  reachable : (machine fourNodes Crowd).Reachable c
  gate : View c.sh.gate openFlags k
  mem : c.sh.mem = Snzi.Memory.new
  tokens : c.sh.tokens = []
  outsider : c.lo none = outside
  members : ∀ i : Fin maxReservations, c.lo (some i) = if i.val < k then lower else upper

variable {c : Config Crowd Shared Pc} {k : Nat} {lower outside upper : Pc}

theorem Crowded.shared (h : Crowded lower upper outside k c) : c.sh = ⟨c.sh.gate, new, []⟩ := by
  rw [← h.mem, ← h.tokens]

variable {ins : List In} {pc' : Pc}

theorem Crowded.member {k' : Nat} {gate' : UInt64} (h : Crowded lower upper outside k c)
    (j : Fin maxReservations) (hf : (machine fourNodes Crowd).follow (some j)
      (⟨c.sh.gate, new, []⟩, c.lo (some j)) ins = some (⟨gate', new, []⟩, pc'))
    (hv : View gate' openFlags k') (hj : pc' = if j.val < k' then lower else upper)
    (hothers : ∀ i : Fin maxReservations, i ≠ j → (i.val < k ↔ i.val < k')) :
    ∃ c', Crowded lower upper outside k' c' := by
  have hreach := reach_follow (c := c) (by rw [h.shared]; exact hf)
  refine ⟨⟨⟨gate', new, []⟩, update c.lo (some j) pc'⟩,
    h.reachable.reach hreach, hv, rfl, rfl, ?_, fun i => ?_⟩
  · rw [← h.outsider]
    exact update_of_ne (some_ne_none j).symm pc' c.lo
  · by_cases hi : i = j
    · subst hi
      rw [← hj]
      exact update_self (some i) pc' c.lo
    · refine (update_of_ne (fun he => hi (Option.some.inj he)) pc' c.lo).trans ?_
      rw [h.members]
      exact if_congr (hothers i hi) rfl rfl

theorem crowded_full (k : Nat) (hk : k ≤ maxReservations) :
    ∃ c, Crowded refused .idle .idle k c := by
  induction k with
  | zero =>
    exact ⟨(machine fourNodes Crowd).init, Machine.Reachable.init, view_zero, rfl, rfl, rfl,
      fun i => (if_neg (Nat.not_lt_zero i.val)).symm⟩
  | succ k ih =>
    obtain ⟨c, h⟩ := ih (by omega)
    have hidle : c.lo (some ⟨k, hk⟩) = .idle := by rw [h.members, if_neg (lt_irrefl k)]
    refine h.member ⟨k, hk⟩ (by rw [hidle]; exact follow_reserve _ h.gate (by omega))
      (h.gate.succ (by omega)) (if_pos (Nat.lt_succ_self k)).symm fun i hi => ?_
    have hne : i.val ≠ k := fun he => hi (Fin.ext he)
    omega

theorem crowded_waiting : ∃ c, Crowded refused failed .reservePoison maxReservations c := by
  obtain ⟨c, h⟩ := crowded_full maxReservations le_rfl
  have hreach := reach_follow (c := c) (p := none)
    (by rw [h.shared, h.outsider]; exact follow_full none h.gate)
  refine ⟨⟨⟨c.sh.gate, new, []⟩, update c.lo none .reservePoison⟩,
    h.reachable.reach hreach, h.gate, rfl, rfl, ?_, fun i => ?_⟩
  · exact update_self none .reservePoison c.lo
  · refine (update_of_ne (some_ne_none i) .reservePoison c.lo).trans ?_
    rw [h.members, if_pos i.isLt, if_pos i.isLt]

theorem crowded_released (m : Nat) (hm : m ≤ maxReservations) :
    ∃ c, Crowded refused failed .reservePoison (maxReservations - m) c := by
  induction m with
  | zero => exact crowded_waiting
  | succ m ih =>
    obtain ⟨c, h⟩ := ih (by omega)
    obtain ⟨k, hk⟩ : ∃ k, maxReservations - m = k + 1 := ⟨maxReservations - m - 1, by omega⟩
    have hlast : k < maxReservations := by omega
    rw [hk] at h
    rw [show maxReservations - (m + 1) = k by omega]
    have hheld : c.lo (some ⟨k, hlast⟩) = refused := by rw [h.members, if_pos (Nat.lt_succ_self k)]
    refine h.member ⟨k, hlast⟩ (by rw [hheld]; exact follow_release _ h.gate) h.gate.pred
      (if_neg (lt_irrefl k)).symm fun i hi => ?_
    have hne : i.val ≠ k := fun he => hi (Fin.ext he)
    omega

def scanner : Crowd := some ⟨0, by decide⟩

theorem reach_at {p : Crowd} {pc : Pc} {sh' : Shared} (hp : c.lo p = pc)
    (hf : (machine fourNodes Crowd).follow p (c.sh, pc) ins = some (sh', pc')) :
    (machine fourNodes Crowd).Reach c ⟨sh', update c.lo p pc'⟩ := by
  subst hp
  exact reach_follow hf

theorem sealed_gate_poisoned_by_stale_reserver :
    ∃ c c' c'' : Config Crowd Shared Pc,
      (machine fourNodes Crowd).Reachable c ∧ c.lo scanner = .done (.drained true) ∧
      c.sh.gate = terminalDrained ∧ (machine fourNodes Crowd).Reach c c' ∧
      c'.lo scanner = .idle ∧ c'.sh.gate ≠ terminalDrained ∧
      (machine fourNodes Crowd).Reach c' c'' ∧ c''.lo scanner = .done (.drained false) := by
  obtain ⟨c₀, h⟩ := crowded_released maxReservations le_rfl
  rw [Nat.sub_self] at h
  have hgate : c₀.sh.gate = 0 := h.gate.unique view_zero
  have hfailed : c₀.lo scanner = failed := by rw [scanner, h.members, if_neg (Nat.not_lt_zero _)]
  have hdrain := reach_at hfailed (by rw [h.shared, hgate]; exact follow_drain scanner)
  have hne : (none : Crowd) ≠ scanner := (some_ne_none _).symm
  have hwaiting := (update_of_ne hne (.done (.drained true)) c₀.lo).trans h.outsider
  have hscanner := update_self scanner (.done (.drained true)) c₀.lo
  generalize Function.update c₀.lo scanner (.done (.drained true)) = lo at hdrain hwaiting hscanner
  have hreturn := reach_at (c := ⟨_, lo⟩) hscanner (follow_return scanner)
  have hwaiting' := (update_of_ne hne .idle lo).trans hwaiting
  have hidle := update_self scanner .idle lo
  generalize Function.update lo scanner .idle = lo' at hreturn hwaiting' hidle
  have hpoison := reach_at (c := ⟨_, lo'⟩) hwaiting' (follow_poison none)
  have hidle' := (update_of_ne hne.symm (.done (.enterFailed .reservationExhausted))
    lo').trans hidle
  generalize Function.update lo' none (.done (.enterFailed .reservationExhausted)) = lo''
    at hpoison hidle'
  have hagain := reach_at (c := ⟨_, lo''⟩) hidle' (follow_refused_drain scanner)
  refine ⟨_, _, _, h.reachable.reach hdrain, hscanner, rfl,
    hreturn.reach hpoison, hidle', ?_, hagain, update_self scanner _ lo''⟩
  show terminalDrained ||| poisonedBit ≠ terminalDrained
  decide +kernel

end DevHermit.Shmem.Admission
