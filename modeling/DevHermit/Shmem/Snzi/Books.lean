import DevHermit.Lib.CounterTree
import DevHermit.Shmem.Snzi.Protocol

namespace DevHermit.Shmem.Snzi

open Lib CounterTree Function Shmem.Tree

def counts (m : Memory) : Option Nat → Nat
  | none => m.root.toNat
  | some n => virtual (m.nodes n)

def present (m : Memory) : Claim → Nat
  | .child k => if isActive (m.nodes k) then 1 else 0
  | .token _ => 0

def PoisonReason.isCapacity : PoisonReason → Bool
  | .nodeCountOverflow => true
  | .generationExhausted => true
  | .rootCountOverflow => true
  | .invariantViolation => false
  | .compensationOverflow => false

theorem PoisonReason.fromCode_code (reason : PoisonReason) :
    PoisonReason.fromCode reason.code = some reason := by
  cases reason <;> decide +kernel

theorem PoisonReason.fromCode_eq_none {code : UInt64} :
    PoisonReason.fromCode code = none ↔ code = poisonNone := by
  constructor
  · intro h
    by_contra hne
    rw [PoisonReason.fromCode, if_neg hne] at h
    split_ifs at h
  · rintro rfl
    rfl

structure Books (t : TreeSize) (m : Memory) (solid vowed : Claim → Nat) : Prop where
  valid : ∀ n, ValidState (m.nodes n)
  balanced : Balanced t.nodes Tree.parent (counts m) (present m + solid + vowed)
  half : ∀ n, stateIsHalf (m.nodes n) = true → load t.nodes Tree.parent vowed (some n) ≠ 0
  capacity : ∀ reason, PoisonReason.fromCode m.poison = some reason → reason.isCapacity = true

variable {t : TreeSize} {m m' : Memory} {solid vowed solid' vowed' : Claim → Nat}

theorem counts_setNode (m : Memory) (n : Nat) (state : UInt64) :
    counts (m.setNode n state) = update (counts m) (some n) (virtual state) := by
  funext s
  cases s with
  | none => rfl
  | some k =>
    by_cases hk : k = n
    · subst hk
      simp [counts, Memory.setNode]
    · simp [counts, Memory.setNode, hk]

theorem counts_setRoot (m : Memory) (root : UInt64) :
    counts (m.setRoot root) = update (counts m) none root.toNat := by
  funext s
  cases s with
  | none => rfl
  | some k => rfl

variable {n : Nat} {state : UInt64}

theorem present_setNode (h : isActive state = isActive (m.nodes n)) :
    present (m.setNode n state) = present m := by
  funext x
  cases x with
  | token k => rfl
  | child k =>
    by_cases hk : k = n
    · subst hk
      simp [present, Memory.setNode, h]
    · simp [present, Memory.setNode, hk]

theorem present_of_active (h : isActive (m.nodes n) = true) : present m (.child n) = 1 := by
  rw [present, if_pos h]

theorem present_activated (h : isActive (m.nodes n) = false) (h' : isActive state = true) :
    present (m.setNode n state) = present m + unit (.child n) := by
  funext x
  cases x with
  | token k => rfl
  | child k =>
    by_cases hk : k = n
    · subst hk
      simp [present, Memory.setNode, h, h']
    · simp [present, Memory.setNode, hk, unit]

theorem present_deactivated (h : isActive (m.nodes n) = true) (h' : isActive state = false) :
    present m = present (m.setNode n state) + unit (.child n) := by
  funext x
  cases x with
  | token k => rfl
  | child k =>
    by_cases hk : k = n
    · subst hk
      simp [present, Memory.setNode, h, h']
    · simp [present, Memory.setNode, hk, unit]

namespace Books

variable {x : Claim}

theorem le_counts (h : Books t m solid vowed) (hx : x.Valid t.nodes) :
    present m x + solid x + vowed x ≤ counts m (site parent x) :=
  h.balanced.le_count hx

variable {n : Nat}

section

variable (h : Books t m solid vowed) (hx : x.Valid t.nodes)
include h hx

theorem active_of_firm (hs : site parent x = some n) (hne : present m x + solid x ≠ 0) :
    isActive (m.nodes n) = true := by
  have heq := h.balanced (some n)
  rw [load_add, load_add] at heq
  have hp : present m x ≤ load t.nodes parent (present m) (some n) := hs ▸ le_load hx
  have hl : solid x ≤ load t.nodes parent solid (some n) := hs ▸ le_load hx
  simp only [counts] at heq
  have hwhole : stateIsHalf (m.nodes n) = false := by
    by_contra hh
    rw [Bool.not_eq_false] at hh
    have hv := h.half n hh
    rw [virtual, if_pos hh] at heq
    omega
  refine isActive_iff.mpr ⟨hwhole, fun hz => ?_⟩
  rw [virtual_eq_zero.mpr ⟨hwhole, hz⟩] at heq
  omega

theorem active_of_solid
    (hs : site parent x = some n) (hne : solid x ≠ 0) : isActive (m.nodes n) = true :=
  h.active_of_firm hx hs (by omega)

-- A firm claim makes its node active, and an active node is a firm claim one level up.
theorem root_ne_zero (hne : present m x + solid x ≠ 0) : m.root ≠ 0 := by
  have hup : ∀ y : Claim, y.Valid t.nodes → present m y + solid y ≠ 0 →
      site parent y = none → m.root ≠ 0 := by
    intro y hy hyne hys hz
    have hle := h.le_counts hy
    rw [hys, counts, hz] at hle
    simp only [UInt64.toNat_zero] at hle
    omega
  have hchild : ∀ k, k < t.nodes → present m (.child k) + solid (.child k) ≠ 0 → m.root ≠ 0 := by
    intro k
    induction k using Nat.strong_induction_on with
    | _ k ih =>
      intro hk hkne
      cases hp : parent k with
      | none => exact hup (.child k) hk hkne hp
      | some j =>
        have hj := parent_lt hp
        have ha := h.active_of_firm (x := .child k) hk hp hkne
        exact ih j hj (by omega) (by rw [present_of_active ha]; omega)
  cases x with
  | child k => exact hchild k hx hne
  | token n =>
    have ha := h.active_of_firm (x := .token n) hx rfl hne
    exact hchild n hx (by rw [present_of_active ha]; omega)

end

theorem idle_of_no_claim (h : Books t m 0 0) :
    m.root = 0 ∧ ∀ n, stateIsHalf (m.nodes n) = false ∧ stateCount (m.nodes n) = 0 := by
  have hz : ∀ s, counts m s = 0 := by
    refine h.balanced.count_zero_of_no_claim (fun _ _ => parent_lt) ?_ fun n => rfl
    intro k hk hc
    simp only [Pi.add_apply, Pi.zero_apply, add_zero, present] at hk
    split_ifs at hk with ha
    · obtain ⟨hh, hcount⟩ := isActive_iff.mp ha
      exact hcount (virtual_eq_zero.mp hc).2
    · exact hk rfl
  exact ⟨UInt64.toNat_inj.mp (hz none), fun n => virtual_eq_zero.mp (hz (some n))⟩

theorem fulfil (h : Books t m solid vowed) (hx : x.Valid t.nodes) (hs : site parent x = some n)
    (hh : stateIsHalf (m.nodes n) = false) (hv : vowed = vowed' + unit x) :
    Books t m (solid + unit x) vowed' where
  valid := h.valid
  balanced := by
    have heq : present m + (solid + unit x) + vowed' = present m + solid + vowed := by
      rw [hv]
      funext y
      simp only [Pi.add_apply]
      omega
    rw [heq]
    exact h.balanced
  half := by
    intro k hk
    have hne : n ≠ k := fun he => absurd (he ▸ hk) (by simp [hh])
    have hl := load_add_unit parent hx (fun y => congrFun hv y) (some k)
    rw [hs, if_neg fun he => hne (Option.some.inj he)] at hl
    have := h.half k hk
    omega
  capacity := h.capacity

variable {state : UInt64}

theorem setNode (h : Books t m solid vowed) (hv : ValidState state)
    (hb : Balanced t.nodes parent (update (counts m) (some n) (virtual state))
      (present (m.setNode n state) + solid' + vowed'))
    (hhalf : stateIsHalf state = true → load t.nodes parent vowed' (some n) ≠ 0)
    (hother : ∀ k, k ≠ n →
      load t.nodes parent vowed (some k) ≤ load t.nodes parent vowed' (some k)) :
    Books t (m.setNode n state) solid' vowed' where
  valid := by
    intro k
    by_cases hk : k = n
    · subst hk
      simpa [Memory.setNode] using hv
    · simpa [Memory.setNode, hk] using h.valid k
  balanced := by
    rw [counts_setNode]
    exact hb
  half := by
    intro k hk
    by_cases hkn : k = n
    · subst hkn
      exact hhalf (by simpa [Memory.setNode] using hk)
    · have hold := h.half k (by simpa [Memory.setNode, hkn] using hk)
      have := hother k hkn
      omega
  capacity := h.capacity

theorem install (h : Books t m solid vowed) (hx : x.Valid t.nodes)
    (hs : site parent x = some n) (hz : virtual (m.nodes n) = 0)
    (hi : Installed (m.nodes n) state) : Books t (m.setNode n state) solid (vowed + unit x) := by
  have hactive : isActive state = isActive (m.nodes n) := by
    obtain ⟨-, hc⟩ := virtual_eq_zero.mp hz
    simp [isActive, hi.half, hc]
  have hg := h.balanced.gain hx (u := present m + solid + (vowed + unit x)) fun y => by
    simp only [Pi.add_apply]
    omega
  have hload : ∀ s, load t.nodes parent (vowed + unit x) s =
      load t.nodes parent vowed s + if site parent x = s then 1 else 0 :=
    fun s => load_add_unit parent hx (fun _ => rfl) s
  refine h.setNode hi.valid ?_ (fun _ => ?_) fun k _ => ?_
  · have hone : virtual state = counts m (some n) + 1 := by rw [counts, hz, virtual, if_pos hi.half]
    rw [present_setNode hactive, hone]
    rwa [hs] at hg
  · rw [hload, if_pos hs]
    omega
  · rw [hload]
    omega

theorem join (h : Books t m solid vowed) (hx : x.Valid t.nodes) (hs : site parent x = some n)
    (ha : isActive (m.nodes n) = true) (hsh : Shifted (m.nodes n) state)
    (hone : virtual state = virtual (m.nodes n) + 1) :
    Books t (m.setNode n state) (solid + unit x) vowed := by
  have hactive : isActive state = isActive (m.nodes n) := by
    rw [ha, isActive_iff]
    refine ⟨hsh.whole, fun hz => ?_⟩
    rw [virtual_eq_zero.mpr ⟨hsh.whole, hz⟩] at hone
    omega
  have hg := h.balanced.gain hx (u := present m + (solid + unit x) + vowed) fun y => by
    simp only [Pi.add_apply]
    omega
  refine h.setNode hsh.valid ?_ (fun hh => ?_) fun k _ => le_rfl
  · rw [present_setNode hactive, hone]
    rwa [hs] at hg
  · exact absurd (hsh.whole.symm.trans hh) Bool.false_ne_true

theorem publish (h : Books t m (solid + unit (.child n)) vowed)
    (hh : stateIsHalf (m.nodes n) = true) (hp : Published (m.nodes n) state) :
    Books t (m.setNode n state) solid vowed := by
  have hidle : isActive (m.nodes n) = false := by simp [isActive, hh]
  refine h.setNode hp.valid ?_ (fun hh' => ?_) fun k _ => le_rfl
  · have hcount : virtual state = counts m (some n) := by
      rw [counts, hp.virtual, virtual, if_pos hh]
    have hw : present m + unit (.child n) + solid + vowed =
        present m + (solid + unit (.child n)) + vowed := by
      funext y
      simp only [Pi.add_apply]
      omega
    rw [hcount, update_eq_self, present_activated hidle hp.active, hw]
    exact h.balanced
  · exact absurd ((isActive_iff.mp hp.active).1.symm.trans hh') Bool.false_ne_true

section

variable (h : Books t m (solid + unit x) vowed) (hx : x.Valid t.nodes)
  (hs : site Tree.parent x = some n) (ha : isActive (m.nodes n) = true)
  (hsh : Shifted (m.nodes n) state) (hone : virtual state + 1 = virtual (m.nodes n))
include h hx hs ha hsh hone

theorem leave (hne : virtual state ≠ 0) : Books t (m.setNode n state) solid vowed := by
  have hactive : isActive state = isActive (m.nodes n) := by
    rw [ha, isActive_iff]
    exact ⟨hsh.whole, fun hz => hne (virtual_eq_zero.mpr ⟨hsh.whole, hz⟩)⟩
  have hg := h.balanced.lose hx (u := present m + solid + vowed) fun y => by
    simp only [Pi.add_apply]
    omega
  refine h.setNode hsh.valid ?_ (fun hh => ?_) fun k _ => le_rfl
  · have hcount : virtual state = counts m (some n) - 1 := by
      rw [counts]
      omega
    rw [present_setNode hactive, hcount]
    rwa [hs] at hg
  · exact absurd (hsh.whole.symm.trans hh) Bool.false_ne_true

theorem retire (hz : virtual state = 0) :
    Books t (m.setNode n state) (solid + unit (.child n)) vowed := by
  have hidle : isActive state = false := by simp [isActive, (virtual_eq_zero.mp hz).2]
  have hpresent := present_deactivated ha hidle
  have hg := h.balanced.lose hx
      (u := present (m.setNode n state) + (solid + unit (.child n)) + vowed) fun y => by
    have hy := congrFun hpresent y
    simp only [Pi.add_apply] at hy ⊢
    omega
  refine h.setNode hsh.valid ?_ (fun hh => ?_) fun k _ => le_rfl
  · have hcount : virtual state = counts m (some n) - 1 := by
      rw [counts]
      omega
    rw [hcount]
    rwa [hs] at hg
  · exact absurd (hsh.whole.symm.trans hh) Bool.false_ne_true

end

theorem rootJoin (h : Books t m solid vowed) (hx : x.Valid t.nodes) (hs : site parent x = none)
    {root : UInt64} (hone : root.toNat = m.root.toNat + 1) :
    Books t (m.setRoot root) (solid + unit x) vowed where
  valid := h.valid
  balanced := by
    have hg := h.balanced.gain hx (u := present m + (solid + unit x) + vowed) fun y => by
      simp only [Pi.add_apply]
      omega
    rw [counts_setRoot, hone]
    rwa [hs] at hg
  half := h.half
  capacity := h.capacity

theorem rootLeave (h : Books t m (solid + unit x) vowed) (hx : x.Valid t.nodes)
    (hs : site parent x = none) {root : UInt64} (hone : root.toNat = m.root.toNat - 1) :
    Books t (m.setRoot root) solid vowed where
  valid := h.valid
  balanced := by
    have hg := h.balanced.lose hx (u := present m + solid + vowed) fun y => by
      simp only [Pi.add_apply]
      omega
    rw [counts_setRoot, hone]
    rwa [hs] at hg
  half := h.half
  capacity := h.capacity

theorem setPoison (h : Books t m solid vowed) {reason : PoisonReason}
    (hr : reason.isCapacity = true) : Books t { m with poison := reason.code } solid vowed where
  valid := h.valid
  balanced := h.balanced
  half := h.half
  capacity := by
    intro reason' he
    rw [PoisonReason.fromCode_code] at he
    exact Option.some.inj he ▸ hr

theorem new : Books t Memory.new 0 0 where
  valid := fun _ => validState_zero
  balanced := by
    intro s
    have hw : present Memory.new + 0 + 0 = fun _ => 0 := by
      funext x
      cases x with
      | token n => rfl
      | child k =>
        have hidle : isActive 0 = false := by decide +kernel
        simp [present, Memory.new, hidle]
    rw [hw, load_zero]
    cases s with
    | none => rfl
    | some n => exact virtual_zero
  half := by
    intro n hn
    have hwhole : stateIsHalf 0 = false := by decide +kernel
    exact absurd (hwhole.symm.trans hn) Bool.false_ne_true
  capacity := by rintro reason ⟨⟩

end Books

end DevHermit.Shmem.Snzi
