import Mathlib

namespace DevHermit.Lib.CounterTree

open Function

inductive Claim where
  | child (k : Nat)
  | token (n : Nat)
deriving DecidableEq, Repr

def unit (x y : Claim) : Nat := if y = x then 1 else 0

@[simp]
theorem unit_self (x : Claim) : unit x x = 1 := if_pos rfl

def site (parent : Nat → Option Nat) : Claim → Option Nat
  | .child k => parent k
  | .token n => some n

def Claim.Valid (N : Nat) : Claim → Prop
  | .child k => k < N
  | .token n => n < N

def load (N : Nat) (parent : Nat → Option Nat) (w : Claim → Nat) (s : Option Nat) : Nat :=
  (∑ k ∈ Finset.range N, if parent k = s then w (.child k) else 0) +
    s.elim 0 fun n => w (.token n)

def Balanced (N : Nat) (parent : Nat → Option Nat) (count : Option Nat → Nat)
    (w : Claim → Nat) : Prop :=
  ∀ s, count s = load N parent w s

variable {N : Nat} {parent : Nat → Option Nat} {count : Option Nat → Nat} {w u : Claim → Nat}

theorem load_zero (s : Option Nat) : load N parent (fun _ => 0) s = 0 := by cases s <;> simp [load]

theorem load_add (parent : Nat → Option Nat) (w u : Claim → Nat) (s : Option Nat) :
    load N parent (w + u) s = load N parent w s + load N parent u s := by
  have hsum : ∀ k ∈ Finset.range N, (if parent k = s then (w + u) (.child k) else 0) =
      (if parent k = s then w (.child k) else 0) + if parent k = s then u (.child k) else 0 := by
    intro k _
    split_ifs <;> simp
  rw [load, load, load, Finset.sum_congr rfl hsum, Finset.sum_add_distrib]
  cases s with
  | none => simp
  | some n =>
    simp only [Option.elim_some, Pi.add_apply]
    omega

variable {x : Claim}

theorem load_add_unit (parent : Nat → Option Nat) (hx : x.Valid N) (hw : ∀ y, u y = w y + unit x y)
    (s : Option Nat) :
    load N parent u s = load N parent w s + if site parent x = s then 1 else 0 := by
  cases x with
  | child k =>
    have hk : k ∈ Finset.range N := Finset.mem_range.mpr hx
    have hsum : ∀ j ∈ Finset.range N, (if parent j = s then u (.child j) else 0) =
        (if parent j = s then w (.child j) else 0) +
          (if j = k then (if parent k = s then 1 else 0) else 0) := by
      intro j _
      by_cases hj : j = k
      · subst hj
        by_cases hs : parent j = s <;> simp [hs, hw]
      · simp [hw, unit, hj]
    have htok : (s.elim 0 fun n => u (.token n)) = s.elim 0 fun n => w (.token n) := by
      cases s <;> simp [hw, unit]
    rw [load, load, Finset.sum_congr rfl hsum, Finset.sum_add_distrib,
      Finset.sum_ite_eq_of_mem' _ _ _ hk, htok]
    exact Nat.add_right_comm _ _ _
  | token n =>
    have hsum : ∀ j ∈ Finset.range N, (if parent j = s then u (.child j) else 0) =
        if parent j = s then w (.child j) else 0 := by
      intro j _
      simp [hw, unit]
    rw [load, load, Finset.sum_congr rfl hsum]
    cases s with
    | none => simp [site]
    | some m =>
      by_cases hm : n = m
      · subst hm
        simp [site, hw, add_assoc]
      · simp [site, hw, unit, hm, Ne.symm hm]

theorem le_load (hx : x.Valid N) : w x ≤ load N parent w (site parent x) := by
  cases x with
  | child k =>
    have h := Finset.single_le_sum (f := fun j => if parent j = parent k then w (.child j) else 0)
      (fun _ _ => Nat.zero_le _) (Finset.mem_range.mpr hx)
    simp only [if_true] at h
    exact h.trans (Nat.le_add_right _ _)
  | token n => exact Nat.le_add_left _ _

namespace Balanced

section

variable (h : Balanced N parent count w)
include h

variable {x : Claim}

theorem le_count (hx : x.Valid N) : w x ≤ count (site parent x) := by
  rw [h]
  exact le_load hx

theorem gain (hx : x.Valid N) (hw : ∀ y, u y = w y + unit x y) : Balanced N parent
      (update count (site parent x) (count (site parent x) + 1)) u := by
  intro s
  rw [load_add_unit parent hx hw, ← h s]
  by_cases hs : site parent x = s
  · subst hs
    simp
  · simp [hs, update_of_ne (Ne.symm hs)]

theorem lose (hx : x.Valid N) (hw : ∀ y, w y = u y + unit x y) : Balanced N parent
      (update count (site parent x) (count (site parent x) - 1)) u := by
  intro s
  have hl := load_add_unit parent hx hw s
  have hc := h s
  by_cases hs : site parent x = s
  · subst hs
    simp only [if_true] at hl
    rw [update_self]
    omega
  · rw [if_neg hs] at hl
    rw [update_of_ne (Ne.symm hs)]
    omega

theorem zero_of_root_zero (hp : ∀ k j, parent k = some j → j < k)
    (hlive : ∀ k, count (some k) ≠ 0 → w (.child k) ≠ 0) (hroot : count none = 0) (hx : x.Valid N) :
    w x = 0 := by
  have hchild : ∀ k, k < N → w (.child k) = 0 := by
    intro k
    induction k using Nat.strong_induction_on with
    | _ k ih =>
      intro hk
      have hle : w (.child k) ≤ count (parent k) := h.le_count (x := .child k) hk
      cases hpk : parent k with
      | none =>
        rw [hpk, hroot] at hle
        omega
      | some j =>
        have hj : j < k := hp k j hpk
        have hcj : count (some j) = 0 := by
          by_contra hne
          exact hlive j hne (ih j hj (by omega))
        rw [hpk, hcj] at hle
        omega
  cases x with
  | child k => exact hchild k hx
  | token n =>
    have hcn : count (some n) = 0 := by
      by_contra hne
      exact hlive n hne (hchild n hx)
    have hle : w (.token n) ≤ count (some n) := h.le_count (x := .token n) hx
    omega

theorem count_zero_of_no_claim (hp : ∀ k j, parent k = some j → j < k)
    (hchild : ∀ k, w (.child k) ≠ 0 → count (some k) ≠ 0)
    (htok : ∀ n, w (.token n) = 0) (s : Option Nat) : count s = 0 := by
  have hload : ∀ s, (∀ k, k < N → parent k = s → count (some k) = 0) → count s = 0 := by
    intro s hs
    rw [h s, load]
    have hsum : (∑ k ∈ Finset.range N, if parent k = s then w (.child k) else 0) = 0 := by
      refine Finset.sum_eq_zero fun k hk => ?_
      split_ifs with hks
      · by_contra hne
        exact hchild k hne (hs k (Finset.mem_range.mp hk) hks)
      · rfl
    cases s <;> simp [hsum, htok]
  -- Children have larger indices than their parents, so the induction runs down from the leaves.
  have hnode : ∀ d k, N - k ≤ d → count (some k) = 0 := by
    intro d
    induction d with
    | zero =>
      intro k hk
      refine hload (some k) fun j hj hpj => ?_
      have := hp j k hpj
      omega
    | succ d ih =>
      intro k hk
      refine hload (some k) fun j hj hpj => ih j ?_
      have := hp j k hpj
      omega
  cases s with
  | none => exact hload none fun k _ _ => hnode (N - k) k le_rfl
  | some n => exact hnode (N - n) n le_rfl

end

end Balanced

def live (count : Option Nat → Nat) (k : Nat) : Nat := if count (some k) = 0 then 0 else 1

def weight (count : Option Nat → Nat) (pend : Claim → Nat) : Claim → Nat
  | .child k => live count k + pend (.child k)
  | .token n => pend (.token n)

def Ledger (N : Nat) (parent : Nat → Option Nat) (count : Option Nat → Nat)
    (pend : Claim → Nat) : Prop :=
  Balanced N parent count (weight count pend)

variable {pend pend' : Claim → Nat}

theorem pend_le_weight (count : Option Nat → Nat) (pend : Claim → Nat) (x : Claim) :
    pend x ≤ weight count pend x := by
  cases x with
  | child k => exact Nat.le_add_left _ _
  | token n => exact le_rfl

theorem weight_update_of_live (pend : Claim → Nat) {s : Option Nat} {v : Nat}
    (hs : s = none ∨ count s ≠ 0 ∧ v ≠ 0)
    (y : Claim) : weight (update count s v) pend y = weight count pend y := by
  cases y with
  | token n => rfl
  | child k =>
    simp only [weight, live]
    by_cases hk : some k = s
    · subst hk
      simp at hs
      simp [hs]
    · rw [update_of_ne hk]

namespace Ledger

theorem init : Ledger N parent (fun _ => 0) (fun _ => 0) := by
  intro s
  have hw : weight (fun _ => 0) (fun _ => 0) = fun _ => 0 := by
    funext y
    cases y <;> simp [weight, live]
  rw [hw, load_zero]

section

variable (h : Ledger N parent count pend)
include h

variable {x : Claim}

theorem pend_le (hx : x.Valid N) : pend x ≤ count (site parent x) :=
  (pend_le_weight count pend x).trans (Balanced.le_count h hx)

theorem congr (hp : ∀ y, pend' y = pend y) : Ledger N parent count pend' := by
  have : pend' = pend := funext hp
  exact this ▸ h

theorem join (hx : x.Valid N) (hs : site parent x = none ∨ count (site parent x) ≠ 0)
    (hp : ∀ y, pend' y = pend y + unit x y) :
    Ledger N parent (update count (site parent x) (count (site parent x) + 1)) pend' := by
  refine Balanced.gain h hx fun y => ?_
  have hl := weight_update_of_live pend' (v := count (site parent x) + 1)
    (hs.imp_right fun hc => ⟨hc, Nat.succ_ne_zero _⟩) y
  rw [hl]
  cases y with
  | child k => simp only [weight, hp, add_assoc]
  | token n => exact hp _

variable {n : Nat}

omit h in
theorem weight_publish (count : Option Nat → Nat) (hc : count (some n) = 0)
    (hp : ∀ y, pend' y + unit (.child n) y = pend y + unit x y) (y : Claim) :
    weight (update count (some n) 1) pend' y = weight count pend y + unit x y := by
  have hy := hp y
  cases y with
  | token m => simpa [weight, unit] using hy
  | child k =>
    by_cases hk : k = n
    · subst hk
      simp only [weight, live, update_self, hc, unit_self] at hy ⊢
      simp
      omega
    · have hkn : (some k : Option Nat) ≠ some n := fun he => hk (Option.some.inj he)
      have hu : unit (.child n) (.child k) = 0 := if_neg fun he => hk (Claim.child.inj he)
      simp only [weight, live, update_of_ne hkn]
      omega

theorem publish (hx : x.Valid N) (hs : site parent x = some n) (hc : count (some n) = 0)
    (hp : ∀ y, pend' y + unit (.child n) y = pend y + unit x y) :
    Ledger N parent (update count (some n) 1) pend' := by
  have hg := Balanced.gain h hx (weight_publish count hc hp)
  rw [hs, hc] at hg
  exact hg

theorem leave (hx : x.Valid N) (hs : site parent x = none ∨ 2 ≤ count (site parent x))
    (hp : ∀ y, pend y = pend' y + unit x y) :
    Ledger N parent (update count (site parent x) (count (site parent x) - 1)) pend' := by
  refine Balanced.lose h hx fun y => ?_
  have hlive : site parent x = none ∨ count (site parent x) ≠ 0 ∧ count (site parent x) - 1 ≠ 0 :=
    hs.imp_right fun hc => by omega
  have hl := weight_update_of_live pend' hlive y
  rw [hl]
  cases y with
  | child k => simp only [weight, hp, add_assoc]
  | token n => exact hp _

theorem retire (hx : x.Valid N) (hs : site parent x = some n) (hc : count (some n) = 1)
    (hp : ∀ y, pend y + unit (.child n) y = pend' y + unit x y) :
    Ledger N parent (update count (some n) 0) pend' := by
  have hw : ∀ y, weight count pend y = weight (update count (some n) 0) pend' y + unit x y := by
    intro y
    rw [← weight_publish _ (update_self _ _ _) hp, update_idem, ← hc, update_eq_self]
  have hg := Balanced.lose h hx hw
  rw [hs, hc] at hg
  exact hg

theorem pend_eq_zero (hp : ∀ k j, parent k = some j → j < k) (hroot : count none = 0)
    (hx : x.Valid N) : pend x = 0 := by
  have hlive : ∀ k, count (some k) ≠ 0 → weight count pend (.child k) ≠ 0 := by
    intro k hk
    simp [weight, live, hk]
  have hw := Balanced.zero_of_root_zero h hp hlive hroot hx
  have := pend_le_weight count pend x
  omega

theorem count_eq_zero_of_root (hp : ∀ k j, parent k = some j → j < k) (hroot : count none = 0)
    (hn : n < N) : count (some n) = 0 := by
  have hlive : ∀ k, count (some k) ≠ 0 → weight count pend (.child k) ≠ 0 := by
    intro k hk
    simp [weight, live, hk]
  have hw := Balanced.zero_of_root_zero h hp hlive hroot (x := .child n) hn
  by_contra hne
  exact hlive n hne hw

theorem count_eq_zero_of_no_pend
    (hp : ∀ k j, parent k = some j → j < k) (hz : ∀ x, pend x = 0) (s : Option Nat) :
    count s = 0 := by
  refine Balanced.count_zero_of_no_claim h hp (fun k hk => ?_) (fun n => hz _) s
  simp only [weight, live, hz] at hk
  by_contra hne
  simp [hne] at hk

end

end Ledger

end DevHermit.Lib.CounterTree
