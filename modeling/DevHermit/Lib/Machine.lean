import DevHermit.Lib.System

namespace DevHermit.Lib

open Function Option

structure Machine (P Sh Lo In : Type) where
  start : Sh
  idle : Lo
  step : P → Sh → Lo → In → Option (Sh × Lo)

structure Config (P Sh Lo : Type) where
  sh : Sh
  lo : P → Lo

namespace Machine

variable {P Sh Lo In : Type} [DecidableEq P] (M : Machine P Sh Lo In)

def init : Config P Sh Lo := ⟨M.start, fun _ => M.idle⟩

def next (c : Config P Sh Lo) (p : P) (i : In) : Option (Config P Sh Lo) :=
  (M.step p c.sh (c.lo p) i).map fun r => ⟨r.1, Function.update c.lo p r.2⟩

def system : System (Config P Sh Lo) (P × In) := ⟨M.init, fun c a => M.next c a.1 a.2⟩

abbrev run : Config P Sh Lo → List (P × In) → Option (Config P Sh Lo) :=
  M.system.run fun _ _ => True

def Step (c c' : Config P Sh Lo) : Prop := ∃ p i, M.next c p i = some c'

abbrev ReachWhen (ok : Config P Sh Lo → P × In → Prop) :
    Config P Sh Lo → Config P Sh Lo → Prop :=
  M.system.ReachWhen ok

abbrev Reach : Config P Sh Lo → Config P Sh Lo → Prop := M.ReachWhen fun _ _ => True

abbrev Reachable : Config P Sh Lo → Prop := M.Reach M.init

variable {M} {c c' : Config P Sh Lo} {p : P}

theorem next_eq_some {i : In} : M.next c p i = some c' ↔
      ∃ sh l, M.step p c.sh (c.lo p) i = some (sh, l) ∧ c' = ⟨sh, update c.lo p l⟩ := by
  simp only [next, map_eq_some_iff, Prod.exists]
  constructor
  · rintro ⟨sh, l, h, rfl⟩
    exact ⟨sh, l, h, rfl⟩
  · rintro ⟨sh, l, h, rfl⟩
    exact ⟨sh, l, h, rfl⟩

theorem run_cons (i : In) (rest : List (P × In)) :
    M.run c ((p, i) :: rest) = (M.next c p i).bind fun c' => M.run c' rest := if_pos trivial

theorem Reachable.init : M.Reachable M.init := .start

theorem Reachable.reach (h : M.Reachable c) (h' : M.Reach c c') : M.Reachable c' :=
  System.ReachableWhen.reach h h'

theorem Reach.step (h : M.Step c c') : M.Reach c c' := by
  obtain ⟨p, i, hn⟩ := h
  exact System.ReachableWhen.step (e := (p, i)) .start trivial hn

theorem Reachable.step (h : M.Reachable c) (h' : M.Step c c') : M.Reachable c' :=
  h.reach (Reach.step h')

theorem exists_reachable {α : Type} {view : Config P Sh Lo → α} {v : α} {acts : List (P × In)}
    (h : (M.run M.init acts).map view = some v) : ∃ c, M.Reachable c ∧ view c = v :=
  System.exists_reachable (M := M.system) h

variable {ok : Config P Sh Lo → P × In → Prop} {I : Config P Sh Lo → Prop}

def PreservesWhen (M : Machine P Sh Lo In) (ok : Config P Sh Lo → P × In → Prop)
    (I : Config P Sh Lo → Prop) : Prop :=
  ∀ c p i sh l, I c → ok c (p, i) → M.step p c.sh (c.lo p) i = some (sh, l) →
    I ⟨sh, Function.update c.lo p l⟩

theorem PreservesWhen.reach (h : M.PreservesWhen ok I) (hc : I c) (hr : M.ReachWhen ok c c') :
    I c' := by
  refine hr.invariant hc fun d a d' hd hok hs => ?_
  obtain ⟨sh, l, hl, rfl⟩ := next_eq_some.mp hs
  exact h d a.1 a.2 sh l hd hok hl

def Preserves (M : Machine P Sh Lo In) (I : Config P Sh Lo → Prop) : Prop :=
  ∀ c p i sh l, I c → M.step p c.sh (c.lo p) i = some (sh, l) →
    I ⟨sh, Function.update c.lo p l⟩

theorem Preserves.reach (h : M.Preserves I) (hc : I c) (hr : M.Reach c c') : I c' := by
  have hwhen : M.PreservesWhen (fun _ _ => True) I := fun c p i sh l hI _ hs => h c p i sh l hI hs
  exact hwhen.reach hc hr

theorem Preserves.reachable (h : M.Preserves I) (h₀ : I M.init) (hc : M.Reachable c) : I c :=
  h.reach h₀ hc

theorem stopped (h : M.ReachWhen ok c c') (hp : ∀ c a, ok c a → a.1 ≠ p) :
    c'.lo p = c.lo p := by
  have hpres : M.PreservesWhen ok fun d => d.lo p = c.lo p := by
    intro d q i sh l hd hok _
    rw [← hd]
    exact update_of_ne (hp d (q, i) hok).symm _ _
  exact hpres.reach rfl h

def follow (M : Machine P Sh Lo In) (p : P) (a : Sh × Lo) : List In → Option (Sh × Lo)
  | [] => some a
  | i :: rest => (M.step p a.1 a.2 i).bind fun b => follow M p b rest

theorem reach_follow {ins : List In} {sh : Sh} {l : Lo}
    (h : M.follow p (c.sh, c.lo p) ins = some (sh, l)) : M.Reach c ⟨sh, update c.lo p l⟩ := by
  induction ins generalizing c with
  | nil =>
    cases h
    rw [update_eq_self]
    exact .start
  | cons i rest ih =>
    obtain ⟨⟨sh₁, l₁⟩, hs, hrest⟩ := bind_eq_some_iff.mp h
    have hnext : M.next c p i = some ⟨sh₁, update c.lo p l₁⟩ := next_eq_some.mpr ⟨sh₁, l₁, hs, rfl⟩
    have hlo : (sh₁, update c.lo p l₁ p) = (sh₁, l₁) := congrArg _ (update_self p l₁ c.lo)
    have htail := ih (c := ⟨sh₁, update c.lo p l₁⟩)
      ((congrArg (fun a => M.follow p a rest) hlo).trans hrest)
    rw [update_idem] at htail
    exact (Reach.step ⟨p, i, hnext⟩).reach htail

end Machine

section

variable {P Lo : Type} [Fintype P] [DecidableEq P]

def tally (m : Lo → Nat) (lo : P → Lo) : Nat := ∑ p, m (lo p)

theorem tally_update (m : Lo → Nat) (lo : P → Lo) (p : P) (l : Lo) :
    tally m (update lo p l) + m (lo p) = tally m lo + m l := by
  have hs : tally m (update lo p l) = m l + ∑ q ∈ Finset.univ \ {p}, m (lo q) := by
    have h := Finset.sum_update_of_mem (Finset.mem_univ p) (fun q => m (lo q)) (m l)
    rw [← h]
    refine Finset.sum_congr rfl fun q _ => ?_
    by_cases hq : q = p
    · subst hq; simp
    · simp [update_of_ne hq]
  have hu : tally m lo = m (lo p) + ∑ q ∈ Finset.univ \ {p}, m (lo q) := by
    have h := Finset.sum_update_of_mem (Finset.mem_univ p) (fun q => m (lo q)) (m (lo p))
    rw [← h]
    simp [tally]
  omega

omit [DecidableEq P] in
theorem le_tally (m : Lo → Nat) (lo : P → Lo) (p : P) : m (lo p) ≤ tally m lo :=
  Finset.single_le_sum (f := fun q => m (lo q)) (fun _ _ => Nat.zero_le _) (Finset.mem_univ p)

omit [DecidableEq P] in
theorem tally_eq_zero {m : Lo → Nat} {lo : P → Lo} : tally m lo = 0 ↔ ∀ p, m (lo p) = 0 := by
  simp [tally]

omit [DecidableEq P] in
theorem tally_pos {m : Lo → Nat} {lo : P → Lo} : 0 < tally m lo ↔ ∃ p, 0 < m (lo p) := by
  simp [tally, Finset.sum_pos_iff]

theorem add_le_tally (m : Lo → Nat) (lo : P → Lo) {p q : P} (h : p ≠ q) :
    m (lo p) + m (lo q) ≤ tally m lo := by
  rw [← Finset.sum_pair (f := fun r => m (lo r)) h]
  exact Finset.sum_le_sum_of_subset (Finset.subset_univ _)

end

variable {P Lo M : Type} [Fintype P] [AddCommMonoid M]

def gather (f : Lo → M) (lo : P → Lo) : M := ∑ p, f (lo p)

theorem gather_split [DecidableEq P] (f : Lo → M) (lo : P → Lo) (p : P) :
    ∃ R, gather f lo = R + f (lo p) ∧ ∀ l, gather f (update lo p l) = R + f l := by
  refine ⟨∑ q ∈ Finset.univ.erase p, f (lo q), ?_, fun l => ?_⟩
  · exact (Finset.sum_erase_add _ _ (Finset.mem_univ p)).symm
  · rw [gather, ← Finset.sum_erase_add _ _ (Finset.mem_univ p), update_self]
    congr 1
    refine Finset.sum_congr rfl fun q hq => ?_
    rw [update_of_ne (Finset.ne_of_mem_erase hq)]

end DevHermit.Lib
