import DevHermit.Landing.BoxVisibility

namespace DevHermit.Landing.BoxClaims

open Lib Local

section

variable {P R : Type} [DecidableEq R] {lock : R → Name}
  {c : Config P (Shared P R) (Local R)} {sh' : Shared P R} {p : P} {l' : Local R}

def Local.checks : Local R → Option R
  | .readDir q | .next q _ _ | .readBody q _ _ _ | .verify q _ _ _ _ | .prune q _ _ _ => some q
  | _ => none

def Local.left : Local R → Nat
  | .next _ todo _ => 4 * todo.length + 1
  | .readBody _ _ todo _ => 4 * todo.length + 4
  | .verify _ _ _ todo _ => 4 * todo.length + 3
  | .prune _ _ todo _ => 4 * todo.length + 2
  | _ => 0

def Local.answer : Local R → Option (R × Bool)
  | .answered q refused => some (q, refused)
  | _ => none

def Local.began : Local R → R → Option Nat
  | .next _ _ since | .readBody _ _ _ since | .verify _ _ _ _ since | .prune _ _ _ since => since
  | _ => fun _ => none

def Settles (q : R) (l l' : Local R) : Prop :=
  (∃ refused, l'.answer = some (q, refused)) ∨
    l'.checks = some q ∧ (l = .readDir q ∨ l'.left < l.left)

variable {l : Local R} {listing : List Name} {q : R}

theorem advance_settles (lock : R → Name) (p : P) (sh : Shared P R)
    (hlist : sh.lists listing = true) (hq : l.checks = some q) :
    ∃ sh' l', BoxClaims.advance lock p sh listing l = some (sh', l') ∧ Settles q l l' := by
  cases l with
  | readDir q' =>
    cases hq
    exact ⟨sh, _, if_pos hlist, .inr ⟨rfl, .inl rfl⟩⟩
  | next q' todo since =>
    cases hq
    cases todo with
    | nil => exact ⟨sh, _, rfl, .inl ⟨false, rfl⟩⟩
    | cons name todo =>
      refine ⟨sh, _, rfl, .inr ?_⟩
      split <;> exact ⟨rfl, .inr (by simp only [left, List.length_cons]; omega)⟩
  | readBody q' name todo since =>
    cases hq
    simp only [BoxClaims.advance]
    split
    · exact ⟨sh, _, rfl, .inr ⟨rfl, .inr (by simp only [left]; omega)⟩⟩
    · split
      · exact ⟨sh, _, rfl, .inr ⟨rfl, .inr (by simp only [left]; omega)⟩⟩
      · refine ⟨sh, _, rfl, .inr ?_⟩
        split <;> exact ⟨rfl, .inr (by simp only [left]; omega)⟩
  | verify q' name cleanup todo since =>
    cases hq
    refine ⟨sh, _, rfl, ?_⟩
    split
    · exact .inl ⟨true, rfl⟩
    · exact .inr ⟨rfl, .inr (by simp only [left]; omega)⟩
  | prune q' name todo since =>
    cases hq
    exact ⟨_, _, rfl, .inr ⟨rfl, .inr (by simp only [left]; omega)⟩⟩
  | _ => cases hq

variable {refused : Bool}

theorem advance_answer {sh : Shared P R}
    (hs : BoxClaims.advance lock p sh listing l = some (sh', l'))
    (ha : l'.answer = some (q, refused)) : refused = false ∧ (∃ since, l = .next q [] since) ∨
      refused = true ∧ ∃ name cleanup todo since,
        l = .verify q name cleanup todo since ∧ sh.record cleanup = true := by
  cases l with
  | idle => cases hs
  | lock r job =>
    simp only [BoxClaims.advance] at hs
    split at hs
    · cases hs
    · cases hs
      cases job <;> cases ha
  | checkRecord r tags =>
    cases hs
    split at ha <;> cases ha
  | readDir q' =>
    simp only [BoxClaims.advance, Option.ite_none_right_eq_some] at hs
    obtain ⟨-, hs⟩ := hs
    cases hs
    cases ha
  | next q' todo since =>
    cases todo with
    | nil =>
      cases hs
      cases ha
      exact .inl ⟨rfl, since, rfl⟩
    | cons name todo =>
      cases hs
      split at ha <;> cases ha
  | readBody q' name todo since =>
    simp only [BoxClaims.advance] at hs
    split at hs
    · cases hs
      cases ha
    · split at hs
      · cases hs
        cases ha
      · cases hs
        split at ha <;> cases ha
  | verify q' name cleanup todo since =>
    cases hs
    split_ifs at ha with hr
    · cases ha
      exact .inr ⟨rfl, name, cleanup, todo, since, rfl, hr⟩
    · cases ha
  | _ =>
    cases hs
    cases ha

theorem step_answer {i : Input R} (hs : (boxClaims P lock).step p c.sh (c.lo p) i = some (sh', l'))
    (ha : l'.answer = some (q, refused)) : refused = false ∧ (∃ since, c.lo p = .next q [] since) ∨
      refused = true ∧ ∃ name cleanup todo since,
        c.lo p = .verify q name cleanup todo since ∧ c.sh.record cleanup = true := by
  simp only [boxClaims] at hs
  cases i with
  | go listing => exact advance_answer hs ha
  | _ =>
    simp only at hs
    split at hs
    · cases hs
      cases ha
    · cases hs

variable [DecidableEq P]

theorem foreign_quarantine_visible (hline : ∀ r, '\n' ∉ lock r)
    (hfile : Function.Injective (claimOf lock))
    (hreach : (boxClaims P lock).ReachWhen (fun c a => (c.lo a.1).Patient lock c.sh)
      (boxClaims P lock).init c) :
    (∀ p q i sh' l', (boxClaims P lock).step p c.sh (c.lo p) i = some (sh', l') →
      l'.answer = some (q, false) → ∀ r, r ≠ q → (c.lo p).began r ≠ some (c.sh.epoch r)) ∧
    (∀ p q i sh' l', (boxClaims P lock).step p c.sh (c.lo p) i = some (sh', l') →
      l'.answer = some (q, true) → ∃ r, r ≠ q ∧ c.sh.record (cleanupOf lock r) = true) ∧
    (∃ listing, c.sh.lists listing = true) ∧
    ∀ p q listing, (c.lo p).checks = some q → c.sh.lists listing = true →
      ∃ sh' l', (boxClaims P lock).step p c.sh (c.lo p) (.go listing) = some (sh', l') ∧
        Settles q (c.lo p) l' := by
  have h := (visible_preserved hline hfile).reach (Visible.start lock) hreach
  refine ⟨?_, ?_, ⟨c.sh.names, ?_⟩, ?_⟩
  · intro p q i sh' l' hs ha r hne hbegan
    obtain ⟨-, since, hl⟩ | ⟨hf, -⟩ := step_answer hs ha
    · have hok := h.ok p
      rw [hl] at hok hbegan
      have hpend := ((hok r _ hbegan).2 hne rfl).2
      cases hpend
    · cases hf
  · intro p q i sh' l' hs ha
    obtain ⟨hf, -⟩ | ⟨-, name, cleanup, todo, since, hl, hr⟩ := step_answer hs ha
    · cases hf
    · have hok := h.ok p
      rw [hl] at hok
      obtain ⟨r, rfl⟩ := h.filed.record hr
      refine ⟨r, ?_, hr⟩
      rintro rfl
      exact hok.1 rfl
  · refine List.all_eq_true.mpr fun name hmem => ?_
    rw [List.contains_iff_mem.mpr hmem, Bool.or_true]
  · intro p q listing hq hlist
    exact advance_settles lock p c.sh hlist hq

end

variable (lock : Fin 2 → Name)

abbrev Pair := Config (Fin 3) (Shared (Fin 3) (Fin 2)) (Local (Fin 2))

def answerOf (c : Pair) (p : Fin 3) : Option (Fin 2 × Bool) :=
  ((boxClaims (Fin 3) lock).step p c.sh (c.lo p) (.go [])).bind fun r => r.2.answer

variable {lock} in
theorem exists_answer {c : Pair} {p : Fin 3} {v : Fin 2 × Bool} (h : answerOf lock c p = some v) :
    ∃ sh' l', (boxClaims (Fin 3) lock).step p c.sh (c.lo p) (.go []) = some (sh', l') ∧
      l'.answer = some v := by
  obtain ⟨⟨sh', l'⟩, hs, ha⟩ := Option.bind_eq_some_iff.mp h
  exact ⟨sh', l', hs, ha⟩

def armRun (p : Fin 3) (r : Fin 2) : List (Fin 3 × Input (Fin 2)) :=
  (p, .arm r ⟨[], [], []⟩) :: List.replicate 6 (p, .go [])

def checkRun (p : Fin 3) (q : Fin 2) (reads : Nat) : List (Fin 3 × Input (Fin 2)) :=
  (p, .check q) :: (p, .go [claimOf lock ⟨0, Nat.zero_lt_two⟩]) :: List.replicate reads (p, .go [])

def apart (r : Fin 2) : Name :=
  (if r.val = 0 then "/a/.landing-lock" else "/b/.landing-lock").toList

instance (sh : Shared (Fin 3) (Fin 2)) (l : Local (Fin 2)) : Decidable (l.Patient apart sh) :=
  inferInstanceAs (Decidable (∀ r, l.pruned = some (claimOf apart r) →
    sh.record (cleanupOf apart r) = false))

theorem armed_repository_refuses_others : ∃ c : Pair,
    (∃ sh' l', (boxClaims (Fin 3) apart).step 1 c.sh (c.lo 1) (.go []) = some (sh', l') ∧
      l'.answer = some (1, true) ∧ ∃ r, r ≠ 1 ∧ c.sh.record (cleanupOf apart r) = true) ∧
    ∃ sh' l', (boxClaims (Fin 3) apart).step 2 c.sh (c.lo 2) (.go []) = some (sh', l') ∧
      l'.answer = some (0, false) ∧ ∀ r, r ≠ 0 → (c.lo 2).began r ≠ some (c.sh.epoch r) := by
  have hline : ∀ r, '\n' ∉ apart r := by decide +kernel
  have hfile : Function.Injective (claimOf apart) := by decide +kernel
  obtain ⟨c, hreach, hv⟩ := System.exists_reachable (M := (boxClaims (Fin 3) apart).system)
    (v := (some (1, true), some (0, false)))
    (show ((boxClaims (Fin 3) apart).system.run (fun c a => (c.lo a.1).Patient apart c.sh)
      (boxClaims (Fin 3) apart).init
      (armRun 0 0 ++ checkRun apart 1 1 2 ++ checkRun apart 2 0 2)).map
      (fun c => (answerOf apart c 1, answerOf apart c 2)) = some (some (1, true), some (0, false))
      from by decide +kernel)
  obtain ⟨h₁, h₂⟩ := Prod.mk.inj hv
  obtain ⟨hclear, hrefuse, -, -⟩ := foreign_quarantine_visible hline hfile hreach
  obtain ⟨sh₁, l₁, hs₁, ha₁⟩ := exists_answer h₁
  obtain ⟨sh₂, l₂, hs₂, ha₂⟩ := exists_answer h₂
  exact ⟨c, ⟨sh₁, l₁, hs₁, ha₁, hrefuse 1 1 (.go []) sh₁ l₁ hs₁ ha₁⟩,
    sh₂, l₂, hs₂, ha₂, hclear 2 0 (.go []) sh₂ l₂ hs₂ ha₂⟩

def colliding (r : Fin 2) : Name :=
  (if r.val = 0 then "/a/b/.landing-lock" else "/a_b/.landing-lock").toList

theorem discharge_under_a_shared_name_hides_quarantine :
    Function.Injective colliding ∧ (∀ r, '\n' ∉ colliding r) ∧
    ∃ c : Pair, (boxClaims (Fin 3) colliding).Reachable c ∧
      c.sh.record (cleanupOf colliding 0) = true ∧
      (c.lo 2).began 0 = some (c.sh.epoch 0) ∧
      ∃ sh' l', (boxClaims (Fin 3) colliding).step 2 c.sh (c.lo 2) (.go []) = some (sh', l') ∧
        l'.answer = some (1, false) := by
  refine ⟨by decide +kernel, by decide +kernel, ?_⟩
  obtain ⟨c, hreach, hv⟩ := Machine.exists_reachable (M := boxClaims (Fin 3) colliding)
    (v := (true, true, some (1, false)))
    (show ((boxClaims (Fin 3) colliding).run (boxClaims (Fin 3) colliding).init
      (armRun 0 0 ++ ((1, .discharge 1) :: List.replicate 4 (1, .go [])) ++
        checkRun colliding 2 1 2)).map (fun c => (c.sh.record (cleanupOf colliding 0),
        decide ((c.lo 2).began 0 = some (c.sh.epoch 0)), answerOf colliding c 2)) =
      some (true, true, some (1, false)) from by decide +kernel)
  obtain ⟨h₁, h⟩ := Prod.mk.inj hv
  obtain ⟨h₂, h₃⟩ := Prod.mk.inj h
  exact ⟨c, hreach, h₁, of_decide_eq_true h₂, exists_answer h₃⟩

end DevHermit.Landing.BoxClaims
