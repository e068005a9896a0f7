import Mathlib

namespace DevHermit.Lib

variable {τ : Type} (lo hi : τ → Int)

def Tiles : Int → Int → List τ → Prop
  | a, b, [] => a = b
  | a, b, x :: l => lo x = a ∧ lo x ≤ hi x ∧ Tiles (hi x) b l

variable {lo hi} {a b c : Int} {l l' : List τ} {x : τ}

variable (h : Tiles lo hi a b l)
include h

theorem Tiles.append (h' : Tiles lo hi b c l') : Tiles lo hi a c (l ++ l') := by
  induction l generalizing a with
  | nil =>
    rw [List.nil_append, show a = b from h]
    exact h'
  | cons x l ih => exact ⟨h.1, h.2.1, ih h.2.2⟩

theorem Tiles.le : a ≤ b := by
  induction l generalizing a with
  | nil => exact le_of_eq h
  | cons x l ih => exact h.1 ▸ h.2.1.trans (ih h.2.2)

theorem Tiles.bounds (hx : x ∈ l) : a ≤ lo x ∧ lo x ≤ hi x ∧ hi x ≤ b := by
  induction l generalizing a with
  | nil => cases hx
  | cons y l ih =>
    obtain ⟨rfl, hy, hl⟩ := h
    rcases List.mem_cons.mp hx with rfl | hx
    · exact ⟨le_rfl, hy, hl.le⟩
    · obtain ⟨hlo, hle, hhi⟩ := ih hl hx
      exact ⟨hy.trans hlo, hle, hhi⟩

theorem Tiles.sum : (l.map fun x => max 0 (hi x - lo x)).sum = b - a := by
  induction l generalizing a with
  | nil => simp [show a = b from h]
  | cons x l ih =>
    obtain ⟨rfl, hx, hl⟩ := h
    simp only [List.map_cons, List.sum_cons, ih hl]
    omega

theorem Tiles.filter : Tiles lo hi a b (l.filter fun x => 0 < max 0 (hi x - lo x)) := by
  induction l generalizing a with
  | nil => exact h
  | cons x l ih =>
    obtain ⟨rfl, hx, hl⟩ := h
    by_cases hpos : 0 < max 0 (hi x - lo x)
    · rw [List.filter_cons_of_pos (by simpa using hpos)]
      exact ⟨rfl, hx, ih hl⟩
    · rw [List.filter_cons_of_neg (by simpa using hpos), show lo x = hi x by omega]
      exact ih hl

end DevHermit.Lib
