import Mathlib

namespace DevHermit.Lib

open List

def decimalDigits (n : Nat) : List Nat := if n = 0 then [0] else (Nat.digits 10 n).reverse

def padDigits (width n : Nat) : List Nat :=
  List.replicate (width - (decimalDigits n).length) 0 ++ decimalDigits n

def digitChar (d : Nat) : Char := Char.ofNat (48 + d)

def padded (width n : Nat) : List Char := (padDigits width n).map digitChar

def ofDecimal (digits : List Nat) : Nat := digits.foldl (fun acc d => 10 * acc + d) 0

theorem ofDecimal_append (as bs : List Nat) :
    ofDecimal (as ++ bs) = bs.foldl (fun acc d => 10 * acc + d) (ofDecimal as) := by
  rw [ofDecimal, foldl_append, ofDecimal]

theorem ofDecimal_reverse (digits : List Nat) :
    ofDecimal digits.reverse = Nat.ofDigits 10 digits := by
  induction digits with
  | nil => rfl
  | cons d rest ih =>
    rw [reverse_cons, ofDecimal_append, ih, Nat.ofDigits_cons, foldl_cons, foldl_nil, Nat.add_comm]

theorem ofDecimal_decimalDigits (n : Nat) : ofDecimal (decimalDigits n) = n := by
  rw [decimalDigits]
  split_ifs with h
  · rw [h]; rfl
  · rw [ofDecimal_reverse, Nat.ofDigits_digits]

theorem ofDecimal_zeros (k : Nat) : ofDecimal (List.replicate k 0) = 0 := by
  induction k with
  | zero => rfl
  | succ k ih => rw [replicate_succ', ofDecimal_append, ih]; rfl

theorem ofDecimal_padDigits (width n : Nat) : ofDecimal (padDigits width n) = n := by
  rw [padDigits, ofDecimal_append, ofDecimal_zeros, ← ofDecimal, ofDecimal_decimalDigits]

theorem decimalDigits_lt (n : Nat) : ∀ d ∈ decimalDigits n, d < 10 := by
  intro d hd
  rw [decimalDigits] at hd
  split at hd
  · rw [mem_singleton.mp hd]
    omega
  · exact Nat.digits_lt_base (by omega) (mem_reverse.mp hd)

theorem decimalDigits_eq_cons {n : Nat} (h : n ≠ 0) :
    ∃ d ds, decimalDigits n = d :: ds ∧ d ≠ 0 := by
  have hne := mt reverse_eq_nil_iff.mp (Nat.digits_ne_nil_iff_ne_zero (b := 10).mpr h)
  rw [decimalDigits, if_neg h]
  refine ⟨_, _, (cons_head_tail hne).symm, ?_⟩
  rw [head_reverse]
  exact Nat.getLast_digit_ne_zero 10 h

theorem decimalDigits_ofDecimal {d : Nat} {ds : List Nat} (hlt : ∀ x ∈ d :: ds, x < 10)
    (hd : d ≠ 0) : decimalDigits (ofDecimal (d :: ds)) = d :: ds := by
  have hdigits := Nat.digits_ofDigits 10 (by decide) (d :: ds).reverse
    (fun x hx => hlt x (mem_reverse.mp hx)) fun _ => by rwa [getLast_reverse]
  rw [← ofDecimal_reverse, reverse_reverse] at hdigits
  rw [decimalDigits, if_neg, hdigits, reverse_reverse]
  intro hzero
  simp [hzero] at hdigits

theorem padDigits_lt (width n : Nat) : ∀ d ∈ padDigits width n, d < 10 := by
  intro d hd
  rw [padDigits, mem_append] at hd
  rcases hd with hd | hd
  · rw [eq_of_mem_replicate hd]
    omega
  · exact decimalDigits_lt n d hd

theorem padDigits_ne_nil (width n : Nat) : padDigits width n ≠ [] := by
  rcases eq_or_ne n 0 with rfl | h
  · simp [padDigits, decimalDigits]
  · obtain ⟨d, ds, hds, -⟩ := decimalDigits_eq_cons h
    simp [padDigits, hds]

theorem padDigits_injective (width : Nat) : Function.Injective (padDigits width) := by
  intro n m h
  rw [← ofDecimal_padDigits width n, h, ofDecimal_padDigits]

theorem digitChar_toNat {d : Nat} (hd : d < 10) : (digitChar d).toNat = 48 + d := by
  interval_cases d <;> rfl

theorem padded_digits (width n : Nat) :
    (padded width n).map (fun c : Char => c.toNat - 48) = padDigits width n := by
  rw [padded, List.map_map]
  refine (map_congr_left fun d hd => ?_).trans (List.map_id _)
  have hlt := digitChar_toNat (padDigits_lt width n d hd)
  simp only [Function.comp, hlt, id]
  omega

theorem padded_injective (width : Nat) : Function.Injective (padded width) := by
  intro n m h
  apply padDigits_injective width
  rw [← padded_digits, h, padded_digits]

theorem isDigit_of_mem_padded {width n : Nat} {c : Char} (h : c ∈ padded width n) :
    c.isDigit = true := by
  obtain ⟨d, hd, rfl⟩ := List.mem_map.mp h
  have hlt := padDigits_lt width n d hd
  interval_cases d <;> rfl

def parseDigits (text : List Char) : Option Nat :=
  if text ≠ [] ∧ text.all Char.isDigit then some (ofDecimal (text.map fun c => c.toNat - 48))
  else none

theorem parseDigits_padded (width n : Nat) : parseDigits (padded width n) = some n := by
  have hne : padded width n ≠ [] := mt map_eq_nil_iff.mp (padDigits_ne_nil width n)
  have hall : (padded width n).all Char.isDigit = true :=
    all_eq_true.mpr fun _ => isDigit_of_mem_padded
  rw [parseDigits, if_pos ⟨hne, hall⟩, padded_digits, ofDecimal_padDigits]

def renderInteger (n : Int) : List Char :=
  if n < 0 then '-' :: padded 0 n.natAbs else padded 0 n.natAbs

def parseSigned : List Char → Option Int
  | '-' :: digits => (parseDigits digits).map fun n : Nat => -(n : Int)
  | '+' :: digits => (parseDigits digits).map Int.ofNat
  | digits => (parseDigits digits).map Int.ofNat

def InI64 (n : Int) : Prop := -2 ^ 63 ≤ n ∧ n < 2 ^ 63

instance (n : Int) : Decidable (InI64 n) := inferInstanceAs (Decidable (_ ∧ _))

def parseInteger (text : List Char) : Option Int := (parseSigned text).filter (InI64 ·)

theorem parseInteger_renderInteger {n : Int} (h : InI64 n) :
    parseInteger (renderInteger n) = some n := by
  have hsigned : parseSigned (renderInteger n) = some n := by
    rw [renderInteger]
    split_ifs with hneg
    · rw [parseSigned, parseDigits_padded, Option.map_some]
      exact congrArg some (by omega)
    · have hsign : ∀ c ∈ padded 0 n.natAbs, c ≠ '-' ∧ c ≠ '+' := by
        rintro c hc
        constructor <;> rintro rfl <;> cases isDigit_of_mem_padded hc
      cases hdigits : padded 0 n.natAbs with
      | nil => exact absurd hdigits (mt map_eq_nil_iff.mp (padDigits_ne_nil _ _))
      | cons c rest =>
        obtain ⟨hminus, hplus⟩ := hsign c (by rw [hdigits]; exact mem_cons_self)
        rw [parseSigned, ← hdigits, parseDigits_padded, Option.map_some]
        · exact congrArg some (by simp only [Int.ofNat_eq_natCast]; omega)
        all_goals
          rintro digits ⟨⟩
          contradiction
  rw [parseInteger, hsigned, Option.filter_some, if_pos (decide_eq_true h)]

theorem notMem_renderInteger {c : Char} (hsign : c ≠ '-') (hdigit : c.isDigit = false) (n : Int) :
    c ∉ renderInteger n := by
  have hpadded : c ∉ padded 0 n.natAbs := fun h =>
    Bool.false_ne_true (hdigit.symm.trans (isDigit_of_mem_padded h))
  rw [renderInteger]
  split_ifs
  · exact fun h => (mem_cons.mp h).elim hsign hpadded
  · exact hpadded

end DevHermit.Lib
