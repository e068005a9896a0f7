import Mathlib

namespace DevHermit.Lib

section

variable {σ ν : Type} {f : σ → ν → σ} {vs : List ν} {v w : ν} {i : Nat}

structure Mixes (f : σ → ν → σ) : Prop where
  state : ∀ v, Function.Injective fun s => f s v
  value : ∀ s, Function.Injective (f s)

theorem Mixes.foldl_injective (h : Mixes f) (vs : List ν) :
    Function.Injective fun s => vs.foldl f s := by
  induction vs with
  | nil => exact fun _ _ heq => heq
  | cons v vs ih => exact fun _ _ heq => h.state v (ih heq)

theorem Mixes.foldl_set_ne (h : Mixes f) (hi : vs[i]? = some w) (hne : v ≠ w) (s : σ) :
    (vs.set i v).foldl f s ≠ vs.foldl f s := by
  induction vs generalizing i s with
  | nil => cases hi
  | cons u vs ih =>
    cases i with
    | zero =>
      cases hi
      exact fun heq => hne (h.value s (h.foldl_injective vs heq))
    | succ i => exact ih hi (f s u)

end

variable {w : Nat}

theorem rotate_injective {n : Nat} (hn : n ≤ w) :
    Function.Injective fun x : BitVec w => (x <<< n) ||| (x >>> (w - n)) := by
  intro x y h
  refine BitVec.eq_of_getLsbD_eq fun i hi => ?_
  by_cases hlow : i < w - n
  · have hbit := congrArg (BitVec.getLsbD · (i + n)) h
    have hhigh (z : BitVec w) : z.getLsbD (w - n + (i + n)) = false :=
      BitVec.getLsbD_of_ge z _ (by omega)
    simpa [show i + n < w by omega, hhigh, BitVec.getLsbD_eq_getElem hi] using hbit
  · have hbit := congrArg (BitVec.getLsbD · (i - (w - n))) h
    simpa [show i - (w - n) < n by omega, show w - n + (i - (w - n)) = i by omega] using hbit

theorem mul_injective {c d : BitVec w} (h : c * d = 1#w) :
    Function.Injective fun x : BitVec w => x * c := by
  intro x y heq
  have hback := congrArg (· * d) heq
  simpa only [BitVec.mul_assoc, h, BitVec.mul_one] using hback

def mixWord (n : Nat) (k c s v : BitVec w) : BitVec w :=
  (((s <<< n) ||| (s >>> (w - n))) + (v ^^^ k)) * c

theorem mixWord_mixes {n : Nat} {c d : BitVec w} (hn : n ≤ w) (h : c * d = 1#w) (k : BitVec w) :
    Mixes (mixWord n k c) where
  state _ _ _ heq := rotate_injective hn (BitVec.add_left_inj _ |>.mp (mul_injective h heq))
  value _ _ _ heq :=
    BitVec.xor_left_inj k |>.mp (BitVec.add_right_inj _ |>.mp (mul_injective h heq))

end DevHermit.Lib
