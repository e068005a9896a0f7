import Mathlib

namespace DevHermit.Lib

variable {ε α β : Type}

def reject (c : Prop) [Decidable c] (e : ε) : Except ε Unit := if c then .error e else .ok ()

theorem reject_eq_ok {c : Prop} [Decidable c] {e : ε} : reject c e = .ok () ↔ ¬ c := by
  by_cases h : c
  · rw [reject, if_pos h]
    constructor
    · rintro ⟨⟩
    · exact fun hn => absurd h hn
  · rw [reject, if_neg h]
    exact iff_of_true rfl h

theorem bind_eq_ok {x : Except ε α} {f : α → Except ε β} {r : β} :
    x >>= f = .ok r ↔ ∃ a, x = .ok a ∧ f a = .ok r := by
  cases x with
  | error e =>
    constructor
    · rintro ⟨⟩
    · rintro ⟨a, ⟨⟩, -⟩
  | ok a =>
    constructor
    · exact fun h => ⟨a, rfl, h⟩
    · rintro ⟨a, ⟨⟩, h⟩
      exact h

theorem andThen_eq_ok {x : Except ε Unit} {f : Unit → Except ε β} {r : β} :
    x >>= f = .ok r ↔ x = .ok () ∧ f () = .ok r := by
  rw [bind_eq_ok]
  constructor
  · rintro ⟨⟨⟩, hx, hf⟩
    exact ⟨hx, hf⟩
  · exact fun h => ⟨(), h⟩

theorem mapError_eq_ok {ε' : Type} {x : Except ε α} {f : ε → ε'} {a : α}
    (h : x.mapError f = .ok a) : x = .ok a := by
  cases x with
  | error e => cases h
  | ok b =>
    cases h
    rfl

def checked (e : ε) (n : Nat) : Except ε Nat := if n < 2 ^ 64 then .ok n else .error e

theorem checked_eq_ok {e : ε} {n m : Nat} : checked e n = .ok m ↔ n < 2 ^ 64 ∧ n = m := by
  rw [checked]
  split_ifs with h
  · rw [Except.ok.injEq, iff_and_self]
    exact fun _ => h
  · exact iff_of_false nofun fun heq => h heq.1

end DevHermit.Lib
