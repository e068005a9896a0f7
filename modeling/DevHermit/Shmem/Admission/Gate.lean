import DevHermit.Lib.Word

namespace DevHermit.Shmem.Admission

open Lib Word

def closedBit : UInt64 := 1 <<< UInt64.ofNat 63

def poisonedBit : UInt64 := 1 <<< UInt64.ofNat 62

def checkingBit : UInt64 := 1 <<< UInt64.ofNat 61

def drainedBit : UInt64 := 1 <<< UInt64.ofNat 60

def reservationMask : UInt64 := drainedBit - 1

def terminalDrained : UInt64 := closedBit ||| drainedBit

@[ext]
structure Flags where
  closed : Bool
  poisoned : Bool
  checking : Bool
  drained : Bool
  deriving DecidableEq, Repr

def flags (gate : UInt64) : Flags where
  closed := gate &&& closedBit != 0
  poisoned := gate &&& poisonedBit != 0
  checking := gate &&& checkingBit != 0
  drained := gate &&& drainedBit != 0

variable {gate : UInt64}

theorem drained_iff : (flags gate).drained = true ↔ gate &&& drainedBit ≠ 0 := bne_iff_ne

theorem not_drained_iff : (flags gate).drained = false ↔ gate &&& drainedBit = 0 :=
  bne_eq_false_iff_eq

theorem not_closed_iff : (flags gate).closed = false ↔ gate &&& closedBit = 0 := bne_eq_false_iff_eq

def reservations (gate : UInt64) : Nat := (gate &&& reservationMask).toNat

def maxReservations : Nat := 2 ^ 60 - 1

theorem reservationMask_eq : reservationMask = mask 60 := rfl

theorem reservations_eq (gate : UInt64) : reservations gate = gate.toNat % 2 ^ 60 := by
  rw [reservations, reservationMask_eq, toNat_and_mask _ (by decide)]

theorem full_iff :
    gate &&& reservationMask = reservationMask ↔ reservations gate = maxReservations := by
  have hm : reservationMask.toNat = maxReservations := by
    rw [reservationMask_eq]
    exact toNat_mask (by decide)
  rw [reservations, ← hm]
  exact UInt64.toNat_inj.symm

theorem empty_iff : gate &&& reservationMask = 0 ↔ reservations gate = 0 := UInt64.toNat_inj.symm

theorem flags_eq (gate : UInt64) : flags gate =
    ⟨gate.toNat.testBit 63, gate.toNat.testBit 62, gate.toNat.testBit 61,
      gate.toNat.testBit 60⟩ := by
  rw [flags, closedBit, poisonedBit, checkingBit, drainedBit, and_bit_bne _ (by decide),
    and_bit_bne _ (by decide), and_bit_bne _ (by decide), and_bit_bne _ (by decide)]

variable {a b : UInt64}

theorem flags_of_high (h : a.toNat / 2 ^ 60 = b.toNat / 2 ^ 60) : flags a = flags b := by
  have hbit : ∀ n, a.toNat.testBit (60 + n) = b.toNat.testBit (60 + n) := by
    intro n
    rw [Nat.add_comm, ← Nat.testBit_div_two_pow, ← Nat.testBit_div_two_pow, h]
  have h63 := hbit 3
  have h62 := hbit 2
  have h61 := hbit 1
  have h60 := hbit 0
  rw [flags_eq, flags_eq, h63, h62, h61, h60]

theorem eq_of_view (hf : flags a = flags b) (hr : reservations a = reservations b) : a = b := by
  rw [flags_eq, flags_eq, Flags.mk.injEq] at hf
  obtain ⟨h63, h62, h61, h60⟩ := hf
  rw [reservations_eq, reservations_eq] at hr
  apply UInt64.toNat_inj.mp
  apply Nat.eq_of_testBit_eq
  intro i
  by_cases hlow : i < 60
  · have hbit := congrArg (fun n => Nat.testBit n i) hr
    simpa only [Nat.testBit_mod_two_pow, hlow, decide_true, Bool.true_and] using hbit
  · by_cases hhigh : i < 64
    · have hi : i = 60 ∨ i = 61 ∨ i = 62 ∨ i = 63 := by omega
      rcases hi with rfl | rfl | rfl | rfl <;> assumption
    · have hle : 2 ^ 64 ≤ 2 ^ i := Nat.pow_le_pow_right (by decide) (by omega)
      rw [Nat.testBit_lt_two_pow (a.toNat_lt.trans_le hle),
        Nat.testBit_lt_two_pow (b.toNat_lt.trans_le hle)]

structure View (gate : UInt64) (f : Flags) (n : Nat) : Prop where
  flags : flags gate = f
  reservations : reservations gate = n

variable {gate : UInt64}

theorem view_succ (h : reservations gate ≠ maxReservations) :
    View (gate + 1) (flags gate) (reservations gate + 1) := by
  have hlt := gate.toNat_lt
  rw [reservations_eq, maxReservations] at h
  have hadd : (gate + 1).toNat = gate.toNat + 1 := by
    rw [UInt64.toNat_add, UInt64.toNat_one, Nat.mod_eq_of_lt (by omega)]
  constructor
  · exact flags_of_high (by omega)
  · rw [reservations_eq, reservations_eq]
    omega

theorem view_pred (h : reservations gate ≠ 0) :
    View (gate - 1) (flags gate) (reservations gate - 1) := by
  rw [reservations_eq] at h
  have hsub := toNat_pred fun hz : gate = 0 => h (hz ▸ rfl)
  constructor
  · exact flags_of_high (by omega)
  · rw [reservations_eq, reservations_eq]
    omega

theorem reservations_or {bit : UInt64} (h : bit &&& reservationMask = 0) :
    reservations (gate ||| bit) = reservations gate := by
  rw [reservations, or_and_distrib, h, UInt64.or_zero, reservations]

theorem flags_or (a b : UInt64) : flags (a ||| b) =
    ⟨(flags a).closed || (flags b).closed, (flags a).poisoned || (flags b).poisoned,
      (flags a).checking || (flags b).checking, (flags a).drained || (flags b).drained⟩ := by
  rw [flags_eq, flags_eq, flags_eq, UInt64.toNat_or]
  simp only [Nat.testBit_or]

theorem flags_and (a b : UInt64) : flags (a &&& b) =
    ⟨(flags a).closed && (flags b).closed, (flags a).poisoned && (flags b).poisoned,
      (flags a).checking && (flags b).checking, (flags a).drained && (flags b).drained⟩ := by
  rw [flags_eq, flags_eq, flags_eq, UInt64.toNat_and]
  simp only [Nat.testBit_and]

theorem view_poison :
    View (gate ||| poisonedBit) { flags gate with poisoned := true } (reservations gate) := by
  have hbit : flags poisonedBit = ⟨false, true, false, false⟩ := by decide +kernel
  refine ⟨?_, reservations_or (by decide +kernel)⟩
  simp [flags_or, hbit]

theorem view_close :
    View (gate ||| closedBit) { flags gate with closed := true } (reservations gate) := by
  have hbit : flags closedBit = ⟨true, false, false, false⟩ := by decide +kernel
  refine ⟨?_, reservations_or (by decide +kernel)⟩
  simp [flags_or, hbit]

theorem view_uncheck : View (gate &&& ~~~ checkingBit) { flags gate with checking := false }
      (reservations gate) := by
  have hbit : flags (~~~ checkingBit) = ⟨true, true, false, true⟩ := by decide +kernel
  have hmask : ~~~ checkingBit &&& reservationMask = reservationMask := by decide +kernel
  constructor
  · simp [flags_and, hbit]
  · rw [reservations, UInt64.and_assoc, hmask, reservations]

def closedIdle : Flags := ⟨true, false, false, false⟩

def checkingFlags : Flags := ⟨true, false, true, false⟩

def drainedFlags : Flags := ⟨true, false, false, true⟩

theorem view_closedBit : View closedBit closedIdle 0 := by constructor <;> decide +kernel

theorem view_checking : View (closedBit ||| checkingBit) checkingFlags 0 := by
  constructor <;> decide +kernel

theorem view_terminal : View terminalDrained drainedFlags 0 := by constructor <;> decide +kernel

theorem View.unique {f : Flags} {n : Nat} (ha : View a f n) (hb : View b f n) : a = b :=
  eq_of_view (ha.flags.trans hb.flags.symm) (ha.reservations.trans hb.reservations.symm)

end DevHermit.Shmem.Admission
