import DevHermit.Lib.Mixing
import DevHermit.Shmem.Migration.Control

namespace DevHermit.Shmem.Migration

open Lib

theorem checksumMix_mixes : Mixes checksumMix := by
  have hmix : Mixes (mixWord (w := 64) 17 0xa0761d6478bd642f 0xe7037ed1a0b428db) :=
    mixWord_mixes (d := 0x2e1b9953f3b39353) (by decide) (by decide) _
  refine ⟨fun v x y h => ?_, fun s x y h => ?_⟩
  · exact UInt64.toBitVec_inj.mp (hmix.state v.toBitVec (congrArg UInt64.toBitVec h))
  · exact UInt64.toBitVec_inj.mp (hmix.value s.toBitVec (congrArg UInt64.toBitVec h))

variable {plan : MigrationPlan} {i : Nat} {word : UInt64}

theorem planChecksum_eq (plan : MigrationPlan) :
    planChecksum plan = plan.words.foldl checksumMix 0x9e3779b97f4a7c15 := rfl

theorem words_ofWords_set (hi : i < 21) :
    (MigrationPlan.ofWords fun k => (plan.record.set i word).getD k 0).words =
      plan.words.set i word := by
  interval_cases i <;> rfl

theorem checkRecord_changed (hi : i < recordLen) (hne : word ≠ plan.record.getD i 0) :
    checkRecord (plan.record.set i word) = none := by
  rw [checkRecord]
  cases (MigrationPlan.ofWords fun k => (plan.record.set i word).getD k 0).validate with
  | error e => rfl
  | ok _ =>
    refine if_pos ?_
    by_cases hlast : i < 21
    · have hword : plan.words[i]? = some (plan.record.getD i 0) := by interval_cases i <;> rfl
      have hsum : (plan.record.set i word).getD 21 0 = planChecksum plan := by
        interval_cases i <;> rfl
      rw [hsum, planChecksum_eq, planChecksum_eq, words_ofWords_set hlast]
      exact (checksumMix_mixes.foldl_set_ne hword hne _).symm
    · obtain rfl : i = 21 := by rw [recordLen] at hi; omega
      exact hne

def advances : Nat → Shared × Pc → Option (Shared × Pc)
  | 0, start => some start
  | n + 1, start => (advance start.1 start.2).bind (advances n)

theorem advances_succ (n : Nat) (start : Shared × Pc) :
    advances (n + 1) start = (advance start.1 start.2).bind (advances n) := rfl

theorem advances_load {sh : Shared} {loading : Loading} (hlen : sh.words.length = recordLen)
    (n k : Nat) (hn : n + k = recordLen) (m : Nat) :
    advances (k + m) (sh, .load (sh.words.take n) loading) =
      advances m (sh, .load sh.words loading) := by
  induction k generalizing n with
  | zero => rw [Nat.zero_add, List.take_of_length_le (by omega)]
  | succ k ih =>
    have htake : (sh.words.take n).length = n := by rw [List.length_take]; omega
    have hword : sh.words.take n ++ [sh.words.getD n 0] = sh.words.take (n + 1) := by
      rw [List.getD_eq_getElem _ _ (by omega), List.take_append_getElem]
    have hstep : advance sh (.load (sh.words.take n) loading) =
        some (sh, .load (sh.words.take (n + 1)) loading) := by
      rw [advance, htake, if_pos (by omega), hword]
    rw [show k + 1 + m = k + m + 1 by omega, advances, hstep]
    exact ih (n + 1) (by omega)

theorem one_word_corruption_poisons (plan : MigrationPlan) (i : Nat)
    (hi : i < recordLen) (word : UInt64) (hne : word ≠ plan.record.getD i 0)
    (sh : Shared) (hwords : sh.words = plan.record.set i word) :
    (∀ loading, advances 24 (sh, .load [] loading) =
      some ({ sh with phase := Raw.poisoned }, loading.after.next (.error .corruptMetadata))) ∧
    ∀ phase caller, MigrationPhase.decode sh.phase = .ok phase → phase.hasPublishedPlan = true →
      advances 25 (sh, .snapLoad caller) =
        some ({ sh with phase := Raw.poisoned }, .done (.error .corruptMetadata)) := by
  have hlen : sh.words.length = recordLen := by
    rw [hwords, List.length_set]
    rfl
  have hload : ∀ loading, advances 24 (sh, .load [] loading) =
      some ({ sh with phase := Raw.poisoned }, loading.after.next (.error .corruptMetadata)) := by
    intro loading
    have hfinish : advance sh (.load sh.words loading) =
        some (sh, .poisonStore loading.after (.error .corruptMetadata)) := by
      rw [advance, if_neg (by omega), finishLoad, hwords, checkRecord_changed hi hne]
    refine (advances_load hlen 0 22 rfl 2).trans ?_
    rw [advances, hfinish]
    rfl
  refine ⟨hload, fun phase caller hphase hpublished => ?_⟩
  have hsnap : advance sh (.snapLoad caller) = some (sh, .load [] (.snapshot phase caller)) := by
    rw [advance, snapshotPhase, hphase]
    exact congrArg some (congrArg (sh, ·) (if_pos hpublished))
  have hlast := hload (.snapshot phase caller)
  rw [Loading.after, After.next] at hlast
  rw [advances_succ 24, hsnap, Option.bind_some, hlast]

def smallPlan : MigrationPlan :=
  ⟨1, ⟨⟨1, 0, 0⟩, 1, 1, ⟨1, 0, 0, 0⟩⟩, ⟨⟨2, 0, 0⟩, 2, 2, ⟨2, 0, 0, 0⟩⟩, ⟨1, 0⟩⟩

theorem flipped_region_poisons : smallPlan.validate = .ok () ∧
    advances 24 (⟨Raw.copying, smallPlan.record.set 4 9, [], [], [], 0⟩,
      .load [] (.snapshot .copying .snapshot)) =
      some (⟨Raw.poisoned, smallPlan.record.set 4 9, [], [], [], 0⟩,
        .done (.error .corruptMetadata)) :=
  ⟨by decide, (one_word_corruption_poisons smallPlan 4 (by decide) 9 (by decide) _ rfl).1 _⟩

end DevHermit.Shmem.Migration
