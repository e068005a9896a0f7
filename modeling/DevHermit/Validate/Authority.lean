import DevHermit.Validate.Commands
import DevHermit.Validate.Specs

namespace DevHermit.Validate

open Lib Landing

variable {env : Env} {d : Disk} {status : AuthorityStatus}

theorem authorityLiveness_unrefused {owner : ProcessOwner} {liveness : AuthorityOwnerLiveness}
    (h : authorityLiveness env owner = .ok (liveness, none)) :
    liveness = .alive ∧ env.ticks owner.identity.pid = .found owner.identity.startTicks := by
  rw [authorityLiveness] at h
  split_ifs at h
  · cases h
  · cases h
  · obtain ⟨bootId, -, h⟩ := bind_eq_ok.mp h
    split_ifs at h
    · cases h
    · split at h
      case h_1 observed ht =>
        split_ifs at h with heq
        · cases h
          exact ⟨rfl, heq ▸ ht⟩
        · cases h
      case h_2 => cases h
      case h_3 => cases h

theorem authorityOwner_unrefused {file : File ProcessOwner} {owner : AuthorityOwner}
    (h : authorityOwner env file = .ok (some owner, none)) :
    ∃ process, file = .full process ∧ owner = fromProcess process .alive ∧
      env.ticks process.identity.pid = .found process.identity.startTicks := by
  cases file with
  | absent => cases h
  | blank => cases h
  | full process =>
    obtain ⟨⟨liveness, refusal⟩, hv, h⟩ := bind_eq_ok.mp h
    cases h
    obtain ⟨rfl, ht⟩ := authorityLiveness_unrefused hv
    exact ⟨process, rfl, rfl, ht⟩

theorem authorityWithHolder_admits {holder : ValidateLockState} {owner : Option AuthorityOwner}
    {refusal : Option (AuthorityState × String)} {anchorHeld : Bool}
    {cleanup : AuthorityCleanupState}
    (h : authorityWithHolder env holder d owner refusal anchorHeld cleanup = .ok status)
    (hadmissible : status.admissible = true) :
    holder.liveAt env.now ∧ anchorHeld = true ∧ holder.kind = .validate ∧ refusal = none ∧
      ∃ reported, owner = some reported ∧ status = .admitted holder.reported reported cleanup := by
  have refused : ∀ {state reason reported anchor}, Except.ok (ε := ValidateLockError)
      (AuthorityStatus.refused state reason (some holder.reported) reported anchor cleanup) =
        .ok status → False := by
    intro state reason reported anchor he
    cases he
    cases hadmissible
  rw [authorityWithHolder.eq_def] at h
  split at h
  case isTrue => exact (refused h).elim
  case isFalse hlive =>
    split at h
    case isTrue => exact (refused h).elim
    case isFalse hanchor =>
      split at h
      case isTrue => exact (refused h).elim
      case isFalse hkind =>
        split_ifs at h
        · exact (refused h).elim
        · exact (refused h).elim
        · exact (refused h).elim
        · cases refusal with
          | some refusal => exact (refused h).elim
          | none =>
            cases owner with
            | none => cases h
            | some reported =>
              cases h
              exact ⟨not_not.mp hlive, by simpa using hanchor, not_not.mp hkind, rfl, reported,
                rfl, rfl⟩

theorem authorityStatus_admits {anchorBefore anchorAfter : Bool}
    (h : authorityStatusGuarded env anchorBefore anchorAfter d = .ok status)
    (hadmissible : status.admissible = true) :
    ∃ holder process, d.holder = .full holder ∧ d.owner = .full process ∧
      holder.liveAt env.now ∧ holder.kind = .validate ∧
      env.ticks process.identity.pid = .found process.identity.startTicks ∧
      status.holder = some holder.reported ∧ status.owner = some (fromProcess process .alive) := by
  obtain ⟨⟨owner, refusal⟩, howner, h⟩ := bind_eq_ok.mp h
  dsimp only at h
  split_ifs at h
  · cases h
    cases hadmissible
  · cases h
    cases hadmissible
  · split at h
    · cases h
      cases hadmissible
    · cases hd : d.holder with
      | absent | blank =>
        rw [hd] at h
        cases h
        rw [authorityWithoutHolder] at hadmissible
        split_ifs at hadmissible <;> cases hadmissible
      | full holder =>
        rw [hd] at h
        obtain ⟨hlive, -, hkind, rfl, reported, rfl, rfl⟩ :=
          authorityWithHolder_admits h hadmissible
        obtain ⟨process, hfile, rfl, ht⟩ := authorityOwner_unrefused howner
        exact ⟨holder, process, rfl, hfile, hlive, hkind, ht, rfl, rfl⟩

end DevHermit.Validate
