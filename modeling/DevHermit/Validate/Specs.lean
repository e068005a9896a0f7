import DevHermit.Validate.Guarded

namespace DevHermit.Validate

open Lib Landing

variable {env : Env} {d : Disk} {agent : String} {args : AcquireArgs}

theorem readHolder_some {holder : ValidateLockState} (h : d.readHolder = .ok (some holder)) :
    d.holder = .full holder := by
  rw [Disk.readHolder] at h
  cases hd : d.holder with
  | absent | blank =>
    rw [hd] at h
    cases h
  | full content =>
    rw [hd] at h
    cases h
    rfl

def AcquireOps (env : Env) (args : AcquireArgs) (ops : List FsOp) : Prop :=
  (∃ queue, ops = [.renameQueue queue]) ∨ ∃ reclaimed queue, ops = [.truncateHolder,
    .writeHolder (newHolder env args.agent args.kind args.target args.hold reclaimed),
    .removeOwner, .renameQueue queue]

theorem takeTurn_ok (env : Env) (args : AcquireArgs) (holder : Option ValidateLockState)
    (dead : Option DeathReason) (queue : List QueueEntry) :
    AcquireOps env args (takeTurn env args holder dead queue).1 := by
  rw [takeTurn]
  cases hq : queue.head? with
  | none => exact .inr ⟨_, _, rfl⟩
  | some head =>
    dsimp only
    split_ifs
    · exact .inl ⟨_, rfl⟩
    · exact .inr ⟨_, _, rfl⟩

theorem tryAcquire_ok {p : Plan AcquireToken} (h : tryAcquire env args d = .ok p) :
    AcquireOps env args p.1 := by
  simp only [tryAcquire, bind_eq_ok] at h
  obtain ⟨holder, -, -, -, dead, -, hp⟩ := h
  cases holder with
  | none =>
    cases hp
    exact takeTurn_ok ..
  | some live =>
    dsimp only at hp
    split_ifs at hp
    · cases hp
      exact .inl ⟨_, rfl⟩
    · cases hp
      exact takeTurn_ok ..

variable {p : Plan Unit}

theorem renew_ok {hold : UInt64} (h : renew env agent hold d = .ok p) :
    ∃ holder, d.holder = .full holder ∧ holder.agent = agent ∧ p.1 = [.truncateHolder,
      .writeHolder (newHolder env agent holder.kind holder.target hold none)] := by
  rw [renew, bind_eq_ok] at h
  obtain ⟨holder, hread, h⟩ := h
  cases holder with
  | none => cases h
  | some holder =>
    simp only [andThen_eq_ok, reject_eq_ok, ne_eq, not_not] at h
    obtain ⟨-, hagent, -, hp⟩ := h
    cases hp
    exact ⟨holder, readHolder_some hread, hagent, rfl⟩

theorem release_ok {p : Plan (Bool × Option String)} (h : release env agent d = .ok p) :
    p.1 = [.removeOwner] ∨ ∃ queue, p.1 = [.removeHolder, .removeOwner, .renameQueue queue] := by
  simp only [release, bind_eq_ok] at h
  obtain ⟨holder, -, -, -, h⟩ := h
  cases holder with
  | none =>
    cases h
    exact .inl rfl
  | some holder =>
    simp only [andThen_eq_ok] at h
    obtain ⟨-, -, hp⟩ := h
    cases hp
    exact .inr ⟨_, rfl⟩

theorem reclaimDead_ok {p : Plan (Option (String × Kind × String × DeathReason))}
    (h : reclaimDead env d = .ok p) : p.1 = [.removeOwner] ∨
      p.1 = [.removeHolder, .removeOwner, .removeCleanup, .removeClaim] := by
  rw [reclaimDead, bind_eq_ok] at h
  obtain ⟨holder, -, h⟩ := h
  cases holder with
  | none =>
    cases hv : cleanupVerification env d none with
    | none =>
      rw [hv] at h
      cases h
      exact .inl rfl
    | _ =>
      rw [hv] at h
      cases h
  | some holder =>
    simp only [bind_eq_ok] at h
    obtain ⟨-, -, reason, -, hp⟩ := h
    cases hp
    exact .inr rfl

theorem writeCurrentProcessOwner_ok (h : writeCurrentProcessOwner env = .ok p) :
    ∃ bootId, p.1 = [.truncateOwner, .writeOwner ⟨env.host, bootId, env.self⟩] := by
  simp only [writeCurrentProcessOwner, currentProcessOwner, bind_eq_ok] at h
  obtain ⟨owner, ⟨bootId, -, howner⟩, hp⟩ := h
  cases howner
  cases hp
  exact ⟨bootId, rfl⟩

theorem armRun_ok (h : armRun env args d = .ok p) : ∃ record, p.1 = [.renameCleanup record,
    .openClaim, .writeClaim args.agent (operationOf args.kind args.target) env.host] := by
  simp only [armRun, bind_eq_ok] at h
  obtain ⟨record, -, holder, -, -, -, hp⟩ := h
  cases hp
  exact ⟨record, rfl⟩

theorem transitionRunCleanup_ok {expected : CleanupPhase → Bool} {next : CleanupPhase}
    {cgroup : Option String} (h : transitionRunCleanup env args expected next cgroup d = .ok p) :
    ∃ record, p.1 = [.renameCleanup record] := by
  simp only [transitionRunCleanup, bind_eq_ok] at h
  obtain ⟨holder, -, record, -, -, -, hp⟩ := h
  cases hp
  exact ⟨_, rfl⟩

theorem clearUnstartedRun_ok (h : clearUnstartedRun env args d = .ok p) :
    p.1 = [.removeCleanup, .removeClaim] := by
  rw [clearUnstartedRun, bind_eq_ok] at h
  obtain ⟨holder, -, h⟩ := h
  cases hv : cleanupVerification env d (some holder) with
  | armed r =>
    rw [hv] at h
    simp only [bind_eq_ok] at h
    obtain ⟨-, -, hp⟩ := h
    cases hp
    rfl
  | _ =>
    rw [hv] at h
    cases h

theorem clearProvenRun_ok (h : clearProvenRun env d = .ok p) :
    p.1 = [.removeCleanup, .removeClaim] := by
  rw [clearProvenRun, bind_eq_ok] at h
  obtain ⟨holder, -, h⟩ := h
  cases holder with
  | none => cases h
  | some holder =>
    cases hv : cleanupVerification env d (some holder) with
    | recoverable r =>
      simp only [hv] at h
      cases h
      rfl
    | _ =>
      simp only [hv] at h
      cases h

theorem renewRunLease_ok (h : renewRunLease env args d = .ok p) :
    ∃ holder, d.holder = .full holder ∧ holder.agent = args.agent ∧ holder.kind = args.kind ∧
      holder.target = args.target ∧ p.1 = [.truncateHolder,
        .writeHolder (newHolder env args.agent args.kind args.target args.hold none)] := by
  rw [renewRunLease, bind_eq_ok] at h
  obtain ⟨holder, hread, h⟩ := h
  cases holder with
  | none => cases h
  | some holder =>
    simp only [andThen_eq_ok, reject_eq_ok, not_or, ne_eq, not_not] at h
    obtain ⟨⟨hagent, hkind, htarget⟩, h⟩ := h
    cases hv : cleanupVerification env d (some holder) with
    | active r =>
      rw [hv] at h
      simp only [bind_eq_ok] at h
      obtain ⟨⟨⟩, -, ⟨⟩, -, hp⟩ := h
      cases hp
      exact ⟨holder, readHolder_some hread, hagent, hkind, htarget, rfl⟩
    | _ =>
      rw [hv] at h
      cases h

theorem censusOrphanedDomain_ok {args : CensusArgs} {domain : DomainEvidence}
    (h : censusOrphanedDomain env args domain d = .ok p) :
    ∃ record, p.1 = [.renameCleanup record] := by
  rw [censusOrphanedDomain, bind_eq_ok] at h
  obtain ⟨holder, -, h⟩ := h
  cases holder with
  | none => cases h
  | some holder =>
    simp only [bind_eq_ok] at h
    obtain ⟨record, -, published, -, -, -, reason, -, -, -, -, -, -, -, hp⟩ := h
    cases hp
    exact ⟨_, rfl⟩

end DevHermit.Validate
