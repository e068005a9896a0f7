import DevHermit.Landing.Guarded

namespace DevHermit.Landing

open Lib

variable {env : Env} {d : Disk} {agent pr : String} {args : AcquireArgs}
  {record record' : CleanupRecord} {holder : LockState}

theorem readHolder_some (h : d.readHolder = .ok (some holder)) : d.holder = .full holder := by
  rw [Disk.readHolder] at h
  cases hd : d.holder with
  | absent | blank =>
    rw [hd] at h
    cases h
  | full content =>
    rw [hd] at h
    cases h
    rfl

theorem readHolder_none (h : d.readHolder = .ok none) : d.holder = .absent := by
  rw [Disk.readHolder] at h
  cases hd : d.holder with
  | absent => rfl
  | _ =>
    rw [hd] at h
    cases h

inductive Verdict (env : Env) (record : CleanupRecord) : CleanupVerification → Prop
  | unknown : Verdict env record (.unknown (some record))
  | rebooted {bootId : BootId} (hboot : env.bootId = some bootId) (hne : record.bootId ≠ bootId) :
      Verdict env record (.recoverable record)
  | armed (hboot : env.bootId = some record.bootId) (hphase : record.phase = .armed) :
      Verdict env record (.armed record)
  | active (hboot : env.bootId = some record.bootId) : Verdict env record (.active record)
  | uncensused (hboot : env.bootId = some record.bootId) :
      Verdict env record (.uncensused record)
  | vanished {pgid : Nat} {residuals : List ProcessIdentity}
      (hboot : env.bootId = some record.bootId)
      (hphase : record.phase = .residual pgid true residuals)
      (hdead : ∀ identity ∈ residuals, exactProcessLiveness env identity = some false) :
      Verdict env record (.recoverable record)

theorem Verdict.eq_of_recoverable {r : CleanupRecord} (h : Verdict env record (.recoverable r)) :
    record = r := by
  cases h <;> rfl

theorem verdict_published (hboot : env.bootId = some record.bootId) (leader : ProcessIdentity)
    (pgid : Nat) : Verdict env record (verifyPublished env record leader pgid) := by
  rw [verifyPublished]
  split_ifs
  · exact .active hboot
  · exact .uncensused hboot

theorem verdict_residual (hboot : env.bootId = some record.bootId) {pgid : Nat}
    {residuals : List ProcessIdentity} (hphase : record.phase = .residual pgid true residuals) :
    Verdict env record (verifyResidual env record pgid residuals) := by
  rw [verifyResidual]
  split_ifs with hactive hunknown
  · exact .active hboot
  · exact .unknown
  · refine .vanished hboot hphase fun identity hid => ?_
    push Not at hactive hunknown
    cases hl : exactProcessLiveness env identity with
    | none => exact absurd hl (hunknown.1 identity hid)
    | some alive =>
      cases alive with
      | true => exact absurd hl (hactive.1 identity hid)
      | false => rfl

theorem verdict_phase (hboot : env.bootId = some record.bootId) :
    Verdict env record (verifyPhase env record) := by
  rw [verifyPhase]
  cases hphase : record.phase with
  | armed => exact .armed hboot hphase
  | published leader pgid => exact verdict_published hboot leader pgid
  | censusPending leader pgid => exact verdict_published hboot leader pgid
  | residual pgid complete residuals =>
    cases complete with
    | false => exact .unknown
    | true => exact verdict_residual hboot hphase

theorem verdict_record (env : Env) (record : CleanupRecord) (agent operation : String) :
    Verdict env record (verifyRecord env record agent operation) := by
  rw [verifyRecord]
  split_ifs with hbind hhost
  · exact .unknown
  · exact .unknown
  · cases hboot : env.bootId with
    | none => exact .unknown
    | some bootId =>
      dsimp only
      split_ifs with hne
      · exact .rebooted hboot hne
      · exact verdict_phase (by rw [hboot, not_not.mp hne])

theorem cleanup_eq_none {holder : Option LockState}
    (h : cleanupVerification env d holder = .none) : d.cleanup = none := by
  rw [cleanupVerification] at h
  cases hc : d.cleanup with
  | none => rfl
  | some record =>
    rw [hc] at h
    cases holder with
    | none => cases h
    | some holder =>
      have hv := verdict_record env record holder.agent (operationOf holder.pr)
      dsimp only at h
      rw [h] at hv
      cases hv

variable {v : CleanupVerification}

theorem verification_bound (h : cleanupVerification env d (some holder) = v) (hnone : v ≠ .none) :
    ∃ record, d.cleanup = some record ∧ Verdict env record v := by
  rw [cleanupVerification] at h
  cases hc : d.cleanup with
  | none =>
    rw [hc] at h
    exact absurd h.symm hnone
  | some record =>
    rw [hc] at h
    dsimp only at h
    exact ⟨record, rfl, h ▸ verdict_record env record holder.agent (operationOf holder.pr)⟩

theorem requireNoCleanup_ok {holder : Option LockState}
    (h : requireNoCleanup env d holder = .ok ()) : d.cleanup = none := by
  rw [requireNoCleanup] at h
  cases hv : cleanupVerification env d holder with
  | none => exact cleanup_eq_none hv
  | _ =>
    rw [hv] at h
    cases h

theorem takeTurn_cases (env : Env) (args : AcquireArgs) (holder : Option LockState)
    (dead : Option DeathReason) (queue : List QueueEntry) :
    (∃ head, queue.head? = some head ∧ head.agent ≠ args.agent ∧
      takeTurn env args holder dead queue = ([.renameQueue queue], .waitTurn head.agent)) ∨
    ((∀ head, queue.head? = some head → head.agent = args.agent) ∧
      takeTurn env args holder dead queue = grant env args holder dead queue) := by
  rw [takeTurn]
  cases hq : queue.head? with
  | none => exact .inr ⟨nofun, rfl⟩
  | some head =>
    by_cases ha : head.agent = args.agent
    · exact .inr ⟨fun head' he => Option.some.inj he ▸ ha, if_neg (not_not.mpr ha)⟩
    · exact .inl ⟨head, rfl, ha, if_pos ha⟩

theorem tryAcquire_ok {p : Plan AcquireToken} (h : tryAcquire env args d = .ok p) :
    ∃ holder dead, d.readHolder = .ok holder ∧ d.cleanup = none ∧
      deadOwner env d holder = .ok dead ∧ ((∃ live, holder = some live ∧
          p = ([.renameQueue (prune env.now (enqueue env.now args d.queue))],
            .held live.agent (live.expiresAt - env.now))) ∨
        ((∀ live, holder = some live → live.liveAt env.now → dead ≠ none) ∧
          p = takeTurn env args holder dead (prune env.now (enqueue env.now args d.queue)))) := by
  simp only [tryAcquire, bind_eq_ok] at h
  obtain ⟨holder, hholder, ⟨⟩, hclean, dead, hdead, hp⟩ := h
  refine ⟨holder, dead, hholder, requireNoCleanup_ok hclean, hdead, ?_⟩
  cases holder with
  | none => exact .inr ⟨by simp, (Except.ok.inj hp).symm⟩
  | some live =>
    dsimp only at hp
    split_ifs at hp with hlive
    · exact .inl ⟨live, rfl, (Except.ok.inj hp).symm⟩
    · refine .inr ⟨?_, (Except.ok.inj hp).symm⟩
      intro live' he hl hd
      cases he
      exact hlive ⟨hl, hd⟩

variable {hold : UInt64} {p : Plan Unit}

theorem renew_ok (h : renew env agent hold d = .ok p) :
    ∃ holder, d.holder = .full holder ∧ d.cleanup = none ∧ holder.agent = agent ∧
      p.1 = [.truncateHolder, .writeHolder (holder.renewed env hold)] := by
  rw [renew, bind_eq_ok] at h
  obtain ⟨holder, hread, h⟩ := h
  cases holder with
  | none => cases h
  | some holder =>
    simp only [andThen_eq_ok, reject_eq_ok, ne_eq, not_not] at h
    obtain ⟨hclean, hagent, -, hp⟩ := h
    cases hp
    exact ⟨holder, readHolder_some hread, requireNoCleanup_ok hclean, hagent, rfl⟩

theorem release_ok {p : Plan (Bool × Option String)} (h : release env agent d = .ok p) :
    d.cleanup = none ∧ ((d.holder = .absent ∧ p.1 = [.removeOwner]) ∨
      ∃ holder, d.holder = .full holder ∧ holder.agent = agent ∧
        p.1 = [.removeHolder, .removeOwner, .renameQueue (withdraw agent d.queue)]) := by
  simp only [release, bind_eq_ok] at h
  obtain ⟨holder, hread, ⟨⟩, hclean, h⟩ := h
  refine ⟨requireNoCleanup_ok hclean, ?_⟩
  cases holder with
  | none =>
    cases h
    exact .inl ⟨readHolder_none hread, rfl⟩
  | some holder =>
    simp only [andThen_eq_ok, reject_eq_ok, ne_eq, not_not] at h
    obtain ⟨hagent, -, hp⟩ := h
    cases hp
    exact .inr ⟨holder, readHolder_some hread, hagent, rfl⟩

theorem requireDeadOwner_ok {reason : DeathReason} (h : requireDeadOwner env d = .ok reason) :
    ownerLiveness env d = .ok (.dead reason) := by
  rw [requireDeadOwner, bind_eq_ok] at h
  obtain ⟨liveness, hl, h⟩ := h
  cases liveness with
  | dead reason' =>
    cases h
    exact hl
  | alive | unknown => cases h

theorem verdict_of_requireRecoverable
    (h : requireRecoverable (cleanupVerification env d (some holder)) = .ok ())
    (hc : d.cleanup = some record) : Verdict env record (.recoverable record) := by
  cases hv : cleanupVerification env d (some holder) with
  | none =>
    rw [cleanup_eq_none hv] at hc
    cases hc
  | recoverable r =>
    obtain ⟨record', hc', hverdict⟩ := verification_bound hv nofun
    cases hc.symm.trans hc'
    obtain rfl := hverdict.eq_of_recoverable
    exact hverdict
  | _ =>
    rw [hv] at h
    cases h

theorem reclaimDead_ok {p : Plan (Option (String × String × DeathReason))}
    (h : reclaimDead env d = .ok p) :
    (d.holder = .absent ∧ d.cleanup = none ∧ p.1 = [.removeOwner]) ∨
      ∃ holder reason, d.holder = .full holder ∧ ownerLiveness env d = .ok (.dead reason) ∧
        (∀ record, d.cleanup = some record → Verdict env record (.recoverable record)) ∧
        p.1 = [.removeHolder, .removeOwner, .removeCleanup, .clearClaim] := by
  rw [reclaimDead, bind_eq_ok] at h
  obtain ⟨holder, hread, h⟩ := h
  cases holder with
  | none =>
    cases hv : cleanupVerification env d none with
    | none =>
      rw [hv] at h
      cases h
      exact .inl ⟨readHolder_none hread, cleanup_eq_none hv, rfl⟩
    | _ =>
      rw [hv] at h
      cases h
  | some holder =>
    simp only [bind_eq_ok] at h
    obtain ⟨⟨⟩, hrec, reason, hdead, hp⟩ := h
    cases hp
    exact .inr ⟨holder, reason, readHolder_some hread, requireDeadOwner_ok hdead,
      fun record => verdict_of_requireRecoverable hrec, rfl⟩

theorem currentBootId_ok {bootId : BootId} (h : currentBootId env = .ok bootId) :
    env.bootId = some bootId := by
  rw [currentBootId] at h
  cases hb : env.bootId with
  | none =>
    rw [hb] at h
    cases h
  | some b =>
    rw [hb] at h
    cases h
    rfl

theorem writeCurrentProcessOwner_ok (h : writeCurrentProcessOwner env = .ok p) :
    ∃ bootId, env.bootId = some bootId ∧
      p.1 = [.truncateOwner, .writeOwner ⟨env.host, bootId, env.self⟩] := by
  simp only [writeCurrentProcessOwner, currentProcessOwner, bind_eq_ok] at h
  obtain ⟨owner, ⟨bootId, hboot, howner⟩, hp⟩ := h
  cases howner
  cases hp
  exact ⟨bootId, currentBootId_ok hboot, rfl⟩

theorem holderOf_ok (h : holderOf agent pr d = .ok holder) :
    d.holder = .full holder ∧ holder.agent = agent ∧ holder.pr = pr := by
  rw [holderOf, bind_eq_ok] at h
  obtain ⟨found, hread, h⟩ := h
  cases found with
  | none => cases h
  | some found =>
    simp only [andThen_eq_ok, reject_eq_ok, not_or, ne_eq, not_not] at h
    obtain ⟨hbind, hp⟩ := h
    cases hp
    exact ⟨readHolder_some hread, hbind⟩

theorem armRun_ok (h : armRun env agent pr d = .ok p) :
    ∃ bootId holder, env.bootId = some bootId ∧ env.host ≠ "unknown" ∧
      d.holder = .full holder ∧ holder.agent = agent ∧ holder.pr = pr ∧ d.cleanup = none ∧
      p.1 = [.renameCleanup ⟨agent, operationOf pr, env.host, bootId, .armed, none⟩,
        .registerClaim] := by
  simp only [armRun, CleanupRecord.new, bind_eq_ok] at h
  obtain ⟨record, ⟨⟨⟩, hhost, bootId, hboot, hrecord⟩, holder, hholder, ⟨⟩, hclean, hp⟩ := h
  cases hrecord
  cases hp
  obtain ⟨hfull, hagent, hpr⟩ := holderOf_ok hholder
  exact ⟨bootId, holder, currentBootId_ok hboot, reject_eq_ok.mp hhost, hfull, hagent, hpr,
    requireNoCleanup_ok hclean, rfl⟩

theorem transitionAuthority_ok (h : transitionAuthority v = .ok record) : v ≠ .none := by
  rintro rfl
  cases h

theorem Verdict.authority (hv : Verdict env record v) (h : transitionAuthority v = .ok record') :
    record' = record := by
  cases hv with
  | unknown => cases h
  | _ =>
    cases h
    rfl

theorem transitionRunCleanup_ok {expected : CleanupPhase → Bool} {next : CleanupPhase}
    {cgroup : Option String}
    (h : transitionRunCleanup env agent pr expected next cgroup d = .ok p) :
    ∃ record, d.cleanup = some record ∧
      p.1 = [.renameCleanup { record with phase := next, cgroup := cgroup.or record.cgroup }] := by
  simp only [transitionRunCleanup, bind_eq_ok] at h
  obtain ⟨holder, -, record, hauth, -, -, hp⟩ := h
  obtain ⟨record', hc, hverdict⟩ := verification_bound rfl (transitionAuthority_ok hauth)
  cases hverdict.authority hauth
  cases hp
  exact ⟨record, hc, rfl⟩

theorem clearUnstartedRun_ok (h : clearUnstartedRun env agent pr d = .ok p) :
    p.1 = [.removeCleanup, .clearClaim] := by
  rw [clearUnstartedRun, bind_eq_ok] at h
  obtain ⟨holder, -, h⟩ := h
  cases hv : cleanupVerification env d (some holder) with
  | armed r =>
    rw [hv] at h
    simp only [bind_eq_ok] at h
    obtain ⟨-, -, hp⟩ := h
    cases hp
    rfl
  | _ =>
    rw [hv] at h
    cases h

theorem clearProvenRun_ok (h : clearProvenRun env d = .ok p) :
    p.1 = [.removeCleanup, .clearClaim] := by
  rw [clearProvenRun, bind_eq_ok] at h
  obtain ⟨holder, -, h⟩ := h
  cases holder with
  | none => cases h
  | some holder =>
    cases hv : cleanupVerification env d (some holder) with
    | recoverable r =>
      simp only [hv] at h
      cases h
      rfl
    | _ =>
      simp only [hv] at h
      cases h

theorem renewRunLease_ok (h : renewRunLease env agent pr hold d = .ok p) :
    ∃ holder, d.holder = .full holder ∧ holder.agent = agent ∧
      p.1 = [.truncateHolder, .writeHolder (holder.renewed env hold)] := by
  rw [renewRunLease, bind_eq_ok] at h
  obtain ⟨holder, hread, h⟩ := h
  cases holder with
  | none => cases h
  | some holder =>
    simp only [andThen_eq_ok, reject_eq_ok, not_or, ne_eq, not_not] at h
    obtain ⟨⟨hagent, -⟩, h⟩ := h
    cases hv : cleanupVerification env d (some holder) with
    | active r =>
      rw [hv] at h
      simp only [bind_eq_ok] at h
      obtain ⟨⟨⟩, -, ⟨⟩, -, hp⟩ := h
      cases hp
      exact ⟨holder, readHolder_some hread, hagent, rfl⟩
    | _ =>
      rw [hv] at h
      cases h

variable {domain : DomainEvidence}

theorem censusDisposition_ok {args : CensusArgs} (h : censusDisposition domain args = .ok ()) :
    domain = .provenEmpty ∨ args.attestDomainEmpty = true := by
  cases domain with
  | provenEmpty => exact .inl rfl
  | _ =>
    rw [censusDisposition, reject_eq_ok, not_or, Bool.not_eq_false] at h
    exact .inr h.1

theorem censusOrphanedDomain_ok {args : CensusArgs}
    (h : censusOrphanedDomain env args domain d = .ok p) :
    ∃ record pgid reason, d.cleanup = some record ∧ ownerLiveness env d = .ok (.dead reason) ∧
      (domain = .provenEmpty ∨ args.attestDomainEmpty = true) ∧
      p.1 = [.renameCleanup { record with phase := .residual pgid true [] }] := by
  rw [censusOrphanedDomain, bind_eq_ok] at h
  obtain ⟨holder, hread, h⟩ := h
  cases holder with
  | none => cases h
  | some holder =>
    simp only [bind_eq_ok] at h
    obtain ⟨record, hauth, published, -, ⟨⟩, -, reason, hdead, ⟨⟩, -, ⟨⟩, -, ⟨⟩, hdomain, hp⟩ := h
    cases hp
    cases hv : cleanupVerification env d (some holder) with
    | uncensused r =>
      rw [hv] at hauth
      cases hauth
      obtain ⟨record', hc, hverdict⟩ := verification_bound hv (by simp)
      cases hverdict
      exact ⟨record, published.2, reason, hc, requireDeadOwner_ok hdead,
        censusDisposition_ok hdomain, rfl⟩
    | _ =>
      rw [hv] at hauth
      cases hauth

end DevHermit.Landing
