import DevHermit.Landing.Processes

namespace DevHermit.Landing

open Lib Process

def Pc.guarded : Pc → Bool
  | .takeAnchor | .checkAnchor | .checkClaims | .spawn | .token _ | .supervise _ | .capture _
  | .leaving => false
  | .poll | .timeOut | .single | .writeOwner | .abandon | .arm | .clearUnstarted | .publish _
  | .beginCensus _ | .record _ _ _ | .prove _ | .clear | .finish => true

def Pc.target : Pc → Option CleanupPhase
  | .publish leader => some (.published leader leader.pid)
  | .beginCensus leader => some (.censusPending leader leader.pid)
  | .record pgid complete residuals => some (.residual pgid complete residuals)
  | .prove pgid => some (.residual pgid true [])
  | .takeAnchor | .checkAnchor | .checkClaims | .poll | .timeOut | .single | .writeOwner
  | .abandon | .arm | .spawn | .clearUnstarted | .token _ | .supervise _ | .capture _ | .clear
  | .finish | .leaving => none

def Pc.releases (kind : Kind) : Pc → Prop
  | .single => kind = .release
  | .abandon | .finish => True
  | _ => False

inductive Script (proc : Process) (o : Oracle) (env : Env) (d : Disk) : Pc → Plan Reply → Prop
  | idle {pc : Pc} (hpc : pc.guarded = false) : Script proc o env d pc ([], .done)
  | nothing (hkind : proc.kind = .acquire ∨ proc.kind = .run) :
      Script proc o env d .single ([], .done)
  | waits {queue : List QueueEntry} (hclean : d.cleanup = none) :
      Script proc o env d .poll ([.renameQueue queue], .waiting)
  | grants {holder : Option LockState} {new : LockState} {queue : List QueueEntry}
      (hclean : d.cleanup = none) (hread : d.readHolder = .ok holder)
      (hdead : ∀ live, holder = some live → live.liveAt env.now →
        ∃ reason, ownerLiveness env d = .ok (.dead reason)) :
      Script proc o env d .poll
        ([.truncateHolder, .writeHolder new, .removeOwner, .renameQueue queue], .done)
  | timesOut {queue : List QueueEntry} : Script proc o env d .timeOut ([.renameQueue queue], .done)
  | renews {holder : LockState} (hkind : proc.kind = .renew) (hclean : d.cleanup = none)
      (hholder : d.holder = .full holder) (hagent : holder.agent = proc.args.agent) :
      Script proc o env d .single
        ([.truncateHolder, .writeHolder (holder.renewed env proc.args.hold)], .done)
  | vacates {pc : Pc} (hpc : pc.releases proc.kind) (hclean : d.cleanup = none)
      (hholder : d.holder = .absent) : Script proc o env d pc ([.removeOwner], .done)
  | releases {pc : Pc} {holder : LockState} {queue : List QueueEntry}
      (hpc : pc.releases proc.kind) (hclean : d.cleanup = none)
      (hholder : d.holder = .full holder) (hagent : holder.agent = proc.args.agent) :
      Script proc o env d pc ([.removeHolder, .removeOwner, .renameQueue queue], .done)
  | sweeps (hkind : proc.kind = .reclaimDead) (hclean : d.cleanup = none)
      (hholder : d.holder = .absent) : Script proc o env d .single ([.removeOwner], .done)
  | reclaims {holder : LockState} {reason : DeathReason} (hkind : proc.kind = .reclaimDead)
      (hholder : d.holder = .full holder) (hdead : ownerLiveness env d = .ok (.dead reason))
      (hverdict : ∀ record, d.cleanup = some record →
        Verdict env record (.recoverable record)) :
      Script proc o env d .single
        ([.removeHolder, .removeOwner, .removeCleanup, .clearClaim], .done)
  | censuses {args : CensusArgs} {record : CleanupRecord} {pgid : Nat} {reason : DeathReason}
      (hkind : proc.kind = .census args) (hrecord : d.cleanup = some record)
      (hdead : ownerLiveness env d = .ok (.dead reason))
      (hdomain : args.vouches o = true) :
      Script proc o env d .single
        ([.renameCleanup { record with phase := .residual pgid true [] }], .done)
  | writesOwner {bootId : BootId} (hboot : env.bootId = some bootId) :
      Script proc o env d .writeOwner
        ([.truncateOwner, .writeOwner ⟨env.host, bootId, env.self⟩], .done)
  | arms {bootId : BootId} {holder : LockState} (hboot : env.bootId = some bootId)
      (hhost : env.host ≠ "unknown") (hclean : d.cleanup = none)
      (hholder : d.holder = .full holder) (hagent : holder.agent = proc.args.agent)
      (hpr : holder.pr = proc.args.pr) :
      Script proc o env d .arm
        ([.renameCleanup ⟨proc.args.agent, operationOf proc.args.pr, env.host, bootId, .armed,
          none⟩, .registerClaim], .done)
  | clearsUnstarted : Script proc o env d .clearUnstarted ([.removeCleanup, .clearClaim], .done)
  | transitions {pc : Pc} {record : CleanupRecord} {phase : CleanupPhase}
      {cgroup : Option String} (htarget : pc.target = some phase)
      (hrecord : d.cleanup = some record) :
      Script proc o env d pc
        ([.renameCleanup { record with phase := phase, cgroup := cgroup }], .done)
  | clears : Script proc o env d .clear ([.removeCleanup, .clearClaim], .done)

section

variable {proc : Process} {o : Oracle} {env : Env} {d : Disk} {pl : Plan Reply}

theorem deadOwner_some {live : LockState} {dead : Option DeathReason}
    (h : deadOwner env d (some live) = .ok dead) (hlive : live.liveAt env.now)
    (hd : dead ≠ none) : ∃ reason, ownerLiveness env d = .ok (.dead reason) := by
  rw [deadOwner, if_pos hlive, bind_eq_ok] at h
  obtain ⟨liveness, hl, h⟩ := h
  cases liveness with
  | dead reason => exact ⟨reason, hl⟩
  | alive | unknown =>
    cases h
    exact absurd rfl hd

theorem script_poll {token : AcquireToken} {ops : List FsOp}
    (h : tryAcquire env proc.args d = .ok (ops, token)) :
    Script proc o env d .poll (ops, token.reply) := by
  obtain ⟨holder, dead, hread, hclean, hdead, ⟨live, -, hp⟩ | ⟨hlive, hp⟩⟩ := tryAcquire_ok h
  · cases hp
    exact .waits hclean
  · rcases takeTurn_cases env proc.args holder dead
      (prune env.now (enqueue env.now proc.args d.queue)) with ⟨head, -, -, ht⟩ | ⟨-, ht⟩
    · cases hp.trans ht
      exact .waits hclean
    · cases hp.trans ht
      have hr : ∀ reclaimed, (grantToken reclaimed).reply = .done := by
        intro reclaimed
        cases reclaimed with
        | none => rfl
        | some previous =>
          rw [grantToken.eq_def]
          dsimp only
          split_ifs
          · rfl
          · rfl
      rw [hr]
      refine .grants hclean hread ?_
      rintro live rfl hl
      exact deadOwner_some hdead hl (hlive live rfl hl)

theorem script_release {pc : Pc} (hpc : pc.releases proc.kind)
    (h : settled (release env proc.args.agent d) = .ok pl) : Script proc o env d pc pl := by
  obtain ⟨r, hr, hp⟩ := bind_eq_ok.mp h
  cases hp
  obtain ⟨hclean, ⟨hholder, hops⟩ | ⟨holder, hholder, hagent, hops⟩⟩ := release_ok hr
  · rw [hops]
    exact .vacates hpc hclean hholder
  · rw [hops]
    exact .releases hpc hclean hholder hagent

theorem script_single (h : proc.single o env d = .ok pl) : Script proc o env d .single pl := by
  rw [Process.single.eq_def] at h
  cases hk : proc.kind with
  | acquire =>
    rw [hk] at h
    cases h
    exact .nothing (.inl hk)
  | run =>
    rw [hk] at h
    cases h
    exact .nothing (.inr hk)
  | renew =>
    rw [hk] at h
    obtain ⟨r, hr, hp⟩ := bind_eq_ok.mp h
    cases hp
    obtain ⟨holder, hholder, hclean, hagent, hops⟩ := renew_ok hr
    rw [hops]
    exact .renews hk hclean hholder hagent
  | release =>
    rw [hk] at h
    exact script_release hk h
  | reclaimDead =>
    rw [hk] at h
    obtain ⟨r, hr, hp⟩ := bind_eq_ok.mp h
    cases hp
    rcases reclaimDead_ok hr with ⟨hholder, hclean, hops⟩ |
      ⟨holder, reason, hholder, hdead, hverdict, hops⟩
    · rw [hops]
      exact .sweeps hk hclean hholder
    · rw [hops]
      exact .reclaims hk hholder hdead hverdict
  | census args =>
    rw [hk] at h
    obtain ⟨r, hr, hp⟩ := bind_eq_ok.mp h
    cases hp
    obtain ⟨record, pgid, reason, hrecord, hdead, hdomain, hops⟩ := censusOrphanedDomain_ok hr
    rw [hops]
    refine .censuses hk hrecord hdead ?_
    rw [CensusArgs.vouches, Bool.or_eq_true, beq_iff_eq]
    exact hdomain

theorem script_transition {pc : Pc} {expected : CleanupPhase → Bool} {phase : CleanupPhase}
    {cgroup : Option String} (htarget : pc.target = some phase)
    (h : settled (transitionRunCleanup env proc.args.agent proc.args.pr expected phase cgroup d) =
      .ok pl) : Script proc o env d pc pl := by
  obtain ⟨r, hr, hp⟩ := bind_eq_ok.mp h
  cases hp
  obtain ⟨record, hrecord, hops⟩ := transitionRunCleanup_ok hr
  rw [hops]
  exact .transitions htarget hrecord

theorem script (h : proc.plan o env d = .ok pl) : Script proc o env d proc.pc pl := by
  cases hpc : proc.pc with
  | poll =>
    simp only [plan, hpc, bind_eq_ok] at h
    obtain ⟨r, hr, hp⟩ := h
    cases hp
    exact script_poll hr
  | timeOut =>
    simp only [plan, hpc] at h
    cases h
    exact .timesOut
  | single =>
    simp only [plan, hpc] at h
    exact script_single h
  | writeOwner =>
    simp only [plan, hpc] at h
    obtain ⟨r, hr, hp⟩ := bind_eq_ok.mp h
    cases hp
    obtain ⟨bootId, hboot, hops⟩ := writeCurrentProcessOwner_ok hr
    rw [hops]
    exact .writesOwner hboot
  | abandon | finish =>
    simp only [plan, hpc] at h
    exact script_release trivial h
  | arm =>
    simp only [plan, hpc] at h
    obtain ⟨r, hr, hp⟩ := bind_eq_ok.mp h
    cases hp
    obtain ⟨bootId, holder, hboot, hhost, hholder, hagent, hpr, hclean, hops⟩ := armRun_ok hr
    rw [hops]
    exact .arms hboot hhost hclean hholder hagent hpr
  | clearUnstarted =>
    simp only [plan, hpc] at h
    obtain ⟨r, hr, hp⟩ := bind_eq_ok.mp h
    cases hp
    rw [clearUnstartedRun_ok hr]
    exact .clearsUnstarted
  | publish leader | beginCensus leader | record pgid complete residuals | prove pgid =>
    simp only [plan, hpc] at h
    exact script_transition rfl h
  | clear =>
    simp only [plan, hpc] at h
    obtain ⟨r, hr, hp⟩ := bind_eq_ok.mp h
    cases hp
    rw [clearProvenRun_ok hr]
    exact .clears
  | _ =>
    simp only [plan, hpc] at h
    cases h
    exact .idle rfl

end

variable {P : Type} (s : State P) (proc : Process) (o : Oracle)

theorem State.turn_script : s.turn proc o = ([], none) ∨
      ∃ pl, Script proc o (s.env o proc.self) s.disk proc.pc pl ∧
        (o.cut = none ∧ s.turn proc o = (pl.1, some pl.2) ∨
          ∃ k, o.cut = some k ∧ s.turn proc o = (pl.1.take k, none)) := by
  rw [State.turn, Oracle.settle.eq_def]
  cases hplan : proc.plan o (s.env o proc.self) s.disk with
  | error e => exact .inl rfl
  | ok pl =>
    refine .inr ⟨pl, script hplan, ?_⟩
    cases hcut : o.cut with
    | none => exact .inl ⟨rfl, rfl⟩
    | some k => exact .inr ⟨k, rfl, rfl⟩

theorem State.turn_cases : s.turn proc o = ([], none) ∨
      ∃ pl, Script proc o (s.env o proc.self) s.disk proc.pc pl ∧ (s.turn proc o).1 <+: pl.1 ∧
        ((s.turn proc o).2 ≠ none → s.turn proc o = (pl.1, some pl.2)) := by
  rcases s.turn_script proc o with ht | ⟨pl, hscript, ⟨-, ht⟩ | ⟨k, -, ht⟩⟩
  · exact .inl ht
  · exact .inr ⟨pl, hscript, by rw [ht], fun _ => ht⟩
  · refine .inr ⟨pl, hscript, ?_, fun hne => absurd (by rw [ht]) hne⟩
    rw [ht]
    exact List.take_prefix k pl.1

end DevHermit.Landing
