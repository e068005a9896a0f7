import DevHermit.Landing.Lease
import DevHermit.Landing.Queue

namespace DevHermit.Landing

open Lib List

def FsOp.harmless : FsOp → Bool
  | .writeHolder _ | .writeOwner _ | .renameCleanup _ => false
  | _ => true

structure Sane (host : String) (boot : BootId) (d : Disk) : Prop where
  record : ∀ record, d.cleanup = some record →
    record.bootId ≤ boot ∧ record.host = host ∧ host ≠ "unknown"
  bound : ∀ record holder, d.cleanup = some record → d.holder = .full holder →
    record.agent = holder.agent ∧ record.operation = operationOf holder.pr
  owner : ∀ owner, d.owner = .full owner → owner.bootId ≤ boot

section

variable {host : String} {boot : BootId} {d d' : Disk}

theorem Sane.mono (h : Sane host boot d) {later : BootId} (hle : boot ≤ later) :
    Sane host later d where
  record := fun record hr => ⟨(h.record record hr).1.trans hle, (h.record record hr).2⟩
  bound := h.bound
  owner := fun owner ho => (h.owner owner ho).trans hle

theorem Sane.of_none (hclean : d.cleanup = none)
    (howner : ∀ owner, d.owner = .full owner → owner.bootId ≤ boot) : Sane host boot d where
  record := by
    intro record hr
    cases hclean.symm.trans hr
  bound := by
    intro record holder hr
    cases hclean.symm.trans hr
  owner := howner

theorem Sane.apply (h : Sane host boot d) {op : FsOp} (hop : op.harmless = true) :
    Sane host boot (op.apply d) := by
  cases op with
  | truncateHolder => exact ⟨h.record, by rintro record holder - ⟨⟩, h.owner⟩
  | removeHolder => exact ⟨h.record, by rintro record holder - ⟨⟩, h.owner⟩
  | truncateOwner => exact ⟨h.record, h.bound, nofun⟩
  | removeOwner => exact ⟨h.record, h.bound, nofun⟩
  | removeCleanup => exact .of_none rfl h.owner
  | registerClaim | clearClaim | renameQueue => exact ⟨h.record, h.bound, h.owner⟩
  | _ => cases hop

variable {ops : List FsOp}

theorem Sane.perform (hops : ∀ op ∈ ops, op.harmless = true) (h : Sane host boot d) :
    Sane host boot (d.perform ops) := by
  induction ops generalizing d with
  | nil => exact h
  | cons op ops ih =>
    exact ih (fun op hop => hops op (mem_cons_of_mem _ hop)) (h.apply (hops op mem_cons_self))

theorem perform_holder (h : ∀ op ∈ ops, op.touchesHolder = false) (d : Disk) :
    (d.perform ops).holder = d.holder := by
  induction ops generalizing d with
  | nil => rfl
  | cons op ops ih =>
    have hop := h op mem_cons_self
    refine (ih (fun op hmem => h op (mem_cons_of_mem _ hmem)) (op.apply d)).trans ?_
    cases op with
    | truncateHolder | writeHolder | removeHolder => cases hop
    | _ => rfl

section

variable (h : Sane host boot d)
include h

theorem Sane.owner_of (howner : d'.owner = d.owner ∨ d'.owner = .absent) (owner : ProcessOwner)
    (hfile : d'.owner = .full owner) : owner.bootId ≤ boot := by
  rcases howner with he | he
  · exact h.owner owner (he.symm.trans hfile)
  · cases he.symm.trans hfile

theorem Sane.unrecorded (hclean : d.cleanup = none)
    (hcleanup : ∀ op ∈ ops, op.sparesCleanup = true) (howner : ∀ op ∈ ops, op.sparesOwner = true) :
    Sane host boot (d.perform ops) :=
  .of_none ((perform_cleanup hcleanup d).trans hclean) (h.owner_of (perform_owner howner d))

theorem Sane.recorded {rest : List FsOp} {record : CleanupRecord}
    (hpre : ops <+: .renameCleanup record :: rest) (hrest : ∀ op ∈ rest, op = .registerClaim)
    (hrecord : record.bootId ≤ boot ∧ record.host = host ∧ host ≠ "unknown")
    (hbound : ∀ holder, d.holder = .full holder →
      record.agent = holder.agent ∧ record.operation = operationOf holder.pr) :
    Sane host boot (d.perform ops) := by
  by_cases hne : ops = []
  · rw [hne]
    exact h
  have hmem : ∀ op ∈ ops, op = .renameCleanup record ∨ op = .registerClaim := by
    intro op hop
    rcases mem_cons.mp (hpre.subset hop) with he | hr
    · exact .inl he
    · exact .inr (hrest op hr)
  have hcleanup : (d.perform ops).cleanup = some record := by
    refine perform_first hpre hne (fun op hop => ?_) d
    rw [hrest op hop]
    rfl
  have hholder : (d.perform ops).holder = d.holder := by
    refine perform_holder (fun op hop => ?_) d
    rcases hmem op hop with rfl | rfl
    · rfl
    · rfl
  have howner : (d.perform ops).owner = d.owner ∨ (d.perform ops).owner = .absent := by
    refine perform_owner (fun op hop => ?_) d
    rcases hmem op hop with rfl | rfl
    · rfl
    · rfl
  refine ⟨fun found hfound => ?_, fun found holder hfound hh => ?_, h.owner_of howner⟩
  · cases hcleanup.symm.trans hfound
    exact hrecord
  · cases hcleanup.symm.trans hfound
    exact hbound holder (hholder.symm.trans hh)

theorem Sane.ownerWritten {owner : ProcessOwner}
    (hpre : ops <+: [.truncateOwner, .writeOwner owner]) (hboot : owner.bootId ≤ boot) :
    Sane host boot (d.perform ops) := by
  rcases ops with - | ⟨op, ops⟩
  · exact h
  · obtain ⟨rfl, htail⟩ := cons_prefix_cons.mp hpre
    rcases ops with - | ⟨op, ops⟩
    · exact ⟨h.record, h.bound, nofun⟩
    · obtain ⟨rfl, hnil⟩ := cons_prefix_cons.mp htail
      cases prefix_nil.mp hnil
      refine ⟨h.record, h.bound, fun found hfound => ?_⟩
      cases hfound
      exact hboot

theorem Sane.holderWritten {new : LockState} (hpre : ops <+: [.truncateHolder, .writeHolder new])
    (hbound : ∀ record, d.cleanup = some record →
      record.agent = new.agent ∧ record.operation = operationOf new.pr) :
    Sane host boot (d.perform ops) := by
  rcases ops with - | ⟨op, ops⟩
  · exact h
  · obtain ⟨rfl, htail⟩ := cons_prefix_cons.mp hpre
    rcases ops with - | ⟨op, ops⟩
    · exact ⟨h.record, by rintro record holder - ⟨⟩, h.owner⟩
    · obtain ⟨rfl, hnil⟩ := cons_prefix_cons.mp htail
      cases prefix_nil.mp hnil
      refine ⟨h.record, fun record holder hr hh => ?_, h.owner⟩
      cases hh
      exact hbound record hr

theorem Sane.script {proc : Process} {o : Oracle} {env : Env} {pl : Plan Reply} {pc : Pc}
    (hscript : Script proc o env d pc pl) (hpre : ops <+: pl.1)
    (hhost : env.host ≠ "unknown" → env.host = host) (hboot : ∀ b, env.bootId = some b → b ≤ boot) :
    Sane host boot (d.perform ops) := by
  cases hscript with
  | grants hclean | renews hkind hclean =>
    refine h.unrecorded hclean (fun op hop => ?_) fun op hop => ?_
    · exact List.all_eq_true.mp rfl op (hpre.subset hop)
    · exact List.all_eq_true.mp rfl op (hpre.subset hop)
  | writesOwner hb => exact h.ownerWritten hpre (hboot _ hb)
  | arms hb hunknown hclean hholder hagent hpr =>
    refine h.recorded hpre ?_ ⟨hboot _ hb, hhost hunknown, ?_⟩ ?_
    · intro op hop
      exact mem_singleton.mp hop
    · rw [← hhost hunknown]
      exact hunknown
    · intro holder hfound
      cases hholder.symm.trans hfound
      exact ⟨hagent.symm, congrArg operationOf hpr.symm⟩
  | censuses hkind hrecord | transitions htarget hrecord =>
    have hsame := h.record _ hrecord
    exact h.recorded hpre (by simp) hsame fun holder hh => (h.bound _ holder hrecord hh : _ ∧ _)
  | _ => exact h.perform fun op hop => List.all_eq_true.mp rfl op (hpre.subset hop)

end

end

section

variable {P : Type} {s s' : State P} {p : P} {proc : Process} {o : Oracle}

theorem env_host {self : ProcessIdentity} (h : (s.env o self).host ≠ "unknown") :
    (s.env o self).host = s.host := by
  have hh : (s.env o self).host = if o.named then s.host else "unknown" := rfl
  rw [hh] at h ⊢
  split_ifs at h ⊢
  · rfl
  · exact absurd rfl h

theorem Sane.beat (h : Sane s.host s.boot s.disk) : Sane s.host s.boot (s.beat proc o).disk := by
  by_cases hne : s.pulse proc o = []
  · rw [State.beat, hne]
    exact h
  · obtain ⟨holder, hholder, -, hpre⟩ := pulse_prefix hne
    exact h.holderWritten hpre fun record hr => h.bound record holder hr hholder

theorem Sane.step [DecidableEq P] {e : Event P} (h : Sane s.host s.boot s.disk)
    (hm : Moved s e s') : s'.host = s.host ∧ Sane s'.host s'.boot s'.disk := by
  cases hm with
  | reboot => exact ⟨rfl, h.mono (Nat.le_succ s.boot)⟩
  | beat => exact ⟨rfl, h.beat⟩
  | @act p o proc hp ha hadm =>
    refine ⟨rfl, ?_⟩
    rcases s.turn_cases proc o with ht | ⟨pl, hscript, hpre, -⟩
    · rw [State.act, ht]
      exact h
    · exact h.script hscript hpre env_host fun b hb => (env_bootId hb).le
  | _ => exact ⟨rfl, h⟩

theorem Sane.reachable [DecidableEq P] {host : String} (hs : (landing P host).Reachable s) :
    Sane host s.boot s.disk := by
  have hinv : s.host = host ∧ Sane s.host s.boot s.disk := by
    refine hs.invariant (I := fun s => s.host = host ∧ Sane s.host s.boot s.disk)
      ⟨rfl, .of_none rfl nofun⟩ fun s e s' hi _ he => ?_
    obtain ⟨hhost, hsane⟩ := hi.2.step (moved he)
    exact ⟨hhost.trans hi.1, hsane⟩
  exact hinv.1 ▸ hinv.2

end

def recover (env env' : Env) (args : AcquireArgs) (d : Disk) :
    Except LandLockError (Plan AcquireToken) :=
  tryAcquire env' args (Command.reclaimDead.after env d)

structure Lapsed (now : Int) (d : Disk) : Prop where
  lease : ∀ holder, d.holder = .full holder → ¬ holder.liveAt now
  queue : ∀ entry ∈ d.queue, now - entry.enqueuedAt > 3600

def Intact (host : String) (d : Disk) : Prop :=
  d.holder ≠ .blank ∧ (d.cleanup = none ∨
    ∃ holder owner, d.holder = .full holder ∧ d.owner = .full owner ∧ owner.host = host)

variable {env env' : Env} {args : AcquireArgs} {d : Disk} {host : String} {boot : BootId}

theorem head_of_lapsed (hq : ∀ entry ∈ d.queue, env.now - entry.enqueuedAt > 3600)
    (head : QueueEntry) (hh : (prune env.now (enqueue env.now args d.queue)).head? = some head) :
    head.agent = args.agent := by
  obtain ⟨hmem, hrecent⟩ := mem_filter.mp (mem_of_mem_head? (Option.mem_def.mpr hh))
  have hnot : head ∉ d.queue := by
    intro hin
    have hold := hq head hin
    rw [decide_eq_true_eq, defaultWaitSeconds] at hrecent
    omega
  rw [enqueue] at hmem
  split_ifs at hmem
  · exact absurd hmem hnot
  · rcases mem_append.mp hmem with hin | hnew
    · exact absurd hin hnot
    · rw [mem_singleton.mp hnew]

theorem tryAcquire_free {holder : Option LockState} (hread : d.readHolder = .ok holder)
    (hclean : d.cleanup = none) (hlease : ∀ live, holder = some live → ¬ live.liveAt env.now) :
    tryAcquire env args d =
      .ok (takeTurn env args holder none (prune env.now (enqueue env.now args d.queue))) := by
  have hreq : requireNoCleanup env d holder = .ok () := by
    rw [requireNoCleanup, cleanupVerification, hclean]
  have hdead : deadOwner env d holder = .ok none := by
    cases holder with
    | none => rfl
    | some live =>
      rw [deadOwner, if_neg (hlease live rfl)]
      rfl
  refine bind_eq_ok.mpr ⟨holder, hread, bind_eq_ok.mpr ⟨(), hreq, bind_eq_ok.mpr ⟨none, hdead, ?_⟩⟩⟩
  cases holder with
  | none => rfl
  | some live => exact if_neg fun hl => hlease live rfl hl.1

theorem tryAcquire_lapsed (hclean : d.cleanup = none) (hblank : d.holder ≠ .blank)
    (hlapsed : Lapsed env.now d) : ∃ pl, tryAcquire env args d = .ok pl ∧ pl.2.Granted := by
  obtain ⟨holder, hread, hlease⟩ : ∃ holder, d.readHolder = .ok holder ∧
      ∀ live, holder = some live → ¬ live.liveAt env.now := by
    rw [Disk.readHolder]
    cases hd : d.holder with
    | absent => exact ⟨none, rfl, by simp⟩
    | blank => exact absurd hd hblank
    | full holder =>
      refine ⟨some holder, rfl, ?_⟩
      rintro live ⟨⟩
      exact hlapsed.lease _ hd
  refine ⟨_, tryAcquire_free hread hclean hlease, ?_⟩
  rcases takeTurn_cases env args holder none (prune env.now (enqueue env.now args d.queue)) with
    ⟨head, hh, hne, -⟩ | ⟨-, ht⟩
  · exact absurd (head_of_lapsed hlapsed.queue head hh) hne
  · rw [ht]
    exact grantToken_granted _

theorem after_reclaimDead (env : Env) (d : Disk) : Command.reclaimDead.after env d = d ∨
      (d.holder = .absent ∧ d.cleanup = none ∧
        Command.reclaimDead.after env d = { d with owner := .absent }) ∨
      (∃ holder owner, d.holder = .full holder ∧ d.owner = .full owner ∧ owner.host = env.host ∧
        Command.reclaimDead.after env d = ⟨.absent, .absent, none, false, d.queue⟩) := by
  rw [Command.after]
  cases hplan : Command.reclaimDead.plan env d with
  | error e => exact .inl rfl
  | ok pl =>
    obtain ⟨r, hr, hp⟩ := bind_eq_ok.mp hplan
    cases hp
    rcases reclaimDead_ok hr with ⟨hholder, hclean, hops⟩ |
      ⟨holder, reason, hholder, hdead, -, hops⟩
    · refine .inr (.inl ⟨hholder, hclean, ?_⟩)
      dsimp only
      rw [hops]
      rfl
    · obtain ⟨owner, -, hfile, hhost, -⟩ := ownerLiveness_dead hdead
      refine .inr (.inr ⟨holder, owner, hholder, hfile, hhost, ?_⟩)
      dsimp only
      rw [hops]
      rfl

theorem Sane.reclaimed (h : Sane host boot d) {record : CleanupRecord} {holder : LockState}
    {owner : ProcessOwner} (hr : d.cleanup = some record) (hh : d.holder = .full holder)
    (ho : d.owner = .full owner) (hhost : owner.host = host) (henv : env.host = host)
    (hboot : env.bootId = some (boot + 1)) :
    Command.reclaimDead.after env d = ⟨.absent, .absent, none, false, d.queue⟩ := by
  obtain ⟨hold, hrhost, hknown⟩ := h.record record hr
  obtain ⟨hagent, hop⟩ := h.bound record holder hr hh
  have hrecord : record.bootId ≠ boot + 1 := Nat.ne_of_lt (Nat.lt_succ_of_le hold)
  have howner : owner.bootId ≠ boot + 1 := Nat.ne_of_lt (Nat.lt_succ_of_le (h.owner owner ho))
  have hverify : cleanupVerification env d (some holder) = .recoverable record := by
    rw [cleanupVerification, hr]
    dsimp only
    rw [verifyRecord, if_neg (by simp [hagent, hop]), if_neg (by simp [henv, hknown, hrhost]),
      hboot]
    exact if_pos hrecord
  have hlive : ownerLiveness env d = .ok (.dead .rebooted) := by
    refine bind_eq_ok.mpr ⟨some owner, by rw [Disk.readProcessOwner, ho], ?_⟩
    dsimp only
    rw [if_neg (by simp [hhost, henv])]
    refine bind_eq_ok.mpr ⟨boot + 1, by rw [currentBootId, hboot], ?_⟩
    exact if_pos howner
  have hplan : reclaimDead env d = .ok ([.removeHolder, .removeOwner, .removeCleanup,
      .clearClaim], some (holder.agent, holder.pr, .rebooted)) := by
    refine bind_eq_ok.mpr ⟨some holder, by rw [Disk.readHolder, hh], ?_⟩
    refine bind_eq_ok.mpr ⟨(), by rw [hverify]; rfl, bind_eq_ok.mpr ⟨.rebooted, ?_, rfl⟩⟩
    exact bind_eq_ok.mpr ⟨.dead .rebooted, hlive, rfl⟩
  rw [Command.after, Command.plan, hplan]
  rfl

theorem recovers_unrecorded (hclean : d.cleanup = none) (hblank : d.holder ≠ .blank)
    (hlapsed : Lapsed env'.now d) : ∃ pl, recover env env' args d = .ok pl ∧ pl.2.Granted := by
  rw [recover]
  rcases after_reclaimDead env d with he | ⟨-, -, he⟩ | ⟨-, -, -, -, -, he⟩
  · rw [he]
    exact tryAcquire_lapsed hclean hblank hlapsed
  · rw [he]
    exact tryAcquire_lapsed hclean hblank ⟨hlapsed.lease, hlapsed.queue⟩
  · rw [he]
    exact tryAcquire_lapsed rfl (by simp) ⟨by simp, hlapsed.queue⟩

theorem Sane.recovers (h : Sane host boot d) (hintact : Intact host d) (henv : env.host = host)
    (hboot : env.bootId = some (boot + 1)) (hlapsed : Lapsed env'.now d) :
    ∃ pl, recover env env' args d = .ok pl ∧ pl.2.Granted := by
  obtain ⟨hblank, hintact⟩ := hintact
  cases hc : d.cleanup with
  | none => exact recovers_unrecorded hc hblank hlapsed
  | some record =>
    rcases hintact with hnone | ⟨holder, owner, hh, ho, hhost⟩
    · cases hnone.symm.trans hc
    · rw [recover, h.reclaimed hc hh ho hhost henv hboot]
      exact tryAcquire_lapsed rfl (by simp) ⟨by simp, hlapsed.queue⟩

theorem intact_of_recovers {pl : Plan AcquireToken} (h : recover env env' args d = .ok pl) :
    Intact env.host d := by
  obtain ⟨holder, -, hread, hclean, -⟩ := tryAcquire_ok h
  rcases after_reclaimDead env d with he | ⟨hh, hc, -⟩ | ⟨found, owner, hh, ho, hhost, -⟩
  · rw [he] at hread hclean
    refine ⟨fun hblank => ?_, .inl hclean⟩
    rw [Disk.readHolder, hblank] at hread
    cases hread
  · exact ⟨by rw [hh]; rintro ⟨⟩, .inl hc⟩
  · exact ⟨by rw [hh]; rintro ⟨⟩, .inr ⟨found, owner, hh, ho, hhost⟩⟩

def Event.Plain {P : Type} : Event P → Prop
  | .start _ _ args _ => args.Plain
  | _ => True

instance {P : Type} : (e : Event P) → Decidable e.Plain
  | .start _ _ args _ => inferInstanceAs (Decidable args.Plain)
  | .act _ _ | .beat _ _ | .die _ | .appear _ | .fork _ _ | .exit _ | .reboot =>
    inferInstanceAs (Decidable True)

abbrev plainly {P : Type} (_ : State P) (e : Event P) : Prop := e.Plain

theorem recovery_succeeds_iff_intact {P : Type} [DecidableEq P] {host : String} {s : State P}
    (hs : (landing P host).ReachableWhen plainly s) {env env' : Env} {args : AcquireArgs}
    (_hargs : args.Plain) (hhost : env.host = host) (hboot : env.bootId = some s.reboot.boot)
    (hlapsed : Lapsed env'.now s.reboot.disk) :
    (∃ pl, recover env env' args s.reboot.disk = .ok pl ∧ pl.2.Granted) ↔
      Intact host s.disk := by
  constructor
  · rintro ⟨pl, hpl, -⟩
    exact hhost ▸ intact_of_recovers hpl
  · exact fun hintact => (Sane.reachable (hs.mono fun _ _ _ => trivial)).recovers hintact hhost hboot hlapsed

def armedThenDead : List (Event Nat) :=
  .start 0 .run ⟨"a", "1", 60⟩ ⟨1, 5⟩ :: List.replicate 5 (.act 0 (.plain 0)) ++ [.die 0]

def armedHolder : LockState :=
  ⟨"a", ⟨none, none, none, none, none, none⟩, "1", "box", 0, 60, none⟩

def afterReboot (now : Int) : Env :=
  ⟨now, now, "box", some 1, fun _ => .missing, fun _ => .absent, ⟨1, 1⟩⟩

theorem dead_supervisor_is_recovered :
    ∃ s : State Nat, (landing Nat "box").ReachableWhen plainly s ∧ s.disk.cleanup ≠ none ∧
      ∃ pl, recover (afterReboot 70) (afterReboot 80) ⟨"b", "2", 60⟩ s.reboot.disk = .ok pl ∧
        pl.2.Granted := by
  have hrun : ((landing Nat "box").run plainly (State.init Nat "box")
      armedThenDead).map (fun s => (s.boot, s.disk)) =
      some (0, ⟨.full armedHolder, .full ⟨"box", 0, ⟨1, 5⟩⟩,
        some ⟨"a", "pr:1", "box", 0, .armed, none⟩, true, []⟩) := by
    decide +kernel
  obtain ⟨s, hs, hview⟩ := System.exists_reachable hrun
  obtain ⟨hboot, hdisk⟩ := Prod.mk.inj hview
  have hlapsed : Lapsed (afterReboot 80).now s.disk := by
    rw [hdisk]
    refine ⟨?_, nofun⟩
    rintro holder ⟨⟩
    exact (by decide : ¬ (80 : Int) < 60)
  have hnext : (afterReboot 70).bootId = some s.reboot.boot := by
    rw [State.reboot, hboot]
    rfl
  refine ⟨s, hs, by rw [hdisk]; rintro ⟨⟩, ?_⟩
  refine (recovery_succeeds_iff_intact hs (by decide +kernel) rfl hnext hlapsed).mpr
    ⟨by rw [hdisk]; rintro ⟨⟩, .inr ?_⟩
  exact ⟨armedHolder, ⟨"box", 0, ⟨1, 5⟩⟩, by rw [hdisk], by rw [hdisk], rfl⟩

theorem cleanup_record_never_unknown {P : Type} [DecidableEq P] {s : State P}
    (hs : (landing P host).ReachableWhen plainly s) (hhost : env.host = host)
    (hboot : env.bootId = some s.boot) {record : CleanupRecord} {holder : LockState}
    (hr : s.disk.cleanup = some record) (hh : s.disk.holder = .full holder) :
    cleanupVerification env s.disk (some holder) =
      if record.bootId < s.boot then .recoverable record else verifyPhase env record := by
  have hsane := Sane.reachable (hs.mono fun _ _ _ => trivial)
  obtain ⟨hle, hrhost, hknown⟩ := hsane.record record hr
  obtain ⟨hagent, hop⟩ := hsane.bound record holder hr hh
  simp [cleanupVerification, hr, verifyRecord, hagent, hop, hhost, hknown, hrhost, hboot,
    hle.lt_iff_ne]

theorem rebooted_record_is_recoverable :
    ∃ s : State Nat, (landing Nat "box").ReachableWhen plainly s ∧
    ∃ record, cleanupVerification (afterReboot 70) s.disk (some armedHolder) =
      .recoverable record := by
  have hrun : ((landing Nat "box").run plainly (State.init Nat "box")
      (armedThenDead ++ [.reboot])).map (fun s => (s.boot, s.disk.holder, s.disk.cleanup)) =
      some (1, .full armedHolder, some ⟨"a", "pr:1", "box", 0, .armed, none⟩) := by
    decide +kernel
  obtain ⟨s, hs, hview⟩ := System.exists_reachable hrun
  simp only [Prod.mk.injEq] at hview
  obtain ⟨hboot, hh, hr⟩ := hview
  have hboot' : (afterReboot 70).bootId = some s.boot := congrArg some hboot.symm
  have h := cleanup_record_never_unknown hs rfl hboot' hr hh
  rw [hboot] at h
  exact ⟨s, hs, _, h⟩

def reclaimCutShort : List (Event Nat) :=
  armedThenDead ++ [.reboot, .start 1 .reclaimDead ⟨"b", "2", 60⟩ ⟨2, 3⟩,
    .act 1 { Oracle.plain 70 with cut := some 1 }, .die 1]

theorem reclaim_killed_after_first_removal_wedges :
    ∃ s : State Nat, (landing Nat "box").Reachable s ∧
      ∀ env env' args, env.host = "box" → env.bootId = some s.reboot.boot →
        Lapsed env'.now s.reboot.disk → ∀ pl, recover env env' args s.reboot.disk ≠ .ok pl := by
  have hrun : ((landing Nat "box").run (fun _ _ => True) (State.init Nat "box")
      reclaimCutShort).map (fun s => (s.disk.holder, s.disk.cleanup)) =
      some (.absent, some ⟨"a", "pr:1", "box", 0, .armed, none⟩) := by
    decide +kernel
  obtain ⟨s, hs, hview⟩ := System.exists_reachable hrun
  obtain ⟨hholder, hclean⟩ := Prod.mk.inj hview
  refine ⟨s, hs, fun env env' args _ _ _ pl hpl => ?_⟩
  obtain ⟨-, hnone | ⟨holder, owner, hh, -⟩⟩ := intact_of_recovers hpl
  · cases hnone.symm.trans hclean
  · cases hholder.symm.trans hh

end DevHermit.Landing
