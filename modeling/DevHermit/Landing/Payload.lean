import DevHermit.Landing.Scripts

namespace DevHermit.Landing

open Lib List

def FsOp.sparesCleanup : FsOp → Bool
  | .renameCleanup _ | .removeCleanup => false
  | _ => true

def FsOp.sparesOwner : FsOp → Bool
  | .truncateOwner | .writeOwner _ => false
  | _ => true

theorem perform_cleanup {ops : List FsOp} (h : ∀ op ∈ ops, op.sparesCleanup = true) (d : Disk) :
    (d.perform ops).cleanup = d.cleanup := by
  induction ops generalizing d with
  | nil => rfl
  | cons op ops ih =>
    have hop := h op mem_cons_self
    refine (ih (fun op hmem => h op (mem_cons_of_mem _ hmem)) (op.apply d)).trans ?_
    cases op with
    | renameCleanup | removeCleanup => cases hop
    | _ => rfl

theorem perform_owner {ops : List FsOp} (h : ∀ op ∈ ops, op.sparesOwner = true) (d : Disk) :
    (d.perform ops).owner = d.owner ∨ (d.perform ops).owner = .absent := by
  induction ops generalizing d with
  | nil => exact .inl rfl
  | cons op ops ih =>
    have hop := h op mem_cons_self
    rcases ih (fun op hmem => h op (mem_cons_of_mem _ hmem)) (op.apply d) with he | he
    · cases op with
      | truncateOwner | writeOwner => cases hop
      | removeOwner => exact .inr he
      | _ => exact .inl he
    · exact .inr he

theorem perform_first {ops rest : List FsOp} {op : FsOp} (hpre : ops <+: op :: rest)
    (hne : ops ≠ []) (h : ∀ op ∈ rest, op.sparesCleanup = true) (d : Disk) :
    (d.perform ops).cleanup = (op.apply d).cleanup := by
  cases ops with
  | nil => exact absurd rfl hne
  | cons head tail =>
    obtain ⟨rfl, htail⟩ := cons_prefix_cons.mp hpre
    exact perform_cleanup (fun op hmem => h op (htail.subset hmem)) _

inductive Stage where
  | armed
  | published
  | pending
  | proven
  deriving DecidableEq, Repr

def Stage.Fits : Stage → CleanupPhase → Prop
  | .armed, phase => phase = .armed
  | .published, phase => phase.isPublished = true
  | .pending, phase => phase.isCensusPending = true
  | .proven, phase => ∃ pgid, phase = .residual pgid true []

def Pc.stage : Pc → Option Stage
  | .spawn | .clearUnstarted | .publish _ => some .armed
  | .token _ | .supervise _ | .beginCensus _ => some .published
  | .capture _ | .record _ _ _ | .prove _ => some .pending
  | .clear => some .proven
  | .takeAnchor | .checkAnchor | .checkClaims | .poll | .timeOut | .single | .writeOwner
  | .abandon | .arm | .finish | .leaving => none

def Pc.owns : Pc → Bool
  | .arm | .finish => true
  | pc => pc.stage.isSome

def Pc.quiet : Pc → Bool
  | .spawn | .clearUnstarted | .publish _ | .token _ | .prove _ | .clear => true
  | _ => false

theorem Pc.owns_inside {pc : Pc} (h : pc.owns = true) : pc.inside = true := by
  cases pc with
  | takeAnchor | checkAnchor | checkClaims | poll | timeOut | single | leaving => cases h
  | _ => rfl

structure Bound (args : AcquireArgs) (boot : BootId) (record : CleanupRecord) : Prop where
  agent : record.agent = args.agent
  operation : record.operation = operationOf args.pr
  boot : record.bootId = boot

section

variable {P : Type}

def Supervises (s : State P) (p : P) (args : AcquireArgs) : Prop :=
  ∃ proc, s.proc p = some proc ∧ proc.kind = .run ∧ proc.args = args

def OwnerIs (s : State P) (identity : ProcessIdentity) : Prop :=
  s.disk.owner = .absent ∨
    ∃ owner, s.disk.owner = .full owner ∧ owner.bootId = s.boot ∧ owner.identity = identity

def Recorded (s : State P) (p : P) (args : AcquireArgs) (fits : CleanupPhase → Prop) : Prop :=
  s.author = some p ∧
    ∃ record, s.disk.cleanup = some record ∧ Bound args s.boot record ∧ fits record.phase

structure Held (s : State P) (p : P) (proc : Process) : Prop where
  owner : OwnerIs s proc.self
  stage : ∀ stage, proc.pc.stage = some stage → Recorded s p proc.args stage.Fits
  quiet : proc.pc.quiet = true → s.domain p = []
  captured : ∀ pgid residuals, proc.pc = .record pgid true residuals →
    s.frozen p = true ∧ s.domain p ⊆ residuals

def Shields (s : State P) (p : P) (phase : CleanupPhase) : Prop :=
  phase ≠ .armed ∧ ∀ pgid residuals, phase = .residual pgid true residuals →
    s.frozen p = true ∧ s.domain p ⊆ residuals

def Covered (s : State P) (p : P) : Prop :=
  ∃ args, Supervises s p args ∧ Recorded s p args (Shields s p)

structure Exclusive (s : State P) : Prop where
  kernel : Kernel s
  held : ∀ {p proc}, s.proc p = some proc → proc.alive = true → proc.pc.owns = true →
    Held s p proc
  covered : ∀ p, s.domain p ≠ [] → Covered s p

variable {s s' : State P} {p q : P} {proc proc' : Process} {o : Oracle} {args : AcquireArgs}

structure Kept (s s' : State P) : Prop where
  boot : s'.boot = s.boot
  author : s'.author = s.author
  cleanup : s'.disk.cleanup = s.disk.cleanup
  frozen : s'.frozen = s.frozen
  domain : ∀ p, s'.domain p ⊆ s.domain p
  supervises : ∀ {p args}, Supervises s p args → Supervises s' p args

theorem Kept.recorded {fits fits' : CleanupPhase → Prop} (h : Kept s s')
    (hr : Recorded s p args fits) (himp : ∀ phase, fits phase → fits' phase) :
    Recorded s' p args fits' := by
  obtain ⟨hauthor, record, hc, hb, hf⟩ := hr
  exact ⟨h.author.trans hauthor, record, h.cleanup.trans hc, h.boot ▸ hb, himp _ hf⟩

theorem Kept.shields (h : Kept s s') {phase : CleanupPhase} (hs : Shields s p phase) :
    Shields s' p phase := by
  refine ⟨hs.1, fun pgid residuals he => ?_⟩
  obtain ⟨hf, hd⟩ := hs.2 pgid residuals he
  exact ⟨(congrFun h.frozen p).trans hf, List.Subset.trans (h.domain p) hd⟩

theorem Kept.covered (h : Kept s s') (hc : ∀ p, s.domain p ≠ [] → Covered s p) :
    ∀ p, s'.domain p ≠ [] → Covered s' p := by
  intro p hd
  have hne : s.domain p ≠ [] := fun he => hd (subset_nil.mp (he ▸ h.domain p))
  obtain ⟨args, hsup, hr⟩ := hc p hne
  exact ⟨args, h.supervises hsup, h.recorded hr fun phase hs => h.shields hs⟩

theorem Kept.held (h : Kept s s') (hh : Held s p proc)
    (howner : s'.disk.owner = s.disk.owner ∨ s'.disk.owner = .absent) : Held s' p proc where
  owner := by
    rcases howner with he | he
    · rw [OwnerIs, he, h.boot]
      exact hh.owner
    · exact .inl he
  stage := fun stage hs => h.recorded (hh.stage stage hs) fun phase hf => hf
  quiet := fun hq => subset_nil.mp (hh.quiet hq ▸ h.domain p)
  captured := by
    intro pgid residuals hpc
    obtain ⟨hf, hd⟩ := hh.captured pgid residuals hpc
    exact ⟨(congrFun h.frozen p).trans hf, List.Subset.trans (h.domain p) hd⟩

theorem Exclusive.kept (h : Exclusive s) (hk : Kept s s') (hkernel : Kernel s')
    (howner : s'.disk.owner = s.disk.owner ∨ s'.disk.owner = .absent)
    (hproc : ∀ q proc', s'.proc q = some proc' → proc'.alive = true → proc'.pc.owns = true →
      s.proc q = some proc') : Exclusive s' where
  kernel := hkernel
  held := fun hq ha ho => hk.held (h.held (hproc _ _ hq ha ho) ha ho) howner
  covered := hk.covered h.covered

theorem Exclusive.domain_of_author (h : Exclusive s) (hauthor : s.author = some p)
    (hempty : s.domain p = []) (q : P) : s.domain q = [] := by
  by_contra hne
  obtain ⟨args, -, ha, -⟩ := h.covered q hne
  cases hauthor.symm.trans ha
  exact hne hempty

theorem Exclusive.domain_of_none (h : Exclusive s) (hc : s.disk.cleanup = none) (q : P) :
    s.domain q = [] := by
  by_contra hne
  obtain ⟨args, -, -, record, hr, -⟩ := h.covered q hne
  cases hc.symm.trans hr

theorem Kernel.alone (h : Kernel s) (hp : s.proc p = some proc) (ha : proc.alive = true)
    (hin : proc.pc.inside = true) (hq : s.proc q = some proc') (ha' : proc'.alive = true)
    (hin' : proc'.pc.inside = true) : q = p := by
  have hanchor : ∀ {r : P} {pr : Process}, s.proc r = some pr → pr.alive = true →
      pr.pc.inside = true → s.anchor = some r := by
    intro r pr hr har hir
    refine h.anchor hr har (h.kind hr hir) ?_ ?_
    · intro hpc
      rw [hpc] at hir
      cases hir
    · intro hpc
      rw [hpc] at hir
      cases hir
  exact Option.some.inj ((hanchor hq ha' hin').symm.trans (hanchor hp ha hin))

theorem Exclusive.no_owner (h : Exclusive s) {self : ProcessIdentity} {reason : DeathReason}
    (hdead : ownerLiveness (s.env o self) s.disk = .ok (.dead reason))
    (hq : s.proc q = some proc) (ha : proc.alive = true) (hown : proc.pc.owns = true) : False := by
  rcases (h.held hq ha hown).owner with he | ⟨owner, he, hb, hid⟩
  · obtain ⟨owner, bootId, hfile, -⟩ := ownerLiveness_dead hdead
    rw [he] at hfile
    cases hfile
  · exact h.kernel.owner_alive he hb (hid ▸ h.kernel.self_mem hq ha) hdead

theorem goto_owns_outside (hin : proc.pc.inside = false) : (s.goto proc o).owns = false := by
  rw [State.goto, Process.next.eq_def]
  cases hpc : proc.pc with
  | poll =>
    dsimp only
    cases (s.turn proc o).2 with
    | none => rfl
    | some r =>
      cases r with
      | waiting =>
        dsimp only
        split_ifs <;> rfl
      | done =>
        dsimp only
        split_ifs <;> rfl
  | takeAnchor | checkAnchor | checkClaims =>
    dsimp only
    split_ifs <;> rfl
  | timeOut | single | leaving => rfl
  | _ =>
    rw [hpc] at hin
    cases hin

theorem pulse_prefix (h : s.pulse proc o ≠ []) :
    ∃ holder, s.disk.holder = .full holder ∧ holder.agent = proc.args.agent ∧ s.pulse proc o <+:
        [.truncateHolder, .writeHolder (holder.renewed (s.env o proc.self) proc.args.hold)] := by
  obtain ⟨pl, hplan, hpre⟩ := settle_prefix h
  obtain ⟨r, hr, hpl⟩ := bind_eq_ok.mp hplan
  cases hpl
  obtain ⟨holder, hholder, hagent, hops⟩ := renewRunLease_ok hr
  rw [hops] at hpre
  exact ⟨holder, hholder, hagent, hpre⟩

theorem pulse_spares {op : FsOp} (h : op ∈ s.pulse proc o) :
    op.sparesCleanup = true ∧ op.sparesOwner = true := by
  obtain ⟨holder, -, -, hpre⟩ := pulse_prefix (ne_nil_of_mem h)
  rcases mem_pair.mp (hpre.subset h) with rfl | rfl
  · exact ⟨rfl, rfl⟩
  · exact ⟨rfl, rfl⟩

end

section

variable {proc : Process} {o : Oracle} {env : Env} {d : Disk} {pl : Plan Reply}

theorem Script.spares_owner {pc : Pc} (h : Script proc o env d pc pl) (hpc : pc ≠ .writeOwner) :
    ∀ op ∈ pl.1, op.sparesOwner = true := by
  cases h with
  | writesOwner => exact absurd rfl hpc
  | _ => simp [FsOp.sparesOwner]

def Process.rewrites (proc : Process) : Bool :=
  match proc.pc with
  | .arm | .clearUnstarted | .publish _ | .beginCensus _ | .record _ _ _ | .prove _
  | .clear => true
  | .single =>
    match proc.kind with
    | .reclaimDead | .census _ => true
    | .acquire | .renew | .release | .run => false
  | .takeAnchor | .checkAnchor | .checkClaims | .poll | .timeOut | .writeOwner | .abandon
  | .spawn | .token _ | .supervise _ | .capture _ | .finish | .leaving => false

theorem Script.spares_cleanup (h : Script proc o env d proc.pc pl) (hw : proc.rewrites = false) :
    ∀ op ∈ pl.1, op.sparesCleanup = true := by
  generalize hpc : proc.pc = pc at h
  cases h with
  | arms | clearsUnstarted | clears =>
    simp only [Process.rewrites, hpc] at hw
    cases hw
  | reclaims hkind | censuses hkind =>
    simp only [Process.rewrites, hpc, hkind] at hw
    cases hw
  | transitions htarget =>
    cases pc with
    | publish | beginCensus | record | prove =>
      simp only [Process.rewrites, hpc] at hw
      cases hw
    | _ => cases htarget
  | _ => simp [FsOp.sparesCleanup]

end

variable {P : Type} [DecidableEq P] {s : State P} {p q : P} {proc : Process} {o : Oracle}
  {args : AcquireArgs}

theorem act_owner (hpc : proc.pc ≠ .writeOwner) :
    (s.act p proc o).disk.owner = s.disk.owner ∨ (s.act p proc o).disk.owner = .absent := by
  rcases s.turn_cases proc o with ht | ⟨pl, hscript, hpre, -⟩
  · rw [State.act, ht]
    exact .inl rfl
  · exact perform_owner (fun op hop => hscript.spares_owner hpc op (hpre.subset hop)) s.disk

theorem act_cleanup (hw : proc.rewrites = false) :
    (s.act p proc o).disk.cleanup = s.disk.cleanup := by
  rcases s.turn_cases proc o with ht | ⟨pl, hscript, hpre, -⟩
  · rw [State.act, ht]
    rfl
  · exact perform_cleanup (fun op hop => hscript.spares_cleanup hw op (hpre.subset hop)) s.disk

theorem act_domain (ht : ∀ leader, proc.pc ≠ .token leader) :
    (s.act p proc o).domain = s.domain := by
  rw [State.act]
  dsimp only
  split
  · next leader hpc => exact absurd hpc (ht leader)
  · rfl

theorem act_frozen (ht : ∀ leader, proc.pc ≠ .token leader)
    (hc : ∀ leader, proc.pc ≠ .capture leader) : (s.act p proc o).frozen = s.frozen := by
  rw [State.act]
  dsimp only
  split
  · next leader hpc => exact absurd hpc (ht leader)
  · next leader hpc => exact absurd hpc (hc leader)
  · rfl

theorem act_author (hpc : proc.pc ≠ .arm) : (s.act p proc o).author = s.author :=
  if_neg fun h => hpc h.1

theorem Supervises.act (hp : s.proc p = some proc) (h : Supervises s q args) :
    Supervises (s.act p proc o) q args := by
  obtain ⟨found, hq, hkind, hargs⟩ := h
  by_cases hqp : q = p
  · subst hqp
    cases hp.symm.trans hq
    exact ⟨_, Function.update_self _ _ _, hkind, hargs⟩
  · exact ⟨found, (Function.update_of_ne hqp _ _).trans hq, hkind, hargs⟩

theorem Kept.act (hp : s.proc p = some proc) (hw : proc.rewrites = false)
    (ht : ∀ leader, proc.pc ≠ .token leader) (hc : ∀ leader, proc.pc ≠ .capture leader) :
    Kept s (s.act p proc o) where
  boot := rfl
  author := by
    apply act_author
    intro hpc
    simp only [Process.rewrites, hpc] at hw
    cases hw
  cleanup := act_cleanup hw
  frozen := act_frozen ht hc
  domain := fun q => by rw [act_domain ht]; exact List.Subset.refl _
  supervises := fun h => h.act hp

theorem act_proc_outside (hin : proc.pc.inside = false) {proc' : Process}
    (hq : (s.act p proc o).proc q = some proc') (hown : proc'.pc.owns = true) :
    s.proc q = some proc' := by
  rcases update_some_cases hq with ⟨rfl, he⟩ | ⟨-, hq⟩
  · rw [he] at hown
    exact absurd (hown.symm.trans (goto_owns_outside hin)) nofun
  · exact hq

section

variable (h : Exclusive s) (hp : s.proc p = some proc) (ha : proc.alive = true)
  (hadm : s.admits p proc o = true)
include h hp ha hadm

theorem Exclusive.act_outside (hin : proc.pc.inside = false)
    (hw : proc.rewrites = false) : Exclusive (s.act p proc o) := by
  refine h.kept (Kept.act hp hw ?_ ?_) (h.kernel.act hp ha hadm) (act_owner ?_)
    fun q proc' hq _ hown => act_proc_outside hin hq hown
  · intro leader hpc
    rw [hpc] at hin
    cases hin
  · intro leader hpc
    rw [hpc] at hin
    cases hin
  · intro hpc
    rw [hpc] at hin
    cases hin

theorem Exclusive.act_reclaims (hin : proc.pc.inside = false)
    {self : ProcessIdentity} {reason : DeathReason}
    (hdead : ownerLiveness (s.env o self) s.disk = .ok (.dead reason))
    (hempty : ∀ q, s.domain q = []) : Exclusive (s.act p proc o) where
  kernel := h.kernel.act hp ha hadm
  held := fun hq ha' hown => (h.no_owner hdead (act_proc_outside hin hq hown) ha' hown).elim
  covered := by
    intro q hne
    rw [act_domain] at hne
    · exact absurd (hempty q) hne
    · intro leader hpc
      rw [hpc] at hin
      cases hin

theorem Exclusive.act_inside (hin : proc.pc.inside = true)
    (hself : (s.goto proc o).owns = true →
      Held (s.act p proc o) p { proc with pc := s.goto proc o })
    (hcover : ∀ q, (s.act p proc o).domain q ≠ [] → Covered (s.act p proc o) q) :
    Exclusive (s.act p proc o) where
  kernel := h.kernel.act hp ha hadm
  held := by
    intro q proc' hq ha' hown
    rcases update_some_cases hq with ⟨rfl, he⟩ | ⟨hqp, hq⟩
    · rw [he] at hown ⊢
      exact hself hown
    · exact absurd (h.kernel.alone hp ha hin hq ha' (Pc.owns_inside hown)) hqp
  covered := hcover

end

theorem OwnerIs.act {identity : ProcessIdentity} (h : OwnerIs s identity)
    (hpc : proc.pc ≠ .writeOwner) : OwnerIs (s.act p proc o) identity := by
  rcases act_owner (s := s) (p := p) (o := o) hpc with he | he
  · rw [OwnerIs, he]
    exact h
  · exact .inl he

end DevHermit.Landing
