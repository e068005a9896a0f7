import DevHermit.Landing.Payload

namespace DevHermit.Landing

open Lib Function Process List

variable {P : Type} {s s' : State P} {p q : P} {proc : Process} {o : Oracle} {args : AcquireArgs}

theorem Held.unstaged (howner : OwnerIs s proc.self) (hstage : proc.pc.stage = none) :
    Held s p proc where
  owner := howner
  stage := by
    intro stage hs
    rw [hstage] at hs
    cases hs
  quiet := by
    intro hq
    cases hpc : proc.pc with
    | spawn | clearUnstarted | publish | token | prove | clear =>
      rw [hpc] at hstage
      cases hstage
    | _ =>
      rw [hpc] at hq
      cases hq
  captured := by
    intro pgid residuals hpc
    rw [hpc] at hstage
    cases hstage

variable {pc' : Pc}

theorem Held.move (h : Held s p proc) (hstage : pc'.stage = proc.pc.stage)
    (hquiet : pc'.quiet = true → proc.pc.quiet = true)
    (hcaptured : ∀ pgid complete residuals, pc' ≠ .record pgid complete residuals) :
    Held s p { proc with pc := pc' } where
  owner := h.owner
  stage := fun stage hs => h.stage stage (hstage.symm.trans hs)
  quiet := fun hq => h.quiet (hquiet hq)
  captured := fun pgid residuals hpc => absurd hpc (hcaptured pgid true residuals)

theorem Held.staged {stage : Stage} (howner : OwnerIs s proc.self) (hstage : pc'.stage = some stage)
    (hrec : Recorded s p proc.args stage.Fits) (hquiet : pc'.quiet = true → s.domain p = [])
    (hcaptured : ∀ pgid residuals, pc' = .record pgid true residuals →
      s.frozen p = true ∧ s.domain p ⊆ residuals) :
    Held s p { proc with pc := pc' } where
  owner := howner
  stage := by
    intro stage' hs
    cases hstage.symm.trans hs
    exact hrec
  quiet := hquiet
  captured := hcaptured

variable {reply : Option Reply}

theorem onSuccess_owns {next otherwise : Pc} (h : (onSuccess reply next otherwise).owns = true)
    (ho : otherwise.owns = false) : reply ≠ none := by
  rintro rfl
  exact absurd (h.symm.trans ho) nofun

theorem onSuccess_of_ne (h : reply ≠ none) (next otherwise : Pc) :
    onSuccess reply next otherwise = next := by
  cases reply with
  | none => exact absurd rfl h
  | some r => rfl

theorem Recorded.imp {fits fits' : CleanupPhase → Prop} (h : Recorded s p args fits)
    (himp : ∀ phase, fits phase → fits' phase) : Recorded s p args fits' := by
  obtain ⟨hauthor, record, hc, hb, hf⟩ := h
  exact ⟨hauthor, record, hc, hb, himp _ hf⟩

theorem Exclusive.init (host : String) : Exclusive (State.init P host) where
  kernel := Kernel.init host
  held := by rintro p proc ⟨⟩
  covered := fun p hne => absurd rfl hne

theorem refused_of_record {d : Disk} {record : CleanupRecord} (hc : d.cleanup = some record) :
    (∀ env args, ∃ e, tryAcquire env args d = .error e) ∧
      (∀ env agent hold, ∃ e, renew env agent hold d = .error e) ∧
      ∀ env agent, ∃ e, release env agent d = .error e := by
  refine ⟨fun env args => ?_, fun env agent hold => ?_, fun env agent => ?_⟩
  · cases hplan : tryAcquire env args d with
    | error e => exact ⟨e, rfl⟩
    | ok pl =>
      obtain ⟨-, -, -, hnone, -⟩ := tryAcquire_ok hplan
      cases hnone.symm.trans hc
  · cases hplan : renew env agent hold d with
    | error e => exact ⟨e, rfl⟩
    | ok pl =>
      obtain ⟨-, -, hnone, -⟩ := renew_ok hplan
      cases hnone.symm.trans hc
  · cases hplan : release env agent d with
    | error e => exact ⟨e, rfl⟩
    | ok pl =>
      obtain ⟨hnone, -⟩ := release_ok hplan
      cases hnone.symm.trans hc

theorem Exclusive.beat (h : Exclusive s) (hkernel : Kernel (s.beat proc o)) :
    Exclusive (s.beat proc o) := by
  refine h.kept ⟨rfl, rfl, ?_, rfl, fun q => List.Subset.refl _, fun hs => hs⟩ hkernel
    (perform_owner (fun op hop => (pulse_spares hop).2) s.disk) fun q proc' hq _ _ => hq
  exact perform_cleanup (fun op hop => (pulse_spares hop).1) s.disk

section

variable [DecidableEq P]

theorem Kept.act_nothing (hp : s.proc p = some proc) (hturn : s.turn proc o = ([], none))
    (ht : ∀ leader, proc.pc ≠ .token leader) (hc : ∀ leader, proc.pc ≠ .capture leader) :
    Kept s (s.act p proc o) where
  boot := rfl
  author := if_neg fun h => h.2 (by rw [hturn])
  cleanup := by
    rw [State.act, hturn]
    rfl
  frozen := act_frozen ht hc
  domain := fun q => by rw [act_domain ht]; exact List.Subset.refl _
  supervises := fun h => h.act hp

theorem covered_of_empty (ht : ∀ leader, proc.pc ≠ .token leader)
    (hempty : ∀ q, s.domain q = []) (q : P) (hne : (s.act p proc o).domain q ≠ []) :
    Covered (s.act p proc o) q := by
  rw [act_domain ht] at hne
  exact absurd (hempty q) hne

theorem Recorded.transition {fits : CleanupPhase → Prop} {phase : CleanupPhase}
    (h : Recorded s p args fits) (htarget : proc.pc.target = some phase) :
    Recorded (s.act p proc o) p args fun next =>
      fits next ∧ (s.turn proc o).2 = none ∨ next = phase := by
  obtain ⟨hauthor, record, hc, hb, hf⟩ := h
  have harm : proc.pc ≠ .arm := by
    intro hpc
    rw [hpc] at htarget
    cases htarget
  refine ⟨(act_author harm).trans hauthor, ?_⟩
  rcases s.turn_cases proc o with ht | ⟨pl, hscript, hpre, hok⟩
  · refine ⟨record, ?_, hb, .inl ⟨hf, by rw [ht]⟩⟩
    rw [State.act, ht]
    exact hc
  · generalize hpc : proc.pc = pc at hscript htarget
    cases hscript with
    | idle hg =>
      cases pc with
      | publish | beginCensus | record | prove => cases hg
      | _ => cases htarget
    | vacates hr | releases hr =>
      cases pc with
      | publish | beginCensus | record | prove => cases hr
      | _ => cases htarget
    | @transitions _ found phase' cgroup htarget' hrecord =>
      cases htarget.symm.trans htarget'
      cases hc.symm.trans hrecord
      by_cases hne : (s.turn proc o).1 = []
      · refine ⟨record, ?_, hb, .inl ⟨hf, ?_⟩⟩
        · rw [State.act]
          dsimp only
          rw [hne]
          exact hc
        · by_contra hreply
          have hfull := congrArg Prod.fst (hok hreply)
          rw [hne] at hfull
          cases hfull
      · refine ⟨{ record with phase := phase, cgroup := cgroup }, ?_, ⟨hb.1, hb.2, hb.3⟩, .inr rfl⟩
        exact perform_first hpre hne (by simp) s.disk
    | _ => cases htarget

section

variable (h : Exclusive s) (hp : s.proc p = some proc) (ha : proc.alive = true)
include h hp ha

variable {stage : Stage}

theorem Exclusive.covered_self (hown : proc.pc.owns = true) (hstage : proc.pc.stage = some stage)
    (ht : ∀ leader, proc.pc ≠ .token leader)
    (hrec : Recorded (s.act p proc o) p proc.args (Shields (s.act p proc o) p)) (q : P)
    (hne : (s.act p proc o).domain q ≠ []) : Covered (s.act p proc o) q := by
  rw [act_domain ht] at hne
  obtain ⟨args, -, hauthor, -⟩ := h.covered q hne
  cases ((h.held hp ha hown).stage stage hstage).1.symm.trans hauthor
  refine ⟨proc.args, Supervises.act hp ⟨proc, hp, ?_, rfl⟩, hrec⟩
  exact h.kernel.kind hp (Pc.owns_inside hown)

theorem Exclusive.act_writeOwner (hadm : s.admits p proc o = true) (hpc : proc.pc = .writeOwner) :
    Exclusive (s.act p proc o) := by
  have hgoto : s.goto proc o = onSuccess (s.turn proc o).2 .arm .abandon := by
    simp only [State.goto, Process.next, hpc]
  refine h.act_inside hp ha hadm (by rw [hpc]; rfl) ?_ (Kept.covered (Kept.act hp ?_ ?_ ?_) h.covered)
  · intro hown
    rw [hgoto] at hown ⊢
    have hreply := onSuccess_owns hown rfl
    rw [onSuccess_of_ne hreply]
    refine Held.unstaged ?_ rfl
    rcases s.turn_cases proc o with ht | ⟨pl, hscript, -, hok⟩
    · rw [ht] at hreply
      exact absurd rfl hreply
    · rw [hpc] at hscript
      have hops := congrArg Prod.fst (hok hreply)
      cases hscript with
      | idle hg => cases hg
      | vacates hr | releases hr => cases hr
      | transitions htarget => cases htarget
      | @writesOwner bootId hboot =>
        have hb : bootId = s.boot := env_bootId hboot
        refine .inr ⟨⟨(s.env o proc.self).host, bootId, proc.self⟩, ?_, hb, rfl⟩
        rw [State.act]
        dsimp only
        rw [hops]
        rfl
  · simp only [rewrites, hpc]
  · intro leader hl
    cases hpc.symm.trans hl
  · intro leader hl
    cases hpc.symm.trans hl

theorem Exclusive.act_arm
    (hadm : s.admits p proc o = true) (hpc : proc.pc = .arm) : Exclusive (s.act p proc o) := by
  have hgoto : s.goto proc o = onSuccess (s.turn proc o).2 .spawn .leaving := by
    simp only [State.goto, Process.next, hpc]
  have hnt : ∀ leader, proc.pc ≠ .token leader := by
    intro leader hl
    cases hpc.symm.trans hl
  have hnc : ∀ leader, proc.pc ≠ .capture leader := by
    intro leader hl
    cases hpc.symm.trans hl
  have hheld := h.held hp ha (by rw [hpc]; rfl)
  rcases s.turn_cases proc o with ht | ⟨pl, hscript, -, hok⟩
  · refine h.act_inside hp ha hadm (by rw [hpc]; rfl) ?_
      (Kept.covered (Kept.act_nothing hp ht hnt hnc) h.covered)
    intro hown
    rw [hgoto, ht] at hown
    cases hown
  · rw [hpc] at hscript
    cases hscript with
    | idle hg => cases hg
    | vacates hr | releases hr => cases hr
    | transitions htarget => cases htarget
    | @arms bootId holder hboot hhost hclean hholder hagent hpr =>
      refine h.act_inside hp ha hadm (by rw [hpc]; rfl) ?_
        (covered_of_empty hnt (h.domain_of_none hclean))
      intro hown
      rw [hgoto] at hown ⊢
      have hreply := onSuccess_owns hown rfl
      have hops := congrArg Prod.fst (hok hreply)
      have hb : bootId = s.boot := env_bootId hboot
      rw [onSuccess_of_ne hreply]
      refine Held.staged (hheld.owner.act ?_) rfl ⟨?_, ?_⟩ ?_ ?_
      · rw [hpc]
        rintro ⟨⟩
      · refine if_pos ⟨hpc, ?_⟩
        rw [hops]
        rintro ⟨⟩
      · refine ⟨⟨proc.args.agent, operationOf proc.args.pr, (s.env o proc.self).host, bootId,
          .armed, none⟩, ?_, ⟨rfl, rfl, hb⟩, rfl⟩
        rw [State.act]
        dsimp only
        rw [hops]
        rfl
      · intro _
        rw [act_domain hnt]
        exact h.domain_of_none hclean p
      · rintro pgid residuals ⟨⟩

theorem Exclusive.act_transition (hadm : s.admits p proc o = true) {phase : CleanupPhase}
    (htarget : proc.pc.target = some phase) (hstage : proc.pc.stage = some stage)
    (hself : (s.goto proc o).owns = true →
      (s.turn proc o).2 ≠ none ∧ (∃ next, (s.goto proc o).stage = some next ∧ next.Fits phase) ∧
      ((s.goto proc o).quiet = true → s.domain p = []) ∧
      ∀ pgid residuals, s.goto proc o ≠ .record pgid true residuals)
    (hshields : s.domain p ≠ [] → (∀ next, stage.Fits next → Shields s p next) ∧ Shields s p phase)
    : Exclusive (s.act p proc o) := by
  have hown : proc.pc.owns = true := by
    cases hpc : proc.pc with
    | arm | finish => rfl
    | _ =>
      rw [hpc] at hstage
      rw [Pc.owns, hstage]
      · rfl
      · rintro ⟨⟩
      · rintro ⟨⟩
  have hnt : ∀ leader, proc.pc ≠ .token leader := by
    intro leader hpc
    rw [hpc] at htarget
    cases htarget
  have hnc : ∀ leader, proc.pc ≠ .capture leader := by
    intro leader hpc
    rw [hpc] at htarget
    cases htarget
  have hheld := h.held hp ha hown
  have hrec := (hheld.stage stage hstage).transition (o := o) htarget
  refine h.act_inside hp ha hadm (Pc.owns_inside hown) ?_ ?_
  · intro hown'
    obtain ⟨hreply, ⟨next, hnext, hfits⟩, hquiet, hrecord⟩ := hself hown'
    refine Held.staged (hheld.owner.act ?_) hnext ?_ ?_ ?_
    · intro hpc
      rw [hpc] at htarget
      cases htarget
    · refine hrec.imp fun next hn => ?_
      rcases hn with ⟨-, hnone⟩ | rfl
      · exact absurd hnone hreply
      · exact hfits
    · intro hq
      rw [act_domain hnt]
      exact hquiet hq
    · intro pgid residuals he
      exact absurd he (hrecord pgid residuals)
  · intro q hne
    refine h.covered_self hp ha hown hstage hnt (hrec.imp fun next hn => ?_) q hne
    have hne' : s.domain p ≠ [] := by
      rw [act_domain hnt] at hne
      obtain ⟨args, -, hauthor, -⟩ := h.covered q hne
      cases (hheld.stage stage hstage).1.symm.trans hauthor
      exact hne
    have hshield : Shields s p next := by
      rcases hn with ⟨hfit, -⟩ | rfl
      · exact (hshields hne').1 next hfit
      · exact (hshields hne').2
    refine ⟨hshield.1, fun pgid residuals he => ?_⟩
    rw [act_frozen hnt hnc, act_domain hnt]
    exact hshield.2 pgid residuals he

theorem Exclusive.act_token (hadm : s.admits p proc o = true) {leader : ProcessIdentity}
    (hpc : proc.pc = .token leader) : Exclusive (s.act p proc o) := by
  have hw : proc.rewrites = false := by simp only [rewrites, hpc]
  have harm : proc.pc ≠ .arm := by rw [hpc]; rintro ⟨⟩
  have howner : proc.pc ≠ .writeOwner := by rw [hpc]; rintro ⟨⟩
  have hheld := h.held hp ha (by rw [hpc]; rfl)
  have hquiet := h.domain_of_author (hheld.stage .published (by rw [hpc]; rfl)).1
    (hheld.quiet (by rw [hpc]; rfl))
  have hrec : Recorded (s.act p proc o) p proc.args Stage.published.Fits := by
    obtain ⟨hauthor, record, hc, hb, hf⟩ := hheld.stage .published (by rw [hpc]; rfl)
    exact ⟨(act_author harm).trans hauthor, record, (act_cleanup hw).trans hc, hb, hf⟩
  refine h.act_inside hp ha hadm (by rw [hpc]; rfl) ?_ ?_
  · intro hown
    have hgoto : s.goto proc o = .supervise leader := by
      simp only [State.goto, Process.next, hpc] at hown ⊢
      split_ifs at hown ⊢
      · cases hown
      · rfl
    rw [hgoto]
    refine Held.staged (hheld.owner.act howner) rfl hrec ?_ ?_
    · rintro ⟨⟩
    · rintro pgid residuals ⟨⟩
  · intro q hne
    by_cases hq : q = p
    · subst hq
      refine ⟨proc.args, Supervises.act hp ⟨proc, hp, ?_, rfl⟩, hrec.imp ?_⟩
      · exact h.kernel.kind hp (by rw [hpc]; rfl)
      · intro phase hf
        cases phase with
        | published l g => exact ⟨by simp, by simp⟩
        | _ => cases hf
    · exfalso
      apply hne
      rw [State.act]
      dsimp only
      simp only [hpc]
      split_ifs
      · exact hquiet q
      · rw [update_of_ne hq]
        exact hquiet q
      · rw [update_of_ne hq]
        exact hquiet q

end

theorem act_frozen_capture {leader : ProcessIdentity} (hpc : proc.pc = .capture leader) :
    (s.act p proc o).frozen = update s.frozen p o.complete := by
  rw [State.act]
  dsimp only
  simp only [hpc]

section

variable (h : Exclusive s) (hp : s.proc p = some proc) (ha : proc.alive = true)
  (hadm : s.admits p proc o = true)
include h hp ha hadm

theorem Exclusive.act_capture {leader : ProcessIdentity}
    (hpc : proc.pc = .capture leader) : Exclusive (s.act p proc o) := by
  have hw : proc.rewrites = false := by simp only [rewrites, hpc]
  have harm : proc.pc ≠ .arm := by rw [hpc]; rintro ⟨⟩
  have hnt : ∀ leader, proc.pc ≠ .token leader := by
    intro l hl
    cases hpc.symm.trans hl
  have howner : proc.pc ≠ .writeOwner := by rw [hpc]; rintro ⟨⟩
  have hown : proc.pc.owns = true := by rw [hpc]; rfl
  have hstage : proc.pc.stage = some .pending := by rw [hpc]; rfl
  have hheld := h.held hp ha hown
  have hrec : Recorded (s.act p proc o) p proc.args Stage.pending.Fits := by
    obtain ⟨hauthor, record, hc, hb, hf⟩ := hheld.stage .pending hstage
    exact ⟨(act_author harm).trans hauthor, record, (act_cleanup hw).trans hc, hb, hf⟩
  have hlist : o.complete = true → s.domain p ⊆ o.residuals := by
    intro hc identity hid
    simp only [State.admits, hpc, hc, Bool.not_true, Bool.false_or] at hadm
    exact contains_iff_mem.mp (all_eq_true.mp hadm identity hid)
  refine h.act_inside hp ha hadm (by rw [hpc]; rfl) ?_ ?_
  · intro _
    have hgoto : (o.complete = true ∧ o.residuals = [] ∧ s.goto proc o = .prove leader.pid) ∨
        s.goto proc o = .record leader.pid o.complete o.residuals := by
      simp only [State.goto, Process.next, hpc]
      split_ifs with hall
      · rw [Bool.and_eq_true, Bool.and_eq_true, List.isEmpty_iff] at hall
        exact .inl ⟨hall.1.2, hall.2, rfl⟩
      · exact .inr rfl
    rcases hgoto with ⟨hcomplete, hnil, hgoto⟩ | hgoto
    · rw [hgoto]
      refine Held.staged (hheld.owner.act howner) rfl hrec ?_ ?_
      · intro _
        rw [act_domain hnt]
        exact subset_nil.mp (hnil ▸ hlist hcomplete)
      · rintro pgid residuals ⟨⟩
    · rw [hgoto]
      refine Held.staged (hheld.owner.act howner) rfl hrec ?_ ?_
      · rintro ⟨⟩
      · intro pgid residuals he
        injection he with _ hcomplete hres
        rw [act_domain hnt, act_frozen_capture hpc, update_self, hcomplete, ← hres]
        exact ⟨rfl, hlist hcomplete⟩
  · refine h.covered_self hp ha hown hstage hnt (hrec.imp fun phase hf => ?_)
    cases phase with
    | censusPending l g => exact ⟨by simp, by simp⟩
    | _ => cases hf

theorem Exclusive.act_cleared {stage : Stage}
    (hstage : proc.pc.stage = some stage) (hquiet : proc.pc.quiet = true)
    (hown : proc.pc.owns = true) (hnt : ∀ leader, proc.pc ≠ .token leader)
    (hgoto : s.goto proc o = onSuccess (s.turn proc o).2 .finish .leaving) :
    Exclusive (s.act p proc o) := by
  have hheld := h.held hp ha hown
  refine h.act_inside hp ha hadm (Pc.owns_inside hown) ?_
    (covered_of_empty hnt (h.domain_of_author (hheld.stage stage hstage).1 (hheld.quiet hquiet)))
  intro hown'
  rw [hgoto] at hown' ⊢
  rw [onSuccess_of_ne (onSuccess_owns hown' rfl)]
  refine Held.unstaged (hheld.owner.act ?_) rfl
  intro hpc
  rw [hpc] at hstage
  cases hstage

theorem Exclusive.act_moves (hin : proc.pc.inside = true)
    (hw : proc.rewrites = false) (ht : ∀ leader, proc.pc ≠ .token leader)
    (hc : ∀ leader, proc.pc ≠ .capture leader) (howner : proc.pc ≠ .writeOwner)
    (hmove : (s.goto proc o).owns = true → proc.pc.owns = true ∧
      (s.goto proc o).stage = proc.pc.stage ∧
      ((s.goto proc o).quiet = true → proc.pc.quiet = true) ∧
      ∀ pgid complete residuals, s.goto proc o ≠ .record pgid complete residuals) :
    Exclusive (s.act p proc o) := by
  have hkept : Kept s (s.act p proc o) := Kept.act hp hw ht hc
  refine h.act_inside hp ha hadm hin ?_ (hkept.covered h.covered)
  intro hown
  obtain ⟨hown', hstage, hquiet, hrecord⟩ := hmove hown
  exact (hkept.held (h.held hp ha hown') (act_owner howner)).move hstage hquiet hrecord

theorem Exclusive.act_single (hpc : proc.pc = .single)
    (hw : proc.rewrites = true) : Exclusive (s.act p proc o) := by
  have hin : proc.pc.inside = false := by rw [hpc]; rfl
  have hnt : ∀ leader, proc.pc ≠ .token leader := by
    intro leader hl
    cases hpc.symm.trans hl
  have hnc : ∀ leader, proc.pc ≠ .capture leader := by
    intro leader hl
    cases hpc.symm.trans hl
  have hkept : Kept s (s.act p proc o) → Exclusive (s.act p proc o) := by
    intro hk
    refine h.kept hk (h.kernel.act hp ha hadm) (act_owner ?_)
      fun q proc' hq _ hown => act_proc_outside hin hq hown
    rw [hpc]
    rintro ⟨⟩
  rcases s.turn_cases proc o with ht | ⟨pl, hscript, hpre, -⟩
  · exact hkept (Kept.act_nothing hp ht hnt hnc)
  · rw [hpc] at hscript
    cases hscript with
    | idle hg => cases hg
    | transitions htarget => cases htarget
    | nothing hkind =>
      rcases hkind with hkind | hkind <;>
      · simp only [rewrites, hpc, hkind] at hw
        cases hw
    | renews hkind | vacates hkind | releases hkind =>
      simp only [rewrites, hpc, show proc.kind = _ from hkind] at hw
      cases hw
    | sweeps hkind hclean hholder =>
      refine hkept ⟨rfl, act_author (by rw [hpc]; rintro ⟨⟩), ?_, act_frozen hnt hnc, ?_, ?_⟩
      · refine perform_cleanup (fun op hop => ?_) s.disk
        rw [mem_singleton.mp (hpre.subset hop)]
        rfl
      · intro q
        rw [act_domain hnt]
        exact List.Subset.refl _
      · exact fun hs => hs.act hp
    | @reclaims holder reason hkind hholder hdead hverdict =>
      refine h.act_reclaims hp ha hadm hin hdead fun q => ?_
      by_contra hne
      obtain ⟨args, -, -, record, hc, hb, hshield⟩ := h.covered q hne
      cases hverdict record hc with
      | rebooted hboot hdiffer => exact hdiffer (hb.boot.trans (env_bootId hboot).symm)
      | vanished hboot hphase hgone =>
        obtain ⟨identity, hid⟩ := exists_mem_of_ne_nil _ hne
        have hmem := (hshield.2 _ _ hphase).2 hid
        have hliving := mem_append_right (s.running.map Prod.snd) (h.kernel.domain q hid)
        exact h.kernel.not_absent hliving (hgone identity hmem)
    | @censuses args record pgid reason hkind hrecord hdead hdomain =>
      refine h.act_reclaims hp ha hadm hin hdead fun q => ?_
      by_contra hne
      obtain ⟨-, -, hauthor, -⟩ := h.covered q hne
      simp only [State.admits, hpc, hkind, hdomain, Bool.not_true, Bool.false_or,
        State.authorEmpty, hauthor, List.isEmpty_iff] at hadm
      exact hne hadm

theorem Exclusive.act : Exclusive (s.act p proc o) := by
  cases hpc : proc.pc with
  | single =>
    cases hw : proc.rewrites with
    | true => exact h.act_single hp ha hadm hpc hw
    | false => exact h.act_outside hp ha hadm (by rw [hpc]; rfl) hw
  | writeOwner => exact h.act_writeOwner hp ha hadm hpc
  | arm => exact h.act_arm hp ha hadm hpc
  | token leader => exact h.act_token hp ha hadm hpc
  | capture leader => exact h.act_capture hp ha hadm hpc
  | abandon | finish =>
    refine h.act_moves hp ha hadm (by rw [hpc]; rfl) (by simp only [rewrites, hpc])
      (by simp [hpc]) (by simp [hpc]) (by simp [hpc]) ?_
    simp only [State.goto, Process.next, hpc]
    rintro ⟨⟩
  | spawn =>
    refine h.act_moves hp ha hadm (by rw [hpc]; rfl) (by simp only [rewrites, hpc])
      (by simp [hpc]) (by simp [hpc]) (by simp [hpc]) fun _ => ?_
    simp only [State.goto, Process.next, hpc]
    split_ifs
    · exact ⟨rfl, rfl, fun _ => rfl, by rintro _ _ _ ⟨⟩⟩
    · exact ⟨rfl, rfl, fun _ => rfl, by rintro _ _ _ ⟨⟩⟩
  | supervise leader =>
    refine h.act_moves hp ha hadm (by rw [hpc]; rfl) (by simp only [rewrites, hpc])
      (by simp [hpc]) (by simp [hpc]) (by simp [hpc]) fun _ => ?_
    simp only [State.goto, Process.next, hpc]
    exact ⟨rfl, rfl, fun hq => hq, by rintro _ _ _ ⟨⟩⟩
  | clearUnstarted | clear =>
    exact h.act_cleared hp ha hadm (by rw [hpc]; rfl) (by rw [hpc]; rfl) (by rw [hpc]; rfl)
      (by simp [hpc]) (by simp only [State.goto, Process.next, hpc])
  | publish leader =>
    have hempty := (h.held hp ha (by rw [hpc]; rfl)).quiet (by rw [hpc]; rfl)
    refine h.act_transition hp ha hadm (by rw [hpc]; rfl) (by rw [hpc]; rfl) ?_
      (fun hne => absurd hempty hne)
    simp only [State.goto, Process.next, hpc]
    intro hown
    have hreply := onSuccess_owns hown rfl
    rw [onSuccess_of_ne hreply]
    exact ⟨hreply, ⟨.published, rfl, rfl⟩, fun _ => hempty, by rintro _ _ ⟨⟩⟩
  | prove pgid =>
    have hempty := (h.held hp ha (by rw [hpc]; rfl)).quiet (by rw [hpc]; rfl)
    refine h.act_transition hp ha hadm (by rw [hpc]; rfl) (by rw [hpc]; rfl) ?_
      (fun hne => absurd hempty hne)
    simp only [State.goto, Process.next, hpc]
    intro hown
    have hreply := onSuccess_owns hown rfl
    rw [onSuccess_of_ne hreply]
    exact ⟨hreply, ⟨.proven, rfl, pgid, rfl⟩, fun _ => hempty, by rintro _ _ ⟨⟩⟩
  | beginCensus leader =>
    refine h.act_transition hp ha hadm (by rw [hpc]; rfl) (by rw [hpc]; rfl) ?_
      fun _ => ⟨fun next hf => ?_, by rintro ⟨⟩, by rintro _ _ ⟨⟩⟩
    · simp only [State.goto, Process.next, hpc]
      intro hown
      have hreply := onSuccess_owns hown rfl
      rw [onSuccess_of_ne hreply]
      exact ⟨hreply, ⟨.pending, rfl, rfl⟩, by rintro ⟨⟩, by rintro _ _ ⟨⟩⟩
    · cases next with
      | published l g => exact ⟨by simp, by simp⟩
      | _ => cases hf
  | record pgid complete residuals =>
    have hheld := h.held hp ha (by rw [hpc]; rfl)
    refine h.act_transition hp ha hadm (by rw [hpc]; rfl) (by rw [hpc]; rfl) ?_
      fun _ => ⟨fun next hf => ?_, by rintro ⟨⟩, ?_⟩
    · simp only [State.goto, Process.next, hpc]
      rintro ⟨⟩
    · cases next with
      | censusPending l g => exact ⟨by simp, by simp⟩
      | _ => cases hf
    · intro pgid' residuals' he
      injection he with hpgid hcomplete hresiduals
      apply hheld.captured pgid'
      rw [hpc, hpgid, hcomplete, hresiduals]
  | _ =>
    refine h.act_outside hp ha hadm (by rw [hpc]; rfl) ?_
    simp only [rewrites, hpc]

end

theorem Exclusive.fork {identity : ProcessIdentity} (h : Exclusive s) (hd : s.domain p ≠ [])
    (hf : s.frozen p = false) (hkernel : Kernel { s with
      living := identity :: s.living, domain := update s.domain p (identity :: s.domain p) }) :
    Exclusive { s with
      living := identity :: s.living, domain := update s.domain p (identity :: s.domain p) } := by
  have hother : ∀ {q : P}, q ≠ p → update s.domain p (identity :: s.domain p) q = s.domain q :=
    fun hq => update_of_ne hq _ _
  have hthawed : s.frozen p ≠ true := fun hfr => absurd (hfr.symm.trans hf) nofun
  obtain ⟨args, hsup, hauthor, record, hc, hb, hshield⟩ := h.covered p hd
  refine ⟨hkernel, fun {q proc'} hq ha hown => ?_, fun q hne => ?_⟩
  · have hheld := h.held hq ha hown
    by_cases hqp : q = p
    · subst hqp
      refine ⟨hheld.owner, hheld.stage, fun hquiet => absurd (hheld.quiet hquiet) hd, ?_⟩
      intro pgid residuals hpc
      exact absurd (hheld.captured pgid residuals hpc).1 hthawed
    · refine ⟨hheld.owner, hheld.stage, fun hquiet => ?_, fun pgid residuals hpc => ?_⟩
      · exact (hother hqp).trans (hheld.quiet hquiet)
      · obtain ⟨hfr, hsub⟩ := hheld.captured pgid residuals hpc
        rw [← hother hqp] at hsub
        exact ⟨hfr, hsub⟩
  · by_cases hqp : q = p
    · subst hqp
      refine ⟨args, hsup, hauthor, record, hc, hb, hshield.1, ?_⟩
      intro pgid residuals he
      exact absurd (hshield.2 pgid residuals he).1 hthawed
    · have hne' : s.domain q ≠ [] := fun he => hne ((hother hqp).trans he)
      obtain ⟨-, -, hauthor', -⟩ := h.covered q hne'
      exact absurd (Option.some.inj (hauthor'.symm.trans hauthor)) hqp

theorem Exclusive.step {e : Event P} (h : Exclusive s) (hm : Moved s e s') : Exclusive s' := by
  have hkernel := h.kernel.step hm
  cases hm with
  | @start p kind args self hp hu =>
    refine h.kept ⟨rfl, rfl, rfl, rfl, fun q => List.Subset.refl _, ?_⟩ hkernel (.inl rfl) ?_
    · rintro q args' ⟨proc, hq, hk, hargs⟩
      refine ⟨proc, (update_of_ne ?_ _ _).trans hq, hk, hargs⟩
      rintro rfl
      cases hp.symm.trans hq
    · intro q proc' hq _ hown
      rcases update_some_cases hq with ⟨rfl, he⟩ | ⟨-, hq⟩
      · rw [he] at hown
        cases kind with
        | _ => cases hown
      · exact hq
  | act hp ha hadm => exact h.act hp ha hadm
  | beat hp ha hk => exact h.beat hkernel
  | @die p proc hp ha =>
    refine h.kept ⟨rfl, rfl, rfl, rfl, fun q => List.Subset.refl _, ?_⟩ hkernel (.inl rfl) ?_
    · rintro q args' ⟨found, hq, hk, hargs⟩
      by_cases hqp : q = p
      · subst hqp
        cases hp.symm.trans hq
        exact ⟨_, update_self _ _ _, hk, hargs⟩
      · exact ⟨found, (update_of_ne hqp _ _).trans hq, hk, hargs⟩
    · intro q proc' hq ha' _
      rcases update_some_cases hq with ⟨rfl, he⟩ | ⟨-, hq⟩
      · rw [he] at ha'
        cases ha'
      · exact hq
  | appear hu =>
    exact h.kept ⟨rfl, rfl, rfl, rfl, fun q => List.Subset.refl _, fun hs => hs⟩ hkernel
      (.inl rfl) fun q proc' hq _ _ => hq
  | fork hd hf hu => exact h.fork hd hf hkernel
  | exit =>
    exact h.kept ⟨rfl, rfl, rfl, rfl, fun q => filter_subset_self _, fun hs => hs⟩ hkernel
      (.inl rfl) fun q proc' hq _ _ => hq
  | reboot =>
    refine ⟨hkernel, ?_, fun q hne => absurd rfl hne⟩
    intro q proc' hq ha
    obtain ⟨proc, -, rfl⟩ := reboot_proc hq
    cases ha

theorem Exclusive.reachable {host : String} (hs : (landing P host).Reachable s) : Exclusive s :=
  hs.invariant (Exclusive.init host) fun _ _ _ h _ he => h.step (moved he)

theorem landing_payload_is_exclusive {host : String} (hs : (landing P host).Reachable s) :
    (∀ p q, s.domain p ≠ [] → s.domain q ≠ [] → p = q) ∧
    ∀ p proc, s.proc p = some proc →
      (proc.alive = true ∧ (∃ leader, proc.pc = .token leader) ∨ s.domain p ≠ []) →
      ∃ record, s.disk.cleanup = some record ∧ record.agent = proc.args.agent ∧
        record.operation = operationOf proc.args.pr ∧ record.bootId = s.boot ∧
        record.phase ≠ .armed ∧
        (∀ env args, ∃ e, tryAcquire env args s.disk = .error e) ∧
        (∀ env agent hold, ∃ e, renew env agent hold s.disk = .error e) ∧
        ∀ env agent, ∃ e, release env agent s.disk = .error e := by
  have h := Exclusive.reachable hs
  refine ⟨fun p q hp hq => ?_, fun p proc hp hbusy => ?_⟩
  · obtain ⟨-, -, hauthor, -⟩ := h.covered p hp
    obtain ⟨-, -, hauthor', -⟩ := h.covered q hq
    exact Option.some.inj (hauthor.symm.trans hauthor')
  · have hrec : Recorded s p proc.args fun phase => phase ≠ .armed := by
      rcases hbusy with ⟨ha, leader, hpc⟩ | hne
      · have hheld := h.held hp ha (by rw [hpc]; rfl)
        refine (hheld.stage .published (by rw [hpc]; rfl)).imp ?_
        rintro phase hf rfl
        cases hf
      · obtain ⟨args, ⟨found, hq, -, hargs⟩, hrec⟩ := h.covered p hne
        cases hp.symm.trans hq
        rw [hargs]
        exact hrec.imp fun phase hshield => hshield.1
    obtain ⟨-, record, hc, hb, hphase⟩ := hrec
    exact ⟨record, hc, hb.agent, hb.operation, hb.boot, hphase, refused_of_record hc⟩

end

def demoRun : List (Event Nat) :=
  .start 0 .run ⟨"a", "1", 60⟩ ⟨1, 5⟩ :: List.replicate 8 (.act 0 (.plain 0)) ++
    [.fork 0 ⟨101, 8⟩, .die 0, .exit ⟨100, 7⟩]

theorem demoRun_reachable : ∃ s : State Nat, (landing Nat "box").Reachable s ∧
      (s.domain 0, (s.proc 0).isSome) = ([⟨101, 8⟩], true) := by
  have hrun : ((landing Nat "box").run (fun _ _ => True) (State.init Nat "box") demoRun).map
      (fun s => (s.domain 0, (s.proc 0).isSome)) = some ([⟨101, 8⟩], true) := by
    decide +kernel
  exact System.exists_reachable hrun

theorem orphan_keeps_the_lock :
    ∃ s : State Nat, (landing Nat "box").Reachable s ∧ s.domain 0 = [⟨101, 8⟩] ∧
      ∀ env args, ∃ e, tryAcquire env args s.disk = .error e := by
  obtain ⟨s, hs, hview⟩ := demoRun_reachable
  obtain ⟨hd, hsome⟩ := Prod.mk.inj hview
  obtain ⟨proc, hp⟩ := Option.isSome_iff_exists.mp hsome
  have hne : s.domain 0 ≠ [] := by
    rw [hd]
    rintro ⟨⟩
  obtain ⟨record, -, -, -, -, -, hrefused, -⟩ :=
    (landing_payload_is_exclusive hs).2 0 proc hp (.inr hne)
  exact ⟨s, hs, hd, hrefused⟩

end DevHermit.Landing
