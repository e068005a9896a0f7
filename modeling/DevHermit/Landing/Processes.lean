import DevHermit.Landing.System

namespace DevHermit.Landing

open Lib List Function Option

variable {P : Type} {s s' : State P} {p q : P} {proc : Process} {o : Oracle}

theorem settle_prefix {plan : Except LandLockError (Plan Reply)}
    (h : (o.settle plan).1 ≠ []) : ∃ p, plan = .ok p ∧ (o.settle plan).1 <+: p.1 := by
  rw [Oracle.settle.eq_def] at h ⊢
  cases plan with
  | error e => exact absurd rfl h
  | ok p =>
    refine ⟨p, rfl, ?_⟩
    cases o.cut with
    | none => exact prefix_rfl
    | some k => exact take_prefix k p.1

def Pc.inside : Pc → Bool
  | .takeAnchor | .checkAnchor | .checkClaims | .poll | .timeOut | .single | .leaving => false
  | .writeOwner | .abandon | .arm | .spawn | .clearUnstarted | .publish _ | .token _
  | .supervise _ | .beginCensus _ | .capture _ | .record _ _ _ | .prove _ | .clear
  | .finish => true

structure Kernel (s : State P) : Prop where
  pids : (s.table.map ProcessIdentity.pid).Nodup
  running : ∀ {p proc}, s.proc p = some proc → proc.alive = true → (p, proc.self) ∈ s.running
  kind : ∀ {p proc}, s.proc p = some proc → proc.pc.inside = true → proc.kind = .run
  anchor : ∀ {p proc}, s.proc p = some proc → proc.alive = true → proc.kind = .run →
    proc.pc ≠ .takeAnchor → proc.pc ≠ .leaving → s.anchor = some p
  domain : ∀ p, s.domain p ⊆ s.living

theorem Kernel.init (host : String) : Kernel (State.init P host) where
  pids := nodup_nil
  running := by rintro p proc ⟨⟩
  kind := by rintro p proc ⟨⟩
  anchor := by rintro p proc ⟨⟩
  domain := fun p => List.Subset.refl []

variable {identity : ProcessIdentity}

theorem nodup_cons_pid (h : (s.table.map ProcessIdentity.pid).Nodup)
    (hu : s.unused identity.pid = true) :
    ((identity :: s.table).map ProcessIdentity.pid).Nodup := by
  rw [map_cons, nodup_cons]
  refine ⟨fun hmem => ?_, h⟩
  obtain ⟨other, ho, he⟩ := List.mem_map.mp hmem
  have hne := List.all_eq_true.mp hu other ho
  exact (bne_iff_ne.mp hne) he

theorem nodup_living_cons (h : (s.table.map ProcessIdentity.pid).Nodup)
    (hu : s.unused identity.pid = true) :
    ((s.running.map Prod.snd ++ identity :: s.living).map ProcessIdentity.pid).Nodup :=
  (perm_middle.map _).nodup_iff.mpr (nodup_cons_pid h hu)

theorem goto_checkClaims (hpc : proc.pc = .takeAnchor) (h : s.goto proc o = .checkClaims) :
    s.anchor = none := by
  simp only [State.goto, Process.next, hpc] at h
  split_ifs at h with h₁ h₂
  exact isNone_iff_eq_none.mp h₂

theorem goto_inside (hrun : proc.pc.inside = true → proc.kind = .run)
    (h : (s.goto proc o).inside = true) : proc.kind = .run := by
  by_cases hin : proc.pc.inside = true
  · exact hrun hin
  · rw [State.goto, Process.next.eq_def] at h
    cases hpc : proc.pc with
    | poll =>
      rw [hpc] at h
      cases hr : (s.turn proc o).2 with
      | none =>
        rw [hr] at h
        cases h
      | some r =>
        cases r with
        | waiting =>
          simp only [hr] at h
          split_ifs at h
          · cases h
          · cases h
        | done =>
          simp only [hr] at h
          split_ifs at h with hk
          · exact hk
          · cases h
    | takeAnchor | checkAnchor | checkClaims =>
      simp only [hpc] at h
      split_ifs at h <;> cases h
    | timeOut | single | leaving =>
      rw [hpc] at h
      cases h
    | _ =>
      rw [hpc] at hin
      exact absurd rfl hin

theorem goto_from_takeAnchor (hpc : proc.pc = .takeAnchor) (hne : s.goto proc o ≠ .takeAnchor)
    (hl : s.goto proc o ≠ .leaving) : s.goto proc o = .checkClaims := by
  simp only [State.goto, Process.next, hpc] at hne hl ⊢
  split_ifs at hne hl ⊢
  · exact absurd rfl hl
  · rfl
  · exact absurd rfl hne

theorem Kernel.grow {domain : P → List ProcessIdentity} (h : Kernel s)
    (hu : s.unused identity.pid = true) (hd : ∀ q, domain q ⊆ identity :: s.living) :
    Kernel { s with living := identity :: s.living, domain := domain } where
  pids := nodup_living_cons h.pids hu
  running := h.running
  kind := h.kind
  anchor := h.anchor
  domain := hd

theorem Kernel.exit (h : Kernel s) : Kernel (s.exit identity) where
  pids := by
    refine h.pids.sublist (List.Sublist.map _ ?_)
    exact (List.Sublist.refl _).append filter_sublist
  running := h.running
  kind := h.kind
  anchor := h.anchor
  domain := by
    intro q other ho
    obtain ⟨hmem, hne⟩ := mem_filter.mp ho
    exact mem_filter.mpr ⟨h.domain q hmem, hne⟩

theorem reboot_proc {proc' : Process} (h : s.reboot.proc q = some proc') :
    ∃ proc, s.proc q = some proc ∧ proc' = { proc with alive := false } := by
  obtain ⟨proc, hp, rfl⟩ := map_eq_some_iff.mp h
  exact ⟨proc, hp, rfl⟩

theorem Kernel.reboot (h : Kernel s) : Kernel s.reboot where
  pids := nodup_nil
  running := by
    intro q proc' hq ha
    obtain ⟨proc, -, rfl⟩ := reboot_proc hq
    cases ha
  kind := by
    intro q proc' hq hin
    obtain ⟨proc, hp, he⟩ := reboot_proc hq
    have hrun := h.kind hp
    rw [he] at hin ⊢
    exact hrun hin
  anchor := by
    intro q proc' hq ha
    obtain ⟨proc, -, rfl⟩ := reboot_proc hq
    cases ha
  domain := fun q => List.Subset.refl []

theorem Kernel.look (h : Kernel s) (hmem : identity ∈ s.table) :
    s.look identity.pid = .found identity.startTicks := by
  rw [State.look]
  cases hf : s.table.find? fun other => other.pid == identity.pid with
  | none =>
    have hn := List.find?_eq_none.mp hf identity hmem
    exact absurd (beq_self_eq_true _) hn
  | some other =>
    have hbeq := List.find?_some hf
    have hpid : other.pid = identity.pid := beq_iff_eq.mp hbeq
    have he : other = identity :=
      inj_on_of_nodup_map h.pids (List.mem_of_find?_eq_some hf) hmem hpid
    rw [he]

theorem Kernel.ticks (h : Kernel s) (hmem : identity ∈ s.table) (o : Oracle)
    (self : ProcessIdentity) : (s.env o self).ticks identity.pid = .found identity.startTicks ∨
      (s.env o self).ticks identity.pid = .failed := by
  have ht : (s.env o self).ticks identity.pid =
      if o.readable identity.pid then s.look identity.pid else .failed := rfl
  rw [ht]
  split_ifs
  · exact .inl (h.look hmem)
  · exact .inr rfl

variable {self : ProcessIdentity}

theorem Kernel.not_absent (h : Kernel s) (hmem : identity ∈ s.table) :
    exactProcessLiveness (s.env o self) identity ≠ some false := by
  rw [exactProcessLiveness]
  rcases h.ticks hmem o self with ht | ht
  · rw [ht]
    simp
  · rw [ht]
    rintro ⟨⟩

theorem env_bootId {b : BootId} (h : (s.env o self).bootId = some b) : b = s.boot := by
  have hb : (s.env o self).bootId = if o.bootReadable then some s.boot else none := rfl
  rw [hb] at h
  split_ifs at h
  exact (Option.some.inj h).symm

theorem ownerLiveness_dead {env : Env} {d : Disk} {reason : DeathReason}
    (h : ownerLiveness env d = .ok (.dead reason)) :
    ∃ owner bootId, d.owner = .full owner ∧ owner.host = env.host ∧ env.bootId = some bootId ∧
      (owner.bootId = bootId → ∃ reason, processLiveness env owner.identity = .dead reason) := by
  rw [ownerLiveness, bind_eq_ok] at h
  obtain ⟨found, hread, h⟩ := h
  cases found with
  | none => cases h
  | some owner =>
    have hfile : d.owner = .full owner := by
      rw [Disk.readProcessOwner] at hread
      cases hd : d.owner with
      | absent | blank =>
        rw [hd] at hread
        cases hread
      | full content =>
        rw [hd] at hread
        cases hread
        rfl
    dsimp only at h
    split_ifs at h with hhost
    · cases h
    · rw [bind_eq_ok] at h
      obtain ⟨bootId, hboot, h⟩ := h
      refine ⟨owner, bootId, hfile, not_not.mp hhost, currentBootId_ok hboot, fun hb => ?_⟩
      rw [if_neg (not_not.mpr hb)] at h
      exact ⟨reason, Except.ok.inj h⟩

theorem Kernel.owner_alive (h : Kernel s) {owner : ProcessOwner} {reason : DeathReason}
    (hfile : s.disk.owner = .full owner) (hb : owner.bootId = s.boot)
    (hmem : owner.identity ∈ s.table) :
    ownerLiveness (s.env o self) s.disk ≠ .ok (.dead reason) := by
  intro hdead
  obtain ⟨owner', bootId, hfile', -, hboot, himp⟩ := ownerLiveness_dead hdead
  cases hfile.symm.trans hfile'
  obtain ⟨reason', hr⟩ := himp (hb.trans (env_bootId hboot).symm)
  rw [processLiveness] at hr
  rcases h.ticks hmem o self with ht | ht
  · rw [ht] at hr
    dsimp only at hr
    rw [if_pos rfl] at hr
    cases hr
  · rw [ht] at hr
    cases hr

theorem Kernel.self_mem (h : Kernel s) (hp : s.proc p = some proc) (ha : proc.alive = true) :
    proc.self ∈ s.table :=
  mem_append_left _ (List.mem_map_of_mem (h.running hp ha))

variable [DecidableEq P]

inductive Moved (s : State P) : Event P → State P → Prop
  | start {p : P} {kind : Kind} {args : AcquireArgs} {self : ProcessIdentity}
      (hp : s.proc p = none) (hu : s.unused self.pid = true) :
      Moved s (.start p kind args self) { s with
        running := (p, self) :: s.running
        proc := Function.update s.proc p (some ⟨kind, args, kind.entry, self, true⟩) }
  | act {p : P} {o : Oracle} {proc : Process} (hp : s.proc p = some proc)
      (ha : proc.alive = true) (hadm : s.admits p proc o = true) :
      Moved s (.act p o) (s.act p proc o)
  | beat {p : P} {o : Oracle} {proc : Process} (hp : s.proc p = some proc)
      (ha : proc.alive = true) (hk : proc.kind = .run) : Moved s (.beat p o) (s.beat proc o)
  | die {p : P} {proc : Process} (hp : s.proc p = some proc) (ha : proc.alive = true) :
      Moved s (.die p) (s.die p proc)
  | appear {identity : ProcessIdentity} (hu : s.unused identity.pid = true) :
      Moved s (.appear identity) { s with living := identity :: s.living }
  | fork {p : P} {identity : ProcessIdentity} (hd : s.domain p ≠ []) (hf : s.frozen p = false)
      (hu : s.unused identity.pid = true) :
      Moved s (.fork p identity) { s with
        living := identity :: s.living
        domain := Function.update s.domain p (identity :: s.domain p) }
  | exit {identity : ProcessIdentity} : Moved s (.exit identity) (s.exit identity)
  | reboot : Moved s .reboot s.reboot

theorem moved {e : Event P} (h : s.step e = some s') : Moved s e s' := by
  cases e with
  | start p kind args self =>
    obtain ⟨⟨hp, hu⟩, hs⟩ := ite_none_right_eq_some.mp h
    cases hs
    exact .start (isNone_iff_eq_none.mp hp) hu
  | act p o =>
    rw [State.step] at h
    cases hp : s.proc p with
    | none =>
      rw [hp] at h
      cases h
    | some proc =>
      rw [hp] at h
      obtain ⟨⟨ha, hadm⟩, hs⟩ := ite_none_right_eq_some.mp h
      cases hs
      exact .act hp ha hadm
  | beat p o =>
    rw [State.step] at h
    cases hp : s.proc p with
    | none =>
      rw [hp] at h
      cases h
    | some proc =>
      rw [hp] at h
      obtain ⟨⟨ha, hk⟩, hs⟩ := ite_none_right_eq_some.mp h
      cases hs
      exact .beat hp ha hk
  | die p =>
    rw [State.step] at h
    cases hp : s.proc p with
    | none =>
      rw [hp] at h
      cases h
    | some proc =>
      rw [hp] at h
      obtain ⟨ha, hs⟩ := ite_none_right_eq_some.mp h
      cases hs
      exact .die hp ha
  | appear identity =>
    obtain ⟨hu, hs⟩ := ite_none_right_eq_some.mp h
    cases hs
    exact .appear hu
  | fork p identity =>
    obtain ⟨⟨hd, hf, hu⟩, hs⟩ := ite_none_right_eq_some.mp h
    cases hs
    exact .fork hd hf hu
  | exit identity =>
    cases h
    exact .exit
  | reboot =>
    cases h
    exact .reboot

theorem update_some_cases {f : P → Option Process} {new proc' : Process}
    (h : Function.update f p (some new) q = some proc') :
    (q = p ∧ proc' = new) ∨ (q ≠ p ∧ f q = some proc') := by
  by_cases hq : q = p
  · subst hq
    rw [update_self] at h
    cases h
    exact .inl ⟨rfl, rfl⟩
  · rw [update_of_ne hq] at h
    exact .inr ⟨hq, h⟩

theorem anchorAfter_self {pc pc' : Pc} (htake : pc = .takeAnchor → pc' = .checkClaims)
    (hkeep : pc ≠ .takeAnchor → s.anchor = some p) (hleave : pc' ≠ .leaving) :
    s.anchorAfter p pc pc' = some p := by
  rw [State.anchorAfter]
  split_ifs with h₁ h₂
  · rfl
  · exact absurd h₂.1 hleave
  · exact hkeep fun h => h₁ ⟨h, htake h⟩

theorem anchorAfter_other (hq : q ≠ p) (ha : s.anchor = some q) :
    s.anchorAfter p proc.pc (s.goto proc o) = some q := by
  rw [State.anchorAfter]
  split_ifs with h₁ h₂
  · rw [goto_checkClaims h₁.1 h₁.2] at ha
    cases ha
  · exact absurd (Option.some.inj (ha.symm.trans h₂.2)) hq
  · exact ha

theorem Kernel.act (h : Kernel s) (hp : s.proc p = some proc) (ha : proc.alive = true)
    (hadm : s.admits p proc o = true) : Kernel (s.act p proc o) where
  pids := by
    have hspawn : proc.pc = .spawn ∧ s.goto proc o ≠ .clearUnstarted →
        s.unused o.leader.pid = true := by
      rintro ⟨hpc, hne⟩
      simp only [State.admits, hpc, Bool.or_eq_true] at hadm
      rcases hadm with hr | hu
      · simp only [State.goto, Process.next, hpc, hr, if_true] at hne
        exact absurd rfl hne
      · exact hu
    rw [State.table, State.act]
    dsimp only
    split_ifs with hc
    · exact nodup_living_cons h.pids (hspawn hc)
    · exact h.pids
  running := by
    intro q proc' hq ha'
    rcases update_some_cases hq with ⟨rfl, he⟩ | ⟨-, hq⟩
    · have hmem := h.running hp ha
      rw [he]
      exact hmem
    · exact h.running hq ha'
  kind := by
    intro q proc' hq hin
    rcases update_some_cases hq with ⟨rfl, he⟩ | ⟨-, hq⟩
    · have hrun := goto_inside (s := s) (o := o) (h.kind hp)
      rw [he] at hin ⊢
      exact hrun hin
    · exact h.kind hq hin
  anchor := by
    intro q proc' hq ha' hk hne hl
    rcases update_some_cases hq with ⟨rfl, rfl⟩ | ⟨hqp, hq⟩
    · refine anchorAfter_self (fun hpc => goto_from_takeAnchor hpc hne hl) ?_ hl
      intro hpc
      refine h.anchor hp ha hk hpc ?_
      intro hleave
      apply hl
      simp only [State.goto, Process.next, hleave]
    · exact anchorAfter_other hqp (h.anchor hq ha' hk hne hl)
  domain := by
    intro q identity hid
    have hsub : s.domain q ⊆ s.living := h.domain q
    have hgrow : identity ∈ s.living → identity ∈ (s.act p proc o).living := by
      intro hl
      rw [State.act]
      dsimp only
      split_ifs
      · exact mem_cons_of_mem _ hl
      · exact hl
    apply hgrow
    rw [State.act] at hid
    dsimp only at hid
    cases hpc : proc.pc with
    | token leader =>
      simp only [hpc] at hid
      split_ifs at hid with hl hmem
      · exact hsub hid
      · by_cases hq : q = p
        · subst hq
          rw [update_self, mem_singleton] at hid
          exact hid ▸ hmem
        · rw [update_of_ne hq] at hid
          exact hsub hid
      · by_cases hq : q = p
        · subst hq
          rw [update_self] at hid
          cases hid
        · rw [update_of_ne hq] at hid
          exact hsub hid
    | _ =>
      simp only [hpc] at hid
      exact hsub hid

theorem Kernel.start {kind : Kind} {args : AcquireArgs} {self : ProcessIdentity} (h : Kernel s)
    (hp : s.proc p = none) (hu : s.unused self.pid = true) :
    Kernel { s with
      running := (p, self) :: s.running
      proc := Function.update s.proc p (some ⟨kind, args, kind.entry, self, true⟩) } where
  pids := nodup_cons_pid h.pids hu
  running := by
    intro q proc' hq ha
    rcases update_some_cases hq with ⟨rfl, rfl⟩ | ⟨-, hq⟩
    · exact mem_cons_self
    · exact mem_cons_of_mem _ (h.running hq ha)
  kind := by
    intro q proc' hq hin
    rcases update_some_cases hq with ⟨rfl, rfl⟩ | ⟨-, hq⟩
    · cases kind with
      | _ => cases hin
    · exact h.kind hq hin
  anchor := by
    intro q proc' hq ha hk hne hl
    rcases update_some_cases hq with ⟨rfl, rfl⟩ | ⟨-, hq⟩
    · cases hk
      exact absurd rfl hne
    · exact h.anchor hq ha hk hne hl
  domain := h.domain

theorem Kernel.die (h : Kernel s) (hp : s.proc p = some proc) : Kernel (s.die p proc) where
  pids := by
    refine h.pids.sublist (List.Sublist.map _ ?_)
    exact (filter_sublist.map _).append (List.Sublist.refl _)
  running := by
    intro q proc' hq ha
    rcases update_some_cases hq with ⟨rfl, rfl⟩ | ⟨hqp, hq⟩
    · cases ha
    · exact mem_filter.mpr ⟨h.running hq ha, bne_iff_ne.mpr hqp⟩
  kind := by
    intro q proc' hq hin
    rcases update_some_cases hq with ⟨rfl, he⟩ | ⟨-, hq⟩
    · have hrun := h.kind hp
      rw [he] at hin ⊢
      exact hrun hin
    · exact h.kind hq hin
  anchor := by
    intro q proc' hq ha hk hne hl
    rcases update_some_cases hq with ⟨rfl, rfl⟩ | ⟨hqp, hq⟩
    · cases ha
    · have hq' := h.anchor hq ha hk hne hl
      exact (if_neg fun hp' => hqp (Option.some.inj (hq'.symm.trans hp'))).trans hq'
  domain := h.domain

theorem Kernel.step {e : Event P} (h : Kernel s) (hm : Moved s e s') : Kernel s' := by
  cases hm with
  | start hp hu => exact h.start hp hu
  | act hp ha hadm => exact h.act hp ha hadm
  | beat hp ha hk => exact ⟨h.pids, h.running, h.kind, h.anchor, h.domain⟩
  | die hp ha => exact h.die hp
  | appear hu => exact h.grow hu fun q => List.Subset.trans (h.domain q) (subset_cons_self _ _)
  | @fork p identity hd hf hu =>
    refine h.grow hu fun q => ?_
    by_cases hq : q = p
    · subst hq
      rw [update_self]
      exact cons_subset_cons _ (h.domain q)
    · rw [update_of_ne hq]
      exact List.Subset.trans (h.domain q) (subset_cons_self _ _)
  | exit => exact h.exit
  | reboot => exact h.reboot

end DevHermit.Landing
