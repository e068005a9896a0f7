import DevHermit.Landing.Payload

namespace DevHermit.Landing

open Lib Function

def FsOp.touchesHolder : FsOp → Bool
  | .truncateHolder | .writeHolder _ | .removeHolder => true
  | _ => false

def Process.seizes (proc : Process) : Prop :=
  proc.pc = .poll ∨ proc.pc = .single ∧ proc.kind = .reclaimDead

theorem Script.touches {proc : Process} {o : Oracle} {env : Env} {d : Disk} {pl : Plan Reply}
    {holder : LockState} {op : FsOp} (h : Script proc o env d proc.pc pl) (hop : op ∈ pl.1)
    (htouch : op.touchesHolder = true) (hholder : d.holder = .full holder)
    (hlive : holder.liveAt env.now) : (∃ reason, ownerLiveness env d = .ok (.dead reason)) ∨
      (¬ proc.seizes ∧ proc.args.agent = holder.agent) := by
  have hread : d.readHolder = .ok (some holder) := by rw [Disk.readHolder, hholder]
  generalize hpc : proc.pc = pc at h
  cases h with
  | idle | nothing => cases hop
  | writesOwner | arms | clearsUnstarted | clears =>
    rcases List.mem_pair.mp hop with rfl | rfl
    · cases htouch
    · cases htouch
  | grants hclean hfound hdead =>
    cases hread.symm.trans hfound
    exact .inl (hdead holder rfl hlive)
  | reclaims hkind hfound hdead hverdict => exact .inl ⟨_, hdead⟩
  | renews hkind hclean hfound hagent =>
    cases hholder.symm.trans hfound
    refine .inr ⟨?_, hagent.symm⟩
    rintro (hpoll | ⟨-, hreclaim⟩)
    · cases hpc.symm.trans hpoll
    · cases hkind.symm.trans hreclaim
  | releases hr hclean hfound hagent =>
    cases hholder.symm.trans hfound
    refine .inr ⟨?_, hagent.symm⟩
    rintro (hpoll | ⟨hsingle, hreclaim⟩)
    · cases hpc.symm.trans hpoll
      cases hr
    · cases hpc.symm.trans hsingle
      cases hreclaim.symm.trans hr
  | _ =>
    cases List.mem_singleton.mp hop
    cases htouch

section

variable {P : Type}

def timely (s : State P) : Event P → Prop
  | .act p o => ∀ proc ∈ s.proc p,
      (proc.pc = .writeOwner → s.lessee = some p) ∧ (proc.pc = .poll → o.cut ≠ some 2)
  | _ => True

instance [DecidableEq P] (s : State P) (e : Event P) : Decidable (timely s e) :=
  match e with
  | .act p o => inferInstanceAs (Decidable (∀ proc ∈ s.proc p,
      (proc.pc = .writeOwner → s.lessee = some p) ∧ (proc.pc = .poll → o.cut ≠ some 2)))
  | .start _ _ _ _ | .beat _ _ | .die _ | .appear _ | .fork _ _ | .exit _ | .reboot =>
    .isTrue trivial

def LesseeDead (s : State P) : Prop :=
  ∃ p proc, s.lessee = some p ∧ s.proc p = some proc ∧ proc.kind = .run ∧ proc.alive = false

def OwnedBy (s : State P) (p : P) (owner : ProcessOwner) : Prop :=
  ∃ proc, s.proc p = some proc ∧ proc.kind = .run ∧
    (proc.alive = true → owner.bootId = s.boot ∧ owner.identity = proc.self)

structure Leased (s : State P) : Prop where
  kernel : Kernel s
  owner : ∀ owner, s.disk.owner = .full owner → ∃ p, s.lessee = some p ∧ OwnedBy s p owner

variable {s s' : State P} {p q : P} {proc : Process} {o : Oracle}

theorem Leased.init (host : String) : Leased (State.init P host) where
  kernel := Kernel.init host
  owner := by rintro owner ⟨⟩

theorem Leased.lessee_dead (h : Leased s) {self : ProcessIdentity} {reason : DeathReason}
    (hdead : ownerLiveness (s.env o self) s.disk = .ok (.dead reason)) : LesseeDead s := by
  obtain ⟨owner, -, hfile, -⟩ := ownerLiveness_dead hdead
  obtain ⟨p, hlessee, proc, hp, hkind, hself⟩ := h.owner owner hfile
  refine ⟨p, proc, hlessee, hp, hkind, ?_⟩
  by_contra ha
  rw [Bool.not_eq_false] at ha
  obtain ⟨hb, hid⟩ := hself ha
  exact h.kernel.owner_alive hfile hb (hid ▸ h.kernel.self_mem hp ha) hdead

theorem Leased.kept (h : Leased s) (hkernel : Kernel s') (hlessee : s'.lessee = s.lessee)
    (howner : s'.disk.owner = s.disk.owner ∨ s'.disk.owner = .absent)
    (howned : ∀ {p owner}, OwnedBy s p owner → OwnedBy s' p owner) : Leased s' where
  kernel := hkernel
  owner := by
    intro owner hfile
    rcases howner with he | he
    · obtain ⟨p, hp, hby⟩ := h.owner owner (he.symm.trans hfile)
      exact ⟨p, hlessee.trans hp, howned hby⟩
    · cases he.symm.trans hfile

end

section

variable {P : Type} [DecidableEq P] {s s' : State P} {p q : P} {proc : Process} {o : Oracle}
  {owner : ProcessOwner}

theorem OwnedBy.act (hp : s.proc p = some proc) (h : OwnedBy s q owner) :
    OwnedBy (s.act p proc o) q owner := by
  obtain ⟨found, hq, hkind, hself⟩ := h
  by_cases hqp : q = p
  · subst hqp
    cases hp.symm.trans hq
    exact ⟨_, update_self _ _ _, hkind, hself⟩
  · exact ⟨found, (update_of_ne hqp _ _).trans hq, hkind, hself⟩

theorem act_lessee (hpc : proc.pc ≠ .poll) : (s.act p proc o).lessee = s.lessee :=
  if_neg fun h => hpc h.1

section

variable (h : Leased s) (hp : s.proc p = some proc) (ha : proc.alive = true)
  (hadm : s.admits p proc o = true)
include h hp ha hadm

theorem Leased.act_poll (hpc : proc.pc = .poll) (hcut : o.cut ≠ some 2) :
    Leased (s.act p proc o) := by
  have hkernel := h.kernel.act hp ha hadm
  have hnot : proc.pc ≠ .writeOwner := by
    rw [hpc]
    rintro ⟨⟩
  have howner := act_owner (s := s) (p := p) (o := o) hnot
  have hunwritten : (s.turn proc o).1.any FsOp.writesHolder = false → Leased (s.act p proc o) := by
    intro hw
    refine h.kept hkernel (if_neg ?_) howner fun hby => hby.act hp
    rw [hw]
    rintro ⟨-, ⟨⟩⟩
  have hremoved : (s.act p proc o).disk.owner = .absent → Leased (s.act p proc o) := by
    intro habsent
    refine ⟨hkernel, fun owner hfile => ?_⟩
    cases habsent.symm.trans hfile
  rcases s.turn_script proc o with ht | ⟨pl, hscript, hturn⟩
  · exact hunwritten (by rw [ht]; rfl)
  · rw [hpc] at hscript
    cases hscript with
    | idle hg => cases hg
    | vacates hr | releases hr => cases hr
    | transitions htarget => cases htarget
    | waits hclean =>
      apply hunwritten
      rcases hturn with ⟨-, ht⟩ | ⟨k, -, ht⟩
      · rw [ht]
        rfl
      · rw [ht]
        rcases k with - | k
        · rfl
        · rw [List.take_of_length_le (Nat.le_add_left 1 k)]
          rfl
    | grants hclean hread hdead =>
      rcases hturn with ⟨-, ht⟩ | ⟨k, hk, ht⟩
      · apply hremoved
        rw [State.act, ht]
        rfl
      · rcases k with - | - | - | - | k
        · exact hunwritten (by rw [ht]; rfl)
        · exact hunwritten (by rw [ht]; rfl)
        · exact absurd hk hcut
        · apply hremoved
          rw [State.act, ht]
          rfl
        · rw [List.take_of_length_le (Nat.le_add_left 4 k)] at ht
          apply hremoved
          rw [State.act, ht]
          rfl

theorem Leased.act_writeOwner (hpc : proc.pc = .writeOwner)
    (hlessee : s.lessee = some p) : Leased (s.act p proc o) := by
  have hkernel := h.kernel.act hp ha hadm
  have hsame : (s.act p proc o).lessee = s.lessee := act_lessee (by rw [hpc]; rintro ⟨⟩)
  rcases s.turn_script proc o with ht | ⟨pl, hscript, hturn⟩
  · refine h.kept hkernel hsame (.inl ?_) fun hby => hby.act hp
    rw [State.act, ht]
    rfl
  · rw [hpc] at hscript
    cases hscript with
    | idle hg => cases hg
    | vacates hr | releases hr => cases hr
    | transitions htarget => cases htarget
    | @writesOwner bootId hboot =>
      have hown : OwnedBy (s.act p proc o) p
          ⟨(s.env o proc.self).host, bootId, (s.env o proc.self).self⟩ := by
        have hb : bootId = s.boot := env_bootId hboot
        have hkind : proc.kind = .run := h.kernel.kind hp (by rw [hpc]; rfl)
        refine ⟨_, update_self _ _ _, hkind, ?_⟩
        exact fun _ => ⟨hb, rfl⟩
      have hfull : s.turn proc o = ([.truncateOwner, .writeOwner ⟨(s.env o proc.self).host,
          bootId, (s.env o proc.self).self⟩], (s.turn proc o).2) →
          Leased (s.act p proc o) := by
        intro ht
        refine ⟨hkernel, fun owner hfile => ⟨p, hsame.trans hlessee, ?_⟩⟩
        rw [State.act, ht] at hfile
        cases hfile
        exact hown
      rcases hturn with ⟨-, ht⟩ | ⟨k, -, ht⟩
      · exact hfull (by rw [ht])
      · rcases k with - | - | k
        · refine h.kept hkernel hsame (.inl ?_) fun hby => hby.act hp
          rw [State.act, ht]
          rfl
        · refine ⟨hkernel, fun owner hfile => ?_⟩
          rw [State.act, ht] at hfile
          cases hfile
        · exact hfull (by rw [ht, List.take_of_length_le (Nat.le_add_left 2 k)])

end

theorem Leased.step {e : Event P} (h : Leased s) (hok : timely s e) (hm : Moved s e s') :
    Leased s' := by
  have hkernel := h.kernel.step hm
  cases hm with
  | @start p kind args self hp hu =>
    refine h.kept hkernel rfl (.inl rfl) ?_
    rintro q owner ⟨proc, hq, hby⟩
    refine ⟨proc, (update_of_ne ?_ _ _).trans hq, hby⟩
    rintro rfl
    cases hp.symm.trans hq
  | @act p o proc hp ha hadm =>
    obtain ⟨hwrite, hpoll⟩ := hok proc (Option.mem_def.mpr hp)
    by_cases hw : proc.pc = .writeOwner
    · exact h.act_writeOwner hp ha hadm hw (hwrite hw)
    · by_cases hpc : proc.pc = .poll
      · exact h.act_poll hp ha hadm hpc (hpoll hpc)
      · exact h.kept hkernel (act_lessee hpc) (act_owner hw) fun hby => hby.act hp
  | beat hp ha hk =>
    exact h.kept hkernel rfl (perform_owner (fun op hop => (pulse_spares hop).2) s.disk)
      fun hby => hby
  | @die p proc hp ha =>
    refine h.kept hkernel rfl (.inl rfl) ?_
    rintro q owner ⟨found, hq, hkind, hself⟩
    by_cases hqp : q = p
    · subst hqp
      cases hp.symm.trans hq
      exact ⟨_, update_self _ _ _, hkind, nofun⟩
    · exact ⟨found, (update_of_ne hqp _ _).trans hq, hkind, hself⟩
  | appear hu => exact h.kept hkernel rfl (.inl rfl) fun hby => hby
  | fork hd hf hu => exact h.kept hkernel rfl (.inl rfl) fun hby => hby
  | exit => exact h.kept hkernel rfl (.inl rfl) fun hby => hby
  | reboot =>
    refine h.kept hkernel rfl (.inl rfl) ?_
    rintro q owner ⟨proc, hq, hkind, -⟩
    refine ⟨{ proc with alive := false }, ?_, hkind, nofun⟩
    rw [State.reboot]
    dsimp only
    rw [hq]
    rfl

theorem Leased.reachable {host : String} (hs : (landing P host).ReachableWhen timely s) :
    Leased s :=
  hs.invariant (Leased.init host) fun _ _ _ h hok he => h.step hok (moved he)

theorem unexpired_lease_not_stolen {host : String}
    (hs : (landing P host).ReachableWhen timely s) {holder : LockState}
    (hholder : s.disk.holder = .full holder) (hlive : holder.liveAt o.now) {op : FsOp}
    (htouch : op.touchesHolder = true) :
    (op ∈ (s.turn proc o).1 → (proc.seizes → LesseeDead s) ∧
      ∀ q taker, s.lessee = some q → s.proc q = some taker → taker.kind ≠ .run →
        proc.args.agent = holder.agent) ∧
    (op ∈ s.pulse proc o → proc.args.agent = holder.agent) := by
  have h := Leased.reachable hs
  refine ⟨fun hop => ?_, fun hop => ?_⟩
  · rcases s.turn_cases proc o with ht | ⟨pl, hscript, hpre, -⟩
    · rw [ht] at hop
      cases hop
    · rcases hscript.touches (hpre.subset hop) htouch hholder hlive with ⟨reason, hdead⟩ |
        ⟨hnot, hagent⟩
      · have hlessee := h.lessee_dead hdead
        refine ⟨fun _ => hlessee, fun q taker hq htaker hkind => ?_⟩
        obtain ⟨q', taker', hq', htaker', hrun, -⟩ := hlessee
        cases hq.symm.trans hq'
        cases htaker.symm.trans htaker'
        exact absurd hrun hkind
      · exact ⟨fun hseizes => absurd hseizes hnot, fun _ _ _ _ _ => hagent⟩
  · obtain ⟨found, hfound, hagent, -⟩ := pulse_prefix (List.ne_nil_of_mem hop)
    cases hholder.symm.trans hfound
    exact hagent.symm

end

def deadSupervisor : List (Event Nat) :=
  .start 0 .run ⟨"a", "1", 60⟩ ⟨1, 5⟩ :: List.replicate 4 (.act 0 (.plain 0)) ++
    [.die 0, .start 2 .acquire ⟨"c", "3", 60⟩ ⟨3, 7⟩, .act 2 (.plain 0), .act 2 (.plain 0)]

def thief : Process := ⟨.acquire, ⟨"c", "3", 60⟩, .poll, ⟨3, 7⟩, true⟩

theorem dead_supervisor_is_succeeded :
    ∃ s : State Nat, (landing Nat "box").ReachableWhen timely s ∧ s.proc 2 = some thief ∧
      .truncateHolder ∈ (s.turn thief (.plain 1)).1 ∧ LesseeDead s := by
  have hrun : ((landing Nat "box").run timely (State.init Nat "box") deadSupervisor).map
      (fun s => (s.disk.holder, s.proc 2, decide (.truncateHolder ∈ (s.turn thief (.plain 1)).1))) =
      some (.full ⟨"a", ⟨none, none, none, none, none, none⟩, "1", "box", 0, 60, none⟩,
        some thief, true) := by
    decide +kernel
  obtain ⟨s, hs, hview⟩ := System.exists_reachable hrun
  obtain ⟨hholder, hview⟩ := Prod.mk.inj hview
  obtain ⟨hp, hop⟩ := Prod.mk.inj hview
  have hop := of_decide_eq_true hop
  have hlive : (Oracle.plain 1).now < 60 := by decide
  have htouch : FsOp.truncateHolder.touchesHolder = true := rfl
  have hdead := (unexpired_lease_not_stolen (o := .plain 1) hs hholder hlive htouch).1 hop
  exact ⟨s, hs, hp, hop, hdead.1 (.inl rfl)⟩

def Event.reading {P : Type} : Event P → Option Int
  | .act _ o | .beat _ o => some o.now
  | _ => none

def lateOwnerWrite : List (Event Nat) :=
  [.start 1 .acquire ⟨"b", "2", 3600⟩ ⟨2, 6⟩, .act 1 (.plain 0), .act 1 (.plain 0),
    .start 0 .run ⟨"a", "1", 1⟩ ⟨1, 5⟩, .act 0 (.plain 0), .act 0 (.plain 0), .act 0 (.plain 0),
    .act 1 (.plain 5), .act 0 (.plain 6), .act 0 (.plain 6), .die 0,
    .start 2 .acquire ⟨"c", "3", 60⟩ ⟨3, 7⟩, .act 2 (.plain 6), .act 2 (.plain 6)]

theorem manual_lease_stolen_after_late_owner_write :
    (lateOwnerWrite.filterMap Event.reading).Pairwise (· ≤ ·) ∧
      ∃ (s : State Nat) (holder : LockState) (taker : Process),
        (landing Nat "box").Reachable s ∧ s.proc 2 = some thief ∧ thief.pc = .poll ∧
        s.disk.holder = .full holder ∧ holder.liveAt 7 ∧ thief.args.agent ≠ holder.agent ∧
        .truncateHolder ∈ (s.turn thief (.plain 7)).1 ∧
        s.lessee = some 1 ∧ s.proc 1 = some taker ∧ taker.kind = .acquire := by
  refine ⟨by decide +kernel, ?_⟩
  have hrun : ((landing Nat "box").run (fun _ _ => True) (State.init Nat "box")
      lateOwnerWrite).map (fun s => ((s.proc 2, s.disk.holder, s.lessee, s.proc 1),
        decide (.truncateHolder ∈ (s.turn thief (.plain 7)).1))) =
      some ((some thief, .full ⟨"b", ⟨none, none, none, none, none, none⟩, "2", "box", 5, 3605,
        some ⟨"a", none⟩⟩, some 1, some ⟨.acquire, ⟨"b", "2", 3600⟩, .leaving, ⟨2, 6⟩, true⟩),
        true) := by
    decide +kernel
  obtain ⟨s, hs, hview⟩ := System.exists_reachable hrun
  obtain ⟨hview, hop⟩ := Prod.mk.inj hview
  obtain ⟨hp, hview⟩ := Prod.mk.inj hview
  obtain ⟨hholder, hview⟩ := Prod.mk.inj hview
  obtain ⟨hlessee, htaker⟩ := Prod.mk.inj hview
  refine ⟨s, _, _, hs, hp, rfl, hholder, ?_, by decide, of_decide_eq_true hop, hlessee, htaker, rfl⟩
  exact (by decide : (7 : Int) < 3605)

end DevHermit.Landing
