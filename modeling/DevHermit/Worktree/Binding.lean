import DevHermit.Worktree.Clean

namespace DevHermit.Worktree.Clean

open Lib List Option Function Script

def Bound (w : World) : Prop :=
  ∀ p place, place ∈ (w.tree p).dirs → ∃ s, w.slot = some s ∧ s.branch p ≠ "-" ∧
    (place ≠ .canonical → .canonical ∉ (w.tree p).dirs ∧
      ∃ phase, s.releaseJournal = some ⟨p, .canonical, place, phase⟩)

structure Plain (s : SlotState) (w : World) : Prop where
  slot : w.slot = some s
  dirs : ∀ p, ∀ place ∈ (w.tree p).dirs, place = .canonical ∧ s.branch p ≠ "-"

structure Armed (s : SlotState) (p : Product) (fenced : Loc) (w : World) : Prop where
  slot : w.slot = some s
  journal : ∃ phase, s.releaseJournal = some ⟨p, .canonical, fenced, phase⟩
  apart : fenced ≠ .canonical
  own : ∀ place ∈ (w.tree p).dirs, s.branch p ≠ "-" ∧ (place = .canonical ∨ place = fenced)
  single : .canonical ∈ (w.tree p).dirs → fenced ∉ (w.tree p).dirs
  others : ∀ q, q ≠ p → ∀ place ∈ (w.tree q).dirs, place = .canonical ∧ s.branch q ≠ "-"

variable {s : SlotState} {w : World}

theorem Plain.bound (h : Plain s w) : Bound w := by
  intro p place hplace
  obtain ⟨rfl, hbranch⟩ := h.dirs p place hplace
  exact ⟨s, h.slot, hbranch, fun hne => (hne rfl).elim⟩

variable {fenced : Loc} {p : Product}

theorem Armed.bound (h : Armed s p fenced w) : Bound w := by
  intro q place hplace
  by_cases hq : q = p
  · subst hq
    obtain ⟨hbranch, hcases⟩ := h.own place hplace
    refine ⟨s, h.slot, hbranch, fun hne => ?_⟩
    rcases hcases with rfl | rfl
    · exact (hne rfl).elim
    · exact ⟨fun hcanonical => h.single hcanonical hplace, h.journal⟩
  · obtain ⟨rfl, hbranch⟩ := h.others q hq place hplace
    exact ⟨s, h.slot, hbranch, fun hne => (hne rfl).elim⟩

theorem Bound.plain (h : Bound w) (hslot : w.slot = some s) (hjournal : s.releaseJournal = none) :
    Plain s w := by
  refine ⟨hslot, fun p place hplace => ?_⟩
  obtain ⟨s', hs', hbranch, hfenced⟩ := h p place hplace
  obtain rfl : s = s' := Option.some.inj (hslot.symm.trans hs')
  refine ⟨?_, hbranch⟩
  by_contra hne
  obtain ⟨-, phase, hphase⟩ := hfenced hne
  rw [hjournal] at hphase
  cases hphase

theorem Bound.armed {phase : JournalPhase} (h : Bound w) (hslot : w.slot = some s)
    (hapart : fenced ≠ .canonical)
    (hjournal : s.releaseJournal = some ⟨p, .canonical, fenced, phase⟩) : Armed s p fenced w := by
  have hread : ∀ q place, place ∈ (w.tree q).dirs → s.branch q ≠ "-" ∧
      (place ≠ .canonical → .canonical ∉ (w.tree q).dirs ∧ q = p ∧ place = fenced) := by
    intro q place hplace
    obtain ⟨s', hs', hbranch, hfenced⟩ := h q place hplace
    obtain rfl : s = s' := Option.some.inj (hslot.symm.trans hs')
    refine ⟨hbranch, fun hne => ?_⟩
    obtain ⟨habsent, phase', hphase⟩ := hfenced hne
    rw [hjournal] at hphase
    cases hphase
    exact ⟨habsent, rfl, rfl⟩
  refine ⟨hslot, ⟨phase, hjournal⟩, hapart, fun place hplace => ⟨(hread p place hplace).1, ?_⟩,
    fun hcanonical hfenced => ((hread p fenced hfenced).2 hapart).1 hcanonical,
    fun q hq place hplace => ⟨?_, (hread q place hplace).1⟩⟩
  · by_contra hne
    rw [not_or] at hne
    exact hne.2 ((hread p place hplace).2 hne.1).2.2
  · by_contra hne
    exact hq ((hread q place hplace).2 hne).2.1

def kept : Discipline Window World Answer where
  holds _ w := Bound w
  allows _ _ := True

def Within {α : Type} (I : World → Prop) (m : Task α) : Prop :=
  ∀ w, I w → m.Keeps kept (fun _ => I) (fun _ => I) w

class Sheltered (I : World → Prop) : Prop where
  bound : ∀ w, I w → Bound w

instance : Sheltered (Plain s) := ⟨fun _ => Plain.bound⟩

instance : Sheltered (Armed s p fenced) := ⟨fun _ => Armed.bound⟩

instance : Sheltered Bound := ⟨fun _ h => h⟩

variable {A I : World → Prop}

instance [Sheltered A] : Sheltered fun w => A w ∧ I w := ⟨fun w h => Sheltered.bound w h.1⟩

instance [Sheltered I] : Sheltered fun w => A w ∧ I w := ⟨fun w h => Sheltered.bound w h.2⟩

section

variable {I : World → Prop} {α β : Type}

theorem within_ret (a : α) : Within I (.ret a : Task α) := fun _ h => h

variable (error : String)

theorem within_raise : Within I (.raise error : Task α) := fun _ h => h

variable {m : Task α}

theorem Within.bind {f : α → Task β} (hm : Within I m) (hf : ∀ a, Within I (f a)) :
    Within I (m >>= f) := fun w h => (hm w h).seq fun a w' h' => hf a w' h'

theorem Within.attempt (hm : Within I m) : Within I m.attempt :=
  fun w h => Script.Keeps.attempt (hm w h)

theorem within_ite {c : Prop} [Decidable c] {m' : Task α} (hm : Within I m) (hm' : Within I m') :
    Within I (if c then m else m') := by
  split
  · exact hm
  · exact hm'

theorem within_doIf {c : Bool} {m : Task Unit} (hm : Within I m) : Within I (doIf c m) :=
  within_ite hm (within_ret _)

variable [Sheltered I] {window : Window}

theorem within_step {act : World → Answer → World} {next : World → Answer → Task α}
    (hact : ∀ w a, I w → I (act w a)) (hnext : ∀ w a, Within I (next w a)) :
    Within I (.step window act next) :=
  fun w h => ⟨Sheltered.bound w h, fun a _ => hnext w a _ (hact w a h)⟩

theorem within_observe (window : Window) (error : String) (view : World → α) :
    Within I (observe window error view) :=
  within_step (fun _ _ h => h) fun _ _ => within_ite (within_raise _) (within_ret _)

theorem within_demand (window : Window) (error : String) (test : World → Bool) :
    Within I (demand window error test) :=
  within_step (fun _ _ h => h) fun _ _ => within_ite (within_raise _) (within_ret _)

theorem within_inspect : Within I (inspect error) :=
  within_step (fun _ _ h => h) fun _ _ => within_ite (within_raise _) (within_ret _)

theorem within_survey : Within I (survey error) :=
  within_step (fun _ _ h => h) fun _ _ => within_ite (within_raise _) (within_ret _)

theorem within_pathExists (test : World → Bool) : Within I (pathExists test) :=
  within_step (fun _ _ h => h) fun _ _ => within_ret _

theorem within_verifyRegistry : Within I verifyRegistry :=
  within_step (fun _ _ h => h) fun _ _ => within_ite (within_raise _) (within_ret _)

variable {error : String}

theorem within_mutate {change : World → Option World} (h : ∀ w w', I w → change w = some w' → I w')
    : Within I (mutate window error change) := by
  refine within_step ?_ fun _ _ => within_ite (within_raise _) (within_ret _)
  intro w a hw
  split
  · exact hw
  · cases hchange : change w with
    | none => exact hw
    | some w' => exact h w w' hw hchange

theorem within_onTree {p : Product} {change : Tree → Option Tree}
    (h : ∀ w t, I w → change (w.tree p) = some t → I (w.setTree p t)) :
    Within I (onTree window error p change) := by
  refine within_mutate fun w w' hw hchange => ?_
  obtain ⟨t, ht, rfl⟩ := map_eq_some_iff.mp hchange
  exact h w t hw ht

theorem within_gitWorktreeMove {p : Product} {source target : Loc}
    (h : ∀ w t, I w → (w.tree p).gitMove source target = some t → I (w.setTree p t)) :
    Within I (gitWorktreeMove p source target) := by
  refine within_step ?_ fun _ _ => within_ite (within_ret _) (within_ite (within_ret _)
    (within_ite (within_ret _) (within_ret _)))
  intro w a hw
  split
  · exact hw
  · cases hmove : (w.tree p).gitMove source target with
    | none => exact hw
    | some t => exact h w t hw hmove

theorem within_exactPathPresent (window : Window) (p : Product) (place : Loc) :
    Within I (exactPathPresent window p place) := within_observe _ _ _

variable (p : Product)

theorem within_submoduleAdminPaths (place : Loc) :
    Within I (submoduleAdminPaths p place) := within_demand _ _ _

theorem within_requireWorktreeRegistrations (fenced : Loc) (expected : Nat × Nat)
    (boundary : String) : Within I (requireWorktreeRegistrations p fenced expected boundary) :=
  within_demand _ _ _

theorem within_validatePathFenceMarker (fenced : Loc) :
    Within I (validatePathFenceMarker p fenced) := by
  refine (within_observe _ _ _).bind fun method => ?_
  cases method with
  | none => exact within_raise _
  | some method => exact within_ret _

theorem within_ensureNoSubmoduleCleanupArtifacts : Within I (ensureNoSubmoduleCleanupArtifacts p) :=
  (within_submoduleAdminPaths _ _).bind fun _ => within_demand _ _ _

end

def Local (I : World → Prop) : Prop :=
  ∀ w w', w'.slot = w.slot → (∀ p, (w'.tree p).dirs = (w.tree p).dirs) → I w → I w'

class Settled (I : World → Prop) : Prop extends Sheltered I where
  isLocal : Local I

theorem Plain.local (s : SlotState) : Local (Plain s) := by
  intro w w' hslot hdirs h
  refine ⟨hslot.trans h.slot, fun p place hplace => ?_⟩
  rw [hdirs p] at hplace
  exact h.dirs p place hplace

theorem Armed.local (s : SlotState) (p : Product) (fenced : Loc) : Local (Armed s p fenced) := by
  intro w w' hslot hdirs h
  refine ⟨hslot.trans h.slot, h.journal, h.apart, ?_, ?_, ?_⟩
  · rw [hdirs p]
    exact h.own
  · rw [hdirs p]
    exact h.single
  · intro q hq
    rw [hdirs q]
    exact h.others q hq

instance : Settled (Plain s) := ⟨Plain.local s⟩

instance : Settled (Armed s p fenced) := ⟨Armed.local s p fenced⟩

theorem dirs_setTree {t : Tree} (h : t.dirs = (w.tree p).dirs) (q : Product) :
    ((w.setTree p t).tree q).dirs = (w.tree q).dirs := by
  by_cases hq : q = p
  · subst hq
    simpa [World.setTree] using h
  · simp [World.setTree, update_of_ne hq]

section

variable {I : World → Prop} [Settled I] {error : String} {window : Window}

theorem within_quiet {p : Product} {change : Tree → Option Tree}
    (h : ∀ t t', change t = some t' → t'.dirs = t.dirs) : Within I (onTree window error p change) :=
  within_onTree fun w t hw ht => Settled.isLocal w _ rfl (dirs_setTree (h _ t ht)) hw

theorem within_quiet_guarded {p : Product} {c : Tree → Prop} [∀ t, Decidable (c t)]
    {change : Tree → Tree} (h : ∀ t, (change t).dirs = t.dirs) :
    Within I (onTree window error p fun t => if c t then some (change t) else none) := by
  refine within_quiet fun t t' ht => ?_
  obtain ⟨-, ht⟩ := ite_none_right_eq_some.mp ht
  cases ht
  exact h t

theorem within_regenActiveMd (state : Option SlotState) : Within I (regenActiveMd state) := by
  refine within_step ?_ fun _ _ =>
    within_ite (within_ret _) (within_ite (within_raise _) (within_ret _))
  intro w a hw
  split
  · exact hw
  · exact Settled.isLocal w _ rfl (fun _ => rfl) hw

variable (error : String)

variable (p : Product)

theorem within_removePathFence : Within I (removePathFence error p) :=
  within_quiet_guarded fun _ => rfl

variable (p : Product)

theorem within_persistAtomicPathFenceMarker (fenced : Loc) (phase : AtomicPhase) :
    Within I (persistAtomicPathFenceMarker p fenced phase) := by
  refine within_quiet fun t t' h => ?_
  cases h
  rfl

theorem within_restoreSubmoduleAdmin : Within I (restoreSubmoduleAdmin p) :=
  within_quiet_guarded fun _ => rfl

theorem within_quarantineSubmoduleAdmin : Within I (quarantineSubmoduleAdmin p) :=
  within_quiet_guarded fun _ => rfl

theorem within_restoreForceFenceAdmin : Within I (restoreForceFenceAdmin p) := by
  refine (within_observe _ _ _).bind fun present => within_doIf ?_
  exact within_quiet_guarded fun _ => rfl

theorem within_createSubmoduleCleanupMarker : Within I (createSubmoduleCleanupMarker p) := by
  refine Within.bind ?_ fun _ => within_inspect _
  refine within_quiet fun t t' h => ?_
  obtain ⟨-, h⟩ := ite_none_left_eq_some.mp h
  cases h
  rfl

theorem within_submoduleUpdate :
    Within I (onTree .settled error p fun t => t.submoduleUpdate .canonical) :=
  within_quiet_guarded fun _ => rfl

theorem within_gitRepair (place : Loc) :
    Within I (onTree .settled error p fun t => t.gitRepair place) :=
  within_quiet_guarded fun _ => rfl

theorem within_restoreQuarantined : Within I (restoreQuarantined p) :=
  (within_demand _ _ _).bind fun _ => within_restoreSubmoduleAdmin p

theorem within_reinit : Within I (reinit p) := by
  refine (within_demand _ _ _).bind fun _ => (within_submoduleUpdate _ p).bind
    fun _ => (within_demand _ _ _).bind fun _ => ?_
  refine within_quiet fun t t' h => ?_
  cases h
  rfl

theorem within_recoverSubmoduleCleanup : Within I (recoverSubmoduleCleanup p) := by
  refine (within_submoduleAdminPaths _ _).bind fun _ => (within_observe _ _ _).bind
    fun inProgress => (within_observe _ _ _).bind fun quarantine => within_ite ?_
      (within_ite (within_raise _) (within_ret _))
  exact (within_doIf (within_restoreQuarantined p)).bind fun _ =>
    (within_reinit p).bind fun _ => within_ret _

theorem within_recoverOrRefuse (recover : Bool) (p : Product) :
    Within I (recoverOrRefuse recover p) :=
  within_ite (within_recoverSubmoduleCleanup p)
    ((within_ensureNoSubmoduleCleanupArtifacts p).bind fun _ => within_ret _)

theorem within_proveTarget (recover : Bool) (p : Product) (proofs : Proofs) :
    Within I (proveTarget recover p proofs) :=
  (within_recoverOrRefuse recover p).bind fun _ => (within_observe _ _ _).bind
    fun _ => (within_survey _).bind fun _ => within_ret _

theorem within_deinitSubmodules : Within I (deinitSubmodules p) :=
  Within.bind ((within_ensureNoSubmoduleCleanupArtifacts p).bind fun _ =>
    within_createSubmoduleCleanupMarker p) fun _ => within_quiet_guarded fun _ => rfl

theorem within_quarantineForceFenceAdmin : Within I (quarantineForceFenceAdmin p) := by
  refine (within_submoduleAdminPaths _ _).bind fun _ => ?_
  exact within_quiet_guarded fun _ => rfl

theorem within_prepareSubmodules (nested force : Bool) :
    Within I (prepareSubmodules p nested force) := by
  refine (within_doIf (within_deinitSubmodules p)).bind fun _ =>
    (within_survey _).bind fun dirty => within_ite (within_raise _) ?_
  exact (within_doIf (within_quarantineSubmoduleAdmin p)).bind fun _ =>
    (within_doIf (within_quarantineForceFenceAdmin p)).bind fun _ => within_inspect _

end

section

variable {s : SlotState} {p : Product} {fenced : Loc} {t : Tree}

theorem Armed.setTree {w : World} (h : Armed s p fenced w)
    (hown : ∀ place ∈ t.dirs, (w.tree p).dirs ≠ [] ∧ (place = .canonical ∨ place = fenced))
    (hsingle : .canonical ∈ t.dirs → fenced ∉ t.dirs) : Armed s p fenced (w.setTree p t) := by
  have hself : (w.setTree p t).tree p = t := by simp [World.setTree]
  refine ⟨h.slot, h.journal, h.apart, ?_, ?_, ?_⟩
  · rw [hself]
    intro place hplace
    obtain ⟨hne, hcases⟩ := hown place hplace
    obtain ⟨old, hold⟩ := exists_mem_of_ne_nil _ hne
    exact ⟨(h.own old hold).1, hcases⟩
  · rw [hself]
    exact hsingle
  · intro q hq
    rw [show (w.setTree p t).tree q = w.tree q by simp [World.setTree, update_of_ne hq]]
    exact h.others q hq

variable {source target : Loc}

theorem Armed.moved {w : World} (h : Armed s p fenced w)
    (hpair : source = .canonical ∧ target = fenced ∨ source = fenced ∧ target = .canonical)
    (hsource : source ∈ (w.tree p).dirs)
    (hdirs : t.dirs = target :: (w.tree p).dirs.filter (· ≠ source)) :
    Armed s p fenced (w.setTree p t) ∧ t.dirs = [target] := by
  have hfilter : (w.tree p).dirs.filter (· ≠ source) = [] := by
    rw [filter_eq_nil_iff]
    intro place hplace hne
    have hne : place ≠ source := by simpa using hne
    rcases hpair with ⟨rfl, rfl⟩ | ⟨rfl, rfl⟩
    · obtain rfl := (h.own place hplace).2.resolve_left hne
      exact h.single hsource hplace
    · obtain rfl := (h.own place hplace).2.resolve_right hne
      exact h.single hplace hsource
  rw [hfilter] at hdirs
  refine ⟨h.setTree ?_ ?_, hdirs⟩
  · intro place hplace
    rw [hdirs, mem_singleton] at hplace
    subst hplace
    exact ⟨ne_nil_of_mem hsource, by rcases hpair with ⟨-, rfl⟩ | ⟨-, rfl⟩ <;> simp⟩
  · rw [hdirs, mem_singleton, mem_singleton]
    intro hcanonical hfenced
    exact h.apart (hfenced.trans hcanonical.symm)

variable {t' : Tree}

theorem Tree.rename_some (h : t.rename source target = some t') :
    source ∈ t.dirs ∧ t'.dirs = target :: t.dirs.filter (· ≠ source) := by
  obtain ⟨hin, h⟩ := ite_none_right_eq_some.mp h
  cases h
  exact ⟨hin.1, rfl⟩

theorem Tree.gitMove_some (h : t.gitMove source target = some t') :
    source ∈ t.dirs ∧ t'.dirs = target :: t.dirs.filter (· ≠ source) := by
  obtain ⟨hin, h⟩ := ite_none_right_eq_some.mp h
  cases h
  exact ⟨hin.2.1, rfl⟩

variable {error : String} {window : Window}

section

variable (hpair : source = .canonical ∧ target = fenced ∨ source = fenced ∧ target = .canonical)
include hpair

theorem within_rename :
    Within (Armed s p fenced) (onTree window error p fun t => t.rename source target) := by
  refine within_onTree fun w t hw ht => ?_
  obtain ⟨hsource, hdirs⟩ := Tree.rename_some ht
  exact (hw.moved hpair hsource hdirs).1

theorem within_move : Within (Armed s p fenced) (gitWorktreeMove p source target) := by
  refine within_gitWorktreeMove fun w t hw ht => ?_
  obtain ⟨hsource, hdirs⟩ := Tree.gitMove_some ht
  exact (hw.moved hpair hsource hdirs).1

end

theorem within_gitRemove (window : Window) (error : String) (force : Bool) :
    Within (Armed s p fenced) (onTree window error p fun t => t.gitRemove force fenced) := by
  refine within_onTree fun w t hw ht => ?_
  obtain ⟨-, h⟩ := ite_none_right_eq_some.mp ht
  cases h
  refine hw.setTree (fun place hplace => ?_) fun _ hfenced => by simp at hfenced
  have hold := mem_of_mem_filter hplace
  exact ⟨ne_nil_of_mem hold, (hw.own place hold).2⟩

variable (s p fenced)

theorem within_beginAtomicPathFence :
    Within (Armed s p fenced) (beginAtomicPathFence p fenced) := by
  refine (within_demand _ _ _).bind fun _ => (within_inspect _).bind fun _ =>
    (within_requireWorktreeRegistrations _ _ _ _).bind fun _ =>
    (within_submoduleAdminPaths _ _).bind fun _ => (within_inspect _).bind fun _ =>
    (within_persistAtomicPathFenceMarker _ _ _).bind fun _ =>
    (within_rename (.inl ⟨rfl, rfl⟩)).bind fun _ =>
    (within_persistAtomicPathFenceMarker _ _ _).bind fun _ => ?_
  exact (within_demand _ _ _).bind fun _ =>
    (within_requireWorktreeRegistrations _ _ _ _).bind fun _ =>
    (within_submoduleAdminPaths _ _).bind fun _ => (within_gitRepair _ _ _).bind
    fun _ => (within_requireWorktreeRegistrations _ _ _ _).bind fun _ =>
    (within_submoduleAdminPaths _ _).bind fun _ =>
    within_persistAtomicPathFenceMarker _ _ _

theorem within_acquireFence (allow : Bool) (outcome : GitOutcome) :
    Within (Armed s p fenced) (acquireFence p fenced allow outcome) := by
  cases outcome with
  | success => exact within_ret _
  | submoduleRefusal =>
    exact within_ite ((within_beginAtomicPathFence s p fenced).bind fun _ => within_ret _)
      (within_raise _)
  | failure => exact within_raise _

theorem within_markPathFence : Within (Armed s p fenced) (markPathFence p fenced) := by
  refine Within.bind ?_ fun _ => ?_
  · refine within_quiet fun t t' h => ?_
    obtain ⟨-, h⟩ := ite_none_left_eq_some.mp h
    cases h
    rfl
  · refine within_quiet fun t t' h => ?_
    cases h
    rfl

theorem within_beginPathFence (allow : Bool) :
    Within (Armed s p fenced) (beginPathFence p fenced allow) := by
  exact (within_demand _ _ _).bind fun _ => (within_submoduleAdminPaths _ _).bind fun _ =>
    (within_demand _ _ _).bind fun _ => (within_markPathFence s p fenced).bind fun _ =>
    (within_inspect _).bind fun _ => (within_move (.inl ⟨rfl, rfl⟩)).bind fun _ =>
    (within_acquireFence s p fenced allow _).bind fun _ => (within_pathExists _).bind fun _ =>
    within_ite (within_raise _) ((within_demand _ _ _).bind fun _ =>
      (within_validatePathFenceMarker _ _).bind fun _ => within_ret _)

theorem within_restorePlace (registrations : Nat × Nat) (original moved : Bool) :
    Within (Armed s p fenced) (restorePlace p fenced registrations original moved) := by
  cases original <;> cases moved
  · exact within_raise _
  · exact within_ite (within_raise _) ((within_submoduleAdminPaths _ _).bind fun _ =>
      (within_inspect _).bind fun _ => (within_rename (.inr ⟨rfl, rfl⟩)).bind fun _ =>
      within_doIf (within_gitRepair _ _ _))
  · exact within_ite (within_gitRepair _ _ _) (within_ite (within_raise _) (within_ret _))
  · exact within_raise _

def Leads {α : Type} (I : World → Prop) (m : Task α) (J : α → World → Prop) : Prop :=
  ∀ w, I w → m.Keeps kept J (fun _ => I) w

variable {I : World → Prop} {α β : Type} {f : α → Task β} {J : β → World → Prop} {m : Task α}

theorem Within.leads (hm : Within I m) (hf : ∀ a, Leads I (f a) J) : Leads I (m >>= f) J :=
  fun w h => (hm w h).seq fun a w' h' => hf a w' h'

theorem Leads.within {J : World → Prop} (hm : Leads I m fun _ => J) (hJ : ∀ w, J w → I w)
    (hf : ∀ a, Within J (f a)) : Leads I (m >>= f) fun _ => J :=
  fun w h => (hm w h).seq fun a w' h' => (hf a w' h').mono (fun _ _ h => h) fun _ => hJ

theorem leads_demand {J : World → Prop} {test : World → Bool} [Sheltered I]
    (h : ∀ w, I w → test w = true → J w) : Leads I (demand window error test) fun _ => J := by
  refine fun w hw => ⟨Sheltered.bound w hw, fun a _ => ?_⟩
  dsimp only
  split_ifs with hpass
  · exact hw
  · simp only [Bool.or_eq_true, Bool.not_eq_true', not_or, Bool.not_eq_false] at hpass
    exact h w hw hpass.2

theorem leads_raise {J : α → World → Prop} (error : String) :
    Leads I (.raise error : Task α) J := fun _ h => h

theorem leads_observe {view : World → α} [Sheltered I]
    (h : ∀ w, I w → (f (view w)).Keeps kept J (fun _ => I) w) :
    Leads I (observe window error view >>= f) J := by
  refine fun w hw => ⟨Sheltered.bound w hw, fun a _ => ?_⟩
  dsimp only
  split
  · exact hw
  · exact h w hw

def Restored (w : World) : Prop := Armed s p fenced w ∧ fenced ∉ (w.tree p).dirs

theorem Restored.local : Local (Restored s p fenced) := by
  intro w w' hslot hdirs h
  refine ⟨Armed.local s p fenced w w' hslot hdirs h.1, ?_⟩
  rw [hdirs p]
  exact h.2

instance : Settled (Restored s p fenced) where
  bound _ h := h.1.bound
  isLocal := Restored.local s p fenced

theorem leads_restoreAtomicPathFence :
    Leads (Armed s p fenced) (restoreAtomicPathFence p fenced) fun _ => Restored s p fenced := by
  refine (within_validatePathFenceMarker _ _).leads fun method => ?_
  split
  · exact leads_raise _
  · refine (within_exactPathPresent _ _ _).leads fun original =>
      (within_exactPathPresent _ _ _).leads fun moved => (within_observe _ _ _).leads
      fun registrations => (within_restorePlace s p fenced _ _ _).leads fun _ => ?_
    refine Leads.within (leads_demand fun w hw htest => ⟨hw, ?_⟩) (fun _ h => h.1) fun _ =>
      (within_requireWorktreeRegistrations _ _ _ _).bind fun _ =>
      (within_submoduleAdminPaths _ _).bind fun _ =>
      (within_removePathFence _ _).bind fun _ => within_inspect _
    simp only [Bool.and_eq_true, decide_eq_true_eq] at htest
    exact htest.2

theorem leads_moveBack (error : String) :
    Leads (Armed s p fenced) (moveBack error p fenced) fun _ => Restored s p fenced := by
  refine fun w hw => ⟨hw.bound, fun a _ => ?_⟩
  dsimp only
  split
  · split <;> exact hw
  · split
    · have hnone : (w.tree p).gitMove fenced .canonical = none := by simp_all [Tree.gitMove]
      rw [hnone]
      exact hw
    · cases hmove : (w.tree p).gitMove fenced .canonical with
      | none => exact hw
      | some t =>
        obtain ⟨hsource, hdirs⟩ := Tree.gitMove_some hmove
        obtain ⟨hmoved, hplace⟩ := hw.moved (.inr ⟨rfl, rfl⟩) hsource hdirs
        refine (within_removePathFence error p _ ⟨hmoved, ?_⟩).mono
          (fun _ _ h => h) fun _ _ h => h.1
        simpa [World.setTree, hplace] using hw.apart

theorem leads_rollbackPathFence :
    Leads (Armed s p fenced) (rollbackPathFence p fenced) fun _ => Armed s p fenced := by
  refine (within_validatePathFenceMarker _ _).leads fun method => ?_
  cases method with
  | gitWorktreeMove =>
    exact fun w hw => (leads_moveBack s p fenced _ w hw).mono (fun _ _ h => h.1) fun _ _ h => h
  | atomicRenameRepair =>
    exact fun w hw => (leads_restoreAtomicPathFence s p fenced w hw).mono (fun _ _ h => h.1)
      fun _ _ h => h

theorem leads_abandon (submoduleCleanup forceFenceAdmin : Bool) (error : String)
    (J : Unit → World → Prop) :
    Leads (Armed s p fenced) (abandon p fenced submoduleCleanup forceFenceAdmin error) J := by
  have hrollback : Within (Armed s p fenced)
      (rollbackFencedRemoval p fenced submoduleCleanup forceFenceAdmin) :=
    Within.bind (leads_rollbackPathFence s p fenced) fun _ =>
      (within_doIf (within_restoreSubmoduleAdmin p)).bind fun _ =>
      within_doIf (within_restoreForceFenceAdmin p)
  refine hrollback.attempt.leads fun outcome => ?_
  cases outcome with
  | ok _ => exact leads_raise _
  | error _ => exact leads_raise _

theorem within_fenceTarget (nested force : Bool) :
    Within (Armed s p fenced) (fenceTarget p fenced nested force) := by
  refine (within_beginPathFence s p fenced _).bind fun fallback => within_ite (within_ite
    (within_raise _) ?_) (within_ret _)
  refine Within.bind ?_ fun _ => (within_quarantineSubmoduleAdmin p).bind fun _ => within_ret _
  exact (within_demand _ _ _).bind fun _ => (within_validatePathFenceMarker _ _).bind
    fun _ => within_createSubmoduleCleanupMarker p

def Removed (w : World) : Prop := Armed s p fenced w ∧ (w.tree p).dirs = []

instance : Sheltered (Removed s p fenced) := ⟨fun _ h => h.1.bound⟩

theorem leads_verifyCompletedGitRemoval (window : Window) :
    Leads (Armed s p fenced) (verifyCompletedGitRemoval window p fenced)
      fun _ => Removed s p fenced := by
  refine leads_observe fun w hw => ?_
  refine ⟨hw.bound, fun a _ => ?_⟩
  dsimp only
  split
  case isTrue => exact hw
  refine ⟨hw.bound, fun a _ => ?_⟩
  dsimp only
  split
  case isTrue => exact hw
  dsimp only [Script.bind]
  split_ifs with hpass
  · exact hw
  · refine ⟨hw, eq_nil_iff_forall_not_mem.mpr fun place hplace => ?_⟩
    simp only [Bool.or_eq_true, decide_eq_true_eq, not_or] at hpass
    rcases (hw.own place hplace).2 with rfl | rfl
    · exact hpass.1.1 hplace
    · exact hpass.1.2 hplace

theorem leads_removeTarget (nested force : Bool) :
    Leads (Armed s p fenced) (removeTarget p fenced nested force) fun _ => Removed s p fenced := by
  refine (within_ensureNoSubmoduleCleanupArtifacts p).leads fun _ =>
    (within_prepareSubmodules p nested force).leads fun _ =>
    (within_fenceTarget s p fenced nested force).leads fun cleanup =>
    (within_inspect _).attempt.leads fun users => ?_
  cases users with
  | error error => exact leads_abandon s p fenced _ _ _ _
  | ok _ =>
    refine (within_gitRemove _ _ force).attempt.leads fun removed => ?_
    cases removed with
    | error error => exact leads_abandon s p fenced _ _ _ _
    | ok _ =>
      refine fun w hw => Script.Keeps.bind (Script.Keeps.attempt
        ((leads_verifyCompletedGitRemoval s p fenced .exposed w hw).mono ?_ ?_))
      · exact fun _ _ h => h
      · exact fun error w hw => leads_abandon s p fenced _ _ error _ w hw

end

def Goes {α : Type} (I : World → Prop) (m : Task α) (J : α → World → Prop) : Prop :=
  ∀ w, I w → m.Keeps kept J (fun _ => Bound) w

section

variable {α β : Type} {I : World → Prop} {J : α → World → Prop} {K : β → World → Prop} {m : Task α}

theorem Leads.goes [Sheltered I] (hm : Leads I m J) : Goes I m J :=
  fun w h => (hm w h).mono (fun _ _ h => h) fun _ => Sheltered.bound

theorem Within.goes [Sheltered I] (hm : Within I m) : Goes I m fun _ => I := Leads.goes hm

theorem Goes.bind {f : α → Task β} (hm : Goes I m J) (hf : ∀ a, Goes (J a) (f a) K) :
    Goes I (m >>= f) K :=
  fun w h => (hm w h).seq fun a w' h' => hf a w' h'

theorem Goes.mono {J' : α → World → Prop} (hm : Goes I m J) (h : ∀ a w, J a w → J' a w) :
    Goes I m J' :=
  fun w hw => (hm w hw).mono h fun _ _ hx => hx

theorem goes_ret {a : α} (h : ∀ w, I w → J a w) : Goes I (.ret a : Task α) J := h

theorem goes_raise {error : String} [Sheltered I] : Goes I (.raise error : Task α) J :=
  Sheltered.bound

theorem goes_ite {c : Prop} [Decidable c] {m' : Task α} (hm : c → Goes I m J)
    (hm' : ¬ c → Goes I m' J) : Goes I (if c then m else m') J := by
  split_ifs with hc
  · exact hm hc
  · exact hm' hc

theorem goes_saveState {I J : World → Prop} {window : Window} {state : Option SlotState}
    [Sheltered I] (h : ∀ w, I w → J { w with slot := state }) :
    Goes I (saveState window state) fun _ => J := by
  refine fun w hw => ⟨Sheltered.bound w hw, fun a _ => ?_⟩
  cases hfault : a.fault with
  | true =>
    simp only [hfault, Bool.true_or, if_true]
    exact Sheltered.bound w hw
  | false => simpa [hfault, Keeps, Obeys, Discipline.rule] using h w hw

end

variable {I : World → Prop} [Sheltered I] {window : Window}

theorem goes_commitSlot {J : World → Prop} [Settled J] (h : ∀ w, I w → J { w with slot := some s }) :
    Goes I (commitSlot window s) fun s' w => s' = s ∧ J w :=
  (goes_saveState h).bind fun _ => (within_regenActiveMd _).goes.bind fun _ =>
    goes_ret fun _ hw => ⟨rfl, hw⟩

def Places (s : SlotState) (w : World) : Prop :=
  ∀ p, ∀ place ∈ (w.tree p).dirs, place = .canonical ∧ s.branch p ≠ "-"

theorem goes_clearReleaseJournal (h : ∀ w, I w → Places s w) :
    Goes I (clearReleaseJournal s) fun s' w => s'.branch = s.branch ∧ Plain s' w := by
  have hcommit : Goes I (commitSlot .settled s.cleared) fun s' w => s' = s.cleared ∧
      Plain s.cleared w := goes_commitSlot fun w hw => ⟨rfl, h w hw⟩
  refine hcommit.mono ?_
  rintro s' w ⟨rfl, hplain⟩
  exact ⟨rfl, hplain⟩

theorem Plain.arm (h : Plain s w) (p : Product) (nonce : Nat) :
    Armed (s.armed p (.fenced nonce)) p (.fenced nonce)
      { w with slot := some (s.armed p (.fenced nonce)) } := by
  refine ⟨rfl, ⟨_, rfl⟩, by simp, fun place hplace => ?_, fun _ hfenced => ?_,
    fun q _ => h.dirs q⟩
  · exact ⟨(h.dirs p place hplace).2, .inl (h.dirs p place hplace).1⟩
  · exact absurd (h.dirs p _ hfenced).1 (by simp)

theorem goes_armReleaseJournal (s : SlotState) (p : Product) :
    Goes (Plain s) (armReleaseJournal s p) fun r w => r.1.branch = s.branch ∧ Armed r.1 p r.2 w := by
  refine fun w hw => ⟨hw.bound, fun a _ => ?_⟩
  refine Goes.bind (goes_commitSlot fun w hw => hw.arm p a.stamp) (fun s' => goes_ret fun w hw => ?_) w hw
  obtain ⟨rfl, harmed⟩ := hw
  exact ⟨rfl, harmed⟩

theorem Removed.places (h : Removed s p fenced w) : Places s w := by
  intro q place hplace
  by_cases hq : q = p
  · subst hq
    rw [h.2] at hplace
    cases hplace
  · exact h.1.others q hq place hplace

theorem places_without (h : Places s w) (hp : (w.tree p).dirs = []) : Places (s.without p) w := by
  intro q place hplace
  by_cases hq : q = p
  · subst hq
    rw [hp] at hplace
    cases hplace
  · simpa [SlotState.without, update_of_ne hq] using h q place hplace

theorem within_cleanTargetsFromState (s : SlotState) : Within I (cleanTargetsFromState s) :=
  (within_demand _ _ _).bind fun _ => within_ret _

theorem within_finalRemovalBoundary (s : SlotState) (p : Product)
    (nested force : Bool) : Within I (finalRemovalBoundary s p nested force) := by
  refine within_verifyRegistry.bind fun _ => (within_observe _ _ _).bind fun current => ?_
  cases current with
  | none => exact within_raise _
  | some current =>
    refine within_ite (within_raise _) ((within_cleanTargetsFromState _).bind fun targets =>
      within_ite (within_raise _) ((within_demand _ _ _).bind fun _ =>
      (within_survey _).bind fun dirty => within_ite (within_raise _) (within_inspect _)))

def Remaining (targets : List Product) (s : SlotState) (w : World) : Prop :=
  Plain s w ∧ ∀ p, s.branch p ≠ "-" → p ∈ targets

instance {targets : List Product} : Sheltered (Remaining targets s) := ⟨fun _ h => h.1.bound⟩

theorem goes_completeRemoval (s : SlotState) (p : Product) (fenced : Loc) :
    Goes (Removed s p fenced) (do
      let s ← markGitRemovalComplete s
      clearReleaseJournal (s.without p)) fun s' w => s'.branch = (s.without p).branch ∧
        Plain s' w := by
  have : Settled fun w => Plain s.completed w ∧ (w.tree p).dirs = [] :=
    ⟨fun w w' hslot hdirs h => ⟨Plain.local _ w w' hslot hdirs h.1, (hdirs p).trans h.2⟩⟩
  refine Goes.bind (goes_commitSlot (J := fun w => Plain s.completed w ∧ (w.tree p).dirs = [])
    fun w hw => ⟨⟨rfl, hw.places⟩, hw.2⟩) fun s' => ?_
  refine fun w hw => ?_
  obtain ⟨rfl, hplain, hp⟩ := hw
  exact goes_clearReleaseJournal (I := fun w => Plain s.completed w ∧ (w.tree p).dirs = [])
    (fun w h => places_without h.1.dirs h.2) w ⟨hplain, hp⟩

theorem goes_removeProduct (force : Bool) (nested : Product → Bool) (p : Product)
    (targets : List Product) (s : SlotState) :
    Goes (Remaining (p :: targets) s) (removeProduct force nested p s) (Remaining targets) := by
  refine (within_finalRemovalBoundary _ _ _ _).goes.bind fun _ w hw => ?_
  refine Goes.bind (goes_armReleaseJournal s p) ?_ w hw.1
  rintro ⟨s₁, fenced⟩ w₁ ⟨hbranch, harmed⟩
  change s₁.branch = s.branch at hbranch
  refine ((leads_removeTarget s₁ p fenced (nested p) force).goes).bind
    (fun _ => (goes_completeRemoval s₁ p fenced).mono ?_) w₁ harmed
  rintro s₂ w₂ ⟨hbranch₂, hplain⟩
  refine ⟨hplain, fun q hq => ?_⟩
  rw [hbranch₂] at hq
  have hne : q ≠ p := by
    rintro rfl
    simp [SlotState.without] at hq
  have hold : s.branch q ≠ "-" := by simpa [SlotState.without, update_of_ne hne, hbranch] using hq
  exact (mem_cons.mp (hw.2 q hold)).resolve_left hne

theorem Bound.local : Local Bound := by
  intro w w' hslot hdirs h p place hplace
  rw [hdirs p] at hplace
  rw [hslot, hdirs p]
  exact h p place hplace

instance : Settled Bound := ⟨Bound.local⟩

theorem goes_finishSlot :
    Goes (fun w => Bound w ∧ ∀ p, (w.tree p).dirs = []) finishSlot fun _ => Bound := by
  have hempty : ∀ w : World, (∀ p, (w.tree p).dirs = []) → Bound w := by
    intro w h p place hplace
    rw [h p] at hplace
    cases hplace
  refine (within_pathExists _).goes.bind fun remains => ?_
  refine ((within_doIf (within_mutate ?_)).goes).bind fun _ => ?_
  · intro w w' hw hchange
    obtain ⟨-, hchange⟩ := ite_none_right_eq_some.mp hchange
    cases hchange
    exact ⟨hempty _ hw.2, hw.2⟩
  refine (goes_saveState (J := Bound) fun w hw => hempty _ hw.2).bind fun _ => ?_
  exact (within_regenActiveMd none).goes.bind fun _ => goes_ret fun _ h => h

variable (flags : Flags)

theorem goes_removeTargets (s : SlotState) (targets : List Product) (nested : Product → Bool) :
    Goes (Remaining targets s) (removeTargets flags s targets nested) fun _ => Bound := by
  refine Goes.bind (J := Remaining []) (fun w hw => Script.Keeps.thread
    (fun p ps s w h => goes_removeProduct flags.force nested p ps s w h) targets s w hw) ?_
  refine fun s' w hw => goes_finishSlot w ⟨hw.1.bound, fun p => ?_⟩
  refine eq_nil_iff_forall_not_mem.mpr fun place hplace => ?_
  exact not_mem_nil (hw.2 p (hw.1.dirs p place hplace).2)

def Held (s : SlotState) (w : World) : Prop := w.slot = some s ∧ Bound w

structure Carried (P : SlotState → World → Prop) : Prop where
  bound : ∀ s w, P s w → Bound w
  localTo : ∀ s, Local (P s)
  revised : ∀ s s' w, s'.branch = s.branch → s'.releaseJournal = s.releaseJournal → P s w →
    P s' { w with slot := some s' }

theorem Plain.carried : Carried Plain where
  bound _ _ := Plain.bound
  localTo := Plain.local
  revised s s' w hbranch _ h := by
    refine ⟨rfl, fun p place hplace => ?_⟩
    rw [hbranch]
    exact h.dirs p place hplace

theorem Held.carried : Carried Held where
  bound _ _ h := h.2
  localTo s w w' hslot hdirs h := ⟨hslot.trans h.1, Bound.local w w' hslot hdirs h.2⟩
  revised s s' w hbranch hjournal h := by
    refine ⟨rfl, fun p place hplace => ⟨s', rfl, ?_⟩⟩
    obtain ⟨s₁, hs₁, hp⟩ := h.2 p place hplace
    obtain rfl : s = s₁ := Option.some.inj (h.1.symm.trans hs₁)
    rw [hbranch, hjournal]
    exact hp

instance : Settled (Held s) where
  bound := Held.carried.bound s
  isLocal := Held.carried.localTo s

section

variable {P : SlotState → World → Prop} [∀ s, Settled (P s)]

def Revised (P : SlotState → World → Prop) (s s' : SlotState) (w : World) : Prop :=
  s'.branch = s.branch ∧ s'.releaseJournal = s.releaseJournal ∧ P s' w

variable {s : SlotState}

theorem within_recordedOwnerAuthorities (s' : SlotState) :
    Within (P s) (recordedOwnerAuthorities s') :=
  (within_inspect _).bind fun _ => within_ite (within_raise _) (within_ret _)

variable (hP : Carried P)
include hP

theorem goes_commitRevised {s' : SlotState} (hbranch : s'.branch = s.branch)
    (hjournal : s'.releaseJournal = s.releaseJournal) :
    Goes (P s) (commitSlot .settled s') (Revised P s) := by
  refine (goes_commitSlot fun w => hP.revised s s' w hbranch hjournal).mono ?_
  rintro s₁ w ⟨rfl, h⟩
  exact ⟨hbranch, hjournal, h⟩

theorem goes_completeCoordinatorLeaseRevocation (s : SlotState) :
    Goes (P s) (completeCoordinatorLeaseRevocation s) (Revised P s) := by
  refine (within_inspect _).goes.bind fun _ => ?_
  split
  · exact goes_raise
  · exact (within_inspect _).goes.bind fun _ => goes_commitRevised hP rfl rfl
  · exact (within_inspect _).goes.bind fun _ => goes_ret fun _ hw => ⟨rfl, rfl, hw⟩

theorem goes_armCoordinatorLeaseRevocation (s : SlotState) :
    Goes (P s) (armCoordinatorLeaseRevocation s) (Revised P s) :=
  goes_ite (fun _ => goes_raise) fun _ => goes_ite (fun _ => goes_raise)
    fun _ => (within_inspect _).goes.bind fun _ => goes_commitRevised hP rfl rfl

theorem goes_revoked (s₁ : SlotState) :
    Goes (Revised P s s₁) (do
      let s₂ ← completeCoordinatorLeaseRevocation s₁
      recordedOwnerAuthorities s₂
      .ret s₂) (Revised P s) := by
  rintro w ⟨hbranch, hjournal, hw⟩
  refine Goes.bind (goes_completeCoordinatorLeaseRevocation hP s₁) (fun s₂ => ?_) w hw
  rintro w ⟨hbranch₂, hjournal₂, hw⟩
  refine Goes.bind ((within_recordedOwnerAuthorities s₂).goes)
    (fun _ => goes_ret fun w hw => ?_) w hw
  exact ⟨hbranch₂.trans hbranch, hjournal₂.trans hjournal, hw⟩

theorem goes_revokeSentinel (s : SlotState) : Goes (P s) (revokeSentinel s) (Revised P s) :=
  goes_ite (fun _ => (goes_armCoordinatorLeaseRevocation hP s).bind fun s₁ => goes_revoked hP s₁)
    fun _ => goes_ret fun _ hw => ⟨rfl, rfl, hw⟩

end

theorem goes_recoverRevocation (s : SlotState) :
    Goes (Held s) (recoverRevocation flags s) fun r w => r.1.releaseJournal = s.releaseJournal ∧
      Held r.1 w := by
  refine goes_ite (fun _ => ?_) fun _ => goes_ret fun _ hw => ⟨rfl, hw⟩
  refine (goes_completeCoordinatorLeaseRevocation Held.carried s).bind fun s₁ w hw => ?_
  obtain ⟨-, hjournal, hw⟩ := hw
  exact Goes.bind ((within_recordedOwnerAuthorities s₁).goes)
    (fun _ => goes_ret fun _ hw => ⟨hjournal, hw⟩) w hw

theorem Restored.places (h : Restored s p fenced w) : Places s w := by
  intro q place hplace
  by_cases hq : q = p
  · subst hq
    obtain ⟨hbranch, rfl | rfl⟩ := h.1.own place hplace
    · exact ⟨rfl, hbranch⟩
    · exact absurd hplace h.2
  · exact h.1.others q hq place hplace

theorem goes_recoverAtCanonical (s : SlotState) (p : Product) (fenced : Loc) :
    Goes (Restored s p fenced) (recoverAtCanonical p fenced) fun _ => Restored s p fenced := by
  refine (within_submoduleAdminPaths _ _).goes.bind fun _ =>
    (within_observe _ _ _).goes.bind fun present => goes_ite (fun _ => ?_)
      fun _ => goes_ret fun _ hw => hw
  refine (within_validatePathFenceMarker _ _).goes.bind fun method => ?_
  cases method with
  | gitWorktreeMove => exact (within_removePathFence _ p).goes
  | atomicRenameRepair => exact fun w hw => (leads_restoreAtomicPathFence s p fenced).goes w hw.1

theorem goes_recoverAtFence (s : SlotState) (p : Product) (fenced : Loc) :
    Goes (Armed s p fenced) (recoverAtFence p fenced) fun _ => Restored s p fenced := by
  refine (within_submoduleAdminPaths _ _).goes.bind fun _ =>
    (within_validatePathFenceMarker _ _).goes.bind fun method => ?_
  cases method with
  | gitWorktreeMove => exact (leads_moveBack s p fenced _).goes
  | atomicRenameRepair => exact (leads_restoreAtomicPathFence s p fenced).goes

def Recovered (s : SlotState) (w : World) : PathFenceRecovery → Prop
  | .none => s.releaseJournal = none
  | .restored => Places s w
  | .removalCompleted p => Places s w ∧ (w.tree p).dirs = []

theorem goes_restoreForceFenceAdmin (s : SlotState) (p : Product) (fenced : Loc) :
    Goes (Restored s p fenced) (do
      restoreForceFenceAdmin p
      .ret .restored) fun r w => Held s w ∧ Recovered s w r := by
  exact (within_restoreForceFenceAdmin p).goes.bind fun _ =>
    goes_ret fun w hw => ⟨⟨hw.1.slot, hw.1.bound⟩, hw.places⟩

theorem keeps_recoverPlace (s : SlotState) (p : Product) (fenced : Loc) (w : World)
    (hw : Armed s p fenced w) (original moved : Bool)
    (hmoved : moved = decide (fenced ∈ (w.tree p).dirs)) :
    (recoverPlace s p fenced original moved).Keeps kept (fun r w => Held s w ∧ Recovered s w r)
      (fun _ => Bound) w := by
  cases original with
  | true =>
    cases moved with
    | true => exact hw.bound
    | false =>
      refine Goes.bind (goes_recoverAtCanonical s p fenced)
        (fun _ => goes_restoreForceFenceAdmin s p fenced) w ⟨hw, ?_⟩
      simpa using hmoved
  | false =>
    cases moved with
    | true =>
      exact Goes.bind (goes_recoverAtFence s p fenced)
        (fun _ => goes_restoreForceFenceAdmin s p fenced) w hw
    | false =>
      refine goes_ite (I := Armed s p fenced) (fun _ => ?_) (fun _ => goes_raise) w hw
      refine ((leads_verifyCompletedGitRemoval s p fenced .settled).goes).bind fun _ =>
        goes_ret fun w hw => ?_
      exact ⟨⟨hw.1.slot, hw.1.bound⟩, hw.places, hw.2⟩

theorem keeps_journalTarget {α : Type} (hw : Held s w) {f : Option (Product × Loc) → Task α}
    {Q : α → World → Prop}
    (hnone : s.releaseJournal = none → (f none).Keeps kept Q (fun _ => Bound) w)
    (hsome : ∀ p fenced, Armed s p fenced w →
      (f (some (p, fenced))).Keeps kept Q (fun _ => Bound) w) :
    (journalTarget s >>= f).Keeps kept Q (fun _ => Bound) w := by
  refine Script.Keeps.bind ?_
  unfold journalTarget
  split
  case h_1 hjournal =>
    split
    · exact hw.2
    · exact hnone hjournal
  case h_2 j hjournal =>
    split_ifs with hbinds
    · exact hw.2
    · rw [not_or, not_not] at hbinds
      obtain ⟨label, original, fenced, phase⟩ := j
      obtain ⟨rfl, hapart⟩ := hbinds
      exact hsome label fenced (hw.2.armed hw.1 hapart hjournal)

theorem goes_recoverPathFence (s : SlotState) :
    Goes (Held s) (recoverPathFence s) fun r w => Held s w ∧ Recovered s w r := by
  refine fun w hw => keeps_journalTarget hw (fun hjournal => ⟨hw, hjournal⟩)
    fun p fenced harmed => ?_
  refine ⟨hw.2, fun a _ => ?_⟩
  dsimp only
  split
  · exact hw.2
  refine ⟨hw.2, fun a _ => ?_⟩
  dsimp only
  split
  · exact hw.2
  · exact keeps_recoverPlace s p fenced w harmed _ _ rfl

theorem goes_recoverJournaled (s : SlotState) :
    Goes (Held s) (recoverJournaled s) fun r => Plain r.1 := by
  refine fun w hw => keeps_journalTarget hw (fun hjournal => hw.2.plain hw.1 hjournal)
    fun p fenced harmed => ?_
  refine Goes.bind ((within_inspect _).goes) (fun _ => ?_) w hw
  refine (goes_recoverPathFence s).bind fun recovery => ?_
  cases recovery with
  | none => exact goes_ret fun w hw => hw.1.2.plain hw.1.1 hw.2
  | restored => exact goes_ret fun w hw => ⟨hw.1.1, hw.2⟩
  | removalCompleted p =>
    exact (goes_clearReleaseJournal fun w h => places_without h.2.1 h.2.2).bind fun s' =>
      goes_ret fun w hw => hw.2

theorem goes_clearRecovered (recover : Bool) (s : SlotState) :
    Goes (Plain s) (clearRecovered recover s) fun s' w => s'.branch = s.branch ∧ Plain s' w := by
  refine goes_ite (fun _ => ?_) fun _ => goes_ret fun _ hw => ⟨rfl, hw⟩
  refine (goes_clearReleaseJournal fun _ hw => hw.dirs).bind fun s' => ?_
  exact within_verifyRegistry.goes.bind fun _ => goes_ret fun _ hw => hw

theorem within_checkOrigin (push force : Bool) : Within I (checkOrigin push force) :=
  (within_survey _).bind fun _ => (within_ite (within_survey _) (within_ret _)).bind
    fun _ => within_ite (within_raise _) (within_ret _)

theorem SlotState.mem_targets (h : s.branch p ≠ "-") : p ∈ s.targets := by
  refine mem_filter.mpr ⟨?_, by simpa using h⟩
  cases p <;> decide

theorem goes_cleanRecovered (recoveredAny : Bool) (s : SlotState) :
    Goes (Plain s) (cleanRecovered flags recoveredAny s) fun _ => Bound := by
  refine within_verifyRegistry.goes.bind fun _ => ?_
  refine Goes.bind (J := fun targets w => targets = s.targets ∧ Plain s w)
    ((within_demand _ _ _).goes.bind fun _ => goes_ret fun _ hw => ⟨rfl, hw⟩) ?_
  rintro targets w ⟨rfl, hw⟩
  refine Goes.bind ((within_inspect _).goes) (fun _ => ?_) w hw
  refine Goes.bind (J := fun _ => Plain s) ?_ fun proofs => ?_
  · refine fun w hw => Script.Keeps.thread (I := fun _ _ => Plain s) (fun p ps proofs w h => ?_)
      s.targets _ w hw
    exact (within_proveTarget flags.recover p proofs).goes w h
  refine goes_ite (fun _ => goes_raise) fun _ => (goes_clearRecovered flags.recover s).bind
    fun s₁ w hw => ?_
  obtain ⟨hbranch, hw⟩ := hw
  refine goes_ite (fun _ => goes_raise) (fun _ => ?_) w hw
  refine (within_checkOrigin _ _).goes.bind fun _ =>
    (goes_revokeSentinel Plain.carried s₁).bind fun s₂ w hw => ?_
  obtain ⟨hbranch₂, -, hw⟩ := hw
  refine Goes.bind ((within_inspect _).goes) (fun _ w hw => ?_) w hw
  refine goes_removeTargets flags s₂ s.targets proofs.nested w ⟨hw, fun p hp => ?_⟩
  exact SlotState.mem_targets (by rwa [hbranch₂, hbranch] at hp)

theorem goes_recoverRelease (s : SlotState)
    (hopen : flags.recover = false → s.releaseJournal = none) :
    Goes (Held s) (recoverRelease flags s) fun r => Plain r.1 :=
  goes_ite (fun _ => goes_recoverJournaled s) fun hrecover => goes_ret fun _ hw =>
    hw.2.plain hw.1 (hopen (Bool.not_eq_true _ ▸ hrecover))

theorem goes_cleanSlot (drift : Bool) (s : SlotState) :
    Goes (Held s) (cleanSlot flags drift s) fun _ => Bound := by
  refine (within_inspect _).goes.bind fun _ => goes_ite (fun _ => goes_raise) fun hrefused => ?_
  have hopen : flags.recover = false → s.releaseJournal = none := by
    intro hrecover
    cases hjournal : s.releaseJournal with
    | none => rfl
    | some j => simp [hrecover, hjournal] at hrefused
  refine (within_inspect _).goes.bind fun _ =>
    (within_recordedOwnerAuthorities s).goes.bind fun _ =>
    (goes_recoverRevocation flags s).bind ?_
  rintro ⟨s₁, revoked⟩ w ⟨hjournal, hw⟩
  change s₁.releaseJournal = s.releaseJournal at hjournal
  refine goes_ite (I := Held s₁) (fun _ => goes_raise) (fun _ => ?_) w hw
  refine (goes_recoverRelease flags s₁ fun hrecover => hjournal.trans (hopen hrecover)).bind
    fun r => ?_
  exact goes_cleanRecovered flags _ r.1

theorem goes_clean : Goes Bound (clean flags) fun _ => Bound := by
  refine goes_ite (fun _ => goes_raise) fun _ w hw => ?_
  refine ⟨hw, fun a _ => ?_⟩
  dsimp only
  split
  · exact hw
  have : Settled fun w' => w'.slot = w.slot ∧ Bound w' :=
    ⟨fun w₁ w₂ hslot hdirs h => ⟨hslot.trans h.1, Bound.local w₁ w₂ hslot hdirs h.2⟩⟩
  refine Goes.bind (I := fun w' => w'.slot = w.slot ∧ Bound w') (Within.goes (within_ite
    (within_regenActiveMd _) (within_ret _))) (fun drift => ?_) w ⟨rfl, hw⟩
  cases hslot : w.slot with
  | none =>
    refine goes_ite (fun _ => ?_) fun _ => goes_raise
    exact (Within.goes (((within_demand _ _ _).bind fun _ => within_demand _ _ _).bind
      fun _ => within_verifyRegistry)).mono fun _ _ h => h.2
  | some s => exact goes_cleanSlot flags drift s

def World.Registered (w : World) : Prop :=
  ∃ s, w.slot = some s ∧ ∀ p, (w.tree p).dirs = if s.branch p = "-" then [] else [.canonical]

theorem World.Registered.bound (h : w.Registered) : Bound w := by
  obtain ⟨s, hs, hdirs⟩ := h
  intro p place hplace
  rw [hdirs p] at hplace
  split at hplace
  · cases hplace
  case isFalse hbranch =>
    rw [mem_singleton] at hplace
    exact ⟨s, hs, hbranch, fun hne => (hne hplace).elim⟩

theorem Bound.of_follows {r : Release} (h : r.Follows kept Bound) : Bound r.world := by
  obtain ⟨w, running⟩ := r
  cases running with
  | none => exact h
  | some m =>
    cases m with
    | ret a => exact h
    | raise x => exact h
    | step l act next => exact h.1

theorem release_never_orphans_a_worktree (w : World) (hw : w.Registered) (r : Release)
    (hr : (releases w).Reachable r) (p : Product) :
    (∀ place ∈ (r.world.tree p).dirs, ∃ s, r.world.slot = some s ∧ s.branch p ≠ "-") ∧
    (∀ nonce, .fenced nonce ∈ (r.world.tree p).dirs → .canonical ∉ (r.world.tree p).dirs ∧
      ∃ s phase, r.world.slot = some s ∧
        s.releaseJournal = some ⟨p, .canonical, .fenced nonce, phase⟩) ∧
    ¬ ∃ nonce, .canonical ∈ (r.world.tree p).dirs ∧ .fenced nonce ∈ (r.world.tree p).dirs := by
  have hadmits : (releases w).ReachableWhen (Runner.Admits kept.allows fun _ => True) r :=
    hr.mono fun r e _ => by unfold Runner.Admits kept; split <;> trivial
  have hbound : Bound r.world := by
    refine Bound.of_follows (Runner.follows_of_reachable hadmits hw.bound goes_clean ?_)
    exact fun _ _ h _ => h
  refine ⟨fun place hplace => ?_, fun nonce hplace => ?_, ?_⟩
  · obtain ⟨s, hs, hbranch, -⟩ := hbound p place hplace
    exact ⟨s, hs, hbranch⟩
  · obtain ⟨s, hs, -, hfenced⟩ := hbound p _ hplace
    obtain ⟨habsent, phase, hphase⟩ := hfenced (by simp)
    exact ⟨habsent, s, phase, hs, hphase⟩
  · rintro ⟨nonce, hcanonical, hfenced⟩
    obtain ⟨s, -, -, habsent⟩ := hbound p _ hfenced
    exact (habsent (by simp)).1 hcanonical

def oneProduct (t : Tree) : World where
  slot := some ⟨fun p => if p = .hermit then "main" else "-", "active", none, false, none⟩
  active := some ⟨fun p => if p = .hermit then "main" else "-", "active"⟩
  slotDir := true
  tree p :=
    if p = .hermit then t
    else ⟨[], [], false, false, false, false, none, false, false, false⟩

def checkout (modules gitlinks populated : Bool) : Tree :=
  ⟨[.canonical], [.canonical], modules, false, false, false, none, gitlinks, populated, false⟩

def fine : Answer := ⟨false, false, false, false, 7⟩

theorem fenced_worktree_is_journaled :
    ∃ r, (releases (oneProduct (checkout false false false))).Reachable r ∧
      .fenced 7 ∈ (r.world.tree .hermit).dirs ∧ ∃ s phase, r.world.slot = some s ∧
        s.releaseJournal = some ⟨.hermit, .canonical, .fenced 7, phase⟩ := by
  obtain ⟨r, hr, hview⟩ := @System.exists_reachable _ _
    (releases (oneProduct (checkout false false false))) (fun _ _ => True) _ _
    (fun r => (r.world.tree .hermit).dirs) [.fenced 7]
    (.invoke ⟨false, false, false⟩ :: List.replicate 33 (.act fine)) (by decide +kernel)
  have hfenced : .fenced 7 ∈ (r.world.tree .hermit).dirs := by simp [hview]
  have hregistered : (oneProduct (checkout false false false)).Registered :=
    ⟨_, rfl, fun p => by cases p <;> rfl⟩
  exact ⟨r, hr, hfenced,
    ((release_never_orphans_a_worktree _ hregistered r hr .hermit).2.1 7 hfenced).2⟩

end DevHermit.Worktree.Clean
