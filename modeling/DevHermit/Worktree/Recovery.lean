import DevHermit.Worktree.Binding

namespace DevHermit.Worktree.Clean

open Lib Clean.Tree Option Script

inductive Admin : Bool → Bool → Bool → Bool → Bool → Prop
  | bare (gitlinks : Bool) : Admin false false false gitlinks false
  | present (inProgress populated : Bool) : Admin true false inProgress true populated
  | hidden : Admin false true true true false

inductive Placed (fenced : Loc) : Loc → Loc → Option Marker → Bool → Prop
  | unmarked (modules : Bool) : Placed fenced .canonical .canonical none modules
  | moving (modules : Bool) :
      Placed fenced .canonical .canonical (some (.gitMove .canonical fenced)) modules
  | moved : Placed fenced fenced fenced (some (.gitMove .canonical fenced)) false
  | atomic (place registered : Loc) (phase : AtomicPhase) (modules : Bool)
      (hplace : place = .canonical ∨ place = fenced)
      (hregistered : registered = .canonical ∨ registered = fenced) :
      Placed fenced place registered (some (.atomic .canonical fenced phase)) modules

def during (place registered : Loc) (marker : Option Marker)
    (modules quarantine inProgress gitlinks populated : Bool) : Tree :=
  ⟨[place], [registered], modules, quarantine, false, inProgress, marker, gitlinks, populated, false⟩

def Tree.Pending (fenced : Loc) (t : Tree) : Prop :=
  ∃ place registered marker modules quarantine inProgress gitlinks populated,
    t = during place registered marker modules quarantine inProgress gitlinks populated ∧
      Placed fenced place registered marker modules ∧
      Admin modules quarantine inProgress gitlinks populated

def Tree.Whole (t : Tree) : Prop :=
  ∃ modules gitlinks populated, t = checkout modules gitlinks populated ∧
    Admin modules false false gitlinks populated

def Tree.Gone (t : Tree) : Prop :=
  ∃ gitlinks, t = ⟨[], [], false, false, false, false, none, gitlinks, false, false⟩

def Tree.Standing (branch : String) (t : Tree) : Prop := if branch = "-" then t.Gone else t.Whole

def SlotState.Leaseless (s : SlotState) : Prop :=
  s.coordinatorLease = false ∧ s.coordinatorLeaseRevocation = none

structure Flight (s : SlotState) (p : Product) (fenced : Loc) (w : World) : Prop where
  slot : w.slot = some s
  leaseless : s.Leaseless
  label : s.branch p ≠ "-"
  apart : fenced ≠ .canonical
  others : ∀ q, q ≠ p → (w.tree q).Standing (s.branch q)

structure Ready (s : SlotState) (w : World) : Prop where
  slot : w.slot = some s
  leaseless : s.Leaseless
  journal : s.releaseJournal = none
  status : s.status ≠ "releasing"
  standing : ∀ p, (w.tree p).Standing (s.branch p)

inductive Recoverable (w : World) : Prop
  | released (hslot : w.slot = none) (hdir : w.slotDir = false) (hgone : ∀ p, (w.tree p).Gone)
  | ready (s : SlotState) (h : Ready s w)
  | pending (s : SlotState) (p : Product) (fenced : Loc) (h : Flight s p fenced w)
      (hjournal : s.releaseJournal = some ⟨p, .canonical, fenced, .armed⟩)
      (htree : (w.tree p).Pending fenced)
  | removed (s : SlotState) (p : Product) (fenced : Loc) (h : Flight s p fenced w)
      (hjournal : s.releaseJournal = some ⟨p, .canonical, fenced, .gitRemovalComplete⟩)
      (htree : (w.tree p).Gone)

def truthful (window : Window) (a : Answer) : Prop :=
  a.refused = false ∧ a.blind = false ∧ (window = .exposed → a.fault = false)

instance (window : Window) (a : Answer) : Decidable (truthful window a) :=
  inferInstanceAs (Decidable (_ ∧ _ ∧ (_ → _)))

def recovering (strict : Bool) : Discipline Window World Answer where
  holds window w := window = .settled → Recoverable w
  allows window a := truthful window a ∧ (strict = true → a.fault = false)

def Completes {α : Type} (strict : Bool) (m : Task α) (Q : α → World → Prop) (w : World) : Prop :=
  m.Keeps (recovering strict) Q (fun _ w => Recoverable w ∧ strict = false) w

section

variable {α β : Type} {strict : Bool} {Q : β → World → Prop} {w : World}
  {f : α → Task β} {m : Task α}

theorem completes_bind (h : Completes strict m (fun a w => Completes strict (f a) Q w) w) :
    Completes strict (m >>= f) Q w := Script.Keeps.bind h

theorem Completes.seq {P : α → World → Prop} (h : Completes strict m P w)
    (hf : ∀ a w, P a w → Completes strict (f a) Q w) :
    Completes strict (m >>= f) Q w := Script.Keeps.seq h hf

theorem Completes.mono {m : Task β} {P : β → World → Prop} (h : Completes strict m P w)
    (hPQ : ∀ a w, P a w → Q a w) : Completes strict m Q w :=
  Script.Keeps.mono h hPQ fun _ _ hx => hx

theorem completes_ret {b : β} (h : Q b w) : Completes strict (.ret b) Q w := h

variable {error : String}

theorem completes_raise (hw : Recoverable w) (hstrict : strict = false) :
    Completes strict (.raise error) Q w := ⟨hw, hstrict⟩

theorem allowed_fault {window : Window} {a : Answer} (h : (recovering strict).allows window a)
    (hfault : a.fault = true) : strict = false := by
  cases strict with
  | false => rfl
  | true =>
    have := h.2 rfl
    rw [hfault] at this
    cases this

variable {view : World → β}

theorem completes_observe (hw : Recoverable w) (h : Q (view w) w) :
    Completes strict (observe .settled error view) Q w := by
  refine ⟨fun _ => hw, fun a ha => ?_⟩
  dsimp only
  split_ifs with hfault
  · exact ⟨hw, allowed_fault ha hfault⟩
  · exact h

theorem keeps_observe_exposed {E : String → World → Prop} (h : Q (view w) w) :
    (observe .exposed error view).Keeps (recovering strict) Q E w := by
  refine ⟨nofun, fun a ha => ?_⟩
  dsimp only
  rw [ha.1.2.2 rfl]
  exact h

variable {test : World → Bool}

section

variable (hw : Recoverable w)
include hw

theorem completes_demand {Q : Unit → World → Prop} (htest : test w = true) (h : Q () w) :
    Completes strict (demand .settled error test) Q w := by
  refine ⟨fun _ => hw, fun a ha => ?_⟩
  dsimp only
  rw [htest, Bool.not_true, Bool.or_false]
  split_ifs with hfault
  · exact ⟨hw, allowed_fault ha hfault⟩
  · exact h

theorem completes_inspect {Q : Unit → World → Prop} (h : Q () w) :
    Completes strict (inspect error) Q w := by
  refine ⟨fun _ => hw, fun a ha => ?_⟩
  dsimp only
  rw [ha.1.1, Bool.or_false]
  split_ifs with hfault
  · exact ⟨hw, allowed_fault ha hfault⟩
  · exact h

theorem completes_inspect_attempt {Q : Except String Unit → World → Prop}
    (hok : Q (.ok ()) w) (herror : strict = false → ∀ error, Q (.error error) w) :
    Completes strict (inspect error).attempt Q w := by
  refine ⟨fun _ => hw, fun a ha => ?_⟩
  dsimp only
  rw [ha.1.1, Bool.or_false]
  split_ifs with hfault
  · exact herror (allowed_fault ha hfault) _
  · exact hok

theorem completes_survey {Q : Bool → World → Prop} (h : Q false w) :
    Completes strict (survey error) Q w := by
  refine ⟨fun _ => hw, fun a ha => ?_⟩
  dsimp only
  rw [ha.1.1]
  split_ifs with hfault
  · exact ⟨hw, allowed_fault ha hfault⟩
  · exact h

theorem completes_clock {Q : Nat → World → Prop} (h : ∀ n, Q n w) :
    Completes strict clock Q w := ⟨fun _ => hw, fun a _ => h a.stamp⟩

theorem completes_pathExists {Q : Bool → World → Prop} (h : Q (test w) w) :
    Completes strict (pathExists test) Q w := by
  refine ⟨fun _ => hw, fun a ha => ?_⟩
  dsimp only
  rw [ha.1.2.1, Bool.not_false, Bool.true_and]
  exact h

end

variable {change : World → Option World} {w' : World}

theorem completes_mutate {Q : Unit → World → Prop} (hw : Recoverable w)
    (hchange : change w = some w') (h : Q () w') :
    Completes strict (mutate .settled error change) Q w := by
  refine ⟨fun _ => hw, fun a ha => ?_⟩
  cases hfault : a.fault with
  | true =>
    simp only [hfault, Bool.true_or, if_true]
    exact ⟨hw, allowed_fault ha hfault⟩
  | false => simpa [hfault, hchange, Keeps, Obeys, Discipline.rule] using h

theorem completes_mutate_attempt {Q : Except String Unit → World → Prop} (hw : Recoverable w)
    (hchange : change w = some w') (hok : Q (.ok ()) w')
    (herror : strict = false → ∀ error, Q (.error error) w) :
    Completes strict (mutate .settled error change).attempt Q w := by
  refine ⟨fun _ => hw, fun a ha => ?_⟩
  cases hfault : a.fault with
  | true =>
    simp only [hfault, Bool.true_or, if_true]
    exact herror (allowed_fault ha hfault) _
  | false => simpa [hfault, hchange, Script.attempt, Keeps, Obeys, Discipline.rule] using hok

theorem completes_mutate_exposed {Q : Unit → World → Prop} (hchange : change w = some w')
    (h : Q () w') : Completes strict (mutate .exposed error change) Q w := by
  refine ⟨nofun, fun a ha => ?_⟩
  simpa [ha.1.2.2 rfl, hchange, Keeps, Obeys, Discipline.rule] using h

theorem completes_regenActiveMd {Q : Bool → World → Prop} {state : Option SlotState}
    (hw : Recoverable w) (h : Q (!w.renders state) { w with active := state.map SlotState.row }) :
    Completes strict (regenActiveMd state) Q w := by
  refine ⟨fun _ => hw, fun a ha => ?_⟩
  cases hrenders : w.renders state with
  | true =>
    have hsame : { w with active := state.map SlotState.row } = w := by
      rw [← of_decide_eq_true hrenders]
    rw [hrenders, hsame] at h
    simp only [hrenders, if_true, ite_self, hsame]
    exact h
  | false =>
    rw [hrenders] at h
    cases hfault : a.fault with
    | true =>
      simp only [hrenders, hfault, if_true, Bool.false_eq_true, if_false]
      exact ⟨hw, allowed_fault ha hfault⟩
    | false =>
      simp only [hrenders, hfault, Bool.false_eq_true, if_false]
      exact h

theorem completes_verifyRegistry {Q : Unit → World → Prop} (hw : Recoverable w)
    (hconsistent : strict = true → w.consistent = true) (h : Q () w) :
    Completes strict verifyRegistry Q w := by
  refine ⟨fun _ => hw, fun a ha => ?_⟩
  dsimp only
  split_ifs with hrefused
  · refine ⟨hw, ?_⟩
    by_contra hne
    have hstrict : strict = true := by simpa using hne
    rw [ha.2 hstrict, hconsistent hstrict] at hrefused
    simp at hrefused
  · exact h

end

structure Sits (s : SlotState) (p : Product) (fenced : Loc) (b : World) (t : Tree) (w : World) :
    Prop where
  flight : Flight s p fenced b
  journal : s.releaseJournal = some ⟨p, .canonical, fenced, .armed⟩
  world : w = b.setTree p t

section

variable {s : SlotState} {p : Product} {fenced : Loc} {t : Tree} {b w : World} {strict : Bool}

theorem tree_setTree_self (w : World) (p : Product) (t : Tree) : (w.setTree p t).tree p = t := by
  simp [World.setTree]

theorem tree_setTree_of_ne (w : World) {p q : Product} (t : Tree) (h : q ≠ p) :
    (w.setTree p t).tree q = w.tree q := by
  simp [World.setTree, Function.update_of_ne h]

theorem Flight.setTree (h : Flight s p fenced w) (t : Tree) : Flight s p fenced (w.setTree p t) :=
  ⟨h.slot, h.leaseless, h.label, h.apart, fun q hq => by
    rw [tree_setTree_of_ne w t hq]
    exact h.others q hq⟩

theorem Sits.tree (h : Sits s p fenced b t w) : w.tree p = t := by rw [h.world, tree_setTree_self]

theorem Sits.recoverable (h : Sits s p fenced b t w) (ht : t.Pending fenced) : Recoverable w :=
  .pending s p fenced (h.world ▸ h.flight.setTree t) h.journal (by rw [h.tree]; exact ht)

theorem Sits.setTree (h : Sits s p fenced b t w) (t' : Tree) :
    Sits s p fenced b t' (w.setTree p t') :=
  ⟨h.flight, h.journal, by simp [h.world, World.setTree]⟩

theorem Sits.rebase (h : Sits s p fenced b t w) : Sits s p fenced w t w := by
  refine ⟨h.world ▸ h.flight.setTree t, h.journal, ?_⟩
  rw [h.world]
  simp [World.setTree]

end

structure Waits (s : SlotState) (p : Product) (fenced : Loc) (b : World) (t : Tree) (w : World) :
    Prop extends Sits s p fenced b t w where
  pending : t.Pending fenced

def Turns {α : Type} (strict : Bool) (s : SlotState) (p : Product) (fenced : Loc) (b : World)
    (m : Task α) (t : Tree) (v : α) (t' : Tree) : Prop :=
  ∀ w, Waits s p fenced b t w →
    Completes strict m (fun a w => a = v ∧ Waits s p fenced b t' w) w

section

variable {α β : Type} {s : SlotState} {p : Product} {fenced : Loc} {t t' t'' : Tree} {b w : World}
  {strict : Bool} {error : String} {m : Task α} {f : α → Task β} {v : α} {v' : β}

theorem Waits.recoverable (h : Waits s p fenced b t w) : Recoverable w :=
  h.toSits.recoverable h.pending

theorem Waits.setTree (h : Waits s p fenced b t w) (ht' : t'.Pending fenced) :
    Waits s p fenced b t' (w.setTree p t') := ⟨h.toSits.setTree t', ht'⟩

theorem Turns.seq (h : Turns strict s p fenced b m t v t')
    (hf : Turns strict s p fenced b (f v) t' v' t'') :
    Turns strict s p fenced b (m >>= f) t v' t'' := by
  intro w hw
  refine (h w hw).seq ?_
  rintro a w ⟨rfl, hw⟩
  exact hf w hw

theorem turns_ret : Turns strict s p fenced b (.ret v) t v t := fun _ hw => completes_ret ⟨rfl, hw⟩

theorem turns_of_apart (h : fenced ≠ .canonical → Turns strict s p fenced b m t v t') :
    Turns strict s p fenced b m t v t' := fun w hw => h hw.flight.apart w hw

theorem turns_doIf_false {m : Task Unit} : Turns strict s p fenced b (doIf false m) t () t :=
  turns_ret

theorem turns_doIf_true {m : Task Unit} (h : Turns strict s p fenced b m t () t') :
    Turns strict s p fenced b (doIf true m) t () t' := h

theorem turns_onTree {change : Tree → Option Tree} (hchange : change t = some t')
    (ht' : t'.Pending fenced) :
    Turns strict s p fenced b (onTree .settled error p change) t () t' := fun w hw =>
  completes_mutate hw.recoverable (by rw [hw.tree, hchange]; rfl) ⟨rfl, hw.setTree ht'⟩

variable {test : World → Bool}

theorem turns_demand (htest : ∀ w, w.tree p = t → test w = true) :
    Turns strict s p fenced b (demand .settled error test) t () t := fun w hw =>
  completes_demand hw.recoverable (htest w hw.tree) ⟨rfl, hw⟩

theorem turns_observe {view : World → α} (v : α) (hview : ∀ w, w.tree p = t → view w = v) :
    Turns strict s p fenced b (observe .settled error view) t v t := fun w hw =>
  completes_observe hw.recoverable ⟨hview w hw.tree, hw⟩

theorem turns_inspect : Turns strict s p fenced b (inspect error) t () t := fun _ hw =>
  completes_inspect hw.recoverable ⟨rfl, hw⟩

theorem turns_survey : Turns strict s p fenced b (survey error) t false t := fun _ hw =>
  completes_survey hw.recoverable ⟨rfl, hw⟩

theorem turns_pathExists (v : Bool) (htest : ∀ w, w.tree p = t → test w = v) :
    Turns strict s p fenced b (pathExists test) t v t := fun w hw =>
  completes_pathExists hw.recoverable ⟨htest w hw.tree, hw⟩

theorem turns_validatePathFenceMarker (method : PathFenceMethod)
    (hmethod : t.fenceMethod .canonical fenced = some method) :
    Turns strict s p fenced b (validatePathFenceMarker p fenced) t method t :=
  (turns_observe (some method) fun w hw => by rw [hw, hmethod]).seq turns_ret

variable {source target : Loc} {f : GitOutcome → Task β}

theorem turns_gitWorktreeMove (hmodules : t.modules = false)
    (hmove : t.gitMove source target = some t') (ht' : t'.Pending fenced)
    (hraise : f .failure = .raise error) (hf : Turns strict s p fenced b (f .success) t' v' t'') :
    Turns strict s p fenced b (gitWorktreeMove p source target >>= f) t v' t'' := by
  refine fun w hw => completes_bind ⟨fun _ => hw.recoverable, fun a ha => ?_⟩
  cases hfault : a.fault with
  | true =>
    simp only [hfault, if_true, ha.1.1, Bool.false_eq_true, if_false]
    show Completes strict (f .failure) _ w
    rw [hraise]
    exact completes_raise hw.recoverable (allowed_fault ha hfault)
  | false =>
    simp only [hfault, Bool.false_eq_true, if_false, hw.tree, hmodules, hmove, isSome_some,
      if_true, map_some, getD_some]
    exact hf _ (hw.setTree ht')

theorem turns_gitWorktreeMove_refused (hmodules : t.modules = true)
    (hraise : f .failure = .raise error)
    (hf : Turns strict s p fenced b (f .submoduleRefusal) t v' t') :
    Turns strict s p fenced b (gitWorktreeMove p source target >>= f) t v' t' := by
  refine fun w hw => completes_bind ⟨fun _ => hw.recoverable, fun a ha => ?_⟩
  cases hfault : a.fault with
  | true =>
    simp only [hfault, if_true, ha.1.1, Bool.false_eq_true, if_false]
    show Completes strict (f .failure) _ w
    rw [hraise]
    exact completes_raise hw.recoverable (allowed_fault ha hfault)
  | false =>
    have hmove : t.gitMove source target = none := by simp [gitMove, hmodules]
    simp only [hfault, Bool.false_eq_true, if_false, hw.tree, hmodules, hmove, if_true,
      map_none, getD_none]
    exact hf w hw

end

section

variable {s : SlotState} {p : Product} {fenced place registered : Loc} {phase : AtomicPhase}
  {marker : Option Marker} {m q i g u : Bool} {b w : World} {strict : Bool} {error : String}

theorem pending_during (hplaced : Placed fenced place registered marker m)
    (hadmin : Admin m q i g u) : (during place registered marker m q i g u).Pending fenced :=
  ⟨_, _, _, _, _, _, _, _, rfl, hplaced, hadmin⟩

theorem pending_unmarked (fenced : Loc) (hadmin : Admin m q i g u) :
    (during .canonical .canonical none m q i g u).Pending fenced :=
  pending_during (.unmarked m) hadmin

theorem pending_atomic (phase : AtomicPhase) (hplace : place = .canonical ∨ place = fenced)
    (hregistered : registered = .canonical ∨ registered = fenced) (hadmin : Admin m q i g u) :
    (during place registered (some (.atomic .canonical fenced phase)) m q i g u).Pending fenced :=
  pending_during (.atomic _ _ _ _ hplace hregistered) hadmin

theorem turns_submoduleAdminPaths : Turns strict s p fenced b (submoduleAdminPaths p place)
    (during place registered marker m q i g u) () (during place registered marker m q i g u) :=
  turns_demand fun w hw => by simp [hw, hasAdmin, during]

theorem turns_repairCanonical
    (ht' : (during .canonical .canonical marker m q i g u).Pending fenced) :
    Turns strict s p fenced b (repairCanonical p) (during .canonical registered marker m q i g u) ()
      (during .canonical .canonical marker m q i g u) :=
  turns_onTree (by simp [gitRepair, during]) ht'

theorem turns_restoreForceFenceAdmin : Turns strict s p fenced b (restoreForceFenceAdmin p)
    (during place registered marker m q i g u) () (during place registered marker m q i g u) :=
  (turns_observe false fun w hw => by rw [hw]; rfl).seq turns_ret

theorem Placed.sited (hplaced : Placed fenced place registered marker m) :
    place = .canonical ∨ place = fenced := by
  cases hplaced with
  | unmarked => exact .inl rfl
  | moving => exact .inl rfl
  | moved => exact .inr rfl
  | atomic _ _ _ _ hplace _ => exact hplace

variable (hadmin : Admin m q i g u)
include hadmin

theorem turns_removePathFence {marker : Marker} : Turns strict s p fenced b
    (removePathFence error p) (during .canonical .canonical (some marker) m q i g u) ()
      (during .canonical .canonical none m q i g u) :=
  turns_onTree rfl (pending_unmarked fenced hadmin)

omit hadmin in
theorem turns_moveBack (hadmin : Admin false q i g u) :
    Turns strict s p fenced b (moveBack error p fenced)
      (during fenced fenced (some (.gitMove .canonical fenced)) false q i g u) ()
      (during .canonical .canonical none false q i g u) :=
  turns_of_apart fun hne => turns_gitWorktreeMove rfl
    (by simp [gitMove, during, hne.symm]) (pending_during (.moving false) hadmin) rfl
    (turns_removePathFence hadmin)

section

variable (hplace : place = .canonical ∨ place = fenced)
  (hregistered : registered = .canonical ∨ registered = fenced)
include hplace hregistered

theorem turns_restorePlace : Turns strict s p fenced b (restorePlace p fenced
      ([registered].count .canonical, [registered].count fenced)
      (decide (.canonical ∈ [place])) (decide (fenced ∈ [place])))
      (during place registered (some (.atomic .canonical fenced phase)) m q i g u) ()
      (during .canonical .canonical (some (.atomic .canonical fenced phase)) m q i g u) := by
  refine turns_of_apart fun hne => ?_
  have hrestored : (during .canonical .canonical (some (.atomic .canonical fenced phase)) m q i g
      u).Pending fenced := pending_atomic phase (.inl rfl) (.inl rfl) hadmin
  have hcount : [Loc.canonical].count fenced = 0 := by simp [hne.symm]
  have hcount' : [fenced].count .canonical = 0 := by simp [hne]
  have hself : ∀ place : Loc, [place].count place = 1 := fun place => by simp
  have hmem : decide (.canonical ∈ [fenced]) = false := by simp [hne.symm]
  have hmem' : decide (fenced ∈ [Loc.canonical]) = false := by simp [hne]
  have hin : ∀ place : Loc, decide (place ∈ [place]) = true := fun place => by simp
  rcases hplace with rfl | hplace
  · rcases hregistered with rfl | hregistered
    · rw [hcount, hself, hmem', hin]
      exact turns_ret
    · obtain rfl := hregistered.symm
      rw [hcount', hself, hmem', hin]
      exact turns_repairCanonical hrestored
  · obtain rfl := hplace.symm
    rcases hregistered with rfl | hregistered
    · rw [hcount, hself, hmem, hin]
      refine turns_submoduleAdminPaths.seq (turns_inspect.seq ?_)
      exact (turns_onTree (by simp [rename, during, hne.symm]) hrestored).seq turns_ret
    · obtain rfl := hregistered.symm
      rw [hcount', hself, hmem, hin]
      refine turns_submoduleAdminPaths.seq (turns_inspect.seq ?_)
      exact (turns_onTree (by simp [rename, during, hne.symm])
        (pending_atomic phase (.inl rfl) (.inr rfl) hadmin)).seq (turns_repairCanonical hrestored)

theorem turns_restoreAtomicPathFence : Turns strict s p fenced b (restoreAtomicPathFence p fenced)
      (during place registered (some (.atomic .canonical fenced phase)) m q i g u) ()
      (during .canonical .canonical none m q i g u) := by
  refine turns_of_apart fun hne => ?_
  refine (turns_validatePathFenceMarker .atomicRenameRepair (by simp [fenceMethod, during])).seq ?_
  refine (turns_observe (decide (.canonical ∈ [place])) fun w hw => by rw [hw]; rfl).seq ?_
  refine (turns_observe (decide (fenced ∈ [place])) fun w hw => by rw [hw]; rfl).seq ?_
  refine (turns_observe ([registered].count .canonical, [registered].count fenced)
    fun w hw => by rw [hw]; rfl).seq ?_
  refine (turns_restorePlace hadmin hplace hregistered).seq ?_
  refine (turns_demand fun w hw => by simp [hw, during, hne]).seq ?_
  refine (turns_demand fun w hw => by simp [hw, during, registrations, hne.symm]).seq ?_
  exact turns_submoduleAdminPaths.seq ((turns_removePathFence hadmin).seq turns_inspect)

end

theorem turns_recoverAtCanonical (hplaced : Placed fenced .canonical registered marker m) :
    Turns strict s p fenced b (recoverAtCanonical p fenced)
      (during .canonical registered marker m q i g u) ()
      (during .canonical .canonical none m q i g u) := by
  refine turns_of_apart fun hne => turns_submoduleAdminPaths.seq ?_
  refine (turns_observe marker.isSome fun w hw => by rw [hw]; rfl).seq ?_
  cases hplaced with
  | unmarked => exact turns_ret
  | moving =>
    exact (turns_validatePathFenceMarker .gitWorktreeMove
      (by simp [fenceMethod, during])).seq (turns_removePathFence hadmin)
  | moved => exact absurd rfl hne
  | atomic _ _ phase _ hplace hregistered =>
    exact (turns_validatePathFenceMarker .atomicRenameRepair (by simp [fenceMethod, during])).seq
      (turns_restoreAtomicPathFence hadmin hplace hregistered)

theorem turns_unfence (label : String) (hne : fenced ≠ .canonical)
    (hplaced : Placed fenced fenced registered marker m) :
    Turns strict s p fenced b (unfence label p fenced)
      (during fenced registered marker m q i g u) ()
      (during .canonical .canonical none m q i g u) := by
  cases hplaced with
  | unmarked => exact absurd rfl hne
  | moving => exact absurd rfl hne
  | moved =>
    exact (turns_validatePathFenceMarker .gitWorktreeMove
      (by simp [fenceMethod, during])).seq (turns_moveBack hadmin)
  | atomic _ _ phase _ hplace hregistered =>
    exact (turns_validatePathFenceMarker .atomicRenameRepair (by simp [fenceMethod, during])).seq
      (turns_restoreAtomicPathFence hadmin hplace hregistered)

theorem turns_recoverAtFence (hplaced : Placed fenced fenced registered marker m) :
    Turns strict s p fenced b (recoverAtFence p fenced)
      (during fenced registered marker m q i g u) ()
      (during .canonical .canonical none m q i g u) :=
  turns_of_apart fun hne => turns_submoduleAdminPaths.seq (turns_unfence hadmin _ hne hplaced)

theorem turns_recoverPathFence (hjournal : journalTarget s = .ret (some (p, fenced)))
    (hplaced : Placed fenced place registered marker m) :
    Turns strict s p fenced b (recoverPathFence s) (during place registered marker m q i g u)
      .restored (during .canonical .canonical none m q i g u) := by
  refine turns_of_apart fun hne => ?_
  rw [recoverPathFence, hjournal]
  refine (turns_observe (decide (.canonical ∈ [place])) fun w hw => by rw [hw]; rfl).seq ?_
  refine (turns_observe (decide (fenced ∈ [place])) fun w hw => by rw [hw]; rfl).seq ?_
  rcases hplaced.sited with rfl | hplace
  · rw [show decide (Loc.canonical ∈ [Loc.canonical]) = true by simp,
      show decide (fenced ∈ [Loc.canonical]) = false by simp [hne]]
    exact (turns_recoverAtCanonical hadmin hplaced).seq (turns_restoreForceFenceAdmin.seq turns_ret)
  · obtain rfl := hplace.symm
    rw [show decide (Loc.canonical ∈ [fenced]) = false by simp [hne.symm],
      show decide (fenced ∈ [fenced]) = true by simp]
    exact (turns_recoverAtFence hadmin hplaced).seq (turns_restoreForceFenceAdmin.seq turns_ret)

end

variable {s : SlotState} {p : Product} {fenced place registered : Loc} {marker : Option Marker}
  {m q i g u : Bool} {b w : World} {strict : Bool}

theorem turns_ensureNoSubmoduleCleanupArtifacts : Turns strict s p fenced b
    (ensureNoSubmoduleCleanupArtifacts p) (during .canonical registered none m false false g u) ()
      (during .canonical registered none m false false g u) :=
  turns_submoduleAdminPaths.seq (turns_demand fun w hw => by simp [hw, during])

theorem turns_createSubmoduleCleanupMarker (hplaced : Placed fenced place registered marker true) :
    Turns strict s p fenced b (createSubmoduleCleanupMarker p)
      (during place registered marker true false false true u) ()
      (during place registered marker true false true true u) :=
  Turns.seq (turns_onTree rfl (pending_during hplaced (.present true u))) turns_inspect

theorem turns_quarantineSubmoduleAdmin (hplaced : Placed fenced place registered marker false) :
    Turns strict s p fenced b (quarantineSubmoduleAdmin p)
      (during place registered marker true false true true false) ()
      (during place registered marker false true true true false) :=
  turns_onTree rfl (pending_during hplaced .hidden)

def prepared (m g u : Bool) : Tree :=
  if u then during .canonical .canonical none false true true true false
  else during .canonical .canonical none m false false g false

theorem turns_deinitSubmodules : Turns strict s p fenced b (deinitSubmodules p)
    (during .canonical .canonical none true false false true true) ()
      (during .canonical .canonical none true false true true false) := by
  refine Turns.seq (turns_ensureNoSubmoduleCleanupArtifacts.seq
    (turns_createSubmoduleCleanupMarker (.unmarked true))) ?_
  exact turns_onTree (by simp [deinit, during]) (pending_unmarked fenced (.present true false))

theorem turns_prepareSubmodules (hadmin : Admin m false false g u) :
    Turns strict s p fenced b (prepareSubmodules p u false) (checkout m g u) ()
      (prepared m g u) := by
  cases u with
  | false =>
    exact turns_doIf_false.seq (turns_survey.seq
      (turns_doIf_false.seq (turns_doIf_false.seq turns_inspect)))
  | true =>
    cases hadmin with
    | present =>
      refine (turns_doIf_true turns_deinitSubmodules).seq (turns_survey.seq ?_)
      exact (turns_doIf_true (turns_quarantineSubmoduleAdmin (.unmarked false))).seq
        (turns_doIf_false.seq turns_inspect)

theorem turns_persistAtomicPathFenceMarker (phase : AtomicPhase) (hadmin : Admin m q i g u)
    (hplace : place = .canonical ∨ place = fenced)
    (hregistered : registered = .canonical ∨ registered = fenced) :
    Turns strict s p fenced b (persistAtomicPathFenceMarker p fenced phase)
      (during place registered marker m q i g u) ()
      (during place registered (some (.atomic .canonical fenced phase)) m q i g u) :=
  turns_onTree rfl (pending_atomic phase hplace hregistered hadmin)

theorem turns_beginAtomicPathFence : Turns strict s p fenced b (beginAtomicPathFence p fenced)
    (during .canonical .canonical (some (.gitMove .canonical fenced)) true false false true false)
      () (during fenced fenced (some (.atomic .canonical fenced .repaired)) true false false true
        false) := by
  refine turns_of_apart fun hne => ?_
  have hadmin : Admin true false false true false := .present false false
  refine (turns_demand fun w hw => by simp [hw, during]).seq (turns_inspect.seq ?_)
  refine (turns_demand fun w hw => by simp [hw, during, registrations, hne.symm]).seq ?_
  refine turns_submoduleAdminPaths.seq (turns_inspect.seq ?_)
  refine (turns_persistAtomicPathFenceMarker .prepared hadmin (.inl rfl) (.inl rfl)).seq ?_
  refine (turns_onTree (by simp [rename, during, hne])
    (pending_atomic .prepared (.inr rfl) (.inl rfl) hadmin)).seq ?_
  refine (turns_persistAtomicPathFenceMarker .renamed hadmin (.inr rfl) (.inl rfl)).seq ?_
  refine (turns_demand fun w hw => by simp [hw, during, hne.symm]).seq ?_
  refine (turns_demand fun w hw => by simp [hw, during, registrations, hne.symm]).seq ?_
  refine turns_submoduleAdminPaths.seq ?_
  refine (turns_onTree (by simp [gitRepair, during])
    (pending_atomic .renamed (.inr rfl) (.inr rfl) hadmin)).seq ?_
  refine (turns_demand fun w hw => by simp [hw, during, registrations, hne]).seq ?_
  exact turns_submoduleAdminPaths.seq
    (turns_persistAtomicPathFenceMarker .repaired hadmin (.inr rfl) (.inr rfl))

theorem turns_markPathFence (hadmin : Admin m q i g u) :
    Turns strict s p fenced b (markPathFence p fenced)
      (during .canonical .canonical none m q i g u) ()
      (during .canonical .canonical (some (.gitMove .canonical fenced)) m q i g u) := by
  intro w hw
  refine completes_bind (completes_mutate hw.recoverable (by rw [hw.tree]; rfl) ?_)
  refine completes_mutate_exposed (by rw [tree_setTree_self]; rfl) ⟨rfl, ?_⟩
  exact ⟨(hw.toSits.setTree _).setTree _, pending_during (.moving m) hadmin⟩

theorem turns_beginPathFence {q i g m fallback : Bool} (hadmin : Admin m q i g false)
    (method : PathFenceMethod) (marker : Marker)
    (hmethod : (during fenced fenced (some marker) m q i g false).fenceMethod .canonical fenced =
      some method) (hacquire : ∀ {f : Bool → Task Bool}, Turns strict s p fenced b (f fallback)
        (during fenced fenced (some marker) m q i g false) fallback
        (during fenced fenced (some marker) m q i g false) → Turns strict s p fenced b
        (gitWorktreeMove p .canonical fenced >>= fun outcome =>
          acquireFence p fenced true outcome >>= f)
        (during .canonical .canonical (some (.gitMove .canonical fenced)) m q i g false) fallback
        (during fenced fenced (some marker) m q i g false)) :
    Turns strict s p fenced b (beginPathFence p fenced true)
      (during .canonical .canonical none m q i g false) fallback
      (during fenced fenced (some marker) m q i g false) := by
  refine turns_of_apart fun hne => ?_
  refine (turns_demand fun w hw => by simp [hw, during, hne]).seq ?_
  refine turns_submoduleAdminPaths.seq ?_
  refine (turns_demand fun w hw => by simp [hw, during]).seq ?_
  refine (turns_markPathFence hadmin).seq (turns_inspect.seq (hacquire ?_))
  refine (turns_pathExists false fun w hw => by simp [hw, during, hne.symm]).seq ?_
  refine (turns_demand fun w hw => by simp [hw, during]).seq ?_
  exact (turns_validatePathFenceMarker method hmethod).seq turns_ret

theorem turns_beginPathFence_moved (hadmin : Admin false q i g false) :
    Turns strict s p fenced b (beginPathFence p fenced true)
      (during .canonical .canonical none false q i g false) false
      (during fenced fenced (some (.gitMove .canonical fenced)) false q i g false) := by
  refine turns_of_apart fun hne => turns_beginPathFence hadmin .gitWorktreeMove _
    (by simp [fenceMethod, during]) fun hf => ?_
  exact turns_gitWorktreeMove rfl (by simp [gitMove, during, hne])
    (pending_during .moved hadmin) rfl (turns_ret.seq hf)

theorem turns_beginPathFence_renamed : Turns strict s p fenced b (beginPathFence p fenced true)
    (during .canonical .canonical none true false false true false) true
      (during fenced fenced (some (.atomic .canonical fenced .repaired)) true false false true
        false) := by
  refine turns_beginPathFence (.present false false) .atomicRenameRepair _
    (by simp [fenceMethod, during]) fun hf => ?_
  refine turns_gitWorktreeMove_refused rfl rfl (Turns.seq ?_ hf)
  exact turns_beginAtomicPathFence.seq turns_ret

structure Fenced (s : SlotState) (p : Product) (fenced : Loc) (b : World) (marker : Option Marker)
    (q i g : Bool) (w : World) : Prop where
  placed : Placed fenced fenced fenced marker false
  admin : Admin false q i g false
  sits : Sits s p fenced b (during fenced fenced marker false q i g false) w

theorem Fenced.pending (h : Fenced s p fenced b marker q i g w) :
    (during fenced fenced marker false q i g false).Pending fenced :=
  pending_during h.placed h.admin

theorem Fenced.waits (h : Fenced s p fenced b marker q i g w) :
    Waits s p fenced b (during fenced fenced marker false q i g false) w := ⟨h.sits, h.pending⟩

theorem turns_beginDeinitializedSubmoduleCleanup : Turns strict s p fenced b
    (beginDeinitializedSubmoduleCleanup p fenced)
    (during fenced fenced (some (.atomic .canonical fenced .repaired)) true false false true false)
      () (during fenced fenced (some (.atomic .canonical fenced .repaired)) true false true true
        false) := by
  refine (turns_demand fun w hw => by simp [hw, during]).seq ?_
  refine (turns_validatePathFenceMarker .atomicRenameRepair (by simp [fenceMethod, during])).seq ?_
  exact turns_createSubmoduleCleanupMarker (.atomic _ _ _ _ (.inr rfl) (.inr rfl))

theorem fenced_fenceTarget (hadmin : Admin m false false g u)
    (h : Waits s p fenced b (prepared m g u) w) :
    Completes strict (fenceTarget p fenced u false) (fun cleanup w => ∃ marker i g,
      Fenced s p fenced b marker cleanup i g w) w := by
  have hfenced : ∀ {marker q i g'}, Placed fenced fenced fenced marker false →
      Admin false q i g' false →
      Turns strict s p fenced b (fenceTarget p fenced u false) (prepared m g u) q
        (during fenced fenced marker false q i g' false) →
      Completes strict (fenceTarget p fenced u false) (fun cleanup w => ∃ marker i g,
        Fenced s p fenced b marker cleanup i g w) w := by
    intro marker q i g' hplaced hadmin hturns
    refine (hturns w h).mono ?_
    rintro cleanup w ⟨rfl, h⟩
    exact ⟨marker, i, g', hplaced, hadmin, h.toSits⟩
  cases hadmin with
  | bare => exact hfenced .moved (.bare g) ((turns_beginPathFence_moved (.bare g)).seq turns_ret)
  | present =>
    cases u with
    | true => exact hfenced .moved .hidden ((turns_beginPathFence_moved .hidden).seq turns_ret)
    | false =>
      have hplaced : Placed fenced fenced fenced (some (.atomic .canonical fenced .repaired)) false :=
        .atomic _ _ _ _ (.inr rfl) (.inr rfl)
      exact hfenced hplaced .hidden (turns_beginPathFence_renamed.seq
        (turns_beginDeinitializedSubmoduleCleanup.seq
          ((turns_quarantineSubmoduleAdmin hplaced).seq turns_ret)))

theorem turns_restoreSubmoduleAdmin : Turns strict s p fenced b (restoreSubmoduleAdmin p)
    (during .canonical .canonical none false true true true false) ()
      (during .canonical .canonical none true false true true false) :=
  turns_onTree rfl (pending_unmarked fenced (.present true false))

theorem Fenced.rollback (h : Fenced s p fenced b marker q i g w) :
    Turns strict s p fenced b (rollbackPathFence p fenced)
      (during fenced fenced marker false q i g false) ()
      (during .canonical .canonical none false q i g false) := by
  have hne : fenced ≠ .canonical := h.sits.flight.apart
  obtain ⟨hplaced, hadmin, -⟩ := h
  exact turns_unfence hadmin _ hne hplaced

theorem Fenced.abandon {error : String} {Q : Unit → World → Prop}
    (hw : Fenced s p fenced b marker q i g w) (hstrict : strict = false) :
    Completes strict (abandon p fenced q false error) Q w := by
  have hrollback : ∃ t', Turns strict s p fenced b (rollbackFencedRemoval p fenced q false)
      (during fenced fenced marker false q i g false) () t' := by
    have hback : Turns strict s p fenced b _ _ _ _ := hw.rollback
    obtain ⟨-, hadmin, -⟩ := hw
    cases hadmin with
    | bare => exact ⟨_, hback.seq (turns_doIf_false.seq turns_doIf_false)⟩
    | hidden =>
      exact ⟨_, hback.seq ((turns_doIf_true turns_restoreSubmoduleAdmin).seq turns_doIf_false)⟩
  obtain ⟨t', hrollback⟩ := hrollback
  refine Completes.seq (P := fun _ => Recoverable) (Script.Keeps.attempt
    (Script.Keeps.mono (hrollback w hw.waits) (fun _ _ h => h.2.recoverable) fun _ _ h => h.1))
    fun outcome w h => ?_
  cases outcome with
  | ok _ => exact completes_raise h hstrict
  | error _ => exact completes_raise h hstrict

theorem Fenced.verify {t : Tree} {E : String → World → Prop} (ht : t.Gone)
    (h : Sits s p fenced b t w) :
    (verifyCompletedGitRemoval .exposed p fenced).Keeps (recovering strict)
      (fun _ => Sits s p fenced b t) E w := by
  obtain ⟨g, rfl⟩ := ht
  refine Script.Keeps.bind (keeps_observe_exposed (Script.Keeps.bind (keeps_observe_exposed
    (Script.Keeps.bind (keeps_observe_exposed ?_)))))
  simp only [h.tree, List.not_mem_nil, decide_false, Bool.false_or, registrations,
    List.count_nil, ne_eq, not_true_eq_false]
  exact h

theorem Fenced.gitRemove : (during fenced fenced marker false q i g u).gitRemove false fenced =
      some ⟨[], [], false, false, false, false, none, g, false, false⟩ := by
  simp [Tree.gitRemove, during]

theorem sits_removeTarget (hadmin : Admin m false false g u)
    (h : Sits s p fenced b (checkout m g u) w) : Completes strict (removeTarget p fenced u false)
      (fun _ w => ∃ t, t.Gone ∧ Sits s p fenced b t w) w := by
  have h : Waits s p fenced b (checkout m g u) w := ⟨h, pending_unmarked fenced hadmin⟩
  refine (turns_ensureNoSubmoduleCleanupArtifacts w h).seq fun _ w h =>
    (turns_prepareSubmodules hadmin w h.2).seq fun _ w h => (fenced_fenceTarget hadmin h.2).seq ?_
  rintro cleanup w ⟨marker, i, g, hw⟩
  have hremove : ((w.tree p).gitRemove false fenced).map (w.setTree p) =
      some (w.setTree p ⟨[], [], false, false, false, false, none, g, false, false⟩) := by
    rw [hw.sits.tree, Fenced.gitRemove]
    rfl
  refine completes_bind (completes_inspect_attempt hw.waits.recoverable ?_
    fun hstrict error => hw.abandon hstrict)
  refine completes_bind (completes_mutate_attempt hw.waits.recoverable
    hremove ?_ fun hstrict error => hw.abandon hstrict)
  have h := hw.sits.setTree ⟨[], [], false, false, false, false, none, g, false, false⟩
  exact completes_bind (Script.Keeps.attempt ((Fenced.verify ⟨g, rfl⟩ h).mono
    (fun _ _ h => ⟨_, ⟨g, rfl⟩, h⟩) fun _ _ h => h))

end DevHermit.Worktree.Clean
