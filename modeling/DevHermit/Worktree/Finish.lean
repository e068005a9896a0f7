import DevHermit.Worktree.Recovery

namespace DevHermit.Worktree.Clean

open Lib List Script

def World.shows (w : World) (s : SlotState) : World :=
  { w with slot := some s, active := some s.row }

def Laid (s : SlotState) (w : World) : Prop :=
  ∀ p, (s.branch p = "-" → (w.tree p).dirs = []) ∧
    (s.branch p ≠ "-" → (w.tree p).dirs = [.canonical] ∧ (w.tree p).registered = [.canonical])

section

variable {s : SlotState} {w : World}

theorem Laid.consistent (h : Laid s w) (hslot : w.slot = some s)
    (hrenders : w.renders (some s) = true) : w.consistent = true := by
  unfold World.consistent
  rw [hslot, hrenders, Bool.true_and, all_eq_true]
  intro p _
  by_cases hbranch : s.branch p = "-"
  · simp [(h p).1 hbranch, hbranch]
  · simp [((h p).2 hbranch).1, hbranch]

theorem Laid.boundTargets (h : Laid s w) : w.boundTargets s = true := by
  unfold World.boundTargets
  rw [Bool.and_eq_true, Bool.or_eq_true, all_eq_true, all_eq_true]
  refine ⟨fun p hp => ?_, .inr fun p _ => ?_⟩
  · have hbranch : s.branch p ≠ "-" := by simpa using (mem_filter.mp hp).2
    simp [((h p).2 hbranch).1, ((h p).2 hbranch).2]
  · by_cases hbranch : s.branch p = "-"
    · simp [(h p).1 hbranch]
    · simp [((h p).2 hbranch).1, SlotState.mem_targets hbranch]

end

def Tree.Paused (t : Tree) : Prop :=
  ∃ m q i g u, t = during .canonical .canonical none m q i g u ∧ Admin m q i g u

variable {t : Tree}

theorem Tree.Whole.paused (h : t.Whole) : t.Paused := by
  obtain ⟨m, g, u, rfl, hadmin⟩ := h
  exact ⟨m, false, false, g, u, rfl, hadmin⟩

theorem Tree.Paused.pending (h : t.Paused) (fenced : Loc) : t.Pending fenced := by
  obtain ⟨m, q, i, g, u, rfl, hadmin⟩ := h
  exact pending_unmarked fenced hadmin

def Rests (s : SlotState) (waiting : List Product) (w : World) : Prop :=
  Ready s w ∨ ∃ p fenced t, Sits s p fenced w t w ∧ (t.Whole ∨ p ∈ waiting ∧ t.Paused)

variable {p : Product} {s : SlotState} {w : World} {fenced : Loc}

theorem Sits.paused_recoverable {b : World} (h : Sits s p fenced b t w) (ht : t.Paused) :
    Recoverable w := h.recoverable (ht.pending fenced)

variable {waiting : List Product}

theorem Rests.recoverable (h : Rests s waiting w) : Recoverable w := by
  rcases h with h | ⟨p, fenced, t, h, ht | ⟨-, ht⟩⟩
  · exact .ready s h
  · exact h.paused_recoverable ht.paused
  · exact h.paused_recoverable ht

theorem laid_of_standing (h : (w.tree p).Standing (s.branch p)) :
    (s.branch p = "-" → (w.tree p).dirs = []) ∧ (s.branch p ≠ "-" → (w.tree p).dirs = [.canonical] ∧
      (w.tree p).registered = [.canonical]) := by
  unfold Tree.Standing at h
  refine ⟨fun hbranch => ?_, fun hbranch => ?_⟩
  · rw [if_pos hbranch] at h
    obtain ⟨g, h⟩ := h
    rw [h]
  · rw [if_neg hbranch] at h
    obtain ⟨m, g, u, h, -⟩ := h
    rw [h]
    exact ⟨rfl, rfl⟩

theorem Rests.laid (h : Rests s waiting w) : Laid s w := by
  rcases h with h | ⟨p, fenced, t, h, ht⟩
  · exact fun p => laid_of_standing (h.standing p)
  · have hpaused : t.Paused := by
      rcases ht with ht | ⟨-, ht⟩
      · exact ht.paused
      · exact ht
    intro q
    by_cases hq : q = p
    · subst hq
      obtain ⟨m, q, i, g, u, rfl, -⟩ := hpaused
      refine ⟨fun hbranch => absurd hbranch h.flight.label, fun _ => ?_⟩
      rw [h.tree]
      exact ⟨rfl, rfl⟩
    · exact laid_of_standing (h.flight.others q hq)

theorem Rests.slot (h : Rests s waiting w) : w.slot = some s := by
  rcases h with h | ⟨p, fenced, t, h, -⟩
  · exact h.slot
  · exact h.flight.slot

section

variable {s : SlotState} {w : World} {strict : Bool} {Q : SlotState → World → Prop}

theorem completes_commitSlot (hw : Recoverable w) (hw' : Recoverable { w with slot := some s })
    (h : Q s (w.shows s)) : Completes strict (commitSlot .settled s) Q w :=
  completes_bind (completes_mutate hw rfl (completes_bind (completes_regenActiveMd hw'
    (completes_ret h))))

theorem completes_commitSlot_exposed (hw' : Recoverable { w with slot := some s })
    (h : Q s (w.shows s)) : Completes strict (commitSlot .exposed s) Q w :=
  completes_bind (completes_mutate_exposed rfl (completes_bind (completes_regenActiveMd hw'
    (completes_ret h))))

end

theorem renders_shows (w : World) (s : SlotState) : (w.shows s).renders (some s) = true := by
  simp [World.renders, World.shows]

theorem Sits.ready (s' : SlotState) (h : Sits s p fenced w t w) (ht : t.Standing (s'.branch p))
    (hbranch : ∀ q, q ≠ p → s'.branch q = s.branch q) (hleaseless : s'.Leaseless)
    (hjournal : s'.releaseJournal = none) (hstatus : s'.status ≠ "releasing") {w' : World}
    (hslot : w'.slot = some s') (htree : w'.tree = w.tree) : Ready s' w' := by
  refine ⟨hslot, hleaseless, hjournal, hstatus, fun q => ?_⟩
  rw [htree]
  by_cases hq : q = p
  · subst hq
    rw [h.tree]
    exact ht
  · rw [hbranch q hq]
    exact h.flight.others q hq

theorem SlotState.Leaseless.cleared (h : s.Leaseless) :
    s.cleared.Leaseless ∧ s.cleared.status = "active" := by
  refine ⟨h, ?_⟩
  simp [SlotState.cleared, h.2]

section

variable {s : SlotState} {p : Product} {fenced : Loc} {b w : World} {strict : Bool}

theorem completes_recoverSubmoduleCleanup_whole {Q : Bool → World → Prop} (hw : Recoverable w)
    (ht : (w.tree p).Whole) (h : Q false w) : Completes strict (recoverSubmoduleCleanup p) Q w := by
  obtain ⟨m, g, u, ht, -⟩ := ht
  refine completes_bind (completes_demand hw (by simp [ht, Tree.hasAdmin, checkout]) ?_)
  refine completes_bind (completes_observe hw (completes_bind (completes_observe hw ?_)))
  rw [ht]
  exact h

theorem completes_ensureNoSubmoduleCleanupArtifacts {Q : Unit → World → Prop}
    (hw : Recoverable w) (ht : (w.tree p).Whole) (h : Q () w) :
    Completes strict (ensureNoSubmoduleCleanupArtifacts p) Q w := by
  obtain ⟨m, g, u, ht, -⟩ := ht
  refine completes_bind (completes_demand hw (by simp [ht, Tree.hasAdmin, checkout]) ?_)
  exact completes_demand hw (by simp [ht, checkout]) h

theorem turns_reinit {u : Bool} : Turns strict s p fenced b (reinit p)
    (during .canonical .canonical none true false true true u) ()
      (during .canonical .canonical none true false false true true) := by
  refine (turns_demand fun w hw => by simp [hw, during]).seq ?_
  refine (turns_onTree (by simp [Tree.submoduleUpdate, during])
    (pending_unmarked fenced (.present true true))).seq ?_
  exact (turns_demand fun w hw => by simp [hw, during]).seq
    (turns_onTree rfl (pending_unmarked fenced (.present false true)))

theorem sits_recoverSubmoduleCleanup {t : Tree} (ht : t.Paused) (h : Sits s p fenced b t w) :
    Completes strict (recoverSubmoduleCleanup p)
      (fun _ w => ∃ t, t.Whole ∧ Sits s p fenced b t w) w := by
  obtain ⟨m, q, i, g, u, rfl, hadmin⟩ := ht
  have hwhole : ∀ {m g u v}, Admin m false false g u →
      Turns strict s p fenced b (recoverSubmoduleCleanup p) _ v (checkout m g u) →
      Completes strict (recoverSubmoduleCleanup p)
        (fun _ w => ∃ t, t.Whole ∧ Sits s p fenced b t w) w :=
    fun hwhole hturns => (hturns w ⟨h, pending_unmarked fenced hadmin⟩).mono fun _ _ h =>
      ⟨_, ⟨_, _, _, rfl, hwhole⟩, h.2.toSits⟩
  have hread : ∀ {v t'}, Turns strict s p fenced b _
      (during .canonical .canonical none m q i g u) v t' →
      Turns strict s p fenced b (recoverSubmoduleCleanup p) _ v t' :=
    fun h => turns_submoduleAdminPaths.seq ((turns_observe i fun w hw => by rw [hw]; rfl).seq
      ((turns_observe q fun w hw => by rw [hw]; rfl).seq h))
  cases hadmin with
  | bare => exact hwhole (.bare g) (hread turns_ret)
  | present =>
    cases i with
    | false => exact hwhole (.present false u) (hread turns_ret)
    | true =>
      exact hwhole (.present false true) (hread (turns_doIf_false.seq (turns_reinit.seq turns_ret)))
  | hidden =>
    have hrestore : Turns strict s p fenced b (restoreQuarantined p) _ () _ :=
      (turns_demand fun w hw => by simp [hw, during]).seq turns_restoreSubmoduleAdmin
    exact hwhole (.present false true)
      (hread ((turns_doIf_true hrestore).seq (turns_reinit.seq turns_ret)))

variable {q : Product} {waiting : List Product}

theorem Rests.whole (h : Rests s waiting w) (hbranch : s.branch q ≠ "-")
    (hq : ∀ fenced t, Sits s q fenced w t w → t.Whole) : (w.tree q).Whole := by
  rcases h with h | ⟨p, fenced, t, h, ht⟩
  · have := h.standing q
    rwa [Tree.Standing, if_neg hbranch] at this
  · by_cases hqp : q = p
    · subst hqp
      rw [h.tree]
      exact hq fenced t h
    · have := h.flight.others q hqp
      rwa [Tree.Standing, if_neg hbranch] at this

variable {recover : Bool}

theorem rests_recoverOrRefuse (hbranch : s.branch q ≠ "-")
    (hrecover : recover = false → s.releaseJournal = none) (h : Rests s (q :: waiting) w) :
    Completes strict (recoverOrRefuse recover q) (fun _ w' => Rests s waiting w' ∧
      ∃ t, w' = w.setTree q t) w := by
  have hsame : ∃ t, w = w.setTree q t := ⟨w.tree q, by simp [World.setTree]⟩
  have hunchanged : (w.tree q).Whole → Rests s waiting w →
      Completes strict (recoverOrRefuse recover q) (fun _ w' => Rests s waiting w' ∧
        ∃ t, w' = w.setTree q t) w := by
    intro hwhole hrests
    cases recover with
    | true =>
      exact completes_recoverSubmoduleCleanup_whole hrests.recoverable hwhole ⟨hrests, hsame⟩
    | false =>
      exact completes_bind (completes_ensureNoSubmoduleCleanupArtifacts hrests.recoverable hwhole
        ⟨hrests, hsame⟩)
  rcases h with h | ⟨p, fenced, t, h, ht⟩
  · refine hunchanged ?_ (.inl h)
    exact Rests.whole (.inl h : Rests s waiting w) hbranch fun fenced t ht => by
      have := ht.journal
      rw [h.journal] at this
      cases this
  · by_cases hqp : q = p
    · subst hqp
      have hpaused : t.Paused := by
        rcases ht with ht | ⟨-, ht⟩
        · exact ht.paused
        · exact ht
      cases recover with
      | true =>
        refine (sits_recoverSubmoduleCleanup hpaused h).mono ?_
        rintro _ w' ⟨t', hwhole, h'⟩
        exact ⟨.inr ⟨q, fenced, t', h'.rebase, .inl hwhole⟩, t', h'.world⟩
      | false =>
        have := h.journal
        rw [hrecover rfl] at this
        cases this
    · refine hunchanged ?_ (.inr ⟨p, fenced, t, h, ?_⟩)
      · have := h.flight.others q hqp
        rwa [Tree.Standing, if_neg hbranch] at this
      · rcases ht with ht | ⟨hp, ht⟩
        · exact .inl ht
        · exact .inr ⟨(mem_cons.mp hp).resolve_left (Ne.symm hqp), ht⟩

structure Proving (strict recover : Bool) (s : SlotState) (waiting : List Product)
    (proofs : Proofs) (w : World) : Prop where
  rests : Rests s waiting w
  renders : strict = true → w.renders (some s) = true
  nested : ∀ p, s.branch p ≠ "-" → p ∉ waiting → proofs.nested p = (w.tree p).populated
  clean : proofs.anyDirty = false
  recovered : strict = true → recover = true → proofs.recoveredAny = true

theorem proving_proveTarget {proofs : Proofs} (hbranch : s.branch q ≠ "-")
    (hrecover : recover = false → s.releaseJournal = none)
    (h : Proving strict recover s (q :: waiting) proofs w) :
    Completes strict (proveTarget recover q proofs) (Proving strict recover s waiting) w := by
  refine (rests_recoverOrRefuse hbranch hrecover h.rests).seq ?_
  rintro recovered w' ⟨hrests, t, hw'⟩
  refine completes_bind (completes_observe hrests.recoverable (completes_bind
    (completes_survey hrests.recoverable ⟨hrests, fun hstrict => ?_, fun r hr hnot => ?_, ?_, ?_⟩)))
  · rw [hw']
    exact h.renders hstrict
  · by_cases hrq : r = q
    · subst hrq
      simp
    · have hold := h.nested r hr fun hmem => (mem_cons.mp hmem).elim hrq hnot
      rw [hw', tree_setTree_of_ne w t hrq]
      simpa [Function.update_of_ne hrq] using hold
  · simpa using h.clean
  · intro hstrict hrecover
    simp [h.recovered hstrict hrecover]

end

structure Leaving (strict : Bool) (nested : Product → Bool) (targets : List Product)
    (s : SlotState) (w : World) : Prop where
  ready : Ready s w
  renders : strict = true → w.renders (some s) = true
  named : ∀ p, s.branch p ≠ "-" → p ∈ targets
  live : ∀ p ∈ targets, s.branch p ≠ "-"
  nodup : targets.Nodup
  nested : ∀ p, s.branch p ≠ "-" → nested p = (w.tree p).populated

theorem Ready.laid (h : Ready s w) : Laid s w := fun p => laid_of_standing (h.standing p)

theorem Ready.whole (h : Ready s w) (hp : s.branch p ≠ "-") : (w.tree p).Whole := by
  have := h.standing p
  rwa [Tree.Standing, if_neg hp] at this

section

variable {s : SlotState} {p : Product} {fenced : Loc} {b w : World} {strict : Bool}
  {nested : Product → Bool} {targets : List Product}

theorem leaving_finalRemovalBoundary (h : Leaving strict nested (p :: targets) s w) :
    Completes strict (finalRemovalBoundary s p (nested p) false)
      (fun _ => Leaving strict nested (p :: targets) s) w := by
  have hw : Recoverable w := .ready s h.ready
  have hp : s.branch p ≠ "-" := h.live p mem_cons_self
  refine completes_bind (completes_verifyRegistry hw
    (fun hstrict => h.ready.laid.consistent h.ready.slot (h.renders hstrict)) ?_)
  refine completes_bind (completes_observe hw ?_)
  rw [h.ready.slot]
  simp only [ne_eq, not_true_eq_false, if_false]
  refine completes_bind (completes_bind (completes_demand hw h.ready.laid.boundTargets
    (completes_ret ?_)))
  rw [if_neg (not_not.mpr (SlotState.mem_targets hp))]
  refine completes_bind (completes_demand hw (by simp [h.nested p hp]) ?_)
  exact completes_bind (completes_survey hw (completes_inspect hw h))

variable {w' : World}

theorem Ready.arm (h : Ready s w) (hp : s.branch p ≠ "-") (nonce : Nat)
    (hslot : w'.slot = some (s.armed p (.fenced nonce))) (htree : w'.tree = w.tree) :
    Sits (s.armed p (.fenced nonce)) p (.fenced nonce) w' (w.tree p) w' := by
  refine ⟨⟨hslot, h.leaseless, hp, by simp, fun q _ => ?_⟩, rfl, ?_⟩
  · rw [htree]
    exact h.standing q
  · rw [← htree]
    simp [World.setTree]

theorem ready_armReleaseJournal (h : Ready s w) (hp : s.branch p ≠ "-") :
    Completes strict (armReleaseJournal s p) (fun r w' => ∃ nonce, r.1 = s.armed p (.fenced nonce) ∧
      r.2 = .fenced nonce ∧ w'.tree = w.tree ∧ Sits r.1 p r.2 w' (w.tree p) w') w := by
  have hw : Recoverable w := .ready s h
  refine completes_bind (completes_clock hw fun nonce => completes_bind (completes_commitSlot hw ?_
    (completes_ret ⟨nonce, rfl, rfl, rfl, h.arm hp nonce rfl rfl⟩)))
  have hsits : Sits (s.armed p (.fenced nonce)) p (.fenced nonce)
      { w with slot := some (s.armed p (.fenced nonce)) } (w.tree p)
      { w with slot := some (s.armed p (.fenced nonce)) } := h.arm hp nonce rfl rfl
  exact hsits.paused_recoverable (h.whole hp).paused

theorem Sits.removed {t : Tree} (h : Sits s p fenced b t w) (ht : t.Gone)
    (hslot : w'.slot = some s.completed) (htree : w'.tree = w.tree) : Recoverable w' := by
  have hflight := h.rebase.flight
  refine .removed s.completed p fenced ⟨hslot, hflight.leaseless, hflight.label, hflight.apart,
    fun q hq => ?_⟩ ?_ ?_
  · rw [htree]
    exact hflight.others q hq
  · simp [SlotState.completed, h.journal]
  · rw [htree, h.tree]
    exact ht

theorem leaving_completeRemoval {t : Tree} (h : Sits s p fenced b t w) (ht : t.Gone)
    (hnamed : ∀ q, s.branch q ≠ "-" → q ∈ p :: targets)
    (hlive : ∀ q ∈ p :: targets, s.branch q ≠ "-") (hnodup : (p :: targets).Nodup)
    (hnested : ∀ q, q ≠ p → s.branch q ≠ "-" → nested q = (b.tree q).populated) :
    Completes strict (do
      let s ← markGitRemovalComplete s
      clearReleaseJournal (s.without p)) (Leaving strict nested targets) w := by
  have hgone : t.Standing "-" := ht
  have hsame : ∀ q, q ≠ p → (s.completed.without p).cleared.branch q = s.branch q := by
    intro q hq
    simp [SlotState.cleared, SlotState.without, SlotState.completed, Function.update_of_ne hq]
  have hself : (s.completed.without p).cleared.branch p = "-" := by
    simp [SlotState.cleared, SlotState.without]
  have hleaseless : (s.completed.without p).Leaseless := h.flight.leaseless
  have hstatus : (s.completed.without p).cleared.status ≠ "releasing" := by
    rw [hleaseless.cleared.2]
    decide
  have hready : ∀ {w' : World}, w'.slot = some (s.completed.without p).cleared →
      w'.tree = w.tree → Ready (s.completed.without p).cleared w' := fun hslot htree =>
    h.rebase.ready _ (by rw [hself]; exact hgone) hsame hleaseless.cleared.1 rfl hstatus hslot htree
  refine completes_bind (completes_commitSlot_exposed (h.removed ht rfl rfl) ?_)
  refine completes_commitSlot (h.removed ht rfl rfl) (.ready _ (hready rfl rfl)) ?_
  refine ⟨hready rfl rfl, fun _ => renders_shows _ _, fun q hq => ?_, fun q hq => ?_, ?_,
    fun q hq => ?_⟩
  · have hne : q ≠ p := by
      rintro rfl
      exact hq hself
    exact (mem_cons.mp (hnamed q (by rwa [hsame q hne] at hq))).resolve_left hne
  · have hne : q ≠ p := by
      rintro rfl
      exact (nodup_cons.mp hnodup).1 hq
    rw [hsame q hne]
    exact hlive q (mem_cons_of_mem _ hq)
  · exact (nodup_cons.mp hnodup).2
  · have hne : q ≠ p := by
      rintro rfl
      exact hq hself
    rw [hnested q hne (by rwa [hsame q hne] at hq)]
    change (b.tree q).populated = (w.tree q).populated
    rw [h.world, tree_setTree_of_ne b t hne]

theorem leaving_removeProduct (h : Leaving strict nested (p :: targets) s w) :
    Completes strict (removeProduct false nested p s) (Leaving strict nested targets) w := by
  refine (leaving_finalRemovalBoundary h).seq fun _ w h => ?_
  have hp : s.branch p ≠ "-" := h.live p mem_cons_self
  refine (ready_armReleaseJournal h.ready hp).seq ?_
  rintro ⟨s', fenced⟩ w' ⟨nonce, hs', hfenced, htree, hsits⟩
  obtain rfl : s' = s.armed p (.fenced nonce) := hs'
  obtain rfl : fenced = .fenced nonce := hfenced
  obtain ⟨m, g, u, hwhole, hadmin⟩ := h.ready.whole hp
  have hnested : nested p = u := by rw [h.nested p hp, hwhole]; rfl
  have hsits : Sits _ p (.fenced nonce) w' (checkout m g u) w' := hwhole ▸ hsits
  refine Completes.seq (hnested ▸ sits_removeTarget hadmin hsits) ?_
  rintro _ w'' ⟨t, hgone, hsits'⟩
  refine leaving_completeRemoval hsits' hgone h.named h.live h.nodup fun q _ hq => ?_
  rw [htree]
  exact h.nested q hq

end

structure Released (w : World) : Prop where
  slot : w.slot = none
  slotDir : w.slotDir = false
  gone : ∀ p, (w.tree p).Gone

theorem Released.recoverable (h : Released w) : Recoverable w := .released h.slot h.slotDir h.gone

section

variable {s : SlotState} {w : World} {strict : Bool} {nested : Product → Bool}

theorem leaving_finishSlot (h : Leaving strict nested [] s w) :
    Completes strict finishSlot (fun _ => Released) w := by
  have hgone : ∀ p, (w.tree p).Gone := by
    intro p
    have hbranch : s.branch p = "-" := by
      by_contra hne
      exact not_mem_nil (h.named p hne)
    have := h.ready.standing p
    rwa [Tree.Standing, if_pos hbranch] at this
  have hready : ∀ w' : World, w'.slot = w.slot → w'.tree = w.tree → Recoverable w' := by
    intro w' hslot htree
    refine .ready s ⟨hslot.trans h.ready.slot, h.ready.leaseless, h.ready.journal, h.ready.status,
      fun p => ?_⟩
    rw [htree]
    exact h.ready.standing p
  have hsave : ∀ w' : World, w'.slot = w.slot → w'.tree = w.tree → w'.slotDir = false →
      Completes strict (do
        saveState .settled none
        let _ ← regenActiveMd none
        .ret ()) (fun _ => Released) w' := by
    intro w' hslot htree hdir
    have hreleased : ∀ active, Released { w' with slot := none, active := active } :=
      fun active => ⟨rfl, hdir, fun p => by rw [htree]; exact hgone p⟩
    exact completes_bind (completes_mutate (hready w' hslot htree) rfl (completes_bind
      (completes_regenActiveMd (hreleased _).recoverable (completes_ret (hreleased _)))))
  refine completes_bind (completes_pathExists (hready w rfl rfl) ?_)
  cases hdir : w.slotDir with
  | false => exact completes_bind (hsave w rfl rfl hdir)
  | true =>
    have hremove : (if products.all fun p => (w.tree p).dirs.isEmpty then
        some { w with slotDir := false } else none) = some { w with slotDir := false } := by
      refine if_pos (all_eq_true.mpr fun p _ => ?_)
      obtain ⟨g, hg⟩ := hgone p
      rw [hg]
      rfl
    exact completes_bind (completes_mutate (hready w rfl rfl) hremove (hsave _ rfl rfl rfl))

variable {recover : Bool} {push : Bool}

theorem leaving_removeTargets {targets : List Product} (h : Leaving strict nested targets s w) :
    Completes strict (removeTargets ⟨false, push, recover⟩ s targets nested)
      (fun _ => Released) w := by
  refine Completes.seq (P := fun s w => Leaving strict nested [] s w) ?_
    fun s w h => leaving_finishSlot h
  exact Script.Keeps.thread (I := Leaving strict nested)
    (fun p ps s w h => leaving_removeProduct h) targets s w h

theorem completes_checkOrigin {Q : Unit → World → Prop} (hw : Recoverable w) (h : Q () w) :
    Completes strict (checkOrigin push false) Q w :=
  completes_bind (completes_survey hw h)

theorem SlotState.Leaseless.revokeSentinel (h : s.Leaseless) : revokeSentinel s = .ret s := by
  simp [Clean.revokeSentinel, SlotState.sentinelLive, h.1]

variable {proofs : Proofs}

theorem Ready.leaving (h : Ready s w) (hproving : Proving strict recover s [] proofs w) :
    Leaving strict proofs.nested s.targets s w := by
  refine ⟨h, hproving.renders, fun p hp => SlotState.mem_targets hp, fun p hp => ?_, ?_,
    fun p hp => hproving.nested p hp not_mem_nil⟩
  · simpa using (mem_filter.mp hp).2
  · exact List.Nodup.filter _ (by decide)

theorem proving_clearRecovered (hrecover : recover = false → s.releaseJournal = none)
    (h : Proving strict recover s [] proofs w) :
    Completes strict (clearRecovered recover s) (fun s' w => s'.targets = s.targets ∧
      Leaving strict proofs.nested s'.targets s' w) w := by
  rcases h.rests with hready | ⟨p, fenced, t, hsits, hwhole | ⟨hnil, -⟩⟩
  · have hnone : (recover && s.releaseJournal.isSome) = false := by simp [hready.journal]
    rw [clearRecovered, hnone]
    exact completes_ret ⟨rfl, hready.leaving h⟩
  · have hsome : (recover && s.releaseJournal.isSome) = true := by
      cases recover with
      | true => simp [hsits.journal]
      | false =>
        have := hsits.journal
        rw [hrecover rfl] at this
        cases this
    rw [clearRecovered, hsome]
    have hstatus : s.cleared.status ≠ "releasing" := by
      rw [hsits.flight.leaseless.cleared.2]
      decide
    have hready : ∀ {w' : World}, w'.slot = some s.cleared → w'.tree = w.tree →
        Ready s.cleared w' := fun hslot htree =>
      hsits.ready s.cleared (by
        have hlabel : s.cleared.branch p ≠ "-" := hsits.flight.label
        rw [Tree.Standing, if_neg hlabel]
        exact hwhole) (fun q _ => rfl) hsits.flight.leaseless.cleared.1 rfl hstatus hslot htree
    refine completes_bind (completes_commitSlot h.rests.recoverable (.ready _ (hready rfl rfl)) ?_)
    have hshown : Ready s.cleared (w.shows s.cleared) := hready rfl rfl
    refine completes_bind (completes_verifyRegistry (.ready _ hshown)
      (fun _ => hshown.laid.consistent rfl (renders_shows _ _)) (completes_ret ⟨rfl, ?_⟩))
    have hproving : Proving strict recover s.cleared [] proofs (w.shows s.cleared) :=
      ⟨.inl hshown, fun _ => renders_shows _ _, h.nested, h.clean, h.recovered⟩
    exact hshown.leaving hproving
  · cases hnil

end

section

variable {s : SlotState} {w : World} {strict : Bool} {push recover : Bool}

theorem rests_cleanRecovered {recoveredAny : Bool} (h : Rests s s.targets w)
    (hrenders : strict = true → w.renders (some s) = true)
    (hrecover : recover = false → s.releaseJournal = none)
    (hrecovered : strict = true → recover = true → recoveredAny = true) :
    Completes strict (cleanRecovered ⟨false, push, recover⟩ recoveredAny s)
      (fun _ => Released) w := by
  have hw : Recoverable w := h.recoverable
  refine completes_bind (completes_verifyRegistry hw
    (fun hstrict => h.laid.consistent h.slot (hrenders hstrict)) ?_)
  refine completes_bind (completes_bind (completes_demand hw h.laid.boundTargets
    (completes_ret (completes_bind (completes_inspect hw ?_)))))
  refine Completes.seq (P := fun proofs w => Proving strict recover s [] proofs w) ?_
    fun proofs w hproving => ?_
  · have hproving : Proving strict recover s s.targets ⟨recoveredAny, false, fun _ => false⟩ w :=
      ⟨h, hrenders, fun p hp hnot => absurd (SlotState.mem_targets hp) hnot, rfl, hrecovered⟩
    refine Completes.mono (Script.Keeps.thread (I := fun waiting proofs w =>
      (∀ q ∈ waiting, s.branch q ≠ "-") ∧ Proving strict recover s waiting proofs w) ?_ s.targets _ w
      ⟨fun q hq => by simpa using (mem_filter.mp hq).2, hproving⟩) fun _ _ h => h.2
    rintro q waiting proofs w ⟨hlive, hproving⟩
    exact Completes.mono (proving_proveTarget (hlive q mem_cons_self) hrecover hproving)
      fun _ _ h => ⟨fun r hr => hlive r (mem_cons_of_mem _ hr), h⟩
  · have hw : Recoverable w := hproving.rests.recoverable
    split
    case isTrue hnothing =>
      refine completes_raise hw ?_
      by_contra hne
      have hstrict : strict = true := by simpa using hne
      simp only [Bool.and_eq_true, Bool.not_eq_true'] at hnothing
      rw [hproving.recovered hstrict hnothing.1] at hnothing
      cases hnothing.2
    case isFalse =>
      refine (proving_clearRecovered hrecover hproving).seq ?_
      rintro s' w ⟨htargets, hleaving⟩
      have hw : Recoverable w := .ready s' hleaving.ready
      simp only [hproving.clean, Bool.false_and, Bool.false_eq_true, if_false]
      refine completes_bind (completes_checkOrigin hw ?_)
      rw [hleaving.ready.leaseless.revokeSentinel]
      refine completes_bind (completes_ret (completes_bind (completes_inspect hw ?_)))
      rw [← htargets]
      exact leaving_removeTargets hleaving

variable {fenced : Loc}

theorem sits_recoverJournaled {p : Product} (hsits : Flight s p fenced w)
    (hjournal : s.releaseJournal = some ⟨p, .canonical, fenced, .armed⟩)
    (htree : (w.tree p).Pending fenced) :
    Completes strict (recoverJournaled s) (fun r w' => r = (s, true) ∧ Rests s s.targets w' ∧
      w'.active = w.active) w := by
  obtain ⟨place, registered, marker, m, q, i, g, u, htree, hplaced, hadmin⟩ := htree
  have h : Sits s p fenced w (during place registered marker m q i g u) w :=
    ⟨hsits, hjournal, by rw [← htree]; simp [World.setTree]⟩
  have htarget : journalTarget s = .ret (some (p, fenced)) := by
    simp [journalTarget, hjournal, hsits.apart]
  rw [recoverJournaled, htarget]
  refine completes_bind (completes_ret ?_)
  refine Completes.seq (turns_inspect w ⟨h, pending_during hplaced hadmin⟩) fun _ w' h =>
    (turns_recoverPathFence hadmin htarget hplaced w' h.2).seq ?_
  rintro recovery w' ⟨rfl, h⟩
  refine completes_ret ⟨rfl, .inr ⟨p, fenced, _, h.toSits.rebase,
    .inr ⟨SlotState.mem_targets h.flight.label, _, _, _, _, _, rfl, hadmin⟩⟩, ?_⟩
  rw [h.world]
  rfl

theorem removed_recoverJournaled {p : Product} (hflight : Flight s p fenced w)
    (hjournal : s.releaseJournal = some ⟨p, .canonical, fenced, .gitRemovalComplete⟩)
    (htree : (w.tree p).Gone) :
    Completes strict (recoverJournaled s) (fun r w' => r.2 = true ∧ Ready r.1 w' ∧
      w'.renders (some r.1) = true) w := by
  have hw : Recoverable w := .removed s p fenced hflight hjournal htree
  have htarget : journalTarget s = .ret (some (p, fenced)) := by
    simp [journalTarget, hjournal, hflight.apart]
  have hrecorded : s.removalRecorded = true := by simp [SlotState.removalRecorded, hjournal]
  have hpath : Completes strict (recoverPathFence s)
      (fun recovery w' => recovery = .removalCompleted p ∧ w' = w) w := by
    obtain ⟨g, hgone⟩ := htree
    rw [recoverPathFence, htarget]
    refine completes_bind (completes_ret (completes_bind (completes_observe hw (completes_bind
      (completes_observe hw ?_)))))
    rw [hgone]
    simp only [not_mem_nil, decide_false, recoverPlace, hrecorded, if_true]
    refine completes_bind (completes_bind (completes_observe hw (completes_bind
      (completes_observe hw (completes_bind (completes_observe hw ?_))))))
    rw [hgone]
    exact ⟨rfl, rfl⟩
  have hleaseless : (s.without p).Leaseless := hflight.leaseless
  have hready : ∀ {w' : World}, w'.slot = some (s.without p).cleared → w'.tree = w.tree →
      Ready (s.without p).cleared w' := by
    intro w' hslot htree'
    refine ⟨hslot, hleaseless.cleared.1, rfl, ?_, fun q => ?_⟩
    · rw [hleaseless.cleared.2]
      decide
    · rw [htree']
      by_cases hq : q = p
      · subst hq
        have hself : (s.without q).cleared.branch q = "-" := by
          simp [SlotState.cleared, SlotState.without]
        rw [hself]
        exact htree
      · have hsame : (s.without p).cleared.branch q = s.branch q := by
          simp [SlotState.cleared, SlotState.without, Function.update_of_ne hq]
        rw [hsame]
        exact hflight.others q hq
  rw [recoverJournaled, htarget]
  refine completes_bind (completes_ret (completes_bind (completes_inspect hw ?_)))
  refine hpath.seq ?_
  rintro recovery _ ⟨rfl, rfl⟩
  exact completes_bind (completes_commitSlot hw (.ready _ (hready rfl rfl))
    (completes_ret ⟨rfl, hready rfl rfl, renders_shows _ _⟩))

def World.drifted (w : World) : Bool := !w.renders w.slot

def Tree.marked (t : Tree) : Bool :=
  t.inProgress || t.quarantine || t.forceFenceQuarantine || t.pathFence.isSome

def World.leftover (w : World) : Bool :=
  w.slot.any (fun s => s.releaseJournal.isSome) || products.any (fun p => (w.tree p).marked) ||
    w.drifted

def Proper (recover : Bool) (w : World) : Prop :=
  if recover then w.leftover = true else w.leftover = false ∧ w.slot.isSome = true

section

variable (hw : Recoverable w) (hslot : w.slot = some s)
include hw hslot

theorem Recoverable.leaseless : s.Leaseless := by
  cases hw with
  | released hnone =>
    rw [hslot] at hnone
    cases hnone
  | ready s' h | pending s' p fenced h | removed s' p fenced h =>
    obtain rfl : s = s' := Option.some.inj (hslot.symm.trans h.slot)
    exact h.leaseless

theorem Recoverable.ready_of_journal (hjournal : s.releaseJournal = none) : Ready s w := by
  cases hw with
  | released hnone =>
    rw [hslot] at hnone
    cases hnone
  | ready s' h =>
    obtain rfl : s = s' := Option.some.inj (hslot.symm.trans h.slot)
    exact h
  | pending s' p fenced h harmed | removed s' p fenced h harmed =>
    obtain rfl : s = s' := Option.some.inj (hslot.symm.trans h.slot)
    rw [hjournal] at harmed
    cases harmed

theorem recoverable_recoverJournaled (hrenders : w.renders (some s) = true) :
    Completes strict (recoverJournaled s) (fun r w' => Rests r.1 r.1.targets w' ∧
      w'.renders (some r.1) = true ∧ (s.releaseJournal.isSome = true → r.2 = true)) w := by
  cases hw with
  | released hnone =>
    rw [hslot] at hnone
    cases hnone
  | ready s' h =>
    obtain rfl : s = s' := Option.some.inj (hslot.symm.trans h.slot)
    have htarget : journalTarget s = .ret none := by simp [journalTarget, h.journal, h.status]
    rw [recoverJournaled, htarget]
    refine completes_bind (completes_ret (completes_ret ⟨.inl h, hrenders, fun hsome => ?_⟩))
    simp [h.journal] at hsome
  | pending s' p fenced h hjournal htree =>
    obtain rfl : s = s' := Option.some.inj (hslot.symm.trans h.slot)
    refine (sits_recoverJournaled h hjournal htree).mono ?_
    rintro r w' ⟨rfl, hrests, hactive⟩
    refine ⟨hrests, ?_, fun _ => rfl⟩
    rw [World.renders, hactive]
    exact hrenders
  | removed s' p fenced h hjournal htree =>
    obtain rfl : s = s' := Option.some.inj (hslot.symm.trans h.slot)
    refine (removed_recoverJournaled h hjournal htree).mono ?_
    rintro r w' ⟨hr, hready, hrenders⟩
    exact ⟨.inl hready, hrenders, fun _ => hr⟩

end

theorem completes_recordedOwnerAuthorities {Q : Unit → World → Prop} (hw : Recoverable w)
    (hleaseless : s.Leaseless) (h : Q () w) :
    Completes strict (recordedOwnerAuthorities s) Q w := by
  refine completes_bind (completes_inspect hw ?_)
  simp only [hleaseless.2, Option.isSome_none, Bool.and_false, Bool.false_eq_true, if_false]
  exact completes_ret h

structure Resumed (strict recover drift : Bool) (r : SlotState × Bool) (w : World) : Prop where
  rests : Rests r.1 r.1.targets w
  renders : strict = true → w.renders (some r.1) = true
  journal : recover = false → r.1.releaseJournal = none
  recovered : strict = true → recover = true → (r.2 || drift || false) = true

variable {drift : Bool}

section

variable (hw : Recoverable w) (hslot : w.slot = some s)
  (hrenders : recover = true ∨ strict = true → w.renders (some s) = true)
include hw hslot hrenders

theorem recoverable_recoverRelease (hjournal : recover = false → s.releaseJournal = none)
    (hproper : strict = true → recover = true → drift = true ∨ s.releaseJournal.isSome = true) :
    Completes strict (recoverRelease ⟨false, push, recover⟩ s) (Resumed strict recover drift) w := by
  cases recover with
  | false =>
    have hready := hw.ready_of_journal hslot (hjournal rfl)
    exact completes_ret ⟨.inl hready, fun hstrict => hrenders (.inr hstrict), hjournal,
      nofun⟩
  | true =>
    refine Completes.mono (recoverable_recoverJournaled hw hslot (hrenders (.inl rfl))) ?_
    rintro r w' ⟨hrests, hrenders, hrecovered⟩
    refine ⟨hrests, fun _ => hrenders, nofun, fun hstrict _ => ?_⟩
    rcases hproper hstrict rfl with hdrift | hsome
    · simp [hdrift]
    · simp [hrecovered hsome]

theorem recoverable_cleanSlot (hopen : strict = true → recover = false → s.releaseJournal = none)
    (hproper : strict = true → recover = true → drift = true ∨ s.releaseJournal.isSome = true) :
    Completes strict (cleanSlot ⟨false, push, recover⟩ drift s) (fun _ => Released) w := by
  have hleaseless := hw.leaseless hslot
  have hlive : s.sentinelLive = false := by simp [SlotState.sentinelLive, hleaseless.1]
  have hrevocation : recoverRevocation ⟨false, push, recover⟩ s = .ret (s, false) := by
    simp [recoverRevocation, hleaseless.2]
  refine completes_bind (completes_inspect hw ?_)
  split_ifs with hrefused
  · refine completes_raise hw ?_
    by_contra hne
    have hstrict : strict = true := by simpa using hne
    simp only [Bool.and_eq_true, Bool.not_eq_true'] at hrefused
    have hjournal := hopen hstrict hrefused.2
    have hready := hw.ready_of_journal hslot hjournal
    simp [hjournal, hready.status, hleaseless.2] at hrefused
  · have hjournal : recover = false → s.releaseJournal = none := by
      intro hrecover
      cases hjournal : s.releaseJournal with
      | none => rfl
      | some j => simp [hrecover, hjournal] at hrefused
    refine completes_bind (completes_inspect hw (completes_bind
      (completes_recordedOwnerAuthorities hw hleaseless ?_)))
    rw [hrevocation]
    refine completes_bind (completes_ret ?_)
    simp only [hlive, Bool.and_false, Bool.false_eq_true, if_false]
    refine (recoverable_recoverRelease hw hslot hrenders hjournal hproper).seq fun r w h => ?_
    exact rests_cleanRecovered h.rests h.renders h.journal h.recovered

end

theorem Recoverable.released_of_slot (hw : Recoverable w) (hslot : w.slot = none) : Released w := by
  cases hw with
  | released _ hdir hgone => exact ⟨hslot, hdir, hgone⟩
  | ready s h | pending s p fenced h | removed s p fenced h => cases hslot.symm.trans h.slot

theorem Recoverable.redrawn (hw : Recoverable w) (active : Option ActiveRow) :
    Recoverable { w with active := active } := by
  cases hw with
  | released hslot hdir hgone => exact .released hslot hdir hgone
  | ready s h => exact .ready s ⟨h.slot, h.leaseless, h.journal, h.status, h.standing⟩
  | pending s p fenced h hjournal htree =>
    exact .pending s p fenced ⟨h.slot, h.leaseless, h.label, h.apart, h.others⟩ hjournal htree
  | removed s p fenced h hjournal htree =>
    exact .removed s p fenced ⟨h.slot, h.leaseless, h.label, h.apart, h.others⟩ hjournal htree

theorem Recoverable.unmarked (hw : Recoverable w)
    (hjournal : ∀ s, w.slot = some s → s.releaseJournal = none) (p : Product) :
    (w.tree p).marked = false := by
  have hgone : ∀ {t : Tree}, t.Gone → t.marked = false := by
    rintro t ⟨g, rfl⟩
    rfl
  have hwhole : ∀ {t : Tree}, t.Whole → t.marked = false := by
    rintro t ⟨m, g, u, rfl, -⟩
    rfl
  cases hslot : w.slot with
  | none => exact hgone ((hw.released_of_slot hslot).gone p)
  | some s =>
    have hready := hw.ready_of_journal hslot (hjournal s hslot)
    have := hready.standing p
    unfold Tree.Standing at this
    split at this
    · exact hgone this
    · exact hwhole this

theorem Recoverable.leftover_iff (hw : Recoverable w) : w.leftover =
    (w.slot.any (fun s => s.releaseJournal.isSome) || w.drifted) := by
  unfold World.leftover
  cases hjournal : w.slot.any fun s => s.releaseJournal.isSome with
  | true => rfl
  | false =>
    have hnone : ∀ s, w.slot = some s → s.releaseJournal = none := by
      intro s hs
      simpa [hs] using hjournal
    have hunmarked : products.any (fun p => (w.tree p).marked) = false := by
      rw [any_eq_false]
      intro p _
      simp [hw.unmarked hnone p]
    rw [hunmarked, Bool.or_false]

theorem released_clean (hw : Released w) (hrenders : w.renders none = true)
    (hdrift : strict = true → drift = true) :
    Completes strict (if (true && drift) = true then do
        verifyAbsentSlotRecovery
        verifyRegistry
      else .raise "slot is not registered in worktree-state.json") (fun _ => Released) w := by
  cases drift with
  | false =>
    refine completes_raise hw.recoverable ?_
    cases strict with
    | false => rfl
    | true => cases hdrift rfl
  | true =>
    have hgone : (products.all fun p => (w.tree p).registered.isEmpty) = true := by
      rw [all_eq_true]
      intro p _
      obtain ⟨g, hg⟩ := hw.gone p
      rw [hg]
      rfl
    refine completes_bind (completes_bind (completes_demand hw.recoverable (by simp [hw.slotDir])
      (completes_demand hw.recoverable hgone ?_)))
    refine completes_verifyRegistry hw.recoverable (fun _ => ?_) hw
    simp [World.consistent, hw.slot, hrenders]

theorem recoverable_clean (hw : Recoverable w) (hproper : strict = true → Proper recover w) :
    Completes strict (clean ⟨false, push, recover⟩) (fun _ => Released) w := by
  unfold clean
  simp only [Bool.and_false, Bool.false_eq_true, if_false]
  refine completes_bind (completes_observe hw ?_)
  cases recover with
  | true =>
    have hleft : strict = true → (w.slot.any (fun s => s.releaseJournal.isSome) ||
        w.drifted) = true := by
      intro hstrict
      have := hproper hstrict
      rw [Proper, if_pos rfl, hw.leftover_iff] at this
      exact this
    refine completes_bind (completes_regenActiveMd hw ?_)
    have hw' := hw.redrawn (w.slot.map SlotState.row)
    cases hslot : w.slot with
    | none =>
      rw [hslot] at hw' hleft
      refine released_clean (hw'.released_of_slot rfl) (by simp [World.renders]) ?_
      intro hstrict
      simpa [World.drifted, hslot] using hleft hstrict
    | some s =>
      rw [hslot] at hw' hleft
      refine recoverable_cleanSlot hw' rfl (fun _ => by simp [World.renders]) ?_ ?_
      · intro _ h
        cases h
      · intro hstrict _
        simpa [World.drifted, hslot, or_comm] using hleft hstrict
  | false =>
    have hopen : strict = true → w.leftover = false ∧ w.slot.isSome = true := by
      intro hstrict
      have := hproper hstrict
      rwa [Proper, if_neg (by decide)] at this
    refine completes_bind (completes_ret ?_)
    cases hslot : w.slot with
    | none =>
      refine completes_raise hw ?_
      by_contra hne
      have := (hopen (by simpa using hne)).2
      rw [hslot] at this
      cases this
    | some s =>
      have hclosed : strict = true → s.releaseJournal = none ∧ w.renders (some s) = true := by
        intro hstrict
        have := (hopen hstrict).1
        rw [hw.leftover_iff, hslot] at this
        simpa [World.drifted, hslot] using this
      refine recoverable_cleanSlot hw hslot (fun h => ?_) (fun hstrict _ => (hclosed hstrict).1) ?_
      · rcases h with h | hstrict
        · cases h
        · exact (hclosed hstrict).2
      · intro _ h
        cases h

end

def unforced (w : World) : System Release (Signal (Bool × Bool) Answer) :=
  Runner.system (fun f => clean ⟨false, f.1, f.2⟩) w

def finish (answers answers' : Nat → Answer) (w : World) : World :=
  let recovered :=
    if w.leftover then ((clean ⟨false, false, true⟩).play answers w).1 else w
  if recovered.slot.isSome then ((clean ⟨false, false, false⟩).play answers' recovered).1
  else recovered

def Answer.Smooth (a : Answer) : Prop := a.fault = false ∧ a.refused = false ∧ a.blind = false

variable {answers : Nat → Answer}

theorem play_releases {recover : Bool} (hw : Recoverable w) (hproper : Proper recover w)
    (hsmooth : ∀ n, (answers n).Smooth) :
    Released ((clean ⟨false, false, recover⟩).play answers w).1 := by
  have hallows : ∀ n l, (recovering true).allows l (answers n) := fun n l =>
    ⟨⟨(hsmooth n).2.1, (hsmooth n).2.2, fun _ => (hsmooth n).1⟩, fun _ => (hsmooth n).1⟩
  have hcompletes : Completes true (clean ⟨false, false, recover⟩) (fun _ => Released) w :=
    recoverable_clean hw fun _ => hproper
  have hkeeps : (clean ⟨false, false, recover⟩).Keeps (recovering true) (fun _ => Released)
      (fun _ _ => False) w :=
    Script.Keeps.mono hcompletes (fun _ _ h => h) fun _ _ h => by cases h.2
  obtain ⟨_, -, hreleased⟩ := hkeeps.play hallows
  exact hreleased

theorem finish_releases {answers' : Nat → Answer} (hw : Recoverable w)
    (hsmooth : ∀ n, (answers n).Smooth) (hsmooth' : ∀ n, (answers' n).Smooth) :
    Released (finish answers answers' w) := by
  unfold finish
  cases hleft : w.leftover with
  | true =>
    have hreleased := play_releases hw (by rw [Proper, if_pos rfl]; exact hleft) hsmooth
    simp only [if_true, hreleased.slot, Option.isSome_none, Bool.false_eq_true, if_false]
    exact hreleased
  | false =>
    simp only [Bool.false_eq_true, if_false]
    split_ifs with hslot
    · exact play_releases hw (by rw [Proper, if_neg (by decide)]; exact ⟨hleft, hslot⟩) hsmooth'
    · exact hw.released_of_slot (by simpa using hslot)

theorem interrupted_release_can_be_finished (s : SlotState) (w : World) (hw : Ready s w)
    (r : Release) (hr : (unforced w).ReachableWhen (Runner.Admits truthful (· = .settled)) r)
    (hidle : r.running = none) (answers answers' : Nat → Answer)
    (hsmooth : ∀ n, (answers n).Smooth) (hsmooth' : ∀ n, (answers' n).Smooth) :
    (finish answers answers' r.world).slot = none ∧
      ∀ p, ((finish answers answers' r.world).tree p).dirs = [] := by
  have hadmits : (unforced w).ReachableWhen
      (Runner.Admits (recovering false).allows (· = .settled)) r :=
    hr.mono fun r e h => by
      unfold Runner.Admits at h ⊢
      split at h
      · exact ⟨h, nofun⟩
      · exact h
      · trivial
  have hfollows := Runner.follows_of_reachable hadmits (.ready s hw)
    (fun f w hw => Script.Keeps.mono (recoverable_clean hw nofun)
      (fun _ _ h => h.recoverable) fun _ _ h => h.1) fun l w h hl => h hl
  have hrecoverable : Recoverable r.world := by
    unfold Runner.Follows at hfollows
    rw [hidle] at hfollows
    exact hfollows
  have hreleased := finish_releases hrecoverable hsmooth hsmooth'
  refine ⟨hreleased.slot, fun p => ?_⟩
  obtain ⟨g, hg⟩ := hreleased.gone p
  rw [hg]

theorem fine_smooth : fine.Smooth := ⟨rfl, rfl, rfl⟩

def killedAfter (n : Nat) : List (Signal (Bool × Bool) Answer) :=
  .invoke (false, false) :: List.replicate n (.act fine) ++ [.stop]

theorem killed_at_the_fence_can_be_finished :
    ∃ r, (unforced (oneProduct (checkout true true true))).ReachableWhen
      (Runner.Admits truthful (· = .settled)) r ∧ r.running.isNone = true ∧
      (r.world.tree .hermit).dirs = [.fenced 7] ∧
      (finish (fun _ => fine) (fun _ => fine) r.world).slot = none := by
  obtain ⟨r, hr, hview⟩ := @System.exists_reachable _ _
    (unforced (oneProduct (checkout true true true))) (Runner.Admits truthful (· = .settled)) _ _
    (fun r => (r.running.isNone, (r.world.tree .hermit).dirs)) (true, [.fenced 7])
    (killedAfter 39) (by decide +kernel)
  obtain ⟨hidle, hdirs⟩ := Prod.mk.inj hview
  have hready : Ready ⟨fun p => if p = .hermit then "main" else "-", "active", none, false, none⟩
      (oneProduct (checkout true true true)) := by
    refine ⟨rfl, ⟨rfl, rfl⟩, rfl, by decide, fun p => ?_⟩
    cases p with
    | hermit => exact ⟨true, true, true, rfl, .present false true⟩
    | _ => exact ⟨false, rfl⟩
  exact ⟨r, hr, hidle, hdirs, (interrupted_release_can_be_finished _ _ hready r hr
    (Option.isNone_iff_eq_none.mp hidle) _ _ (fun _ => fine_smooth) fun _ => fine_smooth).1⟩

def stuck (w : World) : Bool := (finish (fun _ => fine) (fun _ => fine) w).slot.isSome

theorem release_stays_stuck_after_a_window :
    (∃ r, (unforced (oneProduct (checkout false false false))).ReachableWhen
      (Runner.Admits truthful fun _ => True) r ∧
      (r.running.isNone, (r.world.tree .hermit).dirs, stuck r.world) = (true, [], true)) ∧
    (∃ r, (unforced (oneProduct (checkout false false false))).ReachableWhen
      (Runner.Admits truthful fun _ => True) r ∧
      (r.running.isNone, (r.world.tree .hermit).pathFence, stuck r.world) =
        (true, some .created, true)) ∧
    (∃ r, (unforced (oneProduct (checkout false true true))).ReachableWhen
      (Runner.Admits truthful (· = .settled)) r ∧
      (r.running.isNone, (r.world.tree .hermit).inProgress, stuck r.world) = (true, true, true)) ∧
    stuck (oneProduct (checkout true false false)) = true ∧
    stuck (oneProduct { checkout true true false with stray := true }) = true := by
  refine ⟨?_, ?_, ?_, ?_, ?_⟩
  · exact @System.exists_reachable _ _ _ _ _ _ _ _ (killedAfter 38) (by decide +kernel)
  · exact @System.exists_reachable _ _ _ _ _ _ _ _ (killedAfter 30) (by decide +kernel)
  · exact @System.exists_reachable _ _ _ _ _ _ _ _ (killedAfter 28) (by decide +kernel)
  · decide +kernel
  · decide +kernel

end DevHermit.Worktree.Clean
