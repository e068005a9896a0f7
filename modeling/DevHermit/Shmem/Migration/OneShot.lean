import DevHermit.Shmem.Migration.Invariant

namespace DevHermit.Shmem.Migration

open Lib Function Machine

def Outcome.Fresh : Outcome → Prop
  | .authoritative .source _ | .error (.noAuthoritativeGeneration _) => False
  | _ => True

def Pc.Fresh : Pc → Prop
  | .load _ (.snapshot seen _) => seen.Decided
  | .initPoison outcome | .poisonStore _ outcome | .dropLoadId _ outcome | .dropLoad outcome
  | .dropCas _ outcome | .done outcome => outcome.Fresh
  | _ => True

section

variable {ph : MigrationPhase} {sh sh' : Shared} {n : Nat} {pc pc' : Pc}

theorem After.next_fresh (outcome : Outcome) (h : outcome.Fresh) (after : After) :
    (after.next outcome).Fresh := by
  cases after <;> exact h

theorem decodeOrPoison_fresh (raw : UInt64) (after : After) (expected : MigrationPhase) :
    (decodeOrPoison raw after (wrongPhase expected)).Fresh := by
  unfold decodeOrPoison
  split
  · exact After.next_fresh (wrongPhase expected _) trivial after
  · rename_i e he
    unfold MigrationPhase.decode at he
    split_ifs at he
    cases he
    trivial

theorem finishSnapshot_fresh {seen : MigrationPhase} (h : seen.Decided) (plan : MigrationPlan)
    (caller : Caller) : (finishSnapshot seen (some plan) caller).Fresh := by
  cases caller with
  | snapshot => trivial
  | authoritativeGeneration => cases seen <;> trivial
  | _ =>
    simp only [finishSnapshot]
    split_ifs <;> trivial

theorem finishLoad_fresh {loaded : List UInt64} {loading : Loading}
    (h : (Pc.load loaded loading).Fresh) : (finishLoad loaded loading).Fresh := by
  unfold finishLoad
  split
  · trivial
  · cases loading with
    | snapshot seen caller => exact finishSnapshot_fresh h _ caller
    | transition plan edge =>
      simp only
      split_ifs <;> trivial

theorem snapshotPhase_fresh (h : SharedOk ph sh n) (hd : ph.Decided) (caller : Caller) :
    (snapshotPhase sh.phase caller).Fresh := by
  rw [snapshotPhase, h.word, MigrationPhase.decode_raw]
  cases ph <;> first | exact hd | exact hd.elim

theorem checkTarget_fresh (plan : MigrationPlan) (target : Backing) (edge : Edge) :
    (checkTarget plan target edge).Fresh := by
  unfold checkTarget
  split_ifs <;> trivial

theorem call_fresh {op : Op} (hs : call sh op = some (sh', pc')) : pc'.Fresh := by
  cases op with
  | begin witness plan =>
    simp only [call] at hs
    split_ifs at hs <;>
      · cases hs
        trivial
  | markTargetReady plan target =>
    simp only [call] at hs
    split_ifs at hs
    cases hs
    exact checkTarget_fresh plan target .ready
  | commit plan target =>
    simp only [call] at hs
    split_ifs at hs
    cases hs
    exact checkTarget_fresh plan target .commit
  | dropMigration plan | dropTargetReady plan =>
    simp only [call] at hs
    split_ifs at hs
    cases hs
    trivial
  | poison | observe caller =>
    cases hs
    trivial

theorem poisonDecide_fresh (raw : UInt64) : (poisonDecide raw).Fresh := by
  unfold poisonDecide
  split_ifs
  · trivial
  · split <;> trivial

theorem dropDecide_fresh {outcome : Outcome} (h : outcome.Fresh) (raw : UInt64) :
    (dropDecide raw outcome).Fresh := by
  unfold dropDecide
  split_ifs <;> exact h

theorem advance_fresh (h : SharedOk ph sh n) (hd : ph.Decided) (hf : pc.Fresh)
    (hs : advance sh pc = some (sh', pc')) : pc'.Fresh := by
  cases pc with
  | beginCas plan =>
    simp only [advance] at hs
    split_ifs at hs <;> cases hs
    · trivial
    · exact decodeOrPoison_fresh _ _ _
  | beginStore plan index =>
    cases hs
    split_ifs <;> trivial
  | beginPublish plan =>
    simp only [advance] at hs
    split_ifs at hs <;> cases hs
    · trivial
    · exact decodeOrPoison_fresh _ _ _
  | initPoison outcome =>
    cases hs
    exact hf
  | poisonStore after outcome =>
    cases hs
    exact After.next_fresh outcome hf after
  | snapLoad caller =>
    cases hs
    exact snapshotPhase_fresh h hd caller
  | load loaded loading =>
    simp only [advance] at hs
    split_ifs at hs <;> cases hs
    · cases loading <;> exact hf
    · exact finishLoad_fresh hf
  | transitionCas plan edge =>
    simp only [advance] at hs
    split_ifs at hs
    · obtain ⟨rfl, rfl⟩ := Prod.ext_iff.mp (Option.some.inj hs)
      cases edge <;> trivial
    · cases hs
      exact decodeOrPoison_fresh _ _ _
  | dropLoadId transactionId outcome =>
    cases hs
    split_ifs <;> exact hf
  | dropLoad outcome =>
    cases hs
    exact dropDecide_fresh hf _
  | dropCas raw outcome =>
    simp only [advance] at hs
    split_ifs at hs <;> cases hs
    · exact hf
    · exact dropDecide_fresh hf _
  | poisonLoad =>
    cases hs
    exact poisonDecide_fresh _
  | poisonCas raw =>
    simp only [advance] at hs
    split_ifs at hs <;> cases hs
    · trivial
    · exact poisonDecide_fresh _
  | done outcome =>
    cases hs
    trivial
  | _ => cases hs

theorem startBegin_fresh (plan : MigrationPlan) (answer : Bool) :
    (startBegin plan answer).Fresh := by
  unfold startBegin
  split_ifs
  · split
    · rename_i e he
      have hf := validate_error_faults he
      cases e <;> trivial
    · trivial
  · trivial

theorem step_fresh {i : In} (h : SharedOk ph sh n) (hd : ph.Decided) (hf : pc.Fresh)
    (hs : step sh pc i = some (sh', pc')) : pc'.Fresh := by
  cases i with
  | call op =>
    simp only [step] at hs
    split_ifs at hs
    exact call_fresh hs
  | go => exact advance_fresh h hd hf hs
  | spurious =>
    cases pc with
    | dropCas raw outcome =>
      cases hs
      exact dropDecide_fresh hf _
    | poisonCas raw =>
      cases hs
      exact poisonDecide_fresh _
    | _ => cases hs
  | quiescent answer =>
    cases pc with
    | beginQuiescent plan =>
      cases hs
      exact startBegin_fresh plan answer
    | authorizeQuiescent plan seen =>
      cases hs
      unfold authorize
      split_ifs <;> trivial
    | _ => cases hs

end

variable {P : Type} [Fintype P]

structure Inv (c : Config P Shared Pc) (ph : MigrationPhase) : Prop where
  shared : SharedOk ph c.sh (tally Pc.initializers c.lo)
  locals : ∀ p, (c.lo p).Ok ph c.sh

theorem inv_init : Inv (machine P).init .uninitialized := by
  refine ⟨⟨rfl, rfl, rfl, ?_, ?_, ?_, fun _ => rfl, ?_, Or.inl rfl, ?_⟩, fun _ => trivial⟩
  · simp [machine, init, tally, Pc.initializers]
  · simp [machine, init, tally, Pc.initializers]
  · simp [machine, init, tally, Pc.initializers]
  · simp [MigrationPhase.hasPublishedPlan]
  · simp [machine, init]

variable [DecidableEq P] {c c' : Config P Shared Pc} {ph : MigrationPhase}

theorem inv_step (h : Inv c ph) (hs : (machine P).Step c c') :
    ∃ ph', Inv c' ph' ∧ Grows ph c.sh ph' c'.sh := by
  obtain ⟨p, i, hn⟩ := hs
  obtain ⟨sh, pc, hstep, rfl⟩ := next_eq_some.mp hn
  have htally := tally_update Pc.initializers c.lo p pc
  have hle := le_tally Pc.initializers c.lo p
  have hone := h.shared.initializers
  obtain ⟨m, hm⟩ := Nat.exists_eq_add_of_le' hle
  obtain ⟨ph', hsh, hpc, hg, hw⟩ := step_ok (hm ▸ h.shared) (h.locals p) hstep
  have hm' : m + pc.initializers = tally Pc.initializers (update c.lo p pc) := by omega
  refine ⟨ph', ⟨hm' ▸ hsh, fun q => ?_⟩, hg⟩
  by_cases he : q = p
  · subst he
    simpa using hpc
  · have hq : (update c.lo p pc) q = c.lo q := update_of_ne he _ _
    simp only [hq]
    refine (h.locals q).grows hg ?_
    by_cases hz : (c.lo p).initializers = 0
    · exact Or.inr (hw hz)
    · have hpair := add_le_tally Pc.initializers c.lo he
      exact Or.inl (by omega)

theorem inv_reach (h : Inv c ph) (hr : (machine P).Reach c c') :
    ∃ ph', Inv c' ph' ∧ Seen ph ph' := by
  induction hr with
  | start => exact ⟨ph, h, Seen.refl ph⟩
  | step _ _ hn ih =>
    obtain ⟨mid, hmid, hseen⟩ := ih
    obtain ⟨ph', h', hg⟩ := inv_step hmid ⟨_, _, hn⟩
    exact ⟨ph', h', hg.seen hseen⟩

theorem reachable_inv (hc : (machine P).Reachable c) : ∃ ph, Inv c ph := by
  obtain ⟨ph, h, _⟩ := inv_reach inv_init hc
  exact ⟨ph, h⟩

theorem fresh_reach (h : Inv c ph) (hd : ph.Decided) {q : P} (hq : (c.lo q).Fresh)
    (hr : (machine P).Reach c c') : (c'.lo q).Fresh := by
  have hall : ∃ ph', Inv c' ph' ∧ ph'.Decided ∧ (c'.lo q).Fresh := by
    induction hr with
    | start => exact ⟨ph, h, hd, hq⟩
    | @step _ _ a _ _ hn ih =>
      obtain ⟨mid, hmid, hdm, hfm⟩ := ih
      obtain ⟨ph', h', hg⟩ := inv_step hmid ⟨_, _, hn⟩
      refine ⟨ph', h', (hg.seen (Seen.refl mid)).1 hdm, ?_⟩
      obtain ⟨p, i⟩ := a
      obtain ⟨sh, pc, hstep, rfl⟩ := next_eq_some.mp hn
      by_cases he : q = p
      · subst he
        simpa using step_fresh hmid.shared hdm hfm hstep
      · simpa [update_of_ne he] using hfm
  obtain ⟨_, _, _, hf⟩ := hall
  exact hf

theorem migration_one_shot (c : Config P Shared Pc) (hc : (machine P).Reachable c) :
    c.sh.begun.length ≤ 1 ∧
    (∃ ph : MigrationPhase, c.sh.phase = ph.raw ∧
      ∀ c', (machine P).Step c c' → ∃ ph' : MigrationPhase, c'.sh.phase = ph'.raw ∧
        (ph' = ph ∨ ph.Next ph')) ∧
    (∀ p phase plan, c.lo p = .done (.snapshot phase (some plan)) → c.sh.begun = [plan]) ∧
    (∀ p, c.lo p ≠ .done (.error .corruptMetadata) ∧
      ∀ raw, c.lo p ≠ .done (.error (.corruptPhase raw))) ∧
    (∀ p plan, c.lo p = .done (.authoritative .target plan) →
      ∀ c₁ c₂ q, (machine P).Reach c c₁ → c₁.lo q = .idle → (machine P).Reach c₁ c₂ →
        (∀ plan, c₂.lo q ≠ .done (.authoritative .source plan)) ∧
        ∀ phase, c₂.lo q ≠ .done (.error (.noAuthoritativeGeneration phase))) ∧
    c.sh.permits ≤ 1 ∧
    (∀ p plan resumed, c.lo p = .done (.permit plan resumed) →
      c.sh.begun = [plan] ∧ c.sh.phase = Raw.reclaimed) := by
  obtain ⟨ph, h⟩ := reachable_inv hc
  refine ⟨?_, ⟨ph, h.shared.word, ?_⟩, ?_, ?_, ?_, ?_, ?_⟩
  · rcases h.shared.begun with hb | ⟨plan, hb, _⟩ <;> simp [hb]
  · intro c' hs
    obtain ⟨ph', h', hg⟩ := inv_step h hs
    exact ⟨ph', h'.shared.word, hg.phase⟩
  · intro p phase plan hp
    have hok := h.locals p
    rw [hp] at hok
    exact hok
  · intro p
    have hok := h.locals p
    refine ⟨fun hp => ?_, fun raw hp => ?_⟩ <;>
      · rw [hp] at hok
        exact hok
  · intro p plan hp c₁ c₂ q hr₁ hq hr₂
    have hok := h.locals p
    rw [hp] at hok
    obtain ⟨ph₁, h₁, hseen⟩ := inv_reach h hr₁
    have hf := fresh_reach h₁ (hseen.1 (hok.2 rfl)) (q := q) (by rw [hq]; trivial) hr₂
    refine ⟨fun plan hp => ?_, fun phase hp => ?_⟩ <;>
      · rw [hp] at hf
        exact hf
  · have hperm := h.shared.permits
    split at hperm <;> omega
  · intro p plan resumed hp
    have hok := h.locals p
    rw [hp] at hok
    exact ⟨hok.1, h.shared.word.trans (congrArg MigrationPhase.raw hok.2)⟩

def samplePlan : MigrationPlan where
  transactionId := 1
  source := ⟨⟨1, 17, 0⟩, 1, 1, ⟨1, 0, 0, 0⟩⟩
  target := ⟨⟨2, 34, 0⟩, 2, 2, ⟨2, 0, 0, 0⟩⟩
  targetAuthority := ⟨7, 7⟩

def sampleBacking : Backing := ⟨samplePlan.target, samplePlan.targetAuthority, true⟩

def migrator : Fin 2 := ⟨0, Nat.zero_lt_two⟩

def observer : Fin 2 := ⟨1, Nat.one_lt_two⟩

def commitTrace : List (Fin 2 × In) :=
  (migrator, .call (.begin samplePlan samplePlan)) :: (migrator, .quiescent true) ::
    (List.replicate 25 (migrator, .go) ++
      (migrator, .call (.markTargetReady samplePlan sampleBacking)) ::
      (List.replicate 25 (migrator, .go) ++ (migrator, .call (.commit samplePlan sampleBacking)) ::
        (List.replicate 25 (migrator, .go) ++
          (observer, .call (.observe .authoritativeGeneration)) ::
            List.replicate 24 (observer, .go))))

theorem migration_one_shot_after_commit :
    ∃ c, (machine (Fin 2)).Reachable c ∧ c.lo 1 = .done (.authoritative .target samplePlan) ∧
      c.sh.begun.length ≤ 1 ∧
      ∀ c₂, (machine (Fin 2)).Reach c c₂ → c.lo 0 = .idle →
        ∀ plan, c₂.lo 0 ≠ .done (.authoritative .source plan) := by
  have hrun : ((machine (Fin 2)).run (machine (Fin 2)).init commitTrace).map (fun c => c.lo 1) =
      some (.done (.authoritative .target samplePlan)) := by
    decide +kernel
  obtain ⟨c, hc, hp⟩ := Machine.exists_reachable hrun
  obtain ⟨hlen, _, _, _, htarget, _⟩ := migration_one_shot c hc
  exact ⟨c, hc, hp, hlen, fun c₂ hr hq =>
    (htarget 1 samplePlan hp c c₂ 0 .start hq hr).1⟩

end DevHermit.Shmem.Migration
