import DevHermit.Shmem.Migration.Control

namespace DevHermit.Shmem.Migration

open Lib List

def MigrationPhase.raw : MigrationPhase → UInt64
  | .uninitialized => Raw.uninitialized
  | .initializing => Raw.initializing
  | .copying => Raw.copying
  | .targetReady => Raw.targetReady
  | .committed => Raw.committed
  | .reclaimed => Raw.reclaimed
  | .poisoned => Raw.poisoned

variable (ph : MigrationPhase)

@[simp] theorem MigrationPhase.decode_raw : MigrationPhase.decode ph.raw = .ok ph := by
  cases ph <;> rfl

variable {a b : MigrationPhase}

theorem MigrationPhase.raw_inj : a.raw = b.raw ↔ a = b := by cases a <;> cases b <;> decide

inductive MigrationPhase.Next : MigrationPhase → MigrationPhase → Prop where
  | claim : Next .uninitialized .initializing
  | publish : Next .initializing .copying
  | ready : Next .copying .targetReady
  | commit : Next .targetReady .committed
  | reclaim : Next .committed .reclaimed
  | poison (ph : MigrationPhase) : ph ≠ .committed → ph ≠ .reclaimed → ph ≠ .poisoned →
      Next ph .poisoned

def MigrationPhase.Decided : MigrationPhase → Prop
  | .committed | .reclaimed => True
  | _ => False

theorem MigrationPhase.Next.decided (h : Next a b) (ha : a.Decided) : b.Decided := by
  cases h <;> simp_all [Decided]

theorem MigrationPhase.Next.reclaimed (h : Next .reclaimed b) : b = .reclaimed := by
  cases h
  simp_all

def Seen (seen ph : MigrationPhase) : Prop :=
  (seen.Decided → ph.Decided) ∧ (seen = .reclaimed → ph = .reclaimed)

theorem Seen.refl : Seen ph ph := ⟨id, id⟩

theorem Seen.next {seen a b : MigrationPhase} (h : Seen seen a) (hab : a.Next b) : Seen seen b :=
  ⟨fun hd => hab.decided (h.1 hd), fun hr => (h.2 hr ▸ hab).reclaimed⟩

def Outcome.Ok (ph : MigrationPhase) (sh : Shared) : Outcome → Prop
  | .snapshot _ (some plan) | .committed plan => sh.begun = [plan]
  | .authoritative generation plan => sh.begun = [plan] ∧ (generation = .target → ph.Decided)
  | .permit plan _ => sh.begun = [plan] ∧ ph = .reclaimed
  | .error .corruptMetadata | .error (.corruptPhase _) => False
  | _ => True

def Loading.Ok (ph : MigrationPhase) (plan : MigrationPlan) : Loading → Prop
  | .snapshot seen _ => Seen seen ph
  | .transition bound _ => bound = plan

def Pc.Ok (ph : MigrationPhase) (sh : Shared) : Pc → Prop
  | .beginCas plan => plan.validate = .ok ()
  | .beginStore plan index => plan.validate = .ok () ∧ index < recordLen ∧
      sh.words.take index = plan.record.take index
  | .beginPublish plan => plan.validate = .ok () ∧ sh.words = plan.record
  | .initPoison outcome | .done outcome => outcome.Ok ph sh
  | .poisonStore _ _ => False
  | .load loaded loading => ∃ plan, sh.begun = [plan] ∧ loaded.length ≤ recordLen ∧
      loaded = plan.record.take loaded.length ∧ loading.Ok ph plan
  | .authorizeQuiescent plan seen => sh.begun = [plan] ∧ Seen seen ph
  | .transitionCas plan _ => sh.begun = [plan]
  | .dropLoadId _ outcome | .dropLoad outcome => outcome.Ok ph sh
  | .dropCas raw outcome => (raw = Raw.copying ∨ raw = Raw.targetReady) ∧ outcome.Ok ph sh
  | .poisonCas raw => ∃ seen : MigrationPhase, raw = seen.raw ∧ seen ≠ .committed ∧
      seen ≠ .reclaimed ∧ seen ≠ .poisoned
  | _ => True

def Pc.initializers : Pc → Nat
  | .beginStore _ _ | .beginPublish _ | .initPoison _ => 1
  | _ => 0

structure SharedOk (ph : MigrationPhase) (sh : Shared) (n : Nat) : Prop where
  word : sh.phase = ph.raw
  length : sh.words.length = recordLen
  permits : sh.permits = if ph = .reclaimed then 1 else 0
  initializers : n ≤ 1
  unclaimed : ph = .uninitialized → n = 0
  writing : 0 < n → (ph = .initializing ∨ ph = .poisoned) ∧ sh.begun = []
  unpublished : ph = .uninitialized ∨ ph = .initializing → sh.begun = []
  published : ph.hasPublishedPlan → sh.begun ≠ []
  begun : sh.begun = [] ∨ ∃ plan, sh.begun = [plan] ∧ sh.words = plan.record ∧
    plan.validate = .ok ()
  pooled : ∀ plan, plan ∈ sh.migrations ∨ plan ∈ sh.readies → sh.begun = [plan]

structure Grows (ph : MigrationPhase) (sh : Shared) (ph' : MigrationPhase) (sh' : Shared) : Prop where
  phase : ph' = ph ∨ ph.Next ph'
  begun : ∀ plan, sh.begun = [plan] → sh'.begun = [plan]

theorem Grows.refl (sh : Shared) : Grows ph sh ph sh := ⟨Or.inl rfl, fun _ h => h⟩

section

variable {ph ph' : MigrationPhase} {sh sh' : Shared}

theorem Grows.seen (h : Grows ph sh ph' sh') {seen : MigrationPhase} (hs : Seen seen ph) :
    Seen seen ph' := by
  rcases h.phase with rfl | hn
  · exact hs
  · exact hs.next hn

theorem Outcome.Ok.grows {outcome : Outcome} (h : outcome.Ok ph sh) (hg : Grows ph sh ph' sh') :
    outcome.Ok ph' sh' := by
  have hph := hg.seen (Seen.refl ph)
  cases outcome with
  | snapshot _ plan =>
    cases plan with
    | none => trivial
    | some plan => exact hg.begun plan h
  | committed plan => exact hg.begun plan h
  | authoritative generation plan => exact ⟨hg.begun plan h.1, fun ht => hph.1 (h.2 ht)⟩
  | permit plan _ => exact ⟨hg.begun plan h.1, hph.2 h.2⟩
  | error e => cases e <;> exact h
  | _ => trivial

theorem Pc.Ok.grows {pc : Pc} (h : pc.Ok ph sh) (hg : Grows ph sh ph' sh')
    (hw : pc.initializers = 0 ∨ sh'.words = sh.words) : pc.Ok ph' sh' := by
  cases pc with
  | beginStore plan index =>
    have hw := hw.resolve_left (by simp [Pc.initializers])
    exact ⟨h.1, h.2.1, hw ▸ h.2.2⟩
  | beginPublish plan =>
    have hw := hw.resolve_left (by simp [Pc.initializers])
    exact ⟨h.1, hw ▸ h.2⟩
  | initPoison outcome | done outcome | dropLoadId _ outcome | dropLoad outcome =>
    exact Outcome.Ok.grows h hg
  | dropCas raw outcome => exact ⟨h.1, Outcome.Ok.grows h.2 hg⟩
  | load loaded loading =>
    obtain ⟨plan, hb, hlen, hl, hk⟩ := h
    refine ⟨plan, hg.begun plan hb, hlen, hl, ?_⟩
    cases loading with
    | snapshot seen _ => exact hg.seen hk
    | transition _ _ => exact hk
  | authorizeQuiescent plan seen => exact ⟨hg.begun plan h.1, hg.seen h.2⟩
  | transitionCas plan _ => exact hg.begun plan h
  | _ => exact h

end

def MigrationError.Faults : MigrationError → Prop
  | .zeroSchemaVersion | .zeroTransactionId | .zeroRegionId | .zeroGenerationSequence
  | .zeroBackingIdentity | .zeroAuthorityIdentity | .reusedRegionId | .reusedBackingIdentity
  | .generationDidNotIncrease _ _ | .versionDidNotIncrease _ _ => True
  | _ => False

variable {e : MigrationError}

theorem MigrationError.Faults.ok (h : e.Faults) {ph : MigrationPhase} {sh : Shared} :
    (Outcome.error e).Ok ph sh := by
  cases e <;> trivial

theorem generation_error_faults {g : GenerationIdentity} (h : g.validate = .error e) : e.Faults := by
  simp only [GenerationIdentity.validate, SchemaIdentity.validate, bind, Except.bind, throw,
    throwThe, MonadExceptOf.throw, pure, Except.pure] at h
  split_ifs at h <;> · cases h; trivial

theorem validate_error_faults {plan : MigrationPlan} (h : plan.validate = .error e) : e.Faults := by
  simp only [MigrationPlan.validate, bind, Except.bind, throw, throwThe, MonadExceptOf.throw,
    pure, Except.pure] at h
  cases hs : plan.source.validate with
  | error err =>
    simp only [hs] at h
    exact Except.error.inj h ▸ generation_error_faults hs
  | ok _ =>
    cases ht : plan.target.validate with
    | error err =>
      simp only [hs, ht] at h
      exact Except.error.inj h ▸ generation_error_faults ht
    | ok _ =>
      simp only [hs, ht] at h
      split_ifs at h <;> · cases h; trivial

def Pc.Stays (pc : Pc) (ph : MigrationPhase) (sh : Shared) (n : Nat) : Prop :=
  pc.Ok ph sh ∧ pc.initializers = n

section

variable {ph : MigrationPhase} {sh : Shared} {n : Nat}

def After.initializers : After → Nat
  | .dropInitialization => 1
  | _ => 0

variable {outcome : Outcome}

theorem decodeOrPoison_stays (h : SharedOk ph sh n) (after : After) (expected : MigrationPhase) :
    (decodeOrPoison sh.phase after (wrongPhase expected)).Stays ph sh after.initializers := by
  rw [decodeOrPoison, h.word, MigrationPhase.decode_raw]
  have hok : (wrongPhase expected ph).Ok ph sh := trivial
  cases after <;> exact ⟨hok, rfl⟩

variable {seen : MigrationPhase}

theorem finishSnapshot_stays {plan : Option MigrationPlan} {caller : Caller}
    (hp : ∀ p ∈ plan, sh.begun = [p]) (hs : Seen seen ph) :
    (finishSnapshot seen plan caller).Stays ph sh 0 := by
  cases caller with
  | snapshot =>
    cases plan with
    | none => exact ⟨trivial, rfl⟩
    | some plan => exact ⟨hp plan rfl, rfl⟩
  | authoritativeGeneration =>
    simp only [finishSnapshot]
    split
    · rename_i generation plan hauth
      refine ⟨⟨hp plan rfl, fun ht => hs.1 ?_⟩, rfl⟩
      subst ht
      cases seen <;> simp_all [MigrationPhase.authoritative, MigrationPhase.Decided]
    · exact ⟨trivial, rfl⟩
  | authorizeReclamation witness =>
    cases plan with
    | none => exact ⟨trivial, rfl⟩
    | some plan =>
      simp only [finishSnapshot]
      split_ifs
      · exact ⟨trivial, rfl⟩
      · exact ⟨⟨hp plan rfl, hs⟩, rfl⟩
  | resumeReclamation =>
    cases plan with
    | none => exact ⟨trivial, rfl⟩
    | some plan =>
      simp only [finishSnapshot]
      split_ifs with hr
      · exact ⟨trivial, rfl⟩
      · exact ⟨⟨hp plan rfl, hs.2 (not_not.mp hr)⟩, rfl⟩

theorem SharedOk.exists_plan (h : SharedOk ph sh n) (hb : sh.begun ≠ []) :
    ∃ plan, sh.begun = [plan] ∧ sh.words = plan.record ∧ plan.validate = .ok () :=
  h.begun.resolve_left hb

variable {plan : MigrationPlan}

theorem SharedOk.record (h : SharedOk ph sh n) (hb : sh.begun = [plan]) :
    sh.words = plan.record ∧ plan.validate = .ok () := by
  obtain ⟨p, hp, hw, hv⟩ := h.exists_plan (by simp [hb])
  obtain rfl : p = plan := by simpa [hb] using hp.symm
  exact ⟨hw, hv⟩

theorem snapshotPhase_stays (h : SharedOk ph sh n) (caller : Caller) :
    (snapshotPhase sh.phase caller).Stays ph sh 0 := by
  rw [snapshotPhase, h.word, MigrationPhase.decode_raw]
  simp only
  split_ifs with hpub
  · obtain ⟨plan, hb, _, _⟩ := h.exists_plan (h.published hpub)
    exact ⟨⟨plan, hb, Nat.zero_le _, rfl, Seen.refl ph⟩, rfl⟩
  · exact finishSnapshot_stays (by simp) (Seen.refl ph)

theorem finishLoad_stays (h : SharedOk ph sh n) {loaded : List UInt64} {loading : Loading}
    (hb : sh.begun = [plan]) (hl : loaded = plan.record) (hk : loading.Ok ph plan) :
    (finishLoad loaded loading).Stays ph sh 0 := by
  have hv := (h.record hb).2
  rw [finishLoad, hl, checkRecord_record hv]
  cases loading with
  | snapshot seen caller =>
    refine finishSnapshot_stays (fun p hp => ?_) hk
    obtain rfl := Option.some.inj hp
    exact hb
  | transition bound edge =>
    obtain rfl : bound = plan := hk
    simp only [ne_eq, not_true_eq_false, if_false]
    exact ⟨hb, rfl⟩

theorem checkTarget_stays (ph : MigrationPhase) (sh : Shared) (hb : sh.begun = [plan])
    (target : Backing) (edge : Edge) : (checkTarget plan target edge).Stays ph sh 0 := by
  unfold checkTarget
  split_ifs
  · exact ⟨trivial, rfl⟩
  · exact ⟨trivial, rfl⟩
  · exact ⟨⟨plan, hb, Nat.zero_le _, rfl, rfl⟩, rfl⟩
  · exact ⟨trivial, rfl⟩

theorem authorize_stays (hb : sh.begun = [plan]) (hs : Seen seen ph) (quiescent : Bool) :
    (authorize plan seen quiescent).Stays ph sh 0 := by
  unfold authorize
  split_ifs with hq hr hc
  · exact ⟨⟨hb, hs.2 hr⟩, rfl⟩
  · exact ⟨trivial, rfl⟩
  · exact ⟨⟨plan, hb, Nat.zero_le _, rfl, rfl⟩, rfl⟩
  · exact ⟨trivial, rfl⟩

theorem startBegin_stays (plan : MigrationPlan) (quiescent : Bool) :
    (startBegin plan quiescent).Stays ph sh 0 := by
  unfold startBegin
  split_ifs
  · split
    · rename_i e he
      exact ⟨(validate_error_faults he).ok, rfl⟩
    · rename_i hv
      exact ⟨hv, rfl⟩
  · exact ⟨trivial, rfl⟩

theorem poisonDecide_stays (h : SharedOk ph sh n) : (poisonDecide sh.phase).Stays ph sh 0 := by
  rw [poisonDecide, h.word, MigrationPhase.decode_raw]
  split_ifs with hd
  · exact ⟨trivial, rfl⟩
  · refine ⟨⟨ph, rfl, ?_, ?_, ?_⟩, rfl⟩ <;>
      · rintro rfl
        exact hd (by simp [MigrationPhase.raw])

theorem dropDecide_stays (ho : outcome.Ok ph sh) (raw : UInt64) :
    (dropDecide raw outcome).Stays ph sh 0 := by
  unfold dropDecide
  split_ifs with hd
  · exact ⟨ho, rfl⟩
  · exact ⟨⟨by tauto, ho⟩, rfl⟩

end

variable {ph : MigrationPhase} {sh sh' : Shared} {n m : Nat} {pc pc' : Pc}

theorem SharedOk.poison (h : SharedOk ph sh n) (hr : ph ≠ .reclaimed) :
    SharedOk .poisoned { sh with phase := Raw.poisoned } n where
  word := rfl
  length := h.length
  permits := by simpa [hr] using h.permits
  initializers := h.initializers
  unclaimed := by simp
  writing := fun hn => ⟨Or.inr rfl, (h.writing hn).2⟩
  unpublished := by simp
  published := by simp [MigrationPhase.hasPublishedPlan]
  begun := h.begun
  pooled := h.pooled

theorem SharedOk.claim (h : SharedOk .uninitialized sh m) :
    SharedOk .initializing { sh with phase := Raw.initializing } (m + 1) where
  word := rfl
  length := h.length
  permits := h.permits
  initializers := by simp [h.unclaimed rfl]
  unclaimed := by simp
  writing := fun _ => ⟨Or.inl rfl, h.unpublished (Or.inl rfl)⟩
  unpublished := fun _ => h.unpublished (Or.inl rfl)
  published := by simp [MigrationPhase.hasPublishedPlan]
  begun := h.begun
  pooled := h.pooled

theorem SharedOk.store (h : SharedOk ph sh (m + 1)) (index : Nat) (word : UInt64) :
    SharedOk ph { sh with words := sh.words.set index word } (m + 1) where
  word := h.word
  length := by simpa using h.length
  permits := h.permits
  initializers := h.initializers
  unclaimed := h.unclaimed
  writing := h.writing
  unpublished := h.unpublished
  published := h.published
  begun := Or.inl (h.writing (Nat.succ_pos m)).2
  pooled := h.pooled

variable {plan : MigrationPlan}

theorem SharedOk.publish (h : SharedOk .initializing sh (m + 1)) (hv : plan.validate = .ok ())
    (hw : sh.words = plan.record) : SharedOk .copying { sh with
      phase := Raw.copying, migrations := plan :: sh.migrations, begun := plan :: sh.begun } m := by
  have hb := h.unpublished (Or.inr rfl)
  have hm := h.initializers
  have hp : ∀ q, q ∈ sh.migrations ∨ q ∈ sh.readies → False := by
    intro q hq
    simpa [hb] using h.pooled q hq
  refine ⟨rfl, h.length, h.permits, by omega, by simp, fun hn => by omega, by simp, by simp,
    Or.inr ⟨plan, by simp [hb], hw, hv⟩, ?_⟩
  intro q hq
  rcases hq with hq | hq
  · rcases mem_cons.mp hq with rfl | hq
    · simp [hb]
    · exact (hp q (Or.inl hq)).elim
  · exact (hp q (Or.inr hq)).elim

theorem SharedOk.idle_writers (h : SharedOk ph sh n) (hp : ph.hasPublishedPlan) : n = 0 := by
  by_contra hn
  rcases (h.writing (Nat.pos_of_ne_zero hn)).1 with rfl | rfl <;>
    simp [MigrationPhase.hasPublishedPlan] at hp

theorem SharedOk.transition (h : SharedOk ph sh n) {edge : Edge} (hb : sh.begun = [plan])
    (he : ph = edge.expected) : ∃ ph', ph.Next ph' ∧ SharedOk ph' (transitioned sh plan edge).1 n ∧
      (transitioned sh plan edge).2.Ok ph' (transitioned sh plan edge).1 := by
  subst he
  have hn := h.idle_writers (by cases edge <;> rfl)
  subst hn
  have hperm := h.permits
  cases edge with
  | ready =>
    refine ⟨.targetReady, .ready, ⟨rfl, h.length, hperm, by simp, by simp, by simp, by simp,
      fun _ => by simp [transitioned, hb], h.begun, ?_⟩, trivial⟩
    intro q hq
    rcases hq with hq | hq
    · exact h.pooled q (Or.inl hq)
    · rcases mem_cons.mp hq with rfl | hq
      · exact hb
      · exact h.pooled q (Or.inr hq)
  | commit =>
    exact ⟨.committed, .commit, ⟨rfl, h.length, hperm, by simp, by simp, by simp, by simp,
      fun _ => by simp [transitioned, hb], h.begun, h.pooled⟩, hb⟩
  | reclaim =>
    refine ⟨.reclaimed, .reclaim, ⟨rfl, h.length, ?_, by simp, by simp, by simp, by simp,
      fun _ => by simp [transitioned, hb], h.begun, h.pooled⟩, hb, rfl⟩
    simp [transitioned, hperm, Edge.expected]

theorem SharedOk.repool (h : SharedOk ph sh n) {migrations readies : List MigrationPlan}
    (hp : ∀ plan, plan ∈ migrations ∨ plan ∈ readies → sh.begun = [plan]) :
    SharedOk ph { sh with migrations := migrations, readies := readies } n :=
  ⟨h.word, h.length, h.permits, h.initializers, h.unclaimed, h.writing, h.unpublished, h.published,
    h.begun, hp⟩

def StepOk (ph : MigrationPhase) (sh : Shared) (m : Nat) (pc : Pc) (sh' : Shared) (pc' : Pc) :
    Prop :=
  ∃ ph', SharedOk ph' sh' (m + pc'.initializers) ∧ pc'.Ok ph' sh' ∧ Grows ph sh ph' sh' ∧
    (pc.initializers = 0 → sh'.words = sh.words)

theorem Pc.Stays.stepOk (h : SharedOk ph sh (m + pc.initializers))
    (hs : pc'.Stays ph sh pc.initializers) : StepOk ph sh m pc sh pc' :=
  ⟨ph, hs.2.symm ▸ h, hs.1, Grows.refl ph sh, fun _ => rfl⟩

theorem call_ok {op : Op} (h : SharedOk ph sh m) (hs : call sh op = some (sh', pc')) :
    StepOk ph sh m .idle sh' pc' := by
  cases op with
  | begin witness plan =>
    simp only [call] at hs
    split_ifs at hs <;>
      · cases hs
        exact Pc.Stays.stepOk h ⟨trivial, rfl⟩
  | poison | observe caller =>
    cases hs
    exact Pc.Stays.stepOk h ⟨trivial, rfl⟩
  | markTargetReady plan target =>
    simp only [call] at hs
    split_ifs at hs with hmem
    cases hs
    have hb := h.pooled plan (Or.inl hmem)
    have hc := checkTarget_stays ph { sh with migrations := sh.migrations.erase plan } hb target
      .ready
    exact ⟨ph, hc.2.symm ▸ h.repool fun q hq => h.pooled q (hq.imp_left mem_of_mem_erase),
      hc.1, ⟨Or.inl rfl, fun _ hb => hb⟩, fun _ => rfl⟩
  | commit plan target =>
    simp only [call] at hs
    split_ifs at hs with hmem
    cases hs
    have hb := h.pooled plan (Or.inr hmem)
    have hc := checkTarget_stays ph { sh with readies := sh.readies.erase plan } hb target .commit
    exact ⟨ph, hc.2.symm ▸ h.repool fun q hq => h.pooled q (hq.imp_right mem_of_mem_erase),
      hc.1, ⟨Or.inl rfl, fun _ hb => hb⟩, fun _ => rfl⟩
  | dropMigration plan =>
    simp only [call] at hs
    split_ifs at hs with hmem
    cases hs
    exact ⟨ph, h.repool fun q hq => h.pooled q (hq.imp_left mem_of_mem_erase),
      trivial, ⟨Or.inl rfl, fun _ hb => hb⟩, fun _ => rfl⟩
  | dropTargetReady plan =>
    simp only [call] at hs
    split_ifs at hs with hmem
    cases hs
    exact ⟨ph, h.repool fun q hq => h.pooled q (hq.imp_right mem_of_mem_erase),
      trivial, ⟨Or.inl rfl, fun _ hb => hb⟩, fun _ => rfl⟩

theorem SharedOk.mono (h : SharedOk ph sh n) (hle : m ≤ n) : SharedOk ph sh m where
  word := h.word
  length := h.length
  permits := h.permits
  initializers := le_trans hle h.initializers
  unclaimed := fun hu => Nat.le_zero.mp (h.unclaimed hu ▸ hle)
  writing := fun hm => h.writing (Nat.lt_of_lt_of_le hm hle)
  unpublished := h.unpublished
  published := h.published
  begun := h.begun
  pooled := h.pooled

theorem poison_stepOk {outcome : Outcome} (h : SharedOk ph sh (m + pc.initializers))
    (hd : ¬ ph.Decided) (ho : outcome.Ok ph sh) :
    StepOk ph sh m pc { sh with phase := Raw.poisoned } (.done outcome) := by
  have hr : ph ≠ .reclaimed := by
    rintro rfl
    exact hd trivial
  have hg : Grows ph sh .poisoned { sh with phase := Raw.poisoned } := by
    refine ⟨?_, fun _ hb => hb⟩
    by_cases hp : ph = .poisoned
    · exact Or.inl hp.symm
    · refine Or.inr (.poison ph ?_ hr hp)
      rintro rfl
      exact hd trivial
  exact ⟨.poisoned, (h.poison hr).mono (Nat.le_add_right _ _), ho.grows hg, hg, fun _ => rfl⟩

variable {index : Nat} {words : List UInt64}

theorem take_succ_getD (h : index < words.length) :
    words.take (index + 1) = words.take index ++ [words.getD index 0] := by
  rw [take_add_one, List.getD_eq_getElem?_getD, List.getElem?_eq_getElem h]
  rfl

theorem take_set_succ {record : List UInt64} (hw : index < words.length)
    (hr : index < record.length) (h : words.take index = record.take index) :
    (words.set index (record.getD index 0)).take (index + 1) = record.take (index + 1) := by
  rw [take_add_one, take_set_of_le (Nat.le_refl _), List.getElem?_set_self hw, h, take_succ_getD hr]
  rfl

theorem advance_ok (h : SharedOk ph sh (m + pc.initializers)) (hpc : pc.Ok ph sh)
    (hs : advance sh pc = some (sh', pc')) : StepOk ph sh m pc sh' pc' := by
  cases pc with
  | beginCas plan =>
    simp only [advance] at hs
    split_ifs at hs with hph <;> cases hs
    · obtain rfl : ph = .uninitialized := MigrationPhase.raw_inj.mp (h.word.symm.trans hph)
      exact ⟨.initializing, h.claim, ⟨hpc, by decide, rfl⟩, ⟨Or.inr .claim, fun _ hb => hb⟩,
        fun _ => rfl⟩
    · exact (decodeOrPoison_stays h .finish .uninitialized).stepOk h
  | beginStore plan index =>
    obtain ⟨hv, hi, ht⟩ := hpc
    cases hs
    have hlen : index < sh.words.length := h.length ▸ hi
    have htake := take_set_succ hlen (plan.record_length ▸ hi) ht
    have hst := h.store index (plan.record.getD index 0)
    split_ifs with hlast
    · exact ⟨ph, hst, ⟨hv, hlast, htake⟩, ⟨Or.inl rfl, fun _ hb => hb⟩, by simp [Pc.initializers]⟩
    · refine ⟨ph, hst, ⟨hv, ?_⟩, ⟨Or.inl rfl, fun _ hb => hb⟩, by simp [Pc.initializers]⟩
      have hfull : index + 1 = recordLen := by omega
      rw [hfull] at htake
      have h₁ : (sh.words.set index (plan.record.getD index 0)).length = recordLen := hst.length
      rw [← h₁, take_length, h₁, ← plan.record_length, take_length] at htake
      exact htake
  | beginPublish plan =>
    simp only [advance] at hs
    split_ifs at hs with hph <;> cases hs
    · obtain rfl : ph = .initializing := MigrationPhase.raw_inj.mp (h.word.symm.trans hph)
      refine ⟨.copying, SharedOk.publish h hpc.1 hpc.2, trivial, ⟨Or.inr .publish, ?_⟩,
        fun _ => rfl⟩
      intro q hq
      simp [h.unpublished (Or.inr rfl)] at hq
    · exact (decodeOrPoison_stays h .dropInitialization .initializing).stepOk h
  | initPoison outcome =>
    cases hs
    refine poison_stepOk h ?_ hpc
    rcases (h.writing (Nat.succ_pos m)).1 with rfl | rfl <;> exact id
  | poisonStore _ _ => exact hpc.elim
  | snapLoad caller =>
    cases hs
    exact (snapshotPhase_stays h caller).stepOk h
  | load loaded loading =>
    obtain ⟨plan, hb, hlen, hl, hk⟩ := hpc
    simp only [advance] at hs
    split_ifs at hs with hmore <;> cases hs
    · refine Pc.Stays.stepOk h ⟨⟨plan, hb, by simpa using Nat.succ_le_of_lt hmore, ?_, hk⟩, rfl⟩
      rw [(h.record hb).1, length_append, length_singleton,
        take_succ_getD (plan.record_length ▸ hmore), ← hl]
    · have hfull : loaded.length = recordLen := by omega
      rw [hfull, ← plan.record_length, take_length] at hl
      exact (finishLoad_stays h hb hl hk).stepOk h
  | transitionCas plan edge =>
    simp only [advance] at hs
    split_ifs at hs with hph
    · obtain ⟨rfl, rfl⟩ := Prod.ext_iff.mp (Option.some.inj hs)
      have he : ph = edge.expected := by
        have hraw : edge.expectedRaw = edge.expected.raw := by cases edge <;> rfl
        exact MigrationPhase.raw_inj.mp (h.word.symm.trans (hph.trans hraw))
      obtain ⟨ph', hn, hsh, hok⟩ := SharedOk.transition (n := m) h hpc he
      have hinit : (transitioned sh plan edge).2.initializers = 0 := by cases edge <;> rfl
      refine ⟨ph', by simpa [hinit] using hsh, hok, ⟨Or.inr hn, fun q hq => ?_⟩, fun _ => ?_⟩
      · cases edge <;> exact hq
      · cases edge <;> rfl
    · cases hs
      have hstays := decodeOrPoison_stays h (edge.after plan) edge.expected
      have hi : (edge.after plan).initializers = 0 := by cases edge <;> rfl
      exact Pc.Stays.stepOk h ⟨hstays.1, hstays.2.trans hi⟩
  | dropLoadId transactionId outcome =>
    cases hs
    refine Pc.Stays.stepOk h ?_
    split_ifs <;> exact ⟨hpc, rfl⟩
  | dropLoad outcome =>
    cases hs
    exact (dropDecide_stays hpc _).stepOk h
  | dropCas raw outcome =>
    simp only [advance] at hs
    split_ifs at hs with hph <;> cases hs
    · refine poison_stepOk h ?_ hpc.2
      have hw := h.word.symm.trans hph
      rcases hpc.1 with rfl | rfl
      · obtain rfl : ph = .copying := MigrationPhase.raw_inj.mp hw
        exact id
      · obtain rfl : ph = .targetReady := MigrationPhase.raw_inj.mp hw
        exact id
    · exact (dropDecide_stays hpc.2 _).stepOk h
  | poisonLoad =>
    cases hs
    exact (poisonDecide_stays h).stepOk h
  | poisonCas raw =>
    obtain ⟨seen, rfl, hc, hr, _⟩ := hpc
    simp only [advance] at hs
    split_ifs at hs with hph <;> cases hs
    · obtain rfl : ph = seen := MigrationPhase.raw_inj.mp (h.word.symm.trans hph)
      refine poison_stepOk h ?_ trivial
      cases ph <;> simp_all [MigrationPhase.Decided]
    · exact (poisonDecide_stays h).stepOk h
  | done outcome =>
    cases hs
    exact Pc.Stays.stepOk h ⟨trivial, rfl⟩
  | _ => cases hs

theorem step_ok {i : In} (h : SharedOk ph sh (m + pc.initializers)) (hpc : pc.Ok ph sh)
    (hs : step sh pc i = some (sh', pc')) : StepOk ph sh m pc sh' pc' := by
  cases i with
  | call op =>
    simp only [step] at hs
    split_ifs at hs with hidle
    subst hidle
    exact call_ok h hs
  | go => exact advance_ok h hpc hs
  | spurious =>
    cases pc with
    | dropCas raw outcome =>
      cases hs
      exact (dropDecide_stays hpc.2 _).stepOk h
    | poisonCas raw =>
      cases hs
      exact (poisonDecide_stays h).stepOk h
    | _ => cases hs
  | quiescent answer =>
    cases pc with
    | beginQuiescent plan =>
      cases hs
      exact (startBegin_stays plan answer).stepOk h
    | authorizeQuiescent plan seen =>
      cases hs
      exact (authorize_stays hpc.1 hpc.2 answer).stepOk h
    | _ => cases hs

end DevHermit.Shmem.Migration
