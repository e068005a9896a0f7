import DevHermit.Shmem.Snzi.Holdings

namespace DevHermit.Shmem.Snzi

open Lib CounterTree Function Shmem.Tree Stable

variable {t : TreeSize} {m m' : Memory} {R Q : Claim → Nat} {leaf node redundant : Nat}
  {callers : List Caller}

theorem unit_add_ne_zero (R : Claim → Nat) (x : Claim) : (R + unit x) x ≠ 0 := by simp

inductive Departs (t : TreeSize) (R Q : Claim → Nat) (m : Memory) : Memory → DepartResult → Prop
    where
  | next (m' : Memory) (pc : DepartPc) : Books t m' (R + unit (pc.claim t)) Q → pc.Ok t m' →
      Stable m m' → Departs t R Q m m' (.next pc)
  | finished (m' : Memory) : Books t m' R Q → Stable m m' → Departs t R Q m m' .finished
  | fail (reason : PoisonReason) : PoisonReason.fromCode m.poison = some reason →
      Departs t R Q m m (.fail (.poisoned reason))

variable {pc : DepartPc}

theorem departHealthy_departs (hb : Books t m (R + unit (pc.claim t)) Q) (hok : pc.Ok t m) :
    Departs t R Q m m (departHealthy m (.next pc)) := by
  rw [departHealthy]
  cases hr : PoisonReason.fromCode m.poison with
  | some reason => exact .fail reason hr
  | none => exact .next m pc hb hok (Stable.refl m)

variable {target : Target}

theorem departDecide_of_active {state : UInt64} (ha : isActive state = true)
    (hg : ∀ leaf generation, target = .token leaf generation → stateGeneration state = generation) :
    departDecide target state = .next (.cas target state) := by
  obtain ⟨hh, hc⟩ := isActive_iff.mp ha
  cases target with
  | token leaf generation => simp [departDecide, hh, hc, hg leaf generation rfl]
  | inner child up => simp [departDecide, hh, hc]

theorem depart_cas (hb : Books t m (R + unit (target.claim t)) Q) (hok : target.Ok t m)
    (ha : isActive (m.nodes (target.node t)) = true) :
    Departs t R Q m (m.setNode (target.node t) (decremented (m.nodes (target.node t))))
      (if stateCount (m.nodes (target.node t)) = 1 then .next (departParent (target.node t))
        else .finished) := by
  have hx := Target.claim_valid hok
  have hs := Target.claim_site hok
  obtain ⟨hsh, hone⟩ := decremented_spec (hb.valid (target.node t)) ha
  have hstable : Stable m (m.setNode (target.node t) (decremented (m.nodes (target.node t)))) :=
    setNode fun _ => hsh.generation
  have hcount := virtual_of_active ha
  split_ifs with hc
  · have hz : virtual (decremented (m.nodes (target.node t))) = 0 := by
      rw [hc] at hcount
      rw [hcount] at hone
      exact Nat.succ.inj hone
    have hr := hb.retire hx hs ha hsh hone hz
    rw [← departParent_claim t] at hr
    have hlt : target.node t < t.nodes := by
      cases target with
      | token leaf generation => exact leaf_node_lt hok.1
      | inner child up => exact (parent_lt hok.2).trans hok.1
    exact .next _ _ hr (departParent_ok hlt) hstable
  · refine .finished _ (hb.leave hx hs ha hsh hone fun hz => hc ?_) hstable
    rw [hz, hcount] at hone
    exact UInt64.toNat_inj.mp hone.symm

theorem departStep_departs (hb : Books t m (R + unit (pc.claim t)) Q) (hok : pc.Ok t m) :
    Departs t R Q m (departStep t m pc).1 (departStep t m pc).2 := by
  have hne := unit_add_ne_zero R (pc.claim t)
  have hroot : m.root ≠ 0 := hb.root_ne_zero (DepartPc.claim_valid hok) (by omega)
  cases pc with
  | healthy target => exact departHealthy_departs hb hok
  | rootHealthy child => exact departHealthy_departs hb hok
  | load target =>
    have ha := hb.active_of_solid (Target.claim_valid hok) (Target.claim_site hok) hne
    have hdecide : departDecide target (m.nodes (target.node t)) =
        .next (.cas target (m.nodes (target.node t))) := by
      refine departDecide_of_active ha ?_
      rintro leaf generation rfl
      exact hok.2
    rw [departStep, hdecide]
    exact .next m _ hb ⟨hok, ha⟩ (Stable.refl m)
  | cas target state =>
    rw [departStep]
    by_cases hcas : m.nodes (target.node t) = state
    · subst hcas
      rw [if_pos rfl]
      exact depart_cas hb hok.1 hok.2
    · rw [if_neg hcas]
      exact .next m (.healthy target) hb hok.1 (Stable.refl m)
  | rootLoad child =>
    rw [departStep, if_neg hroot]
    exact .next m _ hb ⟨hok, hroot⟩ (Stable.refl m)
  | rootCas child count =>
    rw [departStep]
    by_cases hcas : m.root = count
    · subst hcas
      rw [if_pos rfl]
      refine .finished _ (hb.rootLeave hok.1.1 hok.1.2 ?_) (setRoot m _)
      have hpred := Word.toNat_pred hroot
      omega
    · rw [if_neg hcas]
      exact .next m (.rootHealthy child) hb hok.1 (Stable.refl m)

def Pc.poisoning : Pc → Bool
  | .poison _ _ => true
  | _ => false

structure Lawful (t : TreeSize) (R Q : Claim → Nat) (m m' : Memory) (pc' : Pc) : Prop where
  books : ∃ L M, Books t m' (R + L + pc'.solid t) (Q + M + pc'.vowed) ∧
    (m'.poison = poisonNone → pc'.poisoning = false → L = 0 ∧ M = 0)
  ok : pc'.Ok t m'
  stable : Stable m m'

namespace Lawful

variable {k pc' : Pc}

theorem of_books (hb : Books t m' (R + pc'.solid t) (Q + pc'.vowed)) (hok : pc'.Ok t m')
    (hs : Stable m m') : Lawful t R Q m m' pc' :=
  ⟨⟨0, 0, by rwa [add_zero, add_zero], fun _ _ => ⟨rfl, rfl⟩⟩, hok, hs⟩

section

variable (hb : Books t m (R + k.solid t) (Q + k.vowed))
include hb

theorem keep (hs : pc'.solid t = k.solid t)
    (hv : pc'.vowed = k.vowed) (hok : pc'.Ok t m) : Lawful t R Q m m pc' :=
  of_books (by rwa [hs, hv]) hok (Stable.refl m)

theorem drop (hs : pc'.solid t = 0) (hv : pc'.vowed = 0) (hok : pc'.Ok t m)
    (hp : m.poison = poisonNone → pc'.poisoning = true) : Lawful t R Q m m pc' := by
  refine ⟨⟨k.solid t, k.vowed, ?_, fun hm hpc => ?_⟩, hok, Stable.refl m⟩
  · rwa [hs, hv, add_zero, add_zero]
  · exact absurd ((hp hm).symm.trans hpc) (by simp)

variable {reason : PoisonReason}

theorem fail (kind : Kind) (hr : PoisonReason.fromCode m.poison = some reason) :
    Lawful t R Q m m (.done (.error kind (.poisoned reason))) := by
  have hne : m.poison ≠ poisonNone := fun he => by
    rw [PoisonReason.fromCode_eq_none.mpr he] at hr
    cases hr
  exact drop hb rfl rfl ⟨hb.capacity reason hr, hne⟩ fun he => absurd he hne

theorem poison (kind : Kind) (hr : reason.isCapacity = true) :
    Lawful t R Q m m (.poison kind reason) :=
  drop hb rfl rfl hr fun _ => rfl

theorem healthy (kind : Kind)
    (hs : pc'.solid t = k.solid t) (hv : pc'.vowed = k.vowed) (hok : pc'.Ok t m) :
    Lawful t R Q m m (ensureHealthy m kind pc') := by
  rw [ensureHealthy]
  cases hr : PoisonReason.fromCode m.poison with
  | some reason => exact fail hb kind hr
  | none => exact keep hb hs hv hok

end

end Lawful

theorem arriveDecide_lawful
    (hb : Books t m (R + (Pc.arrive leaf callers (.load node redundant)).solid t)
      (Q + (Pc.arrive leaf callers (.load node redundant)).vowed))
    (hok : Frames t m leaf (some node) callers) :
    Lawful t R Q m m (arriveDecide leaf callers node redundant (m.nodes node)) := by
  have hv := hb.valid node
  rw [arriveDecide]
  split_ifs with hh hc hz hg hm
  · exact absurd (hv.half hh) hc
  · obtain ⟨hs, hw⟩ := arriveParent_holds t leaf callers (.help node redundant (m.nodes node))
    exact .keep hb hs hw (arriveParent_ok hh hok)
  · exact .poison hb .arrive rfl
  · exact .keep hb rfl rfl ⟨hok, virtual_eq_zero.mpr ⟨by simpa using hh, hz⟩, hg⟩
  · exact .poison hb .arrive rfl
  · exact .keep hb rfl rfl ⟨hok, isActive_iff.mpr ⟨by simpa using hh, hz⟩, hm⟩

theorem Frames.moved {s : Option Nat} {solid : Claim → Nat}
    (hf : Frames t m leaf s callers) (hb : Books t m solid (Q + callersVowed callers))
    (hs : Stable m m') : Frames t m' leaf s callers := by
  refine hf.stable hs fun x hx => ?_
  have hle := hb.le_counts (callersVowed_valid hf hx)
  rw [Pi.add_apply] at hle
  omega

theorem casHalf_lawful (hb : Books t m (R + (copies redundant (.child node) + callersSolid callers))
      (Q + callersVowed callers))
    (hf : Frames t m leaf (some node) callers) (hz : virtual (m.nodes node) = 0)
    (hg : stateGeneration (m.nodes node) ≠ versionMask) :
    Lawful t R Q m (m.setNode node (stateHalf (stateGeneration (m.nodes node) + 1)))
      (arriveParent leaf callers (.init node redundant (stateGeneration (m.nodes node) + 1))) := by
  have hi := stateHalf_installed hg
  have hs : Stable m (m.setNode node (stateHalf (stateGeneration (m.nodes node) + 1))) :=
    setNode fun hne => absurd hz hne
  obtain ⟨hsolid, hvowed⟩ := arriveParent_holds t leaf callers
    (.init node redundant (stateGeneration (m.nodes node) + 1))
  refine .of_books ?_ (arriveParent_ok ?_ (hf.moved hb hs)) hs
  · rw [hsolid, hvowed]
    have hbooks := hb.install hf.valid hf.site hz hi
    rwa [add_assoc Q] at hbooks
  · show stateGeneration (update m.nodes node _ node) = _
    rw [update_self]
    exact hi.generation

variable {generation : UInt64}

theorem compensateNext_lawful
    (hb : Books t m' (R + (copies redundant (.child node) + callersSolid callers) +
      unit (arrivalClaim (some node) callers)) (Q + callersVowed callers))
    (hf : Frames t m' leaf (some node) callers)
    (hg : callers = [] → stateGeneration (m'.nodes node) = generation) (hs : Stable m m') :
    Lawful t R Q m m' (compensateNext leaf callers node generation redundant) := by
  obtain ⟨hsolid, hvowed⟩ := compensateNext_holds leaf generation redundant hf
  refine .of_books ?_ (compensateNext_ok redundant hf hg) hs
  rw [hsolid, hvowed, ← add_assoc]
  exact hb

theorem casCount_lawful
    (hb : Books t m (R + (copies redundant (.child node) + callersSolid callers))
      (Q + callersVowed callers))
    (hf : Frames t m leaf (some node) callers) (ha : isActive (m.nodes node) = true)
    (hm : stateCount (m.nodes node) ≠ countMask) :
    Lawful t R Q m (m.setNode node (incremented (m.nodes node)))
      (compensateNext leaf callers node (stateGeneration (m.nodes node)) redundant) := by
  obtain ⟨hsh, hone⟩ := incremented_spec (hb.valid node) ha hm
  have hs : Stable m (m.setNode node (incremented (m.nodes node))) :=
    setNode fun _ => hsh.generation
  refine compensateNext_lawful (hb.join hf.valid hf.site ha hsh hone) (hf.moved hb hs)
    (fun _ => ?_) hs
  show stateGeneration (update m.nodes node _ node) = _
  rw [update_self]
  exact hsh.generation

variable {caller : Caller}

theorem resume_lawful
    (hb : Books t m' (R + (copies redundant (.child caller.node) + callersSolid callers))
      (Q + callersVowed (caller :: callers)))
    (hok : caller.Ok m') (hf : Frames t m' leaf (some caller.node) callers)
    (hwhole : ∀ node redundant generation, caller = .init node redundant generation →
      stateIsHalf (m'.nodes node) = false) (hs : Stable m m') :
    Lawful t R Q m m' (caller.resume leaf callers redundant) := by
  cases caller with
  | help node r state => exact .of_books hb hf hs
  | init node r generation =>
    have hx : (arrivalClaim (some node) callers).Valid t.nodes := Frames.valid hf
    have hbooks : Books t m' _ (Q + callersVowed callers) := hb.fulfil hx (Frames.site hf)
      (hwhole node r generation rfl) (add_assoc _ _ _).symm
    exact compensateNext_lawful hbooks hf (fun _ => hok) hs

theorem Caller.expected_half (hok : caller.Ok m) (h : m.nodes caller.node = caller.expected) :
    stateIsHalf (m.nodes caller.node) = true := by
  rw [h]
  cases caller with
  | help node r state => exact hok
  | init node r generation =>
    have hg : stateGeneration (m.nodes node) = generation := hok
    exact (stateHalf_packed (hg ▸ stateGeneration_lt (m.nodes node))).half

theorem Caller.active_eq (hok : caller.Ok m) (h : m.nodes caller.node = caller.expected) :
    caller.active = stateWithCount (stateGeneration (m.nodes caller.node)) 1 := by
  cases caller with
  | help node r state =>
    rw [h]
    rfl
  | init node r generation =>
    have hg : stateGeneration (m.nodes node) = generation := hok
    rw [Caller.active, Caller.node, hg]

theorem Caller.whole_of_failed (hv : ∀ n, ValidState (m.nodes n)) (hok : caller.Ok m)
    (h : m.nodes caller.node ≠ caller.expected) (node r : Nat) (generation : UInt64)
    (hc : caller = .init node r generation) : stateIsHalf (m.nodes node) = false := by
  subst hc
  have hg : stateGeneration (m.nodes node) = generation := hok
  by_contra hh
  rw [Bool.not_eq_false] at hh
  have hp : Packed (m.nodes node) generation true 0 := ⟨hg, hh, (hv node).half hh⟩
  exact h (hp.unique (stateHalf_packed (hg ▸ stateGeneration_lt (m.nodes node))))

-- Each redundant arrival and the unpublished one is a unit of the parent's own count.
theorem redundant_lt
    (hb : Books t m (R + (callersSolid (caller :: callers) + unit (.child caller.node))) Q)
    (hlt : caller.node < t.nodes) : caller.redundant ≠ usizeMax := by
  have hle := hb.le_counts (x := .child caller.node) hlt
  have hcopies : copies caller.redundant (.child caller.node) (.child caller.node) =
      caller.redundant := copies_self _ _
  have hmax : counts m (site parent (.child caller.node)) ≤ usizeMax := by
    cases site parent (.child caller.node) with
    | none =>
      have := m.root.toNat_lt
      simp only [counts, usizeMax]
      omega
    | some n =>
      have := virtual_lt (m.nodes n)
      simp only [counts, usizeMax]
      omega
  simp only [Pi.add_apply, callersSolid, unit_self, hcopies] at hle
  omega

theorem publish_lawful
    (hb : Books t m (R + (callersSolid (caller :: callers) + unit (.child caller.node)))
      (Q + callersVowed (caller :: callers)))
    (hok : caller.Ok m) (hf : Frames t m leaf (some caller.node) callers) :
    Lawful t R Q m (arriveStep t m leaf callers (.publish caller)).1
      (arriveStep t m leaf callers (.publish caller)).2 := by
  have hframes : Frames t m leaf (parent caller.node) (caller :: callers) := ⟨rfl, hok, hf⟩
  rw [arriveStep]
  by_cases hcas : m.nodes caller.node = caller.expected
  · rw [if_pos hcas, Caller.active_eq hok hcas]
    have hhalf := Caller.expected_half hok hcas
    have hp := stateWithCount_published (hb.valid caller.node) hhalf
    have hs : Stable m (m.setNode caller.node
        (stateWithCount (stateGeneration (m.nodes caller.node)) 1)) :=
      setNode fun _ => hp.generation
    have hmoved := hframes.moved hb hs
    rw [← add_assoc] at hb
    refine resume_lawful (hb.publish hhalf hp) hmoved.2.1 hmoved.2.2 ?_ hs
    rintro node r generation rfl
    show stateIsHalf (update m.nodes node _ node) = _
    rw [update_self]
    exact (isActive_iff.mp hp.active).1
  · rw [if_neg hcas, if_neg (redundant_lt hb hf.lt)]
    refine resume_lawful ?_ hok hf (Caller.whole_of_failed hb.valid hok hcas) (Stable.refl m)
    have heq : copies (caller.redundant + 1) (.child caller.node) + callersSolid callers =
        callersSolid (caller :: callers) + unit (.child caller.node) := by
      rw [copies_succ]
      funext y
      simp only [Pi.add_apply, callersSolid]
      omega
    rwa [heq]

theorem rootCas_lawful (hb : Books t m (R + callersSolid callers) (Q + callersVowed callers))
    (hf : Frames t m leaf none callers) (hm : m.root ≠ u64Max) :
    Lawful t R Q m (m.setRoot (m.root + 1)) (arriveReturn leaf callers 0) := by
  have hadd : (m.root + 1).toNat = m.root.toNat + 1 := by
    have hlt := m.root.toNat_lt
    have hne : m.root.toNat ≠ 2 ^ 64 - 1 := fun he => hm (UInt64.toNat_inj.mp he)
    rw [UInt64.toNat_add, UInt64.toNat_one, Nat.mod_eq_of_lt (by omega)]
  have hs := setRoot m (m.root + 1)
  have hmoved := hf.moved hb hs
  obtain ⟨hsolid, hvowed⟩ := arriveReturn_holds hmoved 0
  refine .of_books ?_ (arriveReturn_ok hmoved ?_) hs
  · rw [hsolid, hvowed, ← add_assoc]
    exact hb.rootJoin hf.valid hf.site hadd
  · intro node _ hn
    cases hn

theorem compensate_lawful
    (hb : Books t m (R + (copies (redundant - 1) (.child node) + callersSolid callers +
      unit (arrivalClaim (some node) callers) + unit (pc.claim t))) (Q + callersVowed callers))
    (hok : (ArrivePc.compensate node generation redundant pc).Ok t m leaf callers) :
    Lawful t R Q m (arriveStep t m leaf callers (.compensate node generation redundant pc)).1
      (arriveStep t m leaf callers (.compensate node generation redundant pc)).2 := by
  obtain ⟨hf, hpc, hr, hg⟩ := hok
  have hactive : callers = [] → virtual (m.nodes node) ≠ 0 := by
    rintro rfl
    have ha := hb.active_of_solid (x := .token node) (n := node) hf.lt rfl (by
      simp [arrivalClaim])
    rw [virtual_of_active ha]
    exact fun hz => (isActive_iff.mp ha).2 (stateCount_eq_zero.mpr hz)
  have hkeep : ∀ {m' : Memory}, Stable m m' → callers = [] →
      stateGeneration (m'.nodes node) = generation := fun hs hnil =>
    (hs.generation node (hactive hnil)).trans (hg hnil)
  have hframe := hb
  rw [← add_assoc] at hframe
  have hd := departStep_departs hframe hpc
  rw [arriveStep]
  generalize departStep t m pc = r at hd ⊢
  obtain ⟨m', result⟩ := r
  cases hd with
  | next m' pc' hbooks hpc' hs =>
    refine .of_books ?_ ⟨hf.moved hb hs, hpc', hr, hkeep hs⟩ hs
    rwa [add_assoc] at hbooks
  | finished m' hbooks hs =>
    refine compensateNext_lawful ?_ (hf.moved hb hs) (hkeep hs) hs
    rwa [← add_assoc] at hbooks
  | fail reason hreason =>
    exact .fail (k := .arrive leaf callers (.compensate node generation redundant pc)) hb
      .arrive hreason

theorem arrive_lawful {pc : ArrivePc}
    (hb : Books t m (R + pc.solid t callers) (Q + pc.vowed callers))
    (hok : pc.Ok t m leaf callers) :
    Lawful t R Q m (arriveStep t m leaf callers pc).1 (arriveStep t m leaf callers pc).2 := by
  have hkeep : ∀ {pc' : Pc}, pc'.solid t = pc.solid t callers → pc'.vowed = pc.vowed callers →
      pc'.Ok t m → Lawful t R Q m m pc' := fun hs hv hok' =>
    .keep (k := .arrive leaf callers pc) hb hs hv hok'
  cases pc with
  | healthy node redundant =>
    exact .healthy (k := .arrive leaf callers (.healthy node redundant)) hb .arrive rfl rfl hok
  | load node redundant => exact arriveDecide_lawful hb hok
  | casHalf node redundant state =>
    obtain ⟨hf, hz, hg⟩ := hok
    rw [arriveStep]
    by_cases hcas : m.nodes node = state
    · subst hcas
      rw [if_pos rfl]
      exact casHalf_lawful hb hf hz hg
    · rw [if_neg hcas]
      exact hkeep rfl rfl hf
  | casCount node redundant state =>
    obtain ⟨hf, ha, hm⟩ := hok
    rw [arriveStep]
    by_cases hcas : m.nodes node = state
    · subst hcas
      rw [if_pos rfl]
      exact casCount_lawful hb hf ha hm
    · rw [if_neg hcas]
      exact hkeep rfl rfl hf
  | publish caller => exact publish_lawful hb hok.1 hok.2
  | rootHealthy => exact .healthy (k := .arrive leaf callers .rootHealthy) hb .arrive rfl rfl hok
  | rootLoad =>
    rw [arriveStep]
    by_cases hm : m.root = u64Max
    · rw [if_pos hm]
      exact .poison (k := .arrive leaf callers .rootLoad) hb .arrive rfl
    · rw [if_neg hm]
      exact hkeep rfl rfl ⟨hok, hm⟩
  | rootCas count =>
    obtain ⟨hf, hm⟩ := hok
    rw [arriveStep]
    by_cases hcas : m.root = count
    · subst hcas
      rw [if_pos rfl]
      exact rootCas_lawful hb hf hm
    · rw [if_neg hcas]
      exact hkeep rfl rfl hf
  | compensate node generation redundant pc => exact compensate_lawful hb hok

theorem depart_lawful (hb : Books t m (R + unit (pc.claim t)) (Q + 0)) (hok : pc.Ok t m) :
    Lawful t R Q m (departStep t m pc).1 (departReturn (departStep t m pc).2) := by
  have hd := departStep_departs hb hok
  generalize departStep t m pc = r at hd ⊢
  obtain ⟨m', result⟩ := r
  cases hd with
  | next m' pc' hbooks hpc' hs => exact .of_books hbooks hpc' hs
  | finished m' hbooks hs => exact .of_books (by rwa [← add_zero R] at hbooks) trivial hs
  | fail reason hreason => exact .fail (k := .depart pc) hb .depart hreason

theorem PoisonReason.code_ne_none (reason : PoisonReason) : reason.code ≠ poisonNone := by
  cases reason <;> decide

variable {pc' : Pc}

theorem advance_poisoning {pc : Pc} (hp : pc.poisoning = true) (h : advance t m pc = some (m', pc'))
    : m'.poison ≠ poisonNone := by
  cases pc with
  | poison kind reason =>
    cases h
    split_ifs with hm
    · exact reason.code_ne_none
    · exact hm
  | _ => cases hp

theorem poison_lawful {kind : Kind} {reason : PoisonReason} (hb : Books t m (R + 0) (Q + 0))
    (hr : reason.isCapacity = true) :
    Lawful t R Q m (if m.poison = poisonNone then { m with poison := reason.code } else m)
      (.poisonReason kind reason) := by
  by_cases hp : m.poison = poisonNone
  · rw [if_pos hp]
    exact .of_books (hb.setPoison hr) ⟨hr, reason.code_ne_none⟩
      ⟨fun _ _ => rfl, fun hne => absurd hp hne⟩
  · rw [if_neg hp]
    exact .of_books hb ⟨hr, hp⟩ (Stable.refl m)

theorem advance_lawful {pc : Pc} (hb : Books t m (R + pc.solid t) (Q + pc.vowed)) (hok : pc.Ok t m)
    (h : advance t m pc = some (m', pc')) : Lawful t R Q m m' pc' := by
  cases pc with
  | idle | done ret => cases h
  | arriveHealthy leaf =>
    cases h
    refine .healthy (k := .arriveHealthy leaf) hb .arrive ?_ rfl ⟨hok, rfl⟩
    show copies 0 _ + callersSolid [] = 0
    rw [copies_zero]
    rfl
  | arrive leaf callers pc =>
    have hl : Lawful t R Q m (arriveStep t m leaf callers pc).1 (arriveStep t m leaf callers pc).2 :=
      arrive_lawful hb hok
    rwa [Option.some.inj h] at hl
  | arriveFinish leaf generation =>
    cases h
    have hmod : leaf % maxLeaves = leaf :=
      Nat.mod_eq_of_lt (hok.1.trans_le (layoutLeafCount_le t.nodes))
    rw [hmod]
    exact .healthy (k := .arriveFinish leaf generation) hb .arrive rfl rfl hok
  | departHealthy leaf generation =>
    cases h
    exact .healthy (k := .departHealthy leaf generation) hb .depart rfl rfl hok
  | depart pc =>
    cases h
    exact depart_lawful hb hok
  | departFinish =>
    cases h
    exact .healthy (k := .departFinish) hb .depart rfl rfl trivial
  | queryRoot =>
    cases h
    split_ifs <;> exact .keep (k := .queryRoot) hb rfl rfl trivial
  | scanNode index scan =>
    cases h
    split_ifs <;> exact .keep (k := .scanNode index scan) hb rfl rfl trivial
  | poison kind reason =>
    cases h
    exact poison_lawful hb hok
  | poisonReason kind reason =>
    cases h
    cases hr : PoisonReason.fromCode m.poison with
    | none => exact absurd (PoisonReason.fromCode_eq_none.mp hr) hok.2
    | some reason' => exact .fail (k := .poisonReason kind reason) hb kind hr
  | _ =>
    cases h
    exact .of_books hb trivial (Stable.refl m)

end DevHermit.Shmem.Snzi
