import DevHermit.Shmem.Csnzi.Move

namespace DevHermit.Shmem.Csnzi

open Lib CounterTree List Shmem.Tree Goes

variable {t : TreeSize} {sh sh' : Shared} {pc pc' : Pc} {count : UInt64}

theorem decrement_ne_zero (h : (count - 1).toNat + 1 = count.toNat) (h₁ : count ≠ 1) :
    count - 1 ≠ 0 := by
  intro hz
  rw [hz] at h
  exact h₁ (UInt64.toNat_inj.mp h.symm)

theorem reroot_leave {phase : RootPhase} (hd : decodeRoot sh.root = some (phase, count))
    (hp : phase.counts = true) (h₀ : count ≠ 0) (h₁ : count ≠ 1) (hroles : SameRoles pc pc') :
    Reroot sh pc (rootDecremented sh.root) pc' phase phase count (count - 1) ∧
      (count - 1).toNat + 1 = count.toNat := by
  obtain ⟨hafter, hcount⟩ := decodeRoot_rootDecremented hd hp h₀
  refine ⟨⟨hd, hafter, fun _ => decrement_ne_zero hcount h₁, id, ?_, ?_, ?_⟩, hcount⟩
  · rintro rfl
    cases hp
  · rw [hroles.tails]
  · rw [hroles.closers]

variable {d : DepartPc}

theorem Safe.departs (hs : Safe t sh pc) (weak : Bool) (hok : d.Ok t sh)
    (hmem : d.claim t ∈ pc.claims t) :
    DepartMove t sh d (departStep t sh weak d).1 (departStep t sh weak d).2 := by
  obtain ⟨phase, count, hroot, -⟩ := hs.root
  exact depart_move hok hs.poison hs.valid ⟨phase, count, hroot⟩ (hs.claims _ hmem) rfl

theorem depart_step {r : DepartResult} (hok : d.Ok t sh) (h : DepartMove t sh d sh' r) :
    Move t sh (.depart d) sh' (departReturn r) ∧ (departReturn r).Ok t sh' := by
  have hx := DepartPc.claim_valid sh hok
  have hclaims : (Pc.depart d).claims t = [d.claim t] := rfl
  cases h with
  | stay d' hclaim hok' =>
    refine move ⟨?_, ⟨rfl, rfl⟩, hok'⟩
    simp only [departReturn, Pc.claims, hclaim]
  | leave n state hs hn hd hne =>
    refine ⟨.leave n (d.claim t) state _ hx hs hd hne (fun y => ?_) ⟨rfl, rfl⟩, trivial⟩
    rw [hclaims, count_singleton_unit]
    exact (Nat.zero_add _).symm
  | retire n state hs hn hd hone =>
    refine ⟨.retire n (d.claim t) state _ hx hs hd hone (fun y => ?_) ⟨rfl, rfl⟩,
      departParent_ok _ hn⟩
    simp only [departReturn, Pc.claims, departParent_claim, count_singleton_unit]
    exact Nat.add_comm _ _
  | rootLeave phase count hs hd hp h₀ h₁ =>
    have hroles : SameRoles (.depart d) (.done (.departed .active)) := ⟨rfl, rfl⟩
    obtain ⟨hr, hcount⟩ := reroot_leave hd hp h₀ h₁ hroles
    refine ⟨.rootLeave (d.claim t) _ _ _ _ _ _ hx hs hr hcount (fun y => ?_), trivial⟩
    rw [hclaims, count_singleton_unit]
    exact (Nat.zero_add _).symm
  | rootTail phase phase' hs hd hphase =>
    have hr : Reroot sh (.depart d) phase'.status (.tailVerify 0) phase phase' 1 0 := by
      rcases hphase with ⟨rfl, rfl⟩ | ⟨rfl, rfl⟩ <;>
        exact ⟨hd, decodeRoot_status _, by simp, by decide, by simp, rfl, rfl⟩
    have hpos : 0 < t.nodes := by
      cases hd : d.claim t with
      | child k | token n =>
        rw [hd] at hx
        exact Nat.zero_lt_of_lt hx
    refine ⟨.rootLeave (d.claim t) _ _ _ _ _ _ hx hs hr rfl (fun y => ?_), hpos⟩
    rw [hclaims, count_singleton_unit]
    exact (Nat.zero_add _).symm

section

variable {leaf node : Nat} {callers : List Nat} {generation : UInt64}

theorem arriveReturn_claims (generation : UInt64) (h : Frames t leaf node callers) :
    (arriveReturn leaf callers generation).claims t = [arrivalClaim node callers] := by
  cases callers with
  | nil =>
    obtain ⟨-, rfl⟩ := h
    rfl
  | cons caller rest => rfl

theorem arriveReturn_roles : (arriveReturn leaf callers generation).tails = 0 ∧
    (arriveReturn leaf callers generation).closers = 0 := by
  cases callers <;> exact ⟨rfl, rfl⟩

theorem arriveReturn_ok (h : Frames t leaf node callers)
    (hg : callers = [] → nodeGeneration (sh.nodes node) = generation) :
    (arriveReturn leaf callers generation).Ok t sh := by
  cases callers with
  | nil =>
    obtain ⟨hl, rfl⟩ := h
    exact ⟨hl, hg rfl⟩
  | cons caller rest => exact h.2

theorem arriveReturn_sameRoles (h : pc.tails = 0 ∧ pc.closers = 0) :
    SameRoles pc (arriveReturn leaf callers generation) :=
  ⟨arriveReturn_roles.1.trans h.1.symm, arriveReturn_roles.2.trans h.2.symm⟩

variable {state : UInt64}

theorem generation_setNode_departed {n m : Nat} (h : Departed (sh.nodes n) state) :
    nodeGeneration ((sh.setNode n state).nodes m) = nodeGeneration (sh.nodes m) := by
  by_cases hm : m = n
  · subst hm
    simpa [Shared.setNode] using h.generation
  · simp [Shared.setNode, Function.update_of_ne hm]

theorem compensate_step {d : DepartPc} {r : DepartResult}
    (hok : ArrivePc.Ok t sh leaf callers (.compensate node generation d))
    (hred : 2 ≤ counts sh (parent node)) (h : DepartMove t sh d sh' r) :
    Move t sh (.arrive leaf callers (.compensate node generation d)) sh'
        (compensateReturn leaf callers node generation r) ∧
      (compensateReturn leaf callers node generation r).Ok t sh' := by
  obtain ⟨hf, hd, hclaim, hg⟩ := hok
  have hx : (Claim.child node).Valid t.nodes := hf.lt
  have hloss : ∀ y, ((Pc.arrive leaf callers (.compensate node generation d)).claims t).count y =
      ((arriveReturn leaf callers generation).claims t).count y + unit (.child node) y := by
    intro y
    rw [arriveReturn_claims generation hf]
    simp only [Pc.claims, ArrivePc.claims, hclaim, count_cons_unit, count_nil]
    omega
  have hroles : SameRoles (.arrive leaf callers (.compensate node generation d))
      (arriveReturn leaf callers generation) := arriveReturn_sameRoles ⟨rfl, rfl⟩
  cases h with
  | stay d' hsame hok' =>
    refine move ⟨?_, ⟨rfl, rfl⟩, hf, hok', hsame.trans hclaim, hg⟩
    simp only [compensateReturn, Pc.claims, ArrivePc.claims, hsame]
  | leave n state hs hn hdep hne =>
    rw [hclaim] at hs
    refine ⟨.leave n (.child node) state _ hx hs hdep hne hloss hroles,
      arriveReturn_ok hf fun hnil => ?_⟩
    rw [generation_setNode_departed hdep]
    exact hg hnil
  | retire n state hs hn hdep hone =>
    rw [hclaim] at hs
    have hs' : parent node = some n := hs
    rw [hs', counts, hone] at hred
    exact absurd hred (by decide)
  | rootLeave phase count hs hdec hp h₀ h₁ =>
    rw [hclaim] at hs
    obtain ⟨hr, hcount⟩ := reroot_leave hdec hp h₀ h₁ hroles
    exact ⟨.rootLeave (.child node) _ _ _ _ _ _ hx hs hr hcount hloss,
      arriveReturn_ok hf fun hnil => hg hnil⟩
  | rootTail phase phase' hs hdec hphase =>
    rw [hclaim] at hs
    have hs' : parent node = none := hs
    rw [hs', counts_none_of_decode sh hdec] at hred
    exact absurd hred (by decide)

variable {arrived : Bool}

theorem arrive_cas_step (hstate : sh.nodes node = state)
    (hok : ArrivePc.Ok t sh leaf callers (.cas node arrived state)) :
    Move t sh (.arrive leaf callers (.cas node arrived state)) (sh.setNode node (incremented state))
        (if arrived = true ∧ nodeCount state ≠ 0 then
          .arrive leaf callers (.compensate node (nextGeneration state) (departParent node))
        else arriveReturn leaf callers (nextGeneration state)) ∧
      Pc.Ok t (sh.setNode node (incremented state)) (if arrived = true ∧ nodeCount state ≠ 0 then
          .arrive leaf callers (.compensate node (nextGeneration state) (departParent node))
        else arriveReturn leaf callers (nextGeneration state)) := by
  subst hstate
  obtain ⟨hf, hv, hidle, hmax⟩ := hok
  have harr := incremented_spec hv hmax
  have hgen : nodeGeneration ((sh.setNode node (incremented (sh.nodes node))).nodes node) =
      nextGeneration (sh.nodes node) := by
    simpa [Shared.setNode] using harr.generation
  split_ifs with hcomp
  · obtain ⟨rfl, hc⟩ := hcomp
    refine ⟨.join node (arrivalClaim node callers) _ _ hf.valid hf.site harr hc (fun y => ?_)
      ⟨rfl, rfl⟩, hf, departParent_ok _ hf.lt, departParent_claim t node, fun _ => hgen⟩
    simp only [Pc.claims, ArrivePc.claims, departParent_claim, count_cons_unit, count_nil, if_true]
  · have hret := arriveReturn_claims (nextGeneration (sh.nodes node)) hf
    have hok' := arriveReturn_ok hf fun _ => hgen
    have hroles : SameRoles (.arrive leaf callers (.cas node arrived (sh.nodes node)))
        (arriveReturn leaf callers (nextGeneration (sh.nodes node))) :=
      arriveReturn_sameRoles ⟨rfl, rfl⟩
    cases arrived with
    | true =>
      have hc : nodeCount (sh.nodes node) = 0 := by simpa using hcomp
      refine ⟨.publish node (arrivalClaim node callers) _ _ hf.valid hf.site harr hc
        (fun y => ?_) hroles, hok'⟩
      rw [hret]
      simp only [Pc.claims, ArrivePc.claims, count_singleton_unit, if_true]
      exact Nat.add_comm _ _
    | false =>
      have hc : nodeCount (sh.nodes node) ≠ 0 := by simpa using hidle
      refine ⟨.join node (arrivalClaim node callers) _ _ hf.valid hf.site harr hc
        (fun y => ?_) hroles, hok'⟩
      rw [hret, count_singleton_unit]
      exact (Nat.zero_add _).symm

theorem arriveDecide_goes (hf : Frames t leaf node callers) (hv : validNodeState state = true) :
    Goes t sh (.arrive leaf callers (.load node arrived))
      (arriveDecide leaf callers node arrived state) := by
  rw [arriveDecide, if_neg (by simp [hv])]
  split_ifs with hidle hmax harr
  · obtain ⟨-, rfl⟩ := hidle
    rw [arriveParent]
    cases hp : parent node with
    | none | some up => exact ⟨rfl, ⟨rfl, rfl⟩, hp, hf⟩
  · exact ⟨rfl, ⟨rfl, rfl⟩, hf⟩
  · have ha : arrived = false := by simpa using harr
    subst ha
    exact ⟨rfl, ⟨rfl, rfl⟩, trivial⟩
  · exact ⟨rfl, ⟨rfl, rfl⟩, hf, hv, hidle, hmax⟩

variable {root : UInt64}

theorem rootArriveDecide_goes (hf : RootFrames t leaf callers) (hsome : (decodeRoot root).isSome)
    (hclosed : isClosed root → isClosed sh.root) :
    Goes t sh (.arrive leaf callers (.rootHealthy root)) (rootArriveDecide leaf callers root) := by
  obtain ⟨⟨phase, count⟩, hd⟩ := Option.isSome_iff_exists.mp hsome
  have hshut : phase.isClosed = true → CsnziError.Rejects sh .closed :=
    fun hp => hclosed ((isClosed_iff hd).mpr hp)
  rw [rootArriveDecide, hd]
  cases phase with
  | opened =>
    simp only
    split_ifs with hmax
    · exact ⟨rfl, ⟨rfl, rfl⟩, trivial⟩
    · exact ⟨rfl, ⟨rfl, rfl⟩, hf, _, _, hd, rfl, nofun, hmax⟩
  | closed =>
    simp only
    split_ifs with hz hmax
    · exact ⟨rfl, ⟨rfl, rfl⟩, hshut rfl⟩
    · exact ⟨rfl, ⟨rfl, rfl⟩, trivial⟩
    · exact ⟨rfl, ⟨rfl, rfl⟩, hf, _, _, hd, rfl, fun _ => hz, hmax⟩
  | closing => exact ⟨rfl, ⟨rfl, rfl⟩, hshut rfl⟩
  | openTail => exact ⟨rfl, ⟨rfl, rfl⟩, trivial⟩
  | _ => exact ⟨rfl, ⟨rfl, rfl⟩, hshut rfl⟩

theorem root_cas_step (hroot : sh.root = root)
    (hok : ArrivePc.Ok t sh leaf callers (.rootCas root)) :
    Move t sh (.arrive leaf callers (.rootCas root)) (sh.setRoot (rootIncremented root))
        (arriveReturn leaf callers 0) ∧
      (arriveReturn leaf callers 0).Ok t (sh.setRoot (rootIncremented root)) := by
  subst hroot
  obtain ⟨hf, phase, count, hd, hp, hbusy, hmax⟩ := hok
  obtain ⟨hafter, hcount⟩ := decodeRoot_rootIncremented hd hp hmax
  cases callers with
  | nil => exact hf.elim
  | cons caller rest =>
    have hr : Reroot sh (.arrive leaf (caller :: rest) (.rootCas sh.root))
        (rootIncremented sh.root) (arriveReturn leaf (caller :: rest) 0) phase phase count
        (count + 1) := by
      refine ⟨hd, hafter, fun _ hz => ?_, id, ?_, rfl, rfl⟩
      · rw [hz] at hcount
        exact absurd hcount (by simp)
      · rintro rfl
        cases hp
    refine ⟨.rootJoin (.child caller) _ _ _ _ _ _ hf.2.lt hf.1 hr hcount (fun y => ?_), hf.2⟩
    simp only [arriveReturn, Pc.claims, ArrivePc.claims, if_true, count_singleton_unit]
    exact (Nat.zero_add _).symm

theorem arrive_step {a : ArrivePc} {weak : Bool} (hs : Safe t sh (.arrive leaf callers a))
    (hok : a.Ok t sh leaf callers) (h : arriveStep t sh weak leaf callers a = (sh', pc')) :
    Move t sh (.arrive leaf callers a) sh' pc' ∧ pc'.Ok t sh' := by
  obtain ⟨phase, count, hroot, -⟩ := hs.root
  cases a with
  | healthy node arrived =>
    simp only [arriveStep, ensureHealthy_of_healthy hs.poison] at h
    cases h
    exact move ⟨rfl, ⟨rfl, rfl⟩, hok⟩
  | load node arrived =>
    simp only [arriveStep] at h
    cases h
    exact (arriveDecide_goes hok (hs.valid node)).move
  | cas node arrived state =>
    rw [arriveStep] at h
    split at h <;> cases h
    · rename_i hcas
      exact arrive_cas_step hcas.2 hok
    · exact move ⟨rfl, ⟨rfl, rfl⟩, hok.1⟩
  | rootLoad =>
    simp only [arriveStep] at h
    cases h
    exact move ⟨rfl, ⟨rfl, rfl⟩, hok, by simp [hroot], id⟩
  | rootHealthy root =>
    simp only [arriveStep, ensureHealthy_of_healthy hs.poison] at h
    cases h
    exact (rootArriveDecide_goes hok.1 hok.2.1 hok.2.2).move
  | rootCas root =>
    rw [arriveStep] at h
    split at h <;> cases h
    · rename_i hcas
      exact root_cas_step hcas.2 hok
    · exact move ⟨rfl, ⟨rfl, rfl⟩, hok.1, by simp [hroot], id⟩
  | compensate node generation d =>
    have hd := hs.departs weak hok.2.1 (by simp [Pc.claims, ArrivePc.claims])
    rw [arriveStep] at h
    cases h
    exact compensate_step hok (hs.redundant _ _ _ _ _ rfl) hd

end

theorem observeOpenDecide_goes {leaf : Nat} (hl : leaf < layoutLeafCount t.nodes)
    (hroot : ∃ phase count, decodeRoot sh.root = some (phase, count)) :
    Goes t sh (.observeOpen leaf) (observeOpenDecide t leaf sh.root) := by
  obtain ⟨phase, count, hd⟩ := hroot
  have hshut : phase.isClosed = true → CsnziError.Rejects sh .closed := (isClosed_iff hd).mpr
  rw [observeOpenDecide, hd]
  cases phase with
  | opened => exact ⟨rfl, ⟨rfl, rfl⟩, hl, rfl⟩
  | openTail => exact ⟨rfl, ⟨rfl, rfl⟩, trivial⟩
  | _ => exact ⟨rfl, ⟨rfl, rfl⟩, hshut rfl⟩

theorem closeDecide_goes (hc : pc.claims t = []) (hr : pc.tails = 0 ∧ pc.closers = 0)
    (hroot : ∃ phase count, decodeRoot sh.root = some (phase, count)) :
    Goes t sh pc (closeDecide sh.root) := by
  obtain ⟨phase, count, hd⟩ := hroot
  have hshut : phase.isClosed = true → isClosed sh.root := (isClosed_iff hd).mpr
  have hroles : ∀ pc', pc'.tails = 0 → pc'.closers = 0 → SameRoles pc pc' :=
    fun _ h₁ h₂ => ⟨h₁.trans hr.1.symm, h₂.trans hr.2.symm⟩
  rw [closeDecide, hd]
  cases phase with
  | opened => exact ⟨hc.symm, hroles _ rfl rfl, _, _, hd, .inl rfl⟩
  | openTail => exact ⟨hc.symm, hroles _ rfl rfl, _, _, hd, .inr rfl⟩
  | _ => exact ⟨hc.symm, hroles _ rfl rfl, hshut rfl⟩

theorem verifyNode_cases (t : TreeSize) (kind : Kind) {index : Nat} (next : Nat → Pc) (finish : Pc)
    (hv : validNodeState (sh.nodes index) = true) (hc : nodeCount (sh.nodes index) = 0) :
    (index + 1 < t.nodes ∧ verifyNode t sh kind index next finish = next (index + 1)) ∨
      verifyNode t sh kind index next finish = finish := by
  simp only [verifyNode, hv, hc, Bool.true_eq_false, if_false, ne_eq, not_true_eq_false]
  split_ifs with hlt
  · exact .inl ⟨hlt, rfl⟩
  · exact .inr rfl

variable {root : UInt64}

theorem tailDecide_of_tailRoot (h : TailRoot root) : tailDecide root = .tailCas root := by
  obtain ⟨phase, hd, hp⟩ := h
  simp [tailDecide, hd, hp]

theorem tail_cas_step (hroot : sh.root = root) (h : TailRoot root) :
    Move t sh (.tailCas root) (sh.setRoot (tailSeal root).1)
      (.done (.departed (tailSeal root).2)) := by
  subst hroot
  obtain ⟨phase, hd, hp⟩ := h
  cases phase with
  | openTail =>
    have hseal : tailSeal sh.root = (rootOpen, .active) := by rw [tailSeal, hd]
    rw [hseal]
    exact .reroot _ _ .openTail .opened 0
      ⟨hd, decodeRoot_status .opened, nofun, nofun, nofun, rfl, rfl⟩ fun _ => rfl
  | closedTail =>
    have hseal : tailSeal sh.root = (rootDrained, .drained) := by rw [tailSeal, hd]
    rw [hseal]
    exact .reroot _ _ .closedTail .drained 0
      ⟨hd, decodeRoot_status .drained, nofun, fun _ => rfl, nofun, rfl, rfl⟩ fun _ => rfl
  | _ => cases hp

theorem close_cas_step (hroot : sh.root = root) (h : Closeable root) (hpos : 0 < t.nodes) :
    Move t sh (.closeCas root) (sh.setRoot (closeClaim root).1) (closeClaim root).2 ∧
      (closeClaim root).2.Ok t (sh.setRoot (closeClaim root).1) := by
  subst hroot
  obtain ⟨phase, count, hd, rfl | rfl⟩ := h
  · by_cases hz : count = 0
    · subst hz
      have hclaim : closeClaim sh.root = (rootClosing, .closeVerify 0) := by simp [closeClaim, hd]
      rw [hclaim]
      exact ⟨.reroot _ _ .opened .closing 0
        ⟨hd, decodeRoot_status .closing, nofun, nofun, nofun, rfl, rfl⟩
          fun _ => rfl, hpos⟩
    · have hclaim : closeClaim sh.root = (rootClosed ||| count, .done (.closed .pending)) := by
        simp [closeClaim, hd, hz]
      rw [hclaim]
      exact ⟨.reroot _ _ .opened .closed count
        ⟨hd, decodeRoot_closed hd, fun _ => hz, nofun, nofun, rfl, rfl⟩
          fun _ => rfl, trivial⟩
  · have hclaim : closeClaim sh.root = (rootClosedTail, .done (.closed .pending)) := by
      simp [closeClaim, hd]
    have hz : count = 0 := (rootIs_of_decode hd).empty rfl
    subst hz
    rw [hclaim]
    exact ⟨.reroot _ _ .openTail .closedTail 0
      ⟨hd, decodeRoot_status .closedTail, nofun, nofun, nofun, rfl, rfl⟩
        fun _ => rfl, trivial⟩

theorem return_step {ret : Ret} : Move t sh (.done ret) (returned sh ret) .idle := by
  cases ret with
  | entered token =>
    refine .quiet _ _ rfl rfl rfl (fun u hu => ?_) (fun x => ?_) ⟨rfl, rfl⟩
    · rcases mem_cons.mp hu with rfl | hu
      · exact .inr rfl
      · exact .inl hu
    · simp only [hold, pooled, returned, Pc.claims, Ret.claims, map_cons, count_cons_unit,
        count_nil]
      omega
  | _ => exact .quiet _ _ rfl rfl rfl (fun _ hu => .inl hu) (fun _ => rfl) ⟨rfl, rfl⟩

theorem size_pos (t : TreeSize) : 0 < t.nodes := by
  have h := t.valid
  by_contra hz
  have hn : t.nodes = 0 := by omega
  rw [hn] at h
  exact absurd h (by decide)

theorem advance_step {weak : Bool} (hs : Safe t sh pc) (hok : pc.Ok t sh)
    (h : advance t sh weak pc = some (sh', pc')) : Move t sh pc sh' pc' ∧ pc'.Ok t sh' := by
  obtain ⟨phase, count, hroot, -⟩ := hs.root
  cases pc with
  | idle => cases h
  | enterHealthy leaf =>
    simp only [advance, ensureHealthy_of_healthy hs.poison] at h
    cases h
    exact move ⟨rfl, ⟨rfl, rfl⟩, hok⟩
  | observeOpen leaf =>
    cases h
    exact (observeOpenDecide_goes hok ⟨phase, count, hroot⟩).move
  | arrive leaf callers a => exact arrive_step hs hok (Option.some.inj h)
  | enterFinish leaf generation =>
    simp only [advance, ensureHealthy_of_healthy hs.poison] at h
    cases h
    have hmod : leaf % maxLeaves = leaf := Nat.mod_eq_of_lt (hok.1.trans_le (layoutLeafCount_le _))
    rw [hmod]
    exact move ⟨rfl, ⟨rfl, rfl⟩, hok⟩
  | departHealthy leaf generation =>
    simp only [advance, ensureHealthy_of_healthy hs.poison] at h
    cases h
    exact move ⟨rfl, ⟨rfl, rfl⟩, hok⟩
  | depart d =>
    have hd := hs.departs weak hok (mem_singleton.mpr rfl)
    rw [advance] at h
    cases h
    exact depart_step hok hd
  | tailVerify index =>
    cases h
    rcases verifyNode_cases t .depart .tailVerify .tailLoad
      (hs.valid index) ((hs.tail rfl).2 index hok) with ⟨hlt, he⟩ | he
    · simp only [he]
      exact move ⟨rfl, ⟨rfl, rfl⟩, hlt⟩
    · simp only [he]
      exact move ⟨rfl, ⟨rfl, rfl⟩, trivial⟩
  | tailLoad =>
    cases h
    exact move ⟨rfl, ⟨rfl, rfl⟩, (hs.tail rfl).1⟩
  | tailHealthy root =>
    simp only [advance, ensureHealthy_of_healthy hs.poison, tailDecide_of_tailRoot hok] at h
    cases h
    exact move ⟨rfl, ⟨rfl, rfl⟩, hok⟩
  | tailCas root =>
    rw [advance] at h
    split at h <;> cases h
    · rename_i hcas
      exact ⟨tail_cas_step hcas.2 hok, trivial⟩
    · exact move ⟨rfl, ⟨rfl, rfl⟩, (hs.tail rfl).1⟩
  | closeHealthy =>
    simp only [advance, ensureHealthy_of_healthy hs.poison] at h
    cases h
    exact move ⟨rfl, ⟨rfl, rfl⟩, trivial⟩
  | closeLoad =>
    cases h
    exact (closeDecide_goes rfl ⟨rfl, rfl⟩ ⟨phase, count, hroot⟩).move
  | closeCas root =>
    rw [advance] at h
    split at h <;> cases h
    · rename_i hcas
      exact close_cas_step hcas.2 hok (size_pos t)
    · exact (closeDecide_goes rfl ⟨rfl, rfl⟩ ⟨phase, count, hroot⟩).move
  | closeVerify index =>
    cases h
    rcases verifyNode_cases t .close .closeVerify .closeSeal
      (hs.valid index) ((hs.closer rfl).2 index hok) with ⟨hlt, he⟩ | he
    · simp only [he]
      exact move ⟨rfl, ⟨rfl, rfl⟩, hlt⟩
    · simp only [he]
      exact move ⟨rfl, ⟨rfl, rfl⟩, trivial⟩
  | closeSeal =>
    have hclosing := (hs.closer rfl).1
    rw [advance, if_pos hclosing] at h
    cases h
    refine ⟨.reroot rootDrained _ .closing .drained 0 ?_ fun _ => rfl, trivial⟩
    exact ⟨hclosing ▸ decodeRoot_status .closing, decodeRoot_status .drained, nofun,
      fun _ => rfl, nofun, rfl, rfl⟩
  | drainedRoot =>
    cases h
    by_cases hd : sh.root = rootDrained
    · simp only [hd, if_true]
      exact move ⟨rfl, ⟨rfl, rfl⟩, hd⟩
    · simp only [hd, if_false]
      exact move ⟨rfl, ⟨rfl, rfl⟩, trivial⟩
  | drainedPoison =>
    cases h
    simp only [hs.poison, decide_true]
    exact move ⟨rfl, ⟨rfl, rfl⟩, hok⟩
  | queryRoot =>
    cases h
    by_cases hq : queryRoot sh.root = true
    · simp only [hq, if_true]
      exact move ⟨rfl, ⟨rfl, rfl⟩, trivial⟩
    · simp only [hq]
      exact move ⟨rfl, ⟨rfl, rfl⟩, trivial⟩
  | queryPoison =>
    cases h
    exact move ⟨rfl, ⟨rfl, rfl⟩, trivial⟩
  | poison kind reason | poisonReason kind reason => exact hok.elim
  | done ret =>
    cases h
    exact ⟨return_step, trivial⟩

variable {token : Token}

theorem departToken_eq (h : token.leaf < layoutLeafCount t.nodes) :
    departToken t token = .departHealthy token.leaf token.generation := by
  simp [departToken, leafNode, Nat.not_le.mpr h]

theorem start_depart_step (hs : Safe t sh .idle) (htok : token ∈ sh.tokens) :
    Move t sh .idle { sh with tokens := sh.tokens.erase token } (departToken t token) ∧
      (departToken t token).Ok t { sh with tokens := sh.tokens.erase token } := by
  have hissued := (hs.tokens token htok).1
  rw [departToken_eq hissued.1]
  refine ⟨.quiet _ _ rfl rfl rfl (fun u hu => .inl (mem_of_mem_erase hu)) (fun x => ?_)
    ⟨rfl, rfl⟩, hissued⟩
  have hperm := ((perm_cons_erase htok).map fun u => leafClaim t u.leaf).count_eq x
  simp only [map_cons, count_cons_unit] at hperm
  simp only [hold, pooled, Pc.claims, count_singleton_unit, count_nil]
  omega

theorem decodeRaw_issued (hs : Safe t sh .idle) (htok : token ∈ sh.tokens) :
    decodeRaw token.intoRaw = some token := by
  obtain ⟨⟨hleaf, hgen⟩, hcount⟩ := hs.tokens token htok
  refine decodeRaw_intoRaw (hleaf.trans_le (layoutLeafCount_le _)) ?_ ?_
  · rw [← hgen]
    exact nodeGeneration_lt _
  · rw [← hgen]
    exact validNodeState_generation (hs.valid _) hcount

theorem start_step (hs : Safe t sh .idle) {op : Op} (h : start t sh op = some (sh', pc')) :
    Move t sh .idle sh' pc' ∧ pc'.Ok t sh' := by
  cases op with
  | tryEnter leaf =>
    by_cases hleaf : layoutLeafCount t.nodes ≤ leaf
    · simp only [start, leafNode, hleaf, if_true] at h
      cases h
      exact move ⟨rfl, ⟨rfl, rfl⟩, trivial⟩
    · simp only [start, leafNode, hleaf, if_false] at h
      cases h
      exact move ⟨rfl, ⟨rfl, rfl⟩, Nat.not_le.mp hleaf⟩
  | depart token =>
    rw [start] at h
    split_ifs at h with htok
    cases h
    exact start_depart_step hs htok
  | departRaw token =>
    rw [start] at h
    split_ifs at h with htok
    rw [decodeRaw_issued hs htok] at h
    cases h
    exact start_depart_step hs htok
  | _ =>
    cases h
    exact move ⟨rfl, ⟨rfl, rfl⟩, trivial⟩

theorem step_move {i : In} (hs : Safe t sh pc) (hok : pc.Ok t sh)
    (h : step t sh pc i = some (sh', pc')) : Move t sh pc sh' pc' ∧ pc'.Ok t sh' := by
  cases i with
  | call op =>
    rw [step] at h
    split_ifs at h with hidle
    subst hidle
    exact start_step hs h
  | go | spurious => exact advance_step hs hok h

end DevHermit.Shmem.Csnzi
