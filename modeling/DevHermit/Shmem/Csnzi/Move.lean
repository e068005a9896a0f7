import DevHermit.Shmem.Csnzi.Claims

namespace DevHermit.Shmem.Csnzi

open Lib CounterTree

structure Safe (t : TreeSize) (sh : Shared) (pc : Pc) : Prop where
  poison : sh.poison = poisonNone
  valid : ∀ n, validNodeState (sh.nodes n) = true
  root : ∃ phase count, decodeRoot sh.root = some (phase, count) ∧ (phase = .closed → count ≠ 0)
  claims : ∀ x ∈ pc.claims t, counts sh (site Tree.parent x) ≠ 0
  redundant : ∀ leaf callers node generation d,
    pc = .arrive leaf callers (.compensate node generation d) → 2 ≤ counts sh (Tree.parent node)
  tail : pc.tails = 1 → TailRoot sh.root ∧ ∀ n, n < t.nodes → nodeCount (sh.nodes n) = 0
  closer : pc.closers = 1 →
    sh.root = rootClosing ∧ ∀ n, n < t.nodes → nodeCount (sh.nodes n) = 0
  tokens : ∀ token ∈ sh.tokens, Issued t sh token.leaf token.generation ∧
    nodeCount (sh.nodes (Tree.leafStart t.nodes + token.leaf)) ≠ 0

structure SameRoles (pc pc' : Pc) : Prop where
  tails : pc'.tails = pc.tails
  closers : pc'.closers = pc.closers

def tailRole (phase : RootPhase) : Nat := if phase.isTail then 1 else 0

def closerRole (phase : RootPhase) : Nat := if phase = .closing then 1 else 0

structure Reroot (sh : Shared) (pc : Pc) (root : UInt64) (pc' : Pc) (phase phase' : RootPhase)
    (count count' : UInt64) : Prop where
  before : decodeRoot sh.root = some (phase, count)
  after : decodeRoot root = some (phase', count')
  busy : phase' = .closed → count' ≠ 0
  closed : phase.isClosed = true → phase'.isClosed = true
  undrained : phase ≠ .drained
  tails : pc'.tails + tailRole phase = pc.tails + tailRole phase'
  closers : pc'.closers + closerRole phase = pc.closers + closerRole phase'

def Shared.setNode (sh : Shared) (n : Nat) (state : UInt64) : Shared :=
  { sh with nodes := Function.update sh.nodes n state }

def Shared.setRoot (sh : Shared) (root : UInt64) : Shared := { sh with root := root }

inductive Move (t : TreeSize) (sh : Shared) (pc : Pc) : Shared → Pc → Prop where
  | quiet (sh' : Shared) (pc' : Pc) : sh'.root = sh.root → sh'.nodes = sh.nodes →
      sh'.poison = sh.poison →
      (∀ token ∈ sh'.tokens, token ∈ sh.tokens ∨ pc = .done (.entered token)) →
      (∀ x, hold t sh' pc' x = hold t sh pc x) → SameRoles pc pc' → Move t sh pc sh' pc'
  | join (n : Nat) (x : Claim) (state : UInt64) (pc' : Pc) : x.Valid t.nodes →
      site Tree.parent x = some n → Arrived (sh.nodes n) state → nodeCount (sh.nodes n) ≠ 0 →
      (∀ y, (pc'.claims t).count y = (pc.claims t).count y + unit x y) → SameRoles pc pc' →
      Move t sh pc (sh.setNode n state) pc'
  | publish (n : Nat) (x : Claim) (state : UInt64) (pc' : Pc) : x.Valid t.nodes →
      site Tree.parent x = some n → Arrived (sh.nodes n) state → nodeCount (sh.nodes n) = 0 →
      (∀ y, (pc'.claims t).count y + unit (.child n) y = (pc.claims t).count y + unit x y) →
      SameRoles pc pc' → Move t sh pc (sh.setNode n state) pc'
  | leave (n : Nat) (x : Claim) (state : UInt64) (pc' : Pc) : x.Valid t.nodes →
      site Tree.parent x = some n → Departed (sh.nodes n) state →
      nodeCount (sh.nodes n) ≠ 1 →
      (∀ y, (pc.claims t).count y = (pc'.claims t).count y + unit x y) → SameRoles pc pc' →
      Move t sh pc (sh.setNode n state) pc'
  | retire (n : Nat) (x : Claim) (state : UInt64) (pc' : Pc) : x.Valid t.nodes →
      site Tree.parent x = some n → Departed (sh.nodes n) state → nodeCount (sh.nodes n) = 1 →
      (∀ y, (pc.claims t).count y + unit (.child n) y = (pc'.claims t).count y + unit x y) →
      SameRoles pc pc' → Move t sh pc (sh.setNode n state) pc'
  | rootJoin (x : Claim) (root : UInt64) (pc' : Pc) (phase phase' : RootPhase)
      (count count' : UInt64) : x.Valid t.nodes → site Tree.parent x = none →
      Reroot sh pc root pc' phase phase' count count' → count'.toNat = count.toNat + 1 →
      (∀ y, (pc'.claims t).count y = (pc.claims t).count y + unit x y) →
      Move t sh pc (sh.setRoot root) pc'
  | rootLeave (x : Claim) (root : UInt64) (pc' : Pc) (phase phase' : RootPhase)
      (count count' : UInt64) : x.Valid t.nodes → site Tree.parent x = none →
      Reroot sh pc root pc' phase phase' count count' → count'.toNat + 1 = count.toNat →
      (∀ y, (pc.claims t).count y = (pc'.claims t).count y + unit x y) →
      Move t sh pc (sh.setRoot root) pc'
  | reroot (root : UInt64) (pc' : Pc) (phase phase' : RootPhase) (count : UInt64) :
      Reroot sh pc root pc' phase phase' count count →
      (∀ y, (pc'.claims t).count y = (pc.claims t).count y) →
      Move t sh pc (sh.setRoot root) pc'

theorem count_cons_unit (x y : Claim) (l : List Claim) :
    (x :: l).count y = l.count y + unit x y := by
  rw [List.count_cons, unit]
  by_cases h : x = y
  · simp [h]
  · simp [h, Ne.symm h]

theorem count_singleton_unit (x y : Claim) : [x].count y = unit x y := by
  rw [count_cons_unit, List.count_nil, Nat.zero_add]

structure Goes (t : TreeSize) (sh : Shared) (pc pc' : Pc) : Prop where
  claims : pc'.claims t = pc.claims t
  roles : SameRoles pc pc'
  ok : pc'.Ok t sh

theorem Goes.move {t : TreeSize} {sh : Shared} {pc pc' : Pc} (h : Goes t sh pc pc') :
    Move t sh pc sh pc' ∧ pc'.Ok t sh :=
  ⟨.quiet sh pc' rfl rfl rfl (fun _ h => .inl h) (fun x => by simp only [hold, h.claims]) h.roles,
    h.ok⟩

section

variable {t : TreeSize} {sh : Shared}

theorem ensureHealthy_of_healthy (h : sh.poison = poisonNone) (kind : Kind) (next : Pc) :
    ensureHealthy sh kind next = next := by
  simp [ensureHealthy, h, CsnziPoisonReason.fromCode]

theorem departHealthy_of_healthy (h : sh.poison = poisonNone) (next : DepartResult) :
    departHealthy sh next = next := by
  simp [departHealthy, h, CsnziPoisonReason.fromCode]

variable {count : UInt64} {phase : RootPhase}

theorem isClosed_iff {root : UInt64} (h : decodeRoot root = some (phase, count)) :
    isClosed root ↔ phase.isClosed = true := by
  constructor
  · rintro ⟨phase', count', h', hc⟩
    obtain ⟨rfl, -⟩ := decodeRoot_unique h h'
    exact hc
  · exact fun hc => ⟨phase, count, h, hc⟩

theorem counts_none_of_decode (sh : Shared) (h : decodeRoot sh.root = some (phase, count)) :
    counts sh none = count.toNat := by
  rw [counts, (rootIs_of_decode h).field]

end

inductive DepartMove (t : TreeSize) (sh : Shared) (d : DepartPc) :
    Shared → DepartResult → Prop where
  | stay (d' : DepartPc) : d'.claim t = d.claim t → d'.Ok t sh → DepartMove t sh d sh (.next d')
  | leave (n : Nat) (state : UInt64) : site Tree.parent (d.claim t) = some n → n < t.nodes →
      Departed (sh.nodes n) state → nodeCount (sh.nodes n) ≠ 1 →
      DepartMove t sh d (sh.setNode n state) .active
  | retire (n : Nat) (state : UInt64) : site Tree.parent (d.claim t) = some n → n < t.nodes →
      Departed (sh.nodes n) state → nodeCount (sh.nodes n) = 1 →
      DepartMove t sh d (sh.setNode n state) (.next (departParent n))
  | rootLeave (phase : RootPhase) (count : UInt64) : site Tree.parent (d.claim t) = none →
      decodeRoot sh.root = some (phase, count) → phase.counts = true → count ≠ 0 → count ≠ 1 →
      DepartMove t sh d (sh.setRoot (rootDecremented sh.root)) .active
  | rootTail (phase phase' : RootPhase) : site Tree.parent (d.claim t) = none →
      decodeRoot sh.root = some (phase, 1) →
      (phase = .opened ∧ phase' = .openTail ∨ phase = .closed ∧ phase' = .closedTail) →
      DepartMove t sh d (sh.setRoot phase'.status) .tail

variable {t : TreeSize} {sh : Shared} {phase : RootPhase}

theorem departable_of_busy {count : UInt64} (hr : decodeRoot sh.root = some (phase, count))
    (hc : counts sh none ≠ 0) : Departable sh.root := by
  have hne : count ≠ 0 := by
    rintro rfl
    exact hc (counts_none_of_decode sh hr)
  refine ⟨phase, count, hr, ?_, hne⟩
  by_contra hp
  exact hne ((rootIs_of_decode hr).empty (by simpa using hp))

theorem departDecide_stay {target : Target} (hok : target.Ok t sh)
    (hv : validNodeState (sh.nodes (target.node t)) = true)
    (hc : nodeCount (sh.nodes (target.node t)) ≠ 0) :
    departDecide target (sh.nodes (target.node t)) =
      .next (.cas target (sh.nodes (target.node t))) := by
  cases target with
  | token leaf generation =>
    have hg : nodeGeneration (sh.nodes (Target.node t (.token leaf generation))) = generation :=
      hok.2
    simp only [departDecide, hv, hg, hc, Bool.true_eq_false, if_false, ne_eq, not_true_eq_false]
  | inner child up => simp only [departDecide, hv, hc, Bool.true_eq_false, if_false]

variable {root : UInt64}

theorem rootDepartDecide_stay {child : Nat} (h : Departable root) :
    rootDepartDecide child root = .next (.rootCas child root) := by
  obtain ⟨phase, count, hd, hp, hc⟩ := h
  simp only [rootDepartDecide, hd, hp, hc, Bool.true_eq_false, or_self, if_false]

theorem rootDepartNext_tail (hd : decodeRoot root = some (phase, 1)) (hp : phase.counts = true) :
    ∃ phase' : RootPhase, (phase = .opened ∧ phase' = .openTail ∨ phase = .closed ∧ phase' = .closedTail) ∧
      rootDepartNext root = phase'.status := by
  have hone : root &&& rootCountMask = 1 := (rootIs_of_decode hd).field
  cases phase with
  | opened => exact ⟨.openTail, .inl ⟨rfl, rfl⟩, by simp [rootDepartNext, hone, hd]; rfl⟩
  | closed => exact ⟨.closedTail, .inr ⟨rfl, rfl⟩, by simp [rootDepartNext, hone, hd]; rfl⟩
  | _ => cases hp

theorem depart_move {d : DepartPc} {sh' : Shared} {r : DepartResult} {weak : Bool}
    (hok : d.Ok t sh) (hpoison : sh.poison = poisonNone)
    (hvalid : ∀ n, validNodeState (sh.nodes n) = true)
    (hroot : ∃ phase count, decodeRoot sh.root = some (phase, count))
    (hc : counts sh (site Tree.parent (d.claim t)) ≠ 0)
    (h : departStep t sh weak d = (sh', r)) : DepartMove t sh d sh' r := by
  obtain ⟨phase, count, hr⟩ := hroot
  cases d with
  | healthy target =>
    simp only [departStep, departHealthy_of_healthy hpoison] at h
    cases h
    exact .stay _ rfl hok
  | load target =>
    have hs := Target.claim_site sh hok
    have hne : nodeCount (sh.nodes (target.node t)) ≠ 0 := by
      intro hz
      apply hc
      simp only [DepartPc.claim, hs, counts, hz]
      rfl
    simp only [departStep, departDecide_stay hok (hvalid _) hne] at h
    cases h
    exact .stay _ rfl ⟨hok, hvalid _, hne⟩
  | cas target state =>
    obtain ⟨htarget, hv, hne⟩ := hok
    have hs := Target.claim_site sh htarget
    have hlt : target.node t < t.nodes := by
      cases target with
      | token leaf generation => exact Tree.leaf_node_lt htarget.1
      | inner child up => exact (Tree.parent_lt htarget.2).trans htarget.1
    simp only [departStep] at h
    split_ifs at h with hcas hone <;> cases h
    · obtain ⟨-, rfl⟩ := hcas
      exact .retire _ _ hs hlt (decremented_spec hv hne) hone
    · obtain ⟨-, rfl⟩ := hcas
      exact .leave _ _ hs hlt (decremented_spec hv hne) hone
    · exact .stay _ rfl htarget
  | rootLoad child =>
    simp only [departStep] at h
    cases h
    have hs : site Tree.parent (.child child) = none := hok.2
    exact .stay _ rfl ⟨hok, departable_of_busy hr (hs ▸ hc)⟩
  | rootHealthy child root =>
    simp only [departStep, departHealthy_of_healthy hpoison, rootDepartDecide_stay hok.2] at h
    cases h
    exact .stay _ rfl hok
  | rootCas child root =>
    have hs : site Tree.parent (.child child) = none := hok.1.2
    obtain ⟨phase', count', hd, hp, hne⟩ := hok.2
    simp only [departStep] at h
    split_ifs at h with hcas hone <;> cases h
    · obtain ⟨-, rfl⟩ := hcas
      rw [(rootIs_of_decode hd).field] at hone
      subst hone
      obtain ⟨tail, htail, hnext⟩ := rootDepartNext_tail hd hp
      simp only [hnext]
      exact .rootTail _ tail hs hd htail
    · obtain ⟨-, rfl⟩ := hcas
      have hnext : rootDepartNext sh.root = rootDecremented sh.root := if_neg hone
      rw [(rootIs_of_decode hd).field] at hone
      simp only [hnext]
      exact .rootLeave _ _ hs hd hp hne hone
    · exact .stay _ rfl ⟨hok.1, departable_of_busy hr (hs ▸ hc)⟩

end DevHermit.Shmem.Csnzi
