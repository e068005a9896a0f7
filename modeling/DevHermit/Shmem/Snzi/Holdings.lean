import DevHermit.Shmem.Snzi.Books

namespace DevHermit.Shmem.Snzi

open Lib CounterTree Shmem.Tree

def leafClaim (t : TreeSize) (leaf : Nat) : Claim := .token (Tree.leafStart t.nodes + leaf)

def Target.claim (t : TreeSize) : Target → Claim
  | .token leaf _ => leafClaim t leaf
  | .inner child _ => .child child

def DepartPc.claim (t : TreeSize) : DepartPc → Claim
  | .healthy target => target.claim t
  | .load target => target.claim t
  | .cas target _ => target.claim t
  | .rootHealthy child => .child child
  | .rootLoad child => .child child
  | .rootCas child _ => .child child

def arrivalClaim (site : Option Nat) : List Caller → Claim
  | [] => .token (site.getD 0)
  | caller :: _ => .child caller.node

def copies (k : Nat) (x : Claim) : Claim → Nat := fun y => k * unit x y

theorem copies_zero (x : Claim) : copies 0 x = 0 := funext fun _ => Nat.zero_mul _

theorem copies_succ (k : Nat) (x : Claim) : copies (k + 1) x = copies k x + unit x :=
  funext fun _ => Nat.succ_mul _ _

theorem copies_self (k : Nat) (x : Claim) : copies k x x = k := by simp [copies]

def callersSolid : List Caller → Claim → Nat
  | [] => 0
  | caller :: rest => copies caller.redundant (.child caller.node) + callersSolid rest

def callersVowed : List Caller → Claim → Nat
  | [] => 0
  | .help _ _ _ :: rest => callersVowed rest
  | .init node _ _ :: rest => callersVowed rest + unit (arrivalClaim (some node) rest)

def ArrivePc.solid (t : TreeSize) (callers : List Caller) : ArrivePc → Claim → Nat
  | .healthy node redundant => copies redundant (.child node) + callersSolid callers
  | .load node redundant => copies redundant (.child node) + callersSolid callers
  | .casHalf node redundant _ => copies redundant (.child node) + callersSolid callers
  | .casCount node redundant _ => copies redundant (.child node) + callersSolid callers
  | .publish caller => callersSolid (caller :: callers) + unit (.child caller.node)
  | .rootHealthy => callersSolid callers
  | .rootLoad => callersSolid callers
  | .rootCas _ => callersSolid callers
  | .compensate node _ redundant pc => copies (redundant - 1) (.child node) +
      callersSolid callers + unit (arrivalClaim (some node) callers) + unit (pc.claim t)

def ArrivePc.vowed (callers : List Caller) : ArrivePc → Claim → Nat
  | .publish caller => callersVowed (caller :: callers)
  | _ => callersVowed callers

def Pc.solid (t : TreeSize) : Pc → Claim → Nat
  | .arrive _ callers pc => pc.solid t callers
  | .arriveFinish leaf _ => unit (leafClaim t leaf)
  | .departHealthy leaf _ => unit (leafClaim t leaf)
  | .depart pc => unit (pc.claim t)
  | .done (.arrived token) => unit (leafClaim t token.leaf)
  | _ => 0

def Pc.vowed : Pc → Claim → Nat
  | .arrive _ callers pc => pc.vowed callers
  | _ => 0

def Issued (t : TreeSize) (m : Memory) (leaf : Nat) (generation : UInt64) : Prop :=
  leaf < Tree.layoutLeafCount t.nodes ∧
    stateGeneration (m.nodes (Tree.leafStart t.nodes + leaf)) = generation

def Caller.Ok (m : Memory) : Caller → Prop
  | .help _ _ state => stateIsHalf state = true
  | .init node _ generation => stateGeneration (m.nodes node) = generation

def Frames (t : TreeSize) (m : Memory) (leaf : Nat) : Option Nat → List Caller → Prop
  | s, [] => leaf < Tree.layoutLeafCount t.nodes ∧ s = some (Tree.leafStart t.nodes + leaf)
  | s, caller :: rest =>
    Tree.parent caller.node = s ∧ caller.Ok m ∧ Frames t m leaf (some caller.node) rest

def Target.Ok (t : TreeSize) (m : Memory) : Target → Prop
  | .token leaf generation => Issued t m leaf generation
  | .inner child up => child < t.nodes ∧ Tree.parent child = some up

def DepartPc.Ok (t : TreeSize) (m : Memory) : DepartPc → Prop
  | .healthy target => target.Ok t m
  | .load target => target.Ok t m
  | .cas target state => target.Ok t m ∧ isActive state = true
  | .rootHealthy child => child < t.nodes ∧ Tree.parent child = none
  | .rootLoad child => child < t.nodes ∧ Tree.parent child = none
  | .rootCas child count => (child < t.nodes ∧ Tree.parent child = none) ∧ count ≠ 0

def ArrivePc.Ok (t : TreeSize) (m : Memory) (leaf : Nat) (callers : List Caller) :
    ArrivePc → Prop
  | .healthy node _ => Frames t m leaf (some node) callers
  | .load node _ => Frames t m leaf (some node) callers
  | .casHalf node _ state => Frames t m leaf (some node) callers ∧ virtual state = 0 ∧
      stateGeneration state ≠ versionMask
  | .casCount node _ state => Frames t m leaf (some node) callers ∧ isActive state = true ∧
      stateCount state ≠ countMask
  | .publish caller => caller.Ok m ∧ Frames t m leaf (some caller.node) callers
  | .rootHealthy => Frames t m leaf none callers
  | .rootLoad => Frames t m leaf none callers
  | .rootCas count => Frames t m leaf none callers ∧ count ≠ u64Max
  | .compensate node generation redundant pc => Frames t m leaf (some node) callers ∧ pc.Ok t m ∧
      redundant ≠ 0 ∧ (callers = [] → stateGeneration (m.nodes node) = generation)

def Ret.Ok (t : TreeSize) (m : Memory) : Ret → Prop
  | .arrived token => Issued t m token.leaf token.generation
  | .departed => True
  | .active _ => True
  | .quiescent _ => True
  | .error _ (.poisoned reason) => reason.isCapacity = true ∧ m.poison ≠ poisonNone
  | .error .arrive (.invalidLeaf _ _) => True
  | .error _ _ => False

def Pc.Ok (t : TreeSize) (m : Memory) : Pc → Prop
  | .arriveHealthy leaf => leaf < Tree.layoutLeafCount t.nodes
  | .arrive leaf callers pc => pc.Ok t m leaf callers
  | .arriveFinish leaf generation => Issued t m leaf generation
  | .departHealthy leaf generation => Issued t m leaf generation
  | .depart pc => pc.Ok t m
  | .poison _ reason => reason.isCapacity = true
  | .poisonReason _ reason => reason.isCapacity = true ∧ m.poison ≠ poisonNone
  | .done ret => ret.Ok t m
  | _ => True

section

variable {t : TreeSize} {m : Memory} {leaf node : Nat} {s : Option Nat} {callers : List Caller}

theorem Frames.lt (h : Frames t m leaf (some node) callers) : node < t.nodes := by
  induction callers generalizing node with
  | nil =>
    obtain ⟨hl, hn⟩ := h
    exact Option.some.inj hn ▸ leaf_node_lt hl
  | cons caller rest ih => exact (parent_lt h.1).trans (ih h.2.2)

theorem Frames.site (h : Frames t m leaf s callers) : site parent (arrivalClaim s callers) = s := by
  cases callers with
  | nil =>
    obtain ⟨-, rfl⟩ := h
    rfl
  | cons caller rest => exact h.1

theorem Frames.valid (h : Frames t m leaf s callers) : (arrivalClaim s callers).Valid t.nodes := by
  cases callers with
  | nil =>
    obtain ⟨hl, rfl⟩ := h
    exact leaf_node_lt hl
  | cons caller rest => exact h.2.2.lt

variable {target : Target}

theorem Target.claim_valid (h : target.Ok t m) : (target.claim t).Valid t.nodes := by
  cases target with
  | token leaf generation => exact leaf_node_lt h.1
  | inner child up => exact h.1

theorem Target.claim_site (h : target.Ok t m) :
    CounterTree.site parent (target.claim t) = some (target.node t) := by
  cases target with
  | token leaf generation => rfl
  | inner child up => exact h.2

theorem departParent_claim (t : TreeSize) (node : Nat) :
    (departParent node).claim t = .child node := by
  rw [departParent]
  cases parent node <;> rfl

theorem departParent_ok (h : node < t.nodes) : (departParent node).Ok t m := by
  rw [departParent]
  cases hp : parent node with
  | none | some up => exact ⟨h, hp⟩

theorem arriveParent_holds (t : TreeSize) (leaf : Nat) (callers : List Caller) (caller : Caller) :
    (arriveParent leaf callers caller).solid t = callersSolid (caller :: callers) ∧
      (arriveParent leaf callers caller).vowed = callersVowed (caller :: callers) := by
  rw [arriveParent]
  cases parent caller.node with
  | none => exact ⟨rfl, rfl⟩
  | some up =>
    refine ⟨?_, rfl⟩
    show copies 0 (.child up) + callersSolid (caller :: callers) = _
    rw [copies_zero, zero_add]

theorem arriveParent_ok {caller : Caller} (hc : caller.Ok m)
    (h : Frames t m leaf (some caller.node) callers) : (arriveParent leaf callers caller).Ok t m := by
  rw [arriveParent]
  cases hp : parent caller.node with
  | none | some up => exact ⟨hp, hc, h⟩

theorem arriveReturn_holds (hf : Frames t m leaf s callers) (generation : UInt64) :
    (arriveReturn leaf callers generation).solid t =
        callersSolid callers + unit (arrivalClaim s callers) ∧
      (arriveReturn leaf callers generation).vowed = callersVowed callers := by
  cases callers with
  | nil =>
    obtain ⟨-, rfl⟩ := hf
    exact ⟨(zero_add _).symm, rfl⟩
  | cons caller rest => exact ⟨rfl, rfl⟩

variable {generation : UInt64}

theorem arriveReturn_ok (hf : Frames t m leaf s callers)
    (hg : ∀ node, callers = [] → s = some node → stateGeneration (m.nodes node) = generation) :
    (arriveReturn leaf callers generation).Ok t m := by
  cases callers with
  | nil =>
    obtain ⟨hl, rfl⟩ := hf
    exact ⟨hl, hg _ rfl rfl⟩
  | cons caller rest => exact hf.2

theorem compensateNext_holds (leaf : Nat) (generation : UInt64) (redundant : Nat)
    (hf : Frames t m leaf (some node) callers) :
    (compensateNext leaf callers node generation redundant).solid t =
        copies redundant (.child node) + callersSolid callers +
          unit (arrivalClaim (some node) callers) ∧
      (compensateNext leaf callers node generation redundant).vowed = callersVowed callers := by
  cases redundant with
  | zero =>
    rw [compensateNext, if_pos rfl, copies_zero, zero_add]
    exact arriveReturn_holds hf generation
  | succ k =>
    rw [compensateNext, if_neg (Nat.succ_ne_zero k)]
    refine ⟨?_, rfl⟩
    show copies (k + 1 - 1) (.child node) + callersSolid callers +
      unit (arrivalClaim (some node) callers) + unit ((departParent node).claim t) = _
    rw [departParent_claim, copies_succ, Nat.add_sub_cancel]
    funext y
    simp only [Pi.add_apply]
    omega

theorem compensateNext_ok (redundant : Nat) (hf : Frames t m leaf (some node) callers)
    (hg : callers = [] → stateGeneration (m.nodes node) = generation) :
    (compensateNext leaf callers node generation redundant).Ok t m := by
  rw [compensateNext]
  split_ifs with hr
  · exact arriveReturn_ok hf fun n hnil hn => Option.some.inj hn ▸ hg hnil
  · exact ⟨hf, departParent_ok hf.lt, hr, hg⟩

variable {x y : Claim}

theorem unit_valid (hy : y.Valid t.nodes) (h : unit y x ≠ 0) : x.Valid t.nodes := by
  rw [unit] at h
  split_ifs at h with he
  · exact he ▸ hy
  · exact absurd rfl h

theorem copies_valid {k : Nat} (hy : y.Valid t.nodes) (h : copies k y x ≠ 0) : x.Valid t.nodes :=
  unit_valid hy fun hu => h (by rw [copies, hu, Nat.mul_zero])

theorem callersSolid_valid (hf : Frames t m leaf s callers) (h : callersSolid callers x ≠ 0) :
    x.Valid t.nodes := by
  induction callers generalizing s with
  | nil => exact absurd rfl h
  | cons caller rest ih =>
    simp only [callersSolid, Pi.add_apply] at h
    by_cases hr : callersSolid rest x = 0
    · exact copies_valid (y := .child caller.node) (k := caller.redundant) hf.2.2.lt (by omega)
    · exact ih hf.2.2 hr

theorem callersVowed_valid (hf : Frames t m leaf s callers) (h : callersVowed callers x ≠ 0) :
    x.Valid t.nodes := by
  induction callers generalizing s with
  | nil => exact absurd rfl h
  | cons caller rest ih =>
    cases caller with
    | help n redundant state => exact ih hf.2.2 h
    | init n redundant generation =>
      simp only [callersVowed, Pi.add_apply] at h
      by_cases hr : callersVowed rest x = 0
      · exact unit_valid (Frames.valid (s := some n) hf.2.2) (by omega)
      · exact ih hf.2.2 hr

theorem DepartPc.claim_valid {pc : DepartPc} (h : pc.Ok t m) : (pc.claim t).Valid t.nodes := by
  cases pc with
  | healthy target | load target => exact Target.claim_valid h
  | cas target state => exact Target.claim_valid h.1
  | rootHealthy child | rootLoad child => exact h.1
  | rootCas child count => exact h.1.1

variable {pc : ArrivePc}

theorem ArrivePc.solid_valid (hok : pc.Ok t m leaf callers) (h : pc.solid t callers x ≠ 0) :
    x.Valid t.nodes := by
  have hnode : ∀ {node redundant : Nat}, Frames t m leaf (some node) callers →
      (copies redundant (.child node) + callersSolid callers) x ≠ 0 → x.Valid t.nodes := by
    intro node redundant hf hx
    rw [Pi.add_apply] at hx
    by_cases hr : callersSolid callers x = 0
    · exact copies_valid (y := .child node) (k := redundant) hf.lt (by omega)
    · exact callersSolid_valid hf hr
  cases pc with
  | healthy node redundant | load node redundant => exact hnode hok h
  | casHalf node redundant state | casCount node redundant state => exact hnode hok.1 h
  | publish caller =>
    have hf : Frames t m leaf (parent caller.node) (caller :: callers) := ⟨rfl, hok⟩
    simp only [ArrivePc.solid, Pi.add_apply] at h
    by_cases hr : callersSolid (caller :: callers) x = 0
    · exact unit_valid (y := .child caller.node) hok.2.lt (by omega)
    · exact callersSolid_valid hf hr
  | rootHealthy | rootLoad => exact callersSolid_valid hok h
  | rootCas count => exact callersSolid_valid hok.1 h
  | compensate node generation redundant pc =>
    obtain ⟨hf, hpc, -, -⟩ := hok
    simp only [ArrivePc.solid, Pi.add_apply] at h
    by_cases hd : unit (pc.claim t) x = 0
    · by_cases ha : unit (arrivalClaim (some node) callers) x = 0
      · refine hnode hf (?_ : (copies (redundant - 1) (.child node) + callersSolid callers) x ≠ 0)
        rw [Pi.add_apply]
        omega
      · exact unit_valid hf.valid ha
    · exact unit_valid (DepartPc.claim_valid hpc) hd

theorem ArrivePc.vowed_valid (hok : pc.Ok t m leaf callers) (h : pc.vowed callers x ≠ 0) :
    x.Valid t.nodes := by
  cases pc with
  | healthy node redundant | load node redundant | rootHealthy | rootLoad =>
    exact callersVowed_valid hok h
  | publish caller =>
    have hf : Frames t m leaf (parent caller.node) (caller :: callers) := ⟨rfl, hok⟩
    exact callersVowed_valid hf h
  | _ => exact callersVowed_valid hok.1 h

theorem Pc.holds_valid {pc : Pc} (hok : pc.Ok t m) (h : pc.solid t x + pc.vowed x ≠ 0) :
    x.Valid t.nodes := by
  have hleaf : ∀ {leaf : Nat} {generation : UInt64}, Issued t m leaf generation →
      unit (leafClaim t leaf) x + 0 ≠ 0 → x.Valid t.nodes := fun hi hx =>
    unit_valid (y := leafClaim t _) (leaf_node_lt hi.1) hx
  cases pc with
  | arrive leaf callers pc =>
    by_cases hv : pc.vowed callers x = 0
    · exact ArrivePc.solid_valid hok fun hs => h (by simp [Pc.solid, Pc.vowed, hs, hv])
    · exact ArrivePc.vowed_valid hok hv
  | arriveFinish leaf generation | departHealthy leaf generation => exact hleaf hok h
  | depart pc => exact unit_valid (DepartPc.claim_valid hok) h
  | done ret =>
    cases ret with
    | arrived token => exact hleaf hok h
    | _ => exact absurd rfl h
  | _ => exact absurd rfl h

end

structure Stable (m m' : Memory) : Prop where
  generation : ∀ n, virtual (m.nodes n) ≠ 0 →
    stateGeneration (m'.nodes n) = stateGeneration (m.nodes n)
  poison : m.poison ≠ poisonNone → m'.poison = m.poison

theorem Stable.refl (m : Memory) : Stable m m := ⟨fun _ _ => rfl, fun _ => rfl⟩

theorem Stable.setRoot (m : Memory) (root : UInt64) : Stable m (m.setRoot root) :=
  ⟨fun _ _ => rfl, fun _ => rfl⟩

theorem Stable.setNode {m : Memory} {n : Nat} {state : UInt64}
    (h : virtual (m.nodes n) ≠ 0 → stateGeneration state = stateGeneration (m.nodes n)) :
    Stable m (m.setNode n state) := by
  refine ⟨fun k hk => ?_, fun _ => rfl⟩
  by_cases hn : k = n
  · subst hn
    simpa [Memory.setNode] using h hk
  · simp [Memory.setNode, hn]

variable {t : TreeSize} {m m' : Memory} {leaf : Nat} {s : Option Nat} {callers : List Caller}

theorem Issued.stable {generation : UInt64} (h : Issued t m leaf generation)
    (hs : Stable m m') (hc : counts m (site parent (leafClaim t leaf)) ≠ 0) :
    Issued t m' leaf generation :=
  ⟨h.1, (hs.generation _ hc).trans h.2⟩

theorem Frames.stable (h : Frames t m leaf s callers) (hs : Stable m m')
    (hc : ∀ x, callersVowed callers x ≠ 0 → counts m (CounterTree.site parent x) ≠ 0) :
    Frames t m' leaf s callers := by
  induction callers generalizing s with
  | nil => exact h
  | cons caller rest ih =>
    obtain ⟨hp, hok, hrest⟩ := h
    cases caller with
    | help n redundant state => exact ⟨hp, hok, ih hrest hc⟩
    | init n redundant generation =>
      have hn := hc (arrivalClaim (some n) rest) (by simp [callersVowed])
      have hsite : CounterTree.site parent (arrivalClaim (some n) rest) = some n := hrest.site
      rw [hsite] at hn
      refine ⟨hp, (hs.generation n hn).trans hok, ih hrest fun x hx => hc x ?_⟩
      simp only [callersVowed, Pi.add_apply]
      omega

theorem DepartPc.Ok.stable {pc : DepartPc} (h : pc.Ok t m) (hs : Stable m m')
    (hc : counts m (CounterTree.site parent (pc.claim t)) ≠ 0) : pc.Ok t m' := by
  have htarget : ∀ target : Target, target.Ok t m →
      counts m (CounterTree.site parent (target.claim t)) ≠ 0 → target.Ok t m' := by
    intro target ht hct
    cases target with
    | token leaf generation => exact Issued.stable ht hs hct
    | inner child up => exact ht
  cases pc with
  | healthy target | load target => exact htarget target h hc
  | cas target state => exact ⟨htarget target h.1 hc, h.2⟩
  | _ => exact h

theorem Ret.Ok.stable {ret : Ret} (h : ret.Ok t m) (hs : Stable m m')
    (hc : ∀ token, ret = .arrived token →
      counts m (CounterTree.site parent (leafClaim t token.leaf)) ≠ 0) : ret.Ok t m' := by
  cases ret with
  | arrived token => exact Issued.stable h hs (hc token rfl)
  | error kind e =>
    cases e with
    | poisoned reason => exact ⟨h.1, by rw [hs.poison h.2]; exact h.2⟩
    | inactiveToken leaf g => cases kind <;> exact h
    | _ => cases kind <;> exact h
  | _ => trivial

theorem ArrivePc.Ok.stable {pc : ArrivePc} (h : pc.Ok t m leaf callers) (hs : Stable m m')
    (hc : ∀ x, pc.solid t callers x + pc.vowed callers x ≠ 0 →
      counts m (CounterTree.site parent x) ≠ 0) : pc.Ok t m' leaf callers := by
  have hv : ∀ x, pc.vowed callers x ≠ 0 → counts m (CounterTree.site parent x) ≠ 0 :=
    fun x hx => hc x (by omega)
  cases pc with
  | healthy node redundant | load node redundant | rootHealthy | rootLoad =>
    exact Frames.stable h hs hv
  | publish caller =>
    have hf : Frames t m leaf (parent caller.node) (caller :: callers) := ⟨rfl, h⟩
    exact (hf.stable hs hv).2
  | compensate node generation redundant pc =>
    obtain ⟨hf, hpc, hr, hg⟩ := h
    refine ⟨hf.stable hs hv, ?_, hr, ?_⟩
    · refine hpc.stable hs (hc _ ?_)
      simp [ArrivePc.solid]
    · rintro rfl
      have hn := hc (.token node) (by simp [ArrivePc.solid, arrivalClaim])
      exact (hs.generation node hn).trans (hg rfl)
  | _ => exact ⟨Frames.stable h.1 hs hv, h.2⟩

theorem Pc.Ok.stable {pc : Pc} (h : pc.Ok t m) (hs : Stable m m')
    (hc : ∀ x, pc.solid t x + pc.vowed x ≠ 0 →
      counts m (CounterTree.site parent x) ≠ 0) : pc.Ok t m' := by
  cases pc with
  | arrive leaf callers pc => exact ArrivePc.Ok.stable h hs hc
  | arriveFinish leaf generation | departHealthy leaf generation =>
    exact Issued.stable h hs (hc _ (by simp [Pc.solid]))
  | depart pc => exact DepartPc.Ok.stable h hs (hc _ (by simp [Pc.solid]))
  | poisonReason kind reason => exact ⟨h.1, by rw [hs.poison h.2]; exact h.2⟩
  | done ret =>
    refine Ret.Ok.stable h hs ?_
    rintro token rfl
    exact hc _ (by simp [Pc.solid])
  | _ => exact h

end DevHermit.Shmem.Snzi
