import DevHermit.Lib.CounterTree
import DevHermit.Shmem.Csnzi.Protocol

namespace DevHermit.Shmem.Csnzi

open Lib CounterTree Shmem.Tree List

def counts (sh : Shared) : Option Nat → Nat
  | none => (sh.root &&& rootCountMask).toNat
  | some n => (nodeCount (sh.nodes n)).toNat

def leafClaim (t : TreeSize) (leaf : Nat) : Claim := .token (Tree.leafStart t.nodes + leaf)

def Target.claim (t : TreeSize) : Target → Claim
  | .token leaf _ => leafClaim t leaf
  | .inner child _ => .child child

def DepartPc.claim (t : TreeSize) : DepartPc → Claim
  | .healthy target => target.claim t
  | .load target => target.claim t
  | .cas target _ => target.claim t
  | .rootLoad child => .child child
  | .rootHealthy child _ => .child child
  | .rootCas child _ => .child child

def arrivalClaim (node : Nat) : List Nat → Claim
  | [] => .token node
  | caller :: _ => .child caller

def ArrivePc.claims (t : TreeSize) (callers : List Nat) : ArrivePc → List Claim
  | .healthy node arrived => if arrived then [.child node] else []
  | .load node arrived => if arrived then [.child node] else []
  | .cas node arrived _ => if arrived then [.child node] else []
  | .rootLoad => []
  | .rootHealthy _ => []
  | .rootCas _ => []
  | .compensate node _ pc => [arrivalClaim node callers, pc.claim t]

def Ret.claims (t : TreeSize) : Ret → List Claim
  | .entered token => [leafClaim t token.leaf]
  | _ => []

def Pc.claims (t : TreeSize) : Pc → List Claim
  | .arrive _ callers pc => pc.claims t callers
  | .enterFinish leaf _ => [leafClaim t leaf]
  | .departHealthy leaf _ => [leafClaim t leaf]
  | .depart pc => [pc.claim t]
  | .done ret => ret.claims t
  | _ => []

def Pc.tails : Pc → Nat
  | .tailVerify _ => 1
  | .tailLoad => 1
  | .tailHealthy _ => 1
  | .tailCas _ => 1
  | _ => 0

def Pc.closers : Pc → Nat
  | .closeVerify _ => 1
  | .closeSeal => 1
  | _ => 0

def pooled (t : TreeSize) (sh : Shared) (x : Claim) : Nat :=
  (sh.tokens.map fun token => leafClaim t token.leaf).count x

def hold (t : TreeSize) (sh : Shared) (pc : Pc) (x : Claim) : Nat :=
  pooled t sh x + (pc.claims t).count x

def isClosed (root : UInt64) : Prop := ∃ phase count, decodeRoot root = some (phase, count) ∧
  phase.isClosed = true

def Issued (t : TreeSize) (sh : Shared) (leaf : Nat) (generation : UInt64) : Prop :=
  leaf < Tree.layoutLeafCount t.nodes ∧
    nodeGeneration (sh.nodes (Tree.leafStart t.nodes + leaf)) = generation

def Frames (t : TreeSize) (leaf : Nat) : Nat → List Nat → Prop
  | node, [] => leaf < Tree.layoutLeafCount t.nodes ∧ node = Tree.leafStart t.nodes + leaf
  | node, caller :: rest => Tree.parent caller = some node ∧ Frames t leaf caller rest

def RootFrames (t : TreeSize) (leaf : Nat) : List Nat → Prop
  | [] => False
  | caller :: rest => Tree.parent caller = none ∧ Frames t leaf caller rest

variable {callers : List Nat} {leaf node : Nat} {t : TreeSize}

theorem Frames.lt (h : Frames t leaf node callers) : node < t.nodes := by
  induction callers generalizing node with
  | nil =>
    obtain ⟨hl, rfl⟩ := h
    exact leaf_node_lt hl
  | cons caller rest ih => exact (parent_lt h.1).trans (ih h.2)

theorem Frames.site (h : Frames t leaf node callers) :
    site parent (arrivalClaim node callers) = some node := by
  cases callers with
  | nil => rfl
  | cons caller rest => exact h.1

theorem Frames.valid (h : Frames t leaf node callers) : (arrivalClaim node callers).Valid t.nodes := by
  cases callers with
  | nil => exact h.lt
  | cons caller rest => exact h.2.lt

def Target.Ok (t : TreeSize) (sh : Shared) : Target → Prop
  | .token leaf generation => Issued t sh leaf generation
  | .inner child up => child < t.nodes ∧ Tree.parent child = some up

def Departable (root : UInt64) : Prop :=
  ∃ phase count, decodeRoot root = some (phase, count) ∧ phase.counts = true ∧ count ≠ 0

def DepartPc.Ok (t : TreeSize) (sh : Shared) : DepartPc → Prop
  | .healthy target => target.Ok t sh
  | .load target => target.Ok t sh
  | .cas target state =>
    target.Ok t sh ∧ validNodeState state = true ∧ nodeCount state ≠ 0
  | .rootLoad child => child < t.nodes ∧ Tree.parent child = none
  | .rootHealthy child root => (child < t.nodes ∧ Tree.parent child = none) ∧ Departable root
  | .rootCas child root => (child < t.nodes ∧ Tree.parent child = none) ∧ Departable root

def Joinable (root : UInt64) : Prop :=
  ∃ phase count, decodeRoot root = some (phase, count) ∧ phase.counts = true ∧
    (phase = .closed → count ≠ 0) ∧ count ≠ rootCountMask

def ArrivePc.Ok (t : TreeSize) (sh : Shared) (leaf : Nat) (callers : List Nat) : ArrivePc → Prop
  | .healthy node _ => Frames t leaf node callers
  | .load node _ => Frames t leaf node callers
  | .cas node arrived state => Frames t leaf node callers ∧ validNodeState state = true ∧
      ¬ (nodeCount state = 0 ∧ arrived = false) ∧ nodeCount state ≠ nodeCountMask
  | .rootLoad => RootFrames t leaf callers
  | .rootHealthy root => RootFrames t leaf callers ∧ (decodeRoot root).isSome ∧
      (isClosed root → isClosed sh.root)
  | .rootCas root => RootFrames t leaf callers ∧ Joinable root
  | .compensate node generation pc => Frames t leaf node callers ∧ pc.Ok t sh ∧
      pc.claim t = .child node ∧
      (callers = [] → nodeGeneration (sh.nodes node) = generation)

def CsnziError.Rejects (sh : Shared) : CsnziError → Prop
  | .invalidLeaf _ _ => True
  | .closed => isClosed sh.root
  | .departureTailBusy => True
  | .capacityExhausted _ => True
  | .malformedToken => False
  | .generationMismatch _ _ _ => False
  | .inactiveToken _ _ => False
  | .poisoned _ => False

def Ret.Ok (t : TreeSize) (sh : Shared) : Ret → Prop
  | .entered token => Issued t sh token.leaf token.generation
  | .departed _ => True
  | .closed .alreadyClosed => isClosed sh.root
  | .closed _ => True
  | .drained true => sh.root = rootDrained
  | .drained false => True
  | .active _ => True
  | .error .tryEnter e => e.Rejects sh
  | .error .depart _ => False
  | .error .close _ => False

def TailRoot (root : UInt64) : Prop :=
  ∃ phase, decodeRoot root = some (phase, 0) ∧ phase.isTail = true

def Closeable (root : UInt64) : Prop :=
  ∃ phase count, decodeRoot root = some (phase, count) ∧ (phase = .opened ∨ phase = .openTail)

def Pc.Ok (t : TreeSize) (sh : Shared) : Pc → Prop
  | .enterHealthy leaf => leaf < Tree.layoutLeafCount t.nodes
  | .observeOpen leaf => leaf < Tree.layoutLeafCount t.nodes
  | .arrive leaf callers pc => pc.Ok t sh leaf callers
  | .enterFinish leaf generation => Issued t sh leaf generation
  | .departHealthy leaf generation => Issued t sh leaf generation
  | .depart pc => pc.Ok t sh
  | .tailVerify index => index < t.nodes
  | .tailHealthy root => TailRoot root
  | .tailCas root => TailRoot root
  | .closeCas root => Closeable root
  | .closeVerify index => index < t.nodes
  | .drainedPoison => sh.root = rootDrained
  | .poison _ _ => False
  | .poisonReason _ _ => False
  | .done ret => ret.Ok t sh
  | _ => True

variable (sh : Shared)

theorem Target.claim_valid {target : Target} (h : target.Ok t sh) :
    (target.claim t).Valid t.nodes := by
  cases target with
  | token leaf generation => exact leaf_node_lt h.1
  | inner child up => exact h.1

theorem Target.claim_site {target : Target} (h : target.Ok t sh) :
    site parent (target.claim t) = some (target.node t) := by
  cases target with
  | token leaf generation => rfl
  | inner child up => exact h.2

theorem DepartPc.claim_valid {pc : DepartPc} (h : pc.Ok t sh) : (pc.claim t).Valid t.nodes := by
  cases pc with
  | healthy target | load target => exact Target.claim_valid sh h
  | cas target state => exact Target.claim_valid sh h.1
  | rootLoad child => exact h.1
  | _ => exact h.1.1

theorem departParent_claim (t : TreeSize) (node : Nat) :
    (departParent node).claim t = .child node := by
  rw [departParent]
  cases parent node <;> rfl

theorem departParent_ok (h : node < t.nodes) : (departParent node).Ok t sh := by
  rw [departParent]
  cases hp : parent node with
  | none | some up => exact ⟨h, hp⟩

theorem Pc.claims_valid {sh : Shared} {pc : Pc} (h : pc.Ok t sh) {x : Claim} (hx : x ∈ pc.claims t)
    : x.Valid t.nodes := by
  cases pc with
  | arrive leaf callers a =>
    cases a with
    | healthy node arrived | load node arrived =>
      simp only [Pc.claims, ArrivePc.claims] at hx
      split_ifs at hx <;> simp at hx
      exact hx ▸ Frames.lt h
    | cas node arrived state =>
      simp only [Pc.claims, ArrivePc.claims] at hx
      split_ifs at hx <;> simp at hx
      exact hx ▸ Frames.lt h.1
    | compensate node generation d =>
      simp only [Pc.claims, ArrivePc.claims, mem_cons, not_mem_nil, or_false] at hx
      rcases hx with rfl | rfl
      · exact Frames.valid h.1
      · exact DepartPc.claim_valid sh h.2.1
    | _ => simp [Pc.claims, ArrivePc.claims] at hx
  | enterFinish leaf generation | departHealthy leaf generation =>
    simp only [Pc.claims, mem_singleton] at hx
    exact hx ▸ leaf_node_lt h.1
  | depart d =>
    simp only [Pc.claims, mem_singleton] at hx
    exact hx ▸ DepartPc.claim_valid sh h
  | done ret =>
    cases ret with
    | entered token =>
      simp only [Pc.claims, Ret.claims, mem_singleton] at hx
      exact hx ▸ leaf_node_lt h.1
    | _ => simp [Pc.claims, Ret.claims] at hx
  | _ => simp [Pc.claims] at hx

structure Stable (sh sh' : Shared) : Prop where
  generation : ∀ n, nodeCount (sh.nodes n) ≠ 0 →
    nodeGeneration (sh'.nodes n) = nodeGeneration (sh.nodes n)
  closed : isClosed sh.root → isClosed sh'.root
  drained : sh.root = rootDrained → sh'.root = rootDrained

variable {t : TreeSize} {sh sh' : Shared}

theorem Issued.stable {leaf : Nat} {generation : UInt64} (h : Issued t sh leaf generation)
    (hs : Stable sh sh') (hc : counts sh (site parent (leafClaim t leaf)) ≠ 0) :
    Issued t sh' leaf generation := by
  refine ⟨h.1, ?_⟩
  rw [hs.generation _ fun hz => hc ?_, h.2]
  simp only [leafClaim, site, counts, hz]
  rfl

theorem DepartPc.Ok.stable {pc : DepartPc} (h : pc.Ok t sh) (hs : Stable sh sh')
    (hc : counts sh (site parent (pc.claim t)) ≠ 0) : pc.Ok t sh' := by
  have htarget : ∀ target : Target, target.Ok t sh →
      counts sh (site parent (target.claim t)) ≠ 0 → target.Ok t sh' := by
    intro target ht hct
    cases target with
    | token leaf generation => exact Issued.stable ht hs hct
    | inner child up => exact ht
  cases pc with
  | healthy target | load target => exact htarget target h hc
  | cas target state => exact ⟨htarget target h.1 hc, h.2⟩
  | _ => exact h

theorem CsnziError.Rejects.stable {error : CsnziError} (h : error.Rejects sh)
    (hs : Stable sh sh') : error.Rejects sh' := by
  cases error with
  | closed => exact hs.closed h
  | _ => exact h

theorem Ret.Ok.stable {ret : Ret} (h : ret.Ok t sh) (hs : Stable sh sh')
    (hc : ∀ x ∈ ret.claims t, counts sh (site parent x) ≠ 0) : ret.Ok t sh' := by
  cases ret with
  | entered token => exact Issued.stable h hs (hc _ (mem_singleton.mpr rfl))
  | departed outcome => trivial
  | closed outcome =>
    cases outcome with
    | alreadyClosed => exact hs.closed h
    | pending | drained => trivial
  | drained answer =>
    cases answer with
    | true => exact hs.drained h
    | false => trivial
  | active answer => trivial
  | error kind error =>
    cases kind with
    | tryEnter => exact CsnziError.Rejects.stable h hs
    | depart | close => exact h

theorem Pc.Ok.stable {pc : Pc} (h : pc.Ok t sh) (hs : Stable sh sh')
    (hc : ∀ x ∈ pc.claims t, counts sh (site parent x) ≠ 0) : pc.Ok t sh' := by
  cases pc with
  | arrive leaf callers a =>
    cases a with
    | rootHealthy root => exact ⟨h.1, h.2.1, fun hr => hs.closed (h.2.2 hr)⟩
    | compensate node generation d =>
      refine ⟨h.1, DepartPc.Ok.stable h.2.1 hs (hc _ (by simp [Pc.claims, ArrivePc.claims])),
        h.2.2.1, ?_⟩
      rintro rfl
      have hn := hc (.token node) (by simp [Pc.claims, ArrivePc.claims, arrivalClaim])
      rw [hs.generation _ fun hz => hn (by simp [site, counts, hz])]
      exact h.2.2.2 rfl
    | _ => exact h
  | enterFinish leaf generation | departHealthy leaf generation =>
    exact Issued.stable h hs (hc _ (mem_singleton.mpr rfl))
  | depart d => exact DepartPc.Ok.stable h hs (hc _ (mem_singleton.mpr rfl))
  | drainedPoison => exact hs.drained h
  | done ret => exact Ret.Ok.stable h hs hc
  | _ => exact h

end DevHermit.Shmem.Csnzi
