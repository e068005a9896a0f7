import DevHermit.Lib.Linearizable
import DevHermit.Shmem.Csnzi.Drain

namespace DevHermit.Shmem.Csnzi

open Lib CounterTree

inductive Request where
  | tryEnter
  | depart
  | close
  | query
  deriving DecidableEq, Repr

inductive Answer where
  | entered
  | rejected (error : CsnziError)
  | departed (outcome : DepartOutcome)
  | closed (outcome : CloseOutcome)
  | active (answer : Bool)
  | failed (error : CsnziError)
  deriving DecidableEq, Repr

def rejects (closed : Bool) : CsnziError → Bool
  | .invalidLeaf _ _ => true
  | .closed => closed
  | .departureTailBusy => true
  | .capacityExhausted _ => true
  | .malformedToken => false
  | .generationMismatch _ _ _ => false
  | .inactiveToken _ _ => false
  | .poisoned _ => false

def applyAbstract : Bool × Nat → Request → Answer → Option (Bool × Nat)
  | (closed, n), .tryEnter, .entered => if closed then none else some (closed, n + 1)
  | (closed, n), .tryEnter, .rejected error =>
    if rejects closed error then some (closed, n) else none
  | (closed, n), .depart, .departed outcome =>
    if n ≠ 0 ∧ (outcome = .drained ↔ closed = true ∧ n - 1 = 0) then some (closed, n - 1)
    else none
  | (closed, n), .close, .closed outcome =>
    if closed then
      if outcome = .alreadyClosed then some (closed, n) else none
    else if outcome = if n = 0 then .drained else .pending then some (true, n)
    else none
  | (closed, n), .query, .active answer =>
    if answer = decide (0 < n) then some (closed, n) else none
  | _, _, _ => none

def abstractSpec : Spec (Bool × Nat) Request Answer where
  init := (false, 0)
  apply := applyAbstract

def Op.request : Op → Option Request
  | .tryEnter _ => some .tryEnter
  | .depart _ => some .depart
  | .departRaw _ => some .depart
  | .close => some .close
  | .query => some .query
  | .isDrained => none

def Ret.answer : Ret → Option Answer
  | .entered _ => some .entered
  | .departed outcome => some (.departed outcome)
  | .closed outcome => some (.closed outcome)
  | .active answer => some (.active answer)
  | .error .tryEnter e => some (.rejected e)
  | .error .depart e => some (.failed e)
  | .error .close e => some (.failed e)
  | .drained _ => none

def returnEvent {P : Type} (p : P) : Pc → List (Event P Request Answer)
  | .done ret => (ret.answer.map (Event.ret p)).toList
  | _ => []

def observe {P : Type} (p : P) (pc : Pc) : In → List (Event P Request Answer)
  | .call op => (op.request.map (Event.inv p)).toList
  | .go => returnEvent p pc
  | .spurious => returnEvent p pc

def Kind.request : Kind → Request
  | .tryEnter => .tryEnter
  | .depart => .depart
  | .close => .close

def Ret.request : Ret → Option Request
  | .entered _ => some .tryEnter
  | .departed _ => some .depart
  | .closed _ => some .close
  | .active _ => some .query
  | .error kind _ => some kind.request
  | .drained _ => none

def Pc.request : Pc → Option Request
  | .idle => none
  | .enterHealthy _ => some .tryEnter
  | .observeOpen _ => some .tryEnter
  | .arrive _ _ _ => some .tryEnter
  | .enterFinish _ _ => some .tryEnter
  | .departHealthy _ _ => some .depart
  | .depart _ => some .depart
  | .tailVerify _ => some .depart
  | .tailLoad => some .depart
  | .tailHealthy _ => some .depart
  | .tailCas _ => some .depart
  | .closeHealthy => some .close
  | .closeLoad => some .close
  | .closeCas _ => some .close
  | .closeVerify _ => some .close
  | .closeSeal => some .close
  | .drainedRoot => none
  | .drainedPoison => none
  | .queryRoot => some .query
  | .queryPoison => some .query
  | .poison kind _ => some kind.request
  | .poisonReason kind _ => some kind.request
  | .done ret => ret.request

def Ret.settled : Ret → Option Answer
  | .entered _ => some .entered
  | .departed outcome => some (.departed outcome)
  | .closed .pending => some (.closed .pending)
  | .closed .drained => some (.closed .drained)
  | .closed .alreadyClosed => none
  | .active answer => some (.active answer)
  | .error _ _ => none
  | .drained _ => none

def Pc.settled : Pc → Option Answer
  | .arrive _ _ pc => if pc.represented then some .entered else none
  | .enterFinish _ _ => some .entered
  | .closeVerify _ => some (.closed .drained)
  | .closeSeal => some (.closed .drained)
  | .queryPoison => some (.active false)
  | .done ret => ret.settled
  | _ => none

def Pc.present : Pc → Nat
  | .arrive _ _ pc => if pc.represented then 1 else 0
  | .enterFinish _ _ => 1
  | .departHealthy _ _ => 1
  | .depart _ => 1
  | .tailVerify _ => 1
  | .tailLoad => 1
  | .tailHealthy _ => 1
  | .tailCas _ => 1
  | .done (.entered _) => 1
  | _ => 0

def Pc.arriving : Pc → Bool
  | .arrive _ _ pc => !pc.represented
  | _ => false

def Busy (t : TreeSize) (sh : Shared) : Prop :=
  counts sh none ≠ 0 ∨ ∃ n, n < t.nodes ∧ nodeCount (sh.nodes n) ≠ 0

structure Keeps (pc pc' : Pc) : Prop where
  request : pc'.request = pc.request
  settled : pc'.settled = pc.settled
  present : pc'.present = pc.present

def ClosedBusy (root : UInt64) : Prop := ∃ count, decodeRoot root = some (.closed, count)

structure SameAbstract (sh sh' : Shared) : Prop where
  tokens : sh'.tokens = sh.tokens
  closed : isClosed sh'.root ↔ isClosed sh.root
  busy : ClosedBusy sh'.root → ClosedBusy sh.root

inductive Logical (t : TreeSize) (sh : Shared) (pc : Pc) : Shared → Pc → Prop where
  | silent (sh' : Shared) (pc' : Pc) : Keeps pc pc' → SameAbstract sh sh' →
      (pc'.arriving = true → pc.arriving = true ∨ ¬ isClosed sh.root) → Logical t sh pc sh' pc'
  | enter (sh' : Shared) (pc' : Pc) : pc.arriving = true → pc.request = some .tryEnter →
      pc.settled = none → pc.present = 0 → pc'.request = some .tryEnter →
      pc'.settled = some .entered → pc'.present = 1 → pc'.arriving = false →
      SameAbstract sh sh' → (Busy t sh ∨ Joinable sh.root) → Logical t sh pc sh' pc'
  | depart (sh' : Shared) (outcome : DepartOutcome) : pc.request = some .depart →
      pc.settled = none → pc.present = 1 → SameAbstract sh sh' →
      (outcome = .active ∧ (Busy t sh' ∨ ¬ isClosed sh'.root) ∨
        outcome = .drained ∧ sh'.root = rootDrained) →
      Logical t sh pc sh' (.done (.departed outcome))
  | close (sh' : Shared) (pc' : Pc) (phase : RootPhase) (count : UInt64)
      (outcome : CloseOutcome) : pc.request = some .close → pc.settled = none →
      pc.present = 0 → pc'.request = some .close → pc'.settled = some (.closed outcome) →
      pc'.present = 0 → pc'.arriving = false → sh'.tokens = sh.tokens →
      decodeRoot sh.root = some (phase, count) → phase.isClosed = false → isClosed sh'.root →
      (outcome = if count ≠ 0 ∨ phase.isTail then .pending else .drained) → Logical t sh pc sh' pc'
  | query (pc' : Pc) : pc = .queryRoot → pc'.request = some .query →
      pc'.settled = some (.active (queryRoot sh.root)) → pc'.present = 0 →
      pc'.arriving = false → Logical t sh pc sh pc'

variable {t : TreeSize} {sh sh' : Shared} {pc pc' : Pc} {leaf : Nat} {callers : List Nat}

theorem SameAbstract.refl (sh : Shared) : SameAbstract sh sh := ⟨rfl, Iff.rfl, id⟩

variable {root : UInt64}

theorem SameAbstract.setRoot {phase phase' : RootPhase} {count count' : UInt64}
    (hb : decodeRoot sh.root = some (phase, count)) (ha : decodeRoot root = some (phase', count'))
    (hp : phase'.isClosed = phase.isClosed) (hc : phase' = .closed → phase = .closed) :
    SameAbstract sh (sh.setRoot root) := by
  have hroot : decodeRoot (sh.setRoot root).root = some (phase', count') := ha
  refine ⟨rfl, by rw [isClosed_iff hroot, isClosed_iff hb, hp], ?_⟩
  rintro ⟨k, hk⟩
  exact ⟨count, hc (decodeRoot_unique hroot hk).1 ▸ hb⟩

theorem SameAbstract.setNode (n : Nat) (state : UInt64) : SameAbstract sh (sh.setNode n state) :=
  ⟨rfl, Iff.rfl, id⟩

theorem Logical.stay (h : Keeps pc pc') (ha : pc'.arriving = true → pc.arriving = true) :
    Logical t sh pc sh pc' :=
  .silent _ _ h (SameAbstract.refl sh) fun hp => .inl (ha hp)

theorem Logical.quiet (h : Keeps pc pc') (ha : pc'.arriving = false) : Logical t sh pc sh pc' :=
  .stay h fun hp => absurd (ha.symm.trans hp) Bool.false_ne_true

structure EnterView (pc : Pc) (represented : Bool) : Prop where
  request : pc.request = some .tryEnter
  settled : pc.settled = if represented then some .entered else none
  present : pc.present = if represented then 1 else 0
  arriving : pc.arriving = true → represented = false

theorem EnterView.keeps {represented : Bool} (h : EnterView pc represented)
    (h' : EnterView pc' represented) : Keeps pc pc' :=
  ⟨h'.request.trans h.request.symm, h'.settled.trans h.settled.symm,
    h'.present.trans h.present.symm⟩

theorem arrive_view (leaf : Nat) (callers : List Nat) (a : ArrivePc) :
    EnterView (.arrive leaf callers a) a.represented :=
  ⟨rfl, rfl, rfl, fun h => by simpa [Pc.arriving] using h⟩

theorem rejected_view (e : CsnziError) : EnterView (.done (.error .tryEnter e)) false :=
  ⟨rfl, rfl, rfl, nofun⟩

theorem arriveReturn_view (leaf : Nat) (callers : List Nat) (generation : UInt64) :
    EnterView (arriveReturn leaf callers generation) true := by
  cases callers <;> exact ⟨rfl, rfl, rfl, nofun⟩

variable {node : Nat}

theorem arriveDecide_view {arrived : Bool} {state : UInt64} (hv : validNodeState state = true) :
    EnterView (arriveDecide leaf callers node arrived state) arrived := by
  rw [arriveDecide, if_neg (by simp [hv])]
  split_ifs with hidle hmax harr
  · rw [arriveParent, hidle.2]
    cases Tree.parent node <;> exact arrive_view _ _ _
  · exact arrive_view _ _ _
  · rw [Bool.eq_false_iff.mpr harr]
    exact rejected_view _
  · exact arrive_view _ _ _

theorem rootArriveDecide_view (hsome : (decodeRoot root).isSome) :
    EnterView (rootArriveDecide leaf callers root) false := by
  obtain ⟨⟨phase, count⟩, hd⟩ := Option.isSome_iff_exists.mp hsome
  rw [rootArriveDecide, hd]
  cases phase with
  | opened =>
    simp only
    split_ifs
    · exact rejected_view _
    · exact arrive_view _ _ _
  | closed =>
    simp only
    split_ifs
    · exact rejected_view _
    · exact rejected_view _
    · exact arrive_view _ _ _
  | _ => exact rejected_view _

variable {a : ArrivePc}

theorem arrive_silent (h : EnterView pc' a.represented) (hs : SameAbstract sh sh') :
    Logical t sh (.arrive leaf callers a) sh' pc' := by
  refine .silent _ _ ((arrive_view leaf callers a).keeps h) hs fun hp => .inl ?_
  simp only [Pc.arriving, h.arriving hp, Bool.not_false]

theorem arrive_enter (ha : a.represented = false) (h : EnterView pc' true)
    (hs : SameAbstract sh sh') (hb : Busy t sh ∨ Joinable sh.root) :
    Logical t sh (.arrive leaf callers a) sh' pc' := by
  have hview := arrive_view leaf callers a
  rw [ha] at hview
  refine .enter _ _ (by simp [Pc.arriving, ha]) rfl hview.settled hview.present h.request
    h.settled h.present ?_ hs hb
  by_contra hne
  exact absurd (h.arriving (by simpa using hne)) (by decide)

variable {d : DepartPc} {r : DepartResult}

theorem compensate_logical {generation : UInt64}
    (hok : (compensateReturn leaf callers node generation r).Ok t sh')
    (h : DepartMove t sh d sh' r) :
    Logical t sh (.arrive leaf callers (.compensate node generation d)) sh'
      (compensateReturn leaf callers node generation r) := by
  cases h with
  | stay d' => exact arrive_silent (arrive_view _ _ _) (SameAbstract.refl sh)
  | leave n state => exact arrive_silent (arriveReturn_view _ _ _) (.setNode _ _)
  | retire n state => exact arrive_silent (arrive_view _ _ _) (.setNode _ _)
  | rootLeave phase count _ hd hp h₀ =>
    exact arrive_silent (arriveReturn_view _ _ _)
      (.setRoot hd (decodeRoot_rootDecremented hd hp h₀).1 rfl id)
  | rootTail phase phase' => exact hok.elim

variable {weak : Bool}

theorem arrive_logical (hs : Safe t sh (.arrive leaf callers a)) (hok : a.Ok t sh leaf callers)
    (h : arriveStep t sh weak leaf callers a = (sh', pc')) :
    Logical t sh (.arrive leaf callers a) sh' pc' := by
  obtain ⟨phase, count, hroot, -⟩ := hs.root
  cases a with
  | healthy node arrived =>
    rw [arriveStep, ensureHealthy_of_healthy hs.poison] at h
    cases h
    exact arrive_silent (arrive_view _ _ _) (SameAbstract.refl sh)
  | load node arrived =>
    cases h
    exact arrive_silent (arriveDecide_view (hs.valid node)) (SameAbstract.refl sh)
  | cas node arrived state =>
    rw [arriveStep] at h
    split at h
    · rename_i hcas
      obtain ⟨-, rfl⟩ := hcas
      cases h
      have hview : EnterView (if arrived = true ∧ nodeCount (sh.nodes node) ≠ 0 then
          .arrive leaf callers
            (.compensate node (nextGeneration (sh.nodes node)) (departParent node))
          else arriveReturn leaf callers (nextGeneration (sh.nodes node))) true := by
        split_ifs
        · exact arrive_view _ _ _
        · exact arriveReturn_view _ _ _
      cases arrived with
      | true => exact arrive_silent hview (.setNode _ _)
      | false =>
        have hc : nodeCount (sh.nodes node) ≠ 0 := by simpa using hok.2.2.1
        exact arrive_enter rfl hview (.setNode _ _) (.inl (.inr ⟨node, hok.1.lt, hc⟩))
    · cases h
      exact arrive_silent (arrive_view _ _ _) (SameAbstract.refl sh)
  | rootLoad =>
    cases h
    exact arrive_silent (arrive_view _ _ _) (SameAbstract.refl sh)
  | rootHealthy root =>
    rw [arriveStep, ensureHealthy_of_healthy hs.poison] at h
    cases h
    exact arrive_silent (rootArriveDecide_view hok.2.1) (SameAbstract.refl sh)
  | rootCas root =>
    rw [arriveStep] at h
    split at h
    · rename_i hcas
      obtain ⟨-, rfl⟩ := hcas
      cases h
      obtain ⟨-, phase₀, count₀, hd, hp, hbusy, hmax⟩ := hok
      exact arrive_enter rfl (arriveReturn_view _ _ _)
        (.setRoot hd (decodeRoot_rootIncremented hd hp hmax).1 rfl id)
        (.inr ⟨phase₀, count₀, hd, hp, hbusy, hmax⟩)
    · cases h
      exact arrive_silent (arrive_view _ _ _) (SameAbstract.refl sh)
  | compensate node generation d =>
    have hok' := (arrive_step hs hok h).2
    have hd := hs.departs weak hok.2.1 (by simp [Pc.claims, ArrivePc.claims])
    rw [arriveStep] at h
    cases h
    exact compensate_logical hok' hd

theorem depart_logical (h : DepartMove t sh d sh' r) :
    Logical t sh (.depart d) sh' (departReturn r) := by
  cases h with
  | stay d' => exact .quiet ⟨rfl, rfl, rfl⟩ rfl
  | leave n state _ hn hdep hne =>
    refine .depart _ _ rfl rfl rfl (.setNode _ _) (.inl ⟨rfl, .inl (.inr ⟨n, hn, ?_⟩)⟩)
    have hcount := hdep.count
    have hne' : (nodeCount (sh.nodes n)).toNat ≠ 1 := fun he => hne (UInt64.toNat_inj.mp he)
    simp only [Shared.setNode, Function.update_self]
    intro hz
    rw [hz] at hcount
    exact hne' hcount.symm
  | retire n state => exact .silent _ _ ⟨rfl, rfl, rfl⟩ (.setNode _ _) (by rintro ⟨⟩)
  | rootLeave phase count _ hd hp h₀ h₁ =>
    obtain ⟨hafter, hcount⟩ := decodeRoot_rootDecremented hd hp h₀
    refine .depart _ _ rfl rfl rfl (.setRoot hd hafter rfl id) (.inl ⟨rfl, .inl (.inl ?_)⟩)
    rw [counts_setRoot hafter, Function.update_self]
    exact fun hz => decrement_ne_zero hcount h₁ (toNat_eq_zero.mp hz)
  | rootTail phase phase' _ hd hphase =>
    refine .silent _ _ ⟨rfl, rfl, rfl⟩ (.setRoot hd (decodeRoot_status phase') ?_ ?_) (by rintro ⟨⟩)
    · rcases hphase with ⟨rfl, rfl⟩ | ⟨rfl, rfl⟩ <;> rfl
    · rcases hphase with ⟨rfl, rfl⟩ | ⟨rfl, rfl⟩ <;> rintro ⟨⟩

theorem observeOpenDecide_logical {leaf : Nat}
    (hroot : ∃ phase count, decodeRoot sh.root = some (phase, count)) :
    Logical t sh (.observeOpen leaf) sh (observeOpenDecide t leaf sh.root) := by
  obtain ⟨phase, count, hd⟩ := hroot
  rw [observeOpenDecide, hd]
  cases phase with
  | opened =>
    refine .silent _ _ ⟨rfl, rfl, rfl⟩ (SameAbstract.refl sh) fun _ => .inr ?_
    rw [isClosed_iff hd]
    rintro ⟨⟩
  | _ => exact .quiet ⟨rfl, rfl, rfl⟩ rfl

theorem closeDecide_logical (hpc : Keeps pc .closeLoad)
    (hroot : ∃ phase count, decodeRoot sh.root = some (phase, count)) :
    Logical t sh pc sh (closeDecide sh.root) := by
  obtain ⟨phase, count, hd⟩ := hroot
  have hkeeps : ∀ pc', pc'.request = some .close → pc'.settled = none → pc'.present = 0 →
      Keeps pc pc' :=
    fun _ h₁ h₂ h₃ => ⟨h₁.trans hpc.request, h₂.trans hpc.settled, h₃.trans hpc.present⟩
  rw [closeDecide, hd]
  cases phase <;> exact .quiet (hkeeps _ rfl rfl rfl) rfl

theorem tail_cas_logical (hroot : sh.root = root) (h : TailRoot root) :
    Logical t sh (.tailCas root) (sh.setRoot (tailSeal root).1)
      (.done (.departed (tailSeal root).2)) := by
  subst hroot
  obtain ⟨phase, hd, hp⟩ := h
  cases phase with
  | openTail =>
    have hseal : tailSeal sh.root = (rootOpen, .active) := by rw [tailSeal, hd]
    have hafter : decodeRoot (sh.setRoot rootOpen).root = some (.opened, 0) :=
      decodeRoot_status .opened
    rw [hseal]
    refine .depart _ _ rfl rfl rfl (.setRoot hd (decodeRoot_status .opened) rfl (by simp))
      (.inl ⟨rfl, .inr ?_⟩)
    rw [isClosed_iff hafter]
    rintro ⟨⟩
  | closedTail =>
    have hseal : tailSeal sh.root = (rootDrained, .drained) := by rw [tailSeal, hd]
    rw [hseal]
    exact .depart _ _ rfl rfl rfl (.setRoot hd (decodeRoot_status .drained) rfl (by simp))
      (.inr ⟨rfl, rfl⟩)
  | _ => cases hp

theorem close_cas_logical (hroot : sh.root = root) (h : Closeable root) :
    Logical t sh (.closeCas root) (sh.setRoot (closeClaim root).1) (closeClaim root).2 := by
  subst hroot
  obtain ⟨phase, count, hd, rfl | rfl⟩ := h
  · by_cases hz : count = 0
    · subst hz
      have hclaim : closeClaim sh.root = (rootClosing, .closeVerify 0) := by simp [closeClaim, hd]
      rw [hclaim]
      exact .close _ _ _ _ .drained rfl rfl rfl rfl rfl rfl rfl rfl hd rfl
        ⟨_, _, decodeRoot_status .closing, rfl⟩ rfl
    · have hclaim : closeClaim sh.root = (rootClosed ||| count, .done (.closed .pending)) := by
        simp [closeClaim, hd, hz]
      rw [hclaim]
      exact .close _ _ _ _ .pending rfl rfl rfl rfl rfl rfl rfl rfl hd rfl
        ⟨_, _, decodeRoot_closed hd, rfl⟩ (by simp [hz])
  · have hclaim : closeClaim sh.root = (rootClosedTail, .done (.closed .pending)) := by
      simp [closeClaim, hd]
    rw [hclaim]
    exact .close _ _ _ _ .pending rfl rfl rfl rfl rfl rfl rfl rfl hd rfl
      ⟨_, _, decodeRoot_status .closedTail, rfl⟩ (by simp [RootPhase.isTail])

theorem advance_logical (hs : Safe t sh pc) (hok : pc.Ok t sh) (hdone : ∀ ret, pc ≠ .done ret)
    (h : advance t sh weak pc = some (sh', pc')) : Logical t sh pc sh' pc' := by
  obtain ⟨phase, count, hroot, -⟩ := hs.root
  cases pc with
  | idle => cases h
  | enterHealthy leaf =>
    rw [advance, ensureHealthy_of_healthy hs.poison] at h
    cases h
    exact .quiet ⟨rfl, rfl, rfl⟩ rfl
  | observeOpen leaf =>
    cases h
    exact observeOpenDecide_logical ⟨phase, count, hroot⟩
  | arrive leaf callers a => exact arrive_logical hs hok (Option.some.inj h)
  | enterFinish leaf generation | departHealthy leaf generation =>
    rw [advance, ensureHealthy_of_healthy hs.poison] at h
    cases h
    exact .quiet ⟨rfl, rfl, rfl⟩ rfl
  | depart d =>
    have hd := hs.departs weak hok (List.mem_singleton.mpr rfl)
    rw [advance] at h
    cases h
    exact depart_logical hd
  | tailVerify index =>
    cases h
    rcases verifyNode_cases t .depart .tailVerify .tailLoad
      (hs.valid index) ((hs.tail rfl).2 index hok) with ⟨-, he⟩ | he
    · rw [he]
      exact .quiet ⟨rfl, rfl, rfl⟩ rfl
    · rw [he]
      exact .quiet ⟨rfl, rfl, rfl⟩ rfl
  | tailLoad =>
    cases h
    exact .quiet ⟨rfl, rfl, rfl⟩ rfl
  | tailHealthy root =>
    rw [advance, ensureHealthy_of_healthy hs.poison, tailDecide_of_tailRoot hok] at h
    cases h
    exact .quiet ⟨rfl, rfl, rfl⟩ rfl
  | tailCas root =>
    rw [advance] at h
    split at h <;> cases h
    · rename_i hcas
      exact tail_cas_logical hcas.2 hok
    · exact .quiet ⟨rfl, rfl, rfl⟩ rfl
  | closeHealthy =>
    rw [advance, ensureHealthy_of_healthy hs.poison] at h
    cases h
    exact .quiet ⟨rfl, rfl, rfl⟩ rfl
  | closeLoad =>
    cases h
    exact closeDecide_logical ⟨rfl, rfl, rfl⟩ ⟨phase, count, hroot⟩
  | closeCas root =>
    rw [advance] at h
    split at h <;> cases h
    · rename_i hcas
      exact close_cas_logical hcas.2 hok
    · exact closeDecide_logical ⟨rfl, rfl, rfl⟩ ⟨phase, count, hroot⟩
  | closeVerify index =>
    cases h
    rcases verifyNode_cases t .close .closeVerify .closeSeal
      (hs.valid index) ((hs.closer rfl).2 index hok) with ⟨-, he⟩ | he
    · rw [he]
      exact .quiet ⟨rfl, rfl, rfl⟩ rfl
    · rw [he]
      exact .quiet ⟨rfl, rfl, rfl⟩ rfl
  | closeSeal =>
    have hclosing := (hs.closer rfl).1
    have hbefore : decodeRoot sh.root = some (.closing, 0) := hclosing ▸ decodeRoot_status .closing
    rw [advance, if_pos hclosing] at h
    cases h
    exact .silent _ _ ⟨rfl, rfl, rfl⟩ (.setRoot hbefore (decodeRoot_status .drained) rfl (by simp))
      (by rintro ⟨⟩)
  | drainedRoot =>
    cases h
    split_ifs <;> exact .quiet ⟨rfl, rfl, rfl⟩ rfl
  | drainedPoison =>
    cases h
    exact .quiet ⟨rfl, rfl, rfl⟩ rfl
  | queryRoot =>
    cases h
    cases hq : queryRoot sh.root with
    | true | false => exact .query _ rfl rfl (by rw [hq]; rfl) rfl rfl
  | queryPoison =>
    rw [advance, hs.poison] at h
    cases h
    exact .quiet ⟨rfl, rfl, rfl⟩ rfl
  | poison kind reason | poisonReason kind reason => exact hok.elim
  | done ret => exact absurd rfl (hdone ret)

end DevHermit.Shmem.Csnzi
