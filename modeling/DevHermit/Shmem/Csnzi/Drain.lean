import DevHermit.Shmem.Csnzi.Invariant

namespace DevHermit.Shmem.Csnzi

open Lib CounterTree Function

def Pc.entering : Pc → Bool
  | .enterHealthy _ => true
  | .observeOpen _ => true
  | .arrive _ _ _ => true
  | .enterFinish _ _ => true
  | _ => false

def ArrivePc.represented : ArrivePc → Bool
  | .healthy _ arrived => arrived
  | .load _ arrived => arrived
  | .cas _ arrived _ => arrived
  | .rootLoad => false
  | .rootHealthy _ => false
  | .rootCas _ => false
  | .compensate _ _ _ => true

def Pc.represented : Pc → Bool
  | .arrive _ _ pc => pc.represented
  | .enterFinish _ _ => true
  | .done (.entered _) => true
  | _ => false

def DepartPc.target? : DepartPc → Option Target
  | .healthy target => some target
  | .load target => some target
  | .cas target _ => some target
  | .rootLoad _ => none
  | .rootHealthy _ _ => none
  | .rootCas _ _ => none

def DepartPc.atLeaf (pc : DepartPc) : Bool :=
  match pc.target? with
  | some (.token _ _) => true
  | _ => false

def Pc.undeparted : Pc → Bool
  | .departHealthy _ _ => true
  | .depart pc => pc.atLeaf
  | _ => false

def Pc.unwinding : Pc → Bool
  | .depart pc => !pc.atLeaf
  | .tailVerify _ => true
  | .tailLoad => true
  | .tailHealthy _ => true
  | .tailCas _ => true
  | _ => false

def Pc.admitted : Pc → Bool
  | .arrive _ _ _ => true
  | .enterFinish _ _ => true
  | .done (.entered _) => true
  | _ => false

section

variable {t : TreeSize} {sh sh' : Shared} {pc pc' : Pc} {leaf : Nat} {callers : List Nat}

theorem arriveReturn_represented (leaf : Nat) (callers : List Nat) (generation : UInt64) :
    (arriveReturn leaf callers generation).represented = true := by
  cases callers <;> rfl

variable {node : Nat} {state : UInt64}

theorem arriveDecide_represented {arrived : Bool} (hv : validNodeState state = true) :
    (arriveDecide leaf callers node arrived state).represented = arrived := by
  rw [arriveDecide, if_neg (by simp [hv])]
  split_ifs with hidle hmax harr
  · rw [arriveParent, hidle.2]
    cases Tree.parent node <;> rfl
  · rfl
  · exact (Bool.eq_false_iff.mpr harr).symm
  · rfl

variable {root : UInt64}

theorem rootArriveDecide_represented (hsome : (decodeRoot root).isSome) :
    (rootArriveDecide leaf callers root).represented = false := by
  obtain ⟨⟨phase, count⟩, hd⟩ := Option.isSome_iff_exists.mp hsome
  rw [rootArriveDecide, hd]
  cases phase with
  | opened | closed => simp only; split_ifs <;> rfl
  | _ => rfl

theorem observeOpenDecide_represented (t : TreeSize) (leaf : Nat)
    (hroot : ∃ phase count, decodeRoot root = some (phase, count)) :
    (observeOpenDecide t leaf root).represented = false := by
  obtain ⟨phase, count, hd⟩ := hroot
  rw [observeOpenDecide, hd]
  cases phase <;> rfl

variable {r : DepartResult}

theorem compensateReturn_represented {generation : UInt64}
    (hok : (compensateReturn leaf callers node generation r).Ok t sh) (hfail : ∀ e, r ≠ .fail e) :
    (compensateReturn leaf callers node generation r).represented = true := by
  cases r with
  | next d => rfl
  | active => exact arriveReturn_represented _ _ _
  | tail => exact hok.elim
  | fail e => exact absurd rfl (hfail e)
  | poison reason => exact hok.elim

theorem DepartMove.not_fail {d : DepartPc} (h : DepartMove t sh d sh' r) (e : CsnziError) :
    r ≠ .fail e := by
  cases h <;> simp

theorem setNode_ne {n : Nat} (h : (nodeCount state).toNat ≠ (nodeCount (sh.nodes n)).toNat) :
    (sh.setNode n state).nodes ≠ sh.nodes := by
  intro he
  have hn := congrFun he n
  simp only [Shared.setNode, update_self] at hn
  exact h (hn ▸ rfl)

theorem setRoot_ne {phase phase' : RootPhase} {count count' : UInt64}
    (hb : decodeRoot sh.root = some (phase, count)) (ha : decodeRoot root = some (phase', count'))
    (h : count'.toNat ≠ count.toNat) : (sh.setRoot root).root ≠ sh.root := by
  intro he
  have he' : root = sh.root := he
  rw [he'] at ha
  exact h (congrArg UInt64.toNat (decodeRoot_unique ha hb).2)

theorem represented_iff_of_goto (pc : Pc) {pc₁ : Pc} (h : (sh, pc₁) = (sh', pc'))
    (hsame : pc₁.represented = pc.represented) : pc'.represented = true ↔
      pc.represented = true ∨ sh'.root ≠ sh.root ∨ sh'.nodes ≠ sh.nodes := by
  cases h
  simp [hsame]

variable {weak : Bool}

theorem represented_iff_arrive {a : ArrivePc} (hs : Safe t sh (.arrive leaf callers a))
    (hok : a.Ok t sh leaf callers) (h : arriveStep t sh weak leaf callers a = (sh', pc')) :
    pc'.represented = true ↔ a.represented = true ∨ sh'.root ≠ sh.root ∨ sh'.nodes ≠ sh.nodes := by
  obtain ⟨phase, count, hroot, -⟩ := hs.root
  cases a with
  | healthy node arrived =>
    rw [arriveStep, ensureHealthy_of_healthy hs.poison] at h
    exact represented_iff_of_goto (.arrive leaf callers (.healthy node arrived)) h rfl
  | load node arrived =>
    exact represented_iff_of_goto (.arrive leaf callers (.load node arrived)) h
      (arriveDecide_represented (hs.valid node))
  | cas node arrived state =>
    rw [arriveStep] at h
    split at h
    · rename_i hcas
      obtain ⟨-, rfl⟩ := hcas
      cases h
      have hchange : (sh.setNode node (incremented (sh.nodes node))).nodes ≠ sh.nodes :=
        setNode_ne (by rw [(incremented_spec hok.2.1 hok.2.2.2).count]; omega)
      refine iff_of_true ?_ (.inr (.inr hchange))
      split_ifs
      · rfl
      · exact arriveReturn_represented _ _ _
    · exact represented_iff_of_goto (.arrive leaf callers (.cas node arrived state)) h rfl
  | rootLoad => exact represented_iff_of_goto (.arrive leaf callers .rootLoad) h rfl
  | rootHealthy root =>
    rw [arriveStep, ensureHealthy_of_healthy hs.poison] at h
    exact represented_iff_of_goto (.arrive leaf callers (.rootHealthy root)) h
      (rootArriveDecide_represented hok.2.1)
  | rootCas root =>
    rw [arriveStep] at h
    split at h
    · rename_i hcas
      obtain ⟨-, rfl⟩ := hcas
      cases h
      obtain ⟨-, phase₀, count₀, hd, hp, -, hmax⟩ := hok
      obtain ⟨hafter, hcount⟩ := decodeRoot_rootIncremented hd hp hmax
      have hchange : (sh.setRoot (rootIncremented sh.root)).root ≠ sh.root :=
        setRoot_ne hd hafter (by omega)
      exact iff_of_true (arriveReturn_represented _ _ _) (.inr (.inl hchange))
    · exact represented_iff_of_goto (.arrive leaf callers (.rootCas root)) h rfl
  | compensate node generation d =>
    refine iff_of_true ?_ (.inl rfl)
    have hok' := (arrive_step hs hok h).2
    have hd := hs.departs weak hok.2.1 (by simp [Pc.claims, ArrivePc.claims])
    rw [arriveStep] at h
    cases h
    exact compensateReturn_represented hok' hd.not_fail

theorem represented_iff_cas (hs : Safe t sh pc) (hok : pc.Ok t sh) (hin : pc.entering = true)
    (h : advance t sh weak pc = some (sh', pc')) : pc'.represented = true ↔
      pc.represented = true ∨ sh'.root ≠ sh.root ∨ sh'.nodes ≠ sh.nodes := by
  obtain ⟨phase, count, hroot, -⟩ := hs.root
  cases pc with
  | enterHealthy leaf =>
    rw [advance, ensureHealthy_of_healthy hs.poison] at h
    exact represented_iff_of_goto _ (Option.some.inj h) rfl
  | observeOpen leaf =>
    exact represented_iff_of_goto _ (Option.some.inj h)
      (observeOpenDecide_represented t leaf ⟨phase, count, hroot⟩)
  | enterFinish leaf generation =>
    rw [advance, ensureHealthy_of_healthy hs.poison] at h
    exact represented_iff_of_goto _ (Option.some.inj h) rfl
  | arrive leaf callers a => exact represented_iff_arrive hs hok (Option.some.inj h)
  | _ => cases hin

theorem advance_of_entering {i : In} (hin : pc.entering = true)
    (h : step t sh pc i = some (sh', pc')) :
    ∃ weak, advance t sh weak pc = some (sh', pc') ∧ (i = .go → weak = false) := by
  cases i with
  | call op =>
    rw [step] at h
    split_ifs at h with hidle
    cases hidle ▸ hin
  | go => exact ⟨false, h, fun _ => rfl⟩
  | spurious => exact ⟨true, h, by simp⟩

end

variable {P : Type} [Fintype P] {t : TreeSize} {c c' : Config P Shared Pc}

section

variable {phase : RootPhase} {count : UInt64}

theorem Inv.phase_of_drained (h : Inv t c phase count) (hd : c.sh.root = rootDrained) :
    phase = .drained ∧ count = 0 := by
  have hdrained : decodeRoot c.sh.root = some (.drained, 0) := hd ▸ decodeRoot_status .drained
  exact decodeRoot_unique h.root hdrained

theorem Inv.pend_zero (h : Inv t c phase count) (hz : count = 0) {x : Claim}
    (hx : x.Valid t.nodes) : pend t c x = 0 := by
  have hroot : counts c.sh none = 0 := by
    rw [counts_none_of_decode c.sh h.root, hz]
    rfl
  exact h.ledger.pend_eq_zero (fun _ _ => Tree.parent_lt) hroot hx

theorem Inv.claims_nil (h : Inv t c phase count) (hz : count = 0) (p : P) :
    (c.lo p).claims t = [] := by
  apply List.eq_nil_iff_forall_not_mem.mpr
  intro x hx
  have hpos := Inv.pend_pos_of_mem p hx
  have hzero := h.pend_zero hz (Pc.claims_valid (h.ok p) hx)
  omega

theorem Inv.tokens_nil (h : Inv t c phase count) (hz : count = 0) : c.sh.tokens = [] := by
  apply List.eq_nil_iff_forall_not_mem.mpr
  intro token htok
  exact h.token_count htok (h.idle_of_count hz (Tree.leaf_node_lt (h.tokens token htok).1))

variable {pc : Pc}

theorem represented_of_claims (h : pc.claims t = []) : pc.represented = false := by
  cases pc with
  | arrive leaf callers a => cases a <;> simp_all [Pc.claims, ArrivePc.claims, Pc.represented,
      ArrivePc.represented]
  | enterFinish leaf generation => cases h
  | done ret => cases ret <;> first | rfl | cases h
  | _ => rfl

theorem undeparted_of_claims (h : pc.claims t = []) : pc.undeparted = false := by
  cases pc with
  | departHealthy leaf generation | depart d => cases h
  | _ => rfl

theorem unwinding_of_claims (h : pc.claims t = []) (ht : pc.tails = 0) : pc.unwinding = false := by
  cases pc with
  | depart d => cases h
  | tailVerify index | tailLoad | tailHealthy root | tailCas root => cases ht
  | _ => rfl

theorem Inv.tails_zero (h : Inv t c phase count) (hd : phase.isTail = false) (p : P) :
    (c.lo p).tails = 0 := by
  have hle := le_tally Pc.tails c.lo p
  rw [h.tails, tailRole, hd] at hle
  simpa using hle

end

section

variable [DecidableEq P]

theorem drained_reach (hc : (machine t P).Reachable c) (hd : c.sh.root = rootDrained)
    (hr : (machine t P).Reach c c') : c'.sh.root = rootDrained := by
  obtain ⟨phase, count, h⟩ := reachable_inv hc
  obtain ⟨phase', count', h', ha⟩ := inv_reach h hr
  have hphase := ha.drained (h.phase_of_drained hd).1
  subst hphase
  exact eq_rootDrained_of_decode h'.root

def Pc.late (pc : Pc) : Prop := pc.admitted = false ∧ pc ≠ .done (.drained false)

structure Late (t : TreeSize) (q : P) (c : Config P Shared Pc) : Prop where
  reachable : (machine t P).Reachable c
  drained : c.sh.root = rootDrained
  late : (c.lo q).late

variable {pc' : Pc} {sh sh' : Shared}

omit [Fintype P] [DecidableEq P] in
theorem start_late {op : Op} (h : start t sh op = some (sh', pc')) : pc'.late := by
  have hdep : ∀ token, (departToken t token).late := by
    intro token
    rw [departToken]
    cases leafNode t token.leaf <;> exact ⟨rfl, by simp⟩
  cases op with
  | tryEnter leaf =>
    rw [start] at h
    cases hl : leafNode t leaf <;> rw [hl] at h <;>
      obtain ⟨rfl, rfl⟩ := Prod.ext_iff.mp (Option.some.inj h) <;> exact ⟨rfl, by simp⟩
  | depart token =>
    rw [start] at h
    split_ifs at h
    cases h
    exact hdep token
  | departRaw token =>
    rw [start] at h
    split_ifs at h
    cases h
    cases decodeRaw token.intoRaw with
    | none => exact ⟨rfl, by simp⟩
    | some decoded => exact hdep decoded
  | _ =>
    cases h
    exact ⟨rfl, by simp⟩

theorem observeOpenDecide_drained (t : TreeSize) (leaf : Nat) :
    observeOpenDecide t leaf rootDrained = .done (.error .tryEnter .closed) := by
  have hd : decodeRoot rootDrained = some (.drained, 0) := decodeRoot_status .drained
  rw [observeOpenDecide, hd]

theorem advance_late {pc : Pc} {weak : Bool} (hroot : sh.root = rootDrained)
    (hpoison : sh.poison = poisonNone) (hl : pc.late) (h : advance t sh weak pc = some (sh', pc')) :
    pc'.late := by
  cases pc with
  | idle => cases h
  | enterHealthy leaf =>
    rw [advance, ensureHealthy_of_healthy hpoison] at h
    cases h
    exact ⟨rfl, by simp⟩
  | observeOpen leaf =>
    rw [advance, hroot, observeOpenDecide_drained] at h
    cases h
    exact ⟨rfl, by simp⟩
  | arrive leaf callers a | enterFinish leaf generation => cases hl.1
  | departHealthy leaf generation =>
    rw [advance, ensureHealthy_of_healthy hpoison] at h
    cases h
    exact ⟨rfl, by simp⟩
  | depart d =>
    rw [advance] at h
    cases hd : departStep t sh weak d with
    | mk sh₁ r =>
      rw [hd] at h
      cases h
      cases r <;> exact ⟨rfl, by rintro ⟨⟩⟩
  | tailVerify index | closeVerify index =>
    cases h
    simp only [verifyNode]
    split_ifs <;> exact ⟨rfl, by simp⟩
  | tailHealthy root =>
    rw [advance, ensureHealthy_of_healthy hpoison, tailDecide] at h
    cases h
    split
    · exact ⟨rfl, by simp⟩
    · split_ifs <;> exact ⟨rfl, by simp⟩
  | tailCas root =>
    rw [advance] at h
    split_ifs at h <;> obtain ⟨rfl, rfl⟩ := Prod.mk.inj (Option.some.inj h) <;>
      exact ⟨rfl, by simp⟩
  | closeHealthy =>
    rw [advance, ensureHealthy_of_healthy hpoison] at h
    cases h
    exact ⟨rfl, by simp⟩
  | closeLoad =>
    rw [advance, hroot] at h
    cases h
    rw [closeDecide]
    split <;> exact ⟨rfl, by simp⟩
  | closeCas root =>
    rw [advance] at h
    split_ifs at h <;> cases h
    · rw [closeClaim]
      split
      · split_ifs <;> exact ⟨rfl, by simp⟩
      · exact ⟨rfl, by simp⟩
    · rw [closeDecide]
      split <;> exact ⟨rfl, by simp⟩
  | closeSeal =>
    rw [advance] at h
    split_ifs at h <;> obtain ⟨rfl, rfl⟩ := Prod.mk.inj (Option.some.inj h) <;>
      exact ⟨rfl, by simp⟩
  | drainedRoot =>
    rw [advance, if_pos hroot] at h
    cases h
    exact ⟨rfl, by simp⟩
  | drainedPoison =>
    rw [advance, hpoison] at h
    cases h
    exact ⟨rfl, by simp⟩
  | queryRoot =>
    cases h
    split_ifs <;> exact ⟨rfl, by simp⟩
  | _ =>
    cases h
    exact ⟨rfl, by simp⟩

variable {q : P}

theorem late_reach (h : Late t q c) (hr : (machine t P).Reach c c') : Late t q c' := by
  have hp : (machine t P).Preserves (Late t q) := by
    intro c p i sh pc hlate hs
    have hstep : (machine t P).Step c ⟨sh, update c.lo p pc⟩ :=
      ⟨p, i, Machine.next_eq_some.mpr ⟨sh, pc, hs, rfl⟩⟩
    refine ⟨hlate.reachable.step hstep,
      drained_reach hlate.reachable hlate.drained (Machine.Reach.step hstep), ?_⟩
    show (update c.lo p pc q).late
    by_cases hq : q = p
    · subst hq
      obtain ⟨phase, count, hinv⟩ := reachable_inv hlate.reachable
      rw [update_self]
      cases i with
      | call op =>
        have hs' : step t c.sh (c.lo q) (.call op) = some (sh, pc) := hs
        rw [step] at hs'
        split_ifs at hs'
        exact start_late hs'
      | go | spurious => exact advance_late hlate.drained hinv.poison hlate.late hs
    · rw [update_of_ne hq]
      exact hlate.late
  exact hp.reach h hr

theorem late_progress (h : Late t q c) {leaf : Nat} : (c.lo q = .enterHealthy leaf →
      ∃ c', (machine t P).next c q .go = some c' ∧ c'.lo q = .observeOpen leaf) ∧
    (c.lo q = .observeOpen leaf → ∃ c', (machine t P).next c q .go = some c' ∧
        c'.lo q = .done (.error .tryEnter .closed)) := by
  obtain ⟨phase, count, hinv⟩ := reachable_inv h.reachable
  constructor
  · intro hq
    refine ⟨⟨c.sh, update c.lo q (.observeOpen leaf)⟩,
      Machine.next_eq_some.mpr ⟨_, _, ?_, rfl⟩, update_self ..⟩
    simp only [machine, step, hq, advance, ensureHealthy_of_healthy hinv.poison]
  · intro hq
    refine ⟨⟨c.sh, update c.lo q (.done (.error .tryEnter .closed))⟩,
      Machine.next_eq_some.mpr ⟨_, _, ?_, rfl⟩, update_self ..⟩
    simp only [machine, step, hq, advance, h.drained, observeOpenDecide_drained]

end

variable [DecidableEq P]

structure Quiesced (t : TreeSize) (c : Config P Shared Pc) : Prop where
  nodes : ∀ n, n < t.nodes → nodeCount (c.sh.nodes n) = 0
  tokens : c.sh.tokens = []
  represented : ∀ p, (c.lo p).represented = false
  undeparted : ∀ p, (c.lo p).undeparted = false
  unwinding : ∀ p, (c.lo p).unwinding = false

structure Refuses (t : TreeSize) (q : P) (c : Config P Shared Pc) : Prop where
  admitted : (c.lo q).admitted = false
  drained : c.lo q ≠ .done (.drained false)
  healthy : ∀ leaf, c.lo q = .enterHealthy leaf →
    ∃ c', (machine t P).next c q .go = some c' ∧ c'.lo q = .observeOpen leaf
  observe : ∀ leaf, c.lo q = .observeOpen leaf →
    ∃ c', (machine t P).next c q .go = some c' ∧ c'.lo q = .done (.error .tryEnter .closed)

theorem csnzi_drain_safe (t : TreeSize) (c : Config P Shared Pc)
    (hc : (machine t P).Reachable c) :
    (∀ p, c.lo p = .done (.drained true) → c.sh.root = rootDrained) ∧
    (∀ p i c', (machine t P).next c p i = some c' → (c.lo p).entering = true →
      ((c'.lo p).represented = true ↔ (c.lo p).represented = true ∨
        c'.sh.root ≠ c.sh.root ∨ c'.sh.nodes ≠ c.sh.nodes)) ∧
    (c.sh.root = rootDrained → Quiesced t c ∧
      ∀ c₁, (machine t P).Reach c c₁ → c₁.sh.root = rootDrained ∧
        ∀ q, c₁.lo q = .idle → ∀ c₂, (machine t P).Reach c₁ c₂ → Refuses t q c₂) := by
  obtain ⟨phase, count, h⟩ := reachable_inv hc
  refine ⟨fun p hp => ?_, fun p i c' hn hin => ?_, fun hd => ?_⟩
  · have hok := h.ok p
    rw [hp] at hok
    exact hok
  · obtain ⟨sh, pc, hs, rfl⟩ := Machine.next_eq_some.mp hn
    simp only [update_self]
    obtain ⟨weak, hs, -⟩ := advance_of_entering hin hs
    exact represented_iff_cas (h.safe p) (h.ok p) hin hs
  · obtain ⟨rfl, rfl⟩ := h.phase_of_drained hd
    refine ⟨⟨fun _ hn => h.idle_of_count rfl hn, h.tokens_nil rfl,
      fun p => represented_of_claims (h.claims_nil rfl p),
      fun p => undeparted_of_claims (h.claims_nil rfl p),
      fun p => unwinding_of_claims (h.claims_nil rfl p) (h.tails_zero rfl p)⟩, ?_⟩
    intro c₁ hr₁
    have hd₁ := drained_reach hc hd hr₁
    refine ⟨hd₁, fun q hq c₂ hr₂ => ?_⟩
    have hstart : Late t q c₁ := ⟨hc.reach hr₁, hd₁, by rw [hq]; exact ⟨rfl, nofun⟩⟩
    have hlate := late_reach hstart hr₂
    exact ⟨hlate.late.1, hlate.late.2, fun _ => (late_progress hlate).1,
      fun _ => (late_progress hlate).2⟩

def drainTrace : List (Bool × In) :=
  (false, .call (.tryEnter 2)) :: List.replicate 12 (false, .go) ++
    [(true, .call .close), (true, .go), (true, .go), (true, .spurious), (true, .go), (true, .go),
      (false, .call (.departRaw ⟨2, 1⟩))] ++ List.replicate 14 (false, .go) ++
    [(true, .call .isDrained), (true, .go), (true, .go)]

theorem csnzi_drain_safe_after_close :
    ∃ c, (machine fourNodes Bool).Reachable c ∧ c.lo true = .done (.drained true) ∧
      c.sh.root = rootDrained ∧ Quiesced fourNodes c := by
  have hrun : ((machine fourNodes Bool).run (machine fourNodes Bool).init drainTrace).map
      (fun c => c.lo true) = some (.done (.drained true)) := by
    decide +kernel
  obtain ⟨c, hc, hv⟩ := Machine.exists_reachable hrun
  have hroot := (csnzi_drain_safe fourNodes c hc).1 true hv
  exact ⟨c, hc, hv, hroot, ((csnzi_drain_safe fourNodes c hc).2.2 hroot).1⟩

def Pc.poisoning : Pc → Bool
  | .poison _ _ => true
  | .poisonReason _ _ => true
  | .done (.error _ (.poisoned _)) => true
  | _ => false

theorem poisoning_of_ok {sh : Shared} {pc : Pc} (h : pc.Ok t sh) : pc.poisoning = false := by
  cases pc with
  | poison kind reason | poisonReason kind reason => exact h.elim
  | done ret =>
    cases ret with
    | error kind error =>
      cases kind with
      | tryEnter => cases error <;> first | rfl | exact False.elim h
      | depart | close => exact False.elim h
    | _ => rfl
  | _ => rfl

theorem csnzi_never_poisons (t : TreeSize) (c : Config P Shared Pc)
    (hc : (machine t P).Reachable c) :
    c.sh.poison = poisonNone ∧
      ∀ p, (c.lo p).poisoning = false ∧ ∀ e, c.lo p ≠ .done (.error .depart e) := by
  obtain ⟨phase, count, h⟩ := reachable_inv hc
  refine ⟨h.poison, fun p => ⟨poisoning_of_ok (h.ok p), fun e hp => ?_⟩⟩
  have hok := h.ok p
  rw [hp] at hok
  exact hok

def compensationTrace : List (Bool × In) :=
  (false, .call (.tryEnter 0)) :: List.replicate 7 (false, .go) ++
    (true, .call (.tryEnter 0)) :: List.replicate 10 (true, .go) ++ List.replicate 3 (false, .go)

theorem csnzi_never_poisons_in_compensation :
    ∃ c, (machine fourNodes Bool).Reachable c ∧
      c.lo false = .arrive 0 [] (.compensate 0 1 (.rootLoad 0)) ∧ c.sh.poison = poisonNone := by
  have hrun : ((machine fourNodes Bool).run (machine fourNodes Bool).init compensationTrace).map
      (fun c => c.lo false) = some (.arrive 0 [] (.compensate 0 1 (.rootLoad 0))) := by
    decide +kernel
  obtain ⟨c, hc, hv⟩ := Machine.exists_reachable hrun
  exact ⟨c, hc, hv, (csnzi_never_poisons fourNodes c hc).1⟩

end DevHermit.Shmem.Csnzi
