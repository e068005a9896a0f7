import DevHermit.Shmem.Csnzi.Step

namespace DevHermit.Shmem.Csnzi

open Lib CounterTree Function Shmem.Tree

variable {P : Type} [Fintype P] {t : TreeSize} {c : Config P Shared Pc}

def pend (t : TreeSize) (c : Config P Shared Pc) (x : Claim) : Nat :=
  pooled t c.sh x + tally (fun pc => (pc.claims t).count x) c.lo

structure Inv (t : TreeSize) (c : Config P Shared Pc) (phase : RootPhase) (count : UInt64) :
    Prop where
  root : decodeRoot c.sh.root = some (phase, count)
  busy : phase = .closed → count ≠ 0
  poison : c.sh.poison = poisonNone
  valid : ∀ n, validNodeState (c.sh.nodes n) = true
  ledger : Ledger t.nodes Tree.parent (counts c.sh) (pend t c)
  tails : tally Pc.tails c.lo = tailRole phase
  closers : tally Pc.closers c.lo = closerRole phase
  tokens : ∀ token ∈ c.sh.tokens, Issued t c.sh token.leaf token.generation
  ok : ∀ p, (c.lo p).Ok t c.sh

section

variable {sh : Shared}

theorem counts_setNode (n : Nat) (state : UInt64) : counts (sh.setNode n state) =
      update (counts sh) (some n) (nodeCount state).toNat := by
  funext s
  cases s with
  | none => rfl
  | some m =>
    by_cases hm : m = n
    · subst hm
      simp [counts, Shared.setNode]
    · have hne : (some m : Option Nat) ≠ some n := fun he => hm (Option.some.inj he)
      simp [counts, Shared.setNode, update_of_ne hm, update_of_ne hne]

theorem counts_setRoot {root : UInt64} {phase : RootPhase} {count : UInt64}
    (h : decodeRoot root = some (phase, count)) :
    counts (sh.setRoot root) = update (counts sh) none count.toNat := by
  funext s
  cases s with
  | none => simp [counts, Shared.setRoot, (rootIs_of_decode h).field]
  | some m => rfl

theorem toNat_eq_zero {w : UInt64} : w.toNat = 0 ↔ w = 0 :=
  ⟨fun h => UInt64.toNat_inj.mp h, fun h => h ▸ rfl⟩

end

section

variable {phase : RootPhase} {count : UInt64}

theorem Inv.pend_pos_of_mem (p : P) {x : Claim} (hx : x ∈ (c.lo p).claims t) : 0 < pend t c x := by
  have hle := le_tally (fun pc => (pc.claims t).count x) c.lo p
  have hpos : 0 < ((c.lo p).claims t).count x := List.count_pos_iff.mpr hx
  simp only [pend]
  omega

section

variable (h : Inv t c phase count)
include h

theorem Inv.counts_pos (p : P) {x : Claim}
    (hx : x ∈ (c.lo p).claims t) : counts c.sh (site parent x) ≠ 0 := by
  have hle := h.ledger.pend_le (Pc.claims_valid (h.ok p) hx)
  have hpos := Inv.pend_pos_of_mem p hx
  omega

theorem Inv.token_count {token : Token} (htok : token ∈ c.sh.tokens) :
    nodeCount (c.sh.nodes (leafStart t.nodes + token.leaf)) ≠ 0 := by
  have hmem : leafClaim t token.leaf ∈ c.sh.tokens.map fun u => leafClaim t u.leaf :=
    List.mem_map_of_mem htok
  have hpos : 0 < pooled t c.sh (leafClaim t token.leaf) := List.count_pos_iff.mpr hmem
  have hvalid : (leafClaim t token.leaf).Valid t.nodes := leaf_node_lt (h.tokens token htok).1
  have hle := h.ledger.pend_le hvalid
  simp only [pend, leafClaim, site, counts] at hle hpos
  intro hz
  rw [toNat_eq_zero.mpr hz] at hle
  omega

theorem Inv.redundant (p : P) {leaf node : Nat} {callers : List Nat}
    {generation : UInt64} {d : DepartPc}
    (hp : c.lo p = .arrive leaf callers (.compensate node generation d)) :
    2 ≤ counts c.sh (parent node) := by
  have hok := h.ok p
  rw [hp] at hok
  obtain ⟨hf, -, hclaim, -⟩ := hok
  have hown : counts c.sh (some node) ≠ 0 := by
    rw [← hf.site]
    exact h.counts_pos p (by rw [hp]; simp [Pc.claims, ArrivePc.claims])
  have hchild : 0 < pend t c (.child node) :=
    Inv.pend_pos_of_mem p (by rw [hp]; simp [Pc.claims, ArrivePc.claims, hclaim])
  have hle := Balanced.le_count h.ledger (x := .child node) hf.lt
  simp only [site, weight, live, hown, if_false] at hle
  omega

theorem Inv.idle_of_count (hz : count = 0) {n : Nat}
    (hn : n < t.nodes) : nodeCount (c.sh.nodes n) = 0 := by
  have hroot : counts c.sh none = 0 := by
    rw [counts_none_of_decode c.sh h.root, hz]
    rfl
  exact toNat_eq_zero.mp (h.ledger.count_eq_zero_of_root (fun _ _ => parent_lt) hroot hn)

theorem Inv.tailRoot (p : P) (hp : (c.lo p).tails = 1) : phase.isTail = true ∧ count = 0 := by
  have hle := le_tally Pc.tails c.lo p
  rw [h.tails, hp, tailRole] at hle
  have htail : phase.isTail = true := by
    by_contra hne
    simp [hne] at hle
  refine ⟨htail, (rootIs_of_decode h.root).empty ?_⟩
  cases phase <;> first | rfl | cases htail

theorem Inv.closingRoot (p : P) (hp : (c.lo p).closers = 1) : phase = .closing ∧ count = 0 := by
  have hle := le_tally Pc.closers c.lo p
  rw [h.closers, hp, closerRole] at hle
  have hclosing : phase = .closing := by
    by_contra hne
    simp [hne] at hle
  subst hclosing
  exact ⟨rfl, (rootIs_of_decode h.root).empty rfl⟩

theorem Inv.safe (p : P) : Safe t c.sh (c.lo p) where
  poison := h.poison
  valid := h.valid
  root := ⟨phase, count, h.root, h.busy⟩
  claims := fun _ hx => h.counts_pos p hx
  redundant := fun _ _ _ _ _ hp => h.redundant p hp
  tail := by
    intro hp
    obtain ⟨htail, rfl⟩ := h.tailRoot p hp
    exact ⟨⟨phase, h.root, htail⟩, fun _ hn => h.idle_of_count rfl hn⟩
  closer := by
    intro hp
    obtain ⟨rfl, rfl⟩ := h.closingRoot p hp
    refine ⟨?_, fun _ hn => h.idle_of_count rfl hn⟩
    rw [(rootIs_of_decode h.root).eq_rootWord]
    exact UInt64.or_zero
  tokens := fun token htok => ⟨h.tokens token htok, h.token_count htok⟩

end

end

variable {phase : RootPhase} {count : UInt64} [DecidableEq P] {p : P} {sh' : Shared} {pc' : Pc}
  {state : UInt64}

variable {n : Nat} {sh : Shared}

omit [Fintype P] [DecidableEq P] in
theorem stable_setNode
    (hg : nodeCount (sh.nodes n) ≠ 0 → nodeGeneration state = nodeGeneration (sh.nodes n)) :
    Stable sh (sh.setNode n state) where
  generation := by
    intro m hm
    by_cases hmn : m = n
    · subst hmn
      simpa [Shared.setNode] using hg hm
    · simp [Shared.setNode, update_of_ne hmn]
  closed := id
  drained := id

variable {count' : UInt64} {pc : Pc} {phase' : RootPhase} {root : UInt64}

theorem Reroot.stable {pc' : Pc} {phase : RootPhase} {count : UInt64}
    (h : Reroot sh pc root pc' phase phase' count count') :
    Stable sh (sh.setRoot root) where
  generation := fun _ _ => rfl
  closed := fun hc => (isClosed_iff h.after).mpr (h.closed ((isClosed_iff h.before).mp hc))
  drained := by
    intro hd
    have hdrained : decodeRoot sh.root = some (.drained, 0) := hd ▸ decodeRoot_status .drained
    exact absurd (decodeRoot_unique h.before hdrained).1 h.undrained

theorem Move.stable (h : Move t sh pc sh' pc') : Stable sh sh' := by
  cases h with
  | quiet _ _ hr hn =>
    exact ⟨fun _ _ => by rw [hn], fun hc => by rw [hr]; exact hc, fun hd => by rw [hr]; exact hd⟩
  | join n x state _ _ _ harr hc => exact stable_setNode fun _ => harr.generation.trans (if_neg hc)
  | publish n x state _ _ _ _ hc => exact stable_setNode fun hne => absurd hc hne
  | leave n x state _ _ _ hdep => exact stable_setNode fun _ => hdep.generation
  | retire n x state _ _ _ hdep => exact stable_setNode fun _ => hdep.generation
  | rootJoin x root _ _ _ _ _ _ _ hr => exact hr.stable
  | rootLeave x root _ _ _ _ _ _ _ hr => exact hr.stable
  | reroot root _ _ _ _ hr => exact hr.stable

theorem pend_update (t : TreeSize) (c : Config P Shared Pc) (p : P) (sh' : Shared) (pc' : Pc) (x : Claim) :
    pend t ⟨sh', update c.lo p pc'⟩ x + hold t c.sh (c.lo p) x = pend t c x + hold t sh' pc' x := by
  have h := tally_update (fun pc => (pc.claims t).count x) c.lo p pc'
  simp only [pend, hold]
  omega

theorem pend_cas (t : TreeSize) (p : P) (pc' : Pc) (htok : sh'.tokens = c.sh.tokens) (x : Claim) :
    pend t ⟨sh', update c.lo p pc'⟩ x + ((c.lo p).claims t).count x =
      pend t c x + (pc'.claims t).count x := by
  have h := tally_update (fun pc => (pc.claims t).count x) c.lo p pc'
  simp only [pend, pooled, htok]
  omega

theorem ok_update (h : Inv t c phase count) (hm : Stable c.sh sh') (hok : pc'.Ok t sh') (q : P) :
    (update c.lo p pc' q).Ok t sh' := by
  by_cases hq : q = p
  · subst hq
    rw [update_self]
    exact hok
  · rw [update_of_ne hq]
    exact (h.ok q).stable hm fun _ hx => h.counts_pos q hx

omit [DecidableEq P] in
theorem tokens_stable (h : Inv t c phase count) (hm : Stable c.sh sh')
    {token : Token} (htok : token ∈ c.sh.tokens) : Issued t sh' token.leaf token.generation := by
  refine (h.tokens token htok).stable hm fun hz => h.token_count htok ?_
  exact toNat_eq_zero.mp hz

theorem roles_same (h : Inv t c phase count) (hr : SameRoles (c.lo p) pc') :
    tally Pc.tails (update c.lo p pc') = tailRole phase ∧
      tally Pc.closers (update c.lo p pc') = closerRole phase := by
  have h₁ := tally_update Pc.tails c.lo p pc'
  have h₂ := tally_update Pc.closers c.lo p pc'
  rw [hr.tails, h.tails] at h₁
  rw [hr.closers, h.closers] at h₂
  exact ⟨by omega, by omega⟩

theorem inv_setNode (h : Inv t c phase count) (hv : validNodeState state = true)
    (hstable : Stable c.sh (c.sh.setNode n state)) (hr : SameRoles (c.lo p) pc')
    (hok : pc'.Ok t (c.sh.setNode n state))
    (hl : Ledger t.nodes parent
      (update (counts c.sh) (some n) (nodeCount state).toNat)
      (pend t ⟨c.sh.setNode n state, update c.lo p pc'⟩)) :
    Inv t ⟨c.sh.setNode n state, update c.lo p pc'⟩ phase count where
  root := h.root
  busy := h.busy
  poison := h.poison
  valid := by
    intro m
    by_cases hm : m = n
    · subst hm
      simpa [Shared.setNode] using hv
    · simpa [Shared.setNode, update_of_ne hm] using h.valid m
  ledger := by
    rw [counts_setNode]
    exact hl
  tails := (roles_same h hr).1
  closers := (roles_same h hr).2
  tokens := fun _ htok => tokens_stable h hstable htok
  ok := ok_update h hstable hok

theorem inv_setRoot (h : Inv t c phase count) {phase₀ : RootPhase} {count₀ : UInt64}
    (hr : Reroot c.sh (c.lo p) root pc' phase₀ phase' count₀ count')
    (hok : pc'.Ok t (c.sh.setRoot root))
    (hl : Ledger t.nodes parent (update (counts c.sh) none count'.toNat)
      (pend t ⟨c.sh.setRoot root, update c.lo p pc'⟩)) :
    Inv t ⟨c.sh.setRoot root, update c.lo p pc'⟩ phase' count' := by
  obtain ⟨rfl, rfl⟩ := decodeRoot_unique h.root hr.before
  have h₁ := tally_update Pc.tails c.lo p pc'
  have h₂ := tally_update Pc.closers c.lo p pc'
  have h₃ := hr.tails
  have h₄ := hr.closers
  rw [h.tails] at h₁
  rw [h.closers] at h₂
  refine ⟨hr.after, hr.busy, h.poison, h.valid, ?_, ?_, ?_,
    fun _ htok => tokens_stable h hr.stable htok, ok_update h hr.stable hok⟩
  · rw [counts_setRoot hr.after]
    exact hl
  · show tally Pc.tails (update c.lo p pc') = _
    omega
  · show tally Pc.closers (update c.lo p pc') = _
    omega

structure Advances (phase phase' : RootPhase) : Prop where
  closed : phase.isClosed = true → phase'.isClosed = true
  drained : phase = .drained → phase' = .drained

theorem Advances.refl (phase : RootPhase) : Advances phase phase := ⟨id, id⟩

theorem Reroot.advances {pc' : Pc} {phase : RootPhase} {count : UInt64}
    (h : Reroot sh pc root pc' phase phase' count count') :
    Advances phase phase' := ⟨h.closed, fun hd => absurd hd h.undrained⟩

theorem inv_quiet (h : Inv t c phase count) (hstable : Stable c.sh sh')
    (hroot : sh'.root = c.sh.root) (hnodes : sh'.nodes = c.sh.nodes)
    (hpoison : sh'.poison = c.sh.poison)
    (htokens : ∀ token ∈ sh'.tokens, token ∈ c.sh.tokens ∨ c.lo p = .done (.entered token))
    (hhold : ∀ x, hold t sh' pc' x = hold t c.sh (c.lo p) x) (hroles : SameRoles (c.lo p) pc')
    (hok : pc'.Ok t sh') : Inv t ⟨sh', update c.lo p pc'⟩ phase count := by
  have hcounts : counts sh' = counts c.sh := by
    funext s
    cases s <;> simp [counts, hroot, hnodes]
  have hpend : ∀ x, pend t ⟨sh', update c.lo p pc'⟩ x = pend t c x := by
    intro x
    have hx := pend_update t c p sh' pc' x
    rw [hhold x] at hx
    omega
  refine ⟨hroot ▸ h.root, h.busy, hpoison ▸ h.poison, hnodes ▸ h.valid,
    hcounts ▸ h.ledger.congr hpend, (roles_same h hroles).1, (roles_same h hroles).2,
    fun token htok => ?_, ok_update h hstable hok⟩
  rcases htokens token htok with hold | hdone
  · exact tokens_stable h hstable hold
  · have hissued := h.ok p
    have hclaim : leafClaim t token.leaf ∈ (c.lo p).claims t := by
      rw [hdone]
      exact List.mem_singleton.mpr rfl
    rw [hdone] at hissued
    exact Issued.stable hissued hstable (h.counts_pos p hclaim)

theorem inv_move (h : Inv t c phase count) (hm : Move t c.sh (c.lo p) sh' pc')
    (hok : pc'.Ok t sh') : ∃ phase' count', Inv t ⟨sh', update c.lo p pc'⟩ phase' count' ∧
      Advances phase phase' := by
  have hstable := hm.stable
  cases hm with
  | quiet _ _ hroot hnodes hpoison htokens hhold hroles =>
    exact ⟨phase, count, inv_quiet h hstable hroot hnodes hpoison htokens hhold hroles hok,
      Advances.refl _⟩
  | join n x state _ hx hs harr hc hclaims hroles =>
    refine ⟨phase, count, inv_setNode h harr.valid hstable hroles hok ?_, Advances.refl _⟩
    have hp : ∀ y, pend t ⟨c.sh.setNode n state, update c.lo p pc'⟩ y = pend t c y + unit x y := by
      intro y
      have hy := pend_cas t p pc' (rfl : (c.sh.setNode n state).tokens = c.sh.tokens) y
      rw [hclaims y] at hy
      omega
    have hbusy : counts c.sh (site parent x) ≠ 0 := by
      rw [hs]
      exact fun hz => hc (toNat_eq_zero.mp hz)
    have hl := h.ledger.join hx (.inr hbusy) hp
    rw [hs] at hl
    rw [harr.count]
    exact hl
  | publish n x state _ hx hs harr hc hclaims hroles =>
    refine ⟨phase, count, inv_setNode h harr.valid hstable hroles hok ?_, Advances.refl _⟩
    rw [harr.count, hc]
    refine h.ledger.publish hx hs (toNat_eq_zero.mpr hc) fun y => ?_
    have hy := pend_cas t p pc' (rfl : (c.sh.setNode n state).tokens = c.sh.tokens) y
    have := hclaims y
    omega
  | leave n x state _ hx hs hdep hc hclaims hroles =>
    refine ⟨phase, count, inv_setNode h hdep.valid hstable hroles hok ?_, Advances.refl _⟩
    have hp : ∀ y, pend t c y = pend t ⟨c.sh.setNode n state, update c.lo p pc'⟩ y + unit x y := by
      intro y
      have hy := pend_cas t p pc' (rfl : (c.sh.setNode n state).tokens = c.sh.tokens) y
      rw [hclaims y] at hy
      omega
    have hcount := hdep.count
    have hbusy : 2 ≤ counts c.sh (site parent x) := by
      have hne : (nodeCount (c.sh.nodes n)).toNat ≠ 1 := fun he => hc (UInt64.toNat_inj.mp he)
      rw [hs, counts]
      omega
    have hl := h.ledger.leave hx (.inr hbusy) hp
    rw [hs, counts, ← hcount] at hl
    exact hl
  | retire n x state _ hx hs hdep hc hclaims hroles =>
    refine ⟨phase, count, inv_setNode h hdep.valid hstable hroles hok ?_, Advances.refl _⟩
    have hcount := hdep.count
    rw [hc] at hcount
    have hz : (nodeCount state).toNat = 0 := Nat.succ.inj hcount
    rw [hz]
    refine h.ledger.retire hx hs (congrArg UInt64.toNat hc) fun y => ?_
    have hy := pend_cas t p pc' (rfl : (c.sh.setNode n state).tokens = c.sh.tokens) y
    have := hclaims y
    omega
  | rootJoin x root _ phase₀ phase' count₀ count' hx hs hr hcount hclaims =>
    obtain ⟨rfl, rfl⟩ := decodeRoot_unique h.root hr.before
    refine ⟨phase', count', inv_setRoot h hr hok ?_, hr.advances⟩
    have hp : ∀ y, pend t ⟨c.sh.setRoot root, update c.lo p pc'⟩ y = pend t c y + unit x y := by
      intro y
      have hy := pend_cas t p pc' (rfl : (c.sh.setRoot root).tokens = c.sh.tokens) y
      rw [hclaims y] at hy
      omega
    have hl := h.ledger.join hx (.inl hs) hp
    rw [hs, counts_none_of_decode c.sh h.root, ← hcount] at hl
    exact hl
  | rootLeave x root _ phase₀ phase' count₀ count' hx hs hr hcount hclaims =>
    obtain ⟨rfl, rfl⟩ := decodeRoot_unique h.root hr.before
    refine ⟨phase', count', inv_setRoot h hr hok ?_, hr.advances⟩
    have hp : ∀ y, pend t c y = pend t ⟨c.sh.setRoot root, update c.lo p pc'⟩ y + unit x y := by
      intro y
      have hy := pend_cas t p pc' (rfl : (c.sh.setRoot root).tokens = c.sh.tokens) y
      rw [hclaims y] at hy
      omega
    have hl := h.ledger.leave hx (.inl hs) hp
    rw [hs, counts_none_of_decode c.sh h.root, ← hcount] at hl
    exact hl
  | reroot root _ phase₀ phase' count₀ hr hclaims =>
    obtain ⟨rfl, rfl⟩ := decodeRoot_unique h.root hr.before
    refine ⟨phase', count, inv_setRoot h hr hok ?_, hr.advances⟩
    have hsame : update (counts c.sh) none count.toNat = counts c.sh := by
      rw [← counts_none_of_decode c.sh h.root, update_eq_self]
    rw [hsame]
    refine h.ledger.congr fun y => ?_
    have hy := pend_cas t p pc' (rfl : (c.sh.setRoot root).tokens = c.sh.tokens) y
    rw [hclaims y] at hy
    omega

omit [DecidableEq P] in
theorem inv_init : Inv t (machine t P).init .opened 0 where
  root := decodeRoot_status .opened
  busy := by rintro ⟨⟩
  poison := rfl
  valid := fun _ => validNodeState_zero
  ledger := by
    have hcounts : counts (machine t P).init.sh = fun _ => 0 := by
      funext s
      cases s with
      | none => exact counts_none_of_decode (machine t P).start (decodeRoot_status .opened)
      | some n => exact toNat_eq_zero.mpr nodeCount_zero
    rw [hcounts]
    refine Ledger.init.congr fun y => ?_
    simp [pend, pooled, tally, machine, Machine.init, Pc.claims]
  tails := by simp [tally, machine, Machine.init, Pc.tails, tailRole, RootPhase.isTail]
  closers := by simp [tally, machine, Machine.init, Pc.closers, closerRole]
  tokens := by rintro token ⟨⟩
  ok := fun _ => trivial

variable {c' : Config P Shared Pc}

theorem inv_next (h : Inv t c phase count) {i : In} (hn : (machine t P).next c p i = some c') :
    ∃ phase' count', Inv t c' phase' count' ∧ Advances phase phase' := by
  obtain ⟨sh, pc, hs, rfl⟩ := Machine.next_eq_some.mp hn
  obtain ⟨hm, hok⟩ := step_move (h.safe p) (h.ok p) hs
  exact inv_move h hm hok

theorem inv_reach (h : Inv t c phase count) (hr : (machine t P).Reach c c') :
    ∃ phase' count', Inv t c' phase' count' ∧ Advances phase phase' := by
  induction hr with
  | start => exact ⟨phase, count, h, Advances.refl _⟩
  | step _ _ hn ih =>
    obtain ⟨phase₁, count₁, h₁, ha₁⟩ := ih
    obtain ⟨phase₂, count₂, h₂, ha₂⟩ := inv_next h₁ hn
    exact ⟨phase₂, count₂, h₂, fun hc => ha₂.closed (ha₁.closed hc),
      fun hd => ha₂.drained (ha₁.drained hd)⟩

theorem reachable_inv (hc : (machine t P).Reachable c) : ∃ phase count, Inv t c phase count := by
  obtain ⟨phase, count, h, -⟩ := inv_reach inv_init hc
  exact ⟨phase, count, h⟩

end DevHermit.Shmem.Csnzi
