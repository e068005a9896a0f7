import DevHermit.Shmem.Snzi.Invariant

namespace DevHermit.Shmem.Snzi

open Lib CounterTree Function Machine

variable {P : Type} [DecidableEq P] {t : TreeSize} {c : Config P Shared Pc}

def Outstanding (c : Config P Shared Pc) (token : Token) : Prop :=
  token ∈ c.sh.tokens ∨ ∃ p, c.lo p = .done (.arrived token)

structure Resting (c : Config P Shared Pc) : Prop where
  idle : ∀ p, c.lo p = .idle
  departed : c.sh.tokens = []
  healthy : c.sh.mem.poison = poisonNone

def solo (q : P) (op : Op) (steps : Nat) : List (P × In) :=
  (q, .call op) :: List.replicate steps (q, .go)

structure Vacant (m : Memory) : Prop where
  root : m.root = 0
  poison : m.poison = poisonNone
  nodes : ∀ n, stateIsHalf (m.nodes n) = false ∧ stateCount (m.nodes n) = 0

variable {m' : Memory} {pc' : Pc} {q : P}

theorem next_of_advance (hd : ∀ ret, c.lo q ≠ .done ret)
    (h : advance t c.sh.mem (c.lo q) = some (m', pc')) :
    (machine t P).next c q .go = some ⟨⟨m', c.sh.tokens⟩, update c.lo q pc'⟩ := by
  have hstep : (machine t P).step q c.sh (c.lo q) .go = some (⟨m', c.sh.tokens⟩, pc') := by
    show step t c.sh (c.lo q) .go = _
    rw [step_go hd, h]
    rfl
  rw [next, hstep]
  rfl

theorem query_of_root (hroot : c.sh.mem.root ≠ 0) (hq : c.lo q = .queryRoot) :
    (machine t P).next c q .go = some ⟨c.sh, update c.lo q (.done (.active true))⟩ := by
  refine next_of_advance (by rw [hq]; rintro ret ⟨⟩) ?_
  rw [hq, advance, if_pos hroot]

variable {pc : Pc} {sh : Shared}

theorem next_update {lo : P → Pc} (hd : ∀ ret, pc ≠ .done ret)
    (h : advance t sh.mem pc = some (m', pc')) : (machine t P).next ⟨sh, update lo q pc⟩ q .go =
      some ⟨⟨m', sh.tokens⟩, update lo q pc'⟩ := by
  have hq : (update lo q pc) q = pc := update_self _ _ _
  have hn := next_of_advance (c := ⟨sh, update lo q pc⟩) (q := q)
    (fun ret he => hd ret (hq.symm.trans he)) ((congrArg (advance t sh.mem) hq).trans h)
  rwa [update_idem] at hn

theorem next_scan (hv : Vacant sh.mem) (s : Scan) (index : Nat) (lo : P → Pc) (q : P) :
    (machine t P).next ⟨sh, update lo q (.scanNode index s)⟩ q .go = some ⟨sh, update lo q
        (if index + 1 < t.nodes then .scanNode (index + 1) s else .scanRoot s)⟩ := by
  refine next_update nofun ?_
  rw [advance, show s.visit _ = s by simp [Scan.visit, hv.nodes index]]

theorem run_scan (hv : Vacant sh.mem) (s : Scan) (k index : Nat) (hk : index + (k + 1) = t.nodes)
    (lo : P → Pc) (q : P) (rest : List (P × In)) :
    (machine t P).run ⟨sh, update lo q (.scanNode index s)⟩
        (List.replicate (k + 1) (q, .go) ++ rest) =
      (machine t P).run ⟨sh, update lo q (.scanRoot s)⟩ rest := by
  induction k generalizing index with
  | zero =>
    rw [List.replicate_succ, List.cons_append, run_cons, next_scan hv s index lo q, if_neg (by omega)]
    rfl
  | succ k ih =>
    rw [List.replicate_succ, List.cons_append, run_cons, next_scan hv s index lo q, if_pos (by omega)]
    exact ih (index + 1) (by omega)

theorem next_call {op : Op} (hidle : c.lo q = .idle) (h : start t c.sh op = some (sh, pc)) :
    (machine t P).next c q (.call op) = some ⟨sh, update c.lo q pc⟩ := by
  have hstep : (machine t P).step q c.sh (c.lo q) (.call op) = some (sh, pc) := by
    show step t c.sh (c.lo q) (.call op) = _
    rw [step, if_pos hidle, h]
  rw [next, hstep]
  rfl

theorem run_query (hv : Vacant c.sh.mem) (hidle : c.lo q = .idle) :
    (machine t P).run c (solo q .query 2) = some ⟨c.sh, update c.lo q (.done (.active false))⟩ := by
  have hroot : (machine t P).next ⟨c.sh, update c.lo q .queryRoot⟩ q .go =
      some ⟨c.sh, update c.lo q .queryPoison⟩ := by
    refine next_update nofun ?_
    rw [advance, if_neg (not_not.mpr hv.root)]
  have hpoison : (machine t P).next ⟨c.sh, update c.lo q .queryPoison⟩ q .go =
      some ⟨c.sh, update c.lo q (.done (.active false))⟩ := by
    refine next_update nofun ?_
    simp [advance, hv.poison]
  have hcall : (machine t P).next c q (.call .query) =
      some ⟨c.sh, update c.lo q .queryRoot⟩ := next_call hidle rfl
  simp only [solo, List.replicate, run_cons, System.run, hcall, hroot, hpoison, Option.bind_some]

theorem run_isQuiescent (hv : Vacant c.sh.mem) (hidle : c.lo q = .idle) :
    (machine t P).run c (solo q .isQuiescent (t.nodes + 2)) =
      some ⟨c.sh, update c.lo q (.done (.quiescent true))⟩ := by
  have hroot : (machine t P).next ⟨c.sh, update c.lo q (.scanRoot ⟨0, 0, 0, 0⟩)⟩ q .go =
      some ⟨c.sh, update c.lo q (.scanPoison ⟨0, 0, 0, 0⟩ c.sh.mem.root)⟩ :=
    next_update nofun rfl
  have hpoison : (machine t P).next
      ⟨c.sh, update c.lo q (.scanPoison ⟨0, 0, 0, 0⟩ c.sh.mem.root)⟩ q .go =
      some ⟨c.sh, update c.lo q (.done (.quiescent true))⟩ := by
    refine next_update nofun ?_
    rw [advance, hv.root, hv.poison]
    rfl
  have hcall : (machine t P).next c q (.call .isQuiescent) =
      some ⟨c.sh, update c.lo q (.scanNode 0 ⟨0, 0, 0, 0⟩)⟩ := next_call hidle rfl
  have hnodes : t.nodes - 1 + 1 = t.nodes := Nat.succ_pred_eq_of_pos t.nodes_pos
  have hscan := run_scan (t := t) hv ⟨0, 0, 0, 0⟩ (t.nodes - 1) 0 (by omega) c.lo q
    (List.replicate 2 (q, .go))
  rw [hnodes] at hscan
  simp only [solo, run_cons, hcall, Option.bind_some, List.replicate_add]
  rw [hscan]
  simp only [List.replicate, run_cons, System.run, hroot, hpoison, Option.bind_some]

variable [Fintype P] {L M : Claim → Nat}

theorem Inv.outstanding_root (h : Inv t c L M) {token : Token} (ho : Outstanding c token) :
    c.sh.mem.root ≠ 0 := by
  rcases ho with ht | ⟨p, hp⟩
  · refine h.books.root_ne_zero (x := leafClaim t token.leaf)
      (Tree.leaf_node_lt (h.tokens token ht).1) ?_
    rw [pooled_erase t ht]
    simp only [Pi.add_apply, unit_self]
    omega
  · have hok := h.ok p
    rw [hp] at hok
    refine h.books.root_ne_zero (x := leafClaim t token.leaf) (Tree.leaf_node_lt hok.1) ?_
    obtain ⟨R, hR, -⟩ := gather_split (Pc.solid t) c.lo p
    rw [hR, hp]
    simp only [Pi.add_apply, Pc.solid, unit_self]
    omega

omit [DecidableEq P] in
theorem Inv.vacant (h : Inv t c L M) (hr : Resting c) : Vacant c.sh.mem := by
  obtain ⟨rfl, rfl⟩ := h.lost hr.healthy fun p => by rw [hr.idle p]; rfl
  have hsolid : gather (Pc.solid t) c.lo = 0 := Finset.sum_eq_zero fun p _ => by rw [hr.idle p]; rfl
  have hvowed : gather Pc.vowed c.lo = 0 := Finset.sum_eq_zero fun p _ => by rw [hr.idle p]; rfl
  have hb := h.books
  rw [hsolid, hvowed, hr.departed] at hb
  obtain ⟨hroot, hnodes⟩ := hb.idle_of_no_claim
  exact ⟨hroot, hr.healthy, hnodes⟩

def Benign (reason : PoisonReason) : Prop :=
  reason ≠ .invariantViolation ∧ reason ≠ .compensationOverflow

theorem benign_of_capacity {reason : PoisonReason} (h : reason.isCapacity = true) :
    Benign reason := by
  cases reason with
  | invariantViolation => cases h
  | compensationOverflow => cases h
  | _ => exact ⟨nofun, nofun⟩

theorem snzi_presence_and_cleanup (t : TreeSize) (c : Config P Shared Pc)
    (hc : (machine t P).Reachable c) :
    (∀ token, Outstanding c token → 1 ≤ c.sh.mem.root ∧
      ∀ q, c.lo q = .queryRoot → (machine t P).next c q .go =
        some ⟨c.sh, Function.update c.lo q (.done (.active true))⟩) ∧
    (∀ reason, PoisonReason.fromCode c.sh.mem.poison = some reason → Benign reason) ∧
    (∀ p kind reason, c.lo p = .done (.error kind (.poisoned reason)) → Benign reason) ∧
    (∀ p e, c.lo p = .done (.error .depart e) → ∃ reason, e = .poisoned reason) ∧
    (Resting c → c.sh.mem.root = 0 ∧ (∀ n, n < t.nodes → stateCount (c.sh.mem.nodes n) = 0 ∧
        stateIsHalf (c.sh.mem.nodes n) = false) ∧ ∀ q, (machine t P).run c (solo q .query 2) =
          some ⟨c.sh, Function.update c.lo q (.done (.active false))⟩ ∧
        (machine t P).run c (solo q .isQuiescent (t.nodes + 2)) =
          some ⟨c.sh, Function.update c.lo q (.done (.quiescent true))⟩) := by
  obtain ⟨L, M, h⟩ := reachable_inv hc
  refine ⟨fun token ho => ?_, fun reason hr => benign_of_capacity (h.books.capacity reason hr),
    fun p kind reason hp => ?_, fun p e hp => ?_, fun hr => ?_⟩
  · have hroot := h.outstanding_root ho
    refine ⟨?_, fun q hq => query_of_root hroot hq⟩
    rw [UInt64.le_iff_toNat_le, UInt64.toNat_one]
    exact Nat.one_le_iff_ne_zero.mpr fun hz => hroot (UInt64.toNat_inj.mp hz)
  · have hok := h.ok p
    rw [hp] at hok
    exact benign_of_capacity hok.1
  · have hok := h.ok p
    rw [hp] at hok
    cases e with
    | poisoned reason => exact ⟨reason, rfl⟩
    | _ => exact False.elim hok
  · have hv := h.vacant hr
    exact ⟨hv.root, fun n _ => (hv.nodes n).symm, fun q =>
      ⟨run_query hv (hr.idle q), run_isQuiescent hv (hr.idle q)⟩⟩

def helpTrace : List (Bool × In) :=
  [(false, .call (.arrive 0)), (false, .go), (false, .go), (false, .go), (false, .go)] ++
    solo true (.arrive 0) 12 ++ List.replicate 4 (false, .go)

def cleanupTrace : List (Bool × In) :=
  helpTrace ++ List.replicate 5 (false, .go) ++ solo true (.depart ⟨0, 1⟩) 6 ++
    solo false (.departRaw ⟨0, 1⟩) 9

theorem snzi_presence_and_cleanup_after_help :
    (∃ c, (machine fourNodes Bool).Reachable c ∧
      c.lo false = .arrive 0 [] (.compensate 0 1 1 (.rootHealthy 0)) ∧
      c.sh.tokens = [⟨0, 1⟩] ∧ 1 ≤ c.sh.mem.root) ∧
    ∃ c, (machine fourNodes Bool).Reachable c ∧ Resting c ∧ c.sh.mem.nodes 0 ≠ 0 ∧
      c.sh.mem.root = 0 := by
  constructor
  · have hrun : ((machine fourNodes Bool).run (machine fourNodes Bool).init helpTrace).map
        (fun c => (c.lo false, c.sh.tokens)) =
          some (.arrive 0 [] (.compensate 0 1 1 (.rootHealthy 0)), [⟨0, 1⟩]) := by
      decide +kernel
    obtain ⟨c, hc, hv⟩ := Machine.exists_reachable hrun
    obtain ⟨hlo, htokens⟩ := Prod.mk.inj hv
    have ho : Outstanding c ⟨0, 1⟩ := .inl (by rw [htokens]; exact List.mem_singleton.mpr rfl)
    exact ⟨c, hc, hlo, htokens, ((snzi_presence_and_cleanup fourNodes c hc).1 _ ho).1⟩
  · have hrun : ((machine fourNodes Bool).run (machine fourNodes Bool).init cleanupTrace).map
        (fun c => (c.lo false, c.lo true, c.sh.tokens, c.sh.mem.poison, c.sh.mem.nodes 0)) =
          some (.idle, .idle, [], poisonNone, stateWithCount 1 0) := by
      decide +kernel
    obtain ⟨c, hc, hv⟩ := Machine.exists_reachable hrun
    simp only [Prod.mk.injEq] at hv
    obtain ⟨hfalse, htrue, htokens, hpoison, hnode⟩ := hv
    have hrest : Resting c := ⟨fun p => by cases p <;> assumption, htokens, hpoison⟩
    refine ⟨c, hc, hrest, ?_, ((snzi_presence_and_cleanup fourNodes c hc).2.2.2.2 hrest).1⟩
    rw [hnode]
    decide +kernel

end DevHermit.Shmem.Snzi
