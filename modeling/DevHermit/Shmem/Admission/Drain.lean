import DevHermit.Shmem.Admission.Invariant

namespace DevHermit.Shmem.Admission

open Lib CounterTree Function Snzi

def Pc.draining : Pc → Prop
  | .drainLoad => True
  | .drainQuery _ _ => True
  | .drainCas _ => True
  | .drainScan _ _ => True
  | .drainSeal _ _ => True
  | .drainRestore => True
  | _ => False

section

variable {t : TreeSize} {sh : Shared}

def SoloStep (t : TreeSize) (a b : Shared × Pc) : Prop :=
  a.2.draining ∧ advance t a.1 false a.2 = some b

def Solo (t : TreeSize) : Shared × Pc → Shared × Pc → Prop := Relation.ReflTransGen (SoloStep t)

variable {a b : Shared × Pc} {sh' : Shared}

theorem Solo.head {pc' : Pc} (hd : a.2.draining) (h : advance t a.1 false a.2 = some (sh', pc'))
    (hs : Solo t (sh', pc') b) : Solo t a b :=
  Relation.ReflTransGen.head ⟨hd, h⟩ hs

theorem Solo.single {pc' : Pc} (hd : a.2.draining) (h : advance t a.1 false a.2 = some (sh', pc')) :
    Solo t a (sh', pc') :=
  Solo.head hd h Relation.ReflTransGen.refl

variable {pc pc' : Snzi.Pc}

theorem nested_advance (wrap : Snzi.Pc → Pc) (finish : Snzi.Ret → Option Pc)
    (hd : ∀ ret, pc ≠ .done ret) (h : Snzi.advance t sh.mem pc = some (sh.mem, pc')) :
    nested t sh pc wrap finish = some (sh, wrap pc') := by
  cases pc with
  | done ret => exact absurd rfl (hd ret)
  | _ =>
    rw [nested, h]
    · rfl
    · exact hd

theorem Solo.scan {checking : UInt64} (hd : ∀ ret, pc ≠ .done ret)
    (h : Snzi.advance t sh.mem pc = some (sh.mem, pc'))
    (hs : Solo t (sh, .drainScan checking pc') b) : Solo t (sh, .drainScan checking pc) b :=
  Solo.head (a := (sh, .drainScan checking pc)) trivial
    (nested_advance (.drainScan checking) (scanned checking) hd h) hs

variable {gate : UInt64}

theorem Solo.query (hd : ∀ ret, pc ≠ .done ret) (h : Snzi.advance t sh.mem pc = some (sh.mem, pc'))
    (hs : Solo t (sh, .drainQuery gate pc') b) : Solo t (sh, .drainQuery gate pc) b :=
  Solo.head (a := (sh, .drainQuery gate pc)) trivial
    (nested_advance (.drainQuery gate) (queried gate) hd h) hs

variable (checking : UInt64)

theorem solo_scanRoot (scan : Snzi.Scan) :
    ∃ answer, Solo t (sh, .drainScan checking (.scanRoot scan)) (sh, .drainSeal checking answer) :=
  ⟨_, Solo.head trivial rfl (Solo.head trivial rfl (Solo.single trivial rfl))⟩

theorem solo_scanNode (k : Nat) : ∀ index scan, index + (k + 1) = t.nodes →
      ∃ answer, Solo t (sh, .drainScan checking (.scanNode index scan))
        (sh, .drainSeal checking answer) := by
  induction k with
  | zero =>
    intro index scan hk
    obtain ⟨answer, hs⟩ := @solo_scanRoot t sh checking (scan.visit (sh.mem.nodes index))
    refine ⟨answer, Solo.scan nofun ?_ hs⟩
    rw [Snzi.advance, if_neg (by omega)]
  | succ k ih =>
    intro index scan hk
    obtain ⟨answer, hs⟩ := ih (index + 1) (scan.visit (sh.mem.nodes index)) (by omega)
    refine ⟨answer, Solo.scan nofun ?_ hs⟩
    rw [Snzi.advance, if_pos (by omega)]

theorem solo_drainSeal (quiescent : Bool) :
    ∃ sh' answer, Solo t (sh, .drainSeal checking quiescent) (sh', .done (.drained answer)) := by
  by_cases hg : sh.gate = checking
  · refine ⟨sh.setGate (sealWord checking quiescent), quiescent, Solo.single trivial ?_⟩
    rw [advance, if_pos hg]
  · have hrestore : Solo t (sh, .drainRestore)
        (sh.setGate (sh.gate &&& ~~~ checkingBit), .done (.drained false)) :=
      Solo.single trivial rfl
    refine ⟨_, false, Solo.head trivial ?_ hrestore⟩
    rw [advance, if_neg hg]

theorem solo_drainScan {checking : UInt64} {pc : Snzi.Pc} (hok : ScanOk t sh.mem pc) :
    ∃ sh' answer, Solo t (sh, .drainScan checking pc) (sh', .done (.drained answer)) := by
  have hscan : ∃ answer, Solo t (sh, .drainScan checking pc) (sh, .drainSeal checking answer) := by
    cases pc with
    | scanNode index scan =>
      have hlt : index < t.nodes := hok.1
      exact solo_scanNode checking (t.nodes - index - 1) index scan (by omega)
    | scanRoot scan => exact solo_scanRoot checking scan
    | scanPoison scan root => exact ⟨_, Solo.head trivial rfl (Solo.single trivial rfl)⟩
    | done ret =>
      cases ret with
      | quiescent answer => exact ⟨answer, Solo.single trivial rfl⟩
      | _ => exact False.elim hok
    | _ => exact False.elim hok
  obtain ⟨answer, hs⟩ := hscan
  obtain ⟨sh', answer', hs'⟩ := @solo_drainSeal t sh checking answer
  exact ⟨sh', answer', Relation.ReflTransGen.trans hs hs'⟩

theorem solo_drainCas_current :
    ∃ sh' answer, Solo t (sh, .drainCas sh.gate) (sh', .done (.drained answer)) := by
  obtain ⟨sh', answer, hs⟩ := @solo_drainScan t
    (sh.setGate (sh.gate ||| checkingBit)) (sh.gate ||| checkingBit) Snzi.scanStart
    ⟨t.nodes_pos, fun _ n hn => absurd hn (Nat.not_lt_zero n)⟩
  exact ⟨sh', answer, Solo.head trivial (by rw [advance, if_pos ⟨rfl, rfl⟩]) hs⟩

theorem solo_query (hok : QueryOk pc)
    (hcas : ∃ sh' answer, Solo t (sh, .drainCas gate) (sh', .done (.drained answer))) :
    ∃ sh' answer, Solo t (sh, .drainQuery gate pc) (sh', .done (.drained answer)) := by
  have hactive : ∀ active, ∃ sh' answer,
      Solo t (sh, .drainQuery gate (.done (.active active))) (sh', .done (.drained answer)) := by
    intro active
    cases active with
    | true => exact ⟨sh, false, Solo.single trivial rfl⟩
    | false =>
      obtain ⟨sh', answer, hs⟩ := hcas
      exact ⟨sh', answer, Solo.head trivial rfl hs⟩
  have hpoison : ∃ sh' answer,
      Solo t (sh, .drainQuery gate .queryPoison) (sh', .done (.drained answer)) := by
    obtain ⟨sh', answer, hs⟩ := hactive (decide (sh.mem.poison ≠ Snzi.poisonNone))
    exact ⟨sh', answer, Solo.head trivial rfl hs⟩
  cases pc with
  | queryRoot =>
    by_cases hr : sh.mem.root ≠ 0
    · obtain ⟨sh', answer, hs⟩ := hactive true
      refine ⟨sh', answer, Solo.query nofun ?_ hs⟩
      rw [Snzi.advance, if_pos hr]
    · obtain ⟨sh', answer, hs⟩ := hpoison
      refine ⟨sh', answer, Solo.query nofun ?_ hs⟩
      rw [Snzi.advance, if_neg hr]
  | queryPoison => exact hpoison
  | done ret =>
    cases ret with
    | active answer => exact hactive answer
    | _ => exact False.elim hok
  | _ => exact False.elim hok

theorem solo_drainDecide :
    ∃ sh' answer, Solo t (sh, drainDecide sh.gate) (sh', .done (.drained answer)) := by
  rw [drainDecide]
  split_ifs with hd hf
  · exact ⟨sh, _, Relation.ReflTransGen.refl⟩
  · exact ⟨sh, _, Relation.ReflTransGen.refl⟩
  · exact solo_query trivial solo_drainCas_current

theorem solo_drainCas (gate : UInt64) :
    ∃ sh' answer, Solo t (sh, .drainCas gate) (sh', .done (.drained answer)) := by
  by_cases hg : sh.gate = gate
  · subst hg
    exact solo_drainCas_current
  · obtain ⟨sh', answer, hs⟩ := @solo_drainDecide t sh
    refine ⟨sh', answer, Solo.head trivial ?_ hs⟩
    rw [advance, if_neg fun h => hg h.2]

theorem Pc.draining.solo {pc : Pc} (hd : pc.draining) (hok : pc.Ok t sh) :
    ∃ sh' answer, Solo t (sh, pc) (sh', .done (.drained answer)) := by
  cases pc with
  | drainLoad =>
    obtain ⟨sh', answer, hs⟩ := @solo_drainDecide t sh
    exact ⟨sh', answer, Solo.head trivial rfl hs⟩
  | drainQuery gate inner => exact solo_query hok.2 (solo_drainCas gate)
  | drainCas gate => exact solo_drainCas gate
  | drainScan checking inner => exact solo_drainScan hok.2
  | drainSeal checking quiescent => exact solo_drainSeal checking quiescent
  | drainRestore => exact ⟨_, false, Solo.single trivial rfl⟩
  | _ => exact False.elim hd

end

variable {P : Type} {t : TreeSize} {c c' : Config P Shared Pc}

def calm (c : Config P Shared Pc) (a : P × In) : Prop := Calm c.sh (c.lo a.1)

instance (c : Config P Shared Pc) (a : P × In) : Decidable (calm c a) :=
  inferInstanceAs (Decidable (c.lo a.1 = .reservePoison → c.sh.gate &&& drainedBit = 0))

structure Sealed (t : TreeSize) (c : Config P Shared Pc) : Prop where
  gate : c.sh.gate = terminalDrained
  tokens : c.sh.tokens = []
  unheld : ∀ p, (c.lo p).solid t = 0
  reserved : ∀ p, (c.lo p).reserved = 0
  checking : ∀ p, (c.lo p).checking = 0
  vacated : Vacated t c.sh.mem

def Holding (t : TreeSize) (pc : Pc) : Prop :=
  pc.reserved = 1 ∨ pc.checking = 1 ∨ pc.solid t ≠ 0

theorem Sealed.drained (h : Sealed t c) : (flags c.sh.gate).drained = true := by
  rw [h.gate, view_terminal.flags]
  rfl

theorem Sealed.not_holding (h : Sealed t c) (p : P) : ¬ Holding t (c.lo p) := by
  rintro (hr | hk | hs)
  · exact absurd ((h.reserved p).symm.trans hr) (by decide)
  · exact absurd ((h.checking p).symm.trans hk) (by decide)
  · exact hs (h.unheld p)

variable {q : P}

theorem calm_of_draining (h : (c.lo q).draining) : calm c (q, .go) := by
  intro hq
  rw [hq] at h
  exact False.elim h

variable [DecidableEq P]

theorem SoloStep.next {q : P} {sh' : Shared} {pc' : Pc} (h : SoloStep t (c.sh, c.lo q) (sh', pc')) :
    (machine t P).next c q .go = some ⟨sh', update c.lo q pc'⟩ := by
  obtain ⟨hd, hstep⟩ := h
  have hact : act t c.sh false (c.lo q) = some (sh', pc') := by
    rw [← hstep]
    dsimp only at hd ⊢
    cases hq : c.lo q with
    | done ret =>
      rw [hq] at hd
      exact False.elim hd
    | _ => rfl
  exact Machine.next_eq_some.mpr ⟨sh', pc', hact, rfl⟩

variable {a b : Shared × Pc}

theorem Solo.run (h : Solo t a b) : ∀ c : Config P Shared Pc, (c.sh, c.lo q) = a →
      ∃ n, (machine t P).run c (List.replicate n (q, .go)) = some ⟨b.1, update c.lo q b.2⟩ := by
  induction h using Relation.ReflTransGen.head_induction_on with
  | refl =>
    rintro c rfl
    exact ⟨0, by rw [update_eq_self]; rfl⟩
  | head hstep _ ih =>
    rename_i next _
    rintro c rfl
    obtain ⟨n, hn⟩ := ih ⟨next.1, update c.lo q next.2⟩ (congrArg _ (update_self _ _ _))
    refine ⟨n + 1, ?_⟩
    rw [List.replicate_succ, Machine.run_cons, hstep.next, Option.bind_some, hn, update_idem]

theorem Solo.reachWhen (h : Solo t a b) : ∀ c : Config P Shared Pc, (c.sh, c.lo q) = a →
      (machine t P).ReachWhen calm c ⟨b.1, update c.lo q b.2⟩ := by
  induction h using Relation.ReflTransGen.head_induction_on with
  | refl =>
    rintro c rfl
    rw [update_eq_self]
    exact .start
  | head hstep _ ih =>
    rename_i next _
    rintro c rfl
    have hrest := ih ⟨next.1, update c.lo q next.2⟩ (congrArg _ (update_self _ _ _))
    rw [update_idem] at hrest
    exact (System.ReachableWhen.step .start (calm_of_draining hstep.1) hstep.next).reach hrest

def Pc.late : Pc → Prop
  | .idle => True
  | .reserveLoad _ => True
  | .closeOr => True
  | .drainLoad => True
  | .done (.enterFailed .closed) => True
  | .done (.closed false) => True
  | .done (.drained true) => True
  | _ => False

structure Final (t : TreeSize) (c : Config P Shared Pc) (q : P) : Prop where
  late : (c.lo q).late
  enters : ∀ leaf, c.lo q = .reserveLoad leaf → (machine t P).next c q .go =
    some ⟨c.sh, Function.update c.lo q (.done (.enterFailed .closed))⟩
  drains : c.lo q = .drainLoad → (machine t P).next c q .go =
    some ⟨c.sh, Function.update c.lo q (.done (.drained true))⟩

structure Barred (t : TreeSize) (c : Config P Shared Pc) (q : P) : Prop where
  never : c.lo q ≠ .done (.drained true)
  returns : (c.lo q).draining → ∃ n sh',
    (machine t P).run c (List.replicate n (q, .go)) =
      some ⟨sh', Function.update c.lo q (.done (.drained false))⟩

theorem reserveDecide_terminal (leaf : Nat) :
    reserveDecide leaf terminalDrained = .done (.enterFailed .closed) := by
  rw [reserveDecide, if_pos (by decide +kernel)]

theorem drainDecide_terminal : drainDecide terminalDrained = .done (.drained true) := by
  rw [drainDecide, if_pos (by decide +kernel)]
  rfl

variable {pc' : Pc} {sh sh' : Shared}

theorem late_start {op : Op} (ht : sh.tokens = []) (h : start sh op = some (sh', pc')) : pc'.late := by
  cases op with
  | depart token | departRaw token =>
    rw [start, ht, if_neg (List.not_mem_nil)] at h
    cases h
  | _ =>
    cases h
    trivial

theorem late_advance {weak : Bool} {pc : Pc} (hg : sh.gate = terminalDrained) (hl : pc.late)
    (h : advance t sh weak pc = some (sh', pc')) : pc'.late := by
  cases pc with
  | reserveLoad leaf =>
    cases h
    rw [hg, reserveDecide_terminal]
    trivial
  | closeOr =>
    cases h
    have hclosed : (terminalDrained &&& closedBit == 0) = false := by decide +kernel
    rw [hg, hclosed]
    trivial
  | drainLoad =>
    cases h
    rw [hg, drainDecide_terminal]
    trivial
  | idle | done ret => cases h
  | _ => exact False.elim hl

theorem SoloStep.tokens (h : SoloStep t a b) : b.1.tokens = a.1.tokens := by
  obtain ⟨sh, pc⟩ := a
  obtain ⟨sh', pc'⟩ := b
  obtain ⟨hd, h⟩ := h
  have hnested : ∀ {inner : Snzi.Pc} {wrap : Snzi.Pc → Pc} {finish : Snzi.Ret → Option Pc},
      nested t sh inner wrap finish = some (sh', pc') → sh'.tokens = sh.tokens := by
    intro inner wrap finish hn
    rcases nested_cases hn with ⟨ret, -, -, rfl⟩ | ⟨m', inner', -, rfl, -⟩
    · rfl
    · rfl
  cases pc with
  | drainLoad | drainRestore =>
    cases h
    rfl
  | drainQuery gate inner | drainScan checking inner => exact hnested h
  | drainCas gate | drainSeal checking quiescent =>
    dsimp only [advance] at h
    split_ifs at h
    · cases h
      rfl
    · cases h
      rfl
  | _ => exact False.elim hd

theorem Solo.tokens (h : Solo t a b) : b.1.tokens = a.1.tokens := by
  induction h with
  | refl => rfl
  | tail _ hs ih => exact hs.tokens.trans ih

theorem Sealed.final (h : Sealed t c) (hl : (c.lo q).late) : Final t c q := by
  refine ⟨hl, fun leaf hq => ?_, fun hq => ?_⟩
  · refine Machine.next_eq_some.mpr ⟨c.sh, .done (.enterFailed .closed), ?_, rfl⟩
    rw [hq]
    show some (c.sh, reserveDecide leaf c.sh.gate) = _
    rw [h.gate, reserveDecide_terminal]
  · refine Machine.next_eq_some.mpr ⟨c.sh, .done (.drained true), ?_, rfl⟩
    rw [hq]
    show some (c.sh, drainDecide c.sh.gate) = _
    rw [h.gate, drainDecide_terminal]

variable [Fintype P]

theorem Inv.sealed (h : Inv t c) (hd : (flags c.sh.gate).drained = true) : Sealed t c := by
  obtain ⟨L, M, hb⟩ := h.books
  have hvac := h.vacated hd
  have hidle : ∀ x : Claim, x.Valid t.nodes →
      (pooled t c.sh.tokens + gather (Pc.solid t) c.lo + L) x = 0 := by
    intro x hx
    by_contra hne
    exact hb.root_ne_zero hx (fun h0 => hne (Nat.eq_zero_of_add_eq_zero_left h0)) hvac.root
  have hgate := h.gate.terminal hd
  have hchecking : (flags c.sh.gate).checking = false := by
    rw [hgate, view_terminal.flags]
    rfl
  refine ⟨hgate, ?_, fun p => funext fun x => ?_, fun p => ?_, fun p => ?_, hvac⟩
  · refine List.eq_nil_iff_forall_not_mem.mpr fun token ht => ?_
    have := hidle (leafClaim t token.leaf) (Tree.leaf_node_lt (h.tokens token ht).1)
    rw [Snzi.pooled_erase t ht] at this
    simp at this
  · by_contra hx
    have := hidle x (Pc.holds_valid (h.ok p) (fun h0 => hx (Nat.eq_zero_of_add_eq_zero_right h0)))
    obtain ⟨S, hS, -⟩ := gather_split (Pc.solid t) c.lo p
    rw [hS] at this
    simp only [Pi.add_apply] at this
    exact hx (by rw [Pi.zero_apply]; omega)
  · obtain ⟨r, hr, -⟩ := gather_split Pc.reserved c.lo p
    have := (h.gate.drained hd).2
    omega
  · obtain ⟨k, hk, -⟩ := gather_split Pc.checking c.lo p
    have := h.gate.checkers
    rw [hchecking, if_neg Bool.false_ne_true] at this
    omega

variable {p : P}

theorem Inv.sealed_of_done (h : Inv t c) (hp : c.lo p = .done (.drained true)) : Sealed t c := by
  have hok := h.ok p
  rw [hp] at hok
  exact h.sealed hok

theorem Inv.keeps_drained (h : Inv t c) {i : In} (hcalm : calm c (p, i))
    (hstep : step t c.sh (c.lo p) i = some (sh', pc')) (hd : (flags c.sh.gate).drained = true) :
    (flags sh'.gate).drained = true := by
  rcases step_cases hstep with ⟨op, -, -, hstart⟩ | ⟨ret, -, rfl, -⟩ | ⟨weak, ha⟩
  · cases op with
    | depart token | departRaw token =>
      rw [Admission.start] at hstart
      split_ifs at hstart
      obtain ⟨rfl, -⟩ := Prod.mk.inj (Option.some.inj hstart)
      exact hd
    | _ =>
      obtain ⟨rfl, -⟩ := Prod.mk.inj (Option.some.inj hstart)
      exact hd
  · cases ret with
    | _ => exact hd
  · obtain ⟨R, Q, r, k, ha'⟩ := h.around p
    exact (advance_lawful ha'.before hcalm ha).drained hd

theorem sealed_preserved :
    (machine t P).PreservesWhen calm fun c => Inv t c ∧ (flags c.sh.gate).drained = true := by
  intro c p i sh' pc' h hcalm hstep
  exact ⟨inv_preserved c p i sh' pc' h.1 hcalm hstep, h.1.keeps_drained hcalm hstep h.2⟩

theorem late_preserved (q : P) : (machine t P).PreservesWhen calm fun c =>
      (Inv t c ∧ (flags c.sh.gate).drained = true) ∧ (c.lo q).late := by
  intro c p i sh' pc' h hcalm hstep
  refine ⟨sealed_preserved c p i sh' pc' h.1 hcalm hstep, ?_⟩
  by_cases hq : q = p
  · subst hq
    have hsealed := h.1.1.sealed h.1.2
    have hlate : pc'.late := by
      rcases step_cases hstep with ⟨op, -, -, hstart⟩ | ⟨ret, -, -, rfl⟩ | ⟨weak, ha⟩
      · exact late_start hsealed.tokens hstart
      · trivial
      · exact late_advance hsealed.gate h.2 ha
    exact (congrArg Pc.late (update_self q pc' c.lo)).mpr hlate
  · exact (congrArg Pc.late (update_of_ne hq pc' c.lo)).mpr h.2

theorem Inv.later (h : Inv t c) (hs : Sealed t c) (hr : (machine t P).ReachWhen calm c c') :
    Sealed t c' ∧ ∀ q, c.lo q = .idle → Final t c' q := by
  obtain ⟨hinv, hd⟩ := sealed_preserved.reach ⟨h, hs.drained⟩ hr
  refine ⟨hinv.sealed hd, fun q hq => (hinv.sealed hd).final ?_⟩
  refine ((late_preserved q).reach ⟨⟨h, hs.drained⟩, ?_⟩ hr).2
  rw [hq]
  trivial

theorem Inv.barred (h : Inv t c)
    (hopen : ∀ sh' pc', Solo t (c.sh, c.lo q) (sh', pc') → ¬ Sealed t ⟨sh', update c.lo q pc'⟩)
    : Barred t c q := by
  refine ⟨fun hq => ?_, fun hdrain => ?_⟩
  · have hs := hopen c.sh (c.lo q) Relation.ReflTransGen.refl
    rw [update_eq_self] at hs
    exact hs (h.sealed_of_done hq)
  · obtain ⟨sh', answer, hsolo⟩ := hdrain.solo (h.ok q)
    have hend : Inv t ⟨sh', update c.lo q (.done (.drained answer))⟩ :=
      inv_preserved.reach h (hsolo.reachWhen c rfl)
    obtain ⟨n, hn⟩ := hsolo.run c rfl
    cases answer with
    | true => exact absurd (hend.sealed_of_done (update_self _ _ _)) (hopen _ _ hsolo)
    | false => exact ⟨n, sh', hn⟩

theorem Inv.barred_of_token (h : Inv t c) (ht : c.sh.tokens ≠ []) (q : P) : Barred t c q :=
  h.barred fun _ _ hsolo hs =>
    ht (hsolo.tokens.symm.trans hs.tokens)

theorem Inv.barred_of_holding (h : Inv t c) (hp : Holding t (c.lo p)) (hq : q ≠ p) :
    Barred t c q := by
  refine h.barred fun sh' pc' hsolo hs => ?_
  exact hs.not_holding p ((congrArg (Holding t) (update_of_ne hq.symm pc' c.lo)).mpr hp)

theorem is_drained_answers_true_only_when_final
    (hc : (machine t P).ReachWhen calm (machine t P).init c) :
    (∀ p, c.lo p = .done (.drained true) → Sealed t c) ∧
      (Sealed t c → ∀ c', (machine t P).ReachWhen calm c c' →
        Sealed t c' ∧ ∀ q, c.lo q = .idle → Final t c' q) ∧
      (∀ p checking quiescent, c.lo p = .drainSeal checking quiescent → c.sh.gate ≠ checking →
        (flags checking).poisoned = false ∧ (flags c.sh.gate).poisoned = true) ∧
      (c.sh.tokens ≠ [] → ∀ q, Barred t c q) ∧
      (∀ p, Holding t (c.lo p) → ∀ c', (machine t P).ReachWhen (fun d a => calm d a ∧ a.1 ≠ p) c c' →
          ∀ q, q ≠ p → Barred t c' q) ∧
      ∀ p i c', ¬ calm c (p, i) → (machine t P).next c p i = some c' → c'.sh.gate ≠ terminalDrained := by
  have h : Inv t c := inv_preserved.reach inv_init hc
  refine ⟨fun p hp => h.sealed_of_done hp, fun hs c' hr => h.later hs hr, ?_,
    fun ht q => h.barred_of_token ht q, ?_, ?_⟩
  · intro p checking quiescent hp hne
    have hok := h.ok p
    rw [hp] at hok
    obtain ⟨rfl, -⟩ := hok
    obtain ⟨k, hk, -⟩ := gather_split Pc.checking c.lo p
    rw [hp] at hk
    have hg := h.gate
    rw [hk] at hg
    exact ⟨by rw [view_checking.flags]; rfl, hg.seal_failed hne⟩
  · intro p hp c' hr q hq
    have hstay : c'.lo p = c.lo p := Machine.stopped hr fun _ _ hok => hok.2
    have hinv : Inv t c' := inv_preserved.reach h (hr.mono fun _ _ hok => hok.1)
    refine hinv.barred_of_holding (p := p) ?_ hq
    rw [hstay]
    exact hp
  · intro p i c' hcalm hn hgate
    have hp : c.lo p = .reservePoison := by
      by_contra hne
      exact hcalm fun he => absurd he hne
    obtain ⟨sh', pc', hstep, rfl⟩ := Machine.next_eq_some.mp hn
    have hadvance : sh' = c.sh.setGate (c.sh.gate ||| poisonedBit) := by
      change step t c.sh (c.lo p) i = some (sh', pc') at hstep
      rw [hp] at hstep
      rcases step_cases hstep with ⟨op, -, hidle, -⟩ | ⟨ret, hdone, -, -⟩ | ⟨weak, ha⟩
      · cases hidle
      · cases hdone
      · exact (Prod.mk.inj (Option.some.inj ha)).1.symm
    have hpoison : (flags (c.sh.gate ||| poisonedBit)).poisoned = true := by rw [view_poison.flags]
    rw [hadvance] at hgate
    rw [show c.sh.gate ||| poisonedBit = terminalDrained from hgate, view_terminal.flags] at hpoison
    cases hpoison

def visit : List In :=
  [.call (.tryEnter 0)] ++ List.replicate 15 .go ++ [.call (.depart ⟨0, 1⟩)] ++
    List.replicate 14 .go ++ [.call .close, .go, .go, .call .isDrained] ++ List.replicate 13 .go

theorem is_drained_after_one_visit :
    ∃ c, (machine fourNodes Unit).ReachWhen calm (machine fourNodes Unit).init c ∧
      c.lo () = .done (.drained true) ∧ Sealed fourNodes c := by
  have hrun : ((machine fourNodes Unit).system.run calm (machine fourNodes Unit).init
      (visit.map fun i => ((), i))).map (fun c => c.lo ()) = some (.done (.drained true)) := by
    decide +kernel
  obtain ⟨c, hc, hv⟩ := System.exists_reachable hrun
  exact ⟨c, hc, hv, (is_drained_answers_true_only_when_final hc).1 () hv⟩

end DevHermit.Shmem.Admission
