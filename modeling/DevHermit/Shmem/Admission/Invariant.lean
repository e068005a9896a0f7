import DevHermit.Shmem.Admission.Step

namespace DevHermit.Shmem.Admission

open Pc Lib CounterTree Function Snzi

variable {P : Type} [Fintype P] {t : TreeSize} {c : Config P Shared Pc}

structure Inv (t : TreeSize) (c : Config P Shared Pc) : Prop where
  books : ∃ L M, Books t c.sh.mem (pooled t c.sh.tokens + gather (Pc.solid t) c.lo + L)
    (gather Pc.vowed c.lo + M)
  gate : GateOk c.sh.gate (gather Pc.reserved c.lo) (gather Pc.checking c.lo)
  ok : ∀ p, (c.lo p).Ok t c.sh
  tokens : ∀ token ∈ c.sh.tokens, Issued t c.sh.mem token.leaf token.generation
  vacated : (flags c.sh.gate).drained = true → Vacated t c.sh.mem

theorem inv_init : Inv t (machine t P).init where
  books := by
    have hsolid : gather (Pc.solid t) (machine t P).init.lo = 0 := Finset.sum_eq_zero fun _ _ => rfl
    have hvowed : gather vowed (machine t P).init.lo = 0 := Finset.sum_eq_zero fun _ _ => rfl
    rw [hsolid, hvowed]
    exact ⟨0, 0, Books.new⟩
  gate := by
    have hreserved : gather reserved (machine t P).init.lo = 0 := Finset.sum_eq_zero fun _ _ => rfl
    have hchecking : gather checking (machine t P).init.lo = 0 := Finset.sum_eq_zero fun _ _ => rfl
    have hflags : flags (machine t P).init.sh.gate = ⟨false, false, false, false⟩ := by
      show flags 0 = _
      decide +kernel
    rw [hreserved, hchecking]
    refine ⟨by show reservations 0 = 0; decide +kernel, ?_, fun hc => ?_, fun hd => ?_⟩
    · rw [hflags]
      rfl
    · rw [hflags] at hc
      cases hc
    · rw [hflags] at hd
      cases hd
  ok := fun _ => trivial
  tokens := by rintro token ⟨⟩
  vacated := by
    intro hd
    have hflags : flags (0 : UInt64) = ⟨false, false, false, false⟩ := by decide +kernel
    rw [show (machine t P).init.sh.gate = 0 from rfl, hflags] at hd
    cases hd

variable [DecidableEq P]

structure Around (t : TreeSize) (c : Config P Shared Pc) (p : P) (R Q : Claim → Nat)
    (r k : Nat) : Prop where
  before : Before t R Q r k c.sh (c.lo p)
  after : ∀ {sh' : Shared} {pc' : Pc}, Lawful t R Q r k c.sh (c.lo p) sh' pc' →
    (∀ q, q ≠ p → (c.lo q).Ok t sh') → Inv t ⟨sh', Function.update c.lo p pc'⟩

theorem Inv.around (h : Inv t c) (p : P) : ∃ R Q r k, Around t c p R Q r k := by
  obtain ⟨S, hS, hS'⟩ := gather_split (Pc.solid t) c.lo p
  obtain ⟨V, hV, hV'⟩ := gather_split vowed c.lo p
  obtain ⟨r, hr, hr'⟩ := gather_split reserved c.lo p
  obtain ⟨k, hk, hk'⟩ := gather_split checking c.lo p
  obtain ⟨L, M, hb⟩ := h.books
  refine ⟨S + L, V + M, r, k, ⟨⟨?_, ?_, h.ok p, h.tokens, h.vacated⟩, fun hl hothers => ?_⟩⟩
  · rw [hS, hV] at hb
    have hsolid : S + L + pooled t c.sh.tokens + (c.lo p).solid t =
        pooled t c.sh.tokens + (S + (c.lo p).solid t) + L := by
      abel
    rw [hsolid, add_right_comm V M]
    exact hb
  · rw [← hr, ← hk]
    exact h.gate
  · obtain ⟨⟨L', M', hb'⟩, hg, hok, htokens, -, -, -, hvac⟩ := hl
    refine ⟨⟨L + L', M + M', ?_⟩, ?_, ?_, htokens, hvac⟩
    · rw [hS', hV']
      have hsolid : ∀ pool solid : Claim → Nat,
          pool + (S + solid) + (L + L') = S + L + L' + pool + solid := by
        intro pool solid
        abel
      rw [hsolid, ← add_assoc, add_right_comm V, add_right_comm (V + M)]
      exact hb'
    · rw [hr', hk']
      exact hg
    · exact (forall_update_iff c.lo fun _ pc => pc.Ok t _).mpr ⟨hok, hothers⟩

variable {p : P} {pc' : Pc} {sh' : Shared}

theorem Inv.others (h : Inv t c) {R Q : Claim → Nat} {r k : Nat}
    (hl : Lawful t R Q r k c.sh (c.lo p) sh' pc') (q : P) : (c.lo q).Ok t sh' := by
  obtain ⟨L, M, hb⟩ := h.books
  refine (h.ok q).stable hl.stable hl.drained (fun hq => hl.still ?_) fun x hx => ?_
  · have hk : gather checking c.lo ≠ 0 := by
      obtain ⟨k', hk', -⟩ := gather_split checking c.lo q
      omega
    have hflag : (flags c.sh.gate).checking = true := by
      by_contra hc
      exact hk (h.gate.checkers.trans (if_neg hc))
    obtain ⟨r', hr', -⟩ := gather_split reserved c.lo p
    have := (h.gate.checking hflag).2.2
    omega
  · have hle := hb.le_counts (holds_valid (h.ok q) hx)
    obtain ⟨S, hS, -⟩ := gather_split (Pc.solid t) c.lo q
    obtain ⟨V, hV, -⟩ := gather_split vowed c.lo q
    rw [hS, hV] at hle
    simp only [Pi.add_apply] at hle
    omega

variable {weak : Bool}

theorem Inv.advance (h : Inv t c) (hcalm : Calm c.sh (c.lo p))
    (hstep : advance t c.sh weak (c.lo p) = some (sh', pc')) : Inv t ⟨sh', update c.lo p pc'⟩ := by
  obtain ⟨R, Q, r, k, ha⟩ := h.around p
  have hl := advance_lawful ha.before hcalm hstep
  exact ha.after hl fun q _ => h.others hl q

theorem Inv.relocate (h : Inv t c) {l : List Token}
    (hs : pooled t l + pc'.solid t = pooled t c.sh.tokens + (c.lo p).solid t)
    (hv : pc'.vowed = (c.lo p).vowed) (hr : pc'.reserved = (c.lo p).reserved)
    (hk : pc'.checking = (c.lo p).checking) (hok : pc'.Ok t ⟨c.sh.gate, c.sh.mem, l⟩)
    (htokens : ∀ token ∈ l, Issued t c.sh.mem token.leaf token.generation) :
    Inv t ⟨⟨c.sh.gate, c.sh.mem, l⟩, update c.lo p pc'⟩ := by
  obtain ⟨R, Q, r, k, ha⟩ := h.around p
  have hl : Lawful t R Q r k c.sh (c.lo p) ⟨c.sh.gate, c.sh.mem, l⟩ pc' := by
    refine ⟨⟨0, 0, ?_⟩, ?_, hok, htokens, Snzi.Stable.refl _, fun _ => rfl, id, h.vacated⟩
    · rw [hv, add_zero, add_zero, add_assoc, hs, ← add_assoc]
      exact ha.before.books
    · rw [hr, hk]
      exact ha.before.gate
  exact ha.after hl fun q _ => h.others hl q

theorem Inv.start (h : Inv t c) {p : P} {op : Op} {sh' : Shared} {pc' : Pc}
    (hidle : c.lo p = .idle) (hstart : start c.sh op = some (sh', pc')) :
    Inv t ⟨sh', update c.lo p pc'⟩ := by
  have hnone : ∀ {pc' : Pc}, pc'.solid t = 0 → pc'.vowed = 0 → pc'.reserved = 0 →
      pc'.checking = 0 → pc'.Ok t c.sh → Inv t ⟨c.sh, update c.lo p pc'⟩ :=
    fun hs hv hr hk hok => h.relocate (by rw [hs, hidle]; rfl) (by rw [hv, hidle]; rfl)
      (by rw [hr, hidle]; rfl) (by rw [hk, hidle]; rfl) hok h.tokens
  have hdepart : ∀ token ∈ c.sh.tokens, ∀ raw,
      Inv t ⟨⟨c.sh.gate, c.sh.mem, c.sh.tokens.erase token⟩,
        update c.lo p (.departLoad token raw)⟩ := by
    intro token ht raw
    refine h.relocate ?_ (by rw [hidle]; rfl) (by rw [hidle]; rfl) (by rw [hidle]; rfl)
      (h.tokens token ht) fun token' ht' => h.tokens token' (List.mem_of_mem_erase ht')
    rw [Snzi.pooled_erase t ht, hidle]
    exact (add_zero _).symm
  cases op with
  | depart token =>
    rw [Admission.start] at hstart
    split_ifs at hstart with ht
    cases hstart
    exact hdepart token ht false
  | departRaw token =>
    rw [Admission.start] at hstart
    split_ifs at hstart with ht
    cases hstart
    exact hdepart token ht true
  | _ =>
    cases hstart
    exact hnone rfl rfl rfl rfl trivial

theorem Inv.ret (h : Inv t c) {ret : Ret} (hdone : c.lo p = .done ret) :
    Inv t ⟨returned c.sh ret, update c.lo p .idle⟩ := by
  have hok := h.ok p
  rw [hdone] at hok
  cases ret with
  | entered token =>
    refine h.relocate (l := token :: c.sh.tokens) ?_ (by rw [hdone]; rfl)
      (by rw [hdone]; rfl) (by rw [hdone]; rfl) trivial ?_
    · rw [hdone]
      exact add_zero _
    · intro token' ht'
      rcases List.mem_cons.mp ht' with rfl | ht'
      · exact hok
      · exact h.tokens token' ht'
  | _ =>
    exact h.relocate (by rw [hdone]; rfl) (by rw [hdone]; rfl) (by rw [hdone]; rfl)
      (by rw [hdone]; rfl) trivial h.tokens

variable {pc : Pc} {sh : Shared}

theorem act_cases (h : act t sh weak pc = some (sh', pc')) :
    (∃ ret, pc = .done ret ∧ sh' = returned sh ret ∧ pc' = .idle) ∨
      advance t sh weak pc = some (sh', pc') := by
  cases pc with
  | done ret =>
    cases h
    exact .inl ⟨ret, rfl, rfl, rfl⟩
  | _ => exact .inr h

theorem step_cases {i : In} (h : step t sh pc i = some (sh', pc')) :
    (∃ op, i = .call op ∧ pc = .idle ∧ start sh op = some (sh', pc')) ∨
      (∃ ret, pc = .done ret ∧ sh' = returned sh ret ∧ pc' = .idle) ∨
      ∃ weak, advance t sh weak pc = some (sh', pc') := by
  cases i with
  | call op =>
    rw [step] at h
    split_ifs at h with hidle
    exact .inl ⟨op, rfl, hidle, h⟩
  | go => exact .inr ((act_cases h).imp_right fun ha => ⟨false, ha⟩)
  | spurious => exact .inr ((act_cases h).imp_right fun ha => ⟨true, ha⟩)

theorem inv_preserved : (machine t P).PreservesWhen (fun c a => Calm c.sh (c.lo a.1)) (Inv t) := by
  intro c p i sh' pc' h hcalm hstep
  rcases step_cases hstep with ⟨op, -, hidle, hstart⟩ | ⟨ret, hdone, rfl, rfl⟩ | ⟨weak, ha⟩
  · exact h.start hidle hstart
  · exact h.ret hdone
  · exact h.advance hcalm ha

end DevHermit.Shmem.Admission
