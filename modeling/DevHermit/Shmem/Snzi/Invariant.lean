import DevHermit.Shmem.Snzi.Step

namespace DevHermit.Shmem.Snzi

open Pc Lib CounterTree Function Shmem.Tree

variable {P : Type} [Fintype P] {t : TreeSize} {c : Config P Shared Pc} {L M : Claim → Nat}

def pooled (t : TreeSize) : List Token → Claim → Nat
  | [] => 0
  | token :: rest => pooled t rest + unit (leafClaim t token.leaf)

theorem pooled_erase (t : TreeSize) {tokens : List Token} {token : Token} (h : token ∈ tokens) :
    pooled t tokens = pooled t (tokens.erase token) + unit (leafClaim t token.leaf) := by
  induction tokens with
  | nil => cases h
  | cons first rest ih =>
    by_cases hf : first = token
    · subst hf
      rw [List.erase_cons_head]
      rfl
    · have hrest : token ∈ rest := (List.mem_cons.mp h).resolve_left (Ne.symm hf)
      rw [List.erase_cons_tail (by simpa using hf)]
      show pooled t rest + _ = pooled t (rest.erase token) + _ + _
      rw [ih hrest, add_right_comm]

theorem step_go {sh : Shared} {pc : Pc} (hd : ∀ ret, pc ≠ .done ret) :
    step t sh pc .go = (advance t sh.mem pc).map fun r => ({ sh with mem := r.1 }, r.2) := by
  cases pc with
  | done ret => exact absurd rfl (hd ret)
  | _ => rfl

structure Inv (t : TreeSize) (c : Config P Shared Pc) (L M : Claim → Nat) : Prop where
  books : Books t c.sh.mem (pooled t c.sh.tokens + gather (Pc.solid t) c.lo + L)
    (gather Pc.vowed c.lo + M)
  lost : c.sh.mem.poison = poisonNone → (∀ p, (c.lo p).poisoning = false) → L = 0 ∧ M = 0
  ok : ∀ p, (c.lo p).Ok t c.sh.mem
  tokens : ∀ token ∈ c.sh.tokens, Issued t c.sh.mem token.leaf token.generation

theorem inv_init : Inv t (machine t P).init 0 0 where
  books := by
    have hsolid : gather (solid t) (machine t P).init.lo = 0 := Finset.sum_eq_zero fun _ _ => rfl
    have hvowed : gather vowed (machine t P).init.lo = 0 := Finset.sum_eq_zero fun _ _ => rfl
    rw [hsolid, hvowed]
    exact Books.new
  lost := fun _ _ => ⟨rfl, rfl⟩
  ok := fun _ => trivial
  tokens := by rintro token ⟨⟩

namespace Inv

variable [DecidableEq P] {p : P}

theorem counts_ne_zero (h : Inv t c L M) {x : Claim}
    (hx : (c.lo p).solid t x + (c.lo p).vowed x ≠ 0) : counts c.sh.mem (site parent x) ≠ 0 := by
  have hle := h.books.le_counts (holds_valid (h.ok p) hx)
  obtain ⟨R, hR, -⟩ := gather_split (solid t) c.lo p
  obtain ⟨Q, hQ, -⟩ := gather_split vowed c.lo p
  rw [hR, hQ] at hle
  simp only [Pi.add_apply] at hle
  omega

variable {token : Token}

omit [DecidableEq P] in
theorem token_active (h : Inv t c L M) (ht : token ∈ c.sh.tokens) :
    isActive (c.sh.mem.nodes (leafStart t.nodes + token.leaf)) = true := by
  refine h.books.active_of_solid (x := leafClaim t token.leaf)
    (leaf_node_lt (h.tokens token ht).1) rfl ?_
  rw [pooled_erase t ht]
  simp only [Pi.add_apply, unit_self]
  omega

omit [DecidableEq P] in
theorem token_counts (h : Inv t c L M) (ht : token ∈ c.sh.tokens) :
    counts c.sh.mem (site parent (leafClaim t token.leaf)) ≠ 0 := by
  have ha := h.token_active ht
  intro hz
  exact (isActive_iff.mp ha).2 (virtual_eq_zero.mp hz).2

omit [DecidableEq P] in
theorem token_decodes (h : Inv t c L M) (ht : token ∈ c.sh.tokens) :
    decodeRaw token.intoRaw = some token := by
  obtain ⟨hl, hg⟩ := h.tokens token ht
  have ha := isActive_iff.mp (h.token_active ht)
  refine decodeRaw_intoRaw (hl.trans_le (layoutLeafCount_le t.nodes)) ?_ ?_
  · rw [← hg]
    exact stateGeneration_lt _
  · rw [← hg]
    exact (h.books.valid _).generation (.inr ha.2)

variable {pc' : Pc}

section

variable (h : Inv t c L M)
include h

theorem relocate {l : List Token}
    (hs : pooled t l + pc'.solid t = pooled t c.sh.tokens + (c.lo p).solid t)
    (hv : pc'.vowed = (c.lo p).vowed) (hnp : (c.lo p).poisoning = false) (hok : pc'.Ok t c.sh.mem)
    (htokens : ∀ token ∈ l, Issued t c.sh.mem token.leaf token.generation) :
    Inv t ⟨⟨c.sh.mem, l⟩, update c.lo p pc'⟩ L M where
  books := by
    obtain ⟨R, hR, hR'⟩ := gather_split (solid t) c.lo p
    obtain ⟨Q, hQ, hQ'⟩ := gather_split vowed c.lo p
    have hb := h.books
    rw [hR, hQ] at hb
    show Books t c.sh.mem (pooled t l + gather (solid t) (update c.lo p pc') + L)
      (gather vowed (update c.lo p pc') + M)
    rw [hR', hQ', hv, add_left_comm, hs, add_left_comm]
    exact hb
  lost := by
    intro hp hq
    have hothers := (forall_update_iff c.lo fun _ pc => pc.poisoning = false).mp hq
    refine h.lost hp fun q => ?_
    by_cases hqp : q = p
    · exact hqp ▸ hnp
    · exact hothers.2 q hqp
  ok := (forall_update_iff c.lo fun _ pc => pc.Ok t c.sh.mem).mpr
    ⟨hok, fun q _ => h.ok q⟩
  tokens := htokens

theorem advance {m' : Memory} (hstep : advance t c.sh.mem (c.lo p) = some (m', pc')) :
    ∃ L' M', Inv t ⟨⟨m', c.sh.tokens⟩, update c.lo p pc'⟩ L' M' := by
  obtain ⟨R, hR, hR'⟩ := gather_split (solid t) c.lo p
  obtain ⟨Q, hQ, hQ'⟩ := gather_split vowed c.lo p
  have hb : Books t c.sh.mem (pooled t c.sh.tokens + R + L + (c.lo p).solid t)
      (Q + M + (c.lo p).vowed) := by
    have hb := h.books
    rwa [hR, hQ, ← add_assoc, add_right_comm _ _ L, add_right_comm Q] at hb
  obtain ⟨⟨L', M', hb', hlost⟩, hok', hs⟩ := advance_lawful hb (h.ok p) hstep
  refine ⟨L + L', M + M', ⟨?_, fun hp hq => ?_, fun q => ?_, fun token ht => ?_⟩⟩
  · show Books t m' (pooled t c.sh.tokens + gather (solid t) (update c.lo p pc') + (L + L'))
      (gather vowed (update c.lo p pc') + (M + M'))
    rw [hR', hQ']
    have hsolid : pooled t c.sh.tokens + (R + pc'.solid t) + (L + L') =
        pooled t c.sh.tokens + R + L + L' + pc'.solid t := by
      abel
    have hvowed : Q + pc'.vowed + (M + M') = Q + M + M' + pc'.vowed := by abel
    rw [hsolid, hvowed]
    exact hb'
  · have hothers := (forall_update_iff c.lo fun _ pc => pc.poisoning = false).mp hq
    have hpoison : c.sh.mem.poison = poisonNone := by
      by_contra hne
      exact hne ((hs.poison hne).symm.trans hp)
    have hL := h.lost hpoison fun q => by
      by_cases hqp : q = p
      · subst hqp
        by_contra hpo
        rw [Bool.not_eq_false] at hpo
        exact advance_poisoning hpo hstep hp
      · exact hothers.2 q hqp
    obtain ⟨rfl, rfl⟩ := hlost hp hothers.1
    rwa [add_zero, add_zero]
  · exact (forall_update_iff c.lo fun _ pc => pc.Ok t m').mpr
      ⟨hok', fun r _ => (h.ok r).stable hs fun x hx => h.counts_ne_zero hx⟩ q
  · exact (h.tokens token ht).stable hs (h.token_counts ht)

theorem start {p : P} {op : Op} {sh' : Shared} {pc' : Pc}
    (hidle : c.lo p = .idle) (hstart : start t c.sh op = some (sh', pc')) :
    Inv t ⟨sh', update c.lo p pc'⟩ L M := by
  have hnone : ∀ {pc' : Pc}, pc'.solid t = 0 → pc'.vowed = 0 → pc'.Ok t c.sh.mem →
      Inv t ⟨c.sh, update c.lo p pc'⟩ L M := fun hs hv hok =>
    h.relocate (by rw [hs, hidle]; rfl) (by rw [hv, hidle]; rfl) (by rw [hidle]; rfl) hok h.tokens
  have hdepart : ∀ token ∈ c.sh.tokens,
      Inv t ⟨⟨c.sh.mem, c.sh.tokens.erase token⟩, update c.lo p (departToken t token)⟩
        L M := by
    intro token ht
    have hi := h.tokens token ht
    have hleaf : departToken t token = .departHealthy token.leaf token.generation := by
      rw [departToken, leafNode, if_neg (Nat.not_le.mpr hi.1)]
    rw [hleaf]
    refine h.relocate ?_ (by rw [hidle]; rfl) (by rw [hidle]; rfl) hi fun token' ht' =>
      h.tokens token' (List.mem_of_mem_erase ht')
    rw [pooled_erase t ht, hidle]
    exact (add_zero _).symm
  cases op with
  | arrive leaf =>
    cases hstart
    rw [arriveStart, leafNode]
    by_cases hl : layoutLeafCount t.nodes ≤ leaf
    · rw [if_pos hl]
      exact hnone rfl rfl trivial
    · rw [if_neg hl]
      exact hnone rfl rfl (Nat.not_le.mp hl)
  | depart token =>
    rw [Snzi.start] at hstart
    split_ifs at hstart with ht
    cases hstart
    exact hdepart token ht
  | departRaw token =>
    rw [Snzi.start] at hstart
    split_ifs at hstart with ht
    cases hstart
    rw [departRawStart, h.token_decodes ht]
    exact hdepart token ht
  | _ =>
    cases hstart
    exact hnone rfl rfl trivial

theorem ret {ret : Ret} (hdone : c.lo p = .done ret) :
    Inv t ⟨returned c.sh ret, update c.lo p .idle⟩ L M := by
  have hok := h.ok p
  rw [hdone] at hok
  cases ret with
  | arrived token =>
    refine h.relocate (l := token :: c.sh.tokens) ?_ (by rw [hdone]; rfl)
      (by rw [hdone]; rfl) trivial ?_
    · rw [hdone]
      exact add_zero _
    · intro token' ht'
      rcases List.mem_cons.mp ht' with rfl | ht'
      · exact hok
      · exact h.tokens token' ht'
  | _ =>
    exact h.relocate (by rw [hdone]; rfl) (by rw [hdone]; rfl) (by rw [hdone]; rfl) trivial
      h.tokens

theorem step {p : P} {i : In} {sh' : Shared} {pc' : Pc}
    (hstep : step t c.sh (c.lo p) i = some (sh', pc')) :
    ∃ L' M', Inv t ⟨sh', update c.lo p pc'⟩ L' M' := by
  cases i with
  | call op =>
    rw [Snzi.step] at hstep
    split_ifs at hstep with hidle
    exact ⟨L, M, h.start hidle hstep⟩
  | go =>
    by_cases hdone : ∃ ret, c.lo p = .done ret
    · obtain ⟨ret, hdone⟩ := hdone
      rw [hdone] at hstep
      cases hstep
      exact ⟨L, M, h.ret hdone⟩
    · rw [step_go fun ret he => hdone ⟨ret, he⟩, Option.map_eq_some_iff] at hstep
      obtain ⟨⟨m', pc₁⟩, hadv, he⟩ := hstep
      cases he
      exact h.advance hadv

theorem reach {c' : Config P Shared Pc} (hr : (machine t P).Reach c c') :
    ∃ L' M', Inv t c' L' M' := by
  have hpres : (machine t P).Preserves fun c => ∃ L M, Inv t c L M := by
    rintro c p i sh' pc' ⟨L, M, hc⟩ hstep
    exact hc.step hstep
  exact hpres.reach ⟨L, M, h⟩ hr

end

end Inv

theorem reachable_inv [DecidableEq P] (hc : (machine t P).Reachable c) : ∃ L M, Inv t c L M :=
  inv_init.reach hc

end DevHermit.Shmem.Snzi
