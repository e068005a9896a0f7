import DevHermit.Shmem.Csnzi.Abstract

namespace DevHermit.Shmem.Csnzi

open Lib Function

def ArrivePc.exchanges (t : TreeSize) (sh : Shared) : ArrivePc → Prop
  | .cas node _ state => sh.nodes node = state
  | .rootCas root => sh.root = root
  | .compensate _ _ (.cas target state) => sh.nodes (target.node t) = state
  | .compensate _ _ (.rootCas _ root) => sh.root = root
  | _ => False

def Pc.exchanges (t : TreeSize) (sh : Shared) (i : In) : Pc → Prop
  | .arrive _ _ pc => i = .go ∧ pc.exchanges t sh
  | _ => False

variable {P : Type} [DecidableEq P]

inductive Entry (t : TreeSize) (p : P) (leaf : Nat) : Config P Shared Pc → Prop → Prop where
  | call {c c' : Config P Shared Pc} : (machine t P).Reachable c →
      (machine t P).next c p (.call (.tryEnter leaf)) = some c' → Entry t p leaf c' False
  | other {c c' : Config P Shared Pc} {exchanged : Prop} {q : P} {i : In} :
      Entry t p leaf c exchanged → q ≠ p → (machine t P).next c q i = some c' →
      Entry t p leaf c' exchanged
  | own {c c' : Config P Shared Pc} {exchanged : Prop} {i : In} :
      Entry t p leaf c exchanged → (c.lo p).entering = true →
      (machine t P).next c p i = some c' →
      Entry t p leaf c' (exchanged ∨ (c.lo p).exchanges t c.sh i)

variable {t : TreeSize} {sh sh' : Shared} {pc pc' : Pc} {weak : Bool}

theorem Entry.others {p q : P} {leaf : Nat} {c c' : Config P Shared Pc} {exchanged : Prop}
    (h : Entry t p leaf c exchanged) (hq : q ≠ p) {inputs : List In}
    (hrun : (machine t P).run c (inputs.map (q, ·)) = some c') : Entry t p leaf c' exchanged := by
  induction inputs generalizing c with
  | nil =>
    cases hrun
    exact h
  | cons i inputs ih =>
    rw [List.map_cons, Machine.run_cons] at hrun
    obtain ⟨c₁, hn, hrest⟩ := Option.bind_eq_some_iff.mp hrun
    exact ih (h.other hq hn) hrest

theorem represented_of_exchanges (hs : Safe t sh pc) (hok : pc.Ok t sh)
    (hin : pc.entering = true) {i : In} (hgo : i = .go → weak = false) (hx : pc.exchanges t sh i)
    (h : advance t sh weak pc = some (sh', pc')) : pc'.represented = true := by
  have hkeep := represented_iff_cas hs hok hin h
  cases pc with
  | arrive leaf callers a =>
    cases a with
    | cas node arrived state =>
      rw [advance, arriveStep, if_pos ⟨hgo hx.1, hx.2⟩] at h
      cases h
      split_ifs
      · rfl
      · exact arriveReturn_represented _ _ _
    | rootCas root =>
      rw [advance, arriveStep, if_pos ⟨hgo hx.1, hx.2⟩] at h
      cases h
      exact arriveReturn_represented _ _ _
    | compensate node generation d => exact hkeep.mpr (.inl rfl)
    | _ => exact hx.2.elim
  | _ => exact hx.elim

theorem request_of_entering (hs : Safe t sh pc) (hok : pc.Ok t sh) (hin : pc.entering = true)
    (hreq : pc.request = some .tryEnter) (h : advance t sh weak pc = some (sh', pc')) :
    pc'.request = some .tryEnter := by
  have hdone : ∀ ret, pc ≠ .done ret := by
    rintro ret rfl
    cases hin
  cases advance_logical hs hok hdone h with
  | silent _ _ hkeeps => exact hkeeps.request.trans hreq
  | enter _ _ _ _ _ _ hreq' => exact hreq'
  | depart _ _ hreq' => cases hreq.symm.trans hreq'
  | close _ _ _ _ _ hreq' => cases hreq.symm.trans hreq'
  | query _ hpc => cases hpc ▸ hin

structure Tracked (t : TreeSize) (p : P) (c : Config P Shared Pc) (exchanged : Prop) : Prop where
  reachable : (machine t P).Reachable c
  request : (c.lo p).request = some .tryEnter
  represented : exchanged → (c.lo p).represented = true

variable [Fintype P] {p : P} {leaf : Nat} {c : Config P Shared Pc} {exchanged : Prop}

theorem Entry.tracked (h : Entry t p leaf c exchanged) : Tracked t p c exchanged := by
  induction h with
  | call hc hn =>
    refine ⟨hc.step ⟨_, _, hn⟩, ?_, False.elim⟩
    obtain ⟨sh, pc, hs, rfl⟩ := Machine.next_eq_some.mp hn
    simp only [machine, step, start, leafNode] at hs
    split_ifs at hs <;> cases hs <;> simp [Pc.request, Ret.request, Kind.request]
  | other _ hq hn ih =>
    obtain ⟨sh, pc, hs, rfl⟩ := Machine.next_eq_some.mp hn
    refine ⟨ih.reachable.step ⟨_, _, hn⟩, ?_, ?_⟩
    · simpa only [update_of_ne hq.symm] using ih.request
    · simpa only [update_of_ne hq.symm] using ih.represented
  | @own c c' exchanged i _ hin hn ih =>
    obtain ⟨phase, count, hinv⟩ := reachable_inv ih.reachable
    obtain ⟨sh, pc, hs, rfl⟩ := Machine.next_eq_some.mp hn
    have hsafe := hinv.safe p
    have hok := hinv.ok p
    obtain ⟨weak, hs, hgo⟩ := advance_of_entering hin hs
    refine ⟨ih.reachable.step ⟨_, _, hn⟩, ?_, ?_⟩ <;> simp only [update_self]
    · exact request_of_entering hsafe hok hin ih.request hs
    · rintro (hold | hx)
      · exact (represented_iff_cas hsafe hok hin hs).mpr (.inl (ih.represented hold))
      · exact represented_of_exchanges hsafe hok hin hgo hx hs

theorem rejected_entry_leaves_no_trace (t : TreeSize) (p : P) (leaf : Nat)
    (c : Config P Shared Pc) (exchanged : Prop) (h : Entry t p leaf c exchanged) (ret : Ret)
    (hret : c.lo p = .done ret) :
    (∃ token, ret = .entered token) ∨
      ∃ e, ret = .error .tryEnter e ∧ e.Rejects c.sh ∧ ¬ exchanged := by
  have htracked := h.tracked
  obtain ⟨phase, count, hinv⟩ := reachable_inv htracked.reachable
  have hok := hinv.ok p
  have hreq := htracked.request
  have hrep := htracked.represented
  rw [hret] at hok hreq hrep
  cases ret with
  | entered token => exact .inl ⟨token, rfl⟩
  | error kind e =>
    cases kind with
    | tryEnter => exact .inr ⟨e, rfl, hok, fun hx => Bool.false_ne_true (hrep hx)⟩
    | _ => cases hreq
  | _ => cases hreq

def closing : List In := [.call .close, .go, .go, .go, .go, .go, .go]

theorem entry_beside_close_leaves_no_trace :
    ∃ c exchanged, Entry fourNodes false 0 c exchanged ∧ ¬ exchanged ∧
      c.lo false = .done (.error .tryEnter .closed) := by
  let M := machine fourNodes Bool
  have hrun : ((M.next M.init false (.call (.tryEnter 0))).bind fun c₁ =>
      (M.run c₁ (closing.map (true, ·))).bind fun c₂ => (M.next c₂ false .go).bind fun c₃ =>
        (M.next c₃ false .go).map fun c₄ =>
          ((c₂.lo false).entering, (c₃.lo false).entering, c₄.lo false)) =
      some (true, true, .done (.error .tryEnter .closed)) := by
    decide +kernel
  obtain ⟨c₁, h₁, hrun⟩ := Option.bind_eq_some_iff.mp hrun
  obtain ⟨c₂, h₂, hrun⟩ := Option.bind_eq_some_iff.mp hrun
  obtain ⟨c₃, h₃, hrun⟩ := Option.bind_eq_some_iff.mp hrun
  obtain ⟨c₄, h₄, hview⟩ := Option.map_eq_some_iff.mp hrun
  simp only [Prod.mk.injEq] at hview
  obtain ⟨hin₂, hin₃, hlo⟩ := hview
  have hentry := (((Entry.call .init h₁).others (by decide) h₂).own hin₂ h₃).own hin₃ h₄
  rcases rejected_entry_leaves_no_trace fourNodes false 0 c₄ _ hentry _ hlo with ⟨_, ⟨⟩⟩ | h
  obtain ⟨_, _, _, hno⟩ := h
  exact ⟨c₄, _, hentry, hno, hlo⟩

end DevHermit.Shmem.Csnzi
