import Mathlib

namespace DevHermit.Lib

theorem length_filter_lt {α : Type} {p q : α → Bool} {l : List α}
    (himp : ∀ x, p x = true → q x = true) {a : α} (ha : a ∈ l) (hp : p a = false)
    (hq : q a = true) : (l.filter p).length < (l.filter q).length := by
  have hsub := List.monotone_filter_right l himp
  refine hsub.length_le.lt_of_ne fun heq => ?_
  have hmem : a ∈ l.filter p := by
    rw [hsub.eq_of_length heq]
    exact List.mem_filter.mpr ⟨ha, hq⟩
  exact Bool.false_ne_true (hp.symm.trans (List.mem_filter.mp hmem).2)

variable {α : Type} {r : α → α → Prop}

def From (r : α → α → Prop) (seed : Set α) : Set α :=
  {x | ∃ s ∈ seed, Relation.ReflTransGen r s x}

theorem From.seed {seed : Set α} {x : α} (h : x ∈ seed) : x ∈ From r seed :=
  ⟨x, h, Relation.ReflTransGen.refl⟩

theorem From.step {seed : Set α} {x y : α} (h : x ∈ From r seed) (hr : r x y) :
    y ∈ From r seed := by
  obtain ⟨s, hs, hreach⟩ := h
  exact ⟨s, hs, hreach.tail hr⟩

variable {seed : Set α}

theorem From.least {c : Set α} (hseed : seed ⊆ c) (hclosed : ∀ x ∈ c, ∀ y, r x y → y ∈ c) :
    From r seed ⊆ c := by
  rintro x ⟨s, hs, hreach⟩
  induction hreach with
  | refl => exact hseed hs
  | tail _ hr ih => exact hclosed _ ih _ hr

theorem From.mono {seed seed' : Set α} (h : seed ⊆ seed') : From r seed ⊆ From r seed' :=
  From.least (fun _ hx => From.seed (h hx)) fun _ hx _ hr => From.step hx hr

structure Search (r : α → α → Prop) (seed done front : Set α) : Prop where
  seeds : seed ⊆ done ∪ front
  sound : done ∪ front ⊆ From r seed
  closed : ∀ x ∈ done, ∀ y, r x y → y ∈ done ∪ front

theorem Search.start (r : α → α → Prop) (seed : Set α) : Search r seed ∅ seed where
  seeds := Set.subset_union_right
  sound := by
    rw [Set.empty_union]
    exact fun x hx => From.seed hx
  closed := fun x hx => absurd hx (Set.notMem_empty x)

variable {done front front' : Set α} {x : α}

theorem Search.visit {done' : Set α} (h : Search r seed done front) (hx : x ∈ done ∪ front)
    (hfound : done' ∪ front' = done ∪ front ∪ {y | r x y}) (hdone : done' ⊆ insert x done) :
    Search r seed done' front' where
  seeds := by
    rw [hfound]
    exact h.seeds.trans Set.subset_union_left
  sound := by
    rw [hfound]
    rintro y (hy | hy)
    · exact h.sound hy
    · exact From.step (h.sound hx) hy
  closed := by
    intro y hy z hr
    rw [hfound]
    obtain rfl | hy := hdone hy
    · exact .inr hr
    · exact .inl (h.closed y hy z hr)

theorem Search.skip (h : Search r seed done front) (hfound : done ∪ front' = done ∪ front) :
    Search r seed done front' where
  seeds := hfound ▸ h.seeds
  sound := hfound ▸ h.sound
  closed := hfound ▸ h.closed

theorem Search.finish (h : Search r seed done ∅) : done = From r seed := by
  have hsound := h.sound
  have hseeds := h.seeds
  have hclosed := h.closed
  rw [Set.union_empty] at hsound hseeds hclosed
  exact hsound.antisymm (From.least hseeds hclosed)

def Cyclic (r : α → α → Prop) (x : α) : Prop :=
  ∃ y, Relation.TransGen r y y ∧ Relation.ReflTransGen r y x

theorem Cyclic.of_predecessors {s : Finset α} (h : ∀ x ∈ s, ∃ y ∈ s, r y x) (hx : x ∈ s) :
    Cyclic r x := by
  choose! back hmem hback using h
  let walk : ℕ → s := fun n => ⟨back^[n] x, by
    induction n with
    | zero => exact hx
    | succ n ih =>
      rw [Function.iterate_succ_apply']
      exact hmem _ ih⟩
  have hstep : ∀ n, r (walk (n + 1)) (walk n) := by
    intro n
    have hr := hback _ (walk n).2
    rw [← Function.iterate_succ_apply' back n x] at hr
    exact hr
  have hchain : ∀ m n, Relation.ReflTransGen r (walk (m + n)) (walk m) := by
    intro m n
    induction n with
    | zero => exact Relation.ReflTransGen.refl
    | succ n ih => exact Relation.ReflTransGen.head (hstep (m + n)) ih
  obtain ⟨i, j, hne, heq⟩ := Finite.exists_ne_map_eq_of_infinite walk
  wlog hlt : i < j generalizing i j
  · exact this j i hne.symm heq.symm (by omega)
  obtain ⟨k, rfl⟩ := Nat.exists_eq_add_of_lt hlt
  refine ⟨walk i, ?_, ?_⟩
  · have hcycle := Relation.TransGen.head' (hstep (i + k)) (hchain i k)
    rw [← heq] at hcycle
    exact hcycle
  · have hback := hchain 0 i
    rw [Nat.zero_add] at hback
    exact hback

theorem Cyclic.not_of_rank {rank : α → ℕ} (h : ∀ y ∈ done, ∀ x, r x y → x ∈ done ∧ rank x < rank y)
    (hx : x ∈ done) : ¬ Cyclic r x := by
  rintro ⟨c, hcycle, hreach⟩
  have hc : c ∈ done := by
    clear hcycle
    induction hreach using Relation.ReflTransGen.head_induction_on with
    | refl => exact hx
    | head hr _ ih => exact (h _ ih _ hr).1
  have hrank : ∀ {a b}, Relation.TransGen r a b → b ∈ done → rank a < rank b := by
    intro a b hab
    induction hab with
    | single hr => exact fun hb => (h _ hb _ hr).2
    | tail _ hr ih =>
      intro hb
      obtain ⟨hmem, hlt⟩ := h _ hb _ hr
      exact (ih hmem).trans hlt
  exact Nat.lt_irrefl _ (hrank hcycle hc)

end DevHermit.Lib
