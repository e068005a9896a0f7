import DevHermit.Lib.Machine

namespace DevHermit.Lib

open List Function

inductive Event (P Op Ret : Type) where
  | inv (p : P) (op : Op)
  | ret (p : P) (r : Ret)
  deriving DecidableEq, Repr

structure Call (P Op Ret : Type) where
  proc : P
  op : Op
  ret : Ret
  start : Nat
  deriving DecidableEq, Repr

structure Spec (S Op Ret : Type) where
  init : S
  apply : S → Op → Ret → Option S

variable {P Op Ret S : Type}

def Event.proc : Event P Op Ret → P
  | .inv p _ => p
  | .ret p _ => p

structure Returns (h : List (Event P Op Ret)) (a : Call P Op Ret) (k : Nat) : Prop where
  invoked : h[a.start]? = some (.inv a.proc a.op)
  lt : a.start < k
  returned : h[k]? = some (.ret a.proc a.ret)
  silent : ∀ j e, a.start < j → j < k → h[j]? = some e → e.proc ≠ a.proc

structure Pending (h : List (Event P Op Ret)) (p : P) (op : Op) (s : Nat) : Prop where
  invoked : h[s]? = some (.inv p op)
  silent : ∀ j e, s < j → h[j]? = some e → e.proc ≠ p

def Completed (h : List (Event P Op Ret)) (a : Call P Op Ret) : Prop := ∃ k, Returns h a k

def Precedes (h : List (Event P Op Ret)) (a b : Call P Op Ret) : Prop :=
  ∃ k, k < b.start ∧ Returns h a k

def Complete (h : List (Event P Op Ret)) : Prop :=
  ∀ k p op, h[k]? = some (.inv p op) → ∃ r, Completed h ⟨p, op, r, k⟩

def Spec.run (spec : Spec S Op Ret) (s : S) : List (Call P Op Ret) → Option S
  | [] => some s
  | a :: rest => (spec.apply s a.op a.ret).bind fun s' => spec.run s' rest

structure Linearization (spec : Spec S Op Ret) (h : List (Event P Op Ret))
    (lin : List (Call P Op Ret)) : Prop where
  nodup : (lin.map Call.start).Nodup
  mem : ∀ a, a ∈ lin ↔ Completed h a
  legal : (spec.run spec.init lin).isSome
  order : lin.Pairwise fun a b => ¬ Precedes h b a

def Linearizable (spec : Spec S Op Ret) (h : List (Event P Op Ret)) : Prop :=
  ∃ lin, Linearization spec h lin

theorem Spec.run_append (spec : Spec S Op Ret) (s : S) (xs ys : List (Call P Op Ret)) :
    spec.run s (xs ++ ys) = (spec.run s xs).bind fun s' => spec.run s' ys := by
  induction xs generalizing s with
  | nil => rfl
  | cons a rest ih =>
    simp only [cons_append, Spec.run, Option.bind_assoc]
    exact congrArg _ (funext fun s' => ih s')

theorem Spec.run_concat {spec : Spec S Op Ret} {s s' s'' : S} {xs : List (Call P Op Ret)}
    {a : Call P Op Ret} (h : spec.run s xs = some s') (ha : spec.apply s' a.op a.ret = some s'') :
    spec.run s (xs ++ [a]) = some s'' := by
  rw [Spec.run_append, h]
  simp [Spec.run, ha]

section

variable {h es : List (Event P Op Ret)} {a b : Call P Op Ret} {p : P} {op : Op} {r : Ret}
  {s k : Nat}

theorem Returns.lt_length (hr : Returns h a k) : k < h.length :=
  (List.getElem?_eq_some_iff.mp hr.returned).1

theorem Pending.lt_length (hp : Pending h p op s) : s < h.length :=
  (List.getElem?_eq_some_iff.mp hp.invoked).1

theorem returns_append (hk : k < h.length) : Returns (h ++ es) a k ↔ Returns h a k := by
  have hget : ∀ j, j ≤ k → (h ++ es)[j]? = h[j]? := fun j hj => List.getElem?_append_left (by omega)
  constructor
  · intro hr
    have hlt := hr.lt
    exact ⟨hget _ hlt.le ▸ hr.invoked, hlt, hget k le_rfl ▸ hr.returned,
      fun j e h₁ h₂ he => hr.silent j e h₁ h₂ ((hget j h₂.le).trans he)⟩
  · intro hr
    have hlt := hr.lt
    exact ⟨(hget _ hlt.le).trans hr.invoked, hlt, (hget k le_rfl).trans hr.returned,
      fun j e h₁ h₂ he => hr.silent j e h₁ h₂ (hget j h₂.le ▸ he)⟩

theorem precedes_append (ha : a.start ≤ h.length) : Precedes (h ++ es) b a ↔ Precedes h b a := by
  constructor
  · rintro ⟨k, hk, hr⟩
    exact ⟨k, hk, (returns_append (by omega)).mp hr⟩
  · rintro ⟨k, hk, hr⟩
    exact ⟨k, hk, (returns_append hr.lt_length).mpr hr⟩

theorem Pending.unique {op' : Op} {s' : Nat} (hp : Pending h p op s) (hp' : Pending h p op' s') :
    op = op' ∧ s = s' := by
  rcases lt_trichotomy s s' with hlt | rfl | hlt
  · exact absurd rfl (hp.silent s' _ hlt hp'.invoked)
  · have he := Option.some.inj (hp.invoked.symm.trans hp'.invoked)
    exact ⟨(Event.inv.inj he).2, rfl⟩
  · exact absurd rfl (hp'.silent s _ hlt hp.invoked)

theorem Pending.not_returns (hp : Pending h a.proc op a.start) : ¬ Returns h a k :=
  fun hr => hp.silent k _ hr.lt hr.returned rfl

theorem Pending.not_precedes (hp : Pending h a.proc op a.start) : ¬ Precedes h a b :=
  fun h => hp.not_returns h.choose_spec.2

variable {e : Event P Op Ret}

theorem Pending.append_other (he : e.proc ≠ p) (hp : Pending h p op s) :
    Pending (h ++ [e]) p op s := by
  refine ⟨?_, fun j e' hj he' => ?_⟩
  · rw [List.getElem?_append_left hp.lt_length]
    exact hp.invoked
  · rcases lt_or_ge j h.length with hlt | hge
    · rw [List.getElem?_append_left hlt] at he'
      exact hp.silent j e' hj he'
    · rw [List.getElem?_append_right hge] at he'
      have hmem := mem_of_getElem? he'
      rw [mem_singleton.mp hmem]
      exact he

theorem Pending.of_append_other (hp : Pending (h ++ [e]) p op s) (he : e.proc ≠ p) :
    Pending h p op s := by
  have hs : s < h.length := by
    by_contra hge
    have hi := hp.invoked
    rw [List.getElem?_append_right (Nat.not_lt.mp hge)] at hi
    have hmem := mem_singleton.mp (mem_of_getElem? hi)
    exact he (hmem ▸ rfl)
  refine ⟨?_, fun j e' hj he' => hp.silent j e' hj ?_⟩
  · rw [← List.getElem?_append_left hs]
    exact hp.invoked
  · rw [List.getElem?_append_left (List.getElem?_eq_some_iff.mp he').1]
    exact he'

theorem pending_invoke (h : List (Event P Op Ret)) (p : P) (op : Op) :
    Pending (h ++ [.inv p op]) p op h.length := by
  refine ⟨List.getElem?_concat_length, fun j e hj he => ?_⟩
  have hlt := (List.getElem?_eq_some_iff.mp he).1
  simp only [length_append, length_singleton] at hlt
  omega

theorem not_pending_return (h : List (Event P Op Ret)) (p : P) (r : Ret) (op : Op) (s : Nat) :
    ¬ Pending (h ++ [.ret p r]) p op s := by
  intro hp
  have hlen := hp.lt_length
  rw [length_append, length_singleton] at hlen
  rcases Nat.lt_succ_iff_lt_or_eq.mp hlen with hlt | rfl
  · exact hp.silent h.length _ hlt List.getElem?_concat_length rfl
  · have hi := hp.invoked
    rw [List.getElem?_concat_length] at hi
    cases hi

theorem Completed.append (hc : Completed h a) : Completed (h ++ es) a := by
  obtain ⟨k, hr⟩ := hc
  exact ⟨k, (returns_append hr.lt_length).mpr hr⟩

theorem Pending.completed (hp : Pending h p op s) : Completed (h ++ [.ret p r]) ⟨p, op, r, s⟩ := by
  refine ⟨h.length, ?_, hp.lt_length, List.getElem?_concat_length, fun j e hj hk he => ?_⟩
  · rw [List.getElem?_append_left hp.lt_length]
    exact hp.invoked
  · rw [List.getElem?_append_left hk] at he
    exact hp.silent j e hj he

theorem completed_concat (hc : Completed (h ++ [e]) a) :
    Completed h a ∨ e = .ret a.proc a.ret ∧ Pending h a.proc a.op a.start := by
  obtain ⟨k, hr⟩ := hc
  have hlen := hr.lt_length
  rw [length_append, length_singleton] at hlen
  rcases Nat.lt_succ_iff_lt_or_eq.mp hlen with hlt | rfl
  · exact .inl ⟨k, (returns_append hlt).mp hr⟩
  · right
    have hret := hr.returned
    rw [List.getElem?_concat_length] at hret
    refine ⟨Option.some.inj hret, ?_, fun j e' hj he' => ?_⟩
    · rw [← List.getElem?_append_left hr.lt]
      exact hr.invoked
    · have hj' := (List.getElem?_eq_some_iff.mp he').1
      refine hr.silent j e' hj hj' ?_
      rw [List.getElem?_append_left hj']
      exact he'

end

structure Tracks (h : List (Event P Op Ret)) (log : List (Call P Op Ret))
    (status : P → Option (Op × Option Ret)) : Prop where
  nodup : (log.map Call.start).Nodup
  order : log.Pairwise fun a b => ¬ Precedes h b a
  idle : ∀ p, status p = none → ∀ op s, ¬ Pending h p op s
  busy : ∀ p op r, status p = some (op, r) → ∃ s, Pending h p op s
  entry : ∀ a ∈ log, Completed h a ∨
    Pending h a.proc a.op a.start ∧ status a.proc = some (a.op, some a.ret)
  completed : ∀ a, Completed h a → a ∈ log
  logged : ∀ p op r s, status p = some (op, some r) → Pending h p op s → ⟨p, op, r, s⟩ ∈ log

namespace Tracks

variable {h : List (Event P Op Ret)} {log : List (Call P Op Ret)}
  {status : P → Option (Op × Option Ret)} {p : P} {op : Op} {r : Ret}

theorem init : Tracks ([] : List (Event P Op Ret)) [] fun _ => none := by
  constructor
  · exact nodup_nil
  · exact List.Pairwise.nil
  · intro p _ op s hp
    cases hp.lt_length
  · intro p op r hs
    cases hs
  · intro a ha
    cases ha
  · rintro a ⟨k, hr⟩
    cases hr.lt_length
  · intro p op r s hs
    cases hs

theorem start_lt (ht : Tracks h log status) {a : Call P Op Ret} (ha : a ∈ log) :
    a.start < h.length := by
  rcases ht.entry a ha with ⟨k, hr⟩ | ⟨hp, -⟩
  · exact hr.lt.trans hr.lt_length
  · exact hp.lt_length

theorem order_append (ht : Tracks h log status) (es : List (Event P Op Ret)) :
    log.Pairwise fun a b => ¬ Precedes (h ++ es) b a := by
  refine ht.order.imp_of_mem fun {a b} ha _ hab => ?_
  rwa [precedes_append (ht.start_lt ha).le]

theorem congr {status' : P → Option (Op × Option Ret)} (ht : Tracks h log status)
    (he : ∀ q, status' q = status q) : Tracks h log status' := by
  have : status' = status := funext he
  exact this ▸ ht

section

variable [DecidableEq P]

theorem eq_of_update {V : Type} {f : P → V} {q : P} {v w : V}
    (h : update f p v q = w) : q = p ∧ v = w ∨ q ≠ p ∧ f q = w := by
  by_cases hqp : q = p
  · subst hqp
    exact .inl ⟨rfl, (update_self ..).symm.trans h⟩
  · exact .inr ⟨hqp, (update_of_ne hqp ..).symm.trans h⟩

theorem invoke (ht : Tracks h log status) (hs : status p = none) (op : Op) :
    Tracks (h ++ [.inv p op]) log (update status p (some (op, none))) := by
  refine ⟨ht.nodup, ht.order_append _, fun q hq op' s hp => ?_, fun q op' r hq => ?_,
    fun a ha => ?_, fun a hc => ?_, fun q op' r s hq hp => ?_⟩
  · obtain ⟨-, hv⟩ | ⟨hqp, hq⟩ := eq_of_update hq
    · cases hv
    · exact ht.idle q hq op' s (hp.of_append_other (Ne.symm hqp))
  · obtain ⟨rfl, hv⟩ | ⟨hqp, hq⟩ := eq_of_update hq
    · cases hv
      exact ⟨h.length, pending_invoke h q op⟩
    · obtain ⟨s, hp⟩ := ht.busy q op' r hq
      exact ⟨s, hp.append_other (Ne.symm hqp)⟩
  · rcases ht.entry a ha with hc | ⟨hp, hst⟩
    · exact .inl hc.append
    · have hne : a.proc ≠ p := by
        intro he
        rw [he, hs] at hst
        cases hst
      exact .inr ⟨hp.append_other (Ne.symm hne), by rw [update_of_ne hne]; exact hst⟩
  · rcases completed_concat hc with hc | ⟨he, -⟩
    · exact ht.completed a hc
    · cases he
  · obtain ⟨-, hv⟩ | ⟨hqp, hq⟩ := eq_of_update hq
    · cases hv
    · exact ht.logged q op' r s hq (hp.of_append_other (Ne.symm hqp))

theorem settle {xs ys : List (Call P Op Ret)} {s : Nat} (ht : Tracks h (xs ++ ys) status)
    (hs : status p = some (op, none)) (hp : Pending h p op s)
    (hlate : ∀ b ∈ ys, ¬ Precedes h b ⟨p, op, r, s⟩) :
    Tracks h (xs ++ ⟨p, op, r, s⟩ :: ys) (update status p (some (op, some r))) := by
  have hfresh : ∀ a ∈ xs ++ ys, a.start ≠ s := by
    rintro a ha rfl
    rcases ht.entry a ha with ⟨k, hr⟩ | ⟨hpa, hst⟩
    · have he := Option.some.inj (hp.invoked.symm.trans hr.invoked)
      rw [(Event.inv.inj he).1] at hp
      exact hp.not_returns hr
    · have he := Option.some.inj (hp.invoked.symm.trans hpa.invoked)
      rw [← (Event.inv.inj he).1, hs] at hst
      cases hst
  have hperm : (xs ++ ⟨p, op, r, s⟩ :: ys).Perm (⟨p, op, r, s⟩ :: (xs ++ ys)) := perm_middle
  have hbefore : ∀ a, ¬ Precedes h ⟨p, op, r, s⟩ a := fun _ =>
    Pending.not_precedes (a := ⟨p, op, r, s⟩) hp
  refine ⟨?_, ?_, fun q hq => ?_, fun q op' r' hq => ?_, fun a ha => ?_, fun a hc => ?_,
    fun q op' r' s' hq hp' => ?_⟩
  · rw [(hperm.map Call.start).nodup_iff, map_cons, nodup_cons]
    refine ⟨fun hmem => ?_, ht.nodup⟩
    obtain ⟨a, ha, he⟩ := List.mem_map.mp hmem
    exact hfresh a ha he
  · have ho := pairwise_append.mp ht.order
    rw [pairwise_append, pairwise_cons]
    refine ⟨ho.1, ⟨hlate, ho.2.1⟩, fun a ha b hb => ?_⟩
    rcases mem_cons.mp hb with rfl | hb
    · exact hbefore a
    · exact ho.2.2 a ha b hb
  · obtain ⟨-, hv⟩ | ⟨hqp, hq⟩ := eq_of_update hq
    · cases hv
    · exact ht.idle q hq
  · obtain ⟨rfl, hv⟩ | ⟨hqp, hq⟩ := eq_of_update hq
    · cases hv
      exact ⟨s, hp⟩
    · exact ht.busy q op' r' hq
  · rcases mem_cons.mp (hperm.mem_iff.mp ha) with rfl | ha'
    · exact .inr ⟨hp, update_self ..⟩
    · rcases ht.entry a ha' with hc | ⟨hpa, hst⟩
      · exact .inl hc
      · have hne : a.proc ≠ p := by
          intro he
          rw [he, hs] at hst
          cases hst
        exact .inr ⟨hpa, by rw [update_of_ne hne]; exact hst⟩
  · exact hperm.mem_iff.mpr (mem_cons_of_mem _ (ht.completed a hc))
  · obtain ⟨rfl, hv⟩ | ⟨hqp, hq⟩ := eq_of_update hq
    · cases hv
      rw [(hp.unique hp').2]
      simp
    · exact hperm.mem_iff.mpr (mem_cons_of_mem _ (ht.logged q op' r' s' hq hp'))

theorem ret (ht : Tracks h log status) (hs : status p = some (op, some r)) :
    Tracks (h ++ [.ret p r]) log (update status p none) := by
  obtain ⟨s, hp⟩ := ht.busy p op _ hs
  refine ⟨ht.nodup, ht.order_append _, fun q hq op' s' hp' => ?_, fun q op' r' hq => ?_,
    fun a ha => ?_, fun a hc => ?_, fun q op' r' s' hq hp' => ?_⟩
  · obtain ⟨rfl, -⟩ | ⟨hqp, hq⟩ := eq_of_update hq
    · exact not_pending_return h q r op' s' hp'
    · exact ht.idle q hq op' s' (hp'.of_append_other (Ne.symm hqp))
  · obtain ⟨-, hv⟩ | ⟨hqp, hq⟩ := eq_of_update hq
    · cases hv
    · obtain ⟨s', hp'⟩ := ht.busy q op' r' hq
      exact ⟨s', hp'.append_other (Ne.symm hqp)⟩
  · rcases ht.entry a ha with hc | ⟨hpa, hst⟩
    · exact .inl hc.append
    · by_cases hap : a.proc = p
      · left
        rw [hap, hs] at hst
        simp only [Option.some.injEq, Prod.mk.injEq] at hst
        rw [hst.2, ← hap]
        exact hpa.completed
      · exact .inr ⟨hpa.append_other (Ne.symm hap), by rw [update_of_ne hap]; exact hst⟩
  · rcases completed_concat hc with hc | ⟨he, hpa⟩
    · exact ht.completed a hc
    · obtain ⟨hproc, hret⟩ := Event.ret.inj he
      rw [← hproc] at hpa
      obtain ⟨rfl, hstart⟩ := hp.unique hpa
      have hmem := ht.logged p a.op r s hs hp
      rw [hproc, hret, hstart] at hmem
      exact hmem
  · obtain ⟨-, hv⟩ | ⟨hqp, hq⟩ := eq_of_update hq
    · cases hv
    · exact ht.logged q op' r' s' hq (hp'.of_append_other (Ne.symm hqp))

end

theorem status_none (ht : Tracks h log status) (hc : Complete h) (p : P) : status p = none := by
  cases hs : status p with
  | none => rfl
  | some v =>
    obtain ⟨op, r⟩ := v
    obtain ⟨s, hp⟩ := ht.busy p op r hs
    obtain ⟨r', k, hr⟩ := hc s p op hp.invoked
    exact absurd hr (Pending.not_returns (a := ⟨p, op, r', s⟩) hp)

theorem linearization {spec : Spec S Op Ret} (ht : Tracks h log status) (hc : Complete h)
    (hl : (spec.run spec.init log).isSome) : Linearization spec h log := by
  refine ⟨ht.nodup, fun a => ⟨fun ha => ?_, ht.completed a⟩, hl, ht.order⟩
  rcases ht.entry a ha with hca | ⟨-, hst⟩
  · exact hca
  · rw [ht.status_none hc] at hst
    cases hst

end Tracks

namespace Machine

variable {Sh Lo In : Type} [DecidableEq P]

inductive Recorded (M : Machine P Sh Lo In) (observe : P → Lo → In → List (Event P Op Ret)) :
    Config P Sh Lo → List (Event P Op Ret) → Prop where
  | init : Recorded M observe M.init []
  | step {c c' : Config P Sh Lo} {h : List (Event P Op Ret)} {p : P} {i : In} :
      Recorded M observe c h → M.next c p i = some c' →
      Recorded M observe c' (h ++ observe p (c.lo p) i)

def record (M : Machine P Sh Lo In) (observe : P → Lo → In → List (Event P Op Ret))
    (c : Config P Sh Lo) (h : List (Event P Op Ret)) :
    List (P × In) → Option (Config P Sh Lo × List (Event P Op Ret))
  | [] => some (c, h)
  | (p, i) :: rest =>
    (M.next c p i).bind fun c' => record M observe c' (h ++ observe p (c.lo p) i) rest

variable {M : Machine P Sh Lo In} {acts : List (P × In)} {c : Config P Sh Lo}
  {h : List (Event P Op Ret)} {observe : P → Lo → In → List (Event P Op Ret)}

theorem Recorded.of_record {c' : Config P Sh Lo} {h' : List (Event P Op Ret)}
    (hr : M.Recorded observe c h) (ha : M.record observe c h acts = some (c', h')) :
    M.Recorded observe c' h' := by
  induction acts generalizing c h with
  | nil =>
    cases ha
    exact hr
  | cons a rest ih =>
    obtain ⟨p, i⟩ := a
    obtain ⟨c₁, hn, ha'⟩ := Option.bind_eq_some_iff.mp ha
    exact ih (hr.step hn) ha'

theorem exists_recorded (ha : (M.record observe M.init [] acts).map Prod.snd = some h) :
    ∃ c, M.Recorded observe c h := by
  obtain ⟨⟨c, h'⟩, hr, rfl⟩ := Option.map_eq_some_iff.mp ha
  exact ⟨c, Recorded.init.of_record hr⟩

theorem Recorded.reachable (hr : M.Recorded observe c h) : M.Reachable c := by
  induction hr with
  | init => exact Reachable.init
  | step _ hn ih => exact ih.step ⟨_, _, hn⟩

end Machine

end DevHermit.Lib
