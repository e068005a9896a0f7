import DevHermit.Lib.Script

namespace DevHermit.Lib

open List

structure Sys (W : Type) where
  shared : W
  live : List Bool

namespace Sys

variable {W : Type}

def alive (s : Sys W) (p : Nat) : Bool := s.live.getD p false

def after (s : Sys W) (w : W) : Sys W := ⟨w, s.live⟩

variable {s : Sys W} {p q : Nat}

theorem alive_append (w : W) (h : q < s.live.length) :
    alive ⟨w, s.live ++ [true]⟩ q = s.alive q := by
  rw [alive, alive, getD_append _ _ _ _ h]

theorem alive_of_set {w : W} (h : alive ⟨w, s.live.set p false⟩ q = true) : s.alive q = true := by
  rw [alive, List.getD_eq_getElem?_getD, List.getElem?_set] at h
  split_ifs at h with hpq hlt
  · cases h
  · cases h
  · rw [alive, List.getD_eq_getElem?_getD]
    exact h

theorem lt_of_alive (h : s.alive q = true) : q < s.live.length := by
  by_contra hge
  rw [alive, getD_eq_default _ _ (Nat.le_of_not_lt hge)] at h
  cases h

end Sys

abbrev Prog (L X W A : Type) := Script L (Nat × Sys W) W A X

structure Contract (L W : Type) where
  inv : Sys W → Prop
  frame : Nat → Sys W → Sys W → Prop
  cond : L → Sys W → Sys W → Prop
  own : Nat → L → Sys W → Prop

def Contract.rule {L W A : Type} (C : Contract L W) (p : Nat) :
    Rule L (Nat × Sys W) W A (Sys W) :=
  fun l act K s => ∀ s', C.inv s' → C.frame p s s' → C.cond l s s' →
    C.own p l s' → s'.alive p = true → ∀ a,
      C.inv (s'.after (act (p, s') a)) ∧ (∀ q, q ≠ p → C.frame q s' (s'.after (act (p, s') a))) ∧
        K (p, s') a (s'.after (act (p, s') a))

namespace Script

variable {L X W A α β : Type} (C : Contract L W) (p : Nat)

def act (l : L) (act : Nat → Sys W → A → W) (next : Nat → Sys W → A → Prog L X W A α) :
    Prog L X W A α :=
  .step l (fun v => act v.1 v.2) fun v => next v.1 v.2

def handle (m : Prog L X W A α) (h : X → Prog L X W A α) : Prog L X W A α :=
  m.attempt.bind fun
    | .ok a => .ret a
    | .error x => h x

def ensuring (m : Prog L X W A α) (fin : Prog L X W A Unit) : Prog L X W A α :=
  (m.handle fun x => fin.bind fun _ => .raise x).bind fun a => fin.bind fun _ => .ret a

def head : Prog L X W A α → Option L
  | .step l _ _ => some l
  | _ => none

def Safe (m : Prog L X W A α) (Q : Sys W → α → Prop) (E : Sys W → X → Prop) (s : Sys W) : Prop :=
  m.Obeys (C.rule p) (fun a s => Q s a) (fun x s => E s x) s

variable {C p} {E : Sys W → X → Prop} {f : α → Prog L X W A β} {m : Prog L X W A α} {s : Sys W}

theorem Safe.bind {Q : Sys W → β → Prop} (h : m.Safe C p (fun s a => (f a).Safe C p Q E s) E s) :
    (m.bind f).Safe C p Q E s := obeys_bind.mpr h

variable {Q : Sys W → α → Prop}

theorem Safe.handle {g : X → Prog L X W A α} (h : m.Safe C p Q (fun s x => (g x).Safe C p Q E s) s)
    : (m.handle g).Safe C p Q E s := obeys_bind.mpr (obeys_attempt.mpr h)

theorem Safe.imp {Q' : Sys W → α → Prop} {E' : Sys W → X → Prop} (h : m.Safe C p Q E s)
    (hQ : ∀ s a, Q s a → Q' s a) (hE : ∀ s x, E s x → E' s x) : m.Safe C p Q' E' s := by
  refine Obeys.mono (fun hK h s' hinv hframe hcond hown halive a => ?_) h
    (fun a s => hQ s a) fun x s => hE s x
  obtain ⟨hinv', hframe', hnext⟩ := h s' hinv hframe hcond hown halive a
  exact ⟨hinv', hframe', hK _ a _ hnext⟩

variable {P : Sys W → α → Prop}

theorem Safe.seq {Q : Sys W → β → Prop} (h : m.Safe C p P E s)
    (hf : ∀ s a, P s a → (f a).Safe C p Q E s) : (m >>= f).Safe C p Q E s :=
  Safe.bind (h.imp hf fun _ _ hx => hx)

variable {fin : Prog L X W A Unit}

theorem Safe.ensuring_result {K : Sys W → X → Prop} (h : m.Safe C p P K s)
    (hret : ∀ s a, P s a → fin.Safe C p (fun s _ => Q s a) (fun _ _ => False) s)
    (hraise : ∀ s x, K s x → fin.Safe C p (fun s _ => E s x) (fun _ _ => False) s) :
    (m.ensuring fin).Safe C p Q E s := by
  have hhandled : (m.handle fun x => fin.bind fun _ => .raise x).Safe C p P E s := by
    refine Safe.handle (h.imp (fun _ _ hp => hp) fun s x hk => ?_)
    exact Safe.bind ((hraise s x hk).imp (fun _ _ he => he) fun _ _ hf => hf.elim)
  refine Safe.bind (hhandled.imp (fun s a hp => ?_) fun _ _ he => he)
  exact Safe.bind ((hret s a hp).imp (fun _ _ hq => hq) fun _ _ hf => hf.elim)

theorem Safe.ensuring {K : Sys W → Prop} (h : m.Safe C p (fun s _ => K s) (fun s _ => K s) s)
    (hfin : ∀ s, K s → fin.Safe C p (fun s _ => (∀ a, Q s a) ∧ ∀ x, E s x) (fun _ _ => False) s) :
    (m.ensuring fin).Safe C p Q E s :=
  Safe.ensuring_result h (fun s a hk => (hfin s hk).imp (fun _ _ hq => hq.1 a) fun _ _ hf => hf)
    fun s x hk => (hfin s hk).imp (fun _ _ hq => hq.2 x) fun _ _ hf => hf

end Script

structure Contract.Stable {L W : Type} (C : Contract L W) : Prop where
  frame_refl : ∀ {p s}, C.frame p s s
  frame_trans : ∀ {p s s' s''}, C.frame p s s' → C.frame p s' s'' → C.frame p s s''
  cond_trans : ∀ {l s s' s''}, C.cond l s s' → C.cond l s' s'' → C.cond l s s''
  cond_shared : ∀ {l s s'}, s'.shared = s.shared → C.cond l s s'
  inv_start : ∀ {s}, C.inv s → C.inv ⟨s.shared, s.live ++ [true]⟩
  inv_exit : ∀ {s p}, C.inv s → C.inv ⟨s.shared, s.live.set p false⟩
  frame_start : ∀ {s q}, C.frame q s ⟨s.shared, s.live ++ [true]⟩
  frame_exit : ∀ {s p q}, C.frame q s ⟨s.shared, s.live.set p false⟩

theorem Script.Safe.advance {L X W A α : Type} {C : Contract L W} {p : Nat} (hC : C.Stable)
    {m : Prog L X W A α} {s s' : Sys W} (h : m.Safe C p (fun _ _ => True) (fun _ _ => True) s)
    (hframe : C.frame p s s') (hcond : ∀ l ∈ m.head, C.cond l s s') :
    m.Safe C p (fun _ _ => True) (fun _ _ => True) s' := by
  cases m with
  | ret a => trivial
  | raise x => trivial
  | step l act next =>
    intro s'' hinv hframe' hcond' hown halive a
    exact h s'' hinv (hC.frame_trans hframe hframe') (hC.cond_trans (hcond l rfl) hcond') hown
      halive a

structure Pool (L X W A : Type) where
  shared : W
  procs : List (Bool × Prog L X W A Unit)

inductive Move (K A : Type) where
  | start (command : K)
  | exit (p : Nat)
  | act (p : Nat) (answer : A)

namespace Pool

variable {L X W A K : Type}

def sys (c : Pool L X W A) : Sys W := ⟨c.shared, c.procs.map Prod.fst⟩

def head (c : Pool L X W A) (q : Nat) : Option L :=
  match c.procs[q]? with
  | some (true, prog) => prog.head
  | _ => none

def move (commands : K → Prog L X W A Unit) (c : Pool L X W A) : Move K A → Option (Pool L X W A)
  | .start command => some ⟨c.shared, c.procs ++ [(true, commands command)]⟩
  | .exit p =>
    match c.procs[p]? with
    | some (_, prog) => some ⟨c.shared, c.procs.set p (false, prog)⟩
    | none => none
  | .act p answer =>
    match c.procs[p]? with
    | some (true, .step _ act next) =>
      some ⟨act (p, c.sys) answer, c.procs.set p (true, next (p, c.sys) answer)⟩
    | _ => none

def Permits (C : Contract L W) (commands : K → Prog L X W A Unit) (c : Pool L X W A) :
    Move K A → Prop
  | .act p answer => (∀ l ∈ c.head p, C.own p l c.sys) ∧
      ∀ c' ∈ c.move commands (.act p answer), ∀ q < c.procs.length, q ≠ p →
        ∀ l ∈ c.head q, C.cond l c.sys c'.sys
  | .start _ => True
  | .exit _ => True

instance decidablePermits (C : Contract L W) (commands : K → Prog L X W A Unit)
    [∀ p l s, Decidable (C.own p l s)] [∀ l s s', Decidable (C.cond l s s')]
    (c : Pool L X W A) : (m : Move K A) → Decidable (Permits C commands c m)
  | .act p answer => inferInstanceAs (Decidable ((∀ l ∈ c.head p, C.own p l c.sys) ∧
      ∀ c' ∈ c.move commands (.act p answer), ∀ q < c.procs.length, q ≠ p →
        ∀ l ∈ c.head q, C.cond l c.sys c'.sys))
  | .start _ => .isTrue trivial
  | .exit _ => .isTrue trivial

def system (commands : K → Prog L X W A Unit) (w : W) : System (Pool L X W A) (Move K A) where
  start := ⟨w, []⟩
  step := move commands

def Sound (C : Contract L W) (c : Pool L X W A) : Prop :=
  C.inv c.sys ∧ ∀ p (prog : Prog L X W A Unit), c.procs[p]? = some (true, prog) →
    prog.Safe C p (fun _ _ => True) (fun _ _ => True) c.sys

variable {C : Contract L W} {commands : K → Prog L X W A Unit}
  {c : Pool L X W A} {prog : Prog L X W A Unit}

theorem head_eq {q : Nat} (h : c.procs[q]? = some (true, prog)) : c.head q = prog.head := by
  rw [head, h]

theorem Sound.start (hC : C.Stable)
    (hcommands : ∀ command s, C.inv s → (commands command).Safe C s.live.length
      (fun _ _ => True) (fun _ _ => True) ⟨s.shared, s.live ++ [true]⟩)
    {c : Pool L X W A} (h : c.Sound C) (command : K) :
    Sound C ⟨c.shared, c.procs ++ [(true, commands command)]⟩ := by
  have hsys : sys ⟨c.shared, c.procs ++ [(true, commands command)]⟩ =
      ⟨c.sys.shared, c.sys.live ++ [true]⟩ := by
    rw [sys, map_append]
    rfl
  refine ⟨hsys ▸ hC.inv_start h.1, fun p prog hp => ?_⟩
  rw [hsys]
  rcases Nat.lt_trichotomy p c.procs.length with hlt | heq | hgt
  · rw [List.getElem?_append_left hlt] at hp
    exact (h.2 p prog hp).advance hC hC.frame_start fun l _ => hC.cond_shared rfl
  · rw [heq, List.getElem?_concat_length] at hp
    cases hp
    have hlen : p = c.sys.live.length := by rw [sys, length_map, heq]
    rw [hlen]
    exact hcommands command c.sys h.1
  · rw [List.getElem?_eq_none (by rw [length_append, length_singleton]; omega)] at hp
    cases hp

theorem Sound.exit (hC : C.Stable) (h : c.Sound C) {p : Nat} {b : Bool}
    (hp : c.procs[p]? = some (b, prog)) : Sound C ⟨c.shared, c.procs.set p (false, prog)⟩ := by
  have hsys : sys ⟨c.shared, c.procs.set p (false, prog)⟩ =
      ⟨c.sys.shared, c.sys.live.set p false⟩ := by
    rw [sys, map_set]
    rfl
  refine ⟨hsys ▸ hC.inv_exit h.1, fun q prog' hq => ?_⟩
  rw [hsys]
  by_cases hqp : q = p
  · subst hqp
    rw [List.getElem?_set_self (List.getElem?_eq_some_iff.mp hp).1] at hq
    cases hq
  · rw [List.getElem?_set_ne (Ne.symm hqp)] at hq
    exact (h.2 q prog' hq).advance hC hC.frame_exit fun l _ => hC.cond_shared rfl

theorem Sound.act (hC : C.Stable) {c : Pool L X W A} (h : c.Sound C) {p : Nat} {l : L}
    {act : Nat × Sys W → A → W} {next : Nat × Sys W → A → Prog L X W A Unit}
    (hp : c.procs[p]? = some (true, .step l act next)) {answer : A}
    (hpermits : c.Permits C commands (.act p answer)) :
    Sound C ⟨act (p, c.sys) answer, c.procs.set p (true, next (p, c.sys) answer)⟩ := by
  have hlive : (c.procs.set p (true, next (p, c.sys) answer)).map Prod.fst = c.procs.map Prod.fst := by
    rw [map_set]
    refine ext_getElem? fun q => ?_
    by_cases hqp : q = p
    · subst hqp
      rw [List.getElem?_set_self (by
        rw [length_map]
        exact (List.getElem?_eq_some_iff.mp hp).1), List.getElem?_map, hp]
      rfl
    · rw [List.getElem?_set_ne (Ne.symm hqp)]
  have hsys : sys ⟨act (p, c.sys) answer, c.procs.set p (true, next (p, c.sys) answer)⟩ =
      c.sys.after (act (p, c.sys) answer) := by
    rw [sys, hlive]
    rfl
  have hhead : c.head p = some l := head_eq hp
  have hmove : c.move commands (.act p answer) =
      some ⟨act (p, c.sys) answer, c.procs.set p (true, next (p, c.sys) answer)⟩ := by
    rw [move, hp]
  obtain ⟨hown, hothers⟩ := hpermits
  have halive : c.sys.alive p = true := by
    rw [Sys.alive, sys, List.getD_eq_getElem?_getD, List.getElem?_map, hp]
    rfl
  obtain ⟨hinv, hframe, hnext⟩ := h.2 p _ hp c.sys h.1 hC.frame_refl (hC.cond_shared rfl)
    (hown l hhead) halive answer
  refine ⟨hsys ▸ hinv, fun q prog hq => ?_⟩
  rw [hsys]
  by_cases hqp : q = p
  · subst hqp
    rw [List.getElem?_set_self (List.getElem?_eq_some_iff.mp hp).1] at hq
    cases hq
    exact hnext
  · rw [List.getElem?_set_ne (Ne.symm hqp)] at hq
    refine (h.2 q prog hq).advance hC (hframe q hqp) fun l' hl' => ?_
    have hlt := (List.getElem?_eq_some_iff.mp hq).1
    exact hsys ▸ hothers _ hmove q hlt hqp l' (head_eq hq ▸ hl')

theorem sound_of_reachable (hC : C.Stable) {w : W} (hinit : C.inv ⟨w, []⟩)
    (hcommands : ∀ command s, C.inv s →
      (commands command).Safe C s.live.length (fun _ _ => True) (fun _ _ => True)
      ⟨s.shared, s.live ++ [true]⟩) (h : (system commands w).ReachableWhen (Permits C commands) c) :
    c.Sound C := by
  refine h.invariant ⟨hinit, fun p prog hp => by cases hp⟩ ?_
  intro c m c' hsound hpermits hstep
  have hmove : c.move commands m = some c' := hstep
  cases m with
  | start command =>
    cases Option.some.inj hmove
    exact hsound.start hC hcommands command
  | exit p =>
    rw [move] at hmove
    split at hmove
    case h_1 b prog hp =>
      cases Option.some.inj hmove
      exact hsound.exit hC hp
    case h_2 => cases hmove
  | act p answer =>
    rw [move] at hmove
    split at hmove
    case h_1 l act next hp =>
      cases Option.some.inj hmove
      exact hsound.act hC hp hpermits
    case h_2 => cases hmove

end Pool

end DevHermit.Lib
