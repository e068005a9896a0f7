import DevHermit.Lib.System

namespace DevHermit.Lib

inductive Script (L V W A X α : Type) where
  | ret (a : α)
  | raise (x : X)
  | step (label : L) (act : V → A → W) (next : V → A → Script L V W A X α)

abbrev Rule (L V W A S : Type) := L → (V → A → W) → (V → A → S → Prop) → S → Prop

def Rule.Monotone {L V W A S : Type} (R : Rule L V W A S) : Prop :=
  ∀ {l act K K' s}, (∀ v a s, K v a s → K' v a s) → R l act K s → R l act K' s

namespace Script

variable {L V W A S X α β σ : Type}

def bind : Script L V W A X α → (α → Script L V W A X β) → Script L V W A X β
  | .ret a, f => f a
  | .raise x, _ => .raise x
  | .step l act next, f => .step l act fun v a => (next v a).bind f

def attempt : Script L V W A X α → Script L V W A X (Except X α)
  | .ret a => .ret (.ok a)
  | .raise x => .ret (.error x)
  | .step l act next => .step l act fun v a => (next v a).attempt

instance : Monad (Script L V W A X) where
  pure := .ret
  bind := bind

def doIf (c : Bool) (m : Script L V W A X Unit) : Script L V W A X Unit := if c then m else .ret ()

def thread (body : β → σ → Script L V W A X σ) : List β → σ → Script L V W A X σ
  | [], s => .ret s
  | b :: bs, s => (body b s).bind fun s' => thread body bs s'

def Obeys (R : Rule L V W A S) :
    Script L V W A X α → (α → S → Prop) → (X → S → Prop) → S → Prop
  | .ret a, Q, _, s => Q a s
  | .raise x, _, E, s => E x s
  | .step l act next, Q, E, s => R l act (fun v a => Obeys R (next v a) Q E) s

variable {R : Rule L V W A S} {E : X → S → Prop} {m : Script L V W A X α} {s : S}

theorem Obeys.mono {Q Q' : α → S → Prop} {E' : X → S → Prop} (hR : R.Monotone)
    (h : m.Obeys R Q E s) (hQ : ∀ a s, Q a s → Q' a s) (hE : ∀ x s, E x s → E' x s) :
    m.Obeys R Q' E' s := by
  induction m generalizing s with
  | ret a => exact hQ a s h
  | raise x => exact hE x s h
  | step l act next ih => exact hR (fun v a _ hK => ih v a hK) h

theorem obeys_bind {Q : β → S → Prop} {f : α → Script L V W A X β} :
    (m.bind f).Obeys R Q E s ↔ m.Obeys R (fun a => (f a).Obeys R Q E) E s := by
  induction m generalizing s with
  | ret a | raise x => exact Iff.rfl
  | step l act next ih =>
    exact iff_of_eq (congrArg (R l act · s) (funext₂ fun v a => funext fun s => propext (ih v a)))

theorem obeys_attempt {Q : Except X α → S → Prop} : m.attempt.Obeys R Q E s ↔
    m.Obeys R (fun a => Q (.ok a)) (fun x => Q (.error x)) s := by
  induction m generalizing s with
  | ret a | raise x => exact Iff.rfl
  | step l act next ih =>
    exact iff_of_eq (congrArg (R l act · s) (funext₂ fun v a => funext fun s => propext (ih v a)))

def play : Script L W W A X α → (Nat → A) → W → W × Except X α
  | .ret a, _, w => (w, .ok a)
  | .raise x, _, w => (w, .error x)
  | .step _ act next, answers, w =>
    (next w (answers 0)).play (fun n => answers (n + 1)) (act w (answers 0))

end Script

structure Discipline (L W A : Type) where
  holds : L → W → Prop
  allows : L → A → Prop

def Discipline.rule {L W A : Type} (D : Discipline L W A) : Rule L W W A W :=
  fun l act K w => D.holds l w ∧ ∀ a, D.allows l a → K w a (act w a)

namespace Script

variable {L W A X α β σ : Type} {D : Discipline L W A}

def Keeps (D : Discipline L W A) (m : Script L W W A X α) (Q : α → W → Prop) (E : X → W → Prop)
    (w : W) : Prop := m.Obeys D.rule Q E w

variable {E : X → W → Prop} {m : Script L W W A X α} {w : W}

theorem Keeps.mono {Q Q' : α → W → Prop} {E' : X → W → Prop} (h : m.Keeps D Q E w)
    (hQ : ∀ a w, Q a w → Q' a w) (hE : ∀ x w, E x w → E' x w) : m.Keeps D Q' E' w :=
  Obeys.mono (fun hK h => ⟨h.1, fun a ha => hK _ a _ (h.2 a ha)⟩) h hQ hE

variable {Q : β → W → Prop} {f : α → Script L W W A X β}

theorem Keeps.bind (h : m.Keeps D (fun a w => (f a).Keeps D Q E w) E w) :
    (m.bind f).Keeps D Q E w := obeys_bind.mpr h

theorem Keeps.seq {P : α → W → Prop} (h : m.Keeps D P E w) (hf : ∀ a w, P a w → (f a).Keeps D Q E w)
    : (m >>= f).Keeps D Q E w :=
  Keeps.bind (h.mono hf fun _ _ hx => hx)

theorem Keeps.attempt {Q : Except X α → W → Prop}
    (h : m.Keeps D (fun a => Q (.ok a)) (fun x => Q (.error x)) w) : m.attempt.Keeps D Q E w :=
  obeys_attempt.mpr h

theorem Keeps.thread {body : β → σ → Script L W W A X σ} {I : List β → σ → W → Prop}
    (hbody : ∀ b bs s w, I (b :: bs) s w → (body b s).Keeps D (I bs) E w) :
    ∀ (bs : List β) (s : σ) (w : W), I bs s w → (thread body bs s).Keeps D (I []) E w := by
  intro bs
  induction bs with
  | nil =>
    intro s w h
    exact h
  | cons b bs ih =>
    intro s w h
    exact Keeps.bind ((hbody b bs s w h).mono (fun s' w' h' => ih s' w' h') fun _ _ hx => hx)

theorem Keeps.play {Q : α → W → Prop} {answers : Nat → A} (h : m.Keeps D Q (fun _ _ => False) w)
    (hallows : ∀ n l, D.allows l (answers n)) :
    ∃ a, (m.play answers w).2 = .ok a ∧ Q a (m.play answers w).1 := by
  induction m generalizing w answers with
  | ret a => exact ⟨a, rfl, h⟩
  | raise x => exact h.elim
  | step l act next ih => exact ih w (answers 0) (h.2 _ (hallows 0 l)) fun n l => hallows (n + 1) l

end Script

structure Runner (L W A X : Type) where
  world : W
  running : Option (Script L W W A X Unit)

inductive Signal (F A : Type) where
  | invoke (f : F)
  | act (a : A)
  | stop

namespace Runner

variable {L W A X F : Type} {D : Discipline L W A}

def step (program : F → Script L W W A X Unit) : Runner L W A X → Signal F A → Option (Runner L W A X)
  | ⟨w, none⟩, .invoke f => some ⟨w, some (program f)⟩
  | ⟨w, some (.step _ act next)⟩, .act a => some ⟨act w a, some (next w a)⟩
  | ⟨w, some _⟩, .stop => some ⟨w, none⟩
  | _, _ => none

def system (program : F → Script L W W A X Unit) (w : W) : System (Runner L W A X) (Signal F A) where
  start := ⟨w, none⟩
  step := step program

def Admits (allows : L → A → Prop) (stoppable : L → Prop) : Runner L W A X → Signal F A → Prop
  | ⟨_, some (.step l _ _)⟩, .act a => allows l a
  | ⟨_, some (.step l _ _)⟩, .stop => stoppable l
  | _, _ => True

instance decidableAdmits {allows : L → A → Prop} {stoppable : L → Prop}
    [∀ l a, Decidable (allows l a)] [∀ l, Decidable (stoppable l)] :
    (r : Runner L W A X) → (e : Signal F A) → Decidable (Admits allows stoppable r e)
  | ⟨_, some (.step l _ _)⟩, .act a => inferInstanceAs (Decidable (allows l a))
  | ⟨_, some (.step l _ _)⟩, .stop => inferInstanceAs (Decidable (stoppable l))
  | ⟨_, some (.step _ _ _)⟩, .invoke _ => .isTrue trivial
  | ⟨_, some (.ret _)⟩, .act _ => .isTrue trivial
  | ⟨_, some (.ret _)⟩, .stop => .isTrue trivial
  | ⟨_, some (.ret _)⟩, .invoke _ => .isTrue trivial
  | ⟨_, some (.raise _)⟩, .act _ => .isTrue trivial
  | ⟨_, some (.raise _)⟩, .stop => .isTrue trivial
  | ⟨_, some (.raise _)⟩, .invoke _ => .isTrue trivial
  | ⟨_, none⟩, .act _ => .isTrue trivial
  | ⟨_, none⟩, .stop => .isTrue trivial
  | ⟨_, none⟩, .invoke _ => .isTrue trivial

def Follows (D : Discipline L W A) (I : W → Prop) (r : Runner L W A X) : Prop :=
  match r.running with
  | none => I r.world
  | some m => m.Keeps D (fun _ => I) (fun _ => I) r.world

theorem follows_of_reachable {program : F → Script L W W A X Unit} {w : W} {I : W → Prop}
    {stoppable : L → Prop} {r : Runner L W A X}
    (h : (system program w).ReachableWhen (Admits D.allows stoppable) r) (hstart : I w)
    (hprogram : ∀ f w, I w → (program f).Keeps D (fun _ => I) (fun _ => I) w)
    (hholds : ∀ l w, D.holds l w → stoppable l → I w) : r.Follows D I := by
  refine h.invariant hstart ?_
  rintro ⟨w, running⟩ e r' hr hok he
  cases running with
  | none =>
    cases e with
    | invoke f =>
      cases he
      exact hprogram f w hr
    | act a | stop => cases he
  | some m =>
    cases m with
    | ret a | raise x =>
      cases e with
      | invoke f | act a => cases he
      | stop =>
        cases he
        exact hr
    | step l act next =>
      cases e with
      | invoke f => cases he
      | act a =>
        cases he
        exact hr.2 a hok
      | stop =>
        cases he
        exact hholds l w hr.1 hok

end Runner

end DevHermit.Lib
