import Mathlib

namespace DevHermit.Lib

structure System (S E : Type) where
  start : S
  step : S → E → Option S

namespace System

variable {S E : Type} (M : System S E)

def run (ok : S → E → Prop) [∀ s e, Decidable (ok s e)] (s : S) : List E → Option S
  | [] => some s
  | e :: events => if ok s e then (M.step s e).bind fun s' => run ok s' events else none

def rooted (s : S) : System S E := ⟨s, M.step⟩

inductive ReachableWhen (ok : S → E → Prop) : S → Prop
  | start : ReachableWhen ok M.start
  | step {s s' : S} {e : E} (hs : ReachableWhen ok s) (hok : ok s e) (he : M.step s e = some s') :
      ReachableWhen ok s'

abbrev Reachable : S → Prop := M.ReachableWhen fun _ _ => True

abbrev ReachWhen (ok : S → E → Prop) (s : S) : S → Prop := (M.rooted s).ReachableWhen ok

variable {M} {ok : S → E → Prop}

theorem ReachableWhen.mono {ok' : S → E → Prop} {s : S} (h : M.ReachableWhen ok s)
    (hok : ∀ s e, ok s e → ok' s e) : M.ReachableWhen ok' s := by
  induction h with
  | start => exact .start
  | step _ hs he ih => exact .step ih (hok _ _ hs) he

theorem ReachableWhen.invariant {I : S → Prop} {s : S} (h : M.ReachableWhen ok s)
    (hstart : I M.start) (hstep : ∀ s e s', I s → ok s e → M.step s e = some s' → I s') : I s := by
  induction h with
  | start => exact hstart
  | step _ hok he ih => exact hstep _ _ _ ih hok he

theorem ReachableWhen.reach {s s' : S} (h : M.ReachableWhen ok s) (h' : M.ReachWhen ok s s') :
    M.ReachableWhen ok s' := by
  induction h' with
  | start => exact h
  | step _ hok he ih => exact .step ih hok he

theorem ReachWhen.of_run [∀ s e, Decidable (ok s e)] {s s' : S} {events : List E}
    (hr : M.run ok s events = some s') : M.ReachWhen ok s s' := by
  induction events generalizing s with
  | nil =>
    cases hr
    exact .start
  | cons e events ih =>
    obtain ⟨hok, hbind⟩ := Option.ite_none_right_eq_some.mp hr
    obtain ⟨s₁, h₁, h₂⟩ := Option.bind_eq_some_iff.mp hbind
    exact (ReachableWhen.step .start hok h₁).reach (ih h₂)

theorem exists_reachable [∀ s e, Decidable (ok s e)] {α : Type} {view : S → α} {v : α}
    {events : List E} (h : (M.run ok M.start events).map view = some v) :
    ∃ s, M.ReachableWhen ok s ∧ view s = v := by
  obtain ⟨s, hs, hv⟩ := Option.map_eq_some_iff.mp h
  exact ⟨s, ReachWhen.of_run hs, hv⟩

end System

end DevHermit.Lib
