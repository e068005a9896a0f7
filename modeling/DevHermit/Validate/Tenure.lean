import DevHermit.Validate.Authority

namespace DevHermit.Validate.Tenure

open Lib Landing

inductive Seat where
  | supervisor (p : Nat)
  | elsewhere (p : Nat)
  deriving DecidableEq, Repr

def Seat.process : Seat → Nat
  | .supervisor p => p
  | .elsewhere p => p

structure Lease where
  process : Nat
  supervised : Bool
  agent : String
  kind : Kind
  target : String
  deriving DecidableEq, Repr

structure Lot where
  clock : Int
  disk : Disk
  anchor : Option Seat
  lessee : Option Lease
  returned : List Nat

def Lot.vacant : Lot := ⟨0, .empty, none, none, []⟩

inductive Label where
  | plain
  | owner
  | ask
  deriving DecidableEq, Repr

def label : Act → Label
  | .owner => .owner
  | .ask => .ask
  | .grant _ | .arm | .other => .plain

def anchorHeld (s : Sys Lot) : Bool :=
  match s.shared.anchor with
  | none => false
  | some seat => s.alive seat.process

def writtenHolder : FsOp → Option ValidateLockState
  | .writeHolder holder => some holder
  | _ => none

def lesseeAfter (p : Nat) (act : Act) (ops : List FsOp) (lessee : Option Lease) : Option Lease :=
  match act with
  | .grant supervised =>
    match ops.findSome? writtenHolder with
    | some holder => some ⟨p, supervised, holder.agent, holder.kind, holder.target⟩
    | none => lessee
  | _ => lessee

section

variable (site : Site)

def view (p : Nat) (s : Sys Lot) (a : Answer) : View where
  env := site.env a s.shared.clock (site.living s) (site.born s) p
  anchorBefore := anchorHeld s || a.busyBefore
  anchorAfter := anchorHeld s || a.busyAfter
  domain := a.domain
  honest := true

def settle {α : Type} (act : Act) (p : Nat) (s : Sys Lot) (later : Int)
    (result : Except ValidateLockError (Plan α)) : Lot :=
  match result with
  | .error _ => { s.shared with clock := later }
  | .ok plan =>
    { s.shared with
      clock := later
      disk := s.shared.disk.perform plan.1
      lessee := lesseeAfter p act plan.1 s.shared.lessee }

def answerOf {α L : Type} (result : Except ValidateLockError (Plan α)) : Task L Lot α :=
  match result with
  | .error e => .raise e
  | .ok plan => .ret plan.2

def Lot.take (w : Lot) (seat : Seat) (granted : Bool) : Lot :=
  if granted then { w with anchor := some seat } else w

def Lot.drop (w : Lot) (seat : Seat) : Lot :=
  { w with
    anchor := if w.anchor = some seat then none else w.anchor
    returned := seat.process :: w.returned }

def kit : Kit Label Lot where
  guarded act plan := .act (label act)
    (fun p s a => settle act p s (view site p s a).env.later
      (plan (view site p s a) s.shared.disk))
    fun p s a => answerOf (plan (view site p s a) s.shared.disk)
  outcome f := .act .plain (fun _ s _ => s.shared) fun _ _ a => .ret (f a)
  takeAnchor := .act .plain
    (fun p s a => s.shared.take (.supervisor p) (!a.refuse && !anchorHeld s))
    fun _ s a => .ret (!a.refuse && !anchorHeld s)
  dropAnchor := .act .plain (fun p s _ => s.shared.drop (.supervisor p)) fun _ _ _ => .ret ()
  heldByAnother := .act .plain (fun _ s _ => s.shared) fun _ s a =>
    .ret ((anchorHeld s || a.busyBefore) && !a.refuse)
  foreignBoxClaim := .act .plain (fun _ s _ => s.shared) fun _ _ a => .ret a.refuse
  releaseGate _ := .act .plain (fun _ s _ => s.shared) fun _ _ a => .ret (!a.refuse)
  capture leader := .act .plain (fun _ s _ => s.shared) fun p s a =>
    .ret ⟨a.complete, a.residuals, processGroupExists (view site p s a).env leader.pid⟩

def occupy : Task Label Lot Unit := do
  let taken ← Script.act .plain
    (fun p s a => s.shared.take (.elsewhere p) (!a.refuse && !anchorHeld s))
    fun _ s a => .ret (!a.refuse && !anchorHeld s)
  if taken then .act .plain (fun p s _ => s.shared.drop (.elsewhere p)) fun _ _ _ => .ret ()
  else pure ()

inductive Caller where
  | here (command : Command)
  | elsewhere
  deriving DecidableEq, Repr

def program : Caller → Task Label Lot Unit
  | .here command => execute (kit site) command
  | .elsewhere => occupy

def Signs (p : Nat) (w : Lot) : Prop :=
  contentOf w.disk.holder = none ∨ w.lessee.map Lease.process = some p

instance (p : Nat) (w : Lot) : Decidable (Signs p w) := inferInstanceAs (Decidable (_ ∨ _))

def Gone (s : Sys Lot) : Prop :=
  ∀ q ∈ s.shared.returned, s.alive q = true →
    (contentOf s.shared.disk.owner).map ProcessOwner.identity ≠ some (site.identity q)

instance (s : Sys Lot) : Decidable (Gone site s) :=
  inferInstanceAs (Decidable (∀ q ∈ s.shared.returned, s.alive q = true →
    (contentOf s.shared.disk.owner).map ProcessOwner.identity ≠ some (site.identity q)))

end

inductive Effect (act : Act) (d : Disk) (ops : List FsOp) : Prop
  | keeps (hact : ∀ p l, lesseeAfter p act ops l = l) (hholder : (d.perform ops).holder = d.holder)
      (howner : (d.perform ops).owner = d.owner ∨ (d.perform ops).owner = .absent)
  | vacates (hact : ∀ p l, lesseeAfter p act ops l = l) (hholder : (d.perform ops).holder = .absent)
      (howner : (d.perform ops).owner = .absent)
  | renews {h h' : ValidateLockState} (hact : ∀ p l, lesseeAfter p act ops l = l)
      (hold : d.holder = .full h) (hholder : (d.perform ops).holder = .full h')
      (hsame : h'.agent = h.agent ∧ h'.kind = h.kind ∧ h'.target = h.target)
      (howner : (d.perform ops).owner = d.owner)
  | grants {supervised : Bool} {h : ValidateLockState}
      (hact : ∀ p l, lesseeAfter p act ops l = some ⟨p, supervised, h.agent, h.kind, h.target⟩)
      (hmode : act = .grant supervised) (hholder : (d.perform ops).holder = .full h)
      (howner : (d.perform ops).owner = .absent)

variable {v : View} {d : Disk} {args : AcquireArgs}

theorem tryAcquire_effect {supervised : Bool} {pl : Plan AcquireToken}
    (h : tryAcquire v.env args d = .ok pl) : Effect (.grant supervised) d pl.1 := by
  obtain ⟨queue, hops⟩ | ⟨reclaimed, queue, hops⟩ := tryAcquire_ok h
  · rw [hops]
    exact .keeps (fun _ _ => rfl) rfl (.inl rfl)
  · rw [hops]
    exact .grants (fun _ _ => rfl) rfl rfl rfl

variable {agent : String} {pl : Plan Unit}

theorem removeFromQueue_effect (h : removeFromQueue agent d = .ok pl) : Effect .other d pl.1 := by
  cases h
  exact .keeps (fun _ _ => rfl) rfl (.inl rfl)

theorem renew_effect {hold : UInt64} (h : renew v.env agent hold d = .ok pl) : Effect .other d pl.1 := by
  obtain ⟨holder, hholder, hagent, hops⟩ := renew_ok h
  rw [hops]
  exact .renews (fun _ _ => rfl) hholder rfl ⟨hagent.symm, rfl, rfl⟩ rfl

theorem release_effect {pl : Plan (Bool × Option String)} (h : release v.env agent d = .ok pl) :
    Effect .other d pl.1 := by
  obtain hops | ⟨queue, hops⟩ := release_ok h
  · rw [hops]
    exact .keeps (fun _ _ => rfl) rfl (.inr rfl)
  · rw [hops]
    exact .vacates (fun _ _ => rfl) rfl rfl

theorem reclaimDead_effect {pl : Plan (Option (String × Kind × String × DeathReason))}
    (h : reclaimDead v.env d = .ok pl) : Effect .other d pl.1 := by
  obtain hops | hops := reclaimDead_ok h
  · rw [hops]
    exact .keeps (fun _ _ => rfl) rfl (.inr rfl)
  · rw [hops]
    exact .vacates (fun _ _ => rfl) rfl rfl

theorem armRun_effect (h : armRun v.env args d = .ok pl) : Effect .arm d pl.1 := by
  obtain ⟨record, hops⟩ := armRun_ok h
  rw [hops]
  exact .keeps (fun _ _ => rfl) rfl (.inl rfl)

theorem transitionRunCleanup_effect {expected : CleanupPhase → Bool} {next : CleanupPhase}
    {cgroup : Option String} (h : transitionRunCleanup v.env args expected next cgroup d = .ok pl) :
    Effect .other d pl.1 := by
  obtain ⟨record, hops⟩ := transitionRunCleanup_ok h
  rw [hops]
  exact .keeps (fun _ _ => rfl) rfl (.inl rfl)

theorem clearUnstartedRun_effect (h : clearUnstartedRun v.env args d = .ok pl) :
    Effect .other d pl.1 := by
  rw [clearUnstartedRun_ok h]
  exact .keeps (fun _ _ => rfl) rfl (.inl rfl)

theorem clearProvenRun_effect (h : clearProvenRun v.env d = .ok pl) : Effect .other d pl.1 := by
  rw [clearProvenRun_ok h]
  exact .keeps (fun _ _ => rfl) rfl (.inl rfl)

theorem renewRunLease_effect (h : renewRunLease v.env args d = .ok pl) : Effect .other d pl.1 := by
  obtain ⟨holder, hholder, hagent, hkind, htarget, hops⟩ := renewRunLease_ok h
  rw [hops]
  exact .renews (fun _ _ => rfl) hholder rfl ⟨hagent.symm, hkind.symm, htarget.symm⟩ rfl

theorem censusOrphanedDomain_effect {args : CensusArgs} {domain : DomainEvidence}
    (h : censusOrphanedDomain v.env args domain d = .ok pl) : Effect .other d pl.1 := by
  obtain ⟨record, hops⟩ := censusOrphanedDomain_ok h
  rw [hops]
  exact .keeps (fun _ _ => rfl) rfl (.inl rfl)

theorem authorityStatus_effect {pl : Plan AuthorityStatus}
    (h : (authorityStatusGuarded v.env v.anchorBefore v.anchorAfter d).map
      (fun status => (([] : List FsOp), status)) = .ok pl) : Effect .ask d pl.1 := by
  cases hs : authorityStatusGuarded v.env v.anchorBefore v.anchorAfter d with
  | error e =>
    rw [hs] at h
    cases h
  | ok status =>
    rw [hs] at h
    cases h
    exact .keeps (fun _ _ => rfl) rfl (.inl rfl)

end DevHermit.Validate.Tenure
