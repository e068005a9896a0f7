import DevHermit.Validate.Tenure

namespace DevHermit.Validate.Tenure

open Lib Landing List

structure Bound (site : Site) (s : Sys Lot) : Prop where
  owner : ∀ o, s.shared.disk.owner = .full o → ∃ q, q < s.live.length ∧
    o.identity = site.identity q ∧
    (s.alive q = true → s.shared.anchor = some (.supervisor q) ∨ q ∈ s.shared.returned)
  leased : ∀ h, s.shared.disk.holder = .full h → ∃ l, s.shared.lessee = some l ∧
    l.agent = h.agent ∧ l.kind = h.kind ∧ l.target = h.target
  matched : ∀ o h, s.shared.disk.owner = .full o → s.shared.disk.holder = .full h →
    ∃ l, s.shared.lessee = some l ∧ o.identity = site.identity l.process ∧ l.supervised = true
  fresh : ∀ l, s.shared.lessee = some l → l.process < s.live.length

structure Spares (q : Nat) (s s' : Sys Lot) : Prop where
  born : s.live.length ≤ s'.live.length
  alive : q < s.live.length → s'.alive q = true → s.alive q = true
  anchor : q < s.live.length → s'.alive q = true → s.shared.anchor = some (.supervisor q) →
    s'.shared.anchor = some (.supervisor q)
  lessee : ∀ l, s'.shared.lessee = some l → l.process = q → s.shared.lessee = some l

def contract (site : Site) : Contract Label Lot where
  inv := Bound site
  frame := Spares
  cond _ _ _ := True
  own p l s :=
    match l with
    | .plain => True
    | .owner => Signs p s.shared
    | .ask => Gone site s

instance (site : Site) (p : Nat) (l : Label) (s : Sys Lot) :
    Decidable ((contract site).own p l s) :=
  match l with
  | .plain => inferInstanceAs (Decidable True)
  | .owner => inferInstanceAs (Decidable (Signs p s.shared))
  | .ask => inferInstanceAs (Decidable (Gone site s))

instance (site : Site) (l : Label) (s s' : Sys Lot) : Decidable ((contract site).cond l s s') :=
  inferInstanceAs (Decidable True)

section

variable {site : Site} {s s' : Sys Lot} {p q : Nat}

theorem Spares.trans {s'' : Sys Lot} (h : Spares q s s') (h' : Spares q s' s'') :
    Spares q s s'' where
  born := h.born.trans h'.born
  alive hq ha := h.alive hq (h'.alive (hq.trans_le h.born) ha)
  anchor hq ha hs := by
    have hq' := hq.trans_le h.born
    exact h'.anchor hq' ha (h.anchor hq (h'.alive hq' ha) hs)
  lessee l hl hp := h.lessee l (h'.lessee l hl hp) hp

theorem contract_stable (site : Site) : (contract site).Stable where
  frame_refl := ⟨le_rfl, fun _ h => h, fun _ _ h => h, fun _ h _ => h⟩
  frame_trans := Spares.trans
  cond_trans _ _ := trivial
  cond_shared _ := trivial
  inv_start {s} h := by
    have hlt : ∀ {q}, q < s.live.length → q < (s.live ++ [true]).length := by
      intro q hq
      rw [length_append]
      exact Nat.lt_add_right 1 hq
    refine ⟨fun o ho => ?_, h.leased, h.matched, fun l hl => hlt (h.fresh l hl)⟩
    obtain ⟨q, hq, hid, hanchor⟩ := h.owner o ho
    exact ⟨q, hlt hq, hid, fun ha => hanchor (Sys.alive_append s.shared hq ▸ ha)⟩
  inv_exit {s p} h := by
    refine ⟨fun o ho => ?_, h.leased, h.matched, fun l hl => ?_⟩
    · obtain ⟨q, hq, hid, hanchor⟩ := h.owner o ho
      exact ⟨q, by rwa [length_set], hid, fun ha => hanchor (Sys.alive_of_set ha)⟩
    · rw [length_set]
      exact h.fresh l hl
  frame_start {s q} := by
    refine ⟨?_, fun hq ha => Sys.alive_append s.shared hq ▸ ha, fun _ _ h => h, fun _ h _ => h⟩
    rw [length_append]
    exact Nat.le_add_right _ _
  frame_exit {s p q} :=
    ⟨by rw [length_set], fun _ ha => Sys.alive_of_set ha, fun _ _ h => h, fun _ h _ => h⟩

theorem Spares.after {w : Lot}
    (hanchor : s.alive q = true → s.shared.anchor = some (.supervisor q) →
      w.anchor = some (.supervisor q))
    (hlessee : ∀ l, w.lessee = some l → l.process = q → s.shared.lessee = some l) :
    Spares q s (s.after w) :=
  ⟨le_rfl, fun _ h => h, fun _ => hanchor, hlessee⟩

end

section

variable {site : Site} {s s' : Sys Lot} {p : Nat} {act : Act} {ops : List FsOp}

def Lot.settled (w : Lot) (act : Act) (p : Nat) (later : Int) (ops : List FsOp) : Lot :=
  { w with
    clock := later
    disk := w.disk.perform ops
    lessee := lesseeAfter p act ops w.lessee }

theorem Bound.settled (h : Bound site s) (hp : s.alive p = true)
    (he : Effect act s.shared.disk ops) (later : Int) :
    Bound site (s.after (s.shared.settled act p later ops)) := by
  have hlt := Sys.lt_of_alive hp
  cases he with
  | keeps hact hholder howner =>
    have hl : (s.shared.settled act p later ops).lessee = s.shared.lessee := hact p _
    have ho : ∀ o, (s.shared.settled act p later ops).disk.owner = .full o →
        s.shared.disk.owner = .full o := by
      intro o hfull
      rcases howner with hkeep | hnone
      · exact hkeep.symm.trans hfull
      · cases hnone.symm.trans hfull
    have hh : (s.shared.settled act p later ops).disk.holder = s.shared.disk.holder := hholder
    refine ⟨fun o hfull => h.owner o (ho o hfull), fun l hfull => ?_, fun o l hfull hl' => ?_,
      fun l hl' => h.fresh l (hl ▸ hl')⟩
    · rw [Sys.after, hl]
      exact h.leased l (hh ▸ hfull)
    · rw [Sys.after, hl]
      exact h.matched o l (ho o hfull) (hh ▸ hl')
  | vacates hact hholder howner =>
    have hl : (s.shared.settled act p later ops).lessee = s.shared.lessee := hact p _
    refine ⟨fun o hfull => ?_, fun l hfull => ?_, fun o l hfull => ?_,
      fun l hl' => h.fresh l (hl ▸ hl')⟩
    · cases howner.symm.trans hfull
    · cases hholder.symm.trans hfull
    · cases howner.symm.trans hfull
  | @renews old new hact hold hholder hsame howner =>
    have hl : (s.shared.settled act p later ops).lessee = s.shared.lessee := hact p _
    refine ⟨fun o hfull => h.owner o (howner ▸ hfull), fun l hfull => ?_, fun o l hfull _ => ?_,
      fun l hl' => h.fresh l (hl ▸ hl')⟩
    · obtain ⟨lease, hlease, ha, hk, ht⟩ := h.leased old hold
      cases hholder.symm.trans hfull
      exact ⟨lease, hl.trans hlease, ha.trans hsame.1.symm, hk.trans hsame.2.1.symm,
        ht.trans hsame.2.2.symm⟩
    · rw [Sys.after, hl]
      exact h.matched o old (howner ▸ hfull) hold
  | @grants supervised holder hact hmode hholder howner =>
    have hl : (s.shared.settled act p later ops).lessee =
        some ⟨p, supervised, holder.agent, holder.kind, holder.target⟩ := hact p _
    refine ⟨fun o hfull => ?_, fun l hfull => ?_, fun o l hfull => ?_, fun l hl' => ?_⟩
    · cases howner.symm.trans hfull
    · cases hholder.symm.trans hfull
      exact ⟨_, hl, rfl, rfl, rfl⟩
    · cases howner.symm.trans hfull
    · cases hl.symm.trans hl'
      exact hlt

theorem settled_lessee (he : Effect act s.shared.disk ops) {later : Int} {l : Lease}
    (h : (s.shared.settled act p later ops).lessee = some l) :
    s.shared.lessee = some l ∨ l.process = p ∧ act = .grant l.supervised := by
  cases he with
  | keeps hact | vacates hact | renews hact => exact .inl ((hact p _).symm.trans h)
  | grants hact hmode =>
    cases (hact p _).symm.trans h
    exact .inr ⟨rfl, hmode⟩

structure Local (p : Nat) (supervised : Bool) (K : Sys Lot → Prop) : Prop where
  stable : ∀ {s s'}, K s → Spares p s s' → s'.alive p = true → K s'
  kept : ∀ {s} {w : Lot}, K s → w.anchor = s.shared.anchor →
    (∀ l, w.lessee = some l → l.process = p →
      s.shared.lessee = some l ∨ l.supervised = supervised) → K (s.after w)

def Placed (p : Nat) (s : Sys Lot) : Prop :=
  p < s.live.length ∧ ∀ l, s.shared.lessee = some l → l.process = p → l.supervised = true

def Anchored (p : Nat) (s : Sys Lot) : Prop :=
  Placed p s ∧ s.shared.anchor = some (.supervisor p)

theorem Local.any (p : Nat) : Local p false fun _ => True :=
  ⟨fun _ _ _ => trivial, fun _ _ _ => trivial⟩

theorem Local.placed (p : Nat) : Local p true (Placed p) where
  stable h hs _ := ⟨h.1.trans_le hs.born, fun l hl hp => h.2 l (hs.lessee l hl hp) hp⟩
  kept h _ hl := ⟨h.1, fun l hl' hp => (hl l hl' hp).elim (fun ho => h.2 l ho hp) id⟩

theorem Local.anchored (p : Nat) : Local p true (Anchored p) where
  stable h hs ha := ⟨(Local.placed p).stable h.1 hs ha, hs.anchor h.1.1 ha h.2⟩
  kept h ha hl := ⟨(Local.placed p).kept h.1 ha hl, ha.trans h.2⟩

abbrev Keeping (site : Site) (p : Nat) (K : Sys Lot → Prop) {α : Type} (m : Task Label Lot α)
    (s : Sys Lot) : Prop :=
  m.Safe (contract site) p (fun s _ => K s) (fun s _ => K s) s

variable {K : Sys Lot → Prop} {supervised : Bool}

theorem Local.idle (hK : Local p supervised K) {α : Type} {f : Nat × Sys Lot → Answer → α}
    {s : Sys Lot} (h : K s) :
    Keeping site p K (.step .plain (fun v _ => v.2.shared) fun v a => .ret (f v a)) s := by
  intro s' hinv hframe _ _ halive a
  refine ⟨hinv, fun q _ => .after (fun _ h => h) fun _ h _ => h, hK.stable h hframe halive⟩

theorem Local.guarded (hK : Local p supervised K) {α : Type}
    {plan : View → Disk → Except ValidateLockError (Plan α)}
    (hmode : ∀ b, act = .grant b → b = supervised)
    (hplan : ∀ v d pl, plan v d = .ok pl → Effect act d pl.1) {s : Sys Lot} (h : K s) :
    Keeping site p K ((kit site).guarded act plan) s := by
  intro s' hinv hframe _ _ halive a
  have h' := hK.stable h hframe halive
  dsimp only
  cases hr : plan (view site p s' a) s'.shared.disk with
  | error e =>
    refine ⟨⟨hinv.owner, hinv.leased, hinv.matched, hinv.fresh⟩,
      fun q _ => .after (fun _ h => h) fun _ h _ => h, ?_⟩
    exact hK.kept h' rfl fun l hl _ => .inl hl
  | ok pl =>
    have he := hplan _ _ _ hr
    refine ⟨hinv.settled halive he _, fun q hq => .after (fun _ h => h) fun l hl hlq => ?_, ?_⟩
    · exact (settled_lessee he hl).resolve_right fun hp => hq (hlq.symm.trans hp.1)
    · refine hK.kept h' rfl fun l hl _ => ?_
      exact (settled_lessee he hl).imp_right fun hp => hmode _ hp.2

end

section

variable {site : Site} {s : Sys Lot} {p : Nat} {K : Sys Lot → Prop} {supervised : Bool}

theorem Keeping.next {α β : Type} {m : Task Label Lot α} {f : α → Task Label Lot β}
    (h : Keeping site p K m s) (hf : ∀ a s, K s → Keeping site p K (f a) s) :
    Keeping site p K (m >>= f) s :=
  h.seq fun s a hk => hf a s hk

theorem Local.lift (r : Except ValidateLockError Unit) (h : K s) : Keeping site p K (lift r) s := by
  cases r with
  | error e => exact h
  | ok => exact h

section

variable (hK : Local p supervised K)
include hK

theorem Local.demand (h : K s) : Keeping site p K (demand (kit site)) s :=
  (hK.idle h).next fun _ _ h => Local.lift _ h

theorem Local.releaseLease (agent : String) (h : K s) :
    Keeping site p K (releaseLease (kit site) agent) s := by
  refine (hK.guarded (fun b hb => by cases hb) (fun v d pl hpl => ?_) h).next fun _ _ h => h
  exact release_effect hpl

variable (args : AcquireArgs)

theorem Local.poll (h : K s) : Keeping site p K (poll (kit site) supervised args) s := by
  refine (hK.guarded (fun b hb => ?_) (fun v d pl hpl => ?_) h).next fun _ _ h => h
  · cases hb
    rfl
  · exact tryAcquire_effect hpl

theorem Local.waiting (n : Nat) {s : Sys Lot}
    (h : K s) : Keeping site p K (waiting (kit site) supervised args n) s := by
  induction n generalizing s with
  | zero =>
    refine (hK.poll args h).next fun granted s h => ?_
    cases granted with
    | true => exact h
    | false =>
      refine (hK.guarded (fun b hb => by cases hb) (fun v d pl hpl => ?_) h).next fun _ _ h => h
      exact removeFromQueue_effect hpl
  | succ n ih =>
    refine (hK.poll args h).next fun granted s h => ?_
    cases granted with
    | true => exact h
    | false => exact ih h

theorem Local.acquire (h : K s) : Keeping site p K (acquire (kit site) supervised args) s :=
  (hK.idle h).next fun n _ h => hK.waiting args n h

end

theorem acquireCommand_keeps (args : AcquireArgs) (max : Nat) (skip : Bool) :
    Keeping site p (fun _ => True) (acquireCommand (kit site) args max skip) s := by
  have hK := Local.any p
  refine Keeping.next (Local.lift _ trivial) fun _ s _ => ?_
  refine (hK.idle trivial).next fun preflight s _ => ?_
  refine Keeping.next (Local.lift _ trivial) fun _ s _ => ?_
  refine (hK.idle trivial).next fun busy s _ => ?_
  cases busy with
  | true => trivial
  | false =>
    refine (hK.idle trivial).next fun foreign s _ => ?_
    cases foreign with
    | true => trivial
    | false => exact hK.acquire args trivial

section

variable (hK : Local p supervised K) (args : AcquireArgs)
include hK args

theorem Local.beats (n : Nat) {s : Sys Lot}
    (h : K s) : Keeping site p K (beats (kit site) args n) s := by
  induction n generalizing s with
  | zero => exact h
  | succ n ih =>
    have hbeat : Keeping site p K (((kit site).guarded .other fun v d =>
        renewRunLease v.env args d).bind fun _ => .ret true) s :=
      (hK.guarded (fun b hb => by cases hb)
        (fun v d pl hpl => renewRunLease_effect hpl) h).next fun _ _ h => h
    refine Keeping.next (Script.Safe.handle (hbeat.imp (fun _ _ h => h) fun _ _ h => h))
      fun alive s h => ?_
    cases alive with
    | true => exact ih h
    | false => exact h

theorem Local.heartbeat (h : K s) : Keeping site p K (heartbeat (kit site) args) s :=
  (hK.idle h).next fun n _ h => hK.beats args n h

theorem Local.finish (h : K s) : Keeping site p K (finish (kit site) args) s := by
  refine (hK.releaseLease args.agent h).next fun _ s h => ?_
  exact (hK.demand h).next fun _ s h => hK.idle h

theorem Local.recordResiduals (pgid : Nat)
    (complete : Bool) (residuals : List ProcessIdentity) (h : K s) :
    Keeping site p K ((kit site).guarded .other fun v d =>
      recordResiduals v.env args pgid complete residuals d) s :=
  hK.guarded (fun b hb => by cases hb) (fun _ _ _ hpl => transitionRunCleanup_effect hpl) h

theorem Local.census (leader : ProcessIdentity)
    (h : K s) : Keeping site p K (census (kit site) args leader) s := by
  refine (hK.idle h).next fun captured s h => ?_
  cases hempty : captured.domainEmpty with
  | true =>
    rw [if_pos rfl]
    refine (hK.recordResiduals args leader.pid true [] h).next fun _ s h => ?_
    refine (hK.guarded (fun b hb => by cases hb) (fun v d pl hpl => ?_) h).next fun _ s h => ?_
    · exact clearProvenRun_effect hpl
    · exact hK.finish args h
  | false =>
    rw [if_neg Bool.false_ne_true]
    exact (hK.recordResiduals args leader.pid _ _ h).next fun _ s h => h

end

theorem dropAnchor_keeps (h : Placed p s) :
    (kit site).dropAnchor.Safe (contract site) p (fun s _ => Placed p s) (fun _ _ => False) s := by
  intro s' hinv hframe _ _ halive a
  have h' := (Local.placed p).stable h hframe halive
  refine ⟨⟨fun o ho => ?_, hinv.leased, hinv.matched, hinv.fresh⟩, fun q hq => .after ?_ ?_, h'⟩
  · obtain ⟨q, hlt, hid, hanchor⟩ := hinv.owner o ho
    refine ⟨q, hlt, hid, fun ha => ?_⟩
    by_cases hqp : q = p
    · exact .inr (hqp ▸ mem_cons_self)
    · refine (hanchor ha).imp (fun hseat => ?_) fun hmem => mem_cons_of_mem _ hmem
      have hne : s'.shared.anchor ≠ some (.supervisor p) := by
        rw [hseat]
        rintro ⟨⟩
        exact hqp rfl
      exact (if_neg hne).trans hseat
  · intro _ hseat
    have hne : s'.shared.anchor ≠ some (.supervisor p) := by
      rw [hseat]
      rintro ⟨⟩
      exact hq rfl
    exact (if_neg hne).trans hseat
  · exact fun l hl _ => hl

theorem supervise_keeps (args : AcquireArgs) (leader : ProcessIdentity) (h : Placed p s) :
    Keeping site p (Placed p) (supervise (kit site) args leader) s := by
  have hK := Local.placed p
  refine (hK.heartbeat args h).next fun _ s h => ?_
  refine Keeping.next ?_ fun _ s h => hK.census args leader h
  have hbegin : Keeping site p (Placed p) ((kit site).guarded .other fun v d =>
      beginRunCensus v.env args leader d) s :=
    hK.guarded (fun b hb => by cases hb) (fun _ _ _ hpl => transitionRunCleanup_effect hpl) h
  refine Script.Safe.handle (hbegin.imp (fun _ _ h => h) fun s e h => ?_)
  refine ((dropAnchor_keeps h).imp (fun _ _ h => h) fun _ _ hf => hf.elim).seq fun s _ h => ?_
  exact (hK.heartbeat args h).next fun _ s h => h

theorem spawnChild_keeps (args : AcquireArgs) (h : Placed p s) :
    Keeping site p (Placed p) (spawnChild (kit site) args) s := by
  have hK := Local.placed p
  refine (hK.idle h).next fun child s h => ?_
  cases child with
  | none =>
    refine (hK.guarded (fun b hb => by cases hb) (fun v d pl hpl => ?_) h).next fun _ s h => ?_
    · exact clearUnstartedRun_effect hpl
    · exact (hK.releaseLease args.agent h).next fun _ s h => h
  | some leader =>
    refine (hK.idle h).next fun cgroup s h => ?_
    refine (hK.guarded (fun b hb => by cases hb) (fun v d pl hpl => ?_) h).next fun _ s h => ?_
    · exact transitionRunCleanup_effect hpl
    · refine (hK.idle h).next fun started s h => ?_
      cases started with
      | true => exact supervise_keeps args leader h
      | false => exact h

theorem Bound.signed (hinv : Bound site s) (halive : s.alive p = true) (h : Anchored p s)
    (hown : Signs p s.shared) {later : Int} {host : String} {bootId : BootId} :
    Bound site (s.after (s.shared.settled .owner p later
      [.truncateOwner, .writeOwner ⟨host, bootId, site.identity p⟩])) := by
  refine ⟨fun o ho => ?_, hinv.leased, fun o holder ho hholder => ?_, hinv.fresh⟩
  · cases ho
    exact ⟨p, Sys.lt_of_alive halive, rfl, fun _ => .inl h.2⟩
  · cases ho
    have hholder' : s.shared.disk.holder = .full holder := hholder
    rcases hown with hnone | hlessee
    · rw [hholder'] at hnone
      cases hnone
    · obtain ⟨l, hl, hp⟩ := Option.map_eq_some_iff.mp hlessee
      exact ⟨l, hl, by rw [hp], h.1.2 l hl hp⟩

theorem writeOwner_keeps (h : Anchored p s) :
    Keeping site p (Placed p) ((kit site).guarded .owner fun v _ =>
      writeCurrentProcessOwner v.env) s := by
  intro s' hinv hframe _ hown halive a
  have h' := (Local.anchored p).stable h hframe halive
  dsimp only
  cases hr : writeCurrentProcessOwner (view site p s' a).env with
  | error e =>
    exact ⟨⟨hinv.owner, hinv.leased, hinv.matched, hinv.fresh⟩,
      fun q _ => .after (fun _ h => h) fun _ h _ => h, h'.1⟩
  | ok pl =>
    obtain ⟨bootId, hops⟩ := writeCurrentProcessOwner_ok hr
    obtain ⟨ops, u⟩ := pl
    cases hops
    exact ⟨hinv.signed halive h' hown, fun q _ => .after (fun _ h => h) fun _ h _ => h, h'.1⟩

theorem owned_keeps (args : AcquireArgs) (h : Anchored p s) :
    Keeping site p (Placed p) (owned (kit site) args) s := by
  have hK := Local.placed p
  refine Keeping.next ?_ fun _ s h => ?_
  · refine Script.Safe.handle ((writeOwner_keeps h).imp (fun _ _ h => h) fun s e h => ?_)
    refine Keeping.next ?_ fun _ s h => h
    exact Script.Safe.handle ((hK.releaseLease args.agent h).imp (fun _ _ h => h) fun _ _ h => h)
  · refine (hK.demand h).next fun _ s h => ?_
    refine (hK.guarded (fun b hb => by cases hb) (fun v d pl hpl => ?_) h).next fun _ s h => ?_
    · exact armRun_effect hpl
    · exact spawnChild_keeps args h

variable (args : RunArgs)

theorem admission_keeps (h : Anchored p s) :
    Keeping site p (Anchored p) (admission (kit site) args) s := by
  have hK := Local.anchored p
  rw [admission]
  split_ifs
  · refine (hK.poll args.lease h).next fun granted s h => ?_
    cases granted with
    | true => exact h
    | false => exact h
  · exact hK.acquire args.lease h

theorem anchored_keeps (h : Anchored p s) :
    Keeping site p (Placed p) (anchored (kit site) args) s := by
  refine Script.Safe.seq (((Local.anchored p).idle h).imp (fun _ _ h => h) fun _ _ h => h.1)
    fun s foreign h => ?_
  cases foreign with
  | true => exact h.1
  | false =>
    refine Script.Safe.seq ((admission_keeps args h).imp (fun _ _ h => h) fun _ _ h => h.1)
      fun s status h => ?_
    split_ifs
    · exact h.1
    · exact owned_keeps args.lease h

theorem not_held (h : anchorHeld s = false) {q : Nat} (ha : s.alive q = true) :
    s.shared.anchor ≠ some (.supervisor q) := by
  intro hseat
  rw [anchorHeld, hseat] at h
  exact Bool.false_ne_true (h.symm.trans ha)

theorem Bound.taken (hinv : Bound site s) (h : anchorHeld s = false) (seat : Seat) :
    Bound site (s.after { s.shared with anchor := some seat }) := by
  refine ⟨fun o ho => ?_, hinv.leased, hinv.matched, hinv.fresh⟩
  obtain ⟨q, hlt, hid, hanchor⟩ := hinv.owner o ho
  exact ⟨q, hlt, hid, fun ha => .inr ((hanchor ha).resolve_left (not_held h ha))⟩

theorem take_keeps (seat : Nat → Seat) {Q : Sys Lot → Bool → Prop}
    {E : Sys Lot → ValidateLockError → Prop} (hQ : ∀ s', s'.alive p = true → Spares p s s' →
      Q (s'.after { s'.shared with anchor := some (seat p) }) true ∧ Q s' false) :
    (Script.act Label.plain
      (fun p s (a : Answer) => s.shared.take (seat p) (!a.refuse && !anchorHeld s))
      fun _ s a => .ret (!a.refuse && !anchorHeld s)).Safe (contract site) p Q E s := by
  intro s' hinv hframe _ _ halive a
  obtain ⟨htrue, hfalse⟩ := hQ s' halive hframe
  dsimp only
  cases hc : (!a.refuse && !anchorHeld s') with
  | false => exact ⟨hinv, fun q _ => .after (fun _ h => h) fun _ h _ => h, hfalse⟩
  | true =>
    rw [Bool.and_eq_true, Bool.not_eq_true', Bool.not_eq_true'] at hc
    exact ⟨hinv.taken hc.2 (seat p),
      fun q _ => .after (fun ha hs => absurd hs (not_held hc.2 ha)) fun _ h _ => h, htrue⟩

theorem runAnchored_keeps (h : Placed p s) :
    Keeping site p (Placed p) (runAnchored (kit site) args) s := by
  have hK := Local.placed p
  refine Script.Safe.seq (P := fun s taken => if taken then Anchored p s else Placed p s)
    (take_keeps _ fun s' ha hs => ?_) fun s taken h => ?_
  · have h' := hK.stable h hs ha
    exact ⟨⟨h', rfl⟩, h'⟩
  · cases taken with
    | false => exact h
    | true =>
      refine Script.Safe.ensuring (anchored_keeps args h) fun s h => ?_
      exact (dropAnchor_keeps h).imp (fun _ _ h => ⟨fun _ => h, fun _ => h⟩) fun _ _ hf => hf

theorem run_keeps (h : Placed p s) : Keeping site p (Placed p) (run (kit site) args) s := by
  have hK := Local.placed p
  refine Keeping.next (Local.lift _ h) fun _ s h => ?_
  refine (hK.demand h).next fun _ s h => ?_
  refine (hK.idle h).next fun preflight s h => ?_
  split
  case h_1 e =>
    rw [staleOr]
    split_ifs
    · exact h
    · exact h
  case h_2 => exact runAnchored_keeps args h

theorem occupy_safe : Keeping site p (fun _ => True) occupy s := by
  refine Script.Safe.seq (take_keeps (Q := fun _ _ => True) Seat.elsewhere
    fun _ _ _ => ⟨trivial, trivial⟩) fun s taken _ => ?_
  cases taken with
  | false => trivial
  | true =>
    intro s' hinv hframe _ _ halive a
    have hkeep : ∀ q, s'.shared.anchor = some (.supervisor q) →
        (s'.shared.drop (.elsewhere p)).anchor = some (.supervisor q) := by
      intro q hseat
      have hne : s'.shared.anchor ≠ some (.elsewhere p) := by
        rw [hseat]
        rintro ⟨⟩
      exact (if_neg hne).trans hseat
    refine ⟨⟨fun o ho => ?_, hinv.leased, hinv.matched, hinv.fresh⟩,
      fun q _ => .after (fun _ => hkeep q) fun _ h _ => h, trivial⟩
    obtain ⟨q, hlt, hid, hanchor⟩ := hinv.owner o ho
    exact ⟨q, hlt, hid, fun ha => (hanchor ha).imp (hkeep q) (mem_cons_of_mem _)⟩

theorem program_safe (caller : Caller) (h : Placed p s) :
    (program site caller).Safe (contract site) p (fun _ _ => True) (fun _ _ => True) s := by
  have hany := Local.any p
  cases caller with
  | elsewhere => exact occupy_safe
  | here command =>
    cases command with
    | acquire args max skip => exact (acquireCommand_keeps args max skip).next fun _ _ _ => trivial
    | renew agent hold =>
      exact hany.guarded (fun b hb => by cases hb) (fun _ _ _ hpl => renew_effect hpl) trivial
    | release agent => exact hany.releaseLease agent trivial
    | authorityStatus =>
      exact (hany.guarded (fun b hb => by cases hb)
        (fun _ _ _ hpl => authorityStatus_effect hpl) trivial).next fun _ _ _ => trivial
    | reclaimDead =>
      exact (hany.guarded (fun b hb => by cases hb)
        (fun _ _ _ hpl => reclaimDead_effect hpl) trivial).next fun _ _ _ => trivial
    | censusOrphanedDomain args =>
      exact hany.guarded (fun b hb => by cases hb)
        (fun _ _ _ hpl => censusOrphanedDomain_effect hpl) trivial
    | run args =>
      exact Script.Safe.seq ((run_keeps args h).imp (fun _ _ _ => trivial) fun _ _ _ => trivial)
        fun _ _ _ => trivial

end

def premises (site : Site) : System (Pool Label ValidateLockError Lot Answer) (Move Caller Answer) :=
  Pool.system (program site) Lot.vacant

def answered (site : Site) (s : Sys Lot) (p : Nat) (a : Answer) :
    Except ValidateLockError AuthorityStatus :=
  authorityStatusGuarded (view site p s a).env (view site p s a).anchorBefore
    (view site p s a).anchorAfter s.shared.disk

variable {site : Site} {s : Sys Lot}

theorem bound_of_reachable {c : Pool Label ValidateLockError Lot Answer}
    (h : (premises site).ReachableWhen (Pool.Permits (contract site) (program site)) c) :
    Bound site c.sys := by
  refine (Pool.sound_of_reachable (contract_stable site) ⟨?_, ?_, ?_, ?_⟩ ?_ h).1
  · intro o ho
    cases ho
  · intro l hl
    cases hl
  · intro o l ho
    cases ho
  · intro l hl
    cases hl
  · intro caller s hinv
    refine program_safe caller ⟨?_, fun l hl hp => ?_⟩
    · rw [length_append]
      exact Nat.lt_succ_self _
    · exact absurd hp (hinv.fresh l hl).ne

theorem probe_found {present born : List ProcessIdentity} {x : ProcessIdentity} {t : Ticks}
    (h : probe present born x.pid t = .found x.startTicks) (hborn : x ∈ born) : x ∈ present := by
  cases t with
  | found ticks =>
    rw [probe] at h
    split_ifs at h with hc
    cases h
    exact hc.2 hborn
  | missing =>
    rw [probe] at h
    split_ifs at h
  | failed => cases h

theorem alive_of_living (hids : Function.Injective site.identity) {q : Nat}
    (h : site.identity q ∈ site.living s) : s.alive q = true := by
  obtain ⟨q', hq', hid⟩ := List.mem_map.mp h
  obtain rfl := hids hid
  exact (mem_filter.mp hq').2

def leaseArgs : Command → Option AcquireArgs
  | .acquire args _ _ => some args
  | .run args => some args.lease
  | _ => none

def Spoken : Move Caller Answer → Prop
  | .start (.here command) => ∀ args ∈ leaseArgs command,
      PlainField args.agent.toList ∧ PlainField args.target.toList
  | _ => True

instance : (m : Move Caller Answer) → Decidable (Spoken m)
  | .start (.here command) => inferInstanceAs (Decidable (∀ args ∈ leaseArgs command,
      PlainField args.agent.toList ∧ PlainField args.target.toList))
  | .start .elsewhere | .act _ _ | .exit _ => inferInstanceAs (Decidable True)

abbrev Orderly (site : Site) (c : Pool Label ValidateLockError Lot Answer)
    (m : Move Caller Answer) : Prop :=
  c.Permits (contract site) (program site) m ∧ Spoken m

def Truthful (site : Site) (c : Pool Label ValidateLockError Lot Answer) (now : Int)
    (status : AuthorityStatus) : Prop :=
  ∃ q owner holder lease, status.owner = some owner ∧ owner.identity = site.identity q ∧
    c.sys.alive q = true ∧ c.shared.anchor = some (.supervisor q) ∧
    status.holder = some holder ∧ now < holder.expiresAt ∧ holder.kind = .validate ∧
    c.shared.lessee = some lease ∧ lease.process = q ∧ lease.supervised = true ∧
    lease.agent = holder.agent ∧ lease.kind = .validate ∧ lease.target = holder.target

theorem admissible_answers_are_truthful (hids : Function.Injective site.identity)
    {c : Pool Label ValidateLockError Lot Answer}
    (hc : (premises site).ReachableWhen (Orderly site) c) {p : Nat}
    (hask : c.procs[p]? = some (true, program site (.here .authorityStatus)))
    {a : Answer} (hpermit : c.Permits (contract site) (program site) (.act p a))
    {status : AuthorityStatus} (hstatus : answered site c.sys p a = .ok status)
    (hadmissible : status.admissible = true) :
    Truthful site c (view site p c.sys a).env.now status := by
  have hinv := bound_of_reachable (hc.mono fun _ _ h => h.1)
  have hgone : Gone site c.sys := hpermit.1 .ask (Pool.head_eq hask)
  obtain ⟨holder, process, hholder, howner, hlive, hkind, hticks, hh, ho⟩ :=
    authorityStatus_admits hstatus hadmissible
  obtain ⟨q, hlt, hid, hanchor⟩ := hinv.owner process howner
  obtain ⟨lease, hlease, hprocess, hsupervised⟩ := hinv.matched process holder howner hholder
  obtain ⟨lease', hlease', hagent, hkind', htarget⟩ := hinv.leased holder hholder
  cases hlease.symm.trans hlease'
  have hborn : process.identity ∈ site.born c.sys := by
    rw [hid]
    exact List.mem_map_of_mem (mem_range.mpr hlt)
  have halive : c.sys.alive q = true := by
    refine alive_of_living hids ?_
    rw [← hid]
    exact probe_found hticks hborn
  have hseat : c.shared.anchor = some (.supervisor q) := by
    refine (hanchor halive).resolve_right fun hreturned => ?_
    refine hgone q hreturned halive ?_
    rw [howner]
    exact congrArg some hid
  exact ⟨q, fromProcess process .alive, holder.reported, lease, ho, hid, halive, hseat, hh, hlive,
    hkind, hlease, hids (hprocess.symm.trans hid), hsupervised, hagent, hkind'.trans hkind, htarget⟩

def box : Site := ⟨"box", 1, fun n => ⟨n, n⟩⟩

def sha : String := "0123456789012345678901234567890123456789"

def supervisor (hold : UInt64) : Caller :=
  .here (.run ⟨⟨"a", .validate, sha, hold⟩, true, ["true"], 60, 1, false⟩)

def asked (now : Int) : Answer := { Answer.plain now with ticks := fun pid => .found pid }

def joined (c : Pool Label ValidateLockError Lot Answer) : Pool Label ValidateLockError Lot Answer :=
  ⟨c.shared, c.procs ++ [(true, program box (.here .authorityStatus))]⟩

def supervised : List (Move Caller Answer) :=
  .start (supervisor 900) :: List.replicate 6 (.act 0 (.plain 0))

theorem ok_of_toOption {ε α : Type} {x : Except ε α} {a : α} (h : x.toOption = some a) :
    x = .ok a := by
  cases x with
  | error e => cases h
  | ok b =>
    cases h
    rfl

theorem joined_asks {c : Pool Label ValidateLockError Lot Answer} {n : Nat}
    (h : c.procs.length = n) :
    (joined c).procs[n]? = some (true, program box (.here .authorityStatus)) := by
  rw [joined, ← h, List.getElem?_concat_length]

theorem supervised_lease_is_admissible : ∃ c status,
    (premises box).ReachableWhen (Orderly box) c ∧
    answered box c.sys 1 (asked 1) = .ok status ∧ status.admissible = true ∧
    Truthful box c (view box 1 c.sys (asked 1)).env.now status := by
  obtain ⟨c, hc, hv⟩ := @System.exists_reachable _ _ (premises box)
    (Orderly box) _ _
    (fun c => (c.procs.length, (joined c).shared.returned,
      ((answered box (joined c).sys 1 (asked 1)).toOption.map AuthorityStatus.admissible)))
    (1, [], some true) supervised (by decide +kernel)
  obtain ⟨hlen, hv⟩ := Prod.mk.inj hv
  obtain ⟨hreturned, hv⟩ := Prod.mk.inj hv
  obtain ⟨status, hstatus, hadmissible⟩ := Option.map_eq_some_iff.mp hv
  have hok := ok_of_toOption hstatus
  have hjoined : (premises box).ReachableWhen (Orderly box) (joined c) :=
    .step (e := .start (.here .authorityStatus)) hc ⟨trivial, by rintro args ⟨⟩⟩ rfl
  have hpermit : (joined c).Permits (contract box) (program box) (.act 1 (asked 1)) := by
    refine ⟨fun l hl => ?_, fun _ _ _ _ _ _ _ => trivial⟩
    rw [Pool.head_eq (joined_asks hlen), Option.mem_def] at hl
    cases hl
    intro q hq
    rw [show (joined c).sys.shared.returned = [] from hreturned] at hq
    cases hq
  have hinjective : Function.Injective box.identity := fun m n h => congrArg ProcessIdentity.pid h
  exact ⟨joined c, status, hjoined, hok, hadmissible,
    admissible_answers_are_truthful hinjective hjoined (joined_asks hlen) hpermit hok hadmissible⟩

def overtaken : List (Move Caller Answer) :=
  .start (.here (.acquire ⟨"b", .validate, sha, 3600⟩ 1 false)) ::
    List.replicate 4 (.act 0 (.plain 0)) ++
    .start (supervisor 1) :: List.replicate 5 (.act 1 (.plain 0)) ++
    [.act 0 (.plain 5), .act 1 (.plain 6)]

def reported (c : Pool Label ValidateLockError Lot Answer) :
    Option (Bool × Option String × Option ProcessIdentity) :=
  (answered box c.sys 2 (asked 7)).toOption.map fun status =>
    (status.admissible, status.holder.map AuthorityHolder.agent,
      status.owner.map AuthorityOwner.identity)

theorem manual_lease_reported_admissible : ∃ c status,
    (premises box).Reachable c ∧
    c.procs[2]? = some (true, program box (.here .authorityStatus)) ∧
    answered box c.sys 2 (asked 7) = .ok status ∧ status.admissible = true ∧
    status.holder.map AuthorityHolder.agent = some "b" ∧
    status.owner.map AuthorityOwner.identity = some (box.identity 1) ∧
    c.shared.lessee.map (fun l => (l.process, l.supervised)) = some (0, false) := by
  obtain ⟨c, hc, hv⟩ := @System.exists_reachable _ _ (premises box) (fun _ _ => True) _ _
    (fun c => (c.procs.length,
      decide ((joined c).shared.lessee.map (fun l => (l.process, l.supervised)) = some (0, false)),
      decide (reported (joined c) = some (true, some "b", some (box.identity 1)))))
    (2, true, true) overtaken (by decide +kernel)
  obtain ⟨hlen, hv⟩ := Prod.mk.inj hv
  obtain ⟨hlessee, hreported⟩ := Prod.mk.inj hv
  obtain ⟨status, hstatus, hfields⟩ := Option.map_eq_some_iff.mp (of_decide_eq_true hreported)
  obtain ⟨hadmissible, hfields⟩ := Prod.mk.inj hfields
  obtain ⟨hholder, howner⟩ := Prod.mk.inj hfields
  have hjoined : (premises box).Reachable (joined c) :=
    .step (e := .start (.here .authorityStatus)) hc trivial rfl
  exact ⟨joined c, status, hjoined, joined_asks hlen, ok_of_toOption hstatus, hadmissible, hholder,
    howner, of_decide_eq_true hlessee⟩

end DevHermit.Validate.Tenure
