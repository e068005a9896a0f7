import DevHermit.Worktree.Registry

namespace DevHermit.Worktree

open Lib List

def mutators (agents : List Owner) : Nat := agents.countP fun owner => !owner.readOnly

structure Owned (agents : List Owner) : Prop where
  named : ∀ owner ∈ agents, isInvalidName owner.name = false
  distinct : (agents.map Owner.name).Nodup
  one : mutators agents = 1

def Mutates (agents : List Owner) (agent : String) : Prop :=
  ∃ owner ∈ agents, owner.name = agent ∧ owner.readOnly = false

section

variable {slot : String}

theorem scanOwners_ok {agents : List Owner} {scan scan' : OwnerScan} :
    agents.foldlM (scanOwner slot) scan = .ok scan' ↔
      (∀ owner ∈ agents, isInvalidName owner.name = false ∧ owner.name ∉ scan.names) ∧
      (agents.map Owner.name).Nodup ∧
      scan' = ⟨scan.index + agents.length, (agents.map Owner.name).reverse ++ scan.names,
        scan.mutating + mutators agents⟩ := by
  induction agents generalizing scan with
  | nil =>
    constructor
    · intro h
      cases h
      exact ⟨by simp, nodup_nil, rfl⟩
    · rintro ⟨-, -, rfl⟩
      rfl
  | cons owner agents ih =>
    rw [foldlM_cons, scanOwner]
    by_cases hname : isInvalidName owner.name = true
    · rw [if_pos hname]
      refine iff_of_false nofun ?_
      rintro ⟨hall, -⟩
      rw [(hall owner mem_cons_self).1] at hname
      cases hname
    · rw [if_neg hname]
      by_cases hdup : owner.name ∈ scan.names
      · rw [if_pos hdup]
        refine iff_of_false nofun ?_
        rintro ⟨hall, -⟩
        exact (hall owner mem_cons_self).2 hdup
      · rw [if_neg hdup]
        refine Iff.trans ih ?_
        simp only [mem_cons, not_or, forall_eq_or_imp, map_cons, nodup_cons,
          List.mem_map, not_exists, not_and, length_cons, reverse_cons,
          append_assoc, singleton_append, mutators, countP_cons]
        rw [Bool.not_eq_true] at hname
        have hcount : (if owner.readOnly = true then scan.mutating else scan.mutating + 1) +
            agents.countP (fun owner => !owner.readOnly) = scan.mutating +
            (agents.countP (fun owner => !owner.readOnly) +
              if (!owner.readOnly) = true then 1 else 0) := by
          cases owner.readOnly with
          | true => rfl
          | false =>
            simp only [Bool.false_eq_true, if_false, Bool.not_false, if_true]
            omega
        have hindex : scan.index + 1 + agents.length = scan.index + (agents.length + 1) := by omega
        rw [hcount, hindex]
        constructor
        · rintro ⟨hall, hnodup, heq⟩
          exact ⟨⟨⟨hname, hdup⟩, fun o ho => ⟨(hall o ho).1, (hall o ho).2.2⟩⟩,
            ⟨fun o ho => (hall o ho).2.1, hnodup⟩, heq⟩
        · rintro ⟨⟨-, hall⟩, ⟨hnew, hnodup⟩, heq⟩
          exact ⟨fun o ho => ⟨(hall o ho).1, hnew o ho, (hall o ho).2⟩, hnodup, heq⟩

theorem validateOwners_iff {record : SlotRecord} :
    validateOwners slot record = .ok () ↔ Owned record.agents := by
  rw [validateOwners]
  by_cases hnil : record.agents = []
  · rw [if_pos hnil]
    refine iff_of_false nofun fun h => ?_
    have hone := h.one
    rw [hnil] at hone
    cases hone
  · rw [if_neg hnil]
    cases hscan : record.agents.foldlM (scanOwner slot) ⟨0, [], 0⟩ with
    | error e =>
      refine iff_of_false nofun fun h => ?_
      rw [scanOwners_ok.mpr ⟨fun o ho => ⟨h.named o ho, not_mem_nil⟩, h.distinct, rfl⟩] at hscan
      cases hscan
    | ok scan =>
      obtain ⟨hall, hnodup, rfl⟩ := scanOwners_ok.mp hscan
      change (if 0 + mutators record.agents ≠ 1 then _ else _) = _ ↔ _
      rw [Nat.zero_add]
      split_ifs with hone
      · exact iff_of_false nofun fun h => hone h.one
      · exact iff_of_true rfl ⟨fun o ho => (hall o ho).1, hnodup, not_not.mp hone⟩

end

section

variable {args : AllocateArgs} {observed : OwnerLease} {agents : List Owner}

theorem applyObservedOwnerLease_fields (owner : Owner) (observed : OwnerLease) :
    (applyObservedOwnerLease owner observed).name = owner.name ∧
      (applyObservedOwnerLease owner observed).readOnly = owner.readOnly := by
  cases observed <;> exact ⟨rfl, rfl⟩

theorem readopt_fields (args : AllocateArgs) (observed : OwnerLease) (owner : Owner) :
    (readopt args observed owner).name = owner.name ∧
      (readopt args observed owner).readOnly = args.readMostly :=
  applyObservedOwnerLease_fields _ _

theorem names_mergeAgent : (mergeAgent args observed agents).map Owner.name =
      if args.agent ∈ agents.map Owner.name then agents.map Owner.name
      else agents.map Owner.name ++ [args.agent] := by
  induction agents with
  | nil =>
    rw [mergeAgent, map_singleton, (applyObservedOwnerLease_fields _ _).1]
    rfl
  | cons owner rest ih =>
    rw [mergeAgent]
    split_ifs with hname hmem hmem
    · rw [map_cons, (readopt_fields _ _ _).1, map_cons]
    · exact absurd (by rw [map_cons, hname]; exact mem_cons_self) hmem
    · rw [map_cons, mem_cons, or_iff_right (Ne.symm hname)] at hmem
      rw [map_cons, ih, if_pos hmem, map_cons]
    · rw [map_cons, mem_cons, not_or] at hmem
      rw [map_cons, ih, if_neg hmem.2, map_cons, cons_append]

theorem mem_mergeAgent {owner : Owner} (h : owner ∈ mergeAgent args observed agents) :
    owner ∈ agents ∨ owner.name = args.agent ∧ owner.readOnly = args.readMostly := by
  induction agents with
  | nil =>
    rw [mergeAgent, mem_singleton] at h
    subst h
    exact .inr (applyObservedOwnerLease_fields _ _)
  | cons first rest ih =>
    rw [mergeAgent] at h
    split_ifs at h with hname
    · rcases mem_cons.mp h with rfl | hmem
      · obtain ⟨hn, hr⟩ := readopt_fields args observed first
        exact .inr ⟨hn.trans hname, hr⟩
      · exact .inl (mem_cons_of_mem _ hmem)
    · rcases mem_cons.mp h with rfl | hmem
      · exact .inl mem_cons_self
      · rcases ih hmem with hold | hnew
        · exact .inl (mem_cons_of_mem _ hold)
        · exact .inr hnew

def held (agents : List Owner) (agent : String) : Nat :=
  ((agents.find? fun owner => owner.name = agent).filter fun owner => !owner.readOnly).toList.length

theorem mutators_mergeAgent : mutators (mergeAgent args observed agents) + held agents args.agent =
      mutators agents + if args.readMostly then 0 else 1 := by
  induction agents with
  | nil =>
    rw [mergeAgent, mutators, countP_singleton, (applyObservedOwnerLease_fields _ _).2]
    cases args.readMostly <;> rfl
  | cons owner rest ih =>
    rw [mergeAgent, held, List.find?_cons]
    by_cases hname : owner.name = args.agent
    · rw [if_pos hname, decide_eq_true hname, mutators, mutators, countP_cons,
        countP_cons, (readopt_fields _ _ _).2]
      cases hread : owner.readOnly <;> cases hmostly : args.readMostly <;>
        simp [Option.filter, hread]
    · rw [if_neg hname, decide_eq_false hname, mutators, mutators, countP_cons, countP_cons]
      rw [held, mutators, mutators] at ih
      dsimp only
      omega

theorem held_of_distinct (h : (agents.map Owner.name).Nodup) (agent : String) :
    (held agents agent = 1 ↔ Mutates agents agent) ∧ held agents agent ≤ 1 := by
  induction agents with
  | nil =>
    have hzero : held [] agent = 0 := rfl
    rw [hzero]
    refine ⟨iff_of_false (by decide) ?_, by decide⟩
    rintro ⟨owner, hmem, -⟩
    cases hmem
  | cons owner rest ih =>
    rw [map_cons, nodup_cons] at h
    rw [held, List.find?_cons]
    by_cases hname : owner.name = agent
    · have hrest : ∀ o ∈ rest, o.name ≠ agent := fun o ho heq =>
        h.1 (hname ▸ heq ▸ List.mem_map_of_mem ho)
      rw [decide_eq_true hname]
      cases hread : owner.readOnly with
      | false =>
        refine ⟨iff_of_true (by simp [Option.filter, hread]) ?_, by simp [Option.filter, hread]⟩
        exact ⟨owner, mem_cons_self, hname, hread⟩
      | true =>
        refine ⟨iff_of_false (by simp [Option.filter, hread]) ?_, by simp [Option.filter, hread]⟩
        rintro ⟨o, hmem, hn, hr⟩
        rcases mem_cons.mp hmem with rfl | hmem
        · rw [hread] at hr
          cases hr
        · exact hrest o hmem hn
    · rw [decide_eq_false hname]
      refine ⟨(ih h.2).1.trans ?_, (ih h.2).2⟩
      constructor
      · rintro ⟨o, hmem, ho⟩
        exact ⟨o, mem_cons_of_mem _ hmem, ho⟩
      · rintro ⟨o, hmem, hn, hr⟩
        rcases mem_cons.mp hmem with rfl | hmem
        · exact absurd hn hname
        · exact ⟨o, hmem, hn, hr⟩

theorem owned_mergeAgent_iff (hvalid : isInvalidName args.agent = false) (h : Owned agents) :
    Owned (mergeAgent args observed agents) ↔
      (args.readMostly = true → ¬ Mutates agents args.agent) ∧
        (args.readMostly = false → Mutates agents args.agent) := by
  have hcount := @mutators_mergeAgent args observed agents
  obtain ⟨hheld, hle⟩ := held_of_distinct h.distinct args.agent
  rw [h.one] at hcount
  have hone : mutators (mergeAgent args observed agents) = 1 ↔
      (args.readMostly = true → ¬ Mutates agents args.agent) ∧
        (args.readMostly = false → Mutates agents args.agent) := by
    rw [← hheld]
    cases hread : args.readMostly <;> simp only [hread] at hcount ⊢ <;> simp at hcount ⊢ <;> omega
  rw [← hone]
  refine ⟨fun howned => howned.one, fun hmut => ⟨?_, ?_, hmut⟩⟩
  · intro owner hmem
    rcases mem_mergeAgent hmem with hold | ⟨hname, -⟩
    · exact h.named owner hold
    · rw [hname]
      exact hvalid
  · rw [names_mergeAgent]
    split_ifs with hmem
    · exact h.distinct
    · exact nodup_append.mpr ⟨h.distinct, nodup_singleton _, fun a ha b hb heq =>
        hmem (by rw [← mem_singleton.mp hb, ← heq]; exact ha)⟩

theorem owned_mergeAgent_nil_iff (hvalid : isInvalidName args.agent = false) :
    Owned (mergeAgent args observed []) ↔ args.readMostly = false := by
  rw [mergeAgent]
  obtain ⟨hname, hread⟩ := applyObservedOwnerLease_fields
    ⟨args.agent, args.readMostly, args.task, none, none⟩ observed
  constructor
  · intro h
    have hone := h.one
    rw [mutators, countP_singleton, hread] at hone
    cases hmostly : args.readMostly with
    | false => rfl
    | true =>
      rw [hmostly] at hone
      cases hone
  · intro hmostly
    refine ⟨fun owner hmem => ?_, nodup_singleton _, ?_⟩
    · rw [mem_singleton.mp hmem, hname]
      exact hvalid
    · rw [mutators, countP_singleton, hread, hmostly]
      rfl

end

variable {state state' : Registry}

structure Sound (state : Registry) : Prop where
  owned : ∀ slot record, state.get? slot = some record → Owned record.agents
  oneSlot : ∀ agent slot slot' record record', state.get? slot = some record →
    state.get? slot' = some record' → Mutates record.agents agent →
    Mutates record'.agents agent → slot = slot'

variable {record : SlotRecord}

theorem mutating_iff {agent : String} :
    record.mutating agent = true ↔ Mutates record.agents agent := by
  rw [SlotRecord.mutating, List.any_eq_true, Mutates]
  refine exists_congr fun owner => and_congr_right fun _ => ?_
  rw [Bool.and_eq_true, decide_eq_true_eq, Bool.not_eq_true']

variable {args : AllocateArgs} {slot : String}

theorem checkOneSlot_ok (h : checkOneSlot args state = .ok ()) (hmut : args.readMostly = false)
    (hget : state.get? slot = some record) (hagent : Mutates record.agents args.agent) :
    slot = args.slot := by
  rw [checkOneSlot, if_neg (by rw [hmut]; decide)] at h
  split at h
  case h_1 => cases h
  case h_2 hnone =>
    by_contra hne
    have hentry := List.find?_eq_none.mp hnone (slot, record)
      ((state.mem_entries_iff slot record).mpr hget)
    rw [Bool.and_eq_true, decide_eq_true_eq, mutating_iff] at hentry
    exact hentry ⟨hne, hagent⟩

theorem checkCollision_ok {existing : SlotRecord} (h : checkCollision args existing = .ok ())
    (howned : Owned existing.agents) (hmut : args.readMostly = false)
    (hstatus : existing.status ≠ some "released") : Mutates existing.agents args.agent := by
  rw [checkCollision] at h
  split at h
  case h_1 hnone =>
    have hzero : mutators existing.agents = 0 := by
      rw [mutators, countP_eq_zero]
      exact List.find?_eq_none.mp hnone
    rw [howned.one] at hzero
    cases hzero
  case h_2 owner hfind =>
    split_ifs at h with hcol
    have hname : owner.name = args.agent := by
      by_contra hne
      exact hcol ⟨hne, hmut, hstatus⟩
    refine ⟨owner, List.mem_of_find?_eq_some hfind, hname, ?_⟩
    simpa using List.find?_some hfind

def guarded (state : Registry) : Command → Bool
  | .allocate args _ _ _ =>
    match state.get? args.slot with
    | none => !args.readMostly
    | some record =>
      if args.readMostly then !record.mutating args.agent
      else record.status ≠ some "released" || record.mutating args.agent
  | .release _ _ _ => true

def namesValid : Command → Bool
  | .allocate args _ _ _ => !isInvalidName args.agent
  | .release _ _ _ => true

variable {now : String} {observed : OwnerLease} {worktrees : Except String Unit}

theorem allocated (h : allocate args now worktrees observed state = .ok state') :
    checkOneSlot args state = .ok () ∧
      (∀ record, state.get? args.slot = some record → checkCollision args record = .ok ()) ∧
      state' = state.upsert args.slot fun entry =>
        mergeRecord args now observed (entry.getD (newRecord args.slot now)) := by
  rw [allocate.eq_def] at h
  cases hargs : checkArgs args with
  | error e =>
    rw [hargs] at h
    cases h
  | ok _ =>
  cases hexisting : (state.get? args.slot).forM (checkExisting args.slot) with
  | error e =>
    rw [hargs, hexisting] at h
    cases h
  | ok _ =>
  cases hone : checkOneSlot args state with
  | error e =>
    rw [hargs, hexisting, hone] at h
    cases h
  | ok _ =>
  cases hcollision : (state.get? args.slot).forM (checkCollision args) with
  | error e =>
    rw [hargs, hexisting, hone, hcollision] at h
    cases h
  | ok _ =>
  rw [hargs, hexisting, hone, hcollision] at h
  cases worktrees with
  | error detail => cases h
  | ok _ =>
    cases h
    refine ⟨rfl, fun record hrecord => ?_, rfl⟩
    rw [hrecord] at hcollision
    exact hcollision

variable {cleanup : Except String Unit}

theorem released {args : ReleaseArgs} (h : release args now cleanup state = .ok state') :
    ∃ record, state.get? args.slot = some record ∧ (state' = removeSlot state args.slot ∨
        ∃ record', state' = state.set args.slot record' ∧
          (record'.agents = record.agents ∨ Owned record'.agents ∧
            ∀ owner ∈ record'.agents, owner ∈ record.agents)) := by
  have hwhole : ∀ record, releaseWhole args now cleanup record state = .ok state' →
      state' = removeSlot state args.slot ∨
        ∃ record', state' = state.set args.slot record' ∧
          (record'.agents = record.agents ∨ Owned record'.agents ∧
            ∀ owner ∈ record'.agents, owner ∈ record.agents) := by
    intro record hrel
    rw [releaseWhole.eq_def] at hrel
    split at hrel
    · split at hrel
      · cases hrel
      · cases hrel
        exact .inl rfl
    · cases hrel
      exact .inr ⟨_, rfl, .inl rfl⟩
  rw [release] at h
  split at h
  · cases h
  split at h
  case h_1 => cases h
  case h_2 record hrecord =>
  refine ⟨record, hrecord, ?_⟩
  cases hcheck : checkReleasable args record with
  | error e =>
    rw [hcheck] at h
    cases h
  | ok _ =>
  rw [hcheck] at h
  cases hname : args.agent with
  | none =>
    simp only [hname] at h
    exact hwhole record h
  | some name =>
    simp only [hname] at h
    change (if _ then _ else _) = _ at h
    split at h
    · exact hwhole record h
    · split at h
      case h_1 => cases h
      case h_2 hvalid =>
        cases h
        refine .inr ⟨_, rfl, .inr ⟨validateOwners_iff.mp hvalid, fun owner hmem => ?_⟩⟩
        exact (mem_filter.mp hmem).1

theorem Sound.start : Sound .empty where
  owned slot record h := by cases h
  oneSlot agent slot slot' record record' h := by cases h

theorem oneSlot_upsert (h : Sound state) (hone : checkOneSlot args state = .ok ()) :
    ∀ agent slot slot' record record', (state.upsert args.slot fun entry =>
        mergeRecord args now observed (entry.getD (newRecord args.slot now))).get? slot =
          some record → (state.upsert args.slot fun entry =>
        mergeRecord args now observed (entry.getD (newRecord args.slot now))).get? slot' =
          some record' →
      Mutates record.agents agent → Mutates record'.agents agent → slot = slot' := by
  have hmerged : ∀ agent, Mutates
      (mergeRecord args now observed ((state.get? args.slot).getD (newRecord args.slot now))).agents
      agent → (agent = args.agent ∧ args.readMostly = false) ∨
        ∃ record, state.get? args.slot = some record ∧ Mutates record.agents agent := by
    rintro agent ⟨owner, hmem, rfl, hread⟩
    rcases mem_mergeAgent hmem with hold | ⟨hname, hro⟩
    · cases hget : state.get? args.slot with
      | none =>
        rw [hget] at hold
        cases hold
      | some record =>
        rw [hget] at hold
        exact .inr ⟨record, rfl, owner, hold, rfl, hread⟩
    · exact .inl ⟨hname, hro.symm.trans hread⟩
  have hacross : ∀ agent slot record, slot ≠ args.slot → state.get? slot = some record →
      Mutates record.agents agent → ¬ Mutates
        (mergeRecord args now observed
          ((state.get? args.slot).getD (newRecord args.slot now))).agents agent := by
    intro agent slot record hne hget hmut hmut'
    rcases hmerged agent hmut' with ⟨rfl, hmostly⟩ | ⟨record', hget', hold⟩
    · exact hne (checkOneSlot_ok hone hmostly hget hmut)
    · exact hne (h.oneSlot agent slot args.slot record record' hget hget' hmut hold)
  intro agent slot slot' record record' hget hget' hmut hmut'
  rw [Dict.get?_upsert] at hget hget'
  split_ifs at hget hget' with hslot hslot'
  · exact hslot.trans hslot'.symm
  · cases hget
    exact absurd hmut (hacross agent slot' record' hslot' hget' hmut')
  · cases hget'
    exact absurd hmut' (hacross agent slot record hslot hget hmut)
  · exact h.oneSlot agent slot slot' record record' hget hget' hmut hmut'

theorem allocate_sound_iff (h : Sound state) (hvalid : isInvalidName args.agent = false)
    (hok : allocate args now worktrees observed state = .ok state') :
    Sound state' ↔ guarded state (.allocate args now worktrees observed) = true := by
  obtain ⟨hone, hcollision, rfl⟩ := allocated hok
  have howned : Sound (state.upsert args.slot fun entry =>
      mergeRecord args now observed (entry.getD (newRecord args.slot now))) ↔
      Owned (mergeAgent args observed
        ((state.get? args.slot).getD (newRecord args.slot now)).agents) := by
    refine ⟨fun hs => ?_, fun hs => ⟨?_, oneSlot_upsert h hone⟩⟩
    · exact hs.owned args.slot _ (by rw [Dict.get?_upsert, if_pos rfl])
    · intro slot record hget
      rw [Dict.get?_upsert] at hget
      split_ifs at hget
      · cases hget
        exact hs
      · exact h.owned slot record hget
  rw [howned, guarded]
  cases hget : state.get? args.slot with
  | none =>
    refine (owned_mergeAgent_nil_iff hvalid).trans ?_
    rw [Bool.not_eq_true']
  | some record =>
    have hrecord := h.owned args.slot record hget
    refine (owned_mergeAgent_iff hvalid hrecord).trans ?_
    dsimp only
    cases hmostly : args.readMostly with
    | true =>
      have hfalse : record.mutating args.agent = false ↔ ¬ Mutates record.agents args.agent := by
        rw [← mutating_iff, Bool.not_eq_true]
      rw [if_pos rfl, Bool.not_eq_true', hfalse]
      simp
    | false =>
      rw [if_neg (by decide), Bool.or_eq_true, decide_eq_true_eq, mutating_iff]
      by_cases hstatus : record.status = some "released"
      · simp [hstatus]
      · have hmut := checkCollision_ok (hcollision record hget) hrecord hmostly hstatus
        simp [hstatus, hmut]

theorem get?_removeSlot (slot s : String) :
    (removeSlot state slot).get? s = if s = slot then none else state.get? s := by
  rw [Dict.get?, removeSlot, Dict.lookup_filter state.nodup]
  by_cases hs : s = slot
  · rw [if_pos hs]
    exact Option.filter_eq_none_iff.mpr fun _ _ => by simpa using hs
  · rw [if_neg hs]
    change (state.get? s).filter _ = state.get? s
    cases state.get? s with
    | none => rfl
    | some record => rw [Option.filter_some, if_pos (by simpa using hs)]

theorem Sound.set {record' : SlotRecord} (h : Sound state) (hget : state.get? slot = some record)
    (howned : Owned record'.agents) (hsub : ∀ owner ∈ record'.agents, owner ∈ record.agents) :
    Sound (state.set slot record') := by
  have hback : ∀ s r, (state.set slot record').get? s = some r → ∃ r₀, state.get? s = some r₀ ∧
      Owned r.agents ∧ ∀ agent, Mutates r.agents agent → Mutates r₀.agents agent := by
    intro s r hs
    rw [Dict.get?_set] at hs
    split_ifs at hs with heq
    · cases hs
      refine ⟨record, heq ▸ hget, howned, ?_⟩
      rintro agent ⟨owner, hmem, howner⟩
      exact ⟨owner, hsub owner hmem, howner⟩
    · exact ⟨r, hs, h.owned s r hs, fun _ hm => hm⟩
  constructor
  · intro s r hs
    obtain ⟨-, -, hr, -⟩ := hback s r hs
    exact hr
  · intro agent s s' r r' hs hs' hm hm'
    obtain ⟨r₀, hr₀, -, hmut⟩ := hback s r hs
    obtain ⟨r₁, hr₁, -, hmut'⟩ := hback s' r' hs'
    exact h.oneSlot agent s s' r₀ r₁ hr₀ hr₁ (hmut agent hm) (hmut' agent hm')

theorem release_sound {args : ReleaseArgs} (h : Sound state)
    (hok : release args now cleanup state = .ok state') : Sound state' := by
  obtain ⟨record, hget, rfl | ⟨record', rfl, hsame | ⟨howned, hsub⟩⟩⟩ := released hok
  · have hback : ∀ s r, (removeSlot state args.slot).get? s = some r → state.get? s = some r := by
      intro s r hs
      rw [get?_removeSlot] at hs
      split_ifs at hs
      exact hs
    exact ⟨fun s r hs => h.owned s r (hback s r hs), fun agent s s' r r' hs hs' =>
      h.oneSlot agent s s' r r' (hback s r hs) (hback s' r' hs')⟩
  · refine h.set hget ?_ fun owner hmem => ?_
    · rw [hsame]
      exact h.owned args.slot record hget
    · rw [← hsame]
      exact hmem
  · exact h.set hget howned hsub

theorem invoke_sound_iff {c : Command} (h : Sound state) (hvalid : namesValid c = true)
    (hok : invoke state c = some state') : Sound state' ↔ guarded state c = true := by
  cases c with
  | allocate args now worktrees observed =>
    rw [invoke] at hok
    cases halloc : allocate args now worktrees observed state with
    | error e =>
      rw [halloc] at hok
      cases hok
    | ok next =>
      rw [halloc] at hok
      cases hok
      exact allocate_sound_iff h (by simpa [namesValid] using hvalid) halloc
  | release args now cleanup =>
    rw [invoke] at hok
    cases hrel : release args now cleanup state with
    | error e =>
      rw [hrel] at hok
      cases hok
    | ok next =>
      rw [hrel] at hok
      cases hok
      exact iff_of_true (release_sound h hrel) rfl

structure ExactlyOneOwner (state : Registry) : Prop where
  validated : ∀ slot record, state.get? slot = some record → validateOwners slot record = .ok ()
  oneSlot : ∀ agent slot slot' record record', state.get? slot = some record →
    state.get? slot' = some record' → record.mutating agent = true →
    record'.mutating agent = true → slot = slot'
  accepted : ∀ args now cleanup detail,
    release args now cleanup state ≠ .error (.invalidOwnership detail)

theorem checkLease_ne (args : ReleaseArgs) (record : SlotRecord) (detail : String) :
    checkLease args record ≠ .error (.invalidOwnership detail) := by
  rw [checkLease]
  split_ifs <;> exact nofun

theorem checkReleasable_ne {args : ReleaseArgs} {record : SlotRecord} (h : Owned record.agents)
    (detail : String) : checkReleasable args record ≠ .error (.invalidOwnership detail) := by
  rw [checkReleasable, validateOwners_iff.mpr h]
  dsimp only
  split
  · exact nofun
  split
  · exact nofun
  · exact checkLease_ne args record detail

theorem releaseWhole_ne (args : ReleaseArgs) (now : String) (cleanup : Except String Unit)
    (record : SlotRecord) (detail : String) :
    releaseWhole args now cleanup record state ≠ .error (.invalidOwnership detail) := by
  rw [releaseWhole.eq_def]
  split
  · split <;> exact nofun
  · exact nofun

theorem release_ne (h : Sound state) (args : ReleaseArgs) (now : String)
    (cleanup : Except String Unit) (detail : String) :
    release args now cleanup state ≠ .error (.invalidOwnership detail) := by
  rw [release]
  split
  · exact nofun
  split
  case h_1 => exact nofun
  case h_2 record hrecord =>
  have hcheck := @checkReleasable_ne args record (h.owned args.slot record hrecord) detail
  cases hres : checkReleasable args record with
  | error e =>
    rw [hres] at hcheck
    exact fun herr => hcheck (congrArg Except.error (Except.error.inj herr))
  | ok _ =>
  cases hname : args.agent with
  | none => exact releaseWhole_ne args now cleanup record detail
  | some name =>
    change (if _ then _ else _) ≠ _
    split
    · exact releaseWhole_ne args now cleanup record detail
    · split <;> exact nofun

theorem exactlyOneOwner_iff : ExactlyOneOwner state ↔ Sound state := by
  constructor
  · intro h
    refine ⟨fun slot record hget => validateOwners_iff.mp (h.validated slot record hget), ?_⟩
    intro agent slot slot' record record' hget hget' hmut hmut'
    exact h.oneSlot agent slot slot' record record' hget hget' (mutating_iff.mpr hmut)
      (mutating_iff.mpr hmut')
  · intro h
    refine ⟨fun slot record hget => validateOwners_iff.mpr (h.owned slot record hget), ?_,
      release_ne h⟩
    intro agent slot slot' record record' hget hget' hmut hmut'
    exact h.oneSlot agent slot slot' record record' hget hget' (mutating_iff.mp hmut)
      (mutating_iff.mp hmut')

theorem one_mutating_owner_while_guarded (state : Registry) :
    (system.ReachableWhen (fun state c => namesValid c = true ∧ guarded state c = true) state →
      ExactlyOneOwner state) ∧
    ∀ c state', ExactlyOneOwner state → namesValid c = true → invoke state c = some state' →
      (ExactlyOneOwner state' ↔ guarded state c = true) := by
  constructor
  · intro h
    rw [exactlyOneOwner_iff]
    refine h.invariant Sound.start fun s c s' hs hok hstep => ?_
    exact (invoke_sound_iff hs hok.1 hstep).mpr hok.2
  · intro c state' h hvalid hok
    rw [exactlyOneOwner_iff] at h ⊢
    exact invoke_sound_iff h hvalid hok

def request (agent : String) (readMostly : Bool) : AllocateArgs :=
  ⟨agent, "kvm", "impl", .all, none, none, none, "", readMostly⟩

def allocateKvm (agent : String) (readMostly : Bool) : Command :=
  .allocate (request agent readMostly) "now" (.ok ()) (.error "no snapshot")

def releaseKvm : Command := .release ⟨"kvm", none, false⟩ "now" (.ok ())

theorem shared_slot_keeps_one_owner :
    ∃ state, (state.get? "kvm").map (fun r => r.agents.map fun o => (o.name, o.readOnly)) =
        some [("hermit-kvm", false), ("hermit-ci", true)] ∧ ExactlyOneOwner state := by
  obtain ⟨state, hreach, hview⟩ := @System.exists_reachable _ _ system
    (fun state c => namesValid c = true ∧ guarded state c = true) _ _
    (fun state => (state.get? "kvm").map fun r => r.agents.map fun o => (o.name, o.readOnly))
    (some [("hermit-kvm", false), ("hermit-ci", true)])
    [allocateKvm "hermit-kvm" false, allocateKvm "hermit-ci" true, releaseKvm] (by decide +kernel)
  exact ⟨state, hview, (one_mutating_owner_while_guarded state).1 hreach⟩

theorem taken_over_slot_has_two_owners :
    ∃ state, system.ReachableWhen (fun _ c => namesValid c = true) state ∧
      (state.get? "kvm").map (validateOwners "kvm") =
        some (.error "slot kvm must have exactly one mutating owner, found 2") ∧
      (release ⟨"kvm", none, false⟩ "now" (.ok ()) state).toOption = none ∧
      ¬ ExactlyOneOwner state := by
  obtain ⟨state, hreach, hview⟩ := @System.exists_reachable _ _ system
    (fun _ c => namesValid c = true) _ _
    (fun state => ((state.get? "kvm").map (validateOwners "kvm"),
      (release ⟨"kvm", none, false⟩ "now" (.ok ()) state).toOption))
    (some (.error "slot kvm must have exactly one mutating owner, found 2"), none)
    [allocateKvm "hermit-kvm" false, releaseKvm, allocateKvm "hermit-ci" false]
    (by decide +kernel)
  rw [Prod.mk.injEq] at hview
  refine ⟨state, hreach, hview.1, hview.2, fun hone => ?_⟩
  obtain ⟨record, hget, herr⟩ := Option.map_eq_some_iff.mp hview.1
  rw [hone.validated "kvm" record hget] at herr
  cases herr

end DevHermit.Worktree
