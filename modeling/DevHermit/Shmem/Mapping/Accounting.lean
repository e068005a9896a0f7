import DevHermit.Shmem.Mapping.Protocol

namespace DevHermit.Shmem.TypedMapping

open Lib

def AfterPoison.held : AfterPoison → Nat
  | .finish => 0
  | .dropAttachment _ => 1

def Pc.heldAttachments : Pc → Nat
  | .attachmentDrop _ | .drainLoad | .drainCas _ | .payloadLoad | .payload | .closeCas => 1
  | .poisonLoad after | .poisonCas after _ => after.held
  | .idle | .initCas _ _ | .initGeometry _ _ | .initCallback | .initPublish | .initPoison _
  | .attachSnapshot _ | .attachGeometry _ | .attachLoad | .attachCas _ | .enterLoad | .enterCas _
  | .guardDrop | .done _ => 0

def Pc.heldGuards : Pc → Nat
  | .guardDrop => 1
  | _ => 0

def Pc.initializers : Pc → Nat
  | .initGeometry _ _ | .initCallback | .initPublish | .initPoison _ => 1
  | .idle | .initCas _ _ | .attachSnapshot _ | .attachGeometry _ | .attachLoad | .attachCas _
  | .enterLoad | .enterCas _ | .guardDrop | .attachmentDrop _ | .drainLoad | .drainCas _
  | .poisonLoad _ | .poisonCas _ _ | .payloadLoad | .payload | .closeCas | .done _ => 0

def Pc.counts : Pc → Prop
  | .attachCas _ | .enterCas _ | .guardDrop | .attachmentDrop _ => True
  | .idle | .initCas _ _ | .initGeometry _ _ | .initCallback | .initPublish | .initPoison _
  | .attachSnapshot _ | .attachGeometry _ | .attachLoad | .enterLoad | .drainLoad | .drainCas _
  | .poisonLoad _ | .poisonCas _ _ | .payloadLoad | .payload | .closeCas | .done _ => False

def Shared.pooled (sh : Shared) : Nat := sh.attachments + sh.owners + sh.drainings

def Pc.wellFormed : Pc → Prop
  | .attachCas current =>
    ∃ s, decode current = .ok s ∧ s.phase = .opened ∧ s.attachments ≠ maxCount
  | .enterCas current =>
    ∃ s, decode current = .ok s ∧ s.phase = .opened ∧ s.admissions ≠ maxCount
  | .drainCas current => ∃ s, decode current = .ok s ∧ s.phase = .opened
  | .poisonCas _ current =>
    ∃ s, decode current = .ok s ∧ s.phase ≠ .poisoned ∧ s.phase ≠ .closed
  | _ => True

structure SameHandles (sh : Shared) (pc : Pc) (sh' : Shared) (pc' : Pc) : Prop where
  attachments : sh'.pooled + pc'.heldAttachments = sh.pooled + pc.heldAttachments
  guards : sh'.guards + pc'.heldGuards = sh.guards + pc.heldGuards
  initializers : pc'.initializers = pc.initializers
  borrow : pc' = .payload → pc = .payload
  opened : sh'.opened = sh.opened
  closed : sh'.closed = sh.closed

inductive Move (sh : Shared) (pc : Pc) : Shared → Pc → Prop where
  | quiet (sh' : Shared) (pc' : Pc) : sh'.lifecycle = sh.lifecycle → SameHandles sh pc sh' pc' →
      Move sh pc sh' pc'
  | borrow : pc = .payloadLoad → decode sh.lifecycle = .ok ⟨.draining, 1, 0⟩ →
      Move sh pc sh .payload
  | claim (t : LayoutDescriptor) (payload : UInt64) : sh.lifecycle = pack .uninitialized 0 0 →
      pc = .initCas t payload →
      Move sh pc { sh with lifecycle := pack .initializing 0 0 } (.initGeometry t payload)
  | publish : sh.lifecycle = pack .initializing 0 0 → pc = .initPublish →
      Move sh pc { sh with
        lifecycle := pack .opened 1 0, owners := sh.owners + 1, opened := sh.opened + 1 }
        (.done .ok)
  | initPoison (outcome : Outcome) : pc = .initPoison outcome →
      Move sh pc { sh with lifecycle := pack .poisoned 0 0 } (.done outcome)
  | attach (s : LifecycleSnapshot) : decode sh.lifecycle = .ok s → s.phase = .opened →
      s.attachments ≠ maxCount → pc = .attachCas sh.lifecycle →
      Move sh pc { sh with
        lifecycle := sh.lifecycle + attachmentOne, attachments := sh.attachments + 1 } (.done .ok)
  | enter (s : LifecycleSnapshot) : decode sh.lifecycle = .ok s → s.phase = .opened →
      s.admissions ≠ maxCount → pc = .enterCas sh.lifecycle →
      Move sh pc { sh with
        lifecycle := sh.lifecycle + activeOne, guards := sh.guards + 1 } (.done .ok)
  | dropAttachment (outcome : Outcome) : pc = .attachmentDrop outcome →
      Move sh pc { sh with lifecycle := sh.lifecycle - attachmentOne } (.done outcome)
  | dropGuard : pc = .guardDrop →
      Move sh pc { sh with lifecycle := sh.lifecycle - activeOne } (.done .ok)
  | rephase (s : LifecycleSnapshot) (phase : Phase) (sh' : Shared) (pc' : Pc) :
      decode sh.lifecycle = .ok s →
      (s.phase = .opened ∧ phase = .draining ∨
        s.phase ≠ .poisoned ∧ s.phase ≠ .closed ∧ phase = .poisoned) →
      sh'.lifecycle = withPhase sh.lifecycle phase → ¬ pc.counts →
      SameHandles sh pc sh' pc' → Move sh pc sh' pc'
  | close : sh.lifecycle = pack .draining 1 0 → pc = .closeCas →
      Move sh pc { sh with lifecycle := pack .closed 0 0, closed := sh.closed + 1 } (.done .ok)

variable {pc pc' : Pc} {sh : Shared}

theorem SameHandles.goto (ha : pc'.heldAttachments = pc.heldAttachments)
    (hg : pc'.heldGuards = pc.heldGuards) (hi : pc'.initializers = pc.initializers)
    (hb : pc' ≠ .payload) : SameHandles sh pc sh pc' :=
  ⟨by rw [ha], by rw [hg], hi, fun h => absurd h hb, rfl, rfl⟩

structure Pc.Like (pc pc' : Pc) : Prop where
  attachments : pc'.heldAttachments = pc.heldAttachments
  guards : pc'.heldGuards = pc.heldGuards
  initializers : pc'.initializers = pc.initializers
  unborrowed : pc' ≠ .payload
  wellFormed : pc'.wellFormed

theorem Pc.Like.quiet (h : pc.Like pc') : Move sh pc sh pc' :=
  .quiet sh pc' rfl (.goto h.attachments h.guards h.initializers h.unborrowed)

theorem done_like (outcome : Outcome) (ha : pc.heldAttachments = 0) (hg : pc.heldGuards = 0)
    (hi : pc.initializers = 0) : pc.Like (.done outcome) :=
  ⟨ha.symm, hg.symm, hi.symm, by simp, trivial⟩

section

variable (current : UInt64) (ha : pc.heldAttachments = 0) (hg : pc.heldGuards = 0)
  (hi : pc.initializers = 0)
include current ha hg hi

theorem attachDecide_like : pc.Like (attachDecide current) := by
  unfold attachDecide
  split
  · exact done_like _ ha hg hi
  · rename_i s hs
    split_ifs with hp hm
    · exact done_like _ ha hg hi
    · exact done_like _ ha hg hi
    · exact ⟨ha.symm, hg.symm, hi.symm, by simp, s, hs, not_not.mp hp, hm⟩

theorem enterDecide_like : pc.Like (enterDecide current) := by
  unfold enterDecide
  split
  · exact done_like _ ha hg hi
  · rename_i s hs
    split_ifs with hp hm
    · exact done_like _ ha hg hi
    · exact done_like _ ha hg hi
    · exact ⟨ha.symm, hg.symm, hi.symm, by simp, s, hs, not_not.mp hp, hm⟩

end

theorem drainDecide_like (current : UInt64) (ha : pc.heldAttachments = 1) (hg : pc.heldGuards = 0)
    (hi : pc.initializers = 0) : pc.Like (drainDecide current) := by
  unfold drainDecide
  split
  · exact ⟨ha.symm, hg.symm, hi.symm, by simp, trivial⟩
  · rename_i s hs
    split_ifs with hp
    · exact ⟨ha.symm, hg.symm, hi.symm, by simp, trivial⟩
    · exact ⟨ha.symm, hg.symm, hi.symm, by simp, s, hs, not_not.mp hp⟩

theorem next_like (after : AfterPoison) (outcome : Outcome) (ha : pc.heldAttachments = after.held)
    (hg : pc.heldGuards = 0) (hi : pc.initializers = 0) : pc.Like (after.next outcome) := by
  cases after with
  | finish => exact done_like _ ha hg hi
  | dropAttachment _ => exact ⟨ha.symm, hg.symm, hi.symm, by simp [AfterPoison.next], trivial⟩

theorem poisonDecide_like (after : AfterPoison) (current : UInt64)
    (ha : pc.heldAttachments = after.held) (hg : pc.heldGuards = 0) (hi : pc.initializers = 0) :
    pc.Like (poisonDecide after current) := by
  unfold poisonDecide
  split
  · exact next_like _ _ ha hg hi
  · rename_i s hs
    split_ifs with hp hm
    · exact next_like _ _ ha hg hi
    · exact next_like _ _ ha hg hi
    · exact ⟨ha.symm, hg.symm, hi.symm, by simp, s, hs, hp, hm⟩

theorem snapshotForAttach_like (t : LayoutDescriptor) (current : UInt64)
    (ha : pc.heldAttachments = 0) (hg : pc.heldGuards = 0) (hi : pc.initializers = 0) :
    pc.Like (snapshotForAttach t current) := by
  unfold snapshotForAttach
  split
  · exact done_like _ ha hg hi
  · split_ifs
    · exact done_like _ ha hg hi
    · exact ⟨ha.symm, hg.symm, hi.symm, by simp, trivial⟩

theorem isDrained_true {current : UInt64} (h : isDrained current = .ok true) :
    decode current = .ok ⟨.draining, 1, 0⟩ := by
  unfold isDrained at h
  split at h
  · cases h
  · rename_i s hs
    obtain ⟨phase, attachments, admissions⟩ := s
    simp only [Except.ok.injEq, Bool.and_eq_true, beq_iff_eq] at h
    obtain ⟨⟨rfl, rfl⟩, rfl⟩ := h
    exact hs

theorem Pc.Like.move (h : pc.Like pc') : Move sh pc sh pc' ∧ pc'.wellFormed :=
  ⟨h.quiet, h.wellFormed⟩

variable {m : Mapping} {sh' : Shared}

theorem call_move {op : Op} (h : call m sh op = some (sh', pc')) :
    Move sh .idle sh' pc' ∧ pc'.wellFormed := by
  cases op with
  | tryInitializeInPlace t =>
    simp only [call] at h
    split at h <;>
      · cases h
        exact Pc.Like.move ⟨rfl, rfl, rfl, by simp, trivial⟩
  | attach t =>
    cases h
    exact Pc.Like.move ⟨rfl, rfl, rfl, by simp, trivial⟩
  | poison =>
    cases h
    exact Pc.Like.move ⟨rfl, rfl, rfl, by simp, trivial⟩
  | tryEnter =>
    simp only [call] at h
    split_ifs at h
    cases h
    exact Pc.Like.move ⟨rfl, rfl, rfl, by simp, trivial⟩
  | dropGuard =>
    simp only [call] at h
    split_ifs at h
    cases h
    refine ⟨.quiet _ _ rfl ⟨rfl, ?_, rfl, by simp, rfl, rfl⟩, trivial⟩
    simp only [Pc.heldGuards]
    omega
  | _ =>
    simp only [call] at h
    split_ifs at h
    cases h
    refine ⟨.quiet _ _ rfl ⟨?_, rfl, rfl, by simp, rfl, rfl⟩, trivial⟩
    simp only [Shared.pooled, Pc.heldAttachments, AfterPoison.held]
    omega

theorem advance_move (hwf : pc.wellFormed) (h : advance m sh pc = some (sh', pc')) :
    Move sh pc sh' pc' ∧ pc'.wellFormed := by
  cases pc with
  | idle => cases h
  | initCallback => cases h
  | payload => cases h
  | initCas t payload =>
    simp only [advance] at h
    split_ifs at h with hl <;> cases h
    · exact ⟨.claim t payload hl rfl, trivial⟩
    · exact (done_like _ rfl rfl rfl).move
  | initGeometry t payload =>
    cases h
    exact ⟨.quiet _ _ rfl ⟨rfl, rfl, rfl, by simp, rfl, rfl⟩, trivial⟩
  | initPublish =>
    simp only [advance] at h
    split_ifs at h with hl <;> cases h
    · exact ⟨.publish hl rfl, trivial⟩
    · exact Pc.Like.move ⟨rfl, rfl, rfl, by simp, trivial⟩
  | initPoison outcome =>
    cases h
    exact ⟨.initPoison outcome rfl, trivial⟩
  | attachSnapshot t =>
    cases h
    exact (snapshotForAttach_like t _ rfl rfl rfl).move
  | attachGeometry t =>
    simp only [advance] at h
    split at h <;>
      · cases h
        exact Pc.Like.move ⟨rfl, rfl, rfl, by simp, trivial⟩
  | attachLoad =>
    cases h
    exact (attachDecide_like _ rfl rfl rfl).move
  | attachCas current =>
    simp only [advance] at h
    split_ifs at h with hl <;> cases h
    · subst hl
      obtain ⟨s, hs, hp, hm⟩ := hwf
      exact ⟨.attach s hs hp hm rfl, trivial⟩
    · exact (attachDecide_like _ rfl rfl rfl).move
  | enterLoad =>
    cases h
    exact (enterDecide_like _ rfl rfl rfl).move
  | enterCas current =>
    simp only [advance] at h
    split_ifs at h with hl
    · obtain ⟨rfl, rfl⟩ := Prod.ext_iff.mp (Option.some.inj h)
      subst hl
      obtain ⟨s, hs, hp, hm⟩ := hwf
      exact ⟨.enter s hs hp hm rfl, trivial⟩
    · cases h
      exact (enterDecide_like _ rfl rfl rfl).move
  | guardDrop =>
    cases h
    exact ⟨.dropGuard rfl, trivial⟩
  | attachmentDrop outcome =>
    cases h
    exact ⟨.dropAttachment outcome rfl, trivial⟩
  | drainLoad =>
    cases h
    exact (drainDecide_like _ rfl rfl rfl).move
  | drainCas current =>
    simp only [advance] at h
    split_ifs at h with hl <;> cases h
    · subst hl
      obtain ⟨s, hs, hp⟩ := hwf
      exact ⟨.rephase s .draining _ _ hs (Or.inl ⟨hp, rfl⟩) rfl id
        ⟨rfl, rfl, rfl, by simp, rfl, rfl⟩, trivial⟩
    · exact (drainDecide_like _ rfl rfl rfl).move
  | poisonLoad after =>
    cases h
    exact (poisonDecide_like after _ rfl rfl rfl).move
  | poisonCas after current =>
    simp only [advance] at h
    split_ifs at h with hl <;> cases h
    · subst hl
      obtain ⟨s, hs, hp, hc⟩ := hwf
      have hn : (Pc.poisonCas after sh.lifecycle).Like (after.next .ok) :=
        next_like after .ok rfl rfl rfl
      exact ⟨.rephase s .poisoned _ _ hs (Or.inr ⟨hp, hc, rfl⟩) rfl id
        ⟨congrArg (sh.pooled + ·) hn.attachments, congrArg (sh.guards + ·) hn.guards,
          hn.initializers, fun hb => absurd hb hn.unborrowed, rfl, rfl⟩, hn.wellFormed⟩
    · exact (poisonDecide_like after _ rfl rfl rfl).move
  | payloadLoad =>
    simp only [advance] at h
    split at h <;> cases h
    · exact ⟨.quiet _ _ rfl ⟨rfl, rfl, rfl, by simp, rfl, rfl⟩, trivial⟩
    · exact ⟨.quiet _ _ rfl ⟨rfl, rfl, rfl, by simp, rfl, rfl⟩, trivial⟩
    · rename_i hd
      exact ⟨.borrow rfl (isDrained_true hd), trivial⟩
  | closeCas =>
    simp only [advance] at h
    split_ifs at h with hl <;> cases h
    · exact ⟨.close hl rfl, trivial⟩
    · exact ⟨.quiet _ _ rfl ⟨rfl, rfl, rfl, by simp, rfl, rfl⟩, trivial⟩
  | done outcome =>
    cases h
    exact Pc.Like.move ⟨rfl, rfl, rfl, by simp, trivial⟩

theorem spurious_move (h : spurious sh pc = some (sh', pc')) :
    Move sh pc sh' pc' ∧ pc'.wellFormed := by
  cases pc with
  | attachCas current =>
    cases h
    exact (attachDecide_like _ rfl rfl rfl).move
  | enterCas current =>
    cases h
    exact (enterDecide_like _ rfl rfl rfl).move
  | drainCas current =>
    cases h
    exact (drainDecide_like _ rfl rfl rfl).move
  | poisonCas after current =>
    cases h
    exact (poisonDecide_like after _ rfl rfl rfl).move
  | _ => cases h

theorem step_move {i : In} (hwf : pc.wellFormed) (h : step m sh pc i = some (sh', pc')) :
    Move sh pc sh' pc' ∧ pc'.wellFormed := by
  cases i with
  | call op =>
    simp only [step] at h
    split_ifs at h with hp
    exact hp ▸ call_move h
  | go => exact advance_move hwf h
  | spurious => exact spurious_move h
  | callback unwinds =>
    simp only [step] at h
    split_ifs at h with hp hu <;>
      · cases h
        subst hp
        exact Pc.Like.move ⟨rfl, rfl, rfl, by simp, trivial⟩
  | endBorrow =>
    simp only [step] at h
    split_ifs at h with hp
    cases h
    subst hp
    exact ⟨.quiet _ _ rfl ⟨rfl, rfl, rfl, by simp, rfl, rfl⟩, trivial⟩

end DevHermit.Shmem.TypedMapping
