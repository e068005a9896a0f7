import DevHermit.Shmem.Mapping.Accounting

namespace DevHermit.Shmem.TypedMapping

open Lib Function

variable {P : Type}

@[ext] structure Ledger where
  attachments : Nat
  guards : Nat
  initializers : Nat
  opened : Nat
  closed : Nat

structure Sound (s : LifecycleSnapshot) (l : Ledger) : Prop where
  attachments : s.attachments = l.attachments
  admissions : s.admissions = l.guards
  opened_le : l.opened ≤ 1
  unopened : s.phase = .uninitialized ∨ s.phase = .initializing → l.opened = 0
  opened : s.phase = .opened ∨ s.phase = .draining ∨ s.phase = .closed → l.opened = 1
  handles : l.opened = 0 → l.attachments = 0 ∧ l.guards = 0
  initializers : l.initializers ≤ 1
  initializing : 0 < l.initializers → l.opened = 0 ∧ s.phase ≠ .uninitialized
  closed : l.closed = if s.phase = .closed then 1 else 0
  emptied : s.phase = .closed → l.attachments = 0 ∧ l.guards = 0

def Lent (s : LifecycleSnapshot) : Prop :=
  (s.phase = .draining ∨ s.phase = .poisoned) ∧ s.attachments = 1 ∧ s.admissions = 0

section

variable {s : LifecycleSnapshot} {l : Ledger}

theorem Sound.claim (h : Sound ⟨.uninitialized, 0, 0⟩ l) :
    Sound ⟨.initializing, 0, 0⟩ { l with initializers := l.initializers + 1 } := by
  cases h
  constructor <;> grind

theorem Sound.publish (h : Sound ⟨.initializing, 0, 0⟩ l) (hl : 0 < l.initializers) :
    Sound ⟨.opened, 1, 0⟩
      ⟨l.attachments + 1, l.guards, l.initializers - 1, l.opened + 1, l.closed⟩ := by
  cases h
  constructor <;> grind

section

variable (h : Sound s l)
include h

theorem Sound.initPoison (hl : 0 < l.initializers) :
    Sound ⟨.poisoned, 0, 0⟩ { l with initializers := l.initializers - 1 } := by
  cases h
  constructor <;> grind

theorem Sound.attach (hp : s.phase = .opened) : Sound { s with attachments := s.attachments + 1 }
      { l with attachments := l.attachments + 1 } := by
  cases h
  constructor <;> grind

theorem Sound.enter (hp : s.phase = .opened) :
    Sound { s with admissions := s.admissions + 1 } { l with guards := l.guards + 1 } := by
  cases h
  constructor <;> grind

theorem Sound.dropAttachment (hl : 0 < l.attachments) :
    Sound { s with attachments := s.attachments - 1 }
      { l with attachments := l.attachments - 1 } := by
  cases h
  constructor <;> grind

theorem Sound.dropGuard (hl : 0 < l.guards) :
    Sound { s with admissions := s.admissions - 1 } { l with guards := l.guards - 1 } := by
  cases h
  constructor <;> grind

theorem Sound.drain (hp : s.phase = .opened) : Sound { s with phase := .draining } l := by
  cases h
  constructor <;> grind

theorem Sound.poison (hp : s.phase ≠ .closed) : Sound { s with phase := .poisoned } l := by
  cases h
  constructor <;> grind

end

theorem Sound.close (h : Sound ⟨.draining, 1, 0⟩ l) : Sound ⟨.closed, 0, 0⟩
      { l with attachments := l.attachments - 1, closed := l.closed + 1 } := by
  cases h
  constructor <;> grind

end

def Shut (s : LifecycleSnapshot) : Prop :=
  s.phase = .draining ∨ s.phase = .closed ∨ s.phase = .poisoned

theorem not_shut_of_opened {s : LifecycleSnapshot} (h : s.phase = .opened) : ¬ Shut s := by
  simp [Shut, h]

structure Advances (pc : Pc) (s s' : LifecycleSnapshot) : Prop where
  closed : s.phase = .closed → s' = s
  poisoned : s.phase = .poisoned → s'.phase = .poisoned
  counts : pc.counts → s'.phase = s.phase
  shut : Shut s → Shut s' ∧ s'.admissions ≤ s.admissions

variable [Fintype P]

def liveAttachments (c : Config P Shared Pc) : Nat := c.sh.pooled + tally Pc.heldAttachments c.lo

def liveGuards (c : Config P Shared Pc) : Nat := c.sh.guards + tally Pc.heldGuards c.lo

def ledger (c : Config P Shared Pc) : Ledger :=
  ⟨liveAttachments c, liveGuards c, tally Pc.initializers c.lo, c.sh.opened, c.sh.closed⟩

structure Inv (c : Config P Shared Pc) (s : LifecycleSnapshot) : Prop where
  decodes : decode c.sh.lifecycle = .ok s
  sound : Sound s (ledger c)
  lent : ∀ p, c.lo p = .payload → Lent s
  wellFormed : ∀ p, (c.lo p).wellFormed

theorem Inv.eq_of_word {c : Config P Shared Pc} {s t : LifecycleSnapshot} (h : Inv c s)
    {w : UInt64} (he : c.sh.lifecycle = w) (hw : decode w = .ok t) : s = t := by
  have hd := h.decodes
  rw [he, hw] at hd
  exact (Except.ok.inj hd).symm

section

variable {c : Config P Shared Pc} {p : P} {sh : Shared} {pc : Pc}

theorem held_pos {held : Pc → Nat} (hp : c.lo p = pc) (h : 0 < held pc) : 0 < tally held c.lo :=
  Nat.lt_of_lt_of_le (hp ▸ h) (le_tally held c.lo p)

variable [DecidableEq P]

theorem ledger_update {old : Pc} (hp : c.lo p = old) (sh : Shared) (pc : Pc) (a a' g g' n n' : Nat)
    (ha : sh.pooled + pc.heldAttachments + a' = c.sh.pooled + old.heldAttachments + a)
    (hg : sh.guards + pc.heldGuards + g' = c.sh.guards + old.heldGuards + g)
    (hn : pc.initializers + n' = old.initializers + n) : ledger ⟨sh, update c.lo p pc⟩ =
      ⟨(ledger c).attachments + a - a', (ledger c).guards + g - g',
        (ledger c).initializers + n - n', sh.opened, sh.closed⟩ := by
  subst hp
  have h₁ := tally_update Pc.heldAttachments c.lo p pc
  have h₂ := tally_update Pc.heldGuards c.lo p pc
  have h₃ := tally_update Pc.initializers c.lo p pc
  ext
  · simp only [ledger, liveAttachments]
    omega
  · simp only [ledger, liveGuards]
    omega
  · simp only [ledger]
    omega
  · rfl
  · rfl

theorem ledger_same (h : SameHandles c.sh (c.lo p) sh pc) :
    ledger ⟨sh, update c.lo p pc⟩ = ledger c := by
  rw [ledger_update rfl sh pc 0 0 0 0 0 0 h.attachments h.guards h.initializers, h.opened, h.closed]
  rfl

omit [Fintype P] in
theorem lent_update {s : LifecycleSnapshot} (hp : pc = .payload → Lent s)
    (hq : ∀ q, q ≠ p → c.lo q = .payload → Lent s) (q : P)
    (h : update c.lo p pc q = .payload) : Lent s := by
  by_cases he : q = p
  · subst he
    exact hp (by simpa using h)
  · exact hq q he (by simpa [update_of_ne he] using h)

theorem borrow_excludes {s : LifecycleSnapshot} (h : Inv c s) {q : P} (hne : q ≠ p)
    (hq : c.lo q = .payload) : (c.lo p).heldAttachments = 0 := by
  have hle := add_le_tally Pc.heldAttachments c.lo hne
  have ha := h.sound.attachments
  have hl := (h.lent q hq).2.1
  have hb : (c.lo q).heldAttachments = 1 := by rw [hq]; rfl
  simp only [ledger, liveAttachments] at ha
  omega

theorem lent_ne_opened {s : LifecycleSnapshot} (h : Lent s) : s.phase ≠ .opened := by
  rcases h.1 with hp | hp <;> simp [hp]

theorem inv_move {s : LifecycleSnapshot} (h : Inv c s) (hm : Move c.sh (c.lo p) sh pc)
    (hwf : pc.wellFormed) : ∃ s', Inv ⟨sh, update c.lo p pc⟩ s' ∧ Advances (c.lo p) s s' := by
  have hd := h.decodes
  have hs := h.sound
  have hwf' : ∀ q, (update c.lo p pc q).wellFormed := by
    intro q
    by_cases he : q = p
    · subst he
      simpa using hwf
    · simpa [update_of_ne he] using h.wellFormed q
  cases hm with
  | quiet _ _ hl hsame =>
    refine ⟨s, ⟨hl ▸ hd, ledger_same hsame ▸ hs, ?_, hwf'⟩, fun _ => rfl, id, fun _ => rfl,
      fun hsh => ⟨hsh, le_rfl⟩⟩
    exact lent_update (fun hb => h.lent p (hsame.borrow hb)) (fun q _ => h.lent q)
  | borrow hp hdr =>
    have hl : ledger ⟨c.sh, update c.lo p .payload⟩ = ledger c :=
      ledger_update hp c.sh .payload 0 0 0 0 0 0 rfl rfl rfl
    obtain rfl := Except.ok.inj (hd.symm.trans hdr)
    refine ⟨_, ⟨hd, hl ▸ hs, ?_, hwf'⟩, by simp, by simp, fun _ => rfl,
      fun hsh => ⟨hsh, le_rfl⟩⟩
    exact lent_update (fun _ => ⟨Or.inl rfl, rfl, rfl⟩) (fun q _ => h.lent q)
  | claim t payload hl hp =>
    obtain rfl := h.eq_of_word hl (decode_pack _ 0 0 (by decide) (by decide))
    have hle := ledger_update hp { c.sh with lifecycle := pack .initializing 0 0 }
      (.initGeometry t payload) 0 0 0 0 1 0 rfl rfl rfl
    refine ⟨⟨.initializing, 0, 0⟩, ⟨decode_pack _ 0 0 (by decide) (by decide),
      hle ▸ hs.claim, ?_, hwf'⟩, by simp, by simp, by simp [hp, Pc.counts], by simp [Shut]⟩
    exact lent_update (by simp) (fun q _ hq => by simpa [Lent] using h.lent q hq)
  | publish hl hp =>
    obtain rfl := h.eq_of_word hl (decode_pack _ 0 0 (by decide) (by decide))
    have hle := ledger_update hp { c.sh with
      lifecycle := pack .opened 1 0, owners := c.sh.owners + 1, opened := c.sh.opened + 1 }
      (.done .ok) 1 0 0 0 0 1 (by simp [Shared.pooled, Pc.heldAttachments]; omega) rfl rfl
    have hpos : 0 < (ledger c).initializers := held_pos hp Nat.one_pos
    refine ⟨⟨.opened, 1, 0⟩, ⟨decode_pack _ 1 0 (by decide) (by decide),
      hle ▸ hs.publish hpos, ?_, hwf'⟩, by simp, by simp, by simp [hp, Pc.counts], by simp [Shut]⟩
    exact lent_update (by simp) (fun q _ hq => by simpa [Lent] using h.lent q hq)
  | initPoison outcome hp =>
    have hle := ledger_update hp { c.sh with lifecycle := pack .poisoned 0 0 } (.done outcome)
      0 0 0 0 0 1 rfl rfl rfl
    have hpos : 0 < (ledger c).initializers := held_pos hp Nat.one_pos
    have hopened := (hs.initializing hpos).1
    have hnone := hs.handles hopened
    refine ⟨⟨.poisoned, 0, 0⟩, ⟨decode_pack _ 0 0 (by decide) (by decide),
      hle ▸ hs.initPoison hpos, ?_, hwf'⟩, ?_, fun _ => rfl, by simp [hp, Pc.counts],
      fun _ => ⟨Or.inr (Or.inr rfl), Nat.zero_le _⟩⟩
    · refine lent_update (by simp) (fun q _ hq => ?_)
      have := (h.lent q hq).2.1
      have := hs.attachments
      omega
    · intro hc
      have := hs.opened (Or.inr (Or.inr hc))
      omega
  | attach t ht hopen hmax hp =>
    obtain rfl := Except.ok.inj (hd.symm.trans ht)
    have hle := ledger_update hp { c.sh with
      lifecycle := c.sh.lifecycle + attachmentOne, attachments := c.sh.attachments + 1 }
      (.done .ok) 1 0 0 0 0 0 (by simp [Shared.pooled, Pc.heldAttachments]; omega) rfl rfl
    refine ⟨_, ⟨decode_add_attachment hd hmax, hle ▸ hs.attach hopen, ?_, hwf'⟩, by simp [hopen],
      by simp [hopen], fun _ => rfl, fun hsh => absurd hsh (not_shut_of_opened hopen)⟩
    exact lent_update (by simp) (fun q _ hq => absurd hopen (lent_ne_opened (h.lent q hq)))
  | enter t ht hopen hmax hp =>
    obtain rfl := Except.ok.inj (hd.symm.trans ht)
    have hle := ledger_update hp { c.sh with
      lifecycle := c.sh.lifecycle + activeOne, guards := c.sh.guards + 1 } (.done .ok)
      0 0 1 0 0 0 (by simp [Shared.pooled, Pc.heldAttachments]) rfl rfl
    refine ⟨_, ⟨decode_add_active hd hmax, hle ▸ hs.enter hopen, ?_, hwf'⟩, by simp [hopen],
      by simp [hopen], fun _ => rfl, fun hsh => absurd hsh (not_shut_of_opened hopen)⟩
    exact lent_update (by simp) (fun q _ hq => absurd hopen (lent_ne_opened (h.lent q hq)))
  | dropAttachment outcome hp =>
    have hle := ledger_update hp { c.sh with lifecycle := c.sh.lifecycle - attachmentOne }
      (.done outcome) 0 1 0 0 0 0 rfl rfl rfl
    have hpos : 0 < (ledger c).attachments := Nat.lt_add_left _ (held_pos hp Nat.one_pos)
    refine ⟨_, ⟨decode_sub_attachment hd (hs.attachments ▸ hpos), hle ▸ hs.dropAttachment hpos,
      ?_, hwf'⟩, ?_, id, fun _ => rfl, fun hsh => ⟨hsh, le_rfl⟩⟩
    · refine lent_update (by simp) (fun q hne hq => ?_)
      have := borrow_excludes h hne hq
      simp [hp, Pc.heldAttachments] at this
    · intro hc
      have := (hs.emptied hc).1
      omega
  | dropGuard hp =>
    have hle := ledger_update hp { c.sh with lifecycle := c.sh.lifecycle - activeOne }
      (.done .ok) 0 0 0 1 0 0 (by simp [Shared.pooled, Pc.heldAttachments]) rfl rfl
    have hpos : 0 < (ledger c).guards := Nat.lt_add_left _ (held_pos hp Nat.one_pos)
    refine ⟨_, ⟨decode_sub_active hd (hs.admissions ▸ hpos), hle ▸ hs.dropGuard hpos,
      ?_, hwf'⟩, ?_, id, fun _ => rfl, fun hsh => ⟨hsh, Nat.sub_le _ _⟩⟩
    · refine lent_update (by simp) (fun q hne hq => ?_)
      have := (h.lent q hq).2.2
      have := hs.admissions
      omega
    · intro hc
      have := (hs.emptied hc).2
      omega
  | rephase t phase _ _ ht hph hl hcount hsame =>
    obtain rfl := Except.ok.inj (hd.symm.trans ht)
    have hdec : decode sh.lifecycle = .ok { s with phase := phase } :=
      hl ▸ decode_withPhase hd phase
    rcases hph with ⟨hopen, rfl⟩ | ⟨hnp, hnc, rfl⟩
    · refine ⟨_, ⟨hdec, ledger_same hsame ▸ hs.drain hopen, ?_, hwf'⟩, by simp [hopen],
        by simp [hopen], fun hcnt => absurd hcnt hcount,
        fun hsh => absurd hsh (not_shut_of_opened hopen)⟩
      exact lent_update (fun hb => absurd hopen (lent_ne_opened (h.lent p (hsame.borrow hb))))
        (fun q _ hq => absurd hopen (lent_ne_opened (h.lent q hq)))
    · refine ⟨_, ⟨hdec, ledger_same hsame ▸ hs.poison hnc, ?_, hwf'⟩, fun hc => absurd hc hnc,
        fun _ => rfl, fun hcnt => absurd hcnt hcount, fun _ => ⟨Or.inr (Or.inr rfl), le_rfl⟩⟩
      exact lent_update (fun hb => ⟨Or.inr rfl, (h.lent p (hsame.borrow hb)).2⟩)
        (fun q _ hq => ⟨Or.inr rfl, (h.lent q hq).2⟩)
  | close hl hp =>
    obtain rfl := h.eq_of_word hl (decode_pack _ 1 0 (by decide) (by decide))
    have hle := ledger_update hp
      { c.sh with lifecycle := pack .closed 0 0, closed := c.sh.closed + 1 } (.done .ok)
      0 1 0 0 0 0 rfl rfl rfl
    refine ⟨⟨.closed, 0, 0⟩, ⟨decode_pack _ 0 0 (by decide) (by decide), hle ▸ hs.close, ?_,
      hwf'⟩, by simp, by simp, by simp [hp, Pc.counts],
      fun _ => ⟨Or.inr (Or.inl rfl), le_rfl⟩⟩
    refine lent_update (by simp) (fun q hne hq => ?_)
    have := borrow_excludes h hne hq
    simp [hp, Pc.heldAttachments] at this

end

variable [DecidableEq P] {m : Mapping} {c c' : Config P Shared Pc} {s : LifecycleSnapshot}

omit [DecidableEq P] in
theorem inv_init : Inv (machine m P).init ⟨.uninitialized, 0, 0⟩ := by
  have hl : ledger (machine m P).init = ⟨0, 0, 0, 0, 0⟩ := by
    ext <;> simp [ledger, liveAttachments, liveGuards, machine, Machine.init, Shared.pooled, tally,
      Pc.heldAttachments, Pc.heldGuards, Pc.initializers]
  refine ⟨decode_pack _ 0 0 (by decide) (by decide), ?_, ?_, fun _ => trivial⟩
  · rw [hl]
    constructor <;> simp
  · intro p hp
    cases hp

theorem inv_next (h : Inv c s) {p : P} {i : In} (hn : (machine m P).next c p i = some c') :
    ∃ s', Inv c' s' ∧ Advances (c.lo p) s s' := by
  obtain ⟨sh, pc, hs, rfl⟩ := Machine.next_eq_some.mp hn
  obtain ⟨hm, hwf⟩ := step_move (h.wellFormed p) hs
  exact inv_move h hm hwf

theorem inv_reach {Q : LifecycleSnapshot → Prop} (hQ : ∀ pc s s', Advances pc s s' → Q s → Q s')
    (h : Inv c s) (hq : Q s) (hr : (machine m P).Reach c c') : ∃ s', Inv c' s' ∧ Q s' := by
  induction hr with
  | start => exact ⟨s, h, hq⟩
  | step _ _ hn ih =>
    obtain ⟨t, ht, hqt⟩ := ih
    obtain ⟨t', ht', hadv⟩ := inv_next ht hn
    exact ⟨t', ht', hQ _ t t' hadv hqt⟩

theorem reachable_inv (hc : (machine m P).Reachable c) : ∃ s, Inv c s := by
  obtain ⟨s, hs, _⟩ := inv_reach (Q := fun _ => True) (fun _ _ _ _ _ => trivial) inv_init trivial hc
  exact ⟨s, hs⟩

theorem lent_reach (h : Inv c s) (hl : Lent s) (hr : (machine m P).Reach c c') :
    liveGuards c' = 0 := by
  have hshut : Shut s := hl.1.imp_right Or.inr
  obtain ⟨t, ht, _, hz⟩ := inv_reach (Q := fun t => Shut t ∧ t.admissions = 0)
    (fun _ _ _ hadv ht => ⟨(hadv.shut ht.1).1, by have := (hadv.shut ht.1).2; omega⟩) h
    ⟨hshut, hl.2.2⟩ hr
  exact ht.sound.admissions.symm.trans hz

theorem closed_reach (h : Inv c s) (hp : s.phase = .closed) (hr : (machine m P).Reach c c') :
    c'.sh.lifecycle = c.sh.lifecycle := by
  obtain ⟨t, ht, rfl⟩ := inv_reach (Q := fun t => t = s)
    (fun _ _ _ hadv ht => ht ▸ hadv.closed (ht ▸ hp)) h rfl hr
  exact decode_inj ht.decodes h.decodes

theorem poisoned_reach (h : Inv c s) (hp : s.phase = .poisoned) (hr : (machine m P).Reach c c') :
    ∃ t, decode c'.sh.lifecycle = .ok t ∧ t.phase = .poisoned := by
  obtain ⟨t, ht, hpt⟩ := inv_reach (Q := fun t => t.phase = .poisoned)
    (fun _ _ _ hadv => hadv.poisoned) h hp hr
  exact ⟨t, ht.decodes, hpt⟩

theorem mapping_lifecycle_sound (m : Mapping) (c : Config P Shared Pc)
    (hc : (machine m P).Reachable c) :
    ∃ s, decode c.sh.lifecycle = .ok s ∧
      s.attachments = liveAttachments c ∧ s.admissions = liveGuards c ∧
      c.sh.opened ≤ 1 ∧ c.sh.closed ≤ 1 ∧
      (∀ p i c', (machine m P).next c p i = some c' → (c.lo p).counts →
        ∃ s', decode c'.sh.lifecycle = .ok s' ∧ s'.phase = s.phase) ∧
      (∀ p, c.lo p = .payload → ∀ c', (machine m P).Reach c c' → liveGuards c' = 0) ∧
      (s.phase = .closed → liveAttachments c = 0 ∧ liveGuards c = 0 ∧
        ∀ c', (machine m P).Reach c c' → c'.sh.lifecycle = c.sh.lifecycle) ∧
      (s.phase = .poisoned → ∀ c', (machine m P).Reach c c' →
        ∃ s', decode c'.sh.lifecycle = .ok s' ∧ s'.phase = .poisoned) := by
  obtain ⟨s, h⟩ := reachable_inv hc
  have hclosed : c.sh.closed ≤ 1 := by
    have hcl : c.sh.closed = if s.phase = .closed then 1 else 0 := h.sound.closed
    split at hcl <;> omega
  refine ⟨s, h.decodes, h.sound.attachments, h.sound.admissions, h.sound.opened_le, hclosed,
    ?_, fun p hp _ hr => lent_reach h (h.lent p hp) hr,
    fun hp => ⟨(h.sound.emptied hp).1, (h.sound.emptied hp).2, fun _ hr => closed_reach h hp hr⟩,
    fun hp _ hr => poisoned_reach h hp hr⟩
  intro p i c' hn hcount
  obtain ⟨t, ht, hadv⟩ := inv_next h hn
  exact ⟨t, ht.decodes, hadv.counts hcount⟩

theorem mapping_lifecycle_sound_with_payload :
    ∃ c, (machine ⟨4096, 4096⟩ (Fin 2)).Reachable c ∧ c.lo 0 = .payload ∧
      ∀ c', (machine ⟨4096, 4096⟩ (Fin 2)).Reach c c' → liveGuards c' = 0 := by
  have hrun : ((machine ⟨4096, 4096⟩ (Fin 2)).run (machine ⟨4096, 4096⟩ (Fin 2)).init
      [(0, .call (.tryInitializeInPlace ⟨7, 64, 64⟩)), (0, .go), (0, .go), (0, .callback false),
        (0, .go), (0, .go), (0, .call .beginDrain), (0, .go), (0, .go), (0, .go),
        (0, .call .tryPayloadMut), (0, .go)]).map (fun c => c.lo 0) = some .payload := by
    decide +kernel
  obtain ⟨c, hc, hp⟩ := Machine.exists_reachable hrun
  obtain ⟨_, _, _, _, _, _, _, hborrow, _⟩ := mapping_lifecycle_sound ⟨4096, 4096⟩ c hc
  exact ⟨c, hc, hp, hborrow 0 hp⟩

end DevHermit.Shmem.TypedMapping
