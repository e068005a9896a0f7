import DevHermit.Ledger.Publisher

namespace DevHermit.Ledger.Publisher

open Lib List Function

section

variable {E I : Type} [DecidableEq E] [DecidableEq I] {id : E → I}

theorem mergeEvent_extends (body : List E) (event : E) : body <+: mergeEvent id body event := by
  unfold mergeEvent
  split
  · exact prefix_rfl
  · exact prefix_append body [event]

theorem mergeShard_extends (remote events : List E) : remote <+: mergeShard id remote events := by
  induction events generalizing remote with
  | nil => exact prefix_rfl
  | cons e events ih => exact (mergeEvent_extends remote e).trans (ih (mergeEvent id remote e))

def Distinct (id : E → I) (remote events : List E) : Prop :=
  ∀ e ∈ events, ∀ e' ∈ remote ++ events, id e = id e' → e = e'

variable {events : List E}

omit [DecidableEq E] [DecidableEq I] in
theorem Distinct.mono {remote view : List E} (h : Distinct id remote events)
    (hview : ∀ e ∈ view, e ∈ remote) : Distinct id view events := by
  intro e₁ he₁ e₂ he₂ heq
  refine h e₁ he₁ e₂ (mem_append.mpr ?_) heq
  exact (mem_append.mp he₂).imp_left (hview e₂)

theorem mem_mergeEvent {body : List E} {event : E} (h : Distinct id body (event :: events)) :
    event ∈ mergeEvent id body event := by
  unfold mergeEvent
  split_ifs with hseen
  · obtain hseen | hseen := hseen
    · exact hseen
    · obtain ⟨e', he', heq⟩ := mem_map.mp hseen
      rw [h event mem_cons_self e' (mem_append_left _ he') heq.symm]
      exact he'
  · exact mem_append_right body mem_cons_self

theorem mem_mergeShard {remote : List E} (h : Distinct id remote events) :
    ∀ e ∈ events, e ∈ mergeShard id remote events := by
  induction events generalizing remote with
  | nil => exact fun e he => absurd he not_mem_nil
  | cons event events ih =>
    intro e he
    obtain rfl | he := mem_cons.mp he
    · exact (mergeShard_extends (mergeEvent id remote e) events).subset (mem_mergeEvent h)
    · refine ih ?_ e he
      intro e₁ he₁ e₂ he₂ heq
      refine h e₁ (mem_cons_of_mem event he₁) e₂ (mem_append.mpr ?_) heq
      obtain he₂ | he₂ := mem_append.mp he₂
      · unfold mergeEvent at he₂
        split at he₂
        · exact .inl he₂
        · obtain he₂ | he₂ := mem_append.mp he₂
          · exact .inl he₂
          · exact .inr (mem_cons.mpr (.inl (mem_singleton.mp he₂)))
      · exact .inr (mem_cons_of_mem event he₂)

end

section

variable {K E : Type}

def Safe (sh : Shared K E) (k : K) (e : E) : Prop :=
  (∃ inode, sh.dir k = some inode ∧ e ∈ sh.content inode) ∨ e ∈ sh.remote k

structure Grows (sh sh' : Shared K E) : Prop where
  content : ∀ inode, inode < sh.fresh → ∀ e ∈ sh.content inode, e ∈ sh'.content inode
  remote : ∀ k, ∀ e ∈ sh.remote k, e ∈ sh'.remote k
  head : sh.head ≤ sh'.head
  same : sh'.head = sh.head → sh'.remote = sh.remote

variable {k : K}

theorem Safe.grow {sh sh' : Shared K E} (hgrows : Grows sh sh') {e : E}
    (hdir : ∀ inode, sh.dir k = some inode → sh'.dir k = some inode)
    (hfresh : ∀ k inode, sh.dir k = some inode → inode < sh.fresh) (h : Safe sh k e) :
    Safe sh' k e := by
  obtain ⟨inode, hd, he⟩ | he := h
  · exact .inl ⟨inode, hdir inode hd, hgrows.content inode (hfresh k inode hd) e he⟩
  · exact .inr (hgrows.remote k e he)

theorem view_subset (sh : Shared K E) (stale : Option (K → Nat)) (k : K) :
    ∀ e ∈ sh.view stale k, e ∈ sh.remote k := by
  cases stale with
  | none => exact fun e he => he
  | some seen => exact fun e he => mem_of_mem_take he

theorem lookup_of_mem [DecidableEq K] {pending : Pending K E}
    (hnodup : (pending.map Prod.fst).Nodup) {events : List E} (h : (k, events) ∈ pending) :
    pending.lookup k = some events := by
  induction pending with
  | nil => cases h
  | cons shard pending ih =>
    obtain ⟨hnot, hnodup⟩ := nodup_cons.mp hnodup
    obtain rfl | h := mem_cons.mp h
    · exact lookup_cons_self
    · have hne : (k == shard.1) = false := by
        rw [beq_eq_false_iff_ne]
        rintro rfl
        exact hnot (mem_map.mpr ⟨_, h, rfl⟩)
      rw [lookup_cons, hne]
      exact ih hnodup h

end

variable {P K E I : Type} {id : E → I}

def Carried (pending : Pending K E) (shards : K → List E) : Prop :=
  ∀ k events, (k, events) ∈ pending → ∀ e ∈ events, e ∈ shards k

def Local.Ok (sh : Shared K E) : Local K E → Prop
  | .idle | .opening _ _ => True
  | .appending k inode _ sent => sh.dir k = some inode ∧ ∀ e ∈ sent, e ∈ sh.content inode
  | .reading todo pending => (pending.map Prod.fst ++ todo).Nodup
  | .fetching pending _ => (pending.map Prod.fst).Nodup
  | .pushing pending base commit _ => (pending.map Prod.fst).Nodup ∧ Carried pending commit ∧
      ∀ h, base = some h → h ≤ sh.head ∧ (h = sh.head → ∀ k, sh.remote k <+: commit k)
  | .confirming pending commit _ => (pending.map Prod.fst).Nodup ∧ Carried pending commit
  | .draining todo => Carried todo sh.remote

structure Kept (c : Config P (Shared K E) (Local K E)) : Prop where
  fresh : ∀ k inode, c.sh.dir k = some inode → inode < c.sh.fresh
  names : c.sh.names.Nodup
  returned : ∀ k e, (k, e) ∈ c.sh.returned → Safe c.sh k e
  ok : ∀ p, (c.lo p).Ok c.sh

def Local.file : Local K E → Option (K × Nat)
  | .appending k inode _ _ => some (k, inode)
  | _ => none

def Local.merging : Local K E → Pending K E
  | .fetching pending _ => pending
  | _ => []

def Local.unlinking : Local K E → Option (K × List E)
  | .draining (shard :: _) => some shard
  | _ => none

def Local.publishing : Local K E → Bool
  | .idle | .opening _ _ | .appending _ _ _ _ => false
  | _ => true

def Undisturbed {C : Type} (clone : P → C) (c : Config P (Shared K E) (Local K E)) :
    P × Input K E → Prop
  | (p, .publish) => ∀ q, clone q = clone p → (c.lo q).publishing = false
  | (p, .fetch _ failing) => ∀ shard ∈ (c.lo p).merging, failing shard.1 = false
  | _ => True

def Calm {C : Type} (id : E → I) (clone : P → C) (c : Config P (Shared K E) (Local K E))
    (a : P × Input K E) : Prop :=
  Undisturbed clone c a ∧ match a with
    | (p, .fetch _ _) => ∀ shard ∈ (c.lo p).merging, Distinct id (c.sh.remote shard.1) shard.2
    | (p, .go) => ∀ shard ∈ (c.lo p).unlinking, ∀ inode ∈ c.sh.dir shard.1,
      (∀ e ∈ c.sh.content inode, e ∈ shard.2) ∧ ∀ q, (c.lo q).file ≠ some (shard.1, inode)
    | _ => True

variable {l : Local K E} {sh : Shared K E}

theorem Grows.ok {sh' : Shared K E} (h : Grows sh sh')
    (hfresh : ∀ k inode, sh.dir k = some inode → inode < sh.fresh)
    (hdir : ∀ k inode, l.file = some (k, inode) → sh.dir k = some inode → sh'.dir k = some inode)
    (hl : l.Ok sh) : l.Ok sh' := by
  cases l with
  | idle | opening => trivial
  | appending k inode todo sent =>
    exact ⟨hdir k inode rfl hl.1, fun e he => h.content inode (hfresh k inode hl.1) e (hl.2 e he)⟩
  | pushing pending base view left =>
    refine ⟨hl.1, hl.2.1, fun n hbase => ?_⟩
    obtain ⟨hle, hsame⟩ := hl.2.2 n hbase
    have hhead := h.head
    refine ⟨hle.trans hhead, fun heq => ?_⟩
    have hback : sh'.head = sh.head := by omega
    rw [h.same hback]
    exact hsame (heq.trans hback)
  | draining todo => exact fun k events hmem e he => h.remote k e (hl k events hmem e he)
  | _ => exact hl

variable [DecidableEq P] {c : Config P (Shared K E) (Local K E)} {sh' : Shared K E} {p : P}
  {l' : Local K E}

theorem Kept.assemble (h : Kept c) (hgrows : Grows c.sh sh')
    (hdir : ∀ q k inode, q ≠ p → (c.lo q).file = some (k, inode) → c.sh.dir k = some inode →
      sh'.dir k = some inode)
    (hfresh : ∀ k inode, sh'.dir k = some inode → inode < sh'.fresh) (hnames : sh'.names.Nodup)
    (hreturned : ∀ k e, (k, e) ∈ sh'.returned → Safe sh' k e) (hl : l'.Ok sh') :
    Kept (⟨sh', update c.lo p l'⟩ : Config P (Shared K E) (Local K E)) where
  fresh := hfresh
  names := hnames
  returned := hreturned
  ok := by
    intro q
    by_cases hq : q = p
    · subst hq
      exact (congrArg (Local.Ok sh') (update_self q l' c.lo)).mpr hl
    · exact (congrArg (Local.Ok sh') (update_of_ne hq l' c.lo)).mpr
        (hgrows.ok h.fresh (fun k inode => hdir q k inode hq) (h.ok q))

theorem Kept.move (h : Kept c) (hl : l'.Ok c.sh) :
    Kept (⟨c.sh, update c.lo p l'⟩ : Config P (Shared K E) (Local K E)) :=
  h.assemble ⟨fun _ _ _ he => he, fun _ _ he => he, Nat.le_refl _,
    fun _ => rfl⟩ (fun _ _ _ _ _ hd => hd) h.fresh h.names h.returned hl

variable {events : List E} {k : K}

variable {inode : Nat} {sent : List E}

theorem Kept.append (h : Kept c) {e : E} {todo : List E}
    (hok : (Local.appending k inode (e :: todo) sent).Ok c.sh) : Kept (⟨{ c.sh with
        content := update c.sh.content inode (c.sh.content inode ++ [e]) },
      update c.lo p (.appending k inode todo (sent ++ [e]))⟩ :
      Config P (Shared K E) (Local K E)) := by
  have hself := update_self inode (c.sh.content inode ++ [e]) c.sh.content
  have hgrows : Grows c.sh { c.sh with
      content := update c.sh.content inode (c.sh.content inode ++ [e]) } := by
    refine ⟨fun other _ e' he' => ?_, fun _ _ he => he, Nat.le_refl _, fun _ => rfl⟩
    by_cases heq : other = inode
    · subst heq
      exact (congrArg (e' ∈ ·) hself).mpr (mem_append_left _ he')
    · exact (congrArg (e' ∈ ·) (update_of_ne heq _ _)).mpr he'
  refine h.assemble hgrows (fun _ _ _ _ _ hd => hd) h.fresh h.names ?_ ⟨hok.1, ?_⟩
  · intro k' e' hmem
    exact (h.returned k' e' hmem).grow hgrows (fun _ hd => hd) h.fresh
  · intro e' he'
    refine (congrArg (e' ∈ ·) hself).mpr ?_
    obtain he' | he' := mem_append.mp he'
    · exact mem_append_left _ (hok.2 e' he')
    · exact mem_append_right _ he'

theorem Kept.return (h : Kept c) (hok : (Local.appending k inode [] sent).Ok c.sh) :
    Kept (⟨{ c.sh with returned := c.sh.returned ++ sent.map fun e => (k, e) },
      update c.lo p .idle⟩ : Config P (Shared K E) (Local K E)) := by
  refine h.assemble ⟨fun _ _ _ he => he, fun _ _ he => he, Nat.le_refl _,
    fun _ => rfl⟩ (fun _ _ _ _ _ hd => hd) h.fresh h.names ?_ trivial
  intro k' e hmem
  obtain hmem | hmem := mem_append.mp hmem
  · exact h.returned k' e hmem
  · obtain ⟨e', he', heq⟩ := mem_map.mp hmem
    cases heq
    exact .inl ⟨inode, hok.1, hok.2 e he'⟩

variable {pending : Pending K E} {view : K → List E} {failing : K → Bool}

theorem Kept.push (h : Kept c) {left : Nat} {commit : K → List E}
    (hok : (Local.pushing pending (some c.sh.head) commit left).Ok c.sh) :
    Kept (⟨{ c.sh with remote := commit, head := c.sh.head + 1 },
      update c.lo p (.confirming pending commit left)⟩ : Config P (Shared K E) (Local K E)) := by
  obtain ⟨hnodup, hcarried, hbase⟩ := hok
  have hgrows : Grows c.sh { c.sh with remote := commit, head := c.sh.head + 1 } := by
    refine ⟨fun _ _ _ he => he, fun k e he => ?_, Nat.le_succ _, fun heq => ?_⟩
    · exact ((hbase _ rfl).2 rfl k).subset he
    · exact absurd heq (Nat.succ_ne_self _)
  refine h.assemble hgrows (fun _ _ _ _ _ hd => hd) h.fresh h.names ?_ ⟨hnodup, hcarried⟩
  intro k e hmem
  exact (h.returned k e hmem).grow hgrows (fun _ hd => hd) h.fresh

variable [DecidableEq K]

theorem Kept.opening (h : Kept c) :
    Kept (⟨(c.sh.open k).1, update c.lo p (.appending k (c.sh.open k).2 events [])⟩ :
      Config P (Shared K E) (Local K E)) := by
  cases hd : c.sh.dir k with
  | some inode =>
    simp only [Shared.open, hd]
    exact h.move ⟨hd, fun e he => absurd he not_mem_nil⟩
  | none =>
    simp only [Shared.open, hd]
    have hkeep : ∀ k' inode, c.sh.dir k' = some inode →
        update c.sh.dir k (some c.sh.fresh) k' = some inode := by
      intro k' inode hk'
      refine (update_of_ne ?_ _ _).trans hk'
      rintro rfl
      cases hd.symm.trans hk'
    have hgrows : Grows c.sh { c.sh with
        dir := update c.sh.dir k (some c.sh.fresh)
        names := if k ∈ c.sh.names then c.sh.names else k :: c.sh.names
        content := update c.sh.content c.sh.fresh [], fresh := c.sh.fresh + 1 } := by
      refine ⟨fun inode hlt e he => ?_, fun _ _ he => he, Nat.le_refl _, fun _ => rfl⟩
      exact (congrArg (e ∈ ·) (update_of_ne hlt.ne _ _)).mpr he
    refine h.assemble hgrows (fun _ k' inode _ _ hk' => hkeep k' inode hk') ?_ ?_ ?_ ?_
    · intro k' inode hk'
      by_cases he : k' = k
      · subst he
        have hself := (update_self k' (some c.sh.fresh) c.sh.dir).symm.trans hk'
        rw [← Option.some.inj hself]
        exact Nat.lt_succ_self _
      · exact (h.fresh k' inode ((update_of_ne he _ _).symm.trans hk')).trans (Nat.lt_succ_self _)
    · by_cases hmem : k ∈ c.sh.names
      · simpa only [hmem, if_true] using h.names
      · simpa only [hmem, if_false] using h.names.cons hmem
    · intro k' e hmem
      exact (h.returned k' e hmem).grow hgrows (hkeep k') h.fresh
    · exact ⟨update_self _ _ _, fun e he => absurd he not_mem_nil⟩

theorem Kept.unlink (h : Kept c) {todo : Pending K E}
    (hok : (Local.draining ((k, events) :: todo)).Ok c.sh)
    (hcalm : ∀ inode ∈ c.sh.dir k, (∀ e ∈ c.sh.content inode, e ∈ events) ∧
      ∀ q, (c.lo q).file ≠ some (k, inode)) : Kept (⟨{ c.sh with dir := update c.sh.dir k none },
      update c.lo p (.draining todo)⟩ : Config P (Shared K E) (Local K E)) := by
  refine h.assemble ⟨fun _ _ _ he => he, fun _ _ he => he, Nat.le_refl _,
    fun _ => rfl⟩ ?_ ?_ h.names ?_ fun k' events' hmem => hok k' events' (mem_cons_of_mem _ hmem)
  · intro q k' inode _ hfile hd
    refine (update_of_ne ?_ _ _).trans hd
    rintro rfl
    exact (hcalm inode hd).2 q hfile
  · intro k' inode hd
    by_cases he : k' = k
    · subst he
      cases (update_self k' none c.sh.dir).symm.trans hd
    · exact h.fresh k' inode ((update_of_ne he _ _).symm.trans hd)
  · intro k' e hmem
    obtain ⟨inode, hd, he⟩ | he := h.returned k' e hmem
    · by_cases hk : k' = k
      · subst hk
        exact .inr (hok k' events mem_cons_self e ((hcalm inode hd).1 e he))
      · exact .inl ⟨inode, (update_of_ne hk _ _).trans hd, he⟩
    · exact .inr he

theorem Kept.extend (h : Kept c) (k : K) (lines : List E) : Kept (⟨{ c.sh with
        remote := update c.sh.remote k (c.sh.remote k ++ lines)
        head := c.sh.head + 1 }, update c.lo p .idle⟩ : Config P (Shared K E) (Local K E)) := by
  have hgrows : Grows c.sh { c.sh with
      remote := update c.sh.remote k (c.sh.remote k ++ lines)
      head := c.sh.head + 1 } := by
    refine ⟨fun _ _ _ he => he, fun k' e he => ?_, Nat.le_succ _, fun heq => ?_⟩
    · by_cases hk : k' = k
      · subst hk
        exact (congrArg (e ∈ ·) (update_self k' _ c.sh.remote)).mpr (mem_append_left _ he)
      · exact (congrArg (e ∈ ·) (update_of_ne hk _ _)).mpr he
    · exact absurd heq (Nat.succ_ne_self _)
  refine h.assemble hgrows (fun _ _ _ _ _ hd => hd) h.fresh h.names ?_ trivial
  intro k' e hmem
  exact (h.returned k' e hmem).grow hgrows (fun _ hd => hd) h.fresh

theorem Kept.advance {valid : K → E → Bool} (h : Kept c)
    (hunlink : ∀ shard ∈ (c.lo p).unlinking, ∀ inode ∈ c.sh.dir shard.1,
      (∀ e ∈ c.sh.content inode, e ∈ shard.2) ∧ ∀ q, (c.lo q).file ≠ some (shard.1, inode))
    (hs : Publisher.advance valid c.sh (c.lo p) = some (sh', l')) :
    Kept (⟨sh', update c.lo p l'⟩ : Config P (Shared K E) (Local K E)) := by
  have hok := h.ok p
  generalize c.lo p = l at hs hok hunlink
  cases l with
  | opening k events =>
    cases hs
    exact h.opening
  | appending k inode todo sent =>
    cases todo with
    | nil =>
      cases hs
      exact h.return hok
    | cons e todo =>
      cases hs
      exact h.append hok
  | reading todo pending =>
    cases todo with
    | nil =>
      simp only [Publisher.advance] at hs
      split at hs
      · cases hs
        have hnodup : (pending.map Prod.fst ++ []).Nodup := hok
        rw [append_nil] at hnodup
        exact h.move hnodup
      · cases hs
        exact h.move trivial
    | cons k todo =>
      simp only [Publisher.advance] at hs
      split at hs
      case h_1 =>
        cases hs
        exact h.move trivial
      case h_2 inode _ =>
        cases hs
        refine h.move ?_
        have hnodup : (pending.map Prod.fst ++ k :: todo).Nodup := hok
        rw [Local.Ok, map_append, append_assoc]
        exact hnodup
  | draining todo =>
    cases todo with
    | nil =>
      cases hs
      exact h.move trivial
    | cons shard todo =>
      obtain ⟨k, events⟩ := shard
      cases hs
      exact h.unlink hok (hunlink (k, events) rfl)
  | _ => cases hs

variable [DecidableEq E] [DecidableEq I]

theorem commitOf_of_lookup (hshown : ∀ shard ∈ pending, failing shard.1 = false)
    (h : pending.lookup k = some events) :
    commitOf id failing pending view k = mergeShard id (view k) events := by
  have hmem : (k, events) ∈ pending := by
    obtain ⟨before, after, rfl, -⟩ := lookup_eq_some_iff.mp h
    exact mem_append_right before mem_cons_self
  have hk := hshown (k, events) hmem
  rw [commitOf, h]
  simp only [shown, hk, Bool.false_eq_true, if_false, ite_eq_right_iff]
  exact Eq.symm

theorem commitOf_extends (hshown : ∀ shard ∈ pending, failing shard.1 = false) (k : K) :
    view k <+: commitOf id failing pending view k := by
  cases h : pending.lookup k with
  | some events =>
    rw [commitOf_of_lookup hshown h]
    exact mergeShard_extends _ _
  | none =>
    rw [commitOf, h]

theorem fetch_ok {stale : Option (K → Nat)} (hok : l.Ok sh)
    (hshown : ∀ shard ∈ l.merging, failing shard.1 = false)
    (hdistinct : ∀ shard ∈ l.merging, Distinct id (sh.remote shard.1) shard.2)
    (hs : fetch id sh stale failing l = some (sh', l')) : sh' = sh ∧ l'.Ok sh := by
  cases l with
  | fetching pending left =>
    cases left with
    | zero =>
      cases hs
      exact ⟨rfl, trivial⟩
    | succ left =>
      replace hshown : ∀ shard ∈ pending, failing shard.1 = false := hshown
      have hmerged : ∀ k events, (k, events) ∈ pending → ∀ e ∈ events,
          e ∈ mergeShard id (sh.view stale k) events := fun k _ hmem =>
        mem_mergeShard ((hdistinct _ hmem).mono (view_subset sh stale k))
      simp only [fetch] at hs
      split at hs
      case isTrue hsame =>
        cases hs
        refine ⟨rfl, fun k events hmem e he => view_subset _ stale k e ?_⟩
        have heq := of_decide_eq_true (all_eq_true.mp hsame (k, events) hmem)
        simp only [shown, hshown _ hmem, Bool.false_eq_true, if_false] at heq
        exact heq ▸ hmerged k events hmem e he
      case isFalse =>
        cases hs
        refine ⟨rfl, hok, fun k events hmem e he => ?_, fun n hbase => ?_⟩
        · rw [commitOf_of_lookup hshown (lookup_of_mem hok hmem)]
          exact hmerged k events hmem e he
        · cases stale with
          | some seen => cases hbase
          | none =>
            cases hbase
            exact ⟨Nat.le_refl _, fun _ => commitOf_extends hshown⟩
  | confirming pending commit left =>
    simp only [fetch] at hs
    split_ifs at hs with hall
    · cases hs
      refine ⟨rfl, fun k events hmem e he => ?_⟩
      have hpre := isPrefixOf_iff_prefix.mp (all_eq_true.mp hall (k, events) hmem)
      exact view_subset _ stale k e (hpre.subset (hok.2 k events hmem e he))
    · cases hs
      exact ⟨rfl, hok.1⟩
  | _ => cases hs

omit [DecidableEq P] in
theorem kept_init (valid : K → E → Bool) (remote : K → List E) :
    Kept (publisher P id valid remote).init where
  fresh := by
    intro k inode hd
    cases hd
  names := nodup_nil
  returned := by
    intro k e hmem
    cases hmem
  ok := fun _ => trivial

variable {C : Type} {clone : P → C}

theorem kept_preserved (valid : K → E → Bool) (remote : K → List E) :
    (publisher P id valid remote).PreservesWhen (Calm id clone) Kept := by
  intro c p i sh l h hcalm hs
  simp only [publisher] at hs
  cases i with
  | spool k events =>
    simp only at hs
    split at hs
    · simp only [Option.ite_none_left_eq_some] at hs
      obtain ⟨-, hs⟩ := hs
      cases hs
      exact h.move trivial
    · cases hs
  | publish =>
    simp only at hs
    split at hs
    · cases hs
      exact h.move (h.names.filter _)
    · cases hs
  | extend k lines =>
    simp only at hs
    split at hs
    · cases hs
      exact h.extend k lines
    · cases hs
  | go => exact h.advance hcalm.2 hs
  | fetch stale failing =>
    obtain ⟨rfl, hl⟩ := fetch_ok (h.ok p) hcalm.1 hcalm.2 hs
    exact h.move hl
  | push accepted =>
    have hok := h.ok p
    generalize c.lo p = l₀ at hs hok
    cases l₀ with
    | pushing pending base commit left =>
      simp only [Publisher.push] at hs
      split at hs
      · simp only [Option.ite_none_right_eq_some] at hs
        obtain ⟨hbase, hs⟩ := hs
        cases hs
        rw [hbase] at hok
        exact h.push hok
      · cases hs
        exact h.move hok.1
    | _ => cases hs
  | die =>
    cases hs
    exact h.move trivial

@[grind]
def Local.Based (sh : Shared K E) : Local K E → Prop
  | .pushing _ base commit _ =>
    ∀ h, base = some h → h ≤ sh.head ∧ (h = sh.head → ∀ k, sh.remote k <+: commit k)
  | _ => True

structure Extends (sh sh' : Shared K E) : Prop where
  head : sh.head ≤ sh'.head
  same : sh'.head = sh.head → sh'.remote = sh.remote
  remote : ∀ k, sh.remote k <+: sh'.remote k

omit [DecidableEq K] [DecidableEq E] in
@[grind ←]
theorem Extends.of_eq (hhead : sh'.head = sh.head) (hremote : sh'.remote = sh.remote) :
    Extends sh sh' := ⟨hhead.ge, fun _ => hremote, fun _ => hremote ▸ prefix_rfl⟩

omit [DecidableEq K] [DecidableEq E] in
theorem Extends.based (h : Extends sh sh') (hl : l.Based sh) : l.Based sh' := by
  obtain ⟨hhead, hsame, -⟩ := h
  cases l with
  | pushing => grind
  | _ => trivial

omit [DecidableEq P] in
theorem step_extends {valid : K → E → Bool} {remote : K → List E} {i : Input K E}
    (hok : ∀ stale failing, i = .fetch stale failing →
      ∀ shard ∈ l.merging, failing shard.1 = false)
    (hl : l.Based sh) (h : (publisher P id valid remote).step p sh l i = some (sh', l')) :
    Extends sh sh' ∧ l'.Based sh' := by
  cases i with
  | push accepted =>
    simp only [publisher, push] at h
    split at h
    · split at h
      · obtain ⟨hbase, h⟩ := Option.ite_none_right_eq_some.mp h
        cases h
        exact ⟨⟨Nat.le_succ _, by simp, (hl _ hbase).2 rfl⟩, trivial⟩
      · grind
    · cases h
  | fetch stale failing =>
    simp only [publisher, fetch] at h
    split at h
    · grind
    case h_2 pending left =>
      have hext : ∀ k, sh.view stale k <+: commitOf id failing pending (sh.view stale) k :=
        commitOf_extends (hok stale failing rfl)
      split at h
      · grind
      · cases h
        refine ⟨.of_eq rfl rfl, fun n hbase => ?_⟩
        cases stale with
        | some seen => cases hbase
        | none =>
          cases hbase
          exact ⟨Nat.le_refl _, fun _ => hext⟩
    · grind
    · cases h
  | extend k lines =>
    simp only [publisher] at h
    split at h
    · cases h
      refine ⟨⟨Nat.le_succ _, by simp, fun k' => ?_⟩, trivial⟩
      obtain rfl | hk := eq_or_ne k' k
      · simp
      · simp [update_of_ne hk]
    · cases h
  | go =>
    simp only [publisher, advance] at h
    split at h <;> grind [Shared.open]
  | _ => grind [publisher]

def Grown (base : K → List E) (c : Config P (Shared K E) (Local K E)) : Prop :=
  (∀ p, (c.lo p).Based c.sh) ∧ ∀ k, base k <+: c.sh.remote k

theorem grown_preserved (valid : K → E → Bool) (remote base : K → List E) :
    (publisher P id valid remote).PreservesWhen (Undisturbed clone) (Grown base) := by
  intro c p i sh l h hok hs
  obtain ⟨hext, hl⟩ := step_extends (by rintro _ _ rfl; exact hok) (h.1 p) hs
  refine ⟨fun q => ?_, fun k => (h.2 k).trans (hext.remote k)⟩
  obtain rfl | hq := eq_or_ne q p
  · simpa only [update_self] using hl
  · simpa only [update_of_ne hq] using hext.based (h.1 q)

abbrev Solo := Config (Fin 2) (Shared Unit Nat) (Local Unit Nat)

def anyEvent (_ : Unit) (_ : Nat) : Bool := true

def emptyBranch (_ : Unit) : List Nat := []

def ownClone (p : Fin 2) : Fin 2 := p

instance (c : Solo) : (a : Fin 2 × Input Unit Nat) →
    Decidable (Calm (fun e : Nat => e) ownClone c a)
  | (_, .spool _ _) | (_, .extend _ _) | (_, .push _) | (_, .die) =>
    inferInstanceAs (Decidable (True ∧ True))
  | (p, .publish) => inferInstanceAs (Decidable
      ((∀ q, ownClone q = ownClone p → (c.lo q).publishing = false) ∧ True))
  | (p, .fetch _ failing) => inferInstanceAs (Decidable
      ((∀ shard ∈ (c.lo p).merging, failing shard.1 = false) ∧ ∀ shard ∈ (c.lo p).merging,
        ∀ e ∈ shard.2, ∀ e' ∈ c.sh.remote shard.1 ++ shard.2, e = e' → e = e'))
  | (p, .go) => inferInstanceAs (Decidable (True ∧
      ∀ shard ∈ (c.lo p).unlinking, ∀ inode ∈ c.sh.dir shard.1,
        (∀ e ∈ c.sh.content inode, e ∈ shard.2) ∧ ∀ q, (c.lo q).file ≠ some (shard.1, inode)))

def producer : Fin 2 := 0

def sender : Fin 2 := 1

def spoolRun (e : Nat) : List (Fin 2 × Input Unit Nat) :=
  [(producer, .spool () [e]), (producer, .go), (producer, .go), (producer, .go)]

def fetchAll : Input Unit Nat := .fetch none fun _ => false

def publishRun : List (Fin 2 × Input Unit Nat) :=
  [(sender, .publish), (sender, .go), (sender, .go), (sender, fetchAll), (sender, .push true),
    (sender, fetchAll)]

def spoolView (c : Solo) : List (Unit × Nat) × Option Nat × List Nat :=
  (c.sh.returned, c.sh.dir (), c.sh.remote ())

end DevHermit.Ledger.Publisher
