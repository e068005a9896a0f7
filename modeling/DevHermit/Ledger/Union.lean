import DevHermit.Ledger.Events

namespace DevHermit.Ledger

open Lib List

def Consistent (events : List Event) : Prop :=
  ∀ e ∈ events, ∀ f ∈ events, eventId e = eventId f → canonical e = canonical f

def firstWith (id : String) (events : List Event) : Option Event :=
  events.find? fun e => eventId e = id

structure IsUnion (events out : List Event) : Prop where
  increasing : out.Pairwise fun e f => eventKey e < eventKey f
  distinct : (out.map eventId).Nodup
  mem : ∀ e, e ∈ out ↔ firstWith (eventId e) events = some e

theorem firstWith_cons (id : String) (e : Event) (rest : List Event) :
    firstWith id (e :: rest) = if eventId e = id then some e else firstWith id rest := by
  rw [firstWith, List.find?_cons]
  by_cases h : eventId e = id
  · simp only [h, decide_true, if_true]
  · simp only [h, decide_false, if_false, firstWith]

theorem firstWith_append (id : String) (es fs : List Event) :
    firstWith id (es ++ fs) = (firstWith id es).or (firstWith id fs) :=
  List.find?_append

variable {e : Event} {events : List Event}

theorem firstWith_some {id : String} (h : firstWith id events = some e) :
    e ∈ events ∧ eventId e = id := by
  have hid := List.find?_some h
  exact ⟨List.mem_of_find?_eq_some h, of_decide_eq_true hid⟩

theorem exists_firstWith (h : e ∈ events) : ∃ f, firstWith (eventId e) events = some f :=
  Option.isSome_iff_exists.mp (List.find?_isSome.mpr ⟨e, h, decide_eq_true rfl⟩)

variable {out : List Event}

theorem firstWith_of_distinct (hnd : (out.map eventId).Nodup) (he : e ∈ out) :
    firstWith (eventId e) out = some e := by
  obtain ⟨f, hf⟩ := exists_firstWith he
  obtain ⟨hmem, hid⟩ := firstWith_some hf
  rw [hf, inj_on_of_nodup_map hnd hmem he hid]

theorem consistent_cons {rest : List Event} : Consistent (e :: rest) ↔
      Consistent rest ∧ ∀ f ∈ rest, eventId f = eventId e → canonical e = canonical f := by
  constructor
  · intro hall
    refine ⟨fun f hf g hg => hall f (.tail e hf) g (.tail e hg), fun f hf hid => ?_⟩
    exact hall e mem_cons_self f (.tail e hf) hid.symm
  · rintro ⟨hrest, hhead⟩ f hf g hg hid
    rcases mem_cons.mp hf with rfl | hf'
    · rcases mem_cons.mp hg with rfl | hg'
      · rfl
      · exact hhead g hg' hid.symm
    · rcases mem_cons.mp hg with rfl | hg'
      · exact (hhead f hf' hid).symm
      · exact hrest f hf' g hg' hid

theorem collect_isOk_iff (byId : Dict Event) (events : List Event) :
    (∃ out, collect byId events = .ok out) ↔
      Consistent events ∧ ∀ e ∈ events, ∀ seen, byId.get? (eventId e) = some seen →
        canonical seen = canonical e := by
  induction events generalizing byId with
  | nil => simp [collect, Consistent]
  | cons e rest ih =>
    rw [collect, consistent_cons, forall_mem_cons]
    cases hseen : byId.get? (eventId e) with
    | none =>
      simp only
      rw [ih (byId.set (eventId e) e)]
      constructor
      · rintro ⟨hrest, hnew⟩
        refine ⟨⟨hrest, fun f hf hid => hnew f hf e ?_⟩, fun seen hget => ?_, ?_⟩
        · rw [Dict.get?_set, if_pos hid]
        · cases hget
        · intro f hf seen hget
          have hid : eventId f ≠ eventId e := by
            intro hid
            rw [hid, hseen] at hget
            cases hget
          apply hnew f hf seen
          rw [Dict.get?_set, if_neg hid, hget]
      · rintro ⟨⟨hrest, hhead⟩, -, hold⟩
        refine ⟨hrest, fun f hf seen hget => ?_⟩
        rw [Dict.get?_set] at hget
        split_ifs at hget with hid
        · rw [← Option.some.inj hget]
          exact hhead f hf hid
        · exact hold f hf seen hget
    | some first =>
      simp only
      split_ifs with heq
      · rw [ih byId]
        constructor
        · rintro ⟨hrest, hold⟩
          refine ⟨⟨hrest, fun f hf hid => ?_⟩, fun seen hget => ?_, hold⟩
          · rw [← heq]
            exact hold f hf first (hid ▸ hseen)
          · rw [← Option.some.inj hget, heq]
        · rintro ⟨⟨hrest, -⟩, -, hold⟩
          exact ⟨hrest, hold⟩
      · constructor
        · rintro ⟨out, hout⟩
          cases hout
        · rintro ⟨-, hold, -⟩
          exact absurd (hold first rfl) heq

theorem collect_get? {byId out : Dict Event} (h : collect byId events = .ok out) (id : String) :
    out.get? id = (byId.get? id).or (firstWith id events) := by
  induction events generalizing byId with
  | nil =>
    rw [collect] at h
    cases h
    simp [firstWith]
  | cons e rest ih =>
    rw [collect] at h
    rw [firstWith_cons]
    cases hseen : byId.get? (eventId e) with
    | none =>
      rw [hseen] at h
      rw [ih h, Dict.get?_set]
      by_cases hid : eventId e = id
      · subst hid
        simp [hseen]
      · rw [if_neg hid, if_neg (Ne.symm hid)]
    | some first =>
      rw [hseen] at h
      simp only at h
      split at h
      · rw [ih h]
        by_cases hid : eventId e = id
        · subst hid
          simp [hseen]
        · rw [if_neg hid]
      · cases h

theorem collect_keyed {out : Dict Event} (h : collect .empty events = .ok out) :
    ∀ entry ∈ out.entries, eventId entry.2 = entry.1 := by
  rintro ⟨id, e⟩ hentry
  have hget := (out.mem_entries_iff id e).mp hentry
  rw [collect_get? h] at hget
  exact (firstWith_some hget).2

theorem sortEvents_perm (events : List Event) : (sortEvents events).Perm events :=
  perm_insertionSort _ events

theorem sortEvents_increasing (hnd : (events.map eventId).Nodup) :
    (sortEvents events).Pairwise fun e f => eventKey e < eventKey f := by
  have hle : (sortEvents events).Pairwise fun e f => eventKey e ≤ eventKey f :=
    pairwise_insertionSort _ events
  have hne : (sortEvents events).Pairwise fun e f => eventId e ≠ eventId f :=
    pairwise_map.mp (((sortEvents_perm events).map eventId).nodup_iff.mpr hnd)
  refine (hle.and hne).imp fun {e f} hef => lt_of_le_of_ne hef.1 fun heq => hef.2 ?_
  exact congrArg (fun key => (ofLex key).2) heq

theorem sortEvents_of_increasing (h : events.Pairwise fun e f => eventKey e < eventKey f) :
    sortEvents events = events :=
  List.Pairwise.insertionSort_eq (h.imp fun {_ _} hlt => hlt.le)

theorem isUnion_of_unionEvents (h : unionEvents events = .ok out) : IsUnion events out := by
  rw [unionEvents] at h
  cases hc : collect .empty events with
  | error err =>
    rw [hc] at h
    cases h
  | ok byId =>
    rw [hc] at h
    cases h
    have hids : (byId.entries.map Prod.snd).map eventId = byId.entries.map Prod.fst := by
      rw [List.map_map]
      exact map_congr_left (collect_keyed hc)
    have hnd : ((byId.entries.map Prod.snd).map eventId).Nodup := hids ▸ byId.nodup
    have hnd' := ((sortEvents_perm (byId.entries.map Prod.snd)).map eventId).nodup_iff.mpr hnd
    refine ⟨sortEvents_increasing hnd, hnd', fun e => ?_⟩
    have hget : byId.get? (eventId e) = firstWith (eventId e) events := collect_get? hc _
    rw [← hget, ← byId.mem_entries_iff, (sortEvents_perm _).mem_iff, List.mem_map]
    constructor
    · rintro ⟨⟨id, f⟩, hentry, rfl⟩
      have hid : eventId f = id := collect_keyed hc (id, f) hentry
      exact hid ▸ hentry
    · exact fun hentry => ⟨(eventId e, e), hentry, rfl⟩

theorem unionEvents_isOk_iff (events : List Event) :
    (∃ out, unionEvents events = .ok out) ↔ Consistent events := by
  have hempty := collect_isOk_iff .empty events
  rw [show (∃ out, unionEvents events = .ok out) ↔ ∃ out, collect .empty events = .ok out by
    rw [unionEvents]
    cases collect .empty events <;> simp [Except.map]]
  rw [hempty]
  refine and_iff_left fun e _ seen hget => ?_
  cases hget

theorem unionEvents_isError_iff (events : List Event) :
    (∃ err, unionEvents events = .error err) ↔ ¬ Consistent events := by
  rw [← unionEvents_isOk_iff]
  cases unionEvents events <;> simp

namespace IsUnion

variable {events out out' : List Event}

section

variable (h : IsUnion events out)
include h

theorem first (id : String) : firstWith id out = firstWith id events := by
  apply Option.ext
  intro e
  constructor
  · intro he
    obtain ⟨hmem, rfl⟩ := firstWith_some he
    exact (h.mem e).mp hmem
  · intro he
    obtain ⟨-, rfl⟩ := firstWith_some he
    exact firstWith_of_distinct h.distinct ((h.mem e).mpr he)

theorem subset {e : Event} (he : e ∈ out) : e ∈ events := (firstWith_some ((h.mem e).mp he)).1

theorem covers {e : Event} (he : e ∈ events) : ∃ f ∈ out, eventId f = eventId e := by
  obtain ⟨f, hf⟩ := exists_firstWith he
  have hid := (firstWith_some hf).2
  exact ⟨f, (h.mem f).mpr (hid ▸ hf), hid⟩

theorem unique (h' : IsUnion events out') : out = out' :=
  h.increasing.eq_of_mem_iff h'.increasing fun e => (h.mem e).trans (h'.mem e).symm

theorem of_first {events' : List Event}
    (hfirst : ∀ id, firstWith id events = firstWith id events') : IsUnion events' out :=
  ⟨h.increasing, h.distinct, fun e => by rw [h.mem e, hfirst]⟩

theorem consistent : Consistent out := by
  intro e he f hf hid
  rw [inj_on_of_nodup_map h.distinct he hf hid]

end

end IsUnion

theorem unionEvents_of_isUnion (hcons : Consistent events) (h : IsUnion events out) :
    unionEvents events = .ok out := by
  obtain ⟨out', hout'⟩ := (unionEvents_isOk_iff events).mpr hcons
  rw [hout', (isUnion_of_unionEvents hout').unique h]

theorem unionEvents_idempotent (h : unionEvents events = .ok out) : unionEvents out = .ok out := by
  have hunion := isUnion_of_unionEvents h
  exact unionEvents_of_isUnion hunion.consistent (hunion.of_first fun id => (hunion.first id).symm)

theorem Consistent.of_representatives {events' : List Event} (h : Consistent events)
    (hrep : ∀ e ∈ events', ∃ f ∈ events, eventId f = eventId e ∧ canonical f = canonical e) :
    Consistent events' := by
  intro e he f hf hid
  obtain ⟨e', he', heid, hec⟩ := hrep e he
  obtain ⟨f', hf', hfid, hfc⟩ := hrep f hf
  rw [← hec, ← hfc]
  exact h e' he' f' hf' (heid.trans (hid.trans hfid.symm))

theorem Consistent.mono {events' : List Event} (h : Consistent events)
    (hsub : ∀ e ∈ events', e ∈ events) : Consistent events' :=
  h.of_representatives fun e he => ⟨e, hsub e he, rfl, rfl⟩

theorem unionEvents_represents (h : unionEvents events = .ok out) (he : e ∈ events) :
    ∃ f ∈ out, eventId f = eventId e ∧ canonical f = canonical e := by
  have hunion := isUnion_of_unionEvents h
  have hcons := (unionEvents_isOk_iff events).mp ⟨out, h⟩
  obtain ⟨f, hf, hid⟩ := hunion.covers he
  exact ⟨f, hf, hid, hcons f (hunion.subset hf) e he hid⟩

def unionBoth (as bs : List Event) : Except ConflictingEventId (List Event) := do
  let a ← unionEvents as
  let b ← unionEvents bs
  unionEvents (a ++ b)

theorem unionEvents_append {as bs a b : List Event} (ha : unionEvents as = .ok a)
    (hb : unionEvents bs = .ok b) :
    unionEvents (a ++ b) = .ok out ↔ unionEvents (as ++ bs) = .ok out := by
  have hua := isUnion_of_unionEvents ha
  have hub := isUnion_of_unionEvents hb
  have hfirst : ∀ id, firstWith id (a ++ b) = firstWith id (as ++ bs) := fun id => by
    rw [firstWith_append, firstWith_append, hua.first, hub.first]
  constructor
  · intro h
    have hcons := (unionEvents_isOk_iff _).mp ⟨out, h⟩
    refine unionEvents_of_isUnion (hcons.of_representatives fun e he => ?_)
      ((isUnion_of_unionEvents h).of_first hfirst)
    rcases mem_append.mp he with he | he
    · obtain ⟨f, hf, hef⟩ := unionEvents_represents ha he
      exact ⟨f, mem_append_left b hf, hef⟩
    · obtain ⟨f, hf, hef⟩ := unionEvents_represents hb he
      exact ⟨f, mem_append_right a hf, hef⟩
  · intro h
    have hcons := (unionEvents_isOk_iff _).mp ⟨out, h⟩
    refine unionEvents_of_isUnion (hcons.mono fun e he => ?_)
      ((isUnion_of_unionEvents h).of_first fun id => (hfirst id).symm)
    rcases mem_append.mp he with he | he
    · exact mem_append_left bs (hua.subset he)
    · exact mem_append_right as (hub.subset he)

theorem unionBoth_eq_ok_iff (as bs out : List Event) :
    unionBoth as bs = .ok out ↔ unionEvents (as ++ bs) = .ok out := by
  rw [unionBoth]
  cases ha : unionEvents as with
  | error err =>
    refine iff_of_false nofun fun h => ?_
    have hcons := (unionEvents_isOk_iff _).mp ⟨out, h⟩
    exact (unionEvents_isError_iff as).mp ⟨err, ha⟩ (hcons.mono fun e he => mem_append_left bs he)
  | ok a =>
    cases hb : unionEvents bs with
    | error err =>
      refine iff_of_false nofun fun h => ?_
      have hcons := (unionEvents_isOk_iff _).mp ⟨out, h⟩
      exact (unionEvents_isError_iff bs).mp ⟨err, hb⟩
        (hcons.mono fun e he => mem_append_right as he)
    | ok b => exact unionEvents_append ha hb

end DevHermit.Ledger
