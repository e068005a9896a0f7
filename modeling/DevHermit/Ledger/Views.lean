import DevHermit.Ledger.Union

namespace DevHermit.Ledger

open Lib List Option Json

theorem runId_eq_getD (event : Event) :
    runId event = ((event.get? "run_id").map pyStr).getD (eventId event) := by
  rw [runId]
  cases event.get? "run_id" <;> rfl

structure SameFacts (d d' : Dict Json) : Prop where
  field : ∀ k, (d.get? k).map Json.canonical = (d'.get? k).map Json.canonical
  printed : ∀ k ∈ ["emitted_at", "host"],
    (d.get? k).map Json.pyStr = (d'.get? k).map Json.pyStr

structure Alike (e f : Event) : Prop extends SameFacts e f where
  body : canonical e = canonical f
  run : runId e = runId f
  listed : strGet e "run_id" = strGet f "run_id"

def PrintsAlike (key : String) (events : List Event) : Prop :=
  ∀ e ∈ events, ∀ f ∈ events, canonical e = canonical f → strGet e key = strGet f key

theorem map_pyStr_eq {v w : Option Json} (hcan : v.map Json.canonical = w.map Json.canonical)
    (hstr : (v.map pyStr).getD "" = (w.map pyStr).getD "") : v.map pyStr = w.map pyStr := by
  cases v with
  | none =>
    rw [map_none, eq_comm, map_eq_none_iff] at hcan
    rw [hcan]
  | some j =>
    cases w with
    | none => cases hcan
    | some j' => exact congrArg some hstr

variable {e : Event} {events : List Event} {f : Event}

theorem Alike.of_printsAlike
    (hprint : ∀ key ∈ ["emitted_at", "run_id", "host"], PrintsAlike key events) (he : e ∈ events)
    (hf : f ∈ events) (hid : eventId e = eventId f) (hbody : canonical e = canonical f) : Alike e f := by
  have hfield : ∀ k, (e.get? k).map Json.canonical = (f.get? k).map Json.canonical :=
    lookup_of_canonical hbody
  have hstr : ∀ k ∈ ["emitted_at", "run_id", "host"], strGet e k = strGet f k :=
    fun k hk => hprint k hk e he f hf hbody
  have hrun := map_pyStr_eq (hfield "run_id") (hstr "run_id" (by simp))
  refine ⟨⟨hfield, fun k hk => map_pyStr_eq (hfield k) (hstr k (by grind))⟩, hbody, ?_, ?_⟩
  · rw [runId_eq_getD, runId_eq_getD, hrun, hid]
  · rw [strGet, strGet, hrun]

variable {α : Type}

theorem forall₂_of_map_eq {β : Type} {f : α → β} {R : α → α → Prop} {l l' : List α}
    (hmap : l.map f = l'.map f) (hR : ∀ a ∈ l, ∀ b ∈ l', f a = f b → R a b) :
    List.Forall₂ R l l' := by
  induction l generalizing l' with
  | nil =>
    rw [map_nil, eq_comm, map_eq_nil_iff] at hmap
    rw [hmap]
    exact .nil
  | cons a rest ih =>
    cases l' with
    | nil => cases hmap
    | cons b rest' =>
      rw [map_cons, map_cons, List.cons.injEq] at hmap
      refine .cons (hR a mem_cons_self b mem_cons_self hmap.1) ?_
      exact ih hmap.2 fun a' ha' b' hb' => hR a' (.tail a ha') b' (.tail b hb')

variable {events' : List Event} {out out' : List Event}

theorem union_same_events (hsame : ∀ e, e ∈ events ↔ e ∈ events')
    (hprint : PrintsAlike "emitted_at" events) (h : unionEvents events = .ok out)
    (h' : unionEvents events' = .ok out') {R : Event → Event → Prop}
    (hR : ∀ e ∈ events, ∀ f ∈ events, eventId e = eventId f → canonical e = canonical f → R e f) :
    List.Forall₂ R out out' := by
  have hu := isUnion_of_unionEvents h
  have hu' := isUnion_of_unionEvents h'
  have hcons := (unionEvents_isOk_iff events).mp ⟨out, h⟩
  have hmem' : ∀ f ∈ out', f ∈ events := fun f hf => (hsame f).mpr (hu'.subset hf)
  have hkey : ∀ e ∈ out, ∀ f ∈ out', eventId e = eventId f → eventKey e = eventKey f := by
    intro e he f hf hid
    have hbody := hcons e (hu.subset he) f (hmem' f hf) hid
    rw [eventKey, eventKey, hid, hprint e (hu.subset he) f (hmem' f hf) hbody]
  have hmap : out.map eventKey = out'.map eventKey := by
    refine (pairwise_map.mpr hu.increasing).eq_of_mem_iff
      (pairwise_map.mpr hu'.increasing) fun key => ?_
    rw [List.mem_map, List.mem_map]
    constructor
    · rintro ⟨e, he, rfl⟩
      obtain ⟨f, hf, hid⟩ := hu'.covers ((hsame e).mp (hu.subset he))
      exact ⟨f, hf, (hkey e he f hf hid.symm).symm⟩
    · rintro ⟨f, hf, rfl⟩
      obtain ⟨e, he, hid⟩ := hu.covers (hmem' f hf)
      exact ⟨e, he, hkey e he f hf hid⟩
  refine forall₂_of_map_eq hmap fun e he f hf hk => ?_
  have hid : eventId e = eventId f := congrArg (fun key => (ofLex key).2) hk
  exact hR e (hu.subset he) f (hmem' f hf) hid (hcons e (hu.subset he) f (hmem' f hf) hid)

variable {d d' : Dict Json}

theorem SameFacts.canonical_getD (h : SameFacts d d') (k : String) (v : Json) :
    ((d.get? k).getD v).canonical = ((d'.get? k).getD v).canonical := by
  rw [← Option.getD_map Json.canonical, ← Option.getD_map Json.canonical, h.field k]

variable {k : String}

theorem SameFacts.strGet_eq (h : SameFacts d d') (hk : k ∈ ["emitted_at", "host"]) :
    strGet d k = strGet d' k := by
  rw [strGet, strGet, h.printed k hk]

variable {v w : Json}

theorem eq_str_iff (h : v.canonical = w.canonical) (s : String) : v = .str s ↔ w = .str s := by
  constructor
  · rintro rfl
    exact (eq_of_canonical_eq h rfl).symm
  · rintro rfl
    exact (eq_of_canonical_eq h.symm rfl).symm

def payloadGet (event : Event) (k : String) : Option Json :=
  if k ∈ envelopeKeys ∨ k ∈ ["enriches", "supersedes", "reason"] then none else event.get? k

theorem lookup_payload (event : Event) (k : String) :
    (payload event).lookup k = payloadGet event k := by
  rw [payload, Dict.lookup_filter event.nodup, payloadGet, Dict.get?]
  by_cases hk : k ∈ envelopeKeys ∨ k ∈ ["enriches", "supersedes", "reason"]
  · have hdrop : decide (k ∉ envelopeKeys ∧ k ∉ ["enriches", "supersedes", "reason"]) = false := by
      rw [decide_eq_false_iff_not, ← not_or, not_not]
      exact hk
    simp only [hdrop, if_pos hk]
    cases event.entries.lookup k <;> rfl
  · have hkeep : decide (k ∉ envelopeKeys ∧ k ∉ ["enriches", "supersedes", "reason"]) = true := by
      rw [decide_eq_true_iff, ← not_or]
      exact hk
    simp only [hkeep, if_neg hk]
    cases event.entries.lookup k <;> rfl

theorem payload_nodup (event : Event) : ((payload event).map Prod.fst).Nodup :=
  event.nodup.sublist (filter_sublist.map Prod.fst)

theorem get?_applyEvent (current : Run) (event : Event) (k : String) :
    (applyEvent current event).get? k =
      if eventType event = .str "run.result" then (current.get? k).or (event.get? k)
      else if eventType event = .str "run.enrich" then
        ((payloadGet event k).filter (· ≠ .null)).or (current.get? k)
      else if eventType event = .str "run.correct" then (payloadGet event k).or (current.get? k)
      else (current.get? k).or (payloadGet event k) := by
  rw [applyEvent]
  split
  · exact current.get?_setDefaults event.entries k
  · split
    · have hnd := (payload_nodup event).sublist
        ((filter_sublist (p := fun item => item.2 ≠ null)).map Prod.fst)
      rw [Dict.get?_update _ _ hnd, Dict.lookup_filter (payload_nodup event), lookup_payload]
    · split
      · rw [Dict.get?_update _ _ (payload_nodup event), lookup_payload]
      · rw [Dict.get?_setDefaults, lookup_payload]

theorem Alike.eventType_iff (h : Alike e f) (s : String) :
    eventType e = .str s ↔ eventType f = .str s :=
  eq_str_iff (h.canonical_getD "event_type" (.str "run.result")) s

theorem Alike.payloadGet_eq (h : Alike e f) (k : String) :
    (payloadGet e k).map Json.canonical = (payloadGet f k).map Json.canonical := by
  rw [payloadGet, payloadGet]
  split
  · rfl
  · exact h.field k

theorem map_canonical_filter_nonnull (v : Option Json) :
    (v.filter (· ≠ .null)).map Json.canonical = (v.map Json.canonical).filter (· ≠ .null) := by
  rcases v with _ | j
  · rfl
  · cases j <;> rfl

theorem payloadGet_envelope {event : Event} (hk : k ∈ ["emitted_at", "host"]) :
    payloadGet event k = none := by
  refine if_pos (Or.inl ?_)
  rw [envelopeKeys]
  grind

theorem SameFacts.applyEvent {d d' : Run} (h : SameFacts d d') (hef : Alike e f) :
    SameFacts (applyEvent d e) (applyEvent d' f) := by
  constructor
  · intro k
    simp only [get?_applyEvent, hef.eventType_iff]
    split
    · rw [map_or, map_or, h.field, hef.field]
    · split
      · rw [map_or, map_or, map_canonical_filter_nonnull,
          map_canonical_filter_nonnull, h.field, hef.payloadGet_eq]
      · split
        · rw [map_or, map_or, h.field, hef.payloadGet_eq]
        · rw [map_or, map_or, h.field, hef.payloadGet_eq]
  · intro k hk
    simp only [get?_applyEvent, hef.eventType_iff, payloadGet_envelope hk, filter_none,
      none_or, or_none, ite_self]
    split
    · rw [map_or, map_or, h.printed k hk, hef.printed k hk]
    · exact h.printed k hk

def SameEntry {κ : Type} (p q : κ × Run) : Prop := p.1 = q.1 ∧ SameFacts p.2 q.2

theorem sameFacts_refl (d : Dict Json) : SameFacts d d := ⟨fun _ => rfl, fun _ _ => rfl⟩

theorem upsertEntry_same {f g : Option Run → Run} {entries entries' : List (String × Run)}
    (h : List.Forall₂ SameEntry entries entries')
    (hsome : ∀ d d', SameFacts d d' → SameFacts (f (some d)) (g (some d')))
    (hnone : SameFacts (f none) (g none)) :
    List.Forall₂ SameEntry (upsertEntry k f entries) (upsertEntry k g entries') := by
  induction h with
  | nil => exact .cons ⟨rfl, hnone⟩ .nil
  | @cons p q rest rest' hpq hrest ih =>
    obtain ⟨l, d⟩ := p
    obtain ⟨l', d'⟩ := q
    obtain ⟨rfl, hd⟩ : l = l' ∧ SameFacts d d' := hpq
    rw [upsertEntry, upsertEntry]
    split
    · exact .cons ⟨rfl, hsome d d' hd⟩ hrest
    · exact .cons ⟨rfl, hd⟩ ih

def SameRuns (runs runs' : Dict Run) : Prop := List.Forall₂ SameEntry runs.entries runs'.entries

variable {runs runs' : Dict Run}

theorem foldEvent_same (h : SameRuns runs runs') (hef : Alike e f) :
    SameRuns (foldEvent runs e) (foldEvent runs' f) := by
  rw [foldEvent, foldEvent, hef.run]
  exact upsertEntry_same h (fun d d' hd => hd.applyEvent hef) ((sameFacts_refl _).applyEvent hef)

theorem foldl_foldEvent_same (h : List.Forall₂ Alike events events') (hruns : SameRuns runs runs') :
    SameRuns (events.foldl foldEvent runs) (events'.foldl foldEvent runs') := by
  induction h generalizing runs runs' with
  | nil => exact hruns
  | cons hef _ ih => exact ih (foldEvent_same hruns hef)

variable {latest latest' : List (Json × Run)} {run run' : Run} {commit : Json}

theorem noteLatest_same (hrun : SameFacts run run') (h : List.Forall₂ SameEntry latest latest') :
    List.Forall₂ SameEntry (noteLatest commit run latest) (noteLatest commit run' latest') := by
  induction h with
  | nil => exact .cons ⟨rfl, hrun⟩ .nil
  | @cons p q rest rest' hpq hrest ih =>
    obtain ⟨key, seen⟩ := p
    obtain ⟨key', seen'⟩ := q
    obtain ⟨rfl, hseen⟩ : key = key' ∧ SameFacts seen seen' := hpq
    rw [noteLatest, noteLatest, hseen.strGet_eq (k := "emitted_at") (by simp),
      hrun.strGet_eq (k := "emitted_at") (by simp)]
    split
    · refine .cons ⟨rfl, ?_⟩ hrest
      dsimp only
      split
      · exact hrun
      · exact hseen
    · exact .cons ⟨rfl, hseen⟩ ih

variable {entry : String × Run}

theorem noteRun_same (h : List.Forall₂ SameEntry latest latest') {entry' : String × Run}
    (hentry : SameEntry entry entry') :
    PyError.Agree (List.Forall₂ SameEntry) (noteRun latest entry) (noteRun latest' entry') := by
  have hfield := hentry.2.field "commit"
  rw [noteRun, noteRun]
  cases hc : entry.2.get? "commit" with
  | none =>
    rw [hc, map_none, eq_comm, map_eq_none_iff] at hfield
    rw [hfield]
    exact h
  | some commit =>
    rw [hc] at hfield
    cases hc' : entry'.2.get? "commit" with
    | none =>
      rw [hc'] at hfield
      cases hfield
    | some commit' =>
      rw [hc'] at hfield
      have hcan : commit.canonical = commit'.canonical := Option.some.inj hfield
      have htruthy : commit.truthy = commit'.truthy := by
        rw [← truthy_canonical, hcan, truthy_canonical]
      have hhash : commit.hashable = commit'.hashable := by
        rw [← hashable_canonical, hcan, hashable_canonical]
      simp only [htruthy, ← hhash]
      split
      · exact h
      · split_ifs with hh
        · rfl
        · obtain rfl := eq_of_canonical_eq hcan (by simpa using hh)
          exact noteLatest_same hentry.2 h

theorem latestRunPerCommit_same (h : SameRuns runs runs') :
    PyError.Agree (List.Forall₂ SameEntry) (latestRunPerCommit runs)
      (latestRunPerCommit runs') := by
  refine PyError.Agree.foldlM ?_ h .nil
  intro latest latest' hlatest entry entry' hentry
  exact noteRun_same hlatest hentry

theorem inFrozenset_congr (h : v.canonical = w.canonical) (members : List String) :
    inFrozenset v members = inFrozenset w members := by
  have hhash : v.hashable = w.hashable := by rw [← hashable_canonical, h, hashable_canonical]
  rw [inFrozenset, inFrozenset, ← hhash]
  split_ifs with hv
  · rw [eq_of_canonical_eq h hv]
  · rfl

theorem producerSource_same (h : SameFacts run run') :
    PyError.Agree (fun v w => v.canonical = w.canonical) (producerSource run)
      (producerSource run') := by
  have hcan := h.canonical_getD "producer" .null
  have htruthy : ((run.get? "producer").getD .null).truthy =
      ((run'.get? "producer").getD .null).truthy := by
    rw [← truthy_canonical, hcan, truthy_canonical]
  rw [producerSource, producerSource]
  generalize (run.get? "producer").getD .null = producer at hcan htruthy
  generalize (run'.get? "producer").getD .null = producer' at hcan htruthy
  by_cases hhash : producer.hashable = true
  · obtain rfl := eq_of_canonical_eq hcan hhash
    cases producer with
    | obj fields => cases hhash
    | _ =>
      dsimp only
      split
      · rfl
      · rfl
  · cases producer with
    | obj fields =>
      cases producer' with
      | obj fields' =>
        have hsource := lookup_of_canonical hcan "source"
        show ((fields.lookup "source").getD .null).canonical = _
        rw [← Option.getD_map Json.canonical, ← Option.getD_map Json.canonical, hsource]
      | _ => cases hcan
    | arr items =>
      cases producer' with
      | arr items' =>
        dsimp only
        rw [htruthy]
        split
        · rfl
        · rfl
      | _ => cases hcan
    | _ => exact absurd rfl hhash

theorem isGreenRun_congr (h : SameFacts run run') (hostPred : Option (String → Bool)) :
    isGreenRun hostPred run = isGreenRun hostPred run' := by
  have hpass := eq_str_iff (h.canonical_getD "outcome" .null) "pass"
  apply PyError.Agree.eq
  simp only [isGreenRun, ne_eq, hpass]
  split
  · rfl
  · refine (producerSource_same h).bind fun v w hvw => ?_
    rw [inFrozenset_congr hvw, h.strGet_eq (k := "host") (by simp)]
    cases inFrozenset w nonGreenSources with
    | error err => rfl
    | ok excluded => cases excluded <;> rfl

theorem greenRuns_same {runs runs' : List Run} (h : List.Forall₂ SameFacts runs runs')
    (hostPred : Option (String → Bool)) :
    PyError.Agree (List.Forall₂ SameFacts) (greenRuns hostPred runs)
      (greenRuns hostPred runs') := by
  induction h with
  | nil => exact .nil
  | @cons run run' rest rest' hrun hrest ih =>
    rw [greenRuns, greenRuns, isGreenRun_congr hrun]
    cases isGreenRun hostPred run' with
    | error err => rfl
    | ok isGreen =>
      refine ih.bind fun others others' hothers => ?_
      cases isGreen with
      | true => exact .cons hrun hothers
      | false => exact hothers

theorem newest_same {best best' : Run} (hbest : SameFacts best best') {runs runs' : List Run}
    (h : List.Forall₂ SameFacts runs runs') : SameFacts (newest best runs) (newest best' runs') := by
  induction h generalizing best best' with
  | nil => exact hbest
  | @cons run run' rest rest' hrun hrest ih =>
    rw [newest, newest, hbest.strGet_eq (k := "emitted_at") (by simp),
      hrun.strGet_eq (k := "emitted_at") (by simp)]
    split
    · exact ih hrun
    · exact ih hbest

structure Candidate (runs : Dict Run) (run : Run) : Prop where
  stored : ∃ id, runs.get? id = some run
  commit : ∃ commit, run.get? "commit" = some commit ∧ commit.truthy = true ∧
    commit.hashable = true

theorem mem_noteLatest {entry : Json × Run} (h : entry ∈ noteLatest commit run latest) :
    entry.2 = run ∨ ∃ p ∈ latest, entry.2 = p.2 := by
  induction latest with
  | nil =>
    rw [noteLatest, mem_singleton] at h
    exact Or.inl (congrArg Prod.snd h)
  | cons p rest ih =>
    obtain ⟨key, seen⟩ := p
    rw [noteLatest] at h
    split at h
    · rcases mem_cons.mp h with heq | hmem
      · have hsnd := congrArg Prod.snd heq
        dsimp only at hsnd
        split at hsnd
        · exact Or.inl hsnd
        · exact Or.inr ⟨(key, seen), mem_cons_self, hsnd⟩
      · exact Or.inr ⟨entry, .tail _ hmem, rfl⟩
    · rcases mem_cons.mp h with heq | hmem
      · exact Or.inr ⟨(key, seen), mem_cons_self, congrArg Prod.snd heq⟩
      · rcases ih hmem with hrun | ⟨q, hq, heq⟩
        · exact Or.inl hrun
        · exact Or.inr ⟨q, .tail _ hq, heq⟩

theorem noteRun_candidates (hentry : entry ∈ runs.entries)
    (hlatest : ∀ p ∈ latest, Candidate runs p.2) (h : noteRun latest entry = .ok latest') :
    ∀ p ∈ latest', Candidate runs p.2 := by
  rw [noteRun] at h
  cases hc : entry.2.get? "commit" with
  | none =>
    rw [hc] at h
    cases h
    exact hlatest
  | some commit =>
    rw [hc] at h
    dsimp only at h
    split at h
    case isTrue =>
      cases h
      exact hlatest
    case isFalse htruthy =>
      split at h
      case isTrue => cases h
      case isFalse hhash =>
        cases h
        intro p hp
        rcases mem_noteLatest hp with hrun | ⟨q, hq, heq⟩
        · rw [hrun]
          exact ⟨⟨entry.1, (runs.mem_entries_iff entry.1 entry.2).mp hentry⟩,
            commit, hc, by simpa using htruthy, by simpa using hhash⟩
        · rw [heq]
          exact hlatest q hq

theorem latestRunPerCommit_candidates (h : latestRunPerCommit runs = .ok latest) :
    ∀ p ∈ latest, Candidate runs p.2 := by
  have hfold : ∀ (entries : List (String × Run)), (∀ entry ∈ entries, entry ∈ runs.entries) →
      ∀ acc, (∀ p ∈ acc, Candidate runs p.2) → entries.foldlM noteRun acc = .ok latest →
      ∀ p ∈ latest, Candidate runs p.2 := by
    intro entries
    induction entries with
    | nil =>
      intro _ acc hacc hok
      cases hok
      exact hacc
    | cons entry rest ih =>
      intro hsub acc hacc hok
      rw [foldlM_cons] at hok
      cases hnote : noteRun acc entry with
      | error err =>
        rw [hnote] at hok
        cases hok
      | ok acc' =>
        rw [hnote] at hok
        exact ih (fun e he => hsub e (.tail _ he)) acc'
          (noteRun_candidates (hsub entry mem_cons_self) hacc hnote) hok
  refine hfold runs.entries (fun _ hentry => hentry) [] (fun p hp => ?_) h
  cases hp

variable {hostPred : Option (String → Bool)}

theorem greenRuns_mem {runs candidates : List Run} (h : greenRuns hostPred runs = .ok candidates)
    (hrun : run ∈ candidates) : run ∈ runs ∧ isGreenRun hostPred run = .ok true := by
  induction runs generalizing candidates with
  | nil =>
    cases h
    cases hrun
  | cons first rest ih =>
    rw [greenRuns] at h
    cases hfirst : isGreenRun hostPred first with
    | error err =>
      rw [hfirst] at h
      cases h
    | ok isGreen =>
      rw [hfirst] at h
      cases hrest : greenRuns hostPred rest with
      | error err =>
        rw [hrest] at h
        cases h
      | ok others =>
        rw [hrest] at h
        cases h
        have hothers : run ∈ others → run ∈ first :: rest ∧
            isGreenRun hostPred run = .ok true := fun hmem =>
          ⟨.tail _ (ih hrest hmem).1, (ih hrest hmem).2⟩
        cases isGreen with
        | true =>
          rcases mem_cons.mp hrun with rfl | hmem
          · exact ⟨mem_cons_self, hfirst⟩
          · exact hothers hmem
        | false => exact hothers hrun

theorem newest_mem (best : Run) (runs : List Run) : newest best runs ∈ best :: runs := by
  induction runs generalizing best with
  | nil => exact mem_cons_self
  | cons run rest ih =>
    rw [newest]
    split
    · exact .tail _ (ih run)
    · rcases mem_cons.mp (ih best) with heq | hmem
      · rw [heq]
        exact mem_cons_self
      · exact .tail _ (.tail _ hmem)

theorem green_spec {result : Option Json} (h : green runs hostPred = .ok result) :
    result = none ∨ ∃ run, Candidate runs run ∧ isGreenRun hostPred run = .ok true ∧
      result = run.get? "commit" := by
  rw [green] at h
  cases hl : latestRunPerCommit runs with
  | error err =>
    rw [hl] at h
    cases h
  | ok latest =>
    rw [hl] at h
    cases hg : greenRuns hostPred (latest.map Prod.snd) with
    | error err =>
      simp only [hg, bind, Except.bind] at h
      cases h
    | ok candidates =>
      simp only [hg, bind, Except.bind] at h
      cases candidates with
      | nil =>
        cases h
        exact Or.inl rfl
      | cons best rest =>
        cases h
        obtain ⟨hmem, hgreen⟩ := greenRuns_mem hg (newest_mem best rest)
        obtain ⟨p, hp, heq⟩ := List.mem_map.mp hmem
        exact Or.inr ⟨newest best rest, heq ▸ latestRunPerCommit_candidates hl p hp, hgreen, rfl⟩

theorem green_same (h : SameRuns runs runs') (hostPred : Option (String → Bool)) :
    PyError.Agree (fun v w => v.map Json.canonical = w.map Json.canonical) (green runs hostPred)
      (green runs' hostPred) := by
  refine (latestRunPerCommit_same h).bind fun latest latest' hlatest => ?_
  have hruns : List.Forall₂ SameFacts (latest.map Prod.snd) (latest'.map Prod.snd) := by
    rw [forall₂_map_left_iff, forall₂_map_right_iff]
    exact hlatest.imp fun p q hpq => hpq.2
  refine (greenRuns_same hruns hostPred).bind fun candidates candidates' hcand => ?_
  cases hcand with
  | nil => rfl
  | cons hbest hrest => exact (newest_same hbest hrest).field "commit"

theorem green_congr (h : SameRuns runs runs') (hostPred : Option (String → Bool)) :
    green runs hostPred = green runs' hostPred := by
  have hsame := green_same h hostPred
  cases hg : green runs hostPred with
  | error err =>
    rw [hg] at hsame
    cases hg' : green runs' hostPred with
    | error err' =>
      rw [hg'] at hsame
      exact congrArg _ hsame
    | ok result' =>
      rw [hg'] at hsame
      exact hsame.elim
  | ok result =>
    rw [hg] at hsame
    cases hg' : green runs' hostPred with
    | error err' =>
      rw [hg'] at hsame
      exact hsame.elim
    | ok result' =>
      rw [hg'] at hsame
      have hcan : result.map Json.canonical = result'.map Json.canonical := hsame
      rcases green_spec hg with rfl | ⟨run, hcandidate, -, hresult⟩
      · rw [map_none, eq_comm, map_eq_none_iff] at hcan
        rw [hcan]
      · obtain ⟨commit, hcommit, -, hhash⟩ := hcandidate.commit
        rw [hresult, hcommit] at hcan
        rw [hresult, hcommit]
        cases result' with
        | none => cases hcan
        | some commit' => rw [eq_of_canonical_eq (Option.some.inj hcan) hhash]

theorem outcomeVerdict_congr (h : v.canonical = w.canonical) :
    outcomeVerdict v = outcomeVerdict w := by
  simp only [outcomeVerdict, inFrozenset_congr h, eq_str_iff h]

theorem find?_same (h : List.Forall₂ SameEntry latest latest') (key : Json) :
    Option.Rel SameEntry (latest.find? fun entry => entry.1.keyEq key)
      (latest'.find? fun entry => entry.1.keyEq key) := by
  induction h with
  | nil => exact .none
  | @cons p q rest rest' hpq hrest ih =>
    rw [List.find?_cons, List.find?_cons, hpq.1]
    split
    · exact .some hpq
    · exact ih

theorem bisectVerdict_congr (h : SameRuns runs runs') (commit : String) :
    bisectVerdict runs commit = bisectVerdict runs' commit := by
  apply PyError.Agree.eq
  refine (latestRunPerCommit_same h).bind fun latest latest' hlatest => ?_
  have hfind := find?_same hlatest (.str commit)
  generalize latest.find? (fun entry => entry.1.keyEq (.str commit)) = found at hfind
  generalize latest'.find? (fun entry => entry.1.keyEq (.str commit)) = found' at hfind
  cases hfind with
  | none => rfl
  | @some entry entry' hentry =>
    dsimp only
    rw [outcomeVerdict_congr (hentry.2.canonical_getD "outcome" .null)]
    cases outcomeVerdict ((entry'.2.get? "outcome").getD .null) <;> rfl

theorem any_same (h : List.Forall₂ SameEntry latest latest') (key : Json) :
    (latest.any fun entry => entry.1.keyEq key) = latest'.any fun entry => entry.1.keyEq key := by
  induction h with
  | nil => rfl
  | cons hpq _ ih => rw [any_cons, any_cons, hpq.1, ih]

theorem commitGaps_congr (h : SameRuns runs runs') (commits : List String) :
    commitGaps runs commits = commitGaps runs' commits := by
  apply PyError.Agree.eq
  refine (latestRunPerCommit_same h).bind fun latest latest' hlatest => ?_
  show commits.filter _ = commits.filter _
  simp only [any_same hlatest]

def runsJson (runs : Dict Run) : Json :=
  .obj (runs.entries.map fun entry => (entry.1, .obj entry.2.entries))

theorem canonicalFields_map (f : α → String × Json) (items : List α) :
    canonicalFields (items.map f) = items.map fun item => canonicalField (f item) := by
  induction items with
  | nil => rfl
  | cons item rest ih => rw [map_cons, canonicalFields, ih, map_cons]

theorem runsJson_canonical (h : SameRuns runs runs') :
    (runsJson runs).canonical = (runsJson runs').canonical := by
  have hfields : (runs.entries.map fun p => canonicalField (p.1, .obj p.2.entries)) =
      runs'.entries.map fun p => canonicalField (p.1, .obj p.2.entries) := by
    rw [← forall₂_eq_eq_eq, forall₂_map_left_iff, forall₂_map_right_iff]
    refine h.imp fun p q hpq => ?_
    rw [canonicalField, canonicalField, hpq.1, Dict.canonical_eq_of_get? hpq.2.field]
  rw [runsJson, runsJson, Json.canonical, Json.canonical, canonicalFields_map,
    canonicalFields_map, hfields]

theorem timeline_same (h : List.Forall₂ Alike events events') (id : String) :
    (events.filter fun e => strGet e "run_id" = id).map canonical =
      (events'.filter fun e => strGet e "run_id" = id).map canonical := by
  induction h with
  | nil => rfl
  | cons hef _ ih =>
    rw [filter_cons, filter_cons, hef.listed]
    split
    · rw [map_cons, map_cons, hef.body, ih]
    · exact ih

theorem views_same (hout : out.Pairwise fun e f => eventKey e < eventKey f)
    (hout' : out'.Pairwise fun e f => eventKey e < eventKey f) (h : List.Forall₂ Alike out out') :
    SameRuns (fold out) (fold out') ∧
      ∀ id, (timeline out id).map canonical = (timeline out' id).map canonical := by
  rw [fold, fold, sortEvents_of_increasing hout, sortEvents_of_increasing hout']
  refine ⟨foldl_foldEvent_same h .nil, fun id => ?_⟩
  rw [timeline, timeline, sortEvents_of_increasing hout, sortEvents_of_increasing hout']
  exact timeline_same h id

theorem union_depends_only_on_events (shards shards' : List (List Event))
    (hsame : ∀ e, e ∈ shards.flatten ↔ e ∈ shards'.flatten) :
    ((∃ err, union shards = .error err) ↔ ∃ e ∈ shards.flatten, ∃ f ∈ shards.flatten,
        eventId e = eventId f ∧ canonical e ≠ canonical f) ∧
    ((∃ err, union shards = .error err) ↔ ∃ err, union shards' = .error err) ∧
    (∀ out, union shards = .ok out →
      out.Pairwise (fun e f => eventKey e < eventKey f) ∧ unionEvents out = .ok out) ∧
    (∀ as bs out, unionBoth as bs = .ok out ↔ unionEvents (as ++ bs) = .ok out) ∧
    (∀ out out', union shards = .ok out → union shards' = .ok out' →
      PrintsAlike "emitted_at" shards.flatten → out.map canonical = out'.map canonical ∧
      (PrintsAlike "run_id" shards.flatten → PrintsAlike "host" shards.flatten →
        (runsJson (fold out)).canonical = (runsJson (fold out')).canonical ∧
        (∀ id, (timeline out id).map canonical = (timeline out' id).map canonical) ∧
        (∀ hostPred, green (fold out) hostPred = green (fold out') hostPred) ∧
        (∀ commit, bisectVerdict (fold out) commit = bisectVerdict (fold out') commit) ∧
        ∀ commits, commitGaps (fold out) commits = commitGaps (fold out') commits)) := by
  have hconflict : ¬ Consistent shards.flatten ↔ ∃ e ∈ shards.flatten, ∃ f ∈ shards.flatten,
        eventId e = eventId f ∧ canonical e ≠ canonical f := by
    simp only [Consistent, not_forall, exists_prop, ne_eq]
  have hsamecons : Consistent shards.flatten ↔ Consistent shards'.flatten :=
    ⟨fun h => h.mono fun e he => (hsame e).mpr he, fun h => h.mono fun e he => (hsame e).mp he⟩
  refine ⟨(unionEvents_isError_iff _).trans hconflict, ?_, ?_, unionBoth_eq_ok_iff, ?_⟩
  · rw [union, union, unionEvents_isError_iff, unionEvents_isError_iff, hsamecons]
  · exact fun out h => ⟨(isUnion_of_unionEvents h).increasing, unionEvents_idempotent h⟩
  · intro out out' h h' hemitted
    have hbody := union_same_events hsame hemitted h h' fun e _ f _ _ hbody => hbody
    refine ⟨?_, fun hrun hhost => ?_⟩
    · rw [← forall₂_eq_eq_eq, forall₂_map_left_iff, forall₂_map_right_iff]
      exact hbody
    · have hprint : ∀ key ∈ ["emitted_at", "run_id", "host"], PrintsAlike key shards.flatten := by
        simp only [forall_mem_cons]
        exact ⟨hemitted, hrun, hhost, fun _ hmem => absurd hmem not_mem_nil⟩
      have halike := union_same_events hsame hemitted h h' fun e he f hf hid hbody =>
        Alike.of_printsAlike hprint he hf hid hbody
      obtain ⟨hruns, htimeline⟩ := views_same (isUnion_of_unionEvents h).increasing
        (isUnion_of_unionEvents h').increasing halike
      exact ⟨runsJson_canonical hruns, htimeline, green_congr hruns, bisectVerdict_congr hruns,
        commitGaps_congr hruns⟩

def stamped (id : String) (stamp : Json) : Event :=
  ⟨[("event_id", .str id), ("emitted_at", stamp)], by simp⟩

def placed (runId host : Json) : Event :=
  ⟨[("event_id", .str "a"), ("emitted_at", .str "t"), ("run_id", runId), ("host", host),
    ("commit", .str "c"), ("outcome", .str "pass")], by simp⟩

def pairXY : Json := .obj [("x", .int 1), ("y", .int 2)]

def pairYX : Json := .obj [("y", .int 2), ("x", .int 1)]

theorem object_copies_reorder_views :
    (canonical (stamped "a" pairXY) = canonical (stamped "a" pairYX) ∧
      union [[stamped "a" pairXY, stamped "a" pairYX, stamped "b" (.obj [("x", .int 5)])]] =
        .ok [stamped "a" pairXY, stamped "b" (.obj [("x", .int 5)])] ∧
      union [[stamped "a" pairYX, stamped "a" pairXY, stamped "b" (.obj [("x", .int 5)])]] =
        .ok [stamped "b" (.obj [("x", .int 5)]), stamped "a" pairYX] ∧
      canonical (stamped "a" pairXY) ≠ canonical (stamped "b" (.obj [("x", .int 5)]))) ∧
    (union [[placed pairXY .null, placed pairYX .null]] = .ok [placed pairXY .null] ∧
      union [[placed pairYX .null, placed pairXY .null]] = .ok [placed pairYX .null] ∧
      (runsJson (fold [placed pairXY .null])).canonical ≠
        (runsJson (fold [placed pairYX .null])).canonical) ∧
    union [[placed .null pairXY, placed .null pairYX]] = .ok [placed .null pairXY] ∧
      union [[placed .null pairYX, placed .null pairXY]] = .ok [placed .null pairYX] ∧
      green (fold [placed .null pairXY]) (some fun host => host == pairXY.pyStr) ≠
        green (fold [placed .null pairYX]) (some fun host => host == pairXY.pyStr) := by
  decide +kernel

def passed : Event :=
  ⟨[("event_id", .str "a"), ("emitted_at", .str "2026-08-03T18:38:32Z"), ("commit", .str "c"),
    ("outcome", .str "pass")], by decide⟩

def passedCopy : Event :=
  ⟨[("outcome", .str "pass"), ("commit", .str "c"), ("emitted_at", .str "2026-08-03T18:38:32Z"),
    ("event_id", .str "a")], by decide⟩

theorem swapped_shards_give_one_view :
    [passed].map canonical = [passedCopy].map canonical ∧
      green (fold [passed]) none = green (fold [passedCopy]) none := by
  have hprint : ∀ key, strGet passed key = strGet passedCopy key →
      PrintsAlike key [[passed], [passedCopy]].flatten := by
    intro key hkey e he f hf _
    simp only [flatten_cons, flatten_nil, append_nil, singleton_append,
      mem_cons, not_mem_nil, or_false] at he hf
    rcases he with rfl | rfl <;> rcases hf with rfl | rfl
    · rfl
    · exact hkey
    · exact hkey.symm
    · rfl
  have hsame : ∀ e, e ∈ [[passed], [passedCopy]].flatten ↔ e ∈ [[passedCopy], [passed]].flatten := by
    simp [or_comm]
  have h := (union_depends_only_on_events [[passed], [passedCopy]] [[passedCopy], [passed]]
    hsame).2.2.2.2 [passed] [passedCopy] (by decide +kernel) (by decide +kernel)
    (hprint "emitted_at" (by decide +kernel))
  exact ⟨h.1, (h.2 (hprint "run_id" (by decide +kernel))
    (hprint "host" (by decide +kernel))).2.2.1 none⟩

end DevHermit.Ledger
