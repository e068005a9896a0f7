import DevHermit.Ledger.Validate
import DevHermit.Ledger.Views

namespace DevHermit.Ledger

open Lib Option List

def eventSource (event : Event) : Json :=
  match (event.get? "producer").getD .null with
  | .obj fields => (fields.lookup "source").getD .null
  | _ => .null

def observed (event : Event) : Bool := eventSource event ≠ .str "reconstructed"

def hostAccepted (hostPred : Option (String → Bool)) (host : String) : Bool :=
  hostPred.all fun pred => pred host

def overrides (event : Event) : Bool :=
  eventType event = .str "run.enrich" ∨ eventType event = .str "run.correct"

def supplied (key : String) (event : Event) : Option Json :=
  if eventType event = .str "run.result" then event.get? key
  else if eventType event = .str "run.enrich" then (payloadGet event key).filter (· ≠ .null)
  else payloadGet event key

def supplier (key : String) (events : List Event) : Option Event :=
  (events.reverse.find? fun e => overrides e && (supplied key e).isSome).or
    (events.find? fun e => (supplied key e).isSome)

def value (key : String) (events : List Event) : Option Json :=
  (supplier key events).bind (supplied key)

def runEvents (events : List Event) (id : String) : List Event :=
  (sortEvents events).filter fun e => runId e = id

theorem get?_applyEvent_supplied (run : Run) (event : Event) (key : String) :
    (applyEvent run event).get? key = if overrides event then (supplied key event).or (run.get? key)
      else (run.get? key).or (supplied key event) := by
  rw [get?_applyEvent, supplied]
  by_cases hresult : eventType event = .str "run.result"
  · have hdefaults : ¬ overrides event = true := by simp [overrides, hresult]
    rw [if_pos hresult, if_pos hresult, if_neg hdefaults]
  · rw [if_neg hresult, if_neg hresult]
    by_cases henrich : eventType event = .str "run.enrich"
    · have hoverrides : overrides event = true := by simp [overrides, henrich]
      rw [if_pos henrich, if_pos henrich, if_pos hoverrides]
    · rw [if_neg henrich, if_neg henrich]
      by_cases hcorrect : eventType event = .str "run.correct"
      · have hoverrides : overrides event = true := by simp [overrides, hcorrect]
        rw [if_pos hcorrect, if_pos hoverrides]
      · have hdefaults : ¬ overrides event = true := by simp [overrides, henrich, hcorrect]
        rw [if_neg hcorrect, if_neg hdefaults]

theorem supplier_concat (key : String) (events : List Event) (event : Event) :
    supplier key (events ++ [event]) = if (supplied key event).isSome then
        if overrides event then some event else (supplier key events).or (some event)
      else supplier key events := by
  rw [supplier, supplier, reverse_append, reverse_singleton, singleton_append,
    List.find?_cons, List.find?_append, List.find?_cons, List.find?_nil]
  cases hs : (supplied key event).isSome <;> cases ho : overrides event <;> simp

variable {event : Event} {events : List Event} {key : String}

theorem supplied_isSome_of_supplier (h : supplier key events = some event) :
    (supplied key event).isSome = true := by
  rw [supplier, or_eq_some_iff] at h
  rcases h with h | ⟨-, h⟩
  · have hfound := List.find?_some h
    rw [Bool.and_eq_true] at hfound
    exact hfound.2
  · have hfound := List.find?_some h
    exact hfound

theorem get?_foldl_applyEvent (key : String) (events : List Event) :
    (events.foldl applyEvent .empty).get? key = value key events := by
  induction events using List.reverseRecOn with
  | nil => rfl
  | append_singleton events event ih =>
    rw [foldl_append, foldl_cons, foldl_nil, get?_applyEvent_supplied, ih, value,
      value, supplier_concat]
    cases hs : supplied key event with
    | none => cases overrides event <;> simp
    | some v =>
      cases ho : overrides event with
      | true => simp [hs]
      | false =>
        cases hsup : supplier key events with
        | none => simp [hs]
        | some first =>
          obtain ⟨w, hw⟩ := isSome_iff_exists.mp (supplied_isSome_of_supplier hsup)
          simp [hw]

theorem get?_foldl_foldEvent (events : List Event) (runs : Dict Run) (id : String) :
    (events.foldl foldEvent runs).get? id =
      if (events.filter fun e => runId e = id) = [] then runs.get? id
      else some ((events.filter fun e => runId e = id).foldl applyEvent
        ((runs.get? id).getD .empty)) := by
  induction events generalizing runs with
  | nil => rfl
  | cons event rest ih =>
    rw [foldl_cons, ih, foldEvent, Dict.get?_upsert, filter_cons]
    by_cases hid : runId event = id
    · subst hid
      simp only [decide_true, if_true, foldl_cons, getD_some]
      split
      case isTrue hnil => simp [hnil]
      case isFalse => simp
    · have hne : id ≠ runId event := fun heq => hid heq.symm
      simp only [hid, decide_false, Bool.false_eq_true, if_false, if_neg hne]

theorem get?_fold (events : List Event) (id : String) : (fold events).get? id =
      if runEvents events id = [] then none
      else some ((runEvents events id).foldl applyEvent .empty) :=
  get?_foldl_foldEvent (sortEvents events) .empty id

variable {id : String} {run : Run}

theorem fold_field (h : (fold events).get? id = some run) (key : String) :
    run.get? key = value key (runEvents events id) := by
  rw [get?_fold] at h
  split at h
  · cases h
  · rw [← Option.some.inj h]
    exact get?_foldl_applyEvent key _

theorem filter_orderedInsert {α : Type} (r : α → α → Prop) [DecidableRel r] [IsTrans α r]
    (p : α → Bool) (a : α) {l : List α} (hl : l.Pairwise r) : (l.orderedInsert r a).filter p =
      if p a then (l.filter p).orderedInsert r a else l.filter p := by
  induction l with
  | nil => cases hp : p a <;> simp [hp]
  | cons b rest ih =>
    rw [pairwise_cons] at hl
    rw [orderedInsert_cons]
    split
    case isTrue hab =>
      have hle : ∀ c ∈ (b :: rest).filter p, r a c := by
        intro c hc
        rcases mem_cons.mp (mem_of_mem_filter hc) with rfl | hmem
        · exact hab
        · exact IsTrans.trans a b c hab (hl.1 c hmem)
      rw [filter_cons]
      split
      · cases hfilter : (b :: rest).filter p with
        | nil => rfl
        | cons c others => rw [orderedInsert_cons, if_pos (hle c (hfilter ▸ mem_cons_self))]
      · rfl
    case isFalse hab =>
      rw [filter_cons, ih hl.2, filter_cons]
      cases hb : p b <;> cases ha : p a <;> simp [hab]

theorem sortEvents_filter (p : Event → Bool) (events : List Event) :
    sortEvents (events.filter p) = (sortEvents events).filter p := by
  induction events with
  | nil => rfl
  | cons e rest ih =>
    have : IsTrans Event fun e f => eventKey e ≤ eventKey f :=
      ⟨fun _ _ _ hab hbc => le_trans hab hbc⟩
    have hsorted : (sortEvents rest).Pairwise fun e f => eventKey e ≤ eventKey f :=
      pairwise_insertionSort _ rest
    have hinsert := filter_orderedInsert (fun e f => eventKey e ≤ eventKey f) p e hsorted
    have hcons : sortEvents (e :: rest) =
      (sortEvents rest).orderedInsert (fun e f => eventKey e ≤ eventKey f) e := rfl
    rw [hcons, hinsert, filter_cons, ← ih]
    cases hp : p e <;> rfl

theorem runEvents_filter (p : Event → Bool) (events : List Event) (id : String) :
    runEvents (events.filter p) id = (runEvents events id).filter p := by
  rw [runEvents, runEvents, sortEvents_filter, filter_comm]

theorem fold_reads_own_events (events : List Event) (id : String) :
    (fold events).get? id = (fold (events.filter fun e => runId e = id)).get? id := by
  rw [get?_fold, get?_fold, runEvents_filter, runEvents, List.filter_filter]
  simp only [Bool.and_self]

theorem find?_filter_of_find? {α : Type} {p q : α → Bool} {l : List α} {a : α}
    (h : l.find? q = some a) (hp : p a = true) : (l.filter p).find? q = some a := by
  induction l with
  | nil => cases h
  | cons b rest ih =>
    rw [List.find?_cons] at h
    rw [filter_cons]
    cases hq : q b with
    | true =>
      rw [hq] at h
      cases h
      rw [if_pos hp, List.find?_cons, hq]
    | false =>
      rw [hq] at h
      split
      · rw [List.find?_cons, hq, ih h]
      · exact ih h

theorem supplier_filter {p : Event → Bool} (h : supplier key events = some event)
    (hp : p event = true) : supplier key (events.filter p) = some event := by
  rw [supplier, or_eq_some_iff] at h
  rw [supplier, or_eq_some_iff, ← filter_reverse]
  rcases h with h | ⟨hnone, h⟩
  · exact Or.inl (find?_filter_of_find? h hp)
  · refine Or.inr ⟨List.find?_eq_none.mpr fun e he => ?_, find?_filter_of_find? h hp⟩
    exact List.find?_eq_none.mp hnone e (mem_of_mem_filter he)

theorem mem_of_supplier (h : supplier key events = some event) : event ∈ events := by
  rw [supplier, or_eq_some_iff] at h
  rcases h with h | ⟨-, h⟩
  · exact mem_reverse.mp (List.mem_of_find?_eq_some h)
  · exact List.mem_of_find?_eq_some h

def sourceAccepted (producer : Json) : Bool :=
  match producer with
  | .obj fields =>
    let source := (fields.lookup "source").getD .null
    source.hashable && source ≠ .str "reconstructed"
  | producer => !producer.truthy

structure ReadsGreen (hostPred : Option (String → Bool)) (field : String → Option Json) : Prop where
  outcome : field "outcome" = some (.str "pass")
  source : sourceAccepted ((field "producer").getD .null) = true
  host : hostAccepted hostPred (((field "host").map Json.pyStr).getD "") = true

theorem inFrozenset_nonGreen (source : Json) : inFrozenset source nonGreenSources = .ok false ↔
      source.hashable = true ∧ source ≠ .str "reconstructed" := by
  rw [inFrozenset]
  split_ifs with h
  · simp [h, nonGreenSources]
  · simp [h]

theorem producerSource_accepted (run : Run) :
    (do let source ← producerSource run
        inFrozenset source nonGreenSources) = .ok false ↔
      sourceAccepted ((run.get? "producer").getD .null) = true := by
  rw [producerSource]
  cases (run.get? "producer").getD .null with
  | obj fields =>
    rw [sourceAccepted, Bool.and_eq_true, decide_eq_true_iff]
    exact inFrozenset_nonGreen _
  | _ =>
    simp only [sourceAccepted]
    split_ifs with h
    · simp [h, bind, Except.bind]
    · simp [h, bind, Except.bind, inFrozenset, Json.hashable, nonGreenSources]

theorem isGreenRun_iff (hostPred : Option (String → Bool)) (run : Run) :
    isGreenRun hostPred run = .ok true ↔ ReadsGreen hostPred run.get? := by
  have hsource := producerSource_accepted run
  rw [isGreenRun]
  by_cases hpass : run.get? "outcome" = some (.str "pass")
  · rw [if_neg (by rw [hpass]; simp)]
    cases hp : producerSource run with
    | error err =>
      rw [hp] at hsource
      refine iff_of_false (by rintro ⟨⟩) fun h => ?_
      cases hsource.mpr h.source
    | ok source =>
      rw [hp] at hsource
      cases hin : inFrozenset source nonGreenSources with
      | error err =>
        simp only [bind, Except.bind, hin] at hsource
        refine iff_of_false (fun h => by simp [bind, Except.bind, hin] at h) fun h => ?_
        cases hsource.mpr h.source
      | ok excluded =>
        simp only [bind, Except.bind, hin] at hsource
        cases excluded with
        | true =>
          refine iff_of_false (fun h => ?_) fun h => ?_
          · simp [bind, Except.bind, hin, pure, Except.pure] at h
          · cases hsource.mpr h.source
        | false =>
          simp only [bind, Except.bind, hin, Bool.false_eq_true, if_false, pure, Except.pure,
            Except.ok.injEq]
          exact ⟨fun h => ⟨hpass, hsource.mp rfl, h⟩, fun h => h.host⟩
  · refine iff_of_false (fun h => ?_) fun h => hpass h.outcome
    rw [if_pos] at h
    · cases h
    · cases hout : run.get? "outcome" with
      | none => simp
      | some v =>
        rw [hout] at hpass
        simpa using hpass

def Rebuilt (events : List Event) (id : String) : Prop :=
  (∃ f ∈ events, runId f = id ∧ eventType f = .str "run.result") ∧
    ∀ f ∈ events, runId f = id → eventType f = .str "run.result" → observed f = false

def Unforged (hostPred : Option (String → Bool)) (events : List Event) : Prop :=
  ∀ e ∈ events, Rebuilt events (runId e) ∨
    ((supplied "outcome" e).isSome = true →
      observed e = true ∧ hostAccepted hostPred (strGet e "host") = true) ∧
    ((supplied "commit" e).isSome = true → observed e = true)

structure Evidenced (hostPred : Option (String → Bool)) (events : List Event) (id : String)
    (run : Run) : Prop where
  witnessed : ∃ e ∈ events, runId e = id ∧ supplier "outcome" (runEvents events id) = some e ∧
    supplied "outcome" e = some (.str "pass") ∧ observed e = true ∧
    hostAccepted hostPred (strGet e "host") = true
  survives : ∃ rest, (fold (events.filter observed)).get? id = some rest ∧
    rest.get? "commit" = run.get? "commit" ∧ rest.get? "outcome" = some (.str "pass")

def GreenRun (hostPred : Option (String → Bool)) (events : List Event) (id : String)
    (run : Run) : Prop :=
  (fold events).get? id = some run ∧ isGreenRun hostPred run = .ok true ∧
    (run.get? "commit").any Json.truthy = true

theorem mem_runEvents {e : Event} : e ∈ runEvents events id ↔ e ∈ events ∧ runId e = id := by
  rw [runEvents, mem_filter, (sortEvents_perm events).mem_iff, decide_eq_true_iff]

theorem fold_filter_observed {e : Event} (he : e ∈ runEvents events id) (hobs : observed e = true) :
    ∃ rest, (fold (events.filter observed)).get? id = some rest ∧
      ∀ key, rest.get? key = value key ((runEvents events id).filter observed) := by
  have hne : runEvents (events.filter observed) id ≠ [] := by
    rw [runEvents_filter]
    exact ne_nil_of_mem (mem_filter.mpr ⟨he, hobs⟩)
  refine ⟨_, (get?_fold _ id).trans (if_neg hne), fun key => ?_⟩
  rw [get?_foldl_applyEvent, runEvents_filter]

variable {hostPred : Option (String → Bool)}

theorem supplied_producer (h : (supplied "producer" event).isSome = true) :
    eventType event = .str "run.result" := by
  by_contra hresult
  have hpayload : payloadGet event "producer" = none := by simp [payloadGet, envelopeKeys]
  rw [supplied, if_neg hresult, hpayload] at h
  split_ifs at h
  all_goals cases h

theorem not_green_of_rebuilt (h : Rebuilt events id) :
    sourceAccepted ((value "producer" (runEvents events id)).getD .null) = false := by
  obtain ⟨⟨f, hf, hid, hresult⟩, hall⟩ := h
  have hsource : ∀ f ∈ events, runId f = id → eventType f = .str "run.result" →
      ∃ fields, f.get? "producer" = some (.obj fields) ∧
        (fields.lookup "source").getD .null = .str "reconstructed" := by
    intro f hf hid hresult
    have hrec : eventSource f = .str "reconstructed" := by
      simpa [observed] using hall f hf hid hresult
    rw [eventSource] at hrec
    cases hget : f.get? "producer" with
    | none =>
      rw [hget] at hrec
      cases hrec
    | some producer =>
      rw [hget, getD_some] at hrec
      cases producer with
      | obj fields => exact ⟨fields, rfl, hrec⟩
      | _ => cases hrec
  have hsupplied : ∀ f, eventType f = .str "run.result" → supplied "producer" f = f.get? "producer" :=
    fun f hresult => if_pos hresult
  cases hsup : supplier "producer" (runEvents events id) with
  | none =>
    rw [supplier, or_eq_none_iff] at hsup
    obtain ⟨fields, hfields, -⟩ := hsource f hf hid hresult
    refine absurd ?_ (List.find?_eq_none.mp hsup.2 f (mem_runEvents.mpr ⟨hf, hid⟩))
    rw [hsupplied f hresult, hfields]
    rfl
  | some e =>
    have hresult := supplied_producer (supplied_isSome_of_supplier hsup)
    obtain ⟨he, hid⟩ := mem_runEvents.mp (mem_of_supplier hsup)
    obtain ⟨fields, hfields, hrec⟩ := hsource e he hid hresult
    rw [value, hsup, bind_some, hsupplied e hresult, hfields, getD_some, sourceAccepted, hrec]
    simp

theorem value_filter_observed (h : ∀ e ∈ events, (supplied key e).isSome = true →
    observed e = true) (hsome : (value key events).isSome = true) :
    value key (events.filter observed) = value key events := by
  cases hsup : supplier key events with
  | none =>
    rw [value, hsup] at hsome
    cases hsome
  | some e =>
    have hobs := h e (mem_of_supplier hsup) (supplied_isSome_of_supplier hsup)
    rw [value, supplier_filter hsup hobs, value, hsup]

theorem Unforged.evidenced (h : Unforged hostPred events) (hgreen : GreenRun hostPred events id run) :
    Evidenced hostPred events id run := by
  obtain ⟨hrun, hreads, hcommit⟩ := hgreen
  obtain ⟨hpass, hsource, -⟩ := (isGreenRun_iff hostPred run).mp hreads
  have hrebuilt : ¬ Rebuilt events id := by
    intro hrebuilt
    rw [fold_field hrun, not_green_of_rebuilt hrebuilt] at hsource
    cases hsource
  have hclean : ∀ e ∈ runEvents events id, ((supplied "outcome" e).isSome = true →
      observed e = true ∧ hostAccepted hostPred (strGet e "host") = true) ∧
      ((supplied "commit" e).isSome = true → observed e = true) := by
    intro e he
    obtain ⟨hevent, rfl⟩ := mem_runEvents.mp he
    exact (h e hevent).resolve_left hrebuilt
  rw [fold_field hrun, value, bind_eq_some_iff] at hpass
  obtain ⟨e, hsup, hpass⟩ := hpass
  have hmem := mem_of_supplier hsup
  obtain ⟨hobs, hhost⟩ := (hclean e hmem).1 (supplied_isSome_of_supplier hsup)
  obtain ⟨rest, hrest, hfield⟩ := fold_filter_observed hmem hobs
  obtain ⟨hevent, hid⟩ := mem_runEvents.mp hmem
  refine ⟨⟨e, hevent, hid, hsup, hpass, hobs, hhost⟩, rest, hrest, ?_, ?_⟩
  · rw [fold_field hrun] at hcommit
    rw [hfield, fold_field hrun]
    exact value_filter_observed (fun e he => (hclean e he).2) (isSome_of_any hcommit)
  · rw [hfield, value, supplier_filter hsup hobs, bind_some, hpass]

def observedFail : Event :=
  ⟨[("schema", .str envelopeVersion), ("event_id", .str "01A"), ("event_type", .str "run.result"),
    ("emitted_at", .str "2026-08-03T18:38:32Z"), ("team", .str "hermit"),
    ("host", .str "devbig014"), ("run_id", .str "01A"),
    ("producer", .obj [("source", .str "observed")]), ("commit", .str "469a0f92"),
    ("outcome", .str "fail")], by decide⟩

def reconstructedPass : Event :=
  ⟨[("schema", .str envelopeVersion), ("event_id", .str "01B"), ("event_type", .str "run.correct"),
    ("supersedes", .str "01A"), ("emitted_at", .str "2026-08-03T20:11:00Z"),
    ("team", .str "hermit"), ("host", .str "devbig014"), ("run_id", .str "01A"),
    ("producer", .obj [("source", .str "reconstructed")]), ("outcome", .str "pass"),
    ("reason", .str "inferred from the banner")], by decide⟩

def observedPass : Event :=
  ⟨[("schema", .str envelopeVersion), ("event_id", .str "01C"), ("event_type", .str "run.correct"),
    ("supersedes", .str "01A"), ("emitted_at", .str "2026-08-03T21:00:00Z"),
    ("team", .str "hermit"), ("host", .str "devbig014"), ("run_id", .str "01A"),
    ("producer", .obj [("source", .str "observed")]), ("outcome", .str "pass"),
    ("reason", .str "rerun")], by decide⟩

def reconstructedNote : Event :=
  ⟨[("schema", .str envelopeVersion), ("event_id", .str "01D"), ("event_type", .str "run.enrich"),
    ("enriches", .str "01A"), ("emitted_at", .str "2026-08-03T22:00:00Z"),
    ("team", .str "hermit"), ("host", .str "devbig014"), ("run_id", .str "01A"),
    ("producer", .obj [("source", .str "reconstructed")]), ("note", .str "from the log"),
    ("outcome", .null)], by decide⟩

end DevHermit.Ledger
