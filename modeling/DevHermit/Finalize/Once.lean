import DevHermit.Finalize.Mint

namespace DevHermit.Finalize

open Lib Receipt List Fields

def Authority.Qualifies (authority : Authority) (row : Row) (sha : String) : Prop :=
  ∃ digest, authority.qualifying row sha = .ok digest

section

variable {rows : List Row} {p : Row → Bool}

theorem mem_placesOf {i : Nat} :
    i ∈ placesOf rows p ↔ ∃ row, rows[i]? = some row ∧ p row = true := by
  rw [placesOf, List.mem_map]
  constructor
  · rintro ⟨⟨row, j⟩, hmem, rfl⟩
    rw [mem_filter, mem_zipIdx_iff_getElem?] at hmem
    exact ⟨row, hmem.1, hmem.2⟩
  · rintro ⟨row, hrow, hp⟩
    refine ⟨(row, i), ?_, rfl⟩
    rw [mem_filter, mem_zipIdx_iff_getElem?]
    exact ⟨hrow, hp⟩

theorem length_placesOf : (placesOf rows p).length = (rows.filter p).length := by
  have hmap : (rows.zipIdx.filter fun e => p e.1).map Prod.fst = rows.filter p := by
    have hfilter : (rows.zipIdx.map Prod.fst).filter p =
        (rows.zipIdx.filter (p ∘ Prod.fst)).map Prod.fst := List.filter_map
    rw [zipIdx_map_fst] at hfilter
    exact hfilter.symm
  rw [placesOf, length_map, ← hmap, length_map]

theorem placesOf_singleton {row : Row} (h : rows.filter p = [row]) :
    ∃ i, placesOf rows p = [i] ∧ ∀ j src, rows[j]? = some src → p src = true → j = i := by
  have hlen : (placesOf rows p).length = 1 := by rw [length_placesOf, h, length_singleton]
  obtain ⟨i, hi⟩ := length_eq_one_iff.mp hlen
  refine ⟨i, hi, fun j src hsrc hp => ?_⟩
  have hmem : j ∈ placesOf rows p := mem_placesOf.mpr ⟨src, hsrc, hp⟩
  rw [hi] at hmem
  exact mem_singleton.mp hmem

end

section

variable {authority : Authority} {isWord : Char → Bool} {rows : List Row} {sha digest : String}
  {row : Row}

theorem filter_of_resolved (h : resolveSelectedRow authority rows sha digest = .ok row) :
    rows.filter (isSelected authority sha digest) = [row] := by
  rw [resolveSelectedRow] at h
  split_ifs at h
  split at h
  case h_1 => cases h
  case h_2 found hfound =>
    cases h
    exact hfound
  case h_3 => cases h

theorem no_claim_of_none (h : existingFinalization authority rows sha digest = .ok none) :
    ∀ row ∈ rows, claimsSource sha digest row = false := by
  rw [existingFinalization] at h
  split at h
  case h_1 hnil =>
    intro row hrow
    have := filter_eq_nil_iff.mp hnil row hrow
    simpa using this
  case h_2 => split at h <;> cases h
  case h_3 => cases h

theorem claim_of_existing (h : existingFinalization authority rows sha digest = .ok (some row)) :
    row ∈ rows ∧ claimsSource sha digest row = true ∧ authority.Qualifies row sha := by
  rw [existingFinalization] at h
  split at h
  case h_1 => cases h
  case h_2 found hfound =>
    split at h
    case h_1 d hd =>
      cases h
      have hmem : row ∈ rows.filter (claimsSource sha digest) := by
        rw [hfound]
        exact mem_singleton_self row
      exact ⟨(mem_filter.mp hmem).1, (mem_filter.mp hmem).2, d, hd⟩
    case h_2 => cases h
  case h_3 => cases h

theorem cloneUpgraded_claims {baseRow : Row} {c : CoverageObject} {base : BaseEvidence}
    (hcommit : value baseRow.get? "commit" = .str sha) :
    claimsSource sha digest (cloneUpgraded baseRow (derivedFields c base) digest) = true := by
  have hnodup : ((derivedFields c base).map Prod.fst).Nodup := by simp [derivedFields]
  have hfrom : (cloneUpgraded baseRow (derivedFields c base) digest).get? "finalized_from" =
      some (finalizedFrom baseRow digest) := by
    rw [cloneUpgraded, Dict.get?_set, if_neg (by decide), Dict.get?_set, if_pos rfl]
  have hkeep : value (cloneUpgraded baseRow (derivedFields c base) digest).get? "commit" =
      .str sha := by
    rw [value, cloneUpgraded, Dict.get?_set, if_neg (by decide), Dict.get?_set,
      if_neg (by decide), Dict.get?_update _ _ hnodup]
    exact hcommit
  rw [claimsSource, hkeep, value, hfrom]
  simp [finalizedFrom, of, value, List.lookup]

variable {ready : Preflight} {reads : Reads} {selected : Row}

def Outcome.endorses : Outcome → Bool
  | .report r => r.reason = .minted || r.reason = .alreadyFinalized
  | _ => false

variable {outcome : Outcome}

theorem gatherEvidence_cases (isWord : Char → Bool) (authority : Authority) (sha digest : String)
    (selected : Row) (reads : Reads) :
    (∃ outcome, gatherEvidence isWord authority sha digest selected reads = .error outcome ∧
      outcome.endorses = false) ∨
    ∃ ready, gatherEvidence isWord authority sha digest selected reads = .ok ready ∧
      isCountlessCleanFullPass selected = true ∧ authority.Qualifies ready.clone sha ∧
      ∃ c base, ready.clone = cloneUpgraded selected (derivedFields c base) digest := by
  rw [gatherEvidence]
  split
  case isTrue => exact .inl ⟨_, rfl, rfl⟩
  case isFalse hcountless =>
  split
  · exact .inl ⟨_, rfl, rfl⟩
  split
  case h_2 => exact .inl ⟨_, rfl, rfl⟩
  case h_1 =>
  split
  · exact .inl ⟨_, rfl, rfl⟩
  split
  case h_1 => exact .inl ⟨_, rfl, rfl⟩
  case h_2 c _ =>
  split
  case h_1 => exact .inl ⟨_, rfl, rfl⟩
  case h_2 base _ =>
  split
  · exact .inl ⟨_, rfl, rfl⟩
  dsimp only
  split
  case h_1 => exact .inl ⟨_, rfl, rfl⟩
  case h_2 d hd => exact .inr ⟨_, rfl, by simpa using hcountless, ⟨d, hd⟩, c, base, rfl⟩

variable {dryRun : Bool}

theorem decideAppend_inl (h : decideAppend authority rows sha digest dryRun ready = .inl outcome)
    (hend : outcome.endorses = true) :
    ∃ row ∈ rows, claimsSource sha digest row = true ∧ authority.Qualifies row sha := by
  rw [decideAppend] at h
  split at h
  · cases h
    cases hend
  split at h
  case h_1 =>
    cases h
    cases hend
  case h_2 row hrow => exact ⟨row, claim_of_existing hrow⟩
  case h_3 =>
  split at h
  · cases h
    cases hend
  · cases h

theorem decideAppend_inr (h : decideAppend authority rows sha digest dryRun ready = .inr row) :
    row = ready.clone ∧ (∃ src, rows.filter (isSelected authority sha digest) = [src]) ∧
      ∀ row ∈ rows, claimsSource sha digest row = false := by
  rw [decideAppend] at h
  split at h
  case h_1 => cases h
  case h_2 src hsrc =>
  split at h
  case h_1 => cases h
  case h_2 => cases h
  case h_3 hnone =>
  split at h
  · cases h
  · cases h
    exact ⟨rfl, ⟨src, filter_of_resolved hsrc⟩, no_claim_of_none hnone⟩

end

variable {authority : Authority} {isWord : Char → Bool} {rows : List Row}

structure Mint.Ok (authority : Authority) (rows : List Row) (m : Mint) : Prop where
  row : rows[m.place]? = some m.row
  claims : claimsSource m.sha m.digest m.row = true
  qualifies : authority.Qualifies m.row m.sha
  unique : placesOf (rows.take m.place) (isSelected authority m.sha m.digest) = [m.source]
  source : ∃ src c base, rows[m.source]? = some src ∧ isCountlessCleanFullPass src = true ∧
    m.row = cloneUpgraded src (derivedFields c base) m.digest

def Call.Endorsed (authority : Authority) (rows : List Row) (call : Call) : Prop :=
  ∃ row ∈ rows, claimsSource call.sha call.digest row = true ∧ authority.Qualifies row call.sha

def Call.Ok (authority : Authority) (rows : List Row) (call : Call) : Prop :=
  match call.stage with
  | .opened => True
  | .selected row => ∃ i : Nat, rows[i]? = some row ∧
      isSelected authority call.sha call.digest row = true
  | .ready preflight => authority.Qualifies preflight.clone call.sha ∧
      ∃ (i : Nat) (src : Row) (c : CoverageObject) (base : BaseEvidence), rows[i]? = some src ∧
        isSelected authority call.sha call.digest src = true ∧
        isCountlessCleanFullPass src = true ∧
        preflight.clone = cloneUpgraded src (derivedFields c base) call.digest
  | .done outcome => outcome.endorses = true → call.Endorsed authority rows

variable {row : Row}

theorem getElem?_grow {i : Nat} (h : rows[i]? = some row) (more : List Row) :
    (rows ++ more)[i]? = some row := by
  rw [List.getElem?_append_left (List.getElem?_eq_some_iff.mp h).1]
  exact h

theorem Mint.Ok.grow {m : Mint} (h : m.Ok authority rows) (more : List Row) :
    m.Ok authority (rows ++ more) where
  row := getElem?_grow h.row more
  claims := h.claims
  qualifies := h.qualifies
  unique := by
    have hlt := (List.getElem?_eq_some_iff.mp h.row).1
    rw [take_append_of_le_length (Nat.le_of_lt hlt)]
    exact h.unique
  source := by
    obtain ⟨src, c, base, hsrc, hrest⟩ := h.source
    exact ⟨src, c, base, getElem?_grow hsrc more, hrest⟩

variable {call : Call}

theorem Call.Ok.grow (h : call.Ok authority rows) (more : List Row) :
    call.Ok authority (rows ++ more) := by
  rw [Call.Ok] at h ⊢
  cases hstage : call.stage with
  | opened => trivial
  | selected row =>
    rw [hstage] at h
    obtain ⟨i, hi, hsel⟩ := h
    exact ⟨i, getElem?_grow hi more, hsel⟩
  | ready preflight =>
    rw [hstage] at h
    obtain ⟨hqual, i, src, c, base, hi, hsrc⟩ := h
    exact ⟨hqual, i, src, c, base, getElem?_grow hi more, hsrc⟩
  | done outcome =>
    rw [hstage] at h
    intro hend
    obtain ⟨row, hmem, hrow⟩ := h hend
    exact ⟨row, mem_append_left _ hmem, hrow⟩

variable {Line : Type} {text : LedgerText Line}

structure World.Ok (text : LedgerText Line) (authority : Authority) (w : World Line) : Prop where
  mints : ∀ m ∈ w.mints, m.Ok authority (rowsOf text w.ledger)
  once : (w.mints.map fun m => (m.sha, m.digest)).Nodup
  calls : ∀ call ∈ w.calls, call.Ok authority (rowsOf text w.ledger)

theorem rowsOf_append (ledger : List Line) (line : Line) :
    rowsOf text (ledger ++ [line]) = rowsOf text ledger ++ text.rowsIn line := by
  rw [rowsOf, flatMap_append, flatMap_singleton]
  rfl

variable {w : World Line}

theorem World.Ok.append (h : w.Ok text authority) (line : Line) :
    World.Ok text authority { w with ledger := w.ledger ++ [line] } where
  mints m hm := by
    rw [rowsOf_append]
    exact (h.mints m hm).grow _
  once := h.once
  calls call hcall := by
    rw [rowsOf_append]
    exact (h.calls call hcall).grow _

variable {p : Nat}

theorem World.Ok.setStage (h : w.Ok text authority) {stage : Stage}
    (hstage : Call.Ok authority (rowsOf text w.ledger) { call with stage := stage }) :
    (w.setStage p call stage).Ok text authority where
  mints := h.mints
  once := h.once
  calls call' hcall' := by
    rcases mem_or_eq_of_mem_set hcall' with hmem | rfl
    · exact h.calls call' hmem
    · exact hstage

theorem selectStep_ok (call : Call) :
    Call.Ok authority rows { call with stage := selectStep authority rows call } := by
  rw [Call.Ok, selectStep]
  cases hres : resolveSelectedRow authority rows call.sha call.digest with
  | error e => exact nofun
  | ok row =>
    have hmem : row ∈ rows.filter (isSelected authority call.sha call.digest) := by
      rw [filter_of_resolved hres]
      exact mem_singleton_self row
    obtain ⟨hrow, hsel⟩ := mem_filter.mp hmem
    obtain ⟨i, hi⟩ := mem_iff_getElem?.mp hrow
    exact ⟨i, hi, hsel⟩

variable {digest sha : String}

theorem commit_of_isSelected (h : isSelected authority sha digest row = true) :
    value row.get? "commit" = .str sha := by
  rw [isSelected, Bool.and_eq_true, decide_eq_true_eq] at h
  exact h.1

theorem gatherStep_ok (hstage : call.stage = .selected row) (h : call.Ok authority rows)
    (reads : Reads) : Call.Ok authority rows
      { call with stage := gatherStep isWord authority call row reads } := by
  rw [Call.Ok, hstage] at h
  obtain ⟨i, hi, hsel⟩ := h
  rcases gatherEvidence_cases isWord authority call.sha call.digest row reads with
    ⟨outcome, hgather, hrefused⟩ | ⟨ready, hgather, hcountless, hqual, c, base, hclone⟩
  · rw [Call.Ok, gatherStep, hgather]
    exact fun hend => absurd (hrefused.symm.trans hend) Bool.false_ne_true
  · rw [Call.Ok, gatherStep, hgather]
    exact ⟨hqual, i, row, c, base, hi, hsel, hcountless, hclone⟩

theorem commitStep_ok (h : w.Ok text authority) {ready : Preflight}
    (hcall : call.Ok authority (rowsOf text w.ledger)) (hstage : call.stage = .ready ready) :
    (commitStep text authority w p call ready).Ok text authority := by
  rw [Call.Ok, hstage] at hcall
  obtain ⟨hqual, i, src, c, base, hi, hsel, hcountless, hclone⟩ := hcall
  have hclaims : claimsSource call.sha call.digest ready.clone = true := by
    rw [hclone]
    exact cloneUpgraded_claims (commit_of_isSelected hsel)
  rw [commitStep]
  cases hdecide : decideAppend authority (rowsOf text w.ledger) call.sha call.digest call.dryRun
      ready with
  | inl outcome => exact h.setStage (decideAppend_inl hdecide)
  | inr row =>
    obtain ⟨rfl, ⟨found, hfound⟩, hnone⟩ := decideAppend_inr hdecide
    obtain ⟨j, hplaces, honly⟩ := placesOf_singleton hfound
    have hij : i = j := honly i src hi hsel
    subst hij
    have hrows : rowsOf text (w.ledger ++ [text.render ready.clone]) =
        rowsOf text w.ledger ++ [ready.clone] := by
      rw [rowsOf_append, text.rowsIn_render]
    have hlast : (rowsOf text w.ledger ++ [ready.clone])[(rowsOf text w.ledger).length]? =
        some ready.clone := List.getElem?_concat_length
    constructor
    · intro m hm
      rw [hrows]
      rcases mem_append.mp hm with hm | hm
      · exact (h.mints m hm).grow _
      · rw [mem_singleton] at hm
        subst hm
        refine ⟨hlast, hclaims, hqual, ?_, src, c, base, ?_, hcountless, hclone⟩
        · rw [take_left, hplaces]
          rfl
        · rw [hplaces]
          exact getElem?_grow hi _
    · rw [map_append, map_singleton]
      refine nodup_append.mpr ⟨h.once, nodup_singleton _, ?_⟩
      intro key hkey key' hkey' heq
      obtain ⟨m, hm, rfl⟩ := List.mem_map.mp hkey
      rw [mem_singleton] at hkey'
      rw [hkey', Prod.mk.injEq] at heq
      have hclaim := (h.mints m hm).claims
      rw [heq.1, heq.2, hnone m.row (mem_of_getElem? (h.mints m hm).row)] at hclaim
      cases hclaim
    · intro call' hcall'
      rw [hrows]
      rcases mem_or_eq_of_mem_set hcall' with hmem | rfl
      · exact (h.calls call' hmem).grow _
      · exact fun _ => ⟨ready.clone, mem_append_right _ (mem_singleton_self _), hclaims, hqual⟩

variable {w' : World Line} {e : Event Line}

theorem step_ok (h : w.Ok text authority) (hstep : step text isWord authority w e = some w') :
    w'.Ok text authority := by
  cases e with
  | append line =>
    cases hstep
    exact h.append line
  | call sha digest dryRun =>
    cases hstep
    refine ⟨h.mints, h.once, fun call hcall => ?_⟩
    rcases mem_append.mp hcall with hmem | hmem
    · exact h.calls call hmem
    · rw [mem_singleton] at hmem
      subst hmem
      trivial
  | select p =>
    rw [step] at hstep
    split at hstep
    case h_2 => cases hstep
    case h_1 call hcall =>
    split at hstep
    case h_2 => cases hstep
    case h_1 =>
      cases hstep
      exact h.setStage (selectStep_ok call)
  | gather p reads =>
    rw [step] at hstep
    split at hstep
    case h_2 => cases hstep
    case h_1 call hcall =>
    split at hstep
    case h_2 => cases hstep
    case h_1 row hstage =>
      cases hstep
      exact h.setStage (gatherStep_ok hstage (h.calls call (mem_of_getElem? hcall)) reads)
  | commit p =>
    rw [step] at hstep
    split at hstep
    case h_2 => cases hstep
    case h_1 call hcall =>
    split at hstep
    case h_2 => cases hstep
    case h_1 preflight hstage =>
      cases hstep
      exact commitStep_ok h (h.calls call (mem_of_getElem? hcall)) hstage

variable {ledger : List Line}

theorem reachable_ok (h : (system text isWord authority ledger).Reachable w) :
    w.Ok text authority := by
  refine h.invariant ⟨?_, nodup_nil, ?_⟩ fun _ _ _ hok _ hstep => step_ok hok hstep
  · exact fun m hm => by cases hm
  · exact fun call hcall => by cases hcall

def finalizedDigest (row : Row) : Option String :=
  match Fields.value row.get? "finalized_from" with
  | .obj entries => ((Fields.of entries).value "digest").asStr
  | _ => none

theorem finalizedDigest_of_claims (h : claimsSource sha digest row = true) :
    value row.get? "commit" = .str sha ∧ finalizedDigest row = some digest := by
  rw [claimsSource, Bool.and_eq_true, decide_eq_true_eq] at h
  refine ⟨h.1, ?_⟩
  rw [finalizedDigest]
  cases hfrom : value row.get? "finalized_from" with
  | obj entries =>
    have hrest := h.2
    rw [hfrom] at hrest
    simp only [Bool.and_eq_true, decide_eq_true_eq] at hrest
    simp only [hrest.1.2, Json.asStr]
  | _ =>
    have hrest := h.2
    rw [hfrom] at hrest
    cases hrest

theorem step_grows (hstep : step text isWord authority w e = some w') :
    ∃ more, w'.ledger = w.ledger ++ more := by
  cases e with
  | append line =>
    cases hstep
    exact ⟨[line], rfl⟩
  | call sha digest dryRun =>
    cases hstep
    exact ⟨[], (append_nil _).symm⟩
  | select p | gather p reads =>
    rw [step] at hstep
    split at hstep
    case h_2 => cases hstep
    case h_1 =>
    split at hstep
    case h_2 => cases hstep
    case h_1 =>
      cases hstep
      exact ⟨[], (append_nil _).symm⟩
  | commit p =>
    rw [step] at hstep
    split at hstep
    case h_2 => cases hstep
    case h_1 =>
    split at hstep
    case h_2 => cases hstep
    case h_1 =>
      cases hstep
      rw [commitStep]
      split
      case h_1 => exact ⟨[], (append_nil _).symm⟩
      case h_2 row _ => exact ⟨[text.render row], rfl⟩

theorem run_grows {events : List (Event Line)}
    (h : (system text isWord authority ledger).run (fun _ _ => True) w events = some w') :
    ∃ more, w'.ledger = w.ledger ++ more := by
  induction events generalizing w with
  | nil =>
    cases h
    exact ⟨[], (append_nil _).symm⟩
  | cons e events ih =>
    rw [System.run, if_pos trivial] at h
    obtain ⟨w₁, hstep, hrun⟩ := Option.bind_eq_some_iff.mp h
    obtain ⟨more, hmore⟩ := step_grows hstep
    obtain ⟨more', hmore'⟩ := ih hrun
    exact ⟨more ++ more', by rw [hmore', hmore, append_assoc]⟩

theorem finalization_mints_at_most_once (text : LedgerText Line) (isWord : Char → Bool)
    (authority : Authority) (ledger : List Line) {w : World Line}
    (h : (system text isWord authority ledger).Reachable w) :
    (∀ events w', (system text isWord authority ledger).run (fun _ _ => True) w events = some w' →
      content text w.ledger <+: content text w'.ledger) ∧
    (∀ sha digest, (w.mints.filter fun m =>
      m.sha = sha ∧ finalizedDigest m.row = some digest).length ≤ 1) ∧
    (∀ m ∈ w.mints, (rowsOf text w.ledger)[m.place]? = some m.row ∧
      finalizedDigest m.row = some m.digest ∧ authority.Qualifies m.row m.sha ∧
      placesOf ((rowsOf text w.ledger).take m.place) (isSelected authority m.sha m.digest) =
        [m.source] ∧ ∃ src c base, (rowsOf text w.ledger)[m.source]? = some src ∧
        m.row = cloneUpgraded src (derivedFields c base) m.digest) ∧
    (∀ call ∈ w.calls, ∀ r, call.stage = .done (.report r) →
      r.reason = .minted ∨ r.reason = .alreadyFinalized →
      ∃ row ∈ rowsOf text w.ledger, Fields.value row.get? "commit" = .str call.sha ∧
        finalizedDigest row = some call.digest ∧ authority.Qualifies row call.sha) ∧
    ((∀ row sha, authority.Qualifies row sha →
        ∃ n > 0, Fields.value row.get? "executed_tests" = .int n) →
      ∀ m ∈ w.mints, ∀ m' ∈ w.mints, m'.source ≠ m.place) := by
  have hok := reachable_ok h
  refine ⟨?_, ?_, ?_, ?_, ?_⟩
  · intro events w' hrun
    obtain ⟨more, hmore⟩ := run_grows hrun
    rw [hmore, content, content, flatMap_append]
    exact prefix_append _ _
  · intro sha digest
    have hsub : (w.mints.filter fun m => m.sha = sha ∧ finalizedDigest m.row = some digest) =
        w.mints.filter fun m => (m.sha, m.digest) = (sha, digest) := by
      refine filter_congr fun m hm => decide_eq_decide.mpr ?_
      rw [(finalizedDigest_of_claims (hok.mints m hm).claims).2, Option.some.injEq, Prod.mk.injEq]
    have hcount := nodup_iff_count_le_one.mp hok.once (sha, digest)
    rw [List.count, countP_map, countP_eq_length_filter] at hcount
    rw [hsub]
    refine le_trans (le_of_eq ?_) hcount
    congr 2
    funext m
    rw [Function.comp_apply, Bool.eq_iff_iff, decide_eq_true_eq, beq_iff_eq]
  · intro m hm
    obtain ⟨src, c, base, hsrc, -, hrow⟩ := (hok.mints m hm).source
    exact ⟨(hok.mints m hm).row, (finalizedDigest_of_claims (hok.mints m hm).claims).2,
      (hok.mints m hm).qualifies, (hok.mints m hm).unique, src, c, base, hsrc, hrow⟩
  · intro call hcall r hstage hreason
    have hcallok := hok.calls call hcall
    rw [Call.Ok, hstage] at hcallok
    obtain ⟨row, hmem, hclaims, hqual⟩ := hcallok (by simpa [Outcome.endorses] using hreason)
    obtain ⟨hcommit, hdigest⟩ := finalizedDigest_of_claims hclaims
    exact ⟨row, hmem, hcommit, hdigest, hqual⟩
  · intro hpositive m hm m' hm' heq
    obtain ⟨n, -, hn⟩ := hpositive m.row m.sha (hok.mints m hm).qualifies
    obtain ⟨src, -, -, hsrc, hcountless, -⟩ := (hok.mints m' hm').source
    rw [heq, (hok.mints m hm).row] at hsrc
    cases hsrc
    rw [isCountlessCleanFullPass, Bool.and_eq_true, decide_eq_true_eq, hn] at hcountless
    cases hcountless.2

def rowLines : LedgerText Row where
  bytes row := (Json.obj row.entries).pyRepr.toList
  rowsIn row := [row]
  render row := row
  rowsIn_render _ := rfl

def sampleDigest : String := String.ofList (List.replicate 64 'a')

def countingAuthority : Authority where
  digest row _ :=
    if Fields.value row.get? "executed_tests" = .null then .ok sampleDigest else .ok "counted"
  qualifying row _ :=
    match Fields.value row.get? "executed_tests" with
    | .int n => if 0 < n then .ok "counted" else .error "no executed tests"
    | _ => .error "no executed tests"

def sampleCommit : String := String.ofList (List.replicate 40 'b')

def countlessRow : Row :=
  Dict.empty.update [("commit", .str sampleCommit), ("commit_anchored", .bool true),
    ("tree_dirty", .bool false), ("selection_mode", .str "full"), ("profile", .str "full"),
    ("result", .str "pass"), ("log_file", .str "validate.log")]

def sampleReads : Reads where
  logText := some ("[test.unit] test result: ok. 3 passed; 0 filtered out\n" ++
    "[test.unit] ✓ PASS\n").toList
  planned := ["test.unit"]
  base := .ok ⟨sampleCommit, sampleCommit, sampleCommit, sampleCommit⟩

theorem countingAuthority_positive (row : Row) (sha : String)
    (h : countingAuthority.Qualifies row sha) :
    ∃ n > 0, value row.get? "executed_tests" = .int n := by
  obtain ⟨digest, h⟩ := h
  rw [countingAuthority] at h
  simp only at h
  split at h
  case h_1 n hn =>
    split_ifs at h with hpos
    exact ⟨n, hpos, hn⟩
  case h_2 => cases h

theorem minted_row_is_no_source :
    ∃ w, (system rowLines Char.isAlphanum countingAuthority [countlessRow]).Reachable w ∧
      w.mints.map (fun m => (m.sha, m.digest, m.place, m.source)) =
        [(sampleCommit, sampleDigest, 1, 0)] ∧
      ∀ m ∈ w.mints, ∀ m' ∈ w.mints, m'.source ≠ m.place := by
  obtain ⟨w, hreach, hview⟩ := @System.exists_reachable _ _
    (system rowLines Char.isAlphanum countingAuthority [countlessRow]) (fun _ _ => True) _ _
    (fun w => w.mints.map fun m => (m.sha, m.digest, m.place, m.source))
    [(sampleCommit, sampleDigest, 1, 0)]
    [.call sampleCommit sampleDigest false, .select 0, .gather 0 sampleReads, .commit 0]
    (by decide +kernel)
  exact ⟨w, hreach, hview, (finalization_mints_at_most_once rowLines Char.isAlphanum
    countingAuthority [countlessRow] hreach).2.2.2.2 countingAuthority_positive⟩

end DevHermit.Finalize
