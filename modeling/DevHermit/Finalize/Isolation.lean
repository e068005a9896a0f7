import DevHermit.Finalize.Coverage

namespace DevHermit.Finalize

open Lib List

structure LogLine where
  tag : String
  text : String
  oneLine : '\n' ∉ text.toList

def LogLine.emit (line : LogLine) : List Char :=
  ('[' :: line.tag.toList ++ "] ".toList ++ line.text.toList) ++ ['\n']

def LogLine.pieces (line : LogLine) : List (List Char) := pySplitlines line.emit

def runnerLog (log : List LogLine) : List Char := log.flatMap LogLine.emit

def ownLines (t : String) (log : List LogLine) : List LogLine := log.filter fun line => line.tag = t

theorem pySplitlines_runnerLog (log : List LogLine) :
    pySplitlines (runnerLog log) = log.flatMap LogLine.pieces := by
  have h := @splitAt_ended pyLineBreaks (by decide) (by decide) (log.map fun line =>
    '[' :: line.tag.toList ++ "] ".toList ++ line.text.toList)
  rwa [flatMap_map, flatMap_map] at h

def isMarker (text : List Char) : Bool :=
  "✓ PASS".toList.isPrefixOf text || "✗ FAIL".toList.isPrefixOf text

section

variable (isWord : Char → Bool) (t : String)

def nodeEntry (log : List LogLine) : Except PyError (Option NodeCounts) :=
  (perNodeCounts isWord (runnerLog log)).map (·.get? t)

def pieceEntry (entry : Option NodeCounts) (raw : List Char) : Except PyError (Option NodeCounts) :=
  match nodeLine? raw with
  | none => .ok entry
  | some (tag, rest) =>
    if tag = t then (countLine isWord rest (entry.getD .zero)).map some
    else (countLine isWord rest .zero).map fun _ => entry

def tally (rest : List Char) (node : NodeCounts) : NodeCounts :=
  if isMarker (pyLstrip rest) then
    { node with
      terminal := some (if "✓ PASS".toList.isPrefixOf (pyLstrip rest) then .pass else .fail) }
  else if hasInfix "test result:".toList rest then
    { node with
      bannerCount := node.bannerCount + 1
      executed := node.executed + (countOf (resultOk isWord rest)).toOption.getD 0
      filtered := node.filtered + (countOf (filteredOut isWord rest)).toOption.getD 0 }
  else node

def Overlong (rest : List Char) : Prop :=
  "✓ PASS".toList.isPrefixOf (pyLstrip rest) = false ∧
    "✗ FAIL".toList.isPrefixOf (pyLstrip rest) = false ∧
    hasInfix "test result:".toList rest = true ∧
    ∃ digits, (resultOk isWord rest = some digits ∨ filteredOut isWord rest = some digits) ∧
      maxStrDigits < digits.length

def Quiet (line : LogLine) : Prop :=
  ∀ raw ∈ line.pieces, ∀ tag rest, nodeLine? raw = some (tag, rest) →
    tag ≠ t ∧ ¬ Overlong isWord rest

def Disturbs (raw : List Char) : Prop :=
  ∃ tag rest, nodeLine? raw = some (tag, rest) ∧ (tag = t ∨ Overlong isWord rest)

variable {isWord t}

theorem countOf_cases (found : Option (List Char)) :
    (∃ n, countOf found = .ok n ∧ ∀ digits, found = some digits → ¬ maxStrDigits < digits.length) ∨
      (countOf found = .error (.raised "ValueError") ∧
        ∃ digits, found = some digits ∧ maxStrDigits < digits.length) := by
  cases found with
  | none => exact .inl ⟨0, rfl, fun digits h => by cases h⟩
  | some digits =>
    rw [countOf, pyInt]
    split_ifs with hlong
    · exact .inr ⟨rfl, digits, rfl, hlong⟩
    · refine .inl ⟨_, rfl, fun digits' h => ?_⟩
      cases h
      exact hlong

variable {rest : List Char}

theorem countLine_of_overlong (h : Overlong isWord rest) (node : NodeCounts) :
    countLine isWord rest node = .error (.raised "ValueError") := by
  obtain ⟨hpass, hfail, hbanner, digits, hfound, hlong⟩ := h
  rw [countLine]
  simp only [hpass, hfail, hbanner, Bool.false_eq_true, if_false, if_true]
  rcases countOf_cases (resultOk isWord rest) with ⟨n, hn, hshort⟩ | ⟨herr, -⟩
  · rcases countOf_cases (filteredOut isWord rest) with ⟨m, hm, hshort'⟩ | ⟨herr, -⟩
    · exact absurd hlong (hfound.elim (hshort digits) (hshort' digits))
    · rw [hn, herr]
      rfl
  · rw [herr]
    rfl

theorem countLine_of_not_overlong (h : ¬ Overlong isWord rest) (node : NodeCounts) :
    countLine isWord rest node = .ok (tally isWord rest node) := by
  rw [countLine, tally, isMarker]
  cases hpass : "✓ PASS".toList.isPrefixOf (pyLstrip rest) with
  | true => rfl
  | false =>
    cases hfail : "✗ FAIL".toList.isPrefixOf (pyLstrip rest) with
    | true => rfl
    | false =>
      cases hbanner : hasInfix "test result:".toList rest with
      | false => rfl
      | true =>
        rcases countOf_cases (resultOk isWord rest) with ⟨n, hn, -⟩ | ⟨-, digits, hd, hlong⟩
        · rcases countOf_cases (filteredOut isWord rest) with
            ⟨m, hm, -⟩ | ⟨-, digits, hd, hlong⟩
          · rw [hn, hm]
            rfl
          · exact absurd ⟨hpass, hfail, hbanner, digits, .inr hd, hlong⟩ h
        · exact absurd ⟨hpass, hfail, hbanner, digits, .inl hd, hlong⟩ h

theorem countPiece_entry (nodes : Dict NodeCounts) (raw : List Char) :
    (countPiece isWord nodes raw).map (·.get? t) = pieceEntry isWord t (nodes.get? t) raw := by
  rw [countPiece, pieceEntry]
  cases hraw : nodeLine? raw with
  | none => rfl
  | some found =>
    obtain ⟨tag, rest⟩ := found
    by_cases hlong : Overlong isWord rest
    · simp only [countLine_of_overlong hlong]
      split_ifs <;> rfl
    · simp only [countLine_of_not_overlong hlong]
      change Except.ok ((nodes.set tag _).get? t) = _
      rw [Dict.get?_set]
      split_ifs with ht htag htag
      · rw [ht]
        rfl
      · exact absurd ht.symm htag
      · exact absurd htag.symm ht
      · rfl

theorem foldlM_countPiece_entry (ps : List (List Char)) (nodes : Dict NodeCounts) :
    (ps.foldlM (countPiece isWord) nodes).map (·.get? t) =
      ps.foldlM (pieceEntry isWord t) (nodes.get? t) := by
  induction ps generalizing nodes with
  | nil => rfl
  | cons raw ps ih =>
    rw [foldlM_cons, foldlM_cons, ← countPiece_entry]
    cases countPiece isWord nodes raw with
    | error e => rfl
    | ok nodes' => exact ih nodes'

theorem nodeEntry_eq (log : List LogLine) : nodeEntry isWord t log =
      (log.flatMap LogLine.pieces).foldlM (pieceEntry isWord t) none := by
  rw [nodeEntry, perNodeCounts, pySplitlines_runnerLog, foldlM_countPiece_entry]
  rfl

variable {raw : List Char}

theorem pieceEntry_quiet (entry : Option NodeCounts)
    (h : ∀ tag rest, nodeLine? raw = some (tag, rest) → tag ≠ t ∧ ¬ Overlong isWord rest) :
    pieceEntry isWord t entry raw = .ok entry := by
  rw [pieceEntry]
  cases hraw : nodeLine? raw with
  | none => rfl
  | some found =>
    obtain ⟨tag, rest⟩ := found
    obtain ⟨htag, hlong⟩ := h tag rest hraw
    simp only [if_neg htag, countLine_of_not_overlong hlong]
    rfl

theorem foldlM_quiet {line : LogLine} (h : Quiet isWord t line) (entry : Option NodeCounts) :
    line.pieces.foldlM (pieceEntry isWord t) entry = .ok entry := by
  rw [Quiet] at h
  generalize line.pieces = ps at h ⊢
  induction ps with
  | nil => rfl
  | cons raw ps ih =>
    rw [foldlM_cons, pieceEntry_quiet entry (h raw mem_cons_self)]
    exact ih fun raw' hmem => h raw' (mem_cons_of_mem _ hmem)

theorem foldlM_ownLines {log : List LogLine}
    (h : ∀ line ∈ log, line.tag ≠ t → Quiet isWord t line) (entry : Option NodeCounts) :
    (log.flatMap LogLine.pieces).foldlM (pieceEntry isWord t) entry =
      ((ownLines t log).flatMap LogLine.pieces).foldlM (pieceEntry isWord t) entry := by
  induction log generalizing entry with
  | nil => rfl
  | cons line log ih =>
    have ih' := ih fun line' hmem => h line' (mem_cons_of_mem _ hmem)
    rw [flatMap_cons, foldlM_append, ownLines, filter_cons]
    by_cases htag : line.tag = t
    · rw [if_pos (decide_eq_true htag), flatMap_cons, foldlM_append]
      exact bind_congr ih'
    · rw [if_neg (by simpa using htag), foldlM_quiet (h line mem_cons_self htag)]
      exact ih' entry

variable {entry : Option NodeCounts}

theorem pieceEntry_ne_none (h : entry.isSome = true ∨ Disturbs isWord t raw) :
    ∀ entry', pieceEntry isWord t entry raw = .ok entry' → entry'.isSome = true := by
  intro entry' hstep
  rw [pieceEntry] at hstep
  rw [Disturbs] at h
  cases hraw : nodeLine? raw with
  | none =>
    rw [hraw] at hstep h
    cases hstep
    rcases h with hsome | ⟨tag, rest, hfound, -⟩
    · exact hsome
    · cases hfound
  | some found =>
    obtain ⟨tag, rest⟩ := found
    rw [hraw] at hstep h
    by_cases hlong : Overlong isWord rest
    · simp only [countLine_of_overlong hlong] at hstep
      split_ifs at hstep <;> cases hstep
    · simp only [countLine_of_not_overlong hlong] at hstep
      split_ifs at hstep with htag <;> cases hstep
      · rfl
      · rcases h with hsome | ⟨tag', rest', hfound, hbad⟩
        · exact hsome
        · cases hfound
          exact absurd hbad (not_or_intro htag hlong)

theorem foldlM_disturbed {entry' : Option NodeCounts} {ps : List (List Char)}
    (hbad : entry.isSome = true ∨ ∃ raw ∈ ps, Disturbs isWord t raw)
    (h : ps.foldlM (pieceEntry isWord t) entry = .ok entry') : entry'.isSome = true := by
  induction ps generalizing entry with
  | nil =>
    cases h
    exact hbad.resolve_right fun hraw => not_mem_nil hraw.choose_spec.1
  | cons raw ps ih =>
    rw [foldlM_cons] at h
    cases hstep : pieceEntry isWord t entry raw with
    | error e =>
      rw [hstep] at h
      cases h
    | ok next =>
      rw [hstep] at h
      refine ih ?_ h
      rcases hbad with hsome | ⟨raw', hmem, hraw'⟩
      · exact .inl (pieceEntry_ne_none (.inl hsome) next hstep)
      · rcases mem_cons.mp hmem with rfl | hmem
        · exact .inl (pieceEntry_ne_none (.inr hraw') next hstep)
        · exact .inr ⟨raw', hmem, hraw'⟩

end

variable {isWord : Char → Bool} {t : String}

structure SameEvidence (isWord : Char → Bool) (t : String) (log log' : List LogLine) : Prop where
  entry : nodeEntry isWord t log = nodeEntry isWord t log'
  absent : ∀ planned,
    (buildCoverage isWord (runnerLog log) planned).map (fun c => decide (t ∈ c.absentNodes)) =
      (buildCoverage isWord (runnerLog log') planned).map fun c => decide (t ∈ c.absentNodes)
  zeroExecuted : ∀ planned,
    (buildCoverage isWord (runnerLog log) planned).map
        (fun c => decide (t ∈ c.zeroExecutedNodes)) =
      (buildCoverage isWord (runnerLog log') planned).map
        fun c => decide (t ∈ c.zeroExecutedNodes)
  executed : ∀ planned : List String,
    (buildCoverage isWord (runnerLog log) (planned.filter (· = t))).map
        CoverageObject.executedTestNodes =
      (buildCoverage isWord (runnerLog log') (planned.filter (· = t))).map
        CoverageObject.executedTestNodes

theorem mem_sortedTags {tag : String} {tags : List String} : tag ∈ sortedTags tags ↔ tag ∈ tags :=
  mem_mergeSort

theorem buildCoverage_map {α : Type} {planned : List String} {f : CoverageObject → α}
    (g : Option NodeCounts → α) (log : List LogLine)
    (h : ∀ nodes : Dict NodeCounts, f (coverageOf nodes planned) = g (nodes.get? t)) :
    (buildCoverage isWord (runnerLog log) planned).map f = (nodeEntry isWord t log).map g := by
  rw [buildCoverage, nodeEntry]
  cases perNodeCounts isWord (runnerLog log) with
  | error e => rfl
  | ok nodes => exact congrArg Except.ok (h nodes)

theorem countP_filter_eq {p : Option NodeCounts → Bool} (nodes : Dict NodeCounts)
    (planned : List String) : (planned.filter (· = t)).countP (fun tag => p (nodes.get? tag)) =
      if p (nodes.get? t) then (planned.filter (· = t)).length else 0 := by
  induction planned with
  | nil => simp
  | cons tag planned ih =>
    rw [filter_cons]
    by_cases htag : tag = t
    · rw [if_pos (decide_eq_true htag), countP_cons, ih, htag, length_cons]
      split_ifs <;> rfl
    · rw [if_neg (by simpa using htag), ih]

theorem SameEvidence.of_entry {log log' : List LogLine}
    (h : nodeEntry isWord t log = nodeEntry isWord t log') : SameEvidence isWord t log log' where
  entry := h
  absent planned := by
    have hread : ∀ nodes : Dict NodeCounts, decide (t ∈ (coverageOf nodes planned).absentNodes) =
        decide (t ∈ planned ∧ isAbsent (nodes.get? t) = true) := fun nodes =>
      decide_eq_decide.mpr (mem_sortedTags.trans mem_filter)
    let read (entry : Option NodeCounts) := decide (t ∈ planned ∧ isAbsent entry = true)
    rw [buildCoverage_map read log hread, buildCoverage_map read log' hread, h]
  zeroExecuted planned := by
    have hread : ∀ nodes : Dict NodeCounts,
        decide (t ∈ (coverageOf nodes planned).zeroExecutedNodes) =
        decide (t ∈ planned ∧ isZeroExecuted (nodes.get? t) = true) := fun nodes =>
      decide_eq_decide.mpr (mem_sortedTags.trans mem_filter)
    let read (entry : Option NodeCounts) := decide (t ∈ planned ∧ isZeroExecuted entry = true)
    rw [buildCoverage_map read log hread, buildCoverage_map read log' hread, h]
  executed planned := by
    let read (entry : Option NodeCounts) :=
      if isExecuted entry then (planned.filter (· = t)).length else 0
    have hread : ∀ nodes : Dict NodeCounts,
        (coverageOf nodes (planned.filter (· = t))).executedTestNodes = read (nodes.get? t) :=
      fun nodes => countP_filter_eq nodes planned
    rw [buildCoverage_map read log hread, buildCoverage_map read log' hread, h]

theorem foreign_lines_isolated_iff (isWord : Char → Bool) (t : String) (foreign : Set LogLine) :
    (∀ log log' : List LogLine, (∀ line ∈ log ++ log', line.tag ≠ t → line ∈ foreign) →
      ownLines t log = ownLines t log' → SameEvidence isWord t log log') ↔
      ∀ line ∈ foreign, line.tag ≠ t → Quiet isWord t line := by
  constructor
  · intro hsame line hmem htag raw hraw tag rest hfound
    by_contra hbad
    rw [not_and_or, not_not, not_not] at hbad
    have hown : ownLines t [line] = ownLines t [] := by
      rw [ownLines, filter_cons, if_neg (by simpa using htag)]
      rfl
    have hdrawn : ∀ l ∈ [line] ++ [], l.tag ≠ t → l ∈ foreign := by
      intro l hl _
      rw [append_nil, mem_singleton] at hl
      rwa [hl]
    have hentry := (hsame [line] [] hdrawn hown).entry
    rw [nodeEntry_eq, nodeEntry_eq, flatMap_singleton] at hentry
    exact absurd (foldlM_disturbed (.inr ⟨raw, hraw, tag, rest, hfound, hbad⟩) hentry) (by decide)
  · intro hquiet log log' hdrawn hown
    have hlog := @foldlM_ownLines isWord t log (fun line hmem htag =>
      hquiet line (hdrawn line (mem_append_left _ hmem) htag) htag) none
    have hlog' := @foldlM_ownLines isWord t log' (fun line hmem htag =>
      hquiet line (hdrawn line (mem_append_right _ hmem) htag) htag) none
    refine .of_entry ?_
    rw [nodeEntry_eq, nodeEntry_eq, hlog, hlog', hown]

def compileLine : LogLine := ⟨"build.a", "compiling", by decide +kernel⟩

def passLine : LogLine := ⟨"test.unit", "✓ PASS", by decide +kernel⟩

theorem compile_line_is_isolated : SameEvidence Char.isAlphanum "test.unit"
    [compileLine, passLine, compileLine] [passLine] := by
  have hforeign : ∀ line ∈ [compileLine, passLine, compileLine] ++ [passLine],
      line.tag ≠ "test.unit" → line = compileLine := by
    intro line hmem htag
    simp only [cons_append, nil_append, mem_cons, not_mem_nil, or_false] at hmem
    rcases hmem with rfl | rfl | rfl | rfl <;> first | rfl | exact absurd rfl htag
  refine (foreign_lines_isolated_iff Char.isAlphanum "test.unit" {compileLine}).mpr ?_ _ _
    hforeign rfl
  rintro line rfl - raw hraw tag rest hfound
  have hpieces : compileLine.pieces = ["[build.a] compiling".toList] := by decide +kernel
  rw [hpieces, mem_singleton] at hraw
  subst hraw
  have hline : nodeLine? "[build.a] compiling".toList = some ("build.a", "compiling".toList) := by
    decide +kernel
  rw [hline] at hfound
  cases hfound
  refine ⟨by decide +kernel, ?_⟩
  rintro ⟨-, -, hbanner, -⟩
  revert hbanner
  decide +kernel

def forgingLine : LogLine := ⟨"build.a", "compiling\r[test.unit] ✓ PASS", by decide +kernel⟩

theorem carriage_return_forges_pass :
    ownLines "test.unit" [forgingLine] = ownLines "test.unit" [] ∧
    nodeEntry Char.isAlphanum "test.unit" [] = .ok none ∧
    nodeEntry Char.isAlphanum "test.unit" [forgingLine] = .ok (some ⟨0, 0, 0, some .pass⟩) ∧
    (buildCoverage Char.isAlphanum (runnerLog []) ["test.unit"]).map
      (fun c => (c.absentNodes, c.executedTestNodes)) = .ok (["test.unit"], 0) ∧
    (buildCoverage Char.isAlphanum (runnerLog [forgingLine]) ["test.unit"]).map
      (fun c => (c.absentNodes, c.executedTestNodes)) = .ok ([], 1) := by
  refine ⟨rfl, ?_, ?_, ?_, ?_⟩
  all_goals decide +kernel

end DevHermit.Finalize
