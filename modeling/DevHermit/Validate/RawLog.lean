import DevHermit.Finalize.Coverage

namespace DevHermit.Validate.RawLog

open Lib List

abbrev Line := List Char

structure Gate where
  name : Line
  hasCommand : Bool
  skipped : Bool
  timedOut : Bool
  exitCode : Option Int
  realSeconds : Option (Option Nat)
deriving DecidableEq, Repr

inductive Kind where
  | pass
  | fail
  | timeout
  | incomplete
  | skipped
  | banner
deriving DecidableEq, Repr

def classifyGate (g : Gate) : Kind :=
  match g.exitCode with
  | some code =>
    if code = 0 then .pass else if g.timedOut ∨ code = 124 then .timeout else .fail
  | none => if g.skipped then .skipped else if g.hasCommand then .incomplete else .banner

def pyStrip (text : Line) : Line := (pyLstrip (pyLstrip text).reverse).reverse

def ungroup : Line → Option Line
  | [] => some []
  | '_' :: c :: rest | c :: rest =>
    if isDecimalDigit c then (ungroup rest).map (c :: ·) else none

def pyNat (text : Line) : Option Nat :=
  if text.head?.any isDecimalDigit then (ungroup text).bind fun ds => (Finalize.pyInt ds).toOption
  else none

def pyInt (text : Line) : Option Int :=
  match pyStrip text with
  | '-' :: rest => (pyNat rest).map fun n => -n
  | '+' :: rest | rest => (pyNat rest).map Int.ofNat

def firstNumber (text : Line) : Except PyError (Option Nat) :=
  match (text.dropWhile fun c => !isDecimalDigit c).takeWhile isDecimalDigit with
  | [] => .ok none
  | digits => (Finalize.pyInt digits).map some

def opens (ln : Line) : Prop := "=== ".toList <+: ln ∧ " ===".toList <:+ ln

instance (ln : Line) : Decidable (opens ln) := inferInstanceAs (Decidable (_ ∧ _))

abbrev Core := List Gate × Option Gate

def gateLine (core : Core) (ln : Line) : Except PyError Core :=
  if opens ln then
    .ok (core.1 ++ core.2.toList,
      some ⟨pyStrip ((ln.take (ln.length - 4)).drop 4), false, false, false, none, none⟩)
  else
    match core with
    | (gates, none) => .ok (gates, none)
    | (gates, some g) =>
      if "Command:".toList <+: ln then .ok (gates, some { g with hasCommand := true })
      else if "Skipped:".toList <+: ln then .ok (gates, some { g with skipped := true })
      else if "Gate timed out after".toList <+: ln then
        .ok (gates, some { g with timedOut := true })
      else if "Exit:".toList <+: ln then
        .ok (gates, some { g with exitCode := some ((pyInt (ln.drop 5)).getD (-1)) })
      else if "Duration:".toList <+: ln then
        (firstNumber ln).map fun n => (gates ++ [{ g with realSeconds := some n }], none)
      else .ok core

structure Scan where
  root : Option Line
  level : Option Line
  core : Core

def Scan.read (s : Scan) (ln : Line) : Except PyError Scan :=
  if s.root = none ∧ "Root:".toList <+: ln then .ok { s with root := some (pyStrip (ln.drop 5)) }
  else if s.level = none ∧ "Level:".toList <+: ln then
    .ok { s with level := some (pyStrip (ln.drop 6)) }
  else (gateLine s.core ln).map fun core => { s with core := core }

def parseGates (text : List Char) : Except PyError (List Gate) :=
  ((textLines text).foldlM Scan.read ⟨none, none, [], none⟩).map fun s => s.core.1 ++ s.core.2.toList

def runVerdict (kinds : List Kind) : Option Kind :=
  [.fail, .timeout, .incomplete].find? (· ∈ kinds)

structure Report where
  gates : List (Line × Kind × Option Int × Option (Option Nat))
  verdict : Option Kind
deriving DecidableEq, Repr

def parseRawLog (text : List Char) : Except PyError Report :=
  (parseGates text).map fun gates =>
    ⟨gates.map fun g => (g.name, classifyGate g, g.exitCode, g.realSeconds),
      runVerdict (gates.map classifyGate)⟩

structure Block where
  front : List Line
  back : List Line

def gateBlock (name command : Line) (timeout : Option Line) (status duration : Line) : Block where
  front := ["=== ".toList ++ name ++ " ===".toList, "Command: ".toList ++ command]
  back := timeout.toList.map ("Gate timed out after ".toList ++ ·) ++
    ["Exit: ".toList ++ status, "Duration: ".toList ++ duration ++ ['s']]

def rawLog (header : List Line) (blocks : List (Block × List Line)) : List Char :=
  (header ++ blocks.flatMap fun b => b.1.front ++ b.2 ++ b.1.back).flatMap (· ++ ['\n'])

def piecesOf (ls : List Line) : List Line := ls.flatMap fun ln => textLines (ln ++ ['\n'])

theorem textLines_rawLog (header : List Line) (blocks : List (Block × List Line)) :
    textLines (rawLog header blocks) = piecesOf header ++ blocks.flatMap fun b =>
      piecesOf b.1.front ++ piecesOf b.2 ++ piecesOf b.1.back := by
  rw [textLines, rawLog, splitAt_ended (by decide) (by decide), flatMap_append, flatMap_assoc]
  simp only [flatMap_append]
  rfl

def markers : List Line :=
  ["Command:".toList, "Skipped:".toList, "Gate timed out after".toList, "Exit:".toList,
    "Duration:".toList]

def Marked (ln : Line) : Prop := opens ln ∨ ∃ marker ∈ markers, marker <+: ln

theorem gateLine_unmarked {ln : Line} (h : ¬ Marked ln) (core : Core) :
    gateLine core ln = pure core := by
  simp only [Marked, markers, mem_cons, not_mem_nil, or_false, exists_eq_or_imp,
    exists_eq_left, not_or] at h
  obtain ⟨hopens, hcommand, hskipped, htimed, hexit, hduration⟩ := h
  obtain ⟨gates, cur⟩ := core
  unfold gateLine
  rw [if_neg hopens]
  cases cur with
  | none => rfl
  | some g =>
    simp only [hcommand, hskipped, htimed, hexit, hduration, if_false]
    rfl

theorem unmarked_of_header {head ln : Line} (hhead : head ∈ ["Root:".toList, "Level:".toList])
    (h : head <+: ln) : ¬ Marked ln := by
  have hapart : ∀ head ∈ ["Root:".toList, "Level:".toList], ∀ marker ∈ "=== ".toList :: markers,
      ¬ marker <+: head ∧ ¬ head <+: marker := by decide
  have hnot : ∀ marker ∈ "=== ".toList :: markers, ¬ marker <+: ln := fun marker hm hp =>
    ( prefix_or_prefix_of_prefix hp h).elim (hapart head hhead marker hm).1
      (hapart head hhead marker hm).2
  rintro (hopens | ⟨marker, hm, hp⟩)
  · exact hnot _ mem_cons_self hopens.1
  · exact hnot marker (mem_cons_of_mem _ hm) hp

theorem read_core (s : Scan) (ln : Line) : (s.read ln).map Scan.core = gateLine s.core ln := by
  unfold Scan.read
  split_ifs with hroot hlevel
  · exact (gateLine_unmarked (unmarked_of_header (by simp) hroot.2) _).symm
  · exact (gateLine_unmarked (unmarked_of_header (by simp) hlevel.2) _).symm
  · cases gateLine s.core ln <;> rfl

theorem foldlM_read (log : List Line) (s : Scan) :
    (log.foldlM Scan.read s).map Scan.core = log.foldlM gateLine s.core := by
  induction log generalizing s with
  | nil => rfl
  | cons ln log ih =>
    rw [foldlM_cons, foldlM_cons, ← read_core]
    cases s.read ln with
    | error e => rfl
    | ok s' => exact ih s'

theorem foldlM_unmarked {output : List Line} (h : ∀ ln ∈ output, ¬ Marked ln) (core : Core) :
    output.foldlM gateLine core = pure core := by
  induction output with
  | nil => rfl
  | cons ln output ih =>
    rw [foldlM_cons, gateLine_unmarked (h ln mem_cons_self), pure_bind]
    exact ih fun ln' hln' => h ln' (mem_cons_of_mem ln hln')

theorem foldlM_blocks {blocks : List (Block × List Line)}
    (h : ∀ b ∈ blocks, ∀ ln ∈ piecesOf b.2, ¬ Marked ln) (core : Core) :
    (blocks.flatMap fun b => piecesOf b.1.front ++ piecesOf b.2 ++ piecesOf b.1.back).foldlM
        gateLine core =
      ((blocks.map Prod.fst).flatMap fun b => piecesOf b.front ++ piecesOf b.back).foldlM
        gateLine core := by
  induction blocks generalizing core with
  | nil => rfl
  | cons b blocks ih =>
    have hb := foldlM_unmarked (h b mem_cons_self)
    have hrest := ih fun b' hb' => h b' (mem_cons_of_mem b hb')
    simp only [flatMap_cons, map_cons, foldlM_append, bind_assoc, hb, pure_bind, hrest]

theorem parseGates_eq (text : List Char) : parseGates text =
      ((textLines text).foldlM gateLine ([], none)).map fun core => core.1 ++ core.2.toList := by
  rw [parseGates, ← foldlM_read (textLines text) ⟨none, none, [], none⟩]
  cases (textLines text).foldlM Scan.read ⟨none, none, [], none⟩ <;> rfl

theorem workload_text_never_sways (header : List Line) (blocks blocks' : List (Block × List Line))
    (hsame : blocks.map Prod.fst = blocks'.map Prod.fst)
    (h : ∀ b ∈ blocks ++ blocks', ∀ ln ∈ b.2, ∀ piece ∈ textLines (ln ++ ['\n']),
      ¬ Marked piece) :
    parseRawLog (rawLog header blocks) = parseRawLog (rawLog header blocks') := by
  have hpieces : ∀ b ∈ blocks ++ blocks', ∀ ln ∈ piecesOf b.2, ¬ Marked ln := by
    intro b hb piece hpiece
    obtain ⟨ln, hln, hpiece⟩ := mem_flatMap.mp hpiece
    exact h b hb ln hln piece hpiece
  have hleft := foldlM_blocks fun b hb => hpieces b (mem_append_left blocks' hb)
  have hright := foldlM_blocks fun b hb => hpieces b (mem_append_right blocks hb)
  have hgates : parseGates (rawLog header blocks) = parseGates (rawLog header blocks') := by
    simp only [parseGates_eq, textLines_rawLog, foldlM_append, hleft, hright, hsame]
  rw [parseRawLog, parseRawLog, hgates]

def buildGate : Block := gateBlock "build".toList "make".toList none "1".toList "5".toList

theorem panicking_test_is_ignored :
    parseRawLog (rawLog ["Root: /r".toList] [(buildGate, ["10%\rpanic: timeout".toList])]) =
      parseRawLog (rawLog ["Root: /r".toList] [(buildGate, [])]) :=
  workload_text_never_sways _ _ _ rfl (by unfold Marked; decide)

theorem printed_footer_passes_failing_gate :
    (parseRawLog (rawLog [] [(buildGate, [])])).map Report.verdict = .ok (some .fail) ∧
      (parseRawLog (rawLog [] [(buildGate, ["Exit: 0".toList, "Duration: 1s".toList])])).map
        Report.verdict = .ok none := by decide +kernel

end DevHermit.Validate.RawLog
