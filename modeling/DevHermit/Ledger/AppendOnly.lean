import DevHermit.Ledger.ImportRuns
import DevHermit.Lib.Text

namespace DevHermit.Ledger

open Lib List

def verifyAppendOnlyText (oldText newText : List Char) : List AppendCode :=
  verifyAppendOnly (pySplitlines oldText) (pySplitlines newText)

def Terminated (text : List Char) : Prop := text = [] ∨ ∃ body, text = body ++ ['\n']

def contents (text : List Char) : List (List Char) := (pyPieces text).map Prod.fst

def terminators (text : List Char) : List (List Char) := (pyPieces text).map Prod.snd

theorem prefix_iff_pieces {old new : List Char} (hold : Terminated old) :
    old <+: new ↔ pyPieces old <+: pyPieces new := by
  constructor
  · rintro ⟨rest, rfl⟩
    obtain rfl | ⟨body, rfl⟩ := hold
    · exact nil_prefix
    · rw [append_assoc, singleton_append, pyPieces, pyPieces, piecesAt_append (by decide) (by decide) [] body rest]
      exact prefix_append _ _
  · rintro ⟨added, hadded⟩
    have hold := @piecesAt_flatten pyLineBreaks [] old
    have hnew := @piecesAt_flatten pyLineBreaks [] new
    rw [← pyPieces, reverse_nil, nil_append] at hold hnew
    rw [← hnew, ← hadded, flatMap_append, hold]
    exact prefix_append _ _

theorem map_prefix_pair_iff {α β : Type} (as bs : List (α × β)) :
    as <+: bs ↔ as.map Prod.fst <+: bs.map Prod.fst ∧ as.map Prod.snd <+: bs.map Prod.snd := by
  induction as generalizing bs with
  | nil => simp
  | cons a as ih =>
    cases bs with
    | nil => simp
    | cons b bs =>
      simp only [map_cons, cons_prefix_cons, ih, Prod.ext_iff]
      tauto

theorem exact_iff_terminators (old new : List Char) (hold : Terminated old) :
    (verifyAppendOnlyText old new = [] ↔ old <+: new) ↔
      (contents old <+: contents new → terminators old <+: terminators new) := by
  have hlines : ∀ text, pySplitlines text = contents text :=
    fun text => (piecesAt_fst [] text).symm
  rw [verifyAppendOnlyText, verifyAppendOnly_eq_nil_iff, prefix_iff_pieces hold,
    map_prefix_pair_iff, hlines, hlines, contents, contents, terminators, terminators]
  tauto

def OnlyNewlines (text : List Char) : Prop := ∀ c ∈ text, c ∈ pyLineBreaks → c = '\n'

theorem terminator_of_onlyNewlines (acc : List Char) {body : List Char} (h : OnlyNewlines body) :
    ∀ piece ∈ piecesAt pyLineBreaks acc (body ++ ['\n']), piece.2 = ['\n'] := by
  induction body generalizing acc with
  | nil => simp [piecesAt, pyLineBreaks]
  | cons c body ih =>
    have hrest : OnlyNewlines body := fun d hd => h d (mem_cons_of_mem c hd)
    have hc := h c mem_cons_self
    have hcr : c ≠ '\r' := by
      rintro rfl
      exact absurd (hc (by decide)) (by decide)
    intro piece hpiece
    rw [cons_append, piecesAt] at hpiece
    · split_ifs at hpiece with hbreak
      · obtain rfl | hpiece := mem_cons.mp hpiece
        · rw [hc hbreak]
        · exact ih [] hrest piece hpiece
      · exact ih (c :: acc) hrest piece hpiece
    · exact fun tail heq => absurd heq hcr

theorem terminators_of_onlyNewlines {text : List Char} (ht : Terminated text)
    (h : OnlyNewlines text) : terminators text = replicate (contents text).length ['\n'] := by
  rw [eq_replicate_iff, terminators, contents, length_map, length_map]
  refine ⟨rfl, fun terminator hmem => ?_⟩
  obtain ⟨piece, hpiece, rfl⟩ := mem_map.mp hmem
  obtain rfl | ⟨body, rfl⟩ := ht
  · cases hpiece
  · exact terminator_of_onlyNewlines [] (fun c hc => h c (mem_append_left _ hc)) piece hpiece

theorem newline_texts_checked_exactly (old new : List Char) (hold : Terminated old)
    (hnew : Terminated new) (holdBreaks : OnlyNewlines old) (hnewBreaks : OnlyNewlines new) :
    verifyAppendOnlyText old new = [] ↔ old <+: new := by
  refine (exact_iff_terminators old new hold).mpr fun hcontents => ?_
  rw [terminators_of_onlyNewlines hold holdBreaks, terminators_of_onlyNewlines hnew hnewBreaks,
    prefix_replicate_iff]
  exact ⟨by simpa using hcontents.length_le, by simp⟩

theorem appended_line_accepted :
    verifyAppendOnlyText "a\n".toList "a\nb\n".toList = [] ∧
      "a\n".toList <+: "a\nb\n".toList := by
  have hexact := newline_texts_checked_exactly "a\n".toList "a\nb\n".toList
    (.inr ⟨"a".toList, rfl⟩) (.inr ⟨"a\nb".toList, rfl⟩) (by simp [OnlyNewlines, pyLineBreaks])
    (by simp [OnlyNewlines, pyLineBreaks])
  exact ⟨hexact.mpr (by decide), by decide⟩

theorem changed_terminator_accepted :
    Terminated "a\n".toList ∧ verifyAppendOnlyText "a\n".toList "a\r\n".toList = [] ∧
      ¬"a\n".toList <+: "a\r\n".toList :=
  ⟨.inr ⟨"a".toList, rfl⟩, by decide, by decide⟩

end DevHermit.Ledger
