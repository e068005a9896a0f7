import Mathlib.Data.List.Basic

namespace DevHermit.Lib

open List

variable {α : Type} [DecidableEq α]

def splitOnce (sep : List α) : List α → Option (List α × List α)
  | [] => if sep = [] then some ([], []) else none
  | c :: rest =>
    if sep.isPrefixOf (c :: rest) then some ([], (c :: rest).drop sep.length)
    else (splitOnce sep rest).map fun p => (c :: p.1, p.2)

def splitLines : List Char → List Char → List (List Char)
  | [], [] => []
  | c :: acc, [] => [(c :: acc).reverse]
  | acc, '\n' :: rest =>
    (if acc.head? = some '\r' then acc.tail.reverse else acc.reverse) :: splitLines [] rest
  | acc, c :: rest => splitLines (c :: acc) rest

def lines (text : List Char) : List (List Char) := splitLines [] text

theorem splitLines_append (acc : List Char) {ln : List Char} (h : '\n' ∉ ln) (rest : List Char) :
    splitLines acc (ln ++ '\n' :: rest) = splitLines (ln.reverse ++ acc) ('\n' :: rest) := by
  induction ln generalizing acc with
  | nil => rfl
  | cons c ln ih =>
    obtain ⟨hc, hln⟩ := not_or.mp (mt mem_cons.mpr h)
    have hskip : splitLines acc (c :: (ln ++ '\n' :: rest)) =
        splitLines (c :: acc) (ln ++ '\n' :: rest) := by
      rw [splitLines]
      rintro rfl
      exact hc rfl
    rw [cons_append, hskip, ih _ hln, reverse_cons, append_assoc, singleton_append]

def PlainField (text : List Char) : Prop :=
  '\t' ∉ text ∧ '\n' ∉ text ∧ text.getLast? ≠ some '\r'

instance (text : List Char) : Decidable (PlainField text) := inferInstanceAs (Decidable (_ ∧ _))

theorem lines_cons {ln : List Char} (hbreak : '\n' ∉ ln) (hlast : ln.getLast? ≠ some '\r')
    (rest : List Char) : lines (ln ++ '\n' :: rest) = ln :: lines rest := by
  rw [lines, splitLines_append [] hbreak, append_nil, splitLines, if_neg, reverse_reverse, lines]
  rwa [head?_reverse]

def pyLineBreaks : List Char :=
  ['\n', '\r', '\x0b', '\x0c', '\x1c', '\x1d', '\x1e', '\u0085', '\u2028', '\u2029']

def splitAt (breaks acc : List Char) : List Char → List (List Char)
  | [] => if acc = [] then [] else [acc.reverse]
  | '\r' :: '\n' :: rest => acc.reverse :: splitAt breaks [] rest
  | c :: rest =>
    if c ∈ breaks then acc.reverse :: splitAt breaks [] rest else splitAt breaks (c :: acc) rest

def pySplitlines (text : List Char) : List (List Char) := splitAt pyLineBreaks [] text

def textLines (text : List Char) : List (List Char) := splitAt ['\n', '\r'] [] text

def piecesAt (breaks acc : List Char) : List Char → List (List Char × List Char)
  | [] => if acc = [] then [] else [(acc.reverse, [])]
  | '\r' :: '\n' :: rest => (acc.reverse, ['\r', '\n']) :: piecesAt breaks [] rest
  | c :: rest =>
    if c ∈ breaks then (acc.reverse, [c]) :: piecesAt breaks [] rest
    else piecesAt breaks (c :: acc) rest

def pyPieces (text : List Char) : List (List Char × List Char) := piecesAt pyLineBreaks [] text

section

variable {breaks : List Char}

theorem piecesAt_break {c : Char} {rest : List Char} (acc : List Char) (h : c ∈ breaks)
    (hpair : c = '\r' → rest.head? ≠ some '\n') :
    piecesAt breaks acc (c :: rest) = (acc.reverse, [c]) :: piecesAt breaks [] rest := by
  rw [piecesAt, if_pos h]
  rintro tail hc rfl
  exact hpair hc rfl

theorem piecesAt_append (hn : '\n' ∈ breaks) (hr : '\r' ∈ breaks) (acc text rest : List Char) :
    piecesAt breaks acc (text ++ '\n' :: rest) =
      piecesAt breaks acc (text ++ ['\n']) ++ piecesAt breaks [] rest := by
  fun_induction piecesAt breaks acc text with
  | case1 => simp [piecesAt, hn]
  | case2 => simp [piecesAt, hn]
  | case3 acc rest' ih => simpa [piecesAt] using ih
  | case4 acc c rest' hpair hbreak ih =>
    by_cases hlast : c = '\r' ∧ rest' = []
    · obtain ⟨rfl, rfl⟩ := hlast
      simp [piecesAt]
    · have hhead : ∀ tail, c = '\r' → (rest' ++ '\n' :: tail).head? ≠ some '\n' := by
        intro tail hc hhead
        cases rest' with
        | nil => exact hlast ⟨hc, rfl⟩
        | cons d rest' => exact hpair rest' hc (by rw [Option.some.inj hhead])
      rw [cons_append, cons_append, piecesAt_break acc hbreak (hhead rest),
        piecesAt_break acc hbreak (hhead []), ih, cons_append]
  | case5 acc c rest' hpair hbreak ih =>
    have hc : c ≠ '\r' := by
      rintro rfl
      exact hbreak hr
    rw [cons_append, cons_append, piecesAt, piecesAt, if_neg hbreak, if_neg hbreak, ih]
    all_goals exact fun tail h => absurd h hc

theorem piecesAt_fst (acc text : List Char) :
    (piecesAt breaks acc text).map Prod.fst = splitAt breaks acc text := by
  fun_induction splitAt breaks acc text with
  | case1 => rfl
  | case2 acc h => rw [piecesAt, if_neg h, map_singleton]
  | case3 acc rest ih => rw [piecesAt, map_cons, ih]
  | case4 acc c rest hpair hbreak ih =>
    rw [piecesAt, if_pos hbreak, map_cons, ih]
    exact hpair
  | case5 acc c rest hpair hbreak ih =>
    rw [piecesAt, if_neg hbreak, ih]
    exact hpair

theorem piecesAt_flatten (acc text : List Char) :
    (piecesAt breaks acc text).flatMap (fun piece => piece.1 ++ piece.2) = acc.reverse ++ text := by
  fun_induction piecesAt breaks acc text with
  | case1 => rfl
  | case2 acc h => simp
  | case3 acc rest ih => simp [ih]
  | case4 acc c rest hpair hbreak ih => simp [ih]
  | case5 acc c rest hpair hbreak ih => simp [ih]

theorem splitAt_append (hn : '\n' ∈ breaks) (hr : '\r' ∈ breaks) (acc text rest : List Char) :
    splitAt breaks acc (text ++ '\n' :: rest) =
      splitAt breaks acc (text ++ ['\n']) ++ splitAt breaks [] rest := by
  simp only [← piecesAt_fst, piecesAt_append hn hr acc text rest, map_append]

theorem splitAt_ended (hn : '\n' ∈ breaks) (hr : '\r' ∈ breaks) (ls : List (List Char)) :
    splitAt breaks [] (ls.flatMap (· ++ ['\n'])) =
      ls.flatMap fun ln => splitAt breaks [] (ln ++ ['\n']) := by
  induction ls with
  | nil => rfl
  | cons ln ls ih =>
    rw [flatMap_cons, flatMap_cons, append_assoc, singleton_append, splitAt_append hn hr, ih]

end

def pySpaces : List Char :=
  ['\t', '\n', '\x0b', '\x0c', '\r', '\x1c', '\x1d', '\x1e', '\x1f', ' ', '\u0085', '\u00a0',
    '\u1680', '\u2000', '\u2001', '\u2002', '\u2003', '\u2004', '\u2005', '\u2006', '\u2007',
    '\u2008', '\u2009', '\u200a', '\u2028', '\u2029', '\u202f', '\u205f', '\u3000']

def pyLstrip (text : List Char) : List Char := text.dropWhile (· ∈ pySpaces)

end DevHermit.Lib
