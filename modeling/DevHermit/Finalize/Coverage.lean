import DevHermit.Lib.Python
import DevHermit.Lib.Text

namespace DevHermit.Finalize

open Lib

inductive Terminal where
  | pass
  | fail
  deriving DecidableEq, Repr

structure NodeCounts where
  executed : Nat
  filtered : Nat
  bannerCount : Nat
  terminal : Option Terminal
  deriving DecidableEq, Repr

def NodeCounts.zero : NodeCounts := ⟨0, 0, 0, none⟩

def nodeLine? : List Char → Option (String × List Char)
  | '[' :: text =>
    match splitOnce [']'] text with
    | none => none
    | some (tag, rest) =>
      if tag = [] then none
      else some (String.ofList tag, if rest.head? = some ' ' then rest.tail else rest)
  | _ => none

def maxStrDigits : Nat := 4300

def pyInt (digits : List Char) : Except PyError Nat :=
  if maxStrDigits < digits.length then .error (.raised "ValueError")
  else .ok (digits.foldl (fun n c => 10 * n + (decimalValue? c).getD 0) 0)

variable (isWord : Char → Bool)

def wordBoundary (before after : Option Char) : Bool := before.any isWord != after.any isWord

def numberThen (literal text : List Char) : Option (List Char) :=
  let digits := text.takeWhile isDecimalDigit
  let rest := text.drop digits.length
  if digits ≠ [] ∧ literal.isPrefixOf rest ∧
      wordBoundary isWord literal.getLast? (rest.drop literal.length).head? then some digits
  else none

def searchFrom (matchAt : List Char → Option (List Char)) (before : Option Char) :
    List Char → Option (List Char)
  | [] => none
  | c :: rest =>
    (if wordBoundary isWord before (some c) then matchAt (c :: rest) else none).or
      (searchFrom matchAt (some c) rest)

def resultOk (text : List Char) : Option (List Char) :=
  searchFrom isWord (fun text =>
    if "test result: ok. ".toList.isPrefixOf text then
      numberThen isWord " passed".toList (text.drop 17) else none) none text

def filteredOut (text : List Char) : Option (List Char) :=
  searchFrom isWord (numberThen isWord " filtered out".toList) none text

def countOf (found : Option (List Char)) : Except PyError Nat :=
  match found with
  | none => .ok 0
  | some digits => pyInt digits

def countLine (rest : List Char) (node : NodeCounts) : Except PyError NodeCounts :=
  let stripped := pyLstrip rest
  if "✓ PASS".toList.isPrefixOf stripped then .ok { node with terminal := some .pass }
  else if "✗ FAIL".toList.isPrefixOf stripped then .ok { node with terminal := some .fail }
  else if hasInfix "test result:".toList rest then do
    let executed ← countOf (resultOk isWord rest)
    let filtered ← countOf (filteredOut isWord rest)
    .ok { node with
      bannerCount := node.bannerCount + 1
      executed := node.executed + executed
      filtered := node.filtered + filtered }
  else .ok node

def countPiece (nodes : Dict NodeCounts) (raw : List Char) : Except PyError (Dict NodeCounts) :=
  match nodeLine? raw with
  | none => .ok nodes
  | some (tag, rest) => do
      let node ← countLine isWord rest ((nodes.get? tag).getD .zero)
      .ok (nodes.set tag node)

def perNodeCounts (output : List Char) : Except PyError (Dict NodeCounts) :=
  (pySplitlines output).foldlM (countPiece isWord) .empty

def isAbsent (node : Option NodeCounts) : Bool := node.all (·.terminal.isNone)

def isZeroExecuted (node : Option NodeCounts) : Bool :=
  node.any fun n => 1 ≤ n.bannerCount ∧ n.executed = 0

def isExecuted (node : Option NodeCounts) : Bool :=
  node.any fun n => n.terminal.isSome ∧ (n.bannerCount = 0 ∨ 0 < n.executed)

structure CoverageObject where
  schemaVersion : Nat
  executedTests : Option Nat
  filteredTests : Option Nat
  plannedTestNodes : Nat
  executedTestNodes : Nat
  zeroExecutedNodes : List String
  absentNodes : List String
  deriving DecidableEq, Repr

def sortedTags (tags : List String) : List String := tags.mergeSort fun a b => decide (a ≤ b)

def coverageOf (nodes : Dict NodeCounts) (planned : List String) : CoverageObject :=
  let values := nodes.entries.map Prod.snd
  let totalBanner := (values.map NodeCounts.bannerCount).sum
  { schemaVersion := 5
    executedTests :=
      if totalBanner = 0 then none else some (values.map NodeCounts.executed).sum
    filteredTests :=
      if totalBanner = 0 then none else some (values.map NodeCounts.filtered).sum
    plannedTestNodes := planned.length
    executedTestNodes := planned.countP fun tag => isExecuted (nodes.get? tag)
    zeroExecutedNodes := sortedTags (planned.filter fun tag => isZeroExecuted (nodes.get? tag))
    absentNodes := sortedTags (planned.filter fun tag => isAbsent (nodes.get? tag)) }

def buildCoverage (isWord : Char → Bool) (logText : List Char) (planned : List String) :
    Except PyError CoverageObject := do
  let nodes ← perNodeCounts isWord logText
  .ok (coverageOf nodes planned)

end DevHermit.Finalize
