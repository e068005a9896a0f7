import DevHermit.Landing.Files
import DevHermit.Lib.Decimal
import DevHermit.Lib.Text

namespace DevHermit.Landing

open Lib List

def QueueEntry.line (entry : QueueEntry) : List Char :=
  renderInteger entry.enqueuedAt ++ '\t' :: (entry.agent.toList ++ '\t' :: entry.pr.toList)

def QueueEntry.render (entry : QueueEntry) : List Char := entry.line ++ ['\n']

def QueueEntry.parse (line : List Char) : Option QueueEntry :=
  match line.splitOn '\t' with
  | [timestamp, agent, pr] =>
    (parseInteger timestamp).map fun enqueuedAt =>
      ⟨enqueuedAt, String.ofList agent, String.ofList pr⟩
  | _ => none

def readQueue (content : List Char) : Option (List QueueEntry) :=
  ((lines content).filter (· ≠ [])).mapM QueueEntry.parse

def writeQueue (queue : List QueueEntry) : List Char := queue.flatMap QueueEntry.render

structure QueueEntry.Plain (entry : QueueEntry) : Prop where
  enqueuedAt : InI64 entry.enqueuedAt
  agent : PlainField entry.agent.toList
  pr : PlainField entry.pr.toList

namespace QueueEntry.Plain

variable {entry : QueueEntry} {queue : List QueueEntry}

theorem parse_line (h : entry.Plain) : QueueEntry.parse entry.line = some entry := by
  have hstamp := notMem_renderInteger (c := '\t') (by decide) (by decide) entry.enqueuedAt
  rw [QueueEntry.parse, line, splitOn_append_cons_self_of_not_mem hstamp,
    splitOn_append_cons_self_of_not_mem h.agent.1, splitOn_eq_singleton h.pr.1]
  simp only [parseInteger_renderInteger h.enqueuedAt, Option.map_some, String.ofList_toList]

theorem newline_notMem_line (h : entry.Plain) : '\n' ∉ entry.line := by
  have hstamp := notMem_renderInteger (c := '\n') (by decide) (by decide) entry.enqueuedAt
  simp [line, hstamp, h.agent.2.1, h.pr.2.1]

theorem getLast_line (h : entry.Plain) : entry.line.getLast? ≠ some '\r' := by
  have hlast := h.pr.2.2
  rw [line, ← cons_append, ← append_assoc, getLast?_append, getLast?_cons, Option.some_or]
  cases hpr : entry.pr.toList.getLast? with
  | none => decide
  | some c => rwa [hpr] at hlast

theorem lines_render (h : entry.Plain) (rest : List Char) :
    lines (entry.render ++ rest) = entry.line :: lines rest := by
  rw [render, append_assoc, singleton_append, lines_cons h.newline_notMem_line h.getLast_line]

theorem readQueue_writeQueue (h : ∀ entry ∈ queue, entry.Plain) :
    readQueue (writeQueue queue) = some queue := by
  induction queue with
  | nil => rfl
  | cons entry queue ih =>
    have hrest := ih fun other ho => h other (mem_cons_of_mem entry ho)
    have hentry := h entry mem_cons_self
    rw [readQueue] at hrest ⊢
    rw [writeQueue, flatMap_cons, hentry.lines_render, ← writeQueue,
      filter_cons_of_pos (by simp [line]), mapM_cons, hentry.parse_line, hrest]
    rfl

end QueueEntry.Plain

end DevHermit.Landing
