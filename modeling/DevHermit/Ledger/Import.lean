import DevHermit.Lib.Decimal
import DevHermit.Lib.Grouping
import DevHermit.Ledger.Validate

namespace DevHermit.Ledger

open Lib Grouping

abbrev Row := Dict Json

def workspaceToken : String := "\x7b\x7bWORKSPACE_ROOT\x7d\x7d"

mutual

def redact (root : String) : Json → Json
  | .str s => .str (replaceAll root workspaceToken s)
  | .obj fields => .obj (redactFields root fields)
  | .arr items => .arr (redactItems root items)
  | j => j
termination_by structural j => j

def redactItems (root : String) : List Json → List Json
  | [] => []
  | j :: rest => redact root j :: redactItems root rest
termination_by structural j => j

def redactField (root : String) : String × Json → String × Json
  | (k, v) => (k, redact root v)
termination_by structural j => j

def redactFields (root : String) : List (String × Json) → List (String × Json)
  | [] => []
  | f :: rest => redactField root f :: redactFields root rest
termination_by structural j => j

end

theorem keys_redactFields (root : String) (fields : List (String × Json)) :
    (redactFields root fields).map Prod.fst = fields.map Prod.fst := by
  induction fields with
  | nil => rfl
  | cons f rest ih => rw [redactFields, List.map_cons, ih, List.map_cons, redactField]

def redactRow (root : String) (row : Row) : Row where
  entries := redactFields root row.entries
  nodup := by
    rw [keys_redactFields]
    exact row.nodup

mutual

def ownerPathFields (path : String) : Json → List (String × String)
  | .str s =>
    if hasInfix ownerPathNeedle s.toList then [(if path = "" then "." else path, s)] else []
  | .obj fields => ownerPathFieldsIn path fields
  | .arr items => ownerPathItems path 0 items
  | _ => []
termination_by structural j => j

def ownerPathItems (path : String) (index : Nat) : List Json → List (String × String)
  | [] => []
  | j :: rest =>
    ownerPathFields (path ++ "[" ++ toString index ++ "]") j ++
      ownerPathItems path (index + 1) rest
termination_by structural j => j

def ownerPathField (path : String) : String × Json → List (String × String)
  | (k, v) => ownerPathFields (path ++ "." ++ k) v
termination_by structural j => j

def ownerPathFieldsIn (path : String) : List (String × Json) → List (String × String)
  | [] => []
  | f :: rest => ownerPathField path f ++ ownerPathFieldsIn path rest
termination_by structural j => j

end

def legacyRow? (event : Event) : Option (List (String × Json)) :=
  match event.get? "legacy_row" with
  | some (.obj fields) => some fields
  | _ => none

def importedRows (events : List Event) : List (List (String × Json)) :=
  events.filterMap legacyRow?

def parseRunIndex (runId : String) : Option Nat :=
  let chars := runId.toList
  if "legacy-".toList.isPrefixOf chars then
    let rest := chars.drop 7
    let digits := if rest.getLast? = some '\n' then rest.dropLast else rest
    if digits ≠ [] ∧ digits.all isDecimalDigit then
      some (ofDecimal (digits.map fun c => (decimalValue? c).getD 0))
    else none
  else none

def nextRun (next : Nat) (event : Event) : Nat :=
  match parseRunIndex (strGet event "run_id") with
  | some index => max next (index + 1)
  | none => next

def nextLegacy (next : Nat) (event : Event) : Nat :=
  match event.get? "legacy_index" with
  | some (.int index) => max next (index + 1).toNat
  | some (.bool index) => max next (index.toNat + 1)
  | _ => next

def highWater (events : List Event) : Nat × Nat :=
  (events.foldl nextRun 0, events.foldl nextLegacy 0)

def pendingFrom : List Json → List Row → List Row
  | _, [] => []
  | counts, row :: rest =>
    if canonical row ∈ counts then pendingFrom (counts.erase (canonical row)) rest
    else row :: pendingFrom counts rest

def pending (live : List Row) (already : List (List (String × Json))) : List Row :=
  pendingFrom (already.map fun fields => Json.canonical (.obj fields)) live

def legacyGroupKeys : List String := ["host", "started_at", "finished_at", "commit"]

abbrev RowKey := List (ℚ ⊕ Json)

def rowKey (row : Row) : Except PyError RowKey :=
  legacyGroupKeys.mapM fun k => ((row.get? k).getD .null).hashKey

def legacyEmittedAt (row : Row) : String :=
  let finished := (row.get? "finished_at").getD .null
  let started := (row.get? "started_at").getD .null
  if finished.truthy then finished.pyStr else if started.truthy then started.pyStr else ""

def legacyRunId (index : Nat) : String := "legacy-" ++ String.ofList (padded 6 index)

def legacyEventId (index position : Nat) : String :=
  legacyRunId index ++ "-" ++ String.ofList (padded 3 position)

def legacyFields (team : String) (run position : Nat) (row : Row) (legacyIndex : Nat) :
    List (String × Json) :=
  [("schema", .str envelopeVersion), ("event_id", .str (legacyEventId run position)),
    ("event_type", .str (if position = 0 then "run.result" else "run.enrich")),
    ("emitted_at", .str (legacyEmittedAt row)), ("team", .str team),
    ("host", (row.get? "host").getD .null), ("run_id", .str (legacyRunId run)),
    ("producer", .obj [("source", .str "imported"),
      ("tool", .str "ci-hub/ledger/migrate_legacy"), ("tool_version", .str "1")]),
    ("commit", (row.get? "commit").getD .null), ("outcome", (row.get? "result").getD .null),
    ("legacy_row", .obj row.entries), ("legacy_index", .int legacyIndex)]

def legacyEvent (team : String) (run position : Nat) (row : Row) (legacyIndex : Nat) : Event where
  entries := legacyFields team run position row legacyIndex ++
    if position = 0 then [] else [("enriches", .str (legacyEventId run (position - 1)))]
  nodup := by
    rw [legacyFields]
    split
    · simp
    · simp

def firstMember (group : RowKey × List Nat) : Nat := group.2.headD 0

def migrateLegacy (team : String) (startRunIndex startLegacyIndex : Nat) (rows : List Row) :
    Except PyError (List Event) := do
  let keys ← rows.mapM rowKey
  let ordered := (groups keys).insertionSort fun a b => firstMember a ≤ firstMember b
  let assignments := ordered.zipIdx.flatMap fun group =>
    group.1.2.zipIdx.filterMap fun member =>
      rows[member.1]?.map fun row =>
        (member.1, legacyEvent team (startRunIndex + group.2) member.2 row
          (startLegacyIndex + member.1))
  return (scatter rows.length assignments).reduceOption

inductive AppendCode where
  | deletedLine
  | rewrittenLine
  deriving DecidableEq, Repr

def verifyAppendOnly {α : Type} [DecidableEq α] (old new : List α) : List AppendCode :=
  (if new.length < old.length then [.deletedLine] else []) ++
    if (old.zip new).any fun p => p.1 ≠ p.2 then [.rewrittenLine] else []

structure Args where
  shard : ShardPath
  team : String
  workspaceRoot : String
  dryRun : Bool
  checkOnly : Bool

structure Outcome where
  exit : Nat
  shard : List Event
  deriving DecidableEq

def idText (event : Event) : String := ((event.get? "event_id").getD .null).pyStr

def lint (shard : ShardPath) : List String → List Event → Except PyError (List (String × List Code))
  | _, [] => .ok []
  | seen, event :: rest => do
      let codes ← validateEvent event (some shard) none (some seen)
      let problems ← lint shard (idText event :: seen) rest
      return if codes = [] then problems else (idText event, codes) :: problems

def publish (args : Args) (events newEvents : List Event) (quarantined : Bool) :
    Except PyError Outcome := do
  let known := events.map idText
  if newEvents.any fun e => idText e ∈ known then return ⟨3, events⟩
  let problems ← lint args.shard known newEvents
  if problems ≠ [] then return ⟨4, events⟩
  let lines := events ++ newEvents.map Dict.canonicalDict
  if verifyAppendOnly events lines ≠ [] then return ⟨5, events⟩
  if args.dryRun then return ⟨0, events⟩
  return ⟨if quarantined then 6 else 0, lines⟩

def importMain (args : Args) (liveLedger : Option (List Row)) (events : List Event) :
    Except PyError Outcome :=
  match liveLedger with
  | none => .ok ⟨2, events⟩
  | some rows =>
    let todo := pending (rows.map (redactRow args.workspaceRoot)) (importedRows events)
    let clean := todo.filter fun row => ownerPathFields "" (.obj row.entries) = []
    if todo = [] then .ok ⟨0, events⟩
    else if args.checkOnly then .ok ⟨1, events⟩
    else if clean = [] then .ok ⟨6, events⟩
    else do
      let (startRun, startLegacy) := highWater events
      let newEvents ← migrateLegacy args.team startRun startLegacy clean
      publish args events newEvents (clean ≠ todo)

end DevHermit.Ledger
