import DevHermit.Lib.Python

namespace DevHermit.Ledger

open Lib

abbrev Event := Dict Json

abbrev Run := Dict Json

def envelopeVersion : String := "validate-ledger/v1"

def envelopeKeys : List String :=
  ["schema", "event_id", "event_type", "emitted_at", "team", "host", "run_id", "producer"]

def nonVerdictOutcomes : List String := ["no_result", "timeout", "incomplete"]

def nonGreenSources : List String := ["reconstructed"]

structure ConflictingEventId where
  eventId : String
  deriving DecidableEq

def strGet (d : Dict Json) (key : String) : String := ((d.get? key).map Json.pyStr).getD ""

def eventId (event : Event) : String := strGet event "event_id"

def eventKey (event : Event) : String ×ₗ String :=
  toLex (strGet event "emitted_at", eventId event)

def canonical (event : Event) : Json := Json.canonical (.obj event.entries)

def sortEvents (events : List Event) : List Event :=
  events.insertionSort fun e f => eventKey e ≤ eventKey f

def collect (byId : Dict Event) : List Event → Except ConflictingEventId (Dict Event)
  | [] => .ok byId
  | event :: rest =>
    match byId.get? (eventId event) with
    | none => collect (byId.set (eventId event) event) rest
    | some seen =>
      if canonical seen = canonical event then collect byId rest
      else .error ⟨eventId event⟩

def unionEvents (events : List Event) : Except ConflictingEventId (List Event) :=
  (collect .empty events).map fun byId => sortEvents (byId.entries.map Prod.snd)

def union (shards : List (List Event)) : Except ConflictingEventId (List Event) :=
  unionEvents shards.flatten

def runId (event : Event) : String :=
  match event.get? "run_id" with
  | some id => id.pyStr
  | none => eventId event

def eventType (event : Event) : Json := (event.get? "event_type").getD (.str "run.result")

def payload (event : Event) : List (String × Json) :=
  event.entries.filter fun item =>
    item.1 ∉ envelopeKeys ∧ item.1 ∉ ["enriches", "supersedes", "reason"]

def applyEvent (current : Run) (event : Event) : Run :=
  if eventType event = .str "run.result" then current.setDefaults event.entries
  else if eventType event = .str "run.enrich" then
    current.update ((payload event).filter fun item => item.2 ≠ .null)
  else if eventType event = .str "run.correct" then current.update (payload event)
  else current.setDefaults (payload event)

def foldEvent (runs : Dict Run) (event : Event) : Dict Run :=
  runs.upsert (runId event) fun current => applyEvent (current.getD .empty) event

def fold (events : List Event) : Dict Run := (sortEvents events).foldl foldEvent .empty

def timeline (events : List Event) (runId : String) : List Event :=
  (sortEvents events).filter fun event => strGet event "run_id" = runId

def noteLatest (commit : Json) (run : Run) : List (Json × Run) → List (Json × Run)
  | [] => [(commit, run)]
  | (key, seen) :: rest =>
    if key.keyEq commit then
      (key, if strGet seen "emitted_at" ≤ strGet run "emitted_at" then run else seen) :: rest
    else (key, seen) :: noteLatest commit run rest

def noteRun (latest : List (Json × Run)) (entry : String × Run) :
    Except PyError (List (Json × Run)) :=
  match entry.2.get? "commit" with
  | none => .ok latest
  | some commit =>
    if !commit.truthy then .ok latest
    else if !commit.hashable then .error .typeError
    else .ok (noteLatest commit entry.2 latest)

def latestRunPerCommit (runs : Dict Run) : Except PyError (List (Json × Run)) :=
  runs.entries.foldlM noteRun []

def producerSource (run : Run) : Except PyError Json :=
  match (run.get? "producer").getD .null with
  | .obj fields => .ok ((fields.lookup "source").getD .null)
  | producer => if producer.truthy then .error .attributeError else .ok .null

def inFrozenset (value : Json) (members : List String) : Except PyError Bool :=
  if value.hashable then .ok (decide (value ∈ members.map Json.str)) else .error .typeError

def isGreenRun (hostPred : Option (String → Bool)) (run : Run) : Except PyError Bool :=
  if (run.get? "outcome").getD .null ≠ .str "pass" then .ok false
  else do
    let source ← producerSource run
    let excluded ← inFrozenset source nonGreenSources
    if excluded then return false
    return hostPred.all fun pred => pred (strGet run "host")

def newest (best : Run) : List Run → Run
  | [] => best
  | run :: rest =>
    newest (if strGet best "emitted_at" < strGet run "emitted_at" then run else best) rest

def greenRuns (hostPred : Option (String → Bool)) : List Run → Except PyError (List Run)
  | [] => .ok []
  | run :: rest => do
      let isGreen ← isGreenRun hostPred run
      let others ← greenRuns hostPred rest
      return if isGreen then run :: others else others

def green (runs : Dict Run) (hostPred : Option (String → Bool)) : Except PyError (Option Json) := do
  let latest ← latestRunPerCommit runs
  let candidates ← greenRuns hostPred (latest.map Prod.snd)
  match candidates with
  | [] => return none
  | best :: rest => return (newest best rest).get? "commit"

inductive Verdict where
  | pass
  | fail
  | unknown
  | nodata
  deriving DecidableEq, Repr

def outcomeVerdict (outcome : Json) : Except PyError Verdict := do
  let inconclusive ← inFrozenset outcome nonVerdictOutcomes
  if inconclusive then return .unknown
  if outcome = .str "pass" then return .pass
  if outcome = .str "fail" then return .fail
  return .unknown

def bisectVerdict (runs : Dict Run) (commit : String) : Except PyError Verdict := do
  let latest ← latestRunPerCommit runs
  match latest.find? fun entry => entry.1.keyEq (.str commit) with
  | none => return .nodata
  | some entry => outcomeVerdict ((entry.2.get? "outcome").getD .null)

def commitGaps (runs : Dict Run) (commits : List String) : Except PyError (List String) := do
  let latest ← latestRunPerCommit runs
  return commits.filter fun commit => !latest.any fun entry => entry.1.keyEq (.str commit)

end DevHermit.Ledger
