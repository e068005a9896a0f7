import DevHermit.Receipt.Assess
import DevHermit.Lib.Text

namespace DevHermit.Receipt

open Lib

def gateFailed (gate : GateHistoryRow) : Bool :=
  gate.result = some "fail" || gate.result = some "failed" ||
    gate.kind = some "fail" || gate.kind = some "timeout"

def isAsciiAlphanumeric (c : Char) : Bool :=
  ('a' ≤ c && c ≤ 'z') || ('A' ≤ c && c ≤ 'Z') || ('0' ≤ c && c ≤ '9')

def normalize (value : String) : String :=
  String.ofList ((value.toList.filter isAsciiAlphanumeric).map Char.toLower)

def stripAnsi : Bool → List Char → List Char
  | _, [] => []
  | true, c :: rest => stripAnsi (!('@' ≤ c && c ≤ '~')) rest
  | false, '\x1b' :: '[' :: rest => stripAnsi true rest
  | false, c :: rest => c :: stripAnsi false rest

def observation (name result : String) (sourceNode : Option String) : GateHistoryRow :=
  ⟨name, some result, none, none, none, sourceNode, none, [], []⟩

def sourceNodeOf : List Char → Option String
  | '[' :: rest => (splitOnce [']'] rest).map fun p => String.ofList p.1
  | _ => none

def nodeResult (line : List Char) : Option String :=
  if hasInfix "✓ PASS".toList line then some "pass"
  else if hasInfix "✗ FAIL".toList line then some "fail"
  else none

def testResult (suffix : List Char) : Option String :=
  if "ok".toList.isPrefixOf suffix then some "pass"
  else if "FAILED".toList.isPrefixOf suffix then some "fail"
  else none

def nodeObservation (line : List Char) : Option GateHistoryRow := do
  let node ← sourceNodeOf line
  let result ← nodeResult line
  some (observation node result (some node))

def testObservation (line : List Char) : Option GateHistoryRow := do
  let (_, test) ← splitOnce "test ".toList line
  let (name, suffix) ← splitOnce " ... ".toList test
  if name = "result:".toList ∨ name = [] then none
  else
    let result ← testResult suffix
    some (observation (String.ofList name) result (sourceNodeOf line))

def parseLogObservations (raw : String) : List GateHistoryRow :=
  (lines raw.toList).flatMap fun rawLine =>
    let line := stripAnsi false rawLine
    (nodeObservation line).toList ++ (testObservation line).toList

def isDiagnostic (gate : GateHistoryRow) (line : List Char) : Bool :=
  let named := hasInfix gate.name.toList line
  let belongs := named || gate.sourceNode.any fun node =>
    (['['] ++ node.toList ++ [']']).isPrefixOf line
  let diagnostic := named || hasInfix "panicked at".toList line || hasInfix "error:".toList line ||
    hasInfix "✗ FAIL".toList line
  belongs && diagnostic

def scopedErrorExcerpt (raw : String) (gate : GateHistoryRow) : List String :=
  ((((lines raw.toList).map (stripAnsi false)).filter (isDiagnostic gate)).map fun line =>
    String.ofList (line.take 300)).take 20

def extendExtra (gate : GateHistoryRow) (extra : List (String × Json)) : GateHistoryRow :=
  { gate with extra := extra.foldl (fun kept e => upsertEntry e.1 (fun _ => e.2) kept) gate.extra }

def excerpted (raw : String) (gate : GateHistoryRow) : GateHistoryRow :=
  if gateFailed gate then
    let excerpt := scopedErrorExcerpt raw gate
    if excerpt ≠ [] then extendExtra gate [("error_excerpt", .arr (excerpt.map .str))] else gate
  else gate

def gateKey (gate : GateHistoryRow) : String × String :=
  (normalize gate.name, gate.result.getD "")

def extendFirst (gate : GateHistoryRow) : List GateHistoryRow → List GateHistoryRow
  | [] => []
  | existing :: rest =>
    if normalize existing.name = normalize gate.name ∧ existing.result = gate.result then
      extendExtra existing gate.extra :: rest
    else existing :: extendFirst gate rest

structure GateIndex where
  gates : List GateHistoryRow
  seen : List (String × String)

def GateIndex.of (gates : List GateHistoryRow) : GateIndex := ⟨gates, gates.map gateKey⟩

def GateIndex.observe (index : GateIndex) (gate : GateHistoryRow) : GateIndex :=
  if gateKey gate ∈ index.seen then { index with gates := extendFirst gate index.gates }
  else ⟨index.gates ++ [gate], gateKey gate :: index.seen⟩

def GateIndex.retain (index : GateIndex) (gate : GateHistoryRow) : GateIndex :=
  if gateKey gate ∈ index.seen then index
  else ⟨index.gates ++ [gate], gateKey gate :: index.seen⟩

abbrev Logs := String → Option String

def enrichRowFromLog (logs : Logs) (row : LedgerRow) : LedgerRow :=
  match row.logFile.bind logs with
  | none => row
  | some raw =>
    let observed := (parseLogObservations raw).map (excerpted raw)
    { row with gates := (observed.foldl GateIndex.observe (.of row.gates)).gates }

structure RetainedCellEvidence where
  commit : String
  finishedAt : Option String
  gates : List GateHistoryRow

structure CellEvidenceCache where
  schemaVersion : Nat
  records : List RetainedCellEvidence

def CellEvidenceCache.empty : CellEvidenceCache := ⟨0, []⟩

def CellEvidenceCache.retained (cache : CellEvidenceCache) (row : LedgerRow) :
    Option RetainedCellEvidence :=
  row.receipt.commit.bind fun commit =>
    cache.records.reverse.find? fun record =>
      record.commit = commit ∧ record.finishedAt = row.receipt.finishedAt

def mergeRetainedRow (cache : CellEvidenceCache) (row : LedgerRow) : LedgerRow :=
  match cache.retained row with
  | none => row
  | some record =>
    { row with gates := (record.gates.foldl GateIndex.retain (.of row.gates)).gates }

def mergeRetainedCellEvidence (rows : List LedgerRow) (cache : CellEvidenceCache) :
    List LedgerRow :=
  rows.map (mergeRetainedRow cache)

def enrichRowsFromLogs (logs : Logs) (rows : List LedgerRow) : List LedgerRow :=
  rows.map (enrichRowFromLog logs)

def retainedCellEvidence (rows : List LedgerRow) : CellEvidenceCache :=
  ⟨2, rows.filterMap fun row => row.receipt.commit.map fun commit =>
    ⟨commit, row.receipt.finishedAt, row.gates.filter (·.sourceNode.isSome)⟩⟩

inductive CacheFile where
  | notFound
  | unreadable (error : String)
  | invalid
  | parsed (cache : CellEvidenceCache)

def CacheFile.load (path : String) : CacheFile → Except String CellEvidenceCache
  | .notFound => .ok .empty
  | .unreadable error => .error ("read cell-evidence cache " ++ path ++ ": " ++ error)
  | .invalid => .ok .empty
  | .parsed cache => .ok (if cache.schemaVersion = 2 then cache else .empty)

structure Retention where
  rows : List LedgerRow
  outcome : Except String Unit
  written : Option CellEvidenceCache

def retainCellEvidence (path : String) (file : CacheFile)
    (save : CellEvidenceCache → Except String Unit) (logs : Logs) (rows : List LedgerRow) :
    Retention :=
  match file.load path with
  | .error error => ⟨rows, .error error, none⟩
  | .ok cache =>
    let merged := mergeRetainedCellEvidence rows cache
    let indexed := fun row : LedgerRow => (cache.retained row).isSome
    let refreshed := merged.map fun row =>
      if row.receipt.commit.isSome ∧ !indexed row then
        (enrichRowsFromLogs logs [row]).headD row else row
    let updated := retainedCellEvidence refreshed
    if updated.records.isEmpty then ⟨refreshed, .ok (), none⟩
    else
      match save updated with
      | .error error => ⟨refreshed, .error error, none⟩
      | .ok () => ⟨refreshed, .ok (), some updated⟩

end DevHermit.Receipt
