import DevHermit.Ledger.Events

namespace DevHermit.Ledger

open Lib

inductive Code where
  | unknownEnvelopeVersion
  | fqdnHost
  | hostPathMismatch
  | frozenShardAppend
  | rawCwdForbidden
  | ownerPath
  | unresolvableReference
  | enrichOverwritesSetValue
  deriving DecidableEq, Repr

def ownerPathNeedle : List Char := "/home/".toList

mutual

def containsOwnerPath : Json → Bool
  | .str s => hasInfix ownerPathNeedle s.toList
  | .obj fields => containsOwnerPathFields fields
  | .arr items => containsOwnerPathItems items
  | _ => false
termination_by structural j => j

def containsOwnerPathItems : List Json → Bool
  | [] => false
  | j :: rest => containsOwnerPath j || containsOwnerPathItems rest
termination_by structural j => j

def containsOwnerPathField : String × Json → Bool
  | (_, v) => containsOwnerPath v
termination_by structural j => j

def containsOwnerPathFields : List (String × Json) → Bool
  | [] => false
  | f :: rest => containsOwnerPathField f || containsOwnerPathFields rest
termination_by structural j => j

end

structure ShardPath where
  parents : List String
  name : String
  deriving DecidableEq

def ShardPath.stem (path : ShardPath) : String :=
  let chars := path.name.toList
  let suffix := chars.reverse.takeWhile (· ≠ '.')
  let dotted := chars.length - suffix.length - 1
  if suffix ≠ [] ∧ suffix.length < chars.length ∧ dotted ≠ 0 then
    String.ofList (chars.take dotted)
  else path.name

def shardMonth (path : ShardPath) : Option String :=
  match path.stem.toList with
  | [a, b, c, d, dash, e, f] =>
    if [a, b, c, d, e, f].all isDecimalDigit ∧ dash = '-' then some path.stem else none
  | _ => none

def shardHost (path : ShardPath) : Option String := path.parents.getLast?

def when (condition : Bool) (code : Code) : List Code := if condition then [code] else []

def pathCodes (event : Event) (shard : ShardPath) : List Code :=
  let host := strGet event "host"
  let emitted := String.ofList ((strGet event "emitted_at").toList.take 7)
  when ((shardHost shard).any fun shardHost => shardHost ≠ "" ∧ host ≠ "" ∧ host ≠ shardHost)
      .hostPathMismatch ++
    when ((shardMonth shard).any fun month => emitted ≠ "" ∧ emitted ≠ month) .frozenShardAppend

def reference (event : Event) : Json :=
  let enriches := (event.get? "enriches").getD .null
  if enriches.truthy then enriches else (event.get? "supersedes").getD .null

def referenceCodes (event : Event) (knownIds : Option (List String)) : Except PyError (List Code) :=
  match knownIds with
  | none => .ok []
  | some ids =>
    if reference event = .null then .ok []
    else do
      let known ← inFrozenset (reference event) ids
      return when (!known) .unresolvableReference

def overwrites (prior : Dict Json) (item : String × Json) : Bool :=
  item.2 ≠ .null ∧ (prior.get? item.1).any fun existing => existing ≠ .null ∧ !existing.pyEq item.2

def enrichCodes (event : Event) (prior : Option (Dict Json)) : List Code :=
  match prior with
  | none => []
  | some prior =>
    when (event.get? "event_type" = some (.str "run.enrich") ∧
      (payload event).any (overwrites prior)) .enrichOverwritesSetValue

def validateEvent (event : Event) (shard : Option ShardPath) (prior : Option (Dict Json))
    (knownIds : Option (List String)) : Except PyError (List Code) := do
  let references ← referenceCodes event knownIds
  return when (event.get? "schema" ≠ some (.str envelopeVersion)) .unknownEnvelopeVersion ++
    when ('.' ∈ (strGet event "host").toList) .fqdnHost ++
    (shard.map (pathCodes event)).getD [] ++
    when (event.get? "cwd").isSome .rawCwdForbidden ++
    when (containsOwnerPath (.obj event.entries)) .ownerPath ++
    references ++
    enrichCodes event prior

end DevHermit.Ledger
