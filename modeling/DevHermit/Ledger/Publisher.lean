import DevHermit.Lib.Machine

namespace DevHermit.Ledger.Publisher

open Lib

structure Shared (K E : Type) where
  dir : K → Option Nat
  names : List K
  content : Nat → List E
  fresh : Nat
  remote : K → List E
  head : Nat
  returned : List (K × E)

abbrev Pending (K E : Type) := List (K × List E)

inductive Local (K E : Type) where
  | idle
  | opening (k : K) (events : List E)
  | appending (k : K) (inode : Nat) (todo sent : List E)
  | reading (todo : List K) (pending : Pending K E)
  | fetching (pending : Pending K E) (left : Nat)
  | pushing (pending : Pending K E) (base : Option Nat) (commit : K → List E) (left : Nat)
  | confirming (pending : Pending K E) (commit : K → List E) (left : Nat)
  | draining (todo : Pending K E)

inductive Input (K E : Type) where
  | spool (k : K) (events : List E)
  | publish
  | extend (k : K) (lines : List E)
  | go
  | fetch (stale : Option (K → Nat)) (failing : K → Bool)
  | push (accepted : Bool)
  | die

def defaultAttempts : Nat := 5

variable {P K E I : Type} [DecidableEq K] [DecidableEq E] [DecidableEq I]

def mergeEvent (id : E → I) (body : List E) (event : E) : List E :=
  if event ∈ body ∨ id event ∈ body.map id then body else body ++ [event]

def mergeShard (id : E → I) (remote events : List E) : List E :=
  events.foldl (mergeEvent id) remote

def shown (failing : K → Bool) (view : K → List E) (k : K) : List E :=
  if failing k then [] else view k

def commitOf (id : E → I) (failing : K → Bool) (pending : Pending K E) (view : K → List E)
    (k : K) : List E :=
  match pending.lookup k with
  | some events =>
    let merged := mergeShard id (shown failing view k) events
    if merged = shown failing view k then view k else merged
  | none => view k

def Shared.init (K E : Type) (remote : K → List E) : Shared K E where
  dir := fun _ => none
  names := []
  content := fun _ => []
  fresh := 0
  remote := remote
  head := 0
  returned := []

def Shared.open (sh : Shared K E) (k : K) : Shared K E × Nat :=
  match sh.dir k with
  | some inode => (sh, inode)
  | none => ({ sh with
      dir := Function.update sh.dir k (some sh.fresh)
      names := if k ∈ sh.names then sh.names else k :: sh.names
      content := Function.update sh.content sh.fresh []
      fresh := sh.fresh + 1 }, sh.fresh)

def Shared.listing (sh : Shared K E) : List K := sh.names.filter fun k => (sh.dir k).isSome

def Shared.view (sh : Shared K E) : Option (K → Nat) → K → List E
  | none => sh.remote
  | some seen => fun k => (sh.remote k).take (seen k)

def advance (valid : K → E → Bool) (sh : Shared K E) :
    Local K E → Option (Shared K E × Local K E)
  | .opening k events =>
    let opened := sh.open k
    some (opened.1, .appending k opened.2 events [])
  | .appending k inode (e :: todo) sent =>
    some ({ sh with content := Function.update sh.content inode (sh.content inode ++ [e]) },
      .appending k inode todo (sent ++ [e]))
  | .appending k _ [] sent =>
    some ({ sh with returned := sh.returned ++ sent.map fun e => (k, e) }, .idle)
  | .reading (k :: todo) pending =>
    match sh.dir k with
    | none => some (sh, .idle)
    | some inode => some (sh, .reading todo (pending ++ [(k, sh.content inode)]))
  | .reading [] pending =>
    if pending ≠ [] ∧ pending.all fun shard => shard.2.all (valid shard.1) then
      some (sh, .fetching pending defaultAttempts)
    else some (sh, .idle)
  | .draining ((k, _) :: todo) =>
    some ({ sh with dir := Function.update sh.dir k none }, .draining todo)
  | .draining [] => some (sh, .idle)
  | _ => none

def fetch (id : E → I) (sh : Shared K E) (stale : Option (K → Nat)) (failing : K → Bool) :
    Local K E → Option (Shared K E × Local K E)
  | .fetching _ 0 => some (sh, .idle)
  | .fetching pending (left + 1) =>
    let text := shown failing (sh.view stale)
    if pending.all fun shard => mergeShard id (text shard.1) shard.2 = text shard.1 then
      some (sh, .draining pending)
    else
      some (sh, .pushing pending (if stale.isNone then some sh.head else none)
        (commitOf id failing pending (sh.view stale)) left)
  | .confirming pending commit left =>
    if pending.all fun shard => (commit shard.1).isPrefixOf (sh.view stale shard.1) then
      some (sh, .draining pending)
    else some (sh, .fetching pending left)
  | _ => none

def push (sh : Shared K E) (accepted : Bool) : Local K E → Option (Shared K E × Local K E)
  | .pushing pending base commit left =>
    if accepted then
      if base = some sh.head then
        some ({ sh with remote := commit, head := sh.head + 1 }, .confirming pending commit left)
      else none
    else some (sh, .fetching pending left)
  | _ => none

def publisher (P : Type) (id : E → I) (valid : K → E → Bool) (remote : K → List E) :
    Machine P (Shared K E) (Local K E) (Input K E) where
  start := Shared.init K E remote
  idle := .idle
  step _ sh l i :=
    match i with
    | .spool k events =>
      match l with
      | .idle => if events = [] then none else some (sh, .opening k events)
      | _ => none
    | .publish =>
      match l with
      | .idle => some (sh, .reading sh.listing [])
      | _ => none
    | .extend k lines =>
      match l with
      | .idle => some ({ sh with
          remote := Function.update sh.remote k (sh.remote k ++ lines)
          head := sh.head + 1 }, .idle)
      | _ => none
    | .go => advance valid sh l
    | .fetch stale failing => fetch id sh stale failing l
    | .push accepted => push sh accepted l
    | .die => some (sh, .idle)

end DevHermit.Ledger.Publisher
