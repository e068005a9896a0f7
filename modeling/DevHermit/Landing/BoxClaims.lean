import DevHermit.Lib.Machine

namespace DevHermit.Landing.BoxClaims

open Lib

abbrev Name := List Char

structure Tags where
  agent : List Char
  operation : List Char
  host : List Char
  deriving DecidableEq, Repr

def versionLine : List Char := "version=1".toList

def cleanupKey : List Char := "cleanup=".toList

def cleanupSuffix : List Char := ".cleanup-required".toList

def boxClaimFile (cleanup : Name) : Name :=
  cleanup.map (fun c => if c.isAlphanum then c else '_') ++ ".claim".toList

def claimBody (cleanup : Name) (tags : Tags) : List Char :=
  versionLine ++ '\n' :: (cleanupKey ++ cleanup ++ '\n' ::
    ("agent=".toList ++ tags.agent ++ '\n' :: ("operation=".toList ++ tags.operation ++ '\n' ::
      ("host=".toList ++ tags.host ++ ['\n']))))

def stripCr (line : List Char) : List Char :=
  if line.getLast? = some '\r' then line.dropLast else line

def parseClaimCleanup (body : List Char) : Option Name :=
  ((body.splitOn '\n').map stripCr).findSome? fun line => line.dropPrefix? cleanupKey

def isClaim (name : Name) : Bool := ".claim".toList.isSuffixOf name

structure Shared (P R : Type) where
  record : Name → Bool
  dir : Name → Option Nat
  names : List Name
  body : Nat → List Char
  fresh : Nat
  guard : R → Option P
  armed : R → Bool
  epoch : R → Nat

inductive Local (R : Type) where
  | idle
  | lock (r : R) (job : Option Tags)
  | checkRecord (r : R) (tags : Tags)
  | writeRecord (r : R) (tags : Tags)
  | openClaim (r : R) (tags : Tags)
  | writeClaim (r : R) (tags : Tags) (inode : Nat)
  | removeRecord (r : R)
  | removeClaim (r : R)
  | unlock (r : R)
  | readDir (q : R)
  | next (q : R) (todo : List Name) (since : R → Option Nat)
  | readBody (q : R) (name : Name) (todo : List Name) (since : R → Option Nat)
  | verify (q : R) (name cleanup : Name) (todo : List Name) (since : R → Option Nat)
  | prune (q : R) (name : Name) (todo : List Name) (since : R → Option Nat)
  | answered (q : R) (refused : Bool)

inductive Input (R : Type) where
  | arm (r : R) (tags : Tags)
  | discharge (r : R)
  | check (q : R)
  | go (listing : List Name)

variable {P R : Type} [DecidableEq R]

def cleanupOf (lock : R → Name) (r : R) : Name := lock r ++ cleanupSuffix

def claimOf (lock : R → Name) (r : R) : Name := boxClaimFile (cleanupOf lock r)

def Shared.init (P R : Type) : Shared P R where
  record := fun _ => false
  dir := fun _ => none
  names := []
  body := fun _ => []
  fresh := 0
  guard := fun _ => none
  armed := fun _ => false
  epoch := fun _ => 0

def Shared.truncate (sh : Shared P R) (name : Name) : Shared P R × Nat :=
  match sh.dir name with
  | some inode => ({ sh with body := Function.update sh.body inode [] }, inode)
  | none => ({ sh with
      dir := Function.update sh.dir name (some sh.fresh)
      names := name :: sh.names
      body := Function.update sh.body sh.fresh []
      fresh := sh.fresh + 1 }, sh.fresh)

def Shared.unlink (sh : Shared P R) (name : Name) : Shared P R :=
  { sh with dir := Function.update sh.dir name none }

def Shared.since (sh : Shared P R) (r : R) : Option Nat :=
  if sh.armed r then some (sh.epoch r) else none

def Shared.lists (sh : Shared P R) (listing : List Name) : Bool :=
  sh.names.all fun name => (sh.dir name).isNone || listing.contains name

def advance (lock : R → Name) (p : P) (sh : Shared P R) (listing : List Name) :
    Local R → Option (Shared P R × Local R)
  | .idle => none
  | .lock r job =>
    match sh.guard r with
    | some _ => none
    | none => some ({ sh with guard := Function.update sh.guard r (some p) },
        match job with
        | some tags => .checkRecord r tags
        | none => .removeRecord r)
  | .checkRecord r tags =>
    some (sh, if sh.record (cleanupOf lock r) then .unlock r else .writeRecord r tags)
  | .writeRecord r tags =>
    some ({ sh with record := Function.update sh.record (cleanupOf lock r) true },
      .openClaim r tags)
  | .openClaim r tags =>
    let opened := sh.truncate (claimOf lock r)
    some (opened.1, .writeClaim r tags opened.2)
  | .writeClaim r tags inode =>
    some ({ sh with
      body := Function.update sh.body inode (claimBody (cleanupOf lock r) tags)
      armed := Function.update sh.armed r true }, .unlock r)
  | .removeRecord r =>
    some ({ sh with
      record := Function.update sh.record (cleanupOf lock r) false
      armed := Function.update sh.armed r false
      epoch := Function.update sh.epoch r (sh.epoch r + 1) }, .removeClaim r)
  | .removeClaim r => some (sh.unlink (claimOf lock r), .unlock r)
  | .unlock r => some ({ sh with guard := Function.update sh.guard r none }, .idle)
  | .readDir q => if sh.lists listing then some (sh, .next q listing sh.since) else none
  | .next q [] _ => some (sh, .answered q false)
  | .next q (name :: todo) since =>
    some (sh, if isClaim name then .readBody q name todo since else .next q todo since)
  | .readBody q name todo since =>
    match sh.dir name with
    | none => some (sh, .next q todo since)
    | some inode =>
      match parseClaimCleanup (sh.body inode) with
      | none => some (sh, .prune q name todo since)
      | some cleanup =>
        some (sh, if cleanup = cleanupOf lock q then .next q todo since
          else .verify q name cleanup todo since)
  | .verify q name cleanup todo since =>
    some (sh, if sh.record cleanup then .answered q true else .prune q name todo since)
  | .prune q name todo since => some (sh.unlink name, .next q todo since)
  | .answered _ _ => some (sh, .idle)

def boxClaims (P : Type) (lock : R → Name) : Machine P (Shared P R) (Local R) (Input R) where
  start := Shared.init P R
  idle := .idle
  step p sh l i :=
    match i with
    | .go listing => advance lock p sh listing l
    | .arm r tags =>
      match l with
      | .idle => some (sh, .lock r (some tags))
      | _ => none
    | .discharge r =>
      match l with
      | .idle => some (sh, .lock r none)
      | _ => none
    | .check q =>
      match l with
      | .idle => some (sh, .readDir q)
      | _ => none

end DevHermit.Landing.BoxClaims
