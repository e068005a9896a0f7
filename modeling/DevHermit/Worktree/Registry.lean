import DevHermit.Lib.Python
import DevHermit.Lib.System

namespace DevHermit.Worktree

open Lib

structure Owner where
  name : String
  readOnly : Bool
  task : String
  tmuxPaneId : Option String
  cgroupPath : Option String
  deriving DecidableEq

structure SlotRecord where
  agents : List Owner
  allocated : String
  updated : Option String
  status : Option String
  hermitPath : String
  reveriePath : String
  liteinst2Path : String
  task : Option String
  purpose : Option String
  hermitBranch : Option String
  reverieBranch : Option String
  liteinst2Branch : Option String
  coordinatorLease : Bool
  coordinatorLeaseIntent : Bool
  coordinatorLeaseRevocation : Bool
  releaseJournal : Bool
  orphanResidueJournal : Option String
  deriving DecidableEq

abbrev Registry := Dict SlotRecord

def rustSpaces : List Char :=
  ['\t', '\n', '\x0b', '\x0c', '\r', ' ', '\u0085', '\u00a0', '\u1680', '\u2000', '\u2001',
    '\u2002', '\u2003', '\u2004', '\u2005', '\u2006', '\u2007', '\u2008', '\u2009', '\u200a',
    '\u2028', '\u2029', '\u202f', '\u205f', '\u3000']

def rustTrim (text : List Char) : List Char :=
  ((text.dropWhile (· ∈ rustSpaces)).reverse.dropWhile (· ∈ rustSpaces)).reverse

def isControl (c : Char) : Bool := c.toNat < 0x20 || (0x7f ≤ c.toNat && c.toNat ≤ 0x9f)

def isInvalidName (name : String) : Bool :=
  name = "" || rustTrim name.toList ≠ name.toList || name = "-" || '|' ∈ name.toList ||
    name.toList.any isControl

structure OwnerScan where
  index : Nat
  names : List String
  mutating : Nat

def scanOwner (slot : String) (scan : OwnerScan) (agent : Owner) : Except String OwnerScan :=
  if isInvalidName agent.name then
    .error ("slot " ++ slot ++ " agent " ++ toString scan.index ++ " has invalid name '" ++
      agent.name ++ "'")
  else if agent.name ∈ scan.names then
    .error ("slot " ++ slot ++ " records duplicate agent '" ++ agent.name ++ "'")
  else
    .ok ⟨scan.index + 1, agent.name :: scan.names,
      if agent.readOnly then scan.mutating else scan.mutating + 1⟩

def validateOwners (slot : String) (record : SlotRecord) : Except String Unit :=
  if record.agents = [] then .error ("slot " ++ slot ++ " has no recorded owner")
  else do
    let scan ← record.agents.foldlM (scanOwner slot) ⟨0, [], 0⟩
    if scan.mutating ≠ 1 then
      .error ("slot " ++ slot ++ " must have exactly one mutating owner, found " ++
        toString scan.mutating)
    else .ok ()

def canonicalPath (slot product : String) : String := "worktrees/" ++ slot ++ "/" ++ product

def noncanonical (slot key expected : String) : String :=
  "slot " ++ slot ++ " records noncanonical " ++ key ++ "; expected exact path '" ++ expected ++ "'"

def validateCanonicalSlotPaths (slot : String) (record : SlotRecord) : Except String Unit :=
  if record.hermitPath ≠ canonicalPath slot "hermit" then
    .error (noncanonical slot "hermit_path" (canonicalPath slot "hermit"))
  else if record.reveriePath ≠ canonicalPath slot "reverie" then
    .error (noncanonical slot "reverie_path" (canonicalPath slot "reverie"))
  else if record.liteinst2Path ≠ canonicalPath slot "liteinst2" then
    .error (noncanonical slot "liteinst2_path" (canonicalPath slot "liteinst2"))
  else .ok ()

def validSlot (name : String) : Bool :=
  (name.toList.all fun c => ('a' ≤ c && c ≤ 'z') || ('0' ≤ c && c ≤ '9') || c = '-') &&
    name.toList.head?.any (· ≠ '-')

inductive Product where
  | hermit
  | reverie
  | liteinst2
  deriving DecidableEq, Repr

inductive Selection where
  | one (product : Product)
  | both
  | all
  deriving DecidableEq, Repr

def Selection.includes : Selection → Product → Bool
  | .one selected, product => selected = product
  | .both, product => product ≠ .liteinst2
  | .all, _ => true

structure AllocateArgs where
  agent : String
  slot : String
  task : String
  selection : Selection
  hermitBranch : Option String
  reverieBranch : Option String
  liteinst2Branch : Option String
  purpose : String
  readMostly : Bool

abbrev OwnerLease := Except String (String × String)

def applyObservedOwnerLease (owner : Owner) : OwnerLease → Owner
  | .ok (pane, cgroup) => { owner with tmuxPaneId := some pane, cgroupPath := some cgroup }
  | .error _ => { owner with tmuxPaneId := none, cgroupPath := none }

def readopt (args : AllocateArgs) (observed : OwnerLease) (owner : Owner) : Owner :=
  applyObservedOwnerLease
    { owner with
      readOnly := args.readMostly
      task := if args.task = "" then owner.task else args.task } observed

def mergeAgent (args : AllocateArgs) (observed : OwnerLease) : List Owner → List Owner
  | [] => [applyObservedOwnerLease ⟨args.agent, args.readMostly, args.task, none, none⟩ observed]
  | owner :: rest =>
    if owner.name = args.agent then readopt args observed owner :: rest
    else owner :: mergeAgent args observed rest

def setUnlessEmpty (old : Option String) (text : String) : Option String :=
  if text = "" then old else some text

def branchCell (included : Bool) (requested old : Option String) : Option String :=
  let cell := requested.or old
  if cell = none ∨ included = true ∧ cell = some "-" then
    some (if included then "detached" else "-")
  else cell

def newRecord (slot now : String) : SlotRecord :=
  ⟨[], now, none, none, canonicalPath slot "hermit", canonicalPath slot "reverie",
    canonicalPath slot "liteinst2", none, none, none, none, none, false, false, false, false, none⟩

def mergeRecord (args : AllocateArgs) (now : String) (observed : OwnerLease)
    (entry : SlotRecord) : SlotRecord :=
  let ofOwner := fun requested : Option String => if args.readMostly then none else requested
  { entry with
    hermitPath := canonicalPath args.slot "hermit"
    reveriePath := canonicalPath args.slot "reverie"
    liteinst2Path := canonicalPath args.slot "liteinst2"
    status := some "active"
    updated := some now
    task := if args.readMostly then entry.task else setUnlessEmpty entry.task args.task
    purpose := if args.readMostly then entry.purpose else setUnlessEmpty entry.purpose args.purpose
    hermitBranch :=
      branchCell (args.selection.includes .hermit) (ofOwner args.hermitBranch) entry.hermitBranch
    reverieBranch :=
      branchCell (args.selection.includes .reverie) (ofOwner args.reverieBranch) entry.reverieBranch
    liteinst2Branch :=
      branchCell (args.selection.includes .liteinst2) (ofOwner args.liteinst2Branch)
        entry.liteinst2Branch
    agents := mergeAgent args observed entry.agents }

def SlotRecord.mutating (record : SlotRecord) (agent : String) : Bool :=
  record.agents.any fun owner => owner.name = agent && !owner.readOnly

inductive Refusal where
  | usage (message : String)
  | invalidSlot (slot : String)
  | noncanonicalPath (detail : String)
  | unfinishedRelease (slot : String)
  | coordinatorSentinel
  | alreadyOwns (agent other : String)
  | collision (slot owner : String)
  | worktree (detail : String)
  | invalidReleaseSlot (slot : String)
  | notRegistered (slot : String)
  | invalidOwnership (detail : String)
  | unfinishedIntent
  | unfinishedOrphan (slot note : String)
  | unfinishedJournal (slot : String)
  | coordinatorLease (detail : String)
  | invalidRemaining (detail : String)
  | cleanup (detail : String)
  deriving DecidableEq, Repr

def checkArgs (args : AllocateArgs) : Except Refusal Unit :=
  if args.agent = "" then .error (.usage "--agent is required")
  else if args.hermitBranch.isSome ∧ !args.selection.includes .hermit then
    .error (.usage "--hermit-branch requires --product hermit, both, or all")
  else if args.reverieBranch.isSome ∧ !args.selection.includes .reverie then
    .error (.usage "--reverie-branch requires --product reverie, both, or all")
  else if args.liteinst2Branch.isSome ∧ !args.selection.includes .liteinst2 then
    .error (.usage "--liteinst2-branch requires --product liteinst2 or all")
  else if !validSlot args.slot then .error (.invalidSlot args.slot)
  else .ok ()

def checkExisting (slot : String) (existing : SlotRecord) : Except Refusal Unit :=
  match validateCanonicalSlotPaths slot existing with
  | .error detail => .error (.noncanonicalPath detail)
  | .ok _ =>
    if existing.status = some "releasing" ∨ existing.releaseJournal = true ∨
        existing.orphanResidueJournal.isSome = true ∨ existing.coordinatorLeaseRevocation = true then
      .error (.unfinishedRelease slot)
    else if existing.coordinatorLease = true ∨ existing.coordinatorLeaseIntent = true then
      .error .coordinatorSentinel
    else .ok ()

def checkOneSlot (args : AllocateArgs) (state : Registry) : Except Refusal Unit :=
  if args.readMostly then .ok ()
  else
    match state.entries.find? fun e => e.1 ≠ args.slot && e.2.mutating args.agent with
    | some (other, _) => .error (.alreadyOwns args.agent other)
    | none => .ok ()

def checkCollision (args : AllocateArgs) (existing : SlotRecord) : Except Refusal Unit :=
  match existing.agents.find? fun owner => !owner.readOnly with
  | none => .ok ()
  | some owner =>
    if owner.name ≠ args.agent ∧ args.readMostly = false ∧ existing.status ≠ some "released" then
      .error (.collision args.slot owner.name)
    else .ok ()

def allocate (args : AllocateArgs) (now : String) (worktrees : Except String Unit)
    (observed : OwnerLease) (state : Registry) : Except Refusal Registry := do
  checkArgs args
  (state.get? args.slot).forM (checkExisting args.slot)
  checkOneSlot args state
  (state.get? args.slot).forM (checkCollision args)
  match worktrees with
  | .error detail => .error (.worktree detail)
  | .ok _ =>
    .ok (state.upsert args.slot fun entry =>
      mergeRecord args now observed (entry.getD (newRecord args.slot now)))

structure ReleaseArgs where
  slot : String
  agent : Option String
  clean : Bool

def checkLease (args : ReleaseArgs) (record : SlotRecord) : Except Refusal Unit :=
  if record.status = some "releasing" ∨ record.releaseJournal = true ∨
      record.coordinatorLeaseRevocation = true then .error (.unfinishedJournal args.slot)
  else if record.coordinatorLease ∧ !args.clean then
    .error (.coordinatorLease ("Codex coordinator leases can only be released with --clean " ++
      "so exact revocation and global absence proofs remain coupled"))
  else if record.coordinatorLease ∧ args.agent.isSome then
    .error (.coordinatorLease ("cannot drop one recorded agent from a coordinator-leased " ++
      "slot; release the whole slot through exact sentinel revocation"))
  else .ok ()

def checkReleasable (args : ReleaseArgs) (record : SlotRecord) : Except Refusal Unit :=
  match validateOwners args.slot record with
  | .error detail => .error (.invalidOwnership detail)
  | .ok _ =>
    if record.coordinatorLeaseIntent then .error .unfinishedIntent
    else
      match record.orphanResidueJournal with
      | some note => .error (.unfinishedOrphan args.slot note)
      | none => checkLease args record

def removeSlot (state : Registry) (slot : String) : Registry where
  entries := state.entries.filter fun e => e.1 ≠ slot
  nodup := state.nodup.sublist (List.filter_sublist.map _)

def releaseWhole (args : ReleaseArgs) (now : String) (cleanup : Except String Unit)
    (record : SlotRecord) (state : Registry) : Except Refusal Registry :=
  if args.clean then
    match cleanup with
    | .error detail => .error (.cleanup detail)
    | .ok _ => .ok (removeSlot state args.slot)
  else .ok (state.set args.slot { record with status := some "released", updated := some now })

def release (args : ReleaseArgs) (now : String) (cleanup : Except String Unit)
    (state : Registry) : Except Refusal Registry :=
  if !validSlot args.slot then .error (.invalidReleaseSlot args.slot)
  else
    match state.get? args.slot with
    | none => .error (.notRegistered args.slot)
    | some record => do
        checkReleasable args record
        match args.agent with
        | none => releaseWhole args now cleanup record state
        | some name =>
          let remaining := record.agents.filter fun owner => owner.name ≠ name
          if remaining = [] then releaseWhole args now cleanup record state
          else
            match validateOwners args.slot { record with agents := remaining } with
            | .error detail => .error (.invalidRemaining detail)
            | .ok _ =>
              .ok (state.set args.slot
                { record with agents := remaining, updated := some now })

inductive Command where
  | allocate (args : AllocateArgs) (now : String) (worktrees : Except String Unit)
      (observed : OwnerLease)
  | release (args : ReleaseArgs) (now : String) (cleanup : Except String Unit)

def invoke (state : Registry) : Command → Option Registry
  | .allocate args now worktrees observed =>
    (allocate args now worktrees observed state).toOption
  | .release args now cleanup => (release args now cleanup state).toOption

def system : System Registry Command where
  start := .empty
  step := invoke

end DevHermit.Worktree
