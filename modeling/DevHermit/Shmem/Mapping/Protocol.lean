import DevHermit.Lib.Machine
import DevHermit.Shmem.Mapping.Lifecycle

namespace DevHermit.Shmem.TypedMapping

open Lib

def headerLen : UInt64 := 192

structure Geometry where
  payloadOffset : UInt64
  payloadLen : UInt64
  descriptor : Option LayoutDescriptor
  deriving DecidableEq, Repr

structure Mapping where
  base : UInt64
  len : UInt64
  deriving DecidableEq, Repr

def checkedAdd (a b : UInt64) : Option UInt64 :=
  if a.toNat + b.toNat < 2 ^ 64 then some (a + b) else none

def LayoutDescriptor.validate (found expected : LayoutDescriptor) : Except LayoutMismatch Unit :=
  if found.fingerprint ≠ expected.fingerprint then .error ⟨.fingerprint, expected, found⟩
  else if found.size ≠ expected.size then .error ⟨.size, expected, found⟩
  else if found.alignment ≠ expected.alignment then .error ⟨.alignment, expected, found⟩
  else .ok ()

def Mapping.checkedPayload (m : Mapping) (t : LayoutDescriptor) (offset : UInt64) :
    Except MappingError UInt64 :=
  match checkedAdd offset t.size with
  | none => .error .geometryOverflow
  | some stop =>
    if offset < headerLen ∨ stop > m.len then .error (.payloadExtent offset t.size m.len)
    else
      let pointer := m.base + offset
      if pointer % t.alignment ≠ 0 then .error (.misalignedPayload t.alignment pointer)
      else .ok pointer

def Mapping.payloadFor (m : Mapping) (t : LayoutDescriptor) : Except MappingError UInt64 :=
  match checkedAdd headerLen (t.alignment - 1) with
  | none => .error .geometryOverflow
  | some sum => m.checkedPayload t (sum &&& ~~~(t.alignment - 1))

def Mapping.validateGeometry (m : Mapping) (t : LayoutDescriptor) (geometry : Geometry) :
    Except MappingError UInt64 :=
  match geometry.descriptor with
  | none => .error .layoutEncoding
  | some descriptor =>
    match descriptor.validate t with
    | .error mismatch => .error (.layoutMismatch mismatch)
    | .ok () =>
      if geometry.payloadLen ≠ t.size then .error (.payloadLength t.size geometry.payloadLen)
      else m.checkedPayload t geometry.payloadOffset

inductive Op where
  | tryInitializeInPlace (t : LayoutDescriptor)
  | attach (t : LayoutDescriptor)
  | tryEnter
  | dropGuard
  | dropAttachment
  | beginDrain
  | dropOwner
  | tryPayloadMut
  | tryClose
  | dropDraining
  | poison
  deriving DecidableEq, Repr

inductive Outcome where
  | ok
  | error (error : MappingError)
  | unwound
  deriving DecidableEq, Repr

inductive AfterPoison where
  | finish
  | dropAttachment (outcome : Outcome)
  deriving DecidableEq, Repr

inductive Pc where
  | idle
  | initCas (t : LayoutDescriptor) (payload : UInt64)
  | initGeometry (t : LayoutDescriptor) (payload : UInt64)
  | initCallback
  | initPublish
  | initPoison (outcome : Outcome)
  | attachSnapshot (t : LayoutDescriptor)
  | attachGeometry (t : LayoutDescriptor)
  | attachLoad
  | attachCas (current : UInt64)
  | enterLoad
  | enterCas (current : UInt64)
  | guardDrop
  | attachmentDrop (outcome : Outcome)
  | drainLoad
  | drainCas (current : UInt64)
  | poisonLoad (after : AfterPoison)
  | poisonCas (after : AfterPoison) (current : UInt64)
  | payloadLoad
  | payload
  | closeCas
  | done (outcome : Outcome)
  deriving DecidableEq, Repr

structure Shared where
  lifecycle : UInt64
  geometry : Geometry
  attachments : Nat
  guards : Nat
  owners : Nat
  drainings : Nat
  opened : Nat
  closed : Nat
  deriving DecidableEq, Repr

inductive In where
  | call (op : Op)
  | go
  | spurious
  | callback (unwinds : Bool)
  | endBorrow
  deriving DecidableEq, Repr

def attachDecide (current : UInt64) : Pc :=
  match decode current with
  | .error e => .done (.error e)
  | .ok snapshot =>
    if snapshot.phase ≠ .opened then .done (.error (.wrongPhase .opened snapshot.phase))
    else if snapshot.attachments = maxCount then .done (.error .attachmentLimit)
    else .attachCas current

def enterDecide (current : UInt64) : Pc :=
  match decode current with
  | .error e => .done (.error e)
  | .ok snapshot =>
    if snapshot.phase ≠ .opened then .done (.error (.wrongPhase .opened snapshot.phase))
    else if snapshot.admissions = maxCount then .done (.error .admissionLimit)
    else .enterCas current

def drainDecide (current : UInt64) : Pc :=
  match decode current with
  | .error e => .poisonLoad (.dropAttachment (.error e))
  | .ok snapshot =>
    if snapshot.phase ≠ .opened then
      .poisonLoad (.dropAttachment (.error (.wrongPhase .opened snapshot.phase)))
    else .drainCas current

def AfterPoison.next : AfterPoison → Outcome → Pc
  | .finish, outcome => .done outcome
  | .dropAttachment outcome, _ => .attachmentDrop outcome

def poisonDecide (after : AfterPoison) (current : UInt64) : Pc :=
  match decode current with
  | .error e => after.next (.error e)
  | .ok snapshot =>
    if snapshot.phase = .poisoned then after.next .ok
    else if snapshot.phase = .closed then after.next (.error (.wrongPhase .opened .closed))
    else .poisonCas after current

def isDrained (current : UInt64) : Except MappingError Bool :=
  match decode current with
  | .error e => .error e
  | .ok snapshot =>
    .ok (snapshot.phase == .draining && snapshot.attachments == 1 && snapshot.admissions == 0)

def closeError (actual : UInt64) : MappingError :=
  match decode actual with
  | .ok snapshot =>
    if snapshot.phase = .draining ∧ (snapshot.attachments ≠ 1 ∨ snapshot.admissions ≠ 0) then
      .notDrained
    else .wrongPhase .draining snapshot.phase
  | .error e => e

def snapshotForAttach (t : LayoutDescriptor) (current : UInt64) : Pc :=
  match decode current with
  | .error e => .done (.error e)
  | .ok snapshot =>
    if snapshot.phase ≠ .opened then .done (.error (.wrongPhase .opened snapshot.phase))
    else .attachGeometry t

def call (m : Mapping) (sh : Shared) : Op → Option (Shared × Pc)
  | .tryInitializeInPlace t =>
    match m.payloadFor t with
    | .error e => some (sh, .done (.error e))
    | .ok payload => some (sh, .initCas t payload)
  | .attach t => some (sh, .attachSnapshot t)
  | .tryEnter => if 0 < sh.attachments + sh.owners then some (sh, .enterLoad) else none
  | .dropGuard =>
    if 0 < sh.guards then some ({ sh with guards := sh.guards - 1 }, .guardDrop) else none
  | .dropAttachment =>
    if 0 < sh.attachments then
      some ({ sh with attachments := sh.attachments - 1 }, .attachmentDrop .ok)
    else none
  | .beginDrain =>
    if 0 < sh.owners then some ({ sh with owners := sh.owners - 1 }, .drainLoad) else none
  | .dropOwner =>
    if 0 < sh.owners then
      some ({ sh with owners := sh.owners - 1 }, .poisonLoad (.dropAttachment .ok))
    else none
  | .tryPayloadMut =>
    if 0 < sh.drainings then some ({ sh with drainings := sh.drainings - 1 }, .payloadLoad)
    else none
  | .tryClose =>
    if 0 < sh.drainings then some ({ sh with drainings := sh.drainings - 1 }, .closeCas)
    else none
  | .dropDraining =>
    if 0 < sh.drainings then
      some ({ sh with drainings := sh.drainings - 1 }, .poisonLoad (.dropAttachment .ok))
    else none
  | .poison => some (sh, .poisonLoad .finish)

def advance (m : Mapping) (sh : Shared) : Pc → Option (Shared × Pc)
  | .idle => none
  | .initCas t payload =>
    if sh.lifecycle = pack .uninitialized 0 0 then
      some ({ sh with lifecycle := pack .initializing 0 0 }, .initGeometry t payload)
    else some (sh, .done (.error (wrongPhase .uninitialized sh.lifecycle)))
  | .initGeometry t payload =>
    some ({ sh with geometry := ⟨payload - m.base, t.size, some t⟩ }, .initCallback)
  | .initCallback => none
  | .initPublish =>
    if sh.lifecycle = pack .initializing 0 0 then
      some ({ sh with
        lifecycle := pack .opened 1 0, owners := sh.owners + 1, opened := sh.opened + 1 },
        .done .ok)
    else some (sh, .initPoison (.error (wrongPhase .initializing sh.lifecycle)))
  | .initPoison outcome => some ({ sh with lifecycle := pack .poisoned 0 0 }, .done outcome)
  | .attachSnapshot t => some (sh, snapshotForAttach t sh.lifecycle)
  | .attachGeometry t =>
    match m.validateGeometry t sh.geometry with
    | .error e => some (sh, .done (.error e))
    | .ok _ => some (sh, .attachLoad)
  | .attachLoad => some (sh, attachDecide sh.lifecycle)
  | .attachCas current =>
    if sh.lifecycle = current then
      some ({ sh with
        lifecycle := current + attachmentOne, attachments := sh.attachments + 1 }, .done .ok)
    else some (sh, attachDecide sh.lifecycle)
  | .enterLoad => some (sh, enterDecide sh.lifecycle)
  | .enterCas current =>
    if sh.lifecycle = current then
      some ({ sh with lifecycle := current + activeOne, guards := sh.guards + 1 }, .done .ok)
    else some (sh, enterDecide sh.lifecycle)
  | .guardDrop => some ({ sh with lifecycle := sh.lifecycle - activeOne }, .done .ok)
  | .attachmentDrop outcome =>
    some ({ sh with lifecycle := sh.lifecycle - attachmentOne }, .done outcome)
  | .drainLoad => some (sh, drainDecide sh.lifecycle)
  | .drainCas current =>
    if sh.lifecycle = current then
      some ({ sh with
        lifecycle := withPhase current .draining, drainings := sh.drainings + 1 }, .done .ok)
    else some (sh, drainDecide sh.lifecycle)
  | .poisonLoad after => some (sh, poisonDecide after sh.lifecycle)
  | .poisonCas after current =>
    if sh.lifecycle = current then
      some ({ sh with lifecycle := withPhase current .poisoned }, after.next .ok)
    else some (sh, poisonDecide after sh.lifecycle)
  | .payloadLoad =>
    match isDrained sh.lifecycle with
    | .error e => some ({ sh with drainings := sh.drainings + 1 }, .done (.error e))
    | .ok false => some ({ sh with drainings := sh.drainings + 1 }, .done (.error .notDrained))
    | .ok true => some (sh, .payload)
  | .payload => none
  | .closeCas =>
    if sh.lifecycle = pack .draining 1 0 then
      some ({ sh with lifecycle := pack .closed 0 0, closed := sh.closed + 1 }, .done .ok)
    else
      some ({ sh with drainings := sh.drainings + 1 }, .done (.error (closeError sh.lifecycle)))
  | .done _ => some (sh, .idle)

def spurious (sh : Shared) : Pc → Option (Shared × Pc)
  | .attachCas _ => some (sh, attachDecide sh.lifecycle)
  | .enterCas _ => some (sh, enterDecide sh.lifecycle)
  | .drainCas _ => some (sh, drainDecide sh.lifecycle)
  | .poisonCas after _ => some (sh, poisonDecide after sh.lifecycle)
  | _ => none

def step (m : Mapping) (sh : Shared) (pc : Pc) : In → Option (Shared × Pc)
  | .call op => if pc = .idle then call m sh op else none
  | .go => advance m sh pc
  | .spurious => spurious sh pc
  | .callback unwinds =>
    if pc = .initCallback then
      some (sh, if unwinds then .initPoison .unwound else .initPublish)
    else none
  | .endBorrow =>
    if pc = .payload then some ({ sh with drainings := sh.drainings + 1 }, .done .ok) else none

def machine (m : Mapping) (P : Type) : Machine P Shared Pc In where
  start := ⟨pack .uninitialized 0 0, ⟨0, 0, none⟩, 0, 0, 0, 0, 0, 0⟩
  idle := .idle
  step := fun _ sh pc i => step m sh pc i

end DevHermit.Shmem.TypedMapping
