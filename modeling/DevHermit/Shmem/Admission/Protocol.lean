import DevHermit.Shmem.Admission.Gate
import DevHermit.Shmem.Snzi.Protocol

namespace DevHermit.Shmem.Admission

open Lib

inductive TryEnterError where
  | closed
  | poisoned
  | reservationExhausted
  | snzi (error : Snzi.SnziError)
  deriving DecidableEq, Repr

inductive DepartError where
  | poisoned
  | alreadyDrained
  | reservationExhausted
  | snzi (error : Snzi.SnziError)
  deriving DecidableEq, Repr

inductive Op where
  | tryEnter (leaf : Nat)
  | depart (token : Token)
  | departRaw (token : Token)
  | close
  | isDrained
  deriving DecidableEq, Repr

inductive Ret where
  | entered (token : Token)
  | enterFailed (error : TryEnterError)
  | departed
  | departFailed (error : DepartError)
  | closed (first : Bool)
  | drained (answer : Bool)
  deriving DecidableEq, Repr

inductive Pc where
  | idle
  | reserveLoad (leaf : Nat)
  | reserveCas (leaf : Nat) (state : UInt64)
  | reservePoison
  | entering (leaf : Nat) (pc : Snzi.Pc)
  | enterPoison (error : Snzi.SnziError)
  | departLoad (token : Token) (raw : Bool)
  | departCas (token : Token) (raw : Bool) (state : UInt64)
  | departPoison (token : Token)
  | departing (pc : Snzi.Pc)
  | releaseLoad (ret : Ret)
  | releaseCas (ret : Ret) (state : UInt64)
  | releasePoison (ret : Ret)
  | closeOr
  | drainLoad
  | drainQuery (gate : UInt64) (pc : Snzi.Pc)
  | drainCas (gate : UInt64)
  | drainScan (checking : UInt64) (pc : Snzi.Pc)
  | drainSeal (checking : UInt64) (quiescent : Bool)
  | drainRestore
  | done (ret : Ret)
  deriving DecidableEq, Repr

structure Shared where
  gate : UInt64
  mem : Snzi.Memory
  tokens : List Token

inductive In where
  | call (op : Op)
  | go
  | spurious
  deriving DecidableEq, Repr

def Shared.setGate (sh : Shared) (gate : UInt64) : Shared := { sh with gate := gate }

def reserveDecide (leaf : Nat) (state : UInt64) : Pc :=
  if state &&& closedBit ≠ 0 then .done (.enterFailed .closed)
  else if state &&& poisonedBit ≠ 0 then .done (.enterFailed .poisoned)
  else if state &&& reservationMask = reservationMask then .reservePoison
  else .reserveCas leaf state

def reserveDepartureDecide (token : Token) (raw : Bool) (state : UInt64) : Pc :=
  if state &&& poisonedBit ≠ 0 then .done (.departFailed .poisoned)
  else if state &&& drainedBit ≠ 0 then .done (.departFailed .alreadyDrained)
  else if state &&& checkingBit ≠ 0 then .departLoad token raw
  else if state &&& reservationMask = reservationMask then .departPoison token
  else .departCas token raw state

def releaseDecide (ret : Ret) (state : UInt64) : Pc :=
  if state &&& reservationMask = 0 then .releasePoison ret else .releaseCas ret state

def drainDecide (gate : UInt64) : Pc :=
  if gate &&& drainedBit ≠ 0 then .done (.drained (decide (gate = terminalDrained)))
  else if gate &&& (closedBit ||| poisonedBit ||| checkingBit) ≠ closedBit ∨
      gate &&& reservationMask ≠ 0 then .done (.drained false)
  else .drainQuery gate .queryRoot

def sealWord (checking : UInt64) (quiescent : Bool) : UInt64 :=
  if quiescent then (checking &&& ~~~ checkingBit) ||| drainedBit else checking &&& ~~~ checkingBit

def arrived (ret : Snzi.Ret) : Option Pc :=
  match ret with
  | .arrived token => some (.releaseLoad (.entered token))
  | .error _ (.poisoned reason) => some (.enterPoison (.poisoned reason))
  | .error _ error => some (.releaseLoad (.enterFailed (.snzi error)))
  | _ => none

def departed (ret : Snzi.Ret) : Option Pc :=
  match ret with
  | .departed => some (.releaseLoad .departed)
  | .error _ error => some (.releaseLoad (.departFailed (.snzi error)))
  | _ => none

def queried (gate : UInt64) (ret : Snzi.Ret) : Option Pc :=
  match ret with
  | .active answer => some (if answer then .done (.drained false) else .drainCas gate)
  | _ => none

def scanned (checking : UInt64) (ret : Snzi.Ret) : Option Pc :=
  match ret with
  | .quiescent answer => some (.drainSeal checking answer)
  | _ => none

def nested (t : TreeSize) (sh : Shared) (pc : Snzi.Pc) (wrap : Snzi.Pc → Pc)
    (finish : Snzi.Ret → Option Pc) : Option (Shared × Pc) :=
  match pc with
  | .done ret => (finish ret).map fun pc' => (sh, pc')
  | pc => (Snzi.advance t sh.mem pc).map fun r => ({ sh with mem := r.1 }, wrap r.2)

def advance (t : TreeSize) (sh : Shared) (weak : Bool) : Pc → Option (Shared × Pc)
  | .idle => none
  | .reserveLoad leaf => some (sh, reserveDecide leaf sh.gate)
  | .reserveCas leaf state =>
    if weak = false ∧ sh.gate = state then
      some (sh.setGate (state + 1), .entering leaf (Snzi.arriveStart t leaf))
    else some (sh, reserveDecide leaf sh.gate)
  | .reservePoison =>
    some (sh.setGate (sh.gate ||| poisonedBit), .done (.enterFailed .reservationExhausted))
  | .entering leaf pc => nested t sh pc (.entering leaf) arrived
  | .enterPoison error =>
    some (sh.setGate (sh.gate ||| poisonedBit), .releaseLoad (.enterFailed (.snzi error)))
  | .departLoad token raw => some (sh, reserveDepartureDecide token raw sh.gate)
  | .departCas token raw state =>
    if weak = false ∧ sh.gate = state then
      some (sh.setGate (state + 1), .departing
        (if raw then Snzi.departRawStart t token.intoRaw else Snzi.departToken t token))
    else some (sh, reserveDepartureDecide token raw sh.gate)
  | .departPoison _ =>
    some (sh.setGate (sh.gate ||| poisonedBit), .done (.departFailed .reservationExhausted))
  | .departing pc => nested t sh pc .departing departed
  | .releaseLoad ret => some (sh, releaseDecide ret sh.gate)
  | .releaseCas ret state =>
    if weak = false ∧ sh.gate = state then some (sh.setGate (state - 1), .done ret)
    else some (sh, releaseDecide ret sh.gate)
  | .releasePoison ret => some (sh.setGate (sh.gate ||| poisonedBit), .done ret)
  | .closeOr =>
    some (sh.setGate (sh.gate ||| closedBit), .done (.closed (sh.gate &&& closedBit == 0)))
  | .drainLoad => some (sh, drainDecide sh.gate)
  | .drainQuery gate pc => nested t sh pc (.drainQuery gate) (queried gate)
  | .drainCas gate =>
    if weak = false ∧ sh.gate = gate then
      some (sh.setGate (gate ||| checkingBit), .drainScan (gate ||| checkingBit) Snzi.scanStart)
    else some (sh, drainDecide sh.gate)
  | .drainScan checking pc => nested t sh pc (.drainScan checking) (scanned checking)
  | .drainSeal checking quiescent =>
    if sh.gate = checking then
      some (sh.setGate (sealWord checking quiescent), .done (.drained quiescent))
    else some (sh, .drainRestore)
  | .drainRestore => some (sh.setGate (sh.gate &&& ~~~ checkingBit), .done (.drained false))
  | .done _ => none

def returned (sh : Shared) : Ret → Shared
  | .entered token => { sh with tokens := token :: sh.tokens }
  | _ => sh

def start (sh : Shared) : Op → Option (Shared × Pc)
  | .tryEnter leaf => some (sh, .reserveLoad leaf)
  | .depart token =>
    if token ∈ sh.tokens then
      some ({ sh with tokens := sh.tokens.erase token }, .departLoad token false)
    else none
  | .departRaw token =>
    if token ∈ sh.tokens then
      some ({ sh with tokens := sh.tokens.erase token }, .departLoad token true)
    else none
  | .close => some (sh, .closeOr)
  | .isDrained => some (sh, .drainLoad)

def act (t : TreeSize) (sh : Shared) (weak : Bool) : Pc → Option (Shared × Pc)
  | .done ret => some (returned sh ret, .idle)
  | pc => advance t sh weak pc

def step (t : TreeSize) (sh : Shared) (pc : Pc) : In → Option (Shared × Pc)
  | .call op => if pc = .idle then start sh op else none
  | .go => act t sh false pc
  | .spurious => act t sh true pc

def machine (t : TreeSize) (P : Type) : Machine P Shared Pc In where
  start := ⟨0, Snzi.Memory.new, []⟩
  idle := .idle
  step := fun _ sh pc i => step t sh pc i

end DevHermit.Shmem.Admission
