import DevHermit.Lib.Machine

namespace DevHermit.Shmem.Futex

open Lib

abbrev Errno := Nat

def etimedout : Errno := 110

def unlocked : UInt32 := 0
def locked : UInt32 := 1
def contended : UInt32 := 2
def futexSpinLimit : Nat := 64

def futexTryAcquire (word : UInt32) : Bool × UInt32 :=
  if word = unlocked then (true, locked) else (false, word)

def futexMarkContended (word : UInt32) : Bool × UInt32 := (word == unlocked, contended)

def futexRelease (word : UInt32) : Bool × UInt32 := (word == contended, unlocked)

inductive Op where
  | lock
  | lockFallible
  | tryLock
  | tryLockFor (zero : Bool)
  deriving DecidableEq, Repr

inductive Syscall where
  | woken | eagain | eintr | etimedout
  | error (errno : Errno)
  deriving DecidableEq, Repr

inductive Waited where
  | retry
  | ready (timedOut : Bool)
  | failed (errno : Errno)
  deriving DecidableEq, Repr

def futexWait : Syscall → Waited
  | .woken | .eagain => .ready false
  | .eintr => .retry
  | .etimedout => .failed etimedout
  | .error e => .failed e

def futexWaitUntil : Syscall → Waited
  | .woken | .eagain => .ready false
  | .eintr => .retry
  | .etimedout => .ready true
  | .error e => .failed e

inductive Outcome where
  | none
  | error (errno : Errno)
  deriving DecidableEq, Repr

inductive Pc where
  | idle
  | acquire (op : Op)
  | deadline (op : Op)
  | spin (op : Op) (left : Nat)
  | mark (op : Op) (waited : Option Bool) (slept : Bool)
  | wait (op : Op)
  | asleep (op : Op)
  | spinMark
  | spinLoad
  | release
  | wake
  | done (op : Op) (outcome : Outcome)
  deriving DecidableEq, Repr

structure Local where
  pc : Pc
  guards : Nat
  deriving DecidableEq, Repr

structure Shared (P : Type) where
  word : UInt32
  queue : List P

inductive In (P : Type) where
  | call (op : Op)
  | drop
  | go
  | clock (result : Option Errno)
  | enqueue
  | result (r : Syscall)
  | wake (q : P)
  | wakeNobody

def nextSpin (op : Op) : Nat → Pc
  | 0 => .mark op none false
  | k + 1 => .spin op k

def lockMissed : Op → Pc
  | .lock => nextSpin .lock futexSpinLimit
  | .lockFallible => nextSpin .lockFallible futexSpinLimit
  | .tryLock => .done .tryLock .none
  | .tryLockFor zero => if zero then .done (.tryLockFor zero) .none else .deadline (.tryLockFor zero)

def waitFailed : Op → Errno → Pc
  | .lock, _ => .spinMark
  | op, e => .done op (.error e)

def waitedBy (r : Syscall) : Op → Waited
  | .tryLockFor _ => futexWaitUntil r
  | _ => futexWait r

def resume (op : Op) (slept : Bool) : Waited → Pc
  | .retry => .wait op
  | .ready timedOut => .mark op (some timedOut) slept
  | .failed e => waitFailed op e

def afterWait (op : Op) (r : Syscall) (slept : Bool) : Pc := resume op slept (waitedBy r op)

def markMissed (op : Op) : Option Bool → Pc
  | some true => .done op .none
  | _ => .wait op

def Local.goto (l : Local) (pc : Pc) : Local := { l with pc := pc }

def Local.acquired (l : Local) : Local := ⟨.idle, l.guards + 1⟩

variable {P : Type} [DecidableEq P]

def attempt (sh : Shared P) (l : Local) (r : Bool × UInt32) (missed : Pc) : Shared P × Local :=
  ({ sh with word := r.2 }, if r.1 then l.acquired else l.goto missed)

def step (p : P) (sh : Shared P) (l : Local) : In P → Option (Shared P × Local)
  | .call op => match l.pc with
      | .idle => some (sh, l.goto (.acquire op))
      | _ => none
  | .drop => match l.pc with
      | .idle => if l.guards = 0 then none else some (sh, l.goto .release)
      | _ => none
  | .clock r => match l.pc, r with
      | .deadline op, none => some (sh, l.goto (nextSpin op futexSpinLimit))
      | .deadline op, some e => some (sh, l.goto (.done op (.error e)))
      | _, _ => none
  | .enqueue => match l.pc with
      | .wait op =>
        if sh.word = contended then
          some ({ sh with queue := sh.queue ++ [p] }, l.goto (.asleep op))
        else none
      | _ => none
  | .result r => match l.pc with
      | .wait op => some (sh, l.goto (afterWait op r false))
      | .asleep op =>
        if p ∈ sh.queue then
          some ({ sh with queue := sh.queue.erase p }, l.goto (afterWait op r true))
        else if r = .woken then some (sh, l.goto (afterWait op r true)) else none
      | _ => none
  | .wake q => match l.pc with
      | .wake =>
        if q ∈ sh.queue then some ({ sh with queue := sh.queue.erase q }, l.goto .idle)
        else none
      | _ => none
  | .wakeNobody => match l.pc with
      | .wake => if sh.queue = [] then some (sh, l.goto .idle) else none
      | _ => none
  | .go => match l.pc with
      | .acquire op => some (attempt sh l (futexTryAcquire sh.word) (lockMissed op))
      | .spin op k => some (attempt sh l (futexTryAcquire sh.word) (nextSpin op k))
      | .mark op waited _ => some (attempt sh l (futexMarkContended sh.word) (markMissed op waited))
      | .spinMark => some (attempt sh l (futexMarkContended sh.word) .spinLoad)
      | .spinLoad => some (sh, if sh.word = unlocked then l.goto .spinMark else l)
      | .release =>
        let r := futexRelease sh.word
        some ({ sh with word := r.2 }, ⟨if r.1 then .wake else .idle, l.guards - 1⟩)
      | .done _ _ => some (sh, l.goto .idle)
      | _ => none

def machine (P : Type) [DecidableEq P] : Machine P (Shared P) Local (In P) where
  start := ⟨unlocked, []⟩
  idle := ⟨.idle, 0⟩
  step := step

end DevHermit.Shmem.Futex
