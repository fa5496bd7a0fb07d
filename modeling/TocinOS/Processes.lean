import Mathlib

/-! The process table of `kernel/process.c`. A process is named by its slot, and has the
fields that `process_wait` reads and changes. -/

namespace TocinOS.Processes

open Function (update)

abbrev maxProcesses : Nat := 256

def wnohang : BitVec 32 := 1

inductive ProcessState where
  | created
  | ready
  | running
  | sleeping
  | stopped
  | zombie
  | dead
deriving DecidableEq

structure Process where
  pid : BitVec 32 := 0
  ppid : BitVec 32 := 0
  state : ProcessState := .created
  exitCode : BitVec 32 := 0
  children : Option Nat := none
  sibling : Option Nat := none

structure State where
  procs : Nat → Process := fun _ => {}
  inUse : Nat → Bool := fun _ => false
  current : Option Nat := none

namespace State

def modify (s : State) (i : Nat) (f : Process → Process) : State :=
  { s with procs := update s.procs i (f (s.procs i)) }

def freeProcess (s : State) (i : Nat) : State := { s with inUse := update s.inUse i false }

def processGetByPid (s : State) (pid : BitVec 32) : Option Nat :=
  (List.range maxProcesses).find? fun i => s.inUse i && (s.procs i).pid == pid

def walk (next : Nat → Option Nat) : Nat → Option Nat → List Nat
  | 0, _ => []
  | _ + 1, none => []
  | n + 1, some x => x :: walk next n (next x)

/-- The walk over a child list. There are no more nodes to visit than slots, unless it runs in a
circle. -/
def childList (s : State) (p : Nat) : List Nat :=
  walk (fun i => (s.procs i).sibling) maxProcesses (s.procs p).children

/-- `process_wait` takes a zombie out of the list of its parent. -/
def unlink (s : State) (p c : Nat) : State :=
  if (s.procs p).children = some c then
    s.modify p fun parent => { parent with children := (s.procs c).sibling }
  else
    match (s.childList p).find? fun prev => (s.procs prev).sibling = some c with
    | none => s
    | some prev => s.modify prev fun proc => { proc with sibling := (s.procs c).sibling }

end State

inductive WaitResult where
  | returned (r : BitVec 32) (status : Option (BitVec 32))
  | suspended

namespace State

/-- One pass of `process_wait`. After `task_yield` the call starts again, with `WNOHANG`. -/
def processWait (s : State) (pid options : BitVec 32) : WaitResult × State :=
  match s.current with
  | none => (.returned (-1) none, s)
  | some p =>
    let child :=
      if 0 < pid.toInt then
        (s.processGetByPid pid).filter fun c => (s.procs c).ppid == (s.procs p).pid
      else if pid = -1 then (s.procs p).children
      else none
    match child with
    | none => (.returned (-1) none, s)
    | some _ =>
      match (s.childList p).find? fun c =>
          (pid == -1 || (s.procs c).pid == pid) && (s.procs c).state == .zombie with
      | some c =>
        (.returned (s.procs c).pid (some (s.procs c).exitCode), (s.unlink p c).freeProcess c)
      | none =>
        if options &&& wnohang ≠ 0 then (.returned 0 none, s)
        else (.suspended, s.modify p fun proc => { proc with state := .sleeping })

end State

end TocinOS.Processes
