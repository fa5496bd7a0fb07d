import Mathlib

/-! The mutex of `user/libc/pthread.c`: any number of threads, each at some place in the code of
`pthread_mutex_lock`, `pthread_mutex_trylock` and `pthread_mutex_unlock` or outside of it. A step
is one access to the memory of the mutex or one futex call. -/

namespace TocinOS.Pthread

abbrev EBUSY : Nat := 16

abbrev EINVAL : Nat := 22

/-- What a wake of at most `n` sleeping threads may do. Which ones it picks is left open. -/
structure Wakes {ι : Type*} (asleep : ι → Prop) (n : Nat) (woken : Finset ι) : Prop where
  sleeping : ∀ u ∈ woken, asleep u
  bound : woken.card ≤ n
  enough : woken.card = n ∨ ∀ u, asleep u → u ∈ woken

theorem Wakes.nonempty {ι : Type*} {asleep : ι → Prop} {n : Nat} {woken : Finset ι}
    (h : Wakes asleep n woken) (hn : n ≠ 0) {u : ι} (hu : asleep u) : woken.Nonempty := by
  rcases h.enough with hcard | hall
  · exact Finset.card_ne_zero.mp (hcard ▸ hn)
  · exact ⟨u, hall u hu⟩

structure Mutex where
  lock : BitVec 32
  waiters : BitVec 32
  owner : BitVec 32
  deriving DecidableEq

def pthreadMutexInit : Mutex := ⟨0, 0, 0⟩

inductive Call
  | lock
  | trylock
  | unlock
  deriving DecidableEq

inductive Place
  | outside
  -- `pthread_mutex_lock`: the fast path
  | lockFast
  -- the loop: 1 becomes 2, the mutex is taken with 2, or the thread waits
  | lockMark
  | lockTake (expected : BitVec 32)
  | lockAdd (expected : BitVec 32)
  | lockWait (expected : BitVec 32)
  | lockAsleep
  | lockSub
  -- the owner is stored after the mutex is taken
  | own
  | tryFast
  | unlockCheck
  | unlockClear
  | unlockXchg
  | unlockWake
  deriving DecidableEq

/-- `holds` is true from the moment a thread takes the mutex until it gives it back, and `result`
is what the last call returned. -/
structure Thread where
  place : Place := .outside
  holds : Bool := false
  result : Nat := 0
  deriving DecidableEq

def Call.entry : Call → Place
  | .lock => .lockFast
  | .trylock => .tryFast
  | .unlock => .unlockCheck

def Thread.finish (th : Thread) (result : Nat) : Thread := { th with place := .outside, result }

def Thread.goto (th : Thread) (place : Place) : Thread := { th with place }

def Thread.take (th : Thread) (m : Mutex) (word : BitVec 32) : Thread × Mutex :=
  ({ th with place := .own, holds := true }, { m with lock := word })

/-- The next access of a thread. Outside, asleep and at the wake call the thread alone makes none. -/
def Thread.step (self : BitVec 32) (th : Thread) (m : Mutex) : Option (Thread × Mutex) :=
  match th.place with
  | .outside => none
  | .lockFast => some (if m.lock = 0 then th.take m 1 else (th.goto .lockMark, m))
  | .lockMark =>
    some (if m.lock = 1 then (th.goto (.lockTake 2), { m with lock := 2 }) else (th.goto (.lockTake 1), m))
  | .lockTake expected => some (if m.lock = 0 then th.take m 2 else (th.goto (.lockAdd expected), m))
  | .lockAdd expected => some (th.goto (.lockWait expected), { m with waiters := m.waiters + 1 })
  | .lockWait expected => some (th.goto (if m.lock = expected then .lockAsleep else .lockSub), m)
  | .lockAsleep => none
  | .lockSub => some (th.goto .lockMark, { m with waiters := m.waiters - 1 })
  | .own => some (th.finish 0, { m with owner := self })
  | .tryFast => some (if m.lock = 0 then th.take m 1 else (th.finish EBUSY, m))
  | .unlockCheck => some (if m.owner ≠ self then th.finish EINVAL else th.goto .unlockClear, m)
  | .unlockClear => some (th.goto .unlockXchg, { m with owner := 0 })
  | .unlockXchg =>
    let th := { th with holds := false }
    some (if m.lock = 1 then th.finish 0 else th.goto .unlockWake, { m with lock := 0 })
  | .unlockWake => none

variable {ι : Type*} [DecidableEq ι]

structure State (ι : Type*) where
  mutex : Mutex
  thread : ι → Thread

def State.start : State ι := ⟨pthreadMutexInit, fun _ => {}⟩

def State.set (σ : State ι) (t : ι) (th : Thread) (m : Mutex) : State ι :=
  ⟨m, Function.update σ.thread t th⟩

@[simp] theorem State.set_mutex (σ : State ι) (t : ι) (th : Thread) (m : Mutex) :
    (σ.set t th m).mutex = m := rfl

@[simp] theorem State.set_self (σ : State ι) (t : ι) (th : Thread) (m : Mutex) :
    (σ.set t th m).thread t = th := Function.update_self ..

theorem State.set_of_ne (σ : State ι) {t u : ι} (h : u ≠ t) (th : Thread) (m : Mutex) :
    (σ.set t th m).thread u = σ.thread u := Function.update_of_ne h ..

def State.Asleep (σ : State ι) (t : ι) : Prop := (σ.thread t).place = .lockAsleep

def State.wake (σ : State ι) (woken : Finset ι) : State ι :=
  { σ with thread := fun u => if u ∈ woken then (σ.thread u).goto .lockSub else σ.thread u }

/-- What thread `t` does in a call, where `pthreadSelf` gives the values of `pthread_self`. A wait may
also return without a wake. -/
inductive Move (pthreadSelf : ι → BitVec 32) (t : ι) (σ : State ι) : State ι → Prop
  | run {th : Thread} {m : Mutex} : (σ.thread t).step (pthreadSelf t) σ.mutex = some (th, m) →
      Move pthreadSelf t σ (σ.set t th m)
  | wake {woken : Finset ι} : (σ.thread t).place = .unlockWake → Wakes σ.Asleep 1 woken →
      Move pthreadSelf t σ ((σ.wake woken).set t ((σ.thread t).finish 0) σ.mutex)
  | interrupt : σ.Asleep t → Move pthreadSelf t σ (σ.set t ((σ.thread t).goto .lockSub) σ.mutex)

/-- Threads that are outside call any of the functions, also `pthread_mutex_unlock` without
holding the mutex. -/
inductive Step (pthreadSelf : ι → BitVec 32) (t : ι) (σ : State ι) : State ι → Prop
  | call (c : Call) : (σ.thread t).place = .outside →
      Step pthreadSelf t σ (σ.set t ((σ.thread t).goto c.entry) σ.mutex)
  | move {σ' : State ι} : Move pthreadSelf t σ σ' → Step pthreadSelf t σ σ'

def Reachable (pthreadSelf : ι → BitVec 32) : State ι → Prop :=
  Relation.ReflTransGen (fun σ σ' => ∃ t, Step pthreadSelf t σ σ') State.start

end TocinOS.Pthread
