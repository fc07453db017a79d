import Xv6Kernel.Foundation.Transition
import Mathlib.Data.List.FinRange

/-!
# Processes, processors and the scheduler

The model of `sleep`, `wakeup`, `sched`, `yield`, `scheduler`, and of the parts of `exit`, `kill`,
`fork` and `wait` in `kernel/proc.c` that change the state of a process.  Every function is the list
of its atomic steps (`Op`): each `acquire` and each `release` of a spinlock is a step, and so is
each access to a process under its lock.  A kernel thread (a process, or the scheduler of a
processor) is the list of the steps that it still has to make.

A processor runs the thread of the process in `cur`, or its scheduler.  Spinlocks are held by
processors, as in `kernel/spinlock.c`: `swtch` hands the lock of the process over from its thread to
the scheduler and back.  While a processor holds no lock, an interrupt handler with a `wakeup` may
be pushed in front of what it runs, and a timer interrupt may push a `yield`.

A step that would panic is not enabled.
-/

namespace Xv6

open Function

inductive ProcState where
  | UNUSED
  | USED
  | SLEEPING
  | RUNNABLE
  | RUNNING
  | ZOMBIE
  deriving DecidableEq

/-- The spinlocks: those of the processes, and others. -/
inductive Lk (n : ℕ) where
  | proc (p : Fin n)
  | other (k : ℕ)
  deriving DecidableEq

/-- The atomic steps of the kernel threads, with a table of `n` processes. -/
inductive Op (n : ℕ) where
  | acquire (k : Lk n)
  | release (k : Lk n)
  | sleepRelease (chan : ℕ) (k : Lk n)
  | setSleeping (chan : ℕ)
  | setRunnable
  | setZombie
  | sched
  | tidy
  | test (p : Fin n) (chan : ℕ)
  | wakeupEnd (chan : ℕ)
  /-- The test of the process `p` in `scheduler`, with the switch to it. -/
  | dispatch (p : Fin n)
  | kill (p : Fin n)
  /-- The test of the entry `p` of the process table in `allocproc`; unless `ok`, the memory for the
  process does not suffice, and `freeproc` sets the entry back, still under its lock. -/
  | alloc (p : Fin n) (ok : Bool)
  | ready (p : Fin n)
  /-- The test of the process `p` in `wait`, with `freeproc`. -/
  | reap (p : Fin n)
  | zombieExit
  deriving DecidableEq

variable {n : ℕ} {C : Type}

/-- The process table, the locks, and what the processes and processors have still to do. -/
structure SchedSys (n : ℕ) (C : Type) where
  state : Fin n → ProcState
  chan : Fin n → ℕ
  lock : Lk n → Option C
  code : Fin n → List (Op n)
  cur : C → Option (Fin n)
  /-- What the scheduler of a processor has still to do in its iteration. -/
  scode : C → List (Op n)
  scan : C → List (Fin n)
  noff : C → ℕ

/-! ## The functions of the kernel as lists of steps -/

def sleepCode (p : Fin n) (chan : ℕ) (lk : Lk n) : List (Op n) :=
  [.acquire (.proc p), .sleepRelease chan lk, .setSleeping chan, .sched, .tidy,
    .release (.proc p), .acquire lk]

def wakeupOne (self : Option (Fin n)) (chan : ℕ) (p : Fin n) : List (Op n) :=
  if some p = self then [] else [.acquire (.proc p), .test p chan, .release (.proc p)]

def wakeupCode (self : Option (Fin n)) (chan : ℕ) : List (Op n) :=
  (List.finRange n).flatMap (wakeupOne self chan) ++ [.wakeupEnd chan]

def yieldCode (p : Fin n) : List (Op n) :=
  [.acquire (.proc p), .setRunnable, .sched, .release (.proc p)]

/-- An interrupt handler that calls `wakeup(chan)` under the lock `k` of its device. -/
def intrCode (self : Option (Fin n)) (k chan : ℕ) : List (Op n) :=
  .acquire (.other k) :: (wakeupCode self chan ++ [.release (.other k)])

abbrev waitLock : ℕ := 0

/-- The end of `exit`, entered with the lock `k` held, which is `wait_lock`. -/
def exitCode (p : Fin n) (k : ℕ) : List (Op n) :=
  [.acquire (.proc p), .setZombie, .release (.other k), .sched, .zombieExit]

def killCode (p : Fin n) : List (Op n) :=
  [.acquire (.proc p), .kill p, .release (.proc p)]

def forkCode (p : Fin n) (ok : Bool) : List (Op n) := [.acquire (.proc p), .alloc p ok]

def forkRest (p : Fin n) : List (Op n) :=
  [.release (.proc p), .acquire (.other waitLock), .release (.other waitLock),
    .acquire (.proc p), .ready p, .release (.proc p)]

def waitCode (p : Fin n) : List (Op n) :=
  [.acquire (.proc p), .reap p, .release (.proc p)]

def schedCode (p : Fin n) : List (Op n) :=
  [.acquire (.proc p), .dispatch p, .release (.proc p)]

/-- The start of a new process in `forkret`, with its lock held from the scheduler. -/
def forkretCode (p : Fin n) : List (Op n) := [.release (.proc p)]

/-- What a process may call in the kernel. -/
inductive KernelCall (n : ℕ) where
  | acquire (k : ℕ)
  | release (k : ℕ)
  | sleep (chan k : ℕ)
  | wakeup (chan : ℕ)
  | yield
  /-- `exit`, from the point on at which `wait_lock` is held. -/
  | exit (k : ℕ)
  | kill (p : Fin n)
  /-- `fork`, which fails unless `ok`: `allocproc` or `uvmcopy` finds no memory. -/
  | fork (p : Fin n) (ok : Bool)
  | wait (p : Fin n)
  deriving DecidableEq

def KernelCall.code (p : Fin n) : KernelCall n → List (Op n)
  | .acquire k => [.acquire (.other k)]
  | .release k => [.release (.other k)]
  | .sleep chan k => sleepCode p chan (.other k)
  | .wakeup chan => wakeupCode (some p) chan
  | .yield => yieldCode p
  | .exit k => exitCode p k
  | .kill q => killCode q
  | .fork q ok => forkCode q ok
  | .wait q => waitCode q

/-! ## Steps -/

section Steps

variable [DecidableEq C]

namespace SchedSys

def lockBy (s : SchedSys n C) (c : C) (k : Lk n) : SchedSys n C :=
  { s with lock := update s.lock k (some c),
           noff := update s.noff c (s.noff c + 1) }

def unlockBy (s : SchedSys n C) (c : C) (k : Lk n) : SchedSys n C :=
  { s with lock := update s.lock k none,
           noff := update s.noff c (s.noff c - 1) }

def setState (s : SchedSys n C) (p : Fin n) (x : ProcState) : SchedSys n C :=
  { s with state := update s.state p x }

def setChan (s : SchedSys n C) (p : Fin n) (chan : ℕ) : SchedSys n C :=
  { s with chan := update s.chan p chan }

def threadCode (s : SchedSys n C) (c : C) (self : Option (Fin n)) : List (Op n) :=
  match self with
  | some p => s.code p
  | none => s.scode c

def setCode (s : SchedSys n C) (c : C) (self : Option (Fin n)) (l : List (Op n)) :
    SchedSys n C :=
  { s with
    code := match self with
      | some p => update s.code p l
      | none => s.code
    scode := match self with
      | some _ => s.scode
      | none => update s.scode c l }

end SchedSys

/-- The effect of a step on the processor `c` in the thread of `self`: the new state, and the steps
that the thread has to make before it continues.  There is no result if the step has to wait or
panics. -/
def Op.run (c : C) (self : Option (Fin n)) (s : SchedSys n C) :
    Op n → Option (SchedSys n C × List (Op n))
  | .acquire k => if s.lock k = none then some (s.lockBy c k, []) else none
  | .release k | .sleepRelease _ k => if s.lock k = some c then some (s.unlockBy c k, []) else none
  | .setSleeping chan => self.map fun p => ((s.setChan p chan).setState p .SLEEPING, [])
  | .setRunnable => self.map fun p => (s.setState p .RUNNABLE, [])
  | .setZombie => self.map fun p => (s.setState p .ZOMBIE, [])
  | .sched => self.bind fun p =>
    if s.lock (.proc p) = some c ∧ s.noff c = 1 ∧ s.state p ≠ .RUNNING then
      some ({ s with cur := update s.cur c none }, [])
    else none
  | .tidy => self.map fun p => (s.setChan p 0, [])
  | .test p chan =>
    some (if s.state p = .SLEEPING ∧ s.chan p = chan then s.setState p .RUNNABLE else s, [])
  | .wakeupEnd _ => some (s, [])
  | .dispatch p =>
    some (if s.state p = .RUNNABLE then
      { s.setState p .RUNNING with cur := update s.cur c (some p) } else s, [])
  | .kill p => some (if s.state p = .SLEEPING then s.setState p .RUNNABLE else s, [])
  | .alloc p ok =>
    if s.state p = .UNUSED ∧ ok = true then
      some ({ s.setState p .USED with code := update s.code p (forkretCode p) },
        forkRest p)
    else some (s, [.release (.proc p)])
  | .ready p => some (s.setState p .RUNNABLE, [])
  | .reap p => some (if s.state p = .ZOMBIE then (s.setChan p 0).setState p .UNUSED else s, [])
  | .zombieExit => none

inductive SchedEvent (n : ℕ) where
  | exec (self : Option (Fin n)) (op : Op n)
  | call (p : Fin n) (x : KernelCall n)
  | loop
  | intr
  deriving DecidableEq

/-- What may happen next. -/
inductive SchedChoice (n : ℕ) (C : Type) where
  /-- The processor `c` makes the next step of what it runs. -/
  | exec (c : C)
  | call (c : C) (x : KernelCall n)
  | loop (c : C)
  /-- A device interrupts the processor `c`; the handler takes the lock `k` and wakes `chan`. -/
  | intr (c : C) (k chan : ℕ)
  /-- The timer interrupts the processor `c` while it runs a process. -/
  | timer (c : C)

def KernelCall.ready (s : SchedSys n C) (c : C) : KernelCall n → Bool
  | .sleep _ k | .exit k => decide (s.lock (.other k) = some c)
  | _ => true

def SchedSys.next (s : SchedSys n C) : SchedChoice n C → Option (SchedEvent n × SchedSys n C)
  | .exec c =>
    match s.threadCode c (s.cur c) with
    | [] => none
    | op :: rest => (op.run c (s.cur c) s).map fun x =>
      (.exec (s.cur c) op, x.1.setCode c (s.cur c) (x.2 ++ rest))
  | .call c x =>
    match s.cur c with
    | some p =>
      if s.code p = [] ∧ x.ready s c = true then
        some (.call p x, s.setCode c (some p) (x.code p))
      else none
    | none => none
  | .loop c =>
    match s.cur c, s.scode c, s.scan c with
    | none, [], p :: ps =>
      some (.loop, { s.setCode c none (schedCode p) with scan := update s.scan c ps })
    | none, [], [] =>
      some (.loop, { s with scan := update s.scan c (List.finRange n) })
    | _, _, _ => none
  | .intr c k chan =>
    if s.noff c = 0 then
      some (.intr,
        s.setCode c (s.cur c) (intrCode (s.cur c) k chan ++ s.threadCode c (s.cur c)))
    else none
  | .timer c =>
    match s.cur c with
    | some p =>
      if s.noff c = 0 then some (.intr, s.setCode c (some p) (yieldCode p ++ s.code p)) else none
    | none => none

/-- What a step is, with its event and the state after it. -/
inductive SchedSys.Takes (s : SchedSys n C) : SchedEvent n → SchedSys n C → Prop where
  | exec {c : C} {op : Op n} {rest l : List (Op n)} {s' : SchedSys n C}
      (hcode : s.threadCode c (s.cur c) = op :: rest)
      (hrun : op.run c (s.cur c) s = some (s', l)) :
      s.Takes (.exec (s.cur c) op) (s'.setCode c (s.cur c) (l ++ rest))
  | call {c : C} {x : KernelCall n} {p : Fin n} (hc : s.cur c = some p)
      (hready : s.code p = [] ∧ x.ready s c = true) :
      s.Takes (.call p x) (s.setCode c (some p) (x.code p))
  | scan {c : C} {p : Fin n} {ps : List (Fin n)} (hc : s.cur c = none) (hcode : s.scode c = []) :
      s.Takes .loop { s.setCode c none (schedCode p) with scan := update s.scan c ps }
  | rescan {c : C} : s.Takes .loop { s with scan := update s.scan c (List.finRange n) }
  | intr {c : C} {k chan : ℕ} (hnoff : s.noff c = 0) : s.Takes .intr
      (s.setCode c (s.cur c) (intrCode (s.cur c) k chan ++ s.threadCode c (s.cur c)))
  | timer {c : C} {p : Fin n} (hc : s.cur c = some p) (hnoff : s.noff c = 0) :
      s.Takes .intr (s.setCode c (some p) (yieldCode p ++ s.code p))

lemma SchedSys.takes {s t : SchedSys n C} {x : SchedChoice n C} {e : SchedEvent n}
    (hs : s.next x = some (e, t)) : s.Takes e t := by
  cases x with
  | exec c =>
    simp only [SchedSys.next] at hs
    split at hs
    · cases hs
    rename_i hcode
    obtain ⟨_, hrun, heq⟩ := Option.map_eq_some_iff.mp hs
    cases heq
    exact .exec hcode hrun
  | call c x =>
    simp only [SchedSys.next] at hs
    split at hs
    · split at hs <;> cases hs
      exact .call ‹_› ‹_›
    · cases hs
  | loop c =>
    simp only [SchedSys.next] at hs
    split at hs <;> cases hs
    · exact .scan ‹_› ‹_›
    · exact .rescan
  | intr c k chan =>
    simp only [SchedSys.next] at hs
    split at hs <;> cases hs
    exact .intr ‹_›
  | timer c =>
    simp only [SchedSys.next] at hs
    split at hs
    · split at hs <;> cases hs
      exact .timer ‹_› ‹_›
    · cases hs

def SchedStep (n : ℕ) (C : Type) [DecidableEq C] :
    SchedSys n C → SchedEvent n → SchedSys n C → Prop :=
  stepBy SchedSys.next

/-- The state in which the processors enter `scheduler`: the process `p₀` made by `userinit` is
runnable, all other entries of the table are unused. -/
def SchedSys.boot (p₀ : Fin n) : SchedSys n C where
  state p := if p = p₀ then .RUNNABLE else .UNUSED
  chan _ := 0
  lock _ := none
  code p := if p = p₀ then forkretCode p₀ else []
  cur _ := none
  scode _ := []
  scan _ := []
  noff _ := 0

end Steps

end Xv6
