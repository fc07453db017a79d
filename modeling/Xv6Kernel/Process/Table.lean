import Xv6Kernel.Foundation.Ownership
import Xv6Kernel.Process.Sched

/-!
# The process table

The functions of `kernel/proc.c` that make, end, collect and kill processes: `allocproc`,
`freeproc`, `fork`, `reparent`, `exit`, `wait`, `kill`, `setkilled`, `killed`, with the `sleep` and
`wakeup` they use, as programs of atomic actions.  Each `acquire` and each `release` of `wait_lock`
and of the lock of a process is an action of its own.  The fields of a process that its own lock
protects are in `ProcSlot`; `p->parent` is protected by `wait_lock`.

What `exit` and `fork` do to files, directories and user memory is left out; `fork` fails for want
of memory whenever the environment says so.
-/

namespace Xv6

open Function

/-- The fields of `struct proc` that `p->lock` protects. -/
structure ProcSlot (N : ℕ) where
  state : ProcState
  chan : Option (Fin N)
  killed : Bool
  xstate : ℤ
  pid : ℤ

/-- The process table with its locks. -/
structure ProcTable (N : ℕ) where
  slot : Fin N → ProcSlot N
  parent : Fin N → Option (Fin N)
  plock : Fin N → Bool
  waitLock : Option (Fin N)
  nextpid : ℤ

def i32 (n : ℤ) : ℤ := n.bmod (2 ^ 32)

/-- The actions on the process table. -/
inductive TableAct (N : ℕ) where
  | lock (i : Fin N)
  | unlock (i : Fin N)
  | waitAcquire
  | waitRelease
  | look
  /-- The part of `allocproc` that takes the free process `i`. -/
  | alloc (i : Fin N)
  /-- `freeproc` of a process that `fork` could not complete. -/
  | free (i : Fin N)
  | adopt (i : Fin N)
  | ready (i : Fin N)
  | reparent (i : Fin N)
  | wake (i : Fin N)
  | zombie (status : ℤ)
  | sleep
  | resume
  /-- `freeproc(pp)` in a `wait` that returns `pid` and has stored the status `xstate`. -/
  | reap (i : Fin N) (pid xstate : ℤ)
  /-- The release of `wait_lock` in a `wait` that could not store the status of `pp`. -/
  | waitFault (i : Fin N)
  | killBegin (pid : ℤ)
  /-- The assignments of `kill(pid)` to the process it has found; `kill` returns 0. -/
  | kill (pid : ℤ) (i : Fin N)
  /-- `release(&p->lock)` in `kill(pid)` for a process with another pid. -/
  | killPass (pid : ℤ) (i : Fin N)
  | killFail (pid : ℤ)
  | setkilled (i : Fin N)
  | initExit
  | halt

abbrev TableProg (N : ℕ) (α : Type) : Type 1 := Prog (ProcTable N) (TableAct N) α

section Programs

variable {N : ℕ}

def lockProc (i : Fin N) : TableProg N (ProcSlot N) :=
  .atomic (.lock i) fun s =>
    if s.plock i then .blocked
    else .done (s.slot i) { s with plock := update s.plock i true }

/-- `release(&p->lock)`. -/
def unlockProc (l : TableAct N) (i : Fin N) : TableProg N Unit :=
  .atomic l fun s => .done () { s with plock := update s.plock i false }

def setProc (l : TableAct N) (i : Fin N) (f : ProcSlot N → ProcSlot N) : TableProg N Unit :=
  .atomic l fun s => .done () { s with slot := update s.slot i (f (s.slot i)) }

def acquireWait (p : Fin N) : TableProg N Unit :=
  .atomic .waitAcquire fun s =>
    if s.waitLock = none then .done () { s with waitLock := some p } else .blocked

def releaseWait (l : TableAct N) : TableProg N Unit :=
  .atomic l fun s => .done () { s with waitLock := none }

/-- Read `p->parent`. -/
def lookParent (i : Fin N) : TableProg N (Option (Fin N)) :=
  .atomic .look fun s => .done (s.parent i) s

/-- Set `p->parent`. -/
def setParent (l : TableAct N) (i q : Fin N) : TableProg N Unit :=
  .atomic l fun s => .done () { s with parent := update s.parent i (some q) }

def ProcSlot.free : ProcSlot N := ⟨.UNUSED, none, false, 0, 0⟩

def freeproc (l : TableAct N) (i : Fin N) : TableProg N Unit :=
  .atomic l fun s => .done () { s with slot := update s.slot i .free,
                                       parent := update s.parent i none }

def takeProc (i : Fin N) : TableProg N Unit :=
  .atomic (.alloc i) fun s => .done () { s with
    slot := update s.slot i { s.slot i with pid := s.nextpid, state := .USED }
    nextpid := i32 (s.nextpid + 1) }

def allocprocFrom : List (Fin N) → TableProg N (Option (Fin N))
  | [] => pure none
  | i :: l => do
    let r ← lockProc i
    if r.state = .UNUSED then
      takeProc i
      pure (some i)
    else
      unlockProc (.unlock i) i
      allocprocFrom l

/-- `fork` by the process `p`. -/
def fork (p : Fin N) : TableProg N Unit := do
  match ← allocprocFrom (List.finRange N) with
  | none => pure ()
  | some i =>
    let ok ← Prog.pickBool
    if ok then
      unlockProc (.unlock i) i
      acquireWait p
      setParent (.adopt i) i p
      releaseWait .waitRelease
      let _ ← lockProc i
      setProc (.ready i) i fun r => { r with state := .RUNNABLE }
      unlockProc (.unlock i) i
    else
      freeproc (.free i) i
      unlockProc (.unlock i) i

def wakeupProcs (p : Fin N) (ch : Option (Fin N)) : List (Fin N) → TableProg N Unit
  | [] => pure ()
  | q :: l => do
    if q ≠ p then
      let r ← lockProc q
      if r.state = .SLEEPING ∧ r.chan = ch then
        setProc (.wake q) q fun r => { r with state := .RUNNABLE }
      unlockProc (.unlock q) q
    wakeupProcs p ch l

def reparentFrom (initproc p : Fin N) : List (Fin N) → TableProg N Unit
  | [] => pure ()
  | pp :: l => do
    let parent ← lookParent pp
    if parent = some p then
      setParent (.reparent pp) pp initproc
      wakeupProcs p (some initproc) (List.finRange N)
    reparentFrom initproc p l

def exit (initproc p : Fin N) (status : ℤ) : TableProg N Unit := do
  .atomic .initExit fun s => if p = initproc then .panic "init exiting" else .done () s
  acquireWait p
  reparentFrom initproc p (List.finRange N)
  let parent ← lookParent p
  wakeupProcs p parent (List.finRange N)
  let _ ← lockProc p
  setProc (.zombie status) p fun r => { r with xstate := status, state := .ZOMBIE }
  releaseWait .waitRelease
  unlockProc (.unlock p) p

def killedProc (p : Fin N) : TableProg N Bool := do
  let r ← lockProc p
  unlockProc (.unlock p) p
  pure r.killed

def sleepWait (p : Fin N) : TableProg N Unit := do
  let _ ← lockProc p
  releaseWait .waitRelease
  setProc .sleep p fun r => { r with chan := some p, state := .SLEEPING }
  unlockProc (.unlock p) p
  .atomic .resume fun s =>
    if (s.slot p).state = .RUNNABLE ∧ s.plock p = false then
      .done () { s with
        slot := update s.slot p { s.slot p with state := .RUNNING, chan := none } }
    else .blocked
  acquireWait p

/-- The scan of `wait` over a part of the table: `none` when the call is over, otherwise whether the
process has children.  With `fault` the status of the child cannot be stored. -/
def waitScan (p : Fin N) (fault : Bool) : Bool → List (Fin N) → TableProg N (Option Bool)
  | havekids, [] => pure (some havekids)
  | havekids, pp :: l => do
    let parent ← lookParent pp
    if parent = some p then
      let r ← lockProc pp
      if r.state = .ZOMBIE then
        if fault then
          unlockProc (.unlock pp) pp
          releaseWait (.waitFault pp)
          pure none
        else
          freeproc (.reap pp r.pid r.xstate) pp
          unlockProc (.unlock pp) pp
          releaseWait .waitRelease
          pure none
      else
        unlockProc (.unlock pp) pp
        waitScan p fault true l
    else waitScan p fault havekids l

def waitFrom (p : Fin N) (fault : Bool) : ℕ → TableProg N Unit
  | 0 => .atomic .halt fun _ => .blocked
  | rounds + 1 => do
    match ← waitScan p fault false (List.finRange N) with
    | none => pure ()
    | some havekids =>
      let stop ← if havekids then killedProc p else pure true
      if stop then releaseWait .waitRelease
      else
        sleepWait p
        waitFrom p fault rounds

def wait (p : Fin N) (fault : Bool) (rounds : ℕ) : TableProg N Unit := do
  acquireWait p
  waitFrom p fault rounds

def killFrom (pid : ℤ) : List (Fin N) → TableProg N Unit
  | [] => .atomic (.killFail pid) fun s => .done () s
  | i :: l => do
    let r ← lockProc i
    if r.pid = pid then
      setProc (.kill pid i) i fun r =>
        { r with killed := true, state := if r.state = .SLEEPING then .RUNNABLE else r.state }
      unlockProc (.unlock i) i
    else
      unlockProc (.killPass pid i) i
      killFrom pid l

def kill (pid : ℤ) : TableProg N Unit := do
  .atomic (.killBegin pid) fun s => .done () s
  killFrom pid (List.finRange N)

def setkilled (p : Fin N) : TableProg N Unit := do
  let _ ← lockProc p
  setProc (.setkilled p) p fun r => { r with killed := true }
  unlockProc (.unlock p) p

end Programs

inductive TableCall where
  | fork
  | exit (status : ℤ)
  | wait (fault : Bool) (rounds : ℕ)
  | kill (pid : ℤ)
  | setkilled

def ProcState.Alive (x : ProcState) : Prop := x = .SLEEPING ∨ x = .RUNNABLE ∨ x = .RUNNING

instance (x : ProcState) : Decidable x.Alive := inferInstanceAs (Decidable (_ ∨ _))

def tableMachine {N : ℕ} (initproc : Fin N) : Machine (ProcTable N) (TableAct N) (Fin N) where
  Call := TableCall
  body p
    | .fork => fork p
    | .exit status => exit initproc p status
    | .wait fault rounds => wait p fault rounds
    | .kill pid => kill pid
    | .setkilled => setkilled p
  ready s p _ := (s.slot p).state.Alive

def ProcTable.init {N : ℕ} (initproc : Fin N) : ProcTable N where
  slot := update (fun _ => .free) initproc ⟨.RUNNABLE, none, false, 0, 1⟩
  parent _ := none
  plock _ := false
  waitLock := none
  nextpid := 2

end Xv6
