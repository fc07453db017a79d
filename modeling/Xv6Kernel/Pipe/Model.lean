import Xv6Kernel.Foundation.Ownership
import Xv6Kernel.Process.Sched

/-!
# Pipes

The functions of `kernel/pipe.c` that work on one pipe, with the `sleep`, `wakeup`, `kill` and
`killed` they use, as programs of atomic actions.  The process table has `N` entries.  Each section
under the lock of a process is one action, except that `sleep` releases the lock of the pipe and
becomes `SLEEPING` in two, with the lock of the process held in between; the lock of the pipe is
taken and given back by actions of their own.

User memory is a function from offsets to bytes, with no byte where `copyin` fails; `copyout` fails
at the offsets that are not valid.
-/

namespace Xv6

open Function

abbrev PIPESIZE : ℕ := 512

def u32 (n : ℕ) : ℕ := n % 2 ^ 32

/-- `struct pipe` without its lock. -/
structure Pipe where
  data : ℕ → ℕ
  nread : ℕ
  nwrite : ℕ
  readopen : Bool
  writeopen : Bool

inductive PipeChan where
  | nread
  | nwrite
  deriving DecidableEq

/-- A pipe with its lock, and the processes that use it. -/
structure PipeSys (N : ℕ) where
  pipe : Pipe
  lock : Option (Fin N)
  state : Fin N → ProcState
  chan : Fin N → Option PipeChan
  plock : Fin N → Bool
  killed : Fin N → Bool

namespace Pipe

def full (pi : Pipe) : Bool := pi.nwrite == u32 (pi.nread + PIPESIZE)

def empty (pi : Pipe) : Bool := pi.nread == pi.nwrite

def append (pi : Pipe) (ch : ℕ) : Pipe :=
  { pi with data := update pi.data (pi.nwrite % PIPESIZE) ch, nwrite := u32 (pi.nwrite + 1) }

def head (pi : Pipe) : ℕ := pi.data (pi.nread % PIPESIZE)

/-- `pi->nread++`. -/
def remove (pi : Pipe) : Pipe := { pi with nread := u32 (pi.nread + 1) }

/-- The assignment of `pipeclose`. -/
def close (pi : Pipe) (writable : Bool) : Pipe :=
  if writable then { pi with writeopen := false } else { pi with readopen := false }

/-- The pipe made by `pipealloc`; the contents of the page are arbitrary. -/
def new (data : ℕ → ℕ) : Pipe := ⟨data, 0, 0, true, true⟩

end Pipe

/-- The actions on a pipe. -/
inductive PipeAct (N : ℕ) where
  | acquire
  | release
  /-- The process enters the kernel. -/
  | call
  /-- The release of a `pipewrite` that fails after `i` bytes, `w` of them before its last
  `wakeup`. -/
  | writeFail (i w : ℕ)
  /-- The end of a `piperead` of `n` bytes that returns `i`, before it releases the lock. -/
  | readEnd (valid : ℕ → Bool) (n : ℤ) (i : ℕ)
  /-- A `pipewrite` of `n` bytes from the buffer `buf` has returned `r`. -/
  | writeRet (buf : ℕ → Option ℕ) (n r : ℤ)
  | readRet (valid : ℕ → Bool) (n r : ℤ)
  | look
  | append (buf : ℕ → Option ℕ) (ch : ℕ)
  | remove (ch : ℕ)
  | close (writable : Bool)
  | doze (ch : PipeChan)
  | sleep (ch : PipeChan)
  | resume
  | wake (q : Fin N) (ch : PipeChan)
  | killed
  | kill (q : Fin N)
  | halt

abbrev PipeProg (N : ℕ) (α : Type) : Type 1 := Prog (PipeSys N) (PipeAct N) α

section Programs

variable {N : ℕ}

def acquirePipe (l : PipeAct N) (p : Fin N) : PipeProg N Unit :=
  .atomic l fun s => if s.lock = none then .done () { s with lock := some p } else .blocked

def releasePipe (l : PipeAct N) : PipeProg N Unit :=
  .atomic l fun s => .done () { s with lock := none }

/-- A step that only shows in the trace. -/
def notePipe (l : PipeAct N) : PipeProg N Unit := .atomic l fun s => .done () s

def lookPipe {β : Type} (f : Pipe → β) : PipeProg N β :=
  .atomic .look fun s => .done (f s.pipe) s

def editPipe (l : PipeAct N) (f : Pipe → Pipe) : PipeProg N Unit :=
  .atomic l fun s => .done () { s with pipe := f s.pipe }

def sleepPipe (p : Fin N) (ch : PipeChan) : PipeProg N Unit := do
  .atomic (.doze ch) fun s =>
    .done () { s with lock := none, plock := update s.plock p true }
  .atomic (.sleep ch) fun s =>
    .done () { s with state := update s.state p .SLEEPING,
                      chan := update s.chan p (some ch),
                      plock := update s.plock p false }
  .atomic .resume fun s =>
    if s.state p = .RUNNABLE ∧ s.plock p = false then
      .done () { s with state := update s.state p .RUNNING,
                        chan := update s.chan p none }
    else .blocked
  acquirePipe .acquire p

/-- The loop of `wakeup(ch)` by the process `p` over a part of the process table. -/
def wakeupFrom (p : Fin N) (ch : PipeChan) : List (Fin N) → PipeProg N Unit
  | [] => pure ()
  | q :: l => do
    if q ≠ p then
      .atomic (.wake q ch) fun s =>
        if s.plock q then .blocked
        else if s.state q = .SLEEPING ∧ s.chan q = some ch then
          .done () { s with state := update s.state q .RUNNABLE }
        else .done () s
    wakeupFrom p ch l

def wakeupPipe (p : Fin N) (ch : PipeChan) : PipeProg N Unit := wakeupFrom p ch (List.finRange N)

def killedPipe (p : Fin N) : PipeProg N Bool :=
  .atomic .killed fun s => if s.plock p then .blocked else .done (s.killed p) s

def killPipe (q : Fin N) : PipeProg N Unit :=
  .atomic (.kill q) fun s =>
    if s.plock q then .blocked
    else .done () { s with
      killed := update s.killed q true
      state := if s.state q = .SLEEPING then update s.state q .RUNNABLE else s.state }

def haltPipe : PipeProg N ℤ := .atomic .halt fun _ => .blocked

def pipewriteEnd (p : Fin N) (i : ℕ) : PipeProg N ℤ := do
  wakeupPipe p .nread
  releasePipe .release
  return i

/-- The loop of `pipewrite` after `i` bytes, `w` of them before its last `wakeup`; the number `w` only
goes into the label of the exit that fails. -/
def pipewriteFrom (p : Fin N) (buf : ℕ → Option ℕ) (n : ℤ) : ℕ → ℕ → ℕ → PipeProg N ℤ
  | 0, _, _ => haltPipe
  | rounds + 1, i, w =>
    if (i : ℤ) < n then do
      let gone ← lookPipe fun pi => pi.readopen == false
      let stop ← if gone then pure true else killedPipe p
      if stop then
        releasePipe (.writeFail i w)
        return -1
      else
        let full ← lookPipe Pipe.full
        if full then
          wakeupPipe p .nread
          sleepPipe p .nwrite
          pipewriteFrom p buf n rounds i i
        else
          match buf i with
          | none => pipewriteEnd p i
          | some ch =>
            editPipe (.append buf ch) fun pi => pi.append ch
            pipewriteFrom p buf n rounds (i + 1) w
    else pipewriteEnd p i

def pipewrite (p : Fin N) (buf : ℕ → Option ℕ) (n : ℤ) (rounds : ℕ) : PipeProg N ℤ := do
  acquirePipe .acquire p
  pipewriteFrom p buf n rounds 0 0

def pipereadEnd (p : Fin N) (valid : ℕ → Bool) (n : ℤ) (i : ℕ) : PipeProg N ℤ := do
  wakeupPipe p .nwrite
  notePipe (.readEnd valid n i)
  releasePipe .release
  return i

/-- The loop of `piperead` that copies, with `k` bytes left to do after `i` bytes. -/
def pipereadCopy (p : Fin N) (valid : ℕ → Bool) (n : ℤ) : ℕ → ℕ → PipeProg N ℤ
  | 0, i => pipereadEnd p valid n i
  | k + 1, i => do
    let empty ← lookPipe Pipe.empty
    if empty then pipereadEnd p valid n i
    else
      let ch ← lookPipe Pipe.head
      editPipe (.remove ch) Pipe.remove
      if valid i then pipereadCopy p valid n k (i + 1) else pipereadEnd p valid n i

def pipereadFrom (p : Fin N) (valid : ℕ → Bool) (n : ℤ) : ℕ → PipeProg N ℤ
  | 0 => haltPipe
  | rounds + 1 => do
    let wait ← lookPipe fun pi => pi.empty && pi.writeopen
    if wait then
      let stop ← killedPipe p
      if stop then
        releasePipe .release
        return -1
      else
        sleepPipe p .nread
        pipereadFrom p valid n rounds
    else pipereadCopy p valid n n.toNat 0

def piperead (p : Fin N) (valid : ℕ → Bool) (n : ℤ) (rounds : ℕ) : PipeProg N ℤ := do
  acquirePipe .acquire p
  pipereadFrom p valid n rounds

def pipeclose (p : Fin N) (writable : Bool) : PipeProg N Unit := do
  acquirePipe .acquire p
  editPipe (.close writable) fun pi => pi.close writable
  wakeupPipe p (if writable then .nread else .nwrite)
  releasePipe .release

end Programs

/-- The calls on a pipe, and `kill`. -/
inductive PipeCall (N : ℕ) where
  | write (buf : ℕ → Option ℕ) (n : ℤ) (rounds : ℕ)
  | read (valid : ℕ → Bool) (n : ℤ) (rounds : ℕ)
  | close (writable : Bool)
  | kill (q : Fin N)

def pipeMachine (N : ℕ) : Machine (PipeSys N) (PipeAct N) (Fin N) where
  Call := PipeCall N
  body p
    | .write buf n rounds => do
      notePipe .call
      let r ← pipewrite p buf n rounds
      notePipe (.writeRet buf n r)
    | .read valid n rounds => do
      notePipe .call
      let r ← piperead p valid n rounds
      notePipe (.readRet valid n r)
    | .close writable => pipeclose p writable
    | .kill q => killPipe q
  ready _ _ _ := True

def PipeSys.init (N : ℕ) (data : ℕ → ℕ) (killed : Fin N → Bool) : PipeSys N where
  pipe := .new data
  lock := none
  state _ := .RUNNING
  chan _ := none
  plock _ := false
  killed := killed

end Xv6
