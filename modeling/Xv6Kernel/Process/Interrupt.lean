import Xv6Kernel.Pipe.Model

/-!
# The sleep loops that test for a kill

The five loops of the kernel that sleep until something happens or the process is killed: `piperead`
and `pipewrite` in `kernel/pipe.c`, `wait` in `kernel/proc.c`, `consoleread` in `kernel/console.c`
and `sys_sleep` in `kernel/sysproc.c`, over one process table and with the locks and the data on
which they sleep.  The data is what the loops test: the counters of a pipe, of the console and of
the clock.  What the scan of `wait` finds, and whether a copy to user memory succeeds, is left to
the environment.  `kill` is the section that marks the process it has found.
-/

namespace Xv6

open Function

inductive IntrLock where
  | pipe
  | wait
  | cons
  | ticks
  deriving DecidableEq

inductive IntrChan (N : ℕ) where
  | nread
  | nwrite
  | child (p : Fin N)
  | cons
  | ticks
  deriving DecidableEq

structure IntrData where
  pipe : Pipe
  consR : ℕ
  consW : ℕ
  ticks : ℕ

structure IntrSys (N : ℕ) where
  data : IntrData
  lock : IntrLock → Option (Fin N)
  state : Fin N → ProcState
  chan : Fin N → Option (IntrChan N)
  plock : Fin N → Bool
  killed : Fin N → Bool

inductive IntrAct (N : ℕ) where
  | acquire
  | release
  | look
  | edit
  | doze
  | sleep
  | resume
  | wake (q : Fin N)
  | killed
  | kill (q : Fin N)
  | halt

abbrev IntrProg (N : ℕ) (α : Type) : Type 1 := Prog (IntrSys N) (IntrAct N) α

section Programs

variable {N : ℕ}

def acquireIntr (p : Fin N) (lk : IntrLock) : IntrProg N Unit :=
  .atomic .acquire fun s =>
    if s.lock lk = none then .done () { s with lock := update s.lock lk (some p) }
    else .blocked

def releaseIntr (lk : IntrLock) : IntrProg N Unit :=
  .atomic .release fun s => .done () { s with lock := update s.lock lk none }

def lookIntr {β : Type} (f : IntrData → β) : IntrProg N β :=
  .atomic .look fun s => .done (f s.data) s

def editIntr (f : IntrData → IntrData) : IntrProg N Unit :=
  .atomic .edit fun s => .done () { s with data := f s.data }

def killedIntr (p : Fin N) : IntrProg N Bool :=
  .atomic .killed fun s => if s.plock p then .blocked else .done (s.killed p) s

def sleepIntr (p : Fin N) (ch : IntrChan N) (lk : IntrLock) : IntrProg N Unit := do
  .atomic .doze fun s => .done () { s with lock := update s.lock lk none,
                                           plock := update s.plock p true }
  .atomic .sleep fun s =>
    .done () { s with state := update s.state p .SLEEPING,
                      chan := update s.chan p (some ch),
                      plock := update s.plock p false }
  .atomic .resume fun s =>
    if s.state p = .RUNNABLE ∧ s.plock p = false then
      .done () { s with state := update s.state p .RUNNING,
                        chan := update s.chan p none }
    else .blocked
  acquireIntr p lk

/-- The loop of `wakeup(ch)` by the process `p` over a part of the process table. -/
def wakeupIntrFrom (p : Fin N) (ch : IntrChan N) : List (Fin N) → IntrProg N Unit
  | [] => pure ()
  | q :: l => do
    if q ≠ p then
      .atomic (.wake q) fun s =>
        if s.plock q then .blocked
        else if s.state q = .SLEEPING ∧ s.chan q = some ch then
          .done () { s with state := update s.state q .RUNNABLE }
        else .done () s
    wakeupIntrFrom p ch l

def wakeupIntr (p : Fin N) (ch : IntrChan N) : IntrProg N Unit :=
  wakeupIntrFrom p ch (List.finRange N)

def killIntr (q : Fin N) : IntrProg N Unit :=
  .atomic (.kill q) fun s =>
    if s.plock q then .blocked
    else .done () { s with
      killed := update s.killed q true
      state := if s.state q = .SLEEPING then update s.state q .RUNNABLE else s.state }

def haltIntr : IntrProg N Unit := .atomic .halt fun _ => .blocked

def sleepLoop (p : Fin N) (ch : IntrChan N) (lk : IntrLock) (cond : IntrData → Bool)
    (after : IntrProg N Unit) : ℕ → IntrProg N Unit
  | 0 => haltIntr
  | rounds + 1 => do
    if ← lookIntr cond then
      if ← killedIntr p then releaseIntr lk
      else
        sleepIntr p ch lk
        sleepLoop p ch lk cond after rounds
    else after

/-- The end of `piperead`. -/
def readEndIntr (p : Fin N) : IntrProg N Unit := do
  wakeupIntr p .nwrite
  releaseIntr .pipe

/-- The loop of `piperead` that copies, with `k` bytes left to do. -/
def readCopyIntr (p : Fin N) : ℕ → IntrProg N Unit
  | 0 => readEndIntr p
  | k + 1 => do
    if ← lookIntr fun d => d.pipe.empty then readEndIntr p
    else
      editIntr fun d => { d with pipe := d.pipe.remove }
      if ← Prog.pickBool then readCopyIntr p k else readEndIntr p

def pipereadIntr (p : Fin N) (n rounds : ℕ) : IntrProg N Unit := do
  acquireIntr p .pipe
  sleepLoop p .nread .pipe (fun d => d.pipe.empty && d.pipe.writeopen) (readCopyIntr p n) rounds

/-- The end of `pipewrite`. -/
def writeEndIntr (p : Fin N) : IntrProg N Unit := do
  wakeupIntr p .nread
  releaseIntr .pipe

/-- The loop of `pipewrite` with `k` bytes left to do. -/
def pipewriteIntrFrom (p : Fin N) : ℕ → ℕ → IntrProg N Unit
  | 0, _ => haltIntr
  | _ + 1, 0 => writeEndIntr p
  | rounds + 1, k + 1 => do
    if ← lookIntr fun d => d.pipe.readopen == false then releaseIntr .pipe
    else if ← killedIntr p then releaseIntr .pipe
    else if ← lookIntr fun d => d.pipe.full then
      wakeupIntr p .nread
      sleepIntr p .nwrite .pipe
      pipewriteIntrFrom p rounds (k + 1)
    else if ← Prog.pickBool then
      let ch ← Prog.pick .ret
      editIntr fun d => { d with pipe := d.pipe.append ch }
      pipewriteIntrFrom p rounds k
    else writeEndIntr p

def pipewriteIntr (p : Fin N) (n rounds : ℕ) : IntrProg N Unit := do
  acquireIntr p .pipe
  pipewriteIntrFrom p rounds n

/-- The loop of `wait`: its scan ends the call, or has seen children but no zombies. -/
def waitIntrFrom (p : Fin N) : ℕ → IntrProg N Unit
  | 0 => haltIntr
  | rounds + 1 => do
    if ← Prog.pickBool then
      if ← killedIntr p then releaseIntr .wait
      else
        sleepIntr p (.child p) .wait
        waitIntrFrom p rounds
    else releaseIntr .wait

def waitIntr (p : Fin N) (rounds : ℕ) : IntrProg N Unit := do
  acquireIntr p .wait
  waitIntrFrom p rounds

def consolereadFrom (p : Fin N) (rounds : ℕ) : ℕ → IntrProg N Unit
  | 0 => releaseIntr .cons
  | n + 1 => sleepLoop p .cons .cons (fun d => d.consR == d.consW) (do
      editIntr fun d => { d with consR := u32 (d.consR + 1) }
      if ← Prog.pickBool then consolereadFrom p rounds n
      else
        -- the end of the file may be put back for the next call
        if ← Prog.pickBool then editIntr fun d => { d with consR := u32 (d.consR + 2 ^ 32 - 1) }
        releaseIntr .cons) rounds

def consoleread (p : Fin N) (n rounds : ℕ) : IntrProg N Unit := do
  acquireIntr p .cons
  consolereadFrom p rounds n

def sysSleep (p : Fin N) (n rounds : ℕ) : IntrProg N Unit := do
  acquireIntr p .ticks
  let ticks0 ← lookIntr fun d => d.ticks
  sleepLoop p .ticks .ticks (fun d => u32 (d.ticks + 2 ^ 32 - ticks0) < n) (releaseIntr .ticks) rounds

/-- The functions that change the data under its lock and wake the sleepers: `pipeclose`, `exit`,
`consoleintr` and `clockintr`. -/
def announce (p : Fin N) (lk : IntrLock) (f : IntrData → IntrData) (ch : IntrChan N) :
    IntrProg N Unit := do
  acquireIntr p lk
  editIntr f
  wakeupIntr p ch
  releaseIntr lk

end Programs

inductive IntrCall (N : ℕ) where
  | piperead (n rounds : ℕ)
  | pipewrite (n rounds : ℕ)
  | wait (rounds : ℕ)
  | consoleread (n rounds : ℕ)
  | sleep (n rounds : ℕ)
  | pipeclose (writable : Bool)
  | exit (q : Fin N)
  | consoleintr (w : ℕ)
  | clockintr
  | kill (q : Fin N)

def intrMachine (N : ℕ) : Machine (IntrSys N) (IntrAct N) (Fin N) where
  Call := IntrCall N
  body p
    | .piperead n rounds => pipereadIntr p n rounds
    | .pipewrite n rounds => pipewriteIntr p n rounds
    | .wait rounds => waitIntr p rounds
    | .consoleread n rounds => consoleread p n rounds
    | .sleep n rounds => sysSleep p n rounds
    | .pipeclose writable => announce p .pipe (fun d => { d with pipe := d.pipe.close writable })
        (if writable then .nread else .nwrite)
    | .exit q => announce p .wait id (.child q)
    | .consoleintr w => announce p .cons (fun d => { d with consW := w }) .cons
    | .clockintr => announce p .ticks (fun d => { d with ticks := u32 (d.ticks + 1) }) .ticks
    | .kill q => killIntr q
  ready _ _ _ := True

def IntrSys.init {N : ℕ} (data : IntrData) (killed : Fin N → Bool) : IntrSys N where
  data := data
  lock _ := none
  state _ := .RUNNING
  chan _ := none
  plock _ := false
  killed := killed

end Xv6
