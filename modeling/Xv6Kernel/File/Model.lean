import Xv6Kernel.Foundation.Program
import Xv6Kernel.Param
import Xv6Kernel.Process.Sched

/-!
# Open files

The functions of `kernel/file.c`, `kernel/pipe.c`, `kernel/sysfile.c` and `kernel/proc.c` that make
and give up references to open files: `filealloc`, `filedup`, `fileclose`, `pipealloc`, `pipeclose`,
`fdalloc`, the calls `dup`, `close`, `open`, `pipe`, and what `fork` and `exit` do to the
descriptors of a process.  A section under `ftable.lock` or under the lock of a pipe is one action,
and so is each access to a descriptor and each assignment to the fields of a file.
-/

namespace Xv6

open Function

/-- The `type` of `struct file`. -/
inductive FileType where
  | FD_NONE
  | FD_PIPE
  | FD_INODE
  | FD_DEVICE
  deriving DecidableEq

structure File where
  type : FileType
  ref : ℕ
  writable : Bool
  pipe : ℕ

/-- The flags of `struct pipe`. -/
structure PipeFlags where
  readopen : Bool
  writeopen : Bool
  deriving DecidableEq

def PipeFlags.isOpen (e : PipeFlags) (writable : Bool) : Bool :=
  if writable then e.writeopen else e.readopen

/-- The assignment of `pipeclose`. -/
def PipeFlags.close (e : PipeFlags) (writable : Bool) : PipeFlags :=
  if writable then { e with writeopen := false } else { e with readopen := false }

def PipeFlags.closed : PipeFlags := ⟨false, false⟩

abbrev FdRow := Fin NOFILE → Option (Fin NFILE)

structure FileSys (N : ℕ) where
  file : Fin NFILE → File
  ofile : Fin N → FdRow
  pipe : ℕ → Option PipeFlags
  state : Fin N → ProcState
  inOp : Fin N → Bool

inductive FileAct where
  | access
  | newPipe (n : ℕ)
  | freePipe (n : ℕ)
  | beginOp
  | endOp
  deriving DecidableEq

abbrev FileProg (N : ℕ) := Prog (FileSys N) FileAct

section Programs

variable {N : ℕ}

/-- The file `f` becomes `x`. -/
def FileSys.setFile (s : FileSys N) (f : Fin NFILE) (x : File) : FileSys N :=
  { s with file := update s.file f x }

def FileSys.setRow (s : FileSys N) (p : Fin N) (r : FdRow) : FileSys N :=
  { s with ofile := update s.ofile p r }

/-- The page `n` becomes `e`. -/
def FileSys.setPipe (s : FileSys N) (n : ℕ) (e : Option PipeFlags) : FileSys N :=
  { s with pipe := update s.pipe n e }

def beginOpFile (p : Fin N) : FileProg N Unit :=
  .atomic .beginOp fun s => .done () { s with inOp := update s.inOp p true }

def endOpFile (p : Fin N) : FileProg N Unit :=
  .atomic .endOp fun s => .done () { s with inOp := update s.inOp p false }

def filealloc : FileProg N (Option (Fin NFILE)) :=
  .atomic .access fun s =>
    match (List.finRange NFILE).find? fun f => (s.file f).ref == 0 with
    | some f => .done (some f) (s.setFile f { s.file f with ref := 1 })
    | none => .done none s

def filedup (f : Fin NFILE) : FileProg N Unit :=
  .atomic .access fun s =>
    if (s.file f).ref < 1 then .panic "filedup"
    else .done () (s.setFile f { s.file f with ref := (s.file f).ref + 1 })

/-- The section of `fileclose` under `ftable.lock`, with the copy `ff` of a file that is closed. -/
def dropRef (f : Fin NFILE) : FileProg N (Option File) :=
  .atomic .access fun s =>
    if (s.file f).ref < 1 then .panic "fileclose"
    else if 0 < (s.file f).ref - 1 then
      .done none (s.setFile f { s.file f with ref := (s.file f).ref - 1 })
    else .done (some (s.file f)) (s.setFile f { s.file f with ref := 0, type := .FD_NONE })

/-- The section of `pipeclose(pi, writable)` under the lock of the pipe; it returns whether both ends
are closed. -/
def closeEnd (n : ℕ) (writable : Bool) : FileProg N Bool :=
  .atomic .access fun s =>
    match s.pipe n with
    | none => .panic "pipeclose"
    | some e => .done (e.close writable == .closed) (s.setPipe n (some (e.close writable)))

/-- `kfree((char*)pi)`. -/
def freePipe (n : ℕ) : FileProg N Unit :=
  .atomic (.freePipe n) fun s =>
    match s.pipe n with
    | none => .panic "kfree"
    | some _ => .done () (s.setPipe n none)

def pipecloseFile (n : ℕ) (writable : Bool) : FileProg N Unit := do
  if ← closeEnd n writable then freePipe n

def fileclose (p : Fin N) (f : Fin NFILE) : FileProg N Unit := do
  match ← dropRef f with
  | none => pure ()
  | some ff =>
    match ff.type with
    | .FD_PIPE => pipecloseFile ff.pipe ff.writable
    | .FD_NONE => pure ()
    | _ =>
      beginOpFile p
      endOpFile p

/-- `p->ofile[fd]`. -/
def getFd (p : Fin N) (fd : Fin NOFILE) : FileProg N (Option (Fin NFILE)) :=
  .atomic .access fun s => .done (s.ofile p fd) s

/-- `p->ofile[fd] = v`. -/
def setFd (p : Fin N) (fd : Fin NOFILE) (v : Option (Fin NFILE)) : FileProg N Unit :=
  .atomic .access fun s => .done () (s.setRow p (update (s.ofile p) fd v))

/-- `fdalloc(f)`; the descriptors belong to the process that runs it. -/
def fdalloc (p : Fin N) (f : Fin NFILE) : FileProg N (Option (Fin NOFILE)) :=
  .atomic .access fun s =>
    match (List.finRange NOFILE).find? fun fd => s.ofile p fd == none with
    | some fd => .done (some fd) (s.setRow p (update (s.ofile p) fd (some f)))
    | none => .done none s

/-- The assignments to the fields of a new file; `f->pipe` is only assigned for a pipe. -/
def initFile (f : Fin NFILE) (type : FileType) (writable : Bool) (pipe : Option ℕ) :
    FileProg N Unit :=
  .atomic .access fun s =>
    .done () (s.setFile f ⟨type, (s.file f).ref, writable, pipe.getD (s.file f).pipe⟩)

/-- `kalloc()` in `pipealloc`, with the assignments to the pipe, when it returns the page `n`. -/
def newPipe (n : ℕ) : FileProg N Unit :=
  .atomic (.newPipe n) fun s =>
    match s.pipe n with
    | some _ => .blocked
    | none => .done () (s.setPipe n (some ⟨true, true⟩))

def pipealloc (p : Fin N) : FileProg N (Option (Fin NFILE × Fin NFILE)) := do
  match ← filealloc with
  | none => pure none
  | some f0 =>
    match ← filealloc with
    | none =>
      fileclose p f0
      pure none
    | some f1 =>
      if ← Prog.pickBool then
        let n ← Prog.pick .ret
        newPipe n
        initFile f0 .FD_PIPE false (some n)
        initFile f1 .FD_PIPE true (some n)
        pure (some (f0, f1))
      else
        fileclose p f0
        fileclose p f1
        pure none

def sysDup (p : Fin N) (fd : Fin NOFILE) : FileProg N Unit := do
  match ← getFd p fd with
  | none => pure ()
  | some f =>
    match ← fdalloc p f with
    | none => pure ()
    | some _ => filedup f

def sysClose (p : Fin N) (fd : Fin NOFILE) : FileProg N Unit := do
  match ← getFd p fd with
  | none => pure ()
  | some f =>
    setFd p fd none
    fileclose p f

/-- `sys_open`; the environment says whether the path is found, and what the inode and the mode are. -/
def sysOpen (p : Fin N) : FileProg N Unit := do
  beginOpFile p
  if ← Prog.pickBool then
    match ← filealloc with
    | none => endOpFile p
    | some f =>
      match ← fdalloc p f with
      | none =>
        fileclose p f
        endOpFile p
      | some _ =>
        let device ← Prog.pickBool
        let writable ← Prog.pickBool
        initFile f (if device then .FD_DEVICE else .FD_INODE) writable none
        endOpFile p
  else endOpFile p

/-- `sys_pipe`; the environment says whether `copyout` succeeds. -/
def sysPipe (p : Fin N) : FileProg N Unit := do
  match ← pipealloc p with
  | none => pure ()
  | some (rf, wf) =>
    match ← fdalloc p rf with
    | none =>
      fileclose p rf
      fileclose p wf
    | some fd0 =>
      match ← fdalloc p wf with
      | none =>
        setFd p fd0 none
        fileclose p rf
        fileclose p wf
      | some fd1 =>
        if ← Prog.pickBool then pure ()
        else
          setFd p fd0 none
          setFd p fd1 none
          fileclose p rf
          fileclose p wf

/-- `p->state = x`. -/
def setStateFile (p : Fin N) (x : ProcState) : FileProg N Unit :=
  .atomic .access fun s => .done () { s with state := update s.state p x }

/-- The test of an entry of the process table for `x` and the assignment of `y` under the lock of the
process. -/
def testState (i : Fin N) (x y : ProcState) : FileProg N Bool :=
  .atomic .access fun s =>
    if s.state i = x then .done true { s with state := update s.state i y }
    else .done false s

def forkFiles (p np : Fin N) : List (Fin NOFILE) → FileProg N Unit
  | [] => pure ()
  | fd :: fds => do
    match ← getFd p fd with
    | none => forkFiles p np fds
    | some f =>
      filedup f
      setFd np fd (some f)
      forkFiles p np fds

/-- `fork()` from the entry of `allocproc` on; the environment says whether there is memory. -/
def forkFrom (p : Fin N) : List (Fin N) → FileProg N Unit
  | [] => pure ()
  | np :: l => do
    if ← testState np .UNUSED .USED then
      if ← Prog.pickBool then
        forkFiles p np (List.finRange NOFILE)
        setStateFile np .RUNNABLE
      else setStateFile np .UNUSED
    else forkFrom p l

def exitFiles (p : Fin N) : List (Fin NOFILE) → FileProg N Unit
  | [] => pure ()
  | fd :: fds => do
    match ← getFd p fd with
    | none => exitFiles p fds
    | some f =>
      fileclose p f
      setFd p fd none
      exitFiles p fds

def exitFile (initproc p : Fin N) : FileProg N Unit := do
  .atomic .access fun s => if p = initproc then .panic "init exiting" else .done () s
  exitFiles p (List.finRange NOFILE)
  beginOpFile p
  endOpFile p
  setStateFile p .ZOMBIE

/-- `freeproc` in `wait`. -/
def reapFile (i : Fin N) : FileProg N Unit := do
  let _ ← testState i .ZOMBIE .UNUSED

end Programs

inductive FileCall (N : ℕ) where
  | openFile
  | dup (fd : Fin NOFILE)
  | pipe
  | fork
  | close (fd : Fin NOFILE)
  | exit
  | wait (i : Fin N)

def fileMachine {N : ℕ} (initproc : Fin N) : Machine (FileSys N) FileAct (Fin N) where
  Call := FileCall N
  body p
    | .openFile => sysOpen p
    | .dup fd => sysDup p fd
    | .pipe => sysPipe p
    | .fork => forkFrom p (List.finRange N)
    | .close fd => sysClose p fd
    | .exit => exitFile initproc p
    | .wait i => reapFile i
  ready s p _ := s.state p = .RUNNABLE

def FileSys.init {N : ℕ} (initproc : Fin N) : FileSys N where
  file _ := ⟨.FD_NONE, 0, false, 0⟩
  ofile _ _ := none
  pipe _ := none
  state := update (fun _ => .UNUSED) initproc .RUNNABLE
  inOp _ := false

end Xv6
