import Xv6Kernel.Foundation.Program
import Xv6Kernel.Foundation.Ring
import Xv6Kernel.Foundation.Bytes
import Xv6Kernel.Param

/-!
# The buffer cache

The functions of `kernel/bio.c`, as programs over the state that the buffer cache and the log share:
the disk, the `NBUF` buffers, the pointers of the list that orders them by recent use, and the
in-memory log.  A thread of type `ι` that holds the sleep lock of a buffer is recorded in the
buffer.

Every action is one critical section of the source.  `bget` is the section under `bcache.lock`
followed by `acquiresleep`; `brelse` is `releasesleep` followed by its section under `bcache.lock`.
-/

namespace Xv6

variable {b : Fin NBUF} {n : ℕ}

abbrev Block : Type := Bytes BSIZE

structure Buf (ι : Type) where
  valid : Bool
  dev : ℕ
  blockno : ℕ
  lock : Option ι
  refcnt : ℕ
  data : Block

/-- The in-memory log (`struct log`).  The header `lh` is the list of its first `lh.n` block
numbers.  The fields `start` and `dev`, which `initlog` sets once, are parameters of the programs
that read them. -/
structure Log where
  /-- The number of blocks of the on-disk log, the header included. -/
  size : ℕ
  outstanding : ℕ
  committing : Bool
  lh : List ℕ

structure LogSys (ι : Type) where
  disk : ℕ → Block
  buf : Fin NBUF → Buf ι
  /-- The pointers of the list of buffers; `none` is `bcache.head`. -/
  links : Links (Option (Fin NBUF))
  log : Log
  up : Bool

/-- The actions of the buffer cache and of the log, by the section of the source they perform. -/
inductive LogAct where
  | bget (dev blockno : ℕ)
  | acquiresleep (b : Fin NBUF)
  | diskRead (b : Fin NBUF)
  /-- A change of the contents of a locked buffer by a file-system call. -/
  | modify (dev blockno : ℕ) (b : Fin NBUF) (d : Block)
  | bwrite (b : Fin NBUF)
  | releasesleep (b : Fin NBUF)
  | unref (b : Fin NBUF)
  | beginOp
  | logWrite (b : Fin NBUF)
  | endOp
  | endCommit
  | commit
  /-- The loop test of `write_log` or `install_trans`, with the block number read. -/
  | loopTest
  | memmove (dst src : Fin NBUF)
  | logSlot (b : Fin NBUF)
  | install (b : Fin NBUF)
  | bunpin (b : Fin NBUF)
  | fillHead (b : Fin NBUF)
  | writeHead (first : Bool) (b : Fin NBUF)
  | clear
  | readHead (b : Fin NBUF)
  | ready
  deriving DecidableEq

abbrev LogProg (ι α : Type) : Type 1 := Prog (LogSys ι) LogAct α

namespace LogSys

variable {ι : Type}

def setBuf (s : LogSys ι) (b : Fin NBUF) (x : Buf ι) : LogSys ι :=
  { s with buf := Function.update s.buf b x }

/-- The buffers in the order of `next`, most recently used first. -/
def forward (s : LogSys ι) : List (Fin NBUF) :=
  (Links.follow s.links.next none (NBUF + 1) (s.links.next none)).filterMap id

/-- The buffers in the order of `prev`, least recently used first. -/
def backward (s : LogSys ι) : List (Fin NBUF) :=
  (Links.follow s.links.prev none (NBUF + 1) (s.links.prev none)).filterMap id

/-- The pointers set up by `binit`. -/
def binit (L : Links (Option (Fin NBUF))) : Links (Option (Fin NBUF)) :=
  (List.finRange NBUF).foldl (fun L b => L.pushFront none (some b)) (L.empty none)

/-- The section of `bget` under `bcache.lock`: find the block, or recycle the least recently used
unused buffer. -/
def bget (s : LogSys ι) (dev blockno : ℕ) : Outcome (LogSys ι) (Fin NBUF) :=
  match s.forward.find? fun b => (s.buf b).dev = dev && (s.buf b).blockno = blockno with
  | some b => .done b (s.setBuf b { s.buf b with refcnt := (s.buf b).refcnt + 1 })
  | none =>
    match s.backward.find? fun b => (s.buf b).refcnt = 0 with
    | some b => .done b (s.setBuf b
        { s.buf b with dev := dev, blockno := blockno, valid := false, refcnt := 1 })
    | none => .panic "bget: no buffers"

def acquiresleep [DecidableEq ι] (s : LogSys ι) (p : ι) (b : Fin NBUF) :
    Outcome (LogSys ι) Unit :=
  if (s.buf b).lock = none then .done () (s.setBuf b { s.buf b with lock := some p })
  else .blocked

def diskRead (s : LogSys ι) (b : Fin NBUF) : LogSys ι :=
  if (s.buf b).valid then s
  else s.setBuf b { s.buf b with valid := true, data := s.disk (s.buf b).blockno }

def diskWrite (s : LogSys ι) (b : Fin NBUF) : LogSys ι :=
  { s with disk := Function.update s.disk (s.buf b).blockno (s.buf b).data }

lemma diskWrite_disk_self (s : LogSys ι) (h : (s.buf b).blockno = n) :
    (s.diskWrite b).disk n = (s.buf b).data := by
  subst h
  simp [diskWrite]

lemma diskWrite_disk_of_ne (s : LogSys ι) {m : ℕ} (h : (s.buf b).blockno = n)
    (hm : m ≠ n) : (s.diskWrite b).disk m = s.disk m := by
  subst h
  simp [diskWrite, hm]

def bwrite [DecidableEq ι] (s : LogSys ι) (p : ι) (b : Fin NBUF) : Outcome (LogSys ι) Unit :=
  if (s.buf b).lock = some p then .done () (s.diskWrite b) else .panic "bwrite"

/-- Give the sleep lock of a buffer back, in `brelse`. -/
def releasesleep [DecidableEq ι] (s : LogSys ι) (p : ι) (b : Fin NBUF) :
    Outcome (LogSys ι) Unit :=
  if (s.buf b).lock = some p then .done () (s.setBuf b { s.buf b with lock := none })
  else .panic "brelse"

/-- The section of `brelse` under `bcache.lock`: drop the reference, and move a buffer that no one
waits for to the head of the list. -/
def unref (s : LogSys ι) (b : Fin NBUF) : LogSys ι :=
  let s := s.setBuf b { s.buf b with refcnt := (s.buf b).refcnt - 1 }
  if (s.buf b).refcnt = 0 then
    { s with links := (s.links.unlink (some b)).pushFront none (some b) }
  else s

def bpin (s : LogSys ι) (b : Fin NBUF) : LogSys ι :=
  s.setBuf b { s.buf b with refcnt := (s.buf b).refcnt + 1 }

def bunpin (s : LogSys ι) (b : Fin NBUF) : LogSys ι :=
  s.setBuf b { s.buf b with refcnt := (s.buf b).refcnt - 1 }

def setData (s : LogSys ι) (b : Fin NBUF) (d : Block) : LogSys ι :=
  s.setBuf b { s.buf b with data := d }

end LogSys

section Programs

variable {ι : Type} [DecidableEq ι]

def bget (p : ι) (dev blockno : ℕ) : LogProg ι (Fin NBUF) := do
  let b ← .atomic (.bget dev blockno) fun s => s.bget dev blockno
  .atomic (.acquiresleep b) fun s => s.acquiresleep p b
  return b

def bread (p : ι) (dev blockno : ℕ) : LogProg ι (Fin NBUF) := do
  let b ← bget p dev blockno
  .atomic (.diskRead b) fun s => .done () (s.diskRead b)
  return b

/-- `bwrite`: write a locked buffer to disk. -/
def bwrite (p : ι) (l : LogAct) (b : Fin NBUF) : LogProg ι Unit :=
  .atomic l fun s => s.bwrite p b

def brelse (p : ι) (b : Fin NBUF) : LogProg ι Unit := do
  .atomic (.releasesleep b) fun s => s.releasesleep p b
  .atomic (.unref b) fun s => .done () (s.unref b)

def bunpin (b : Fin NBUF) : LogProg ι Unit :=
  .atomic (.bunpin b) fun s => .done () (s.bunpin b)

end Programs

end Xv6
