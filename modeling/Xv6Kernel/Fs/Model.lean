import Xv6Kernel.Foundation.Ownership

/-!
# Links and references to inodes

The file system as the system calls of `kernel/sysfile.c` see it: inodes with their types and link
counts, the entries of directories, the references in memory to inodes, and the transactions of the
log.  A reference is held by an open file or as a current directory, which are the slots of the
model, or by a process in a system call.

An action is what a system call does while it holds the locks of the inodes concerned.  A group of
transactions takes effect on the disk when the last of them ends: `stable` is what the recovery at
the next boot restores.  The link counts are those of the entries other than `..`, which a directory
has only while it contains another one, so that it is not removed.
-/

namespace Xv6.Fs

open Function

abbrev ROOTINO : ℕ := 1

inductive Kind where
  | free
  | file
  | dir
  deriving DecidableEq

/-- An entry of a directory. -/
structure Entry where
  dir : ℕ
  name : ℕ
  inum : ℕ
  deriving DecidableEq

/-- The inodes and the entries of all directories. -/
structure Disk where
  kind : ℕ → Kind
  nlink : ℕ → ℕ
  up : ℕ → ℕ
  ents : List Entry

namespace Disk

def lookup (d : Disk) (dp n : ℕ) : Option Entry := d.ents.find? fun t => t.dir = dp ∧ t.name = n

def links (d : Disk) (i : ℕ) : ℕ := d.ents.countP fun t => t.inum = i

def isdirempty (d : Disk) (i : ℕ) : Bool := d.ents.all fun t => t.dir ≠ i

def create (d : Disk) (dp n i : ℕ) (k : Kind) : Disk where
  kind := update d.kind i k
  nlink := update d.nlink i 1
  up := update d.up i dp
  ents := ⟨dp, n, i⟩ :: d.ents

/-- `ialloc` and the link count 0, at the end of a `create` that fails. -/
def ialloc (d : Disk) (dp i : ℕ) (k : Kind) : Disk where
  kind := update d.kind i k
  nlink := update d.nlink i 0
  up := update d.up i dp
  ents := d.ents

def dirlink (d : Disk) (dp n i : ℕ) : Disk := { d with ents := ⟨dp, n, i⟩ :: d.ents }

def setNlink (d : Disk) (i k : ℕ) : Disk := { d with nlink := update d.nlink i k }

def unlink (d : Disk) (t : Entry) : Disk where
  kind := d.kind
  nlink := update d.nlink t.inum (d.nlink t.inum - 1)
  up := d.up
  ents := d.ents.erase t

def release (d : Disk) (i : ℕ) : Disk :=
  { d with
    kind := update d.kind i .free
    ents := d.ents.filter fun t => t.dir ≠ i }

end Disk

/-- The system: `N` processes and `K` open files and current directories. -/
structure Sys (N K : ℕ) where
  disk : Disk
  stable : Disk
  ref : ℕ → ℕ
  /-- The inodes of the open files and the current directories. -/
  slot : Fin K → Option ℕ
  out : Fin N → Bool

inductive Name where
  | dot
  | dotdot
  | name (n : ℕ)

inductive Made where
  | none
  | found (i : ℕ)
  | made (i : ℕ)
  | failed (i : ℕ)

inductive Act (K : ℕ) where
  | beginOp
  | endOp
  | iget
  | idup (k : Fin K)
  | dirlookup
  /-- The first critical section of `iput`, with `itrunc`. -/
  | iput (i : ℕ)
  | drop (i : ℕ)
  | create (dp n fresh : ℕ) (full : Bool)
  | ilock (i : ℕ)
  | nlinkUp (i : ℕ)
  | dirlink (i : ℕ)
  | nlinkDown (i : ℕ)
  | unlink (dp n : ℕ)
  | keep (k : Fin K)
  /-- A file is closed, or the current directory is given up. -/
  | take (k : Fin K)
  | swap (k : Fin K)
  | fork (k : Fin K)

namespace Sys

variable {N K : ℕ}

def get (s : Sys N K) (i : ℕ) : Sys N K := { s with ref := update s.ref i (s.ref i + 1) }

def idup (s : Sys N K) (k : Fin K) : Outcome (Sys N K) ℕ :=
  match s.slot k with
  | some i => .done i (s.get i)
  | none => .panic "kerneltrap"

def dirlookup (s : Sys N K) (dp : ℕ) (nm : Name) : Outcome (Sys N K) (Option ℕ) :=
  if s.disk.kind dp = .dir then
    match nm with
    | .dot => .done (some dp) (s.get dp)
    | .dotdot => .done (some (s.disk.up dp)) (s.get (s.disk.up dp))
    | .name n =>
      match s.disk.lookup dp n with
      | some t => .done (some t.inum) (s.get t.inum)
      | none => .done none s
  else .done none s

def drop (s : Sys N K) (i : ℕ) : Sys N K := { s with ref := update s.ref i (s.ref i - 1) }

/-- The first critical section of `iput`.  The result is whether the inode was freed: then it is
unlocked before the reference is given up. -/
def iput (s : Sys N K) (i : ℕ) : Outcome (Sys N K) Bool :=
  if s.ref i = 1 ∧ s.disk.nlink i = 0 then .done true { s with disk := s.disk.release i }
  else .done false (s.drop i)

/-- `create` in the directory `dp`: the entry that is there, or a new inode, if `fresh` is free.
With `full` one of the calls of `dirlink` fails. -/
def create (s : Sys N K) (dp n fresh : ℕ) (isDir full : Bool) : Outcome (Sys N K) Made :=
  if s.disk.kind dp = .dir then
    match s.disk.lookup dp n with
    | some t => .done (.found t.inum) (s.get t.inum)
    | none =>
      if s.disk.kind fresh = .free then
        if full then
          .done (.failed fresh)
            { s.get fresh with disk := s.disk.ialloc dp fresh (if isDir then .dir else .file) }
        else
          .done (.made fresh)
            { s.get fresh with disk := s.disk.create dp n fresh (if isDir then .dir else .file) }
      else .done .none s
  else .done .none s

/-- The first half of `sys_link`, which refuses directories. -/
def nlinkUp (s : Sys N K) (i : ℕ) : Outcome (Sys N K) Bool :=
  if s.disk.kind i = .file then
    .done true { s with disk := s.disk.setNlink i (s.disk.nlink i + 1) }
  else .done false s

/-- The second half of `sys_link`. -/
def dirlink (s : Sys N K) (dp n i : ℕ) (full : Bool) : Outcome (Sys N K) Bool :=
  if s.disk.kind dp = .dir ∧ s.disk.lookup dp n = none ∧ full = false then
    .done true { s with disk := s.disk.dirlink dp n i }
  else .done false s

def nlinkDown (s : Sys N K) (i : ℕ) : Sys N K :=
  { s with disk := s.disk.setNlink i (s.disk.nlink i - 1) }

def unlink (s : Sys N K) (dp n : ℕ) : Outcome (Sys N K) (Option ℕ) :=
  if s.disk.kind dp = .dir then
    match s.disk.lookup dp n with
    | none => .done none s
    | some t =>
      if s.disk.nlink t.inum < 1 then .panic "unlink: nlink < 1"
      else if s.disk.kind t.inum = .dir ∧ s.disk.isdirempty t.inum = false then .done none s
      else .done (some t.inum) { s.get t.inum with disk := s.disk.unlink t }
  else .done none s

def keep (s : Sys N K) (k : Fin K) (i : ℕ) : Outcome (Sys N K) Bool :=
  if s.slot k = none then .done true { s with slot := update s.slot k (some i) }
  else .done false s

/-- The last descriptor of a file is closed, or the current directory is given up. -/
def take (s : Sys N K) (k : Fin K) : Outcome (Sys N K) (Option ℕ) :=
  .done (s.slot k) { s with slot := update s.slot k none }

/-- The current directory is changed, if the inode is a directory. -/
def swap (s : Sys N K) (k : Fin K) (i : ℕ) : Outcome (Sys N K) (Option ℕ) :=
  if s.disk.kind i = .dir then
    .done (s.slot k) { s with slot := update s.slot k (some i) }
  else .done (some i) s

def fork (s : Sys N K) (k k' : Fin K) : Outcome (Sys N K) Unit :=
  match s.slot k, s.slot k' with
  | some i, none => .done () { s.get i with slot := update s.slot k' (some i) }
  | _, _ => .done () s

def endOp (s : Sys N K) (p : Fin N) : Sys N K :=
  { s with
    stable := if ∀ q, q ≠ p → s.out q = false then s.disk else s.stable
    out := update s.out p false }

end Sys

abbrev FsProg (N K : ℕ) (α : Type) : Type 1 := Prog (Sys N K) (Act K) α

structure Path (K : ℕ) where
  start : Option (Fin K)
  names : List Name

namespace FsProg

variable {N K : ℕ}

def iput (i : ℕ) : FsProg N K Unit := do
  if ← .atomic (.iput i) fun s => s.iput i then
    .atomic (.drop i) fun s => .done () (s.drop i)

def iputAny : Option ℕ → FsProg N K Unit
  | none => return
  | some i => iput i

def namexLoop : List Name → ℕ → FsProg N K (Option ℕ)
  | [], ip => return some ip
  | nm :: path, ip => do
    match ← .atomic .dirlookup fun s => s.dirlookup ip nm with
    | none =>
      iput ip
      return none
    | some next =>
      iput ip
      namexLoop path next

def namex (path : Path K) : FsProg N K (Option ℕ) := do
  let ip ← match path.start with
    | none => .atomic .iget fun s => .done ROOTINO (s.get ROOTINO)
    | some k => .atomic (.idup k) fun s => s.idup k
  namexLoop path.names ip

def op (p : Fin N) (m : FsProg N K Unit) : FsProg N K Unit := do
  .atomic .beginOp fun s => .done () { s with out := update s.out p true }
  m
  .atomic .endOp fun s => .done () (s.endOp p)

/-- The end of `sys_open`: the file is kept in a slot. -/
def keepAny (k : Fin K) : Option ℕ → FsProg N K Unit
  | none => return
  | some i => do
    if ← .atomic (.keep k) fun s => s.keep k i then return
    else iput i

def create (path : Path K) (n fresh : ℕ) (isDir full : Bool) : FsProg N K (Option ℕ) := do
  match ← namex path with
  | none => return none
  | some dp =>
    match ← .atomic (.create dp n fresh full) fun s => s.create dp n fresh isDir full with
    | .none =>
      iput dp
      return none
    | .found i =>
      iput dp
      if ← .atomic (.ilock i) fun s => .done (!isDir && s.disk.kind i = .file) s then
        return some i
      else
        iput i
        return none
    | .made i =>
      iput dp
      return some i
    | .failed i =>
      iput i
      iput dp
      return none

def sysLink (old new : Path K) (n : ℕ) (full : Bool) : FsProg N K Unit := do
  match ← namex old with
  | none => return
  | some ip =>
    if ← .atomic (.nlinkUp ip) fun s => s.nlinkUp ip then
      match ← namex new with
      | none =>
        .atomic (.nlinkDown ip) fun s => .done () (s.nlinkDown ip)
        iput ip
      | some dp =>
        if ← .atomic (.dirlink ip) fun s => s.dirlink dp n ip full then
          iput dp
          iput ip
        else
          iput dp
          .atomic (.nlinkDown ip) fun s => .done () (s.nlinkDown ip)
          iput ip
    else iput ip

def sysUnlink (path : Path K) (n : ℕ) : FsProg N K Unit := do
  match ← namex path with
  | none => return
  | some dp =>
    let r ← .atomic (.unlink dp n) fun s => s.unlink dp n
    iput dp
    iputAny r

def sysChdir (path : Path K) (k : Fin K) : FsProg N K Unit := do
  match ← namex path with
  | none => return
  | some ip => iputAny (← .atomic (.swap k) fun s => s.swap k ip)

end FsProg

inductive Call (K : ℕ) where
  | sysOpen (path : Path K) (k : Fin K)
  | creat (path : Path K) (n fresh : ℕ) (full : Bool) (k : Fin K)
  | make (path : Path K) (n fresh : ℕ) (isDir full : Bool)
  | link (old new : Path K) (n : ℕ) (full : Bool)
  | unlink (path : Path K) (n : ℕ)
  | chdir (path : Path K) (k : Fin K)
  | exec (path : Path K)
  /-- `fileclose` of the last descriptor of a file, and the current directory in `exit`. -/
  | close (k : Fin K)
  | fork (k k' : Fin K)

def machine (N K : ℕ) : Machine (Sys N K) (Act K) (Fin N) where
  Call := Call K
  body p
    | .sysOpen path k => FsProg.op p do FsProg.keepAny k (← FsProg.namex path)
    | .creat path n fresh full k => FsProg.op p do
      FsProg.keepAny k (← FsProg.create path n fresh false full)
    | .make path n fresh isDir full => FsProg.op p do
      FsProg.iputAny (← FsProg.create path n fresh isDir full)
    | .link old new n full => FsProg.op p (FsProg.sysLink old new n full)
    | .unlink path n => FsProg.op p (FsProg.sysUnlink path n)
    | .chdir path k => FsProg.op p (FsProg.sysChdir path k)
    | .exec path => FsProg.op p do FsProg.iputAny (← FsProg.namex path)
    | .close k => FsProg.op p do FsProg.iputAny (← .atomic (.take k) fun s => s.take k)
    | .fork k k' => .atomic (.fork k') fun s => s.fork k k'
  ready _ _ _ := True

instance (N K : ℕ) (s : Sys N K) (p : Fin N) (x : (machine N K).Call) :
    Decidable ((machine N K).ready s p x) :=
  inferInstanceAs (Decidable True)

/-- A system that starts on a disk: nothing is open, and there is no transaction. -/
def Sys.boot (N K : ℕ) (d : Disk) : Sys N K := ⟨d, d, fun _ => 0, fun _ => none, fun _ => false⟩

end Xv6.Fs
