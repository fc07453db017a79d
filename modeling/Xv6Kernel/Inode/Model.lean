import Xv6Kernel.Foundation.Ownership
import Xv6Kernel.Param

/-!
# References to inodes

The table of in-memory inodes of `kernel/fs.c`, with the system calls of `kernel/sysfile.c` and the
other places that take references to its entries: open files, the current directories of processes,
and the path names that are being resolved.
-/

namespace Xv6

open Function

namespace Itable

abbrev ROOTINO : ℕ := 1

/-- An entry of the table: `ip->inum` and `ip->ref`. -/
structure Inode where
  inum : ℕ
  ref : ℕ

structure File where
  ref : ℕ
  ip : Option (Fin NINODE)

/-- The tables, for processes `Fin N`. -/
structure Sys (N : ℕ) where
  inode : Fin NINODE → Inode
  file : Fin NFILE → File
  ofile : Fin N → Fin NOFILE → Option (Fin NFILE)
  cwd : Fin N → Option (Fin NINODE)
  busy : Fin N → Bool

inductive Act (N : ℕ) where
  | enter
  | leave
  | iget (inum : ℕ)
  | idup
  | iput (ip : Fin NINODE)
  | chdir (ip : Fin NINODE)
  | fdalloc (ip : Fin NINODE)
  /-- `fork` copies the descriptors and the current directory. -/
  | fork (q : Fin N)
  | argfd (fd : Fin NOFILE)
  | fileclose (f : Fin NFILE)
  | exit

namespace Sys

variable {N : ℕ}

def lookup (s : Sys N) (inum : ℕ) : Option (Fin NINODE) :=
  (List.finRange NINODE).find? fun e => decide (0 < (s.inode e).ref ∧ (s.inode e).inum = inum)

def empty (s : Sys N) : Option (Fin NINODE) :=
  (List.finRange NINODE).find? fun e => decide ((s.inode e).ref = 0)

def setRef (s : Sys N) (e : Fin NINODE) (ref : ℕ) : Sys N :=
  { s with inode := update s.inode e { s.inode e with ref := ref } }

def iget (s : Sys N) (inum : ℕ) : Outcome (Sys N) (Fin NINODE) :=
  match s.lookup inum with
  | some e => .done e (s.setRef e ((s.inode e).ref + 1))
  | none =>
    match s.empty with
    | some e => .done e { s with inode := update s.inode e ⟨inum, 1⟩ }
    | none => .panic "iget: no inodes"

def idup (s : Sys N) (p : Fin N) : Outcome (Sys N) (Fin NINODE) :=
  match s.cwd p with
  | some e => .done e (s.setRef e ((s.inode e).ref + 1))
  | none => .panic "kerneltrap"

/-- `iput(p->cwd)` and the new current directory in `sys_chdir`. -/
def chdir (s : Sys N) (p : Fin N) (ip : Fin NINODE) : Outcome (Sys N) Unit :=
  match s.cwd p with
  | some e => .done () { s.setRef e ((s.inode e).ref - 1) with
      cwd := update s.cwd p (some ip) }
  | none => .panic "kerneltrap"

/-- `filealloc` and `fdalloc` in `sys_open`; if one of them fails, nothing is changed. -/
def fdalloc (s : Sys N) (p : Fin N) (ip : Fin NINODE) : Outcome (Sys N) Bool :=
  match (List.finRange NFILE).find? (fun f => decide ((s.file f).ref = 0)),
      (List.finRange NOFILE).find? (fun fd => decide (s.ofile p fd = none)) with
  | some f, some fd => .done true { s with
      file := update s.file f ⟨1, some ip⟩
      ofile := update s.ofile p (update (s.ofile p) fd (some f)) }
  | _, _ => .done false s

/-- `fork` copies the descriptors and the current directory to the process `q`. -/
def fork (s : Sys N) (p q : Fin N) : Outcome (Sys N) Unit :=
  match s.cwd p, s.cwd q with
  | some e, none => .done () { s.setRef e ((s.inode e).ref + 1) with
      file := fun f =>
        { s.file f with ref := (s.file f).ref + ((List.finRange NOFILE).filter fun fd =>
          decide (s.ofile p fd = some f)).length }
      ofile := update s.ofile q (s.ofile p)
      cwd := update s.cwd q (some e) }
  | none, _ => .panic "kerneltrap"
  -- `allocproc` finds no process
  | some _, some _ => .done () s

/-- `argfd`, and `p->ofile[fd] = 0`. -/
def argfd (s : Sys N) (p : Fin N) (fd : Fin NOFILE) : Outcome (Sys N) (Option (Fin NFILE)) :=
  .done (s.ofile p fd) { s with
    ofile := update s.ofile p (update (s.ofile p) fd none) }

def fileclose (s : Sys N) (f : Fin NFILE) : Outcome (Sys N) (Option (Fin NINODE)) :=
  if (s.file f).ref < 1 then .panic "fileclose"
  else if 0 < (s.file f).ref - 1 then
    .done none { s with file := update s.file f ⟨(s.file f).ref - 1, (s.file f).ip⟩ }
  else .done (s.file f).ip { s with file := update s.file f ⟨0, none⟩ }

def exit (s : Sys N) (p : Fin N) : Outcome (Sys N) (Option (Fin NINODE)) :=
  .done (s.cwd p) { s with cwd := update s.cwd p none }

end Sys

abbrev IProg (N : ℕ) (α : Type) : Type 1 := Prog (Sys N) (Act N) α

/-- What the resolution of a path name meets: whether it starts at the root, and for every element
of the path the inode number that is found, or `none` if there is no such entry, or no directory to
look it up in. -/
structure Path where
  root : Bool
  elems : List (Option ℕ)

namespace IProg

variable {N : ℕ}

def iget (inum : ℕ) : IProg N (Fin NINODE) := .atomic (.iget inum) fun s => s.iget inum

def iput (ip : Fin NINODE) : IProg N Unit :=
  .atomic (.iput ip) fun s => .done () (s.setRef ip ((s.inode ip).ref - 1))

def namexLoop (parent : Bool) : List (Option ℕ) → Fin NINODE → IProg N (Option (Fin NINODE))
  | [], ip => do
    if parent then
      iput ip
      return none
    else return some ip
  | none :: _, ip => do
    iput ip
    return none
  | some inum :: path, ip => do
    if parent ∧ path = [] then return some ip
    else
      let next ← iget inum
      iput ip
      namexLoop parent path next

def namex (p : Fin N) (path : Path) (parent : Bool) : IProg N (Option (Fin NINODE)) := do
  let ip ← if path.root then iget ROOTINO else .atomic .idup fun s => s.idup p
  namexLoop parent path.elems ip

/-- `create`: the entry that is found in the directory, the inode that is allocated otherwise, and
whether the rest succeeds. -/
def create (p : Fin N) (path : Path) (found fresh : Option ℕ) (good : Bool) :
    IProg N (Option (Fin NINODE)) := do
  match ← namex p path true with
  | none => return none
  | some dp =>
    match found, fresh with
    | some inum, _ =>
      let ip ← iget inum
      iput dp
      if good then return some ip
      else
        iput ip
        return none
    | none, none =>
      iput dp
      return none
    | none, some inum =>
      let ip ← iget inum
      if good then
        iput dp
        return some ip
      else
        iput ip
        iput dp
        return none

/-- The end of `sys_open`: the checks of the type, and the allocation of a file. -/
def openFile (p : Fin N) (good : Bool) : Option (Fin NINODE) → IProg N Unit
  | none => return
  | some ip => do
    if good then
      if ← .atomic (.fdalloc ip) fun s => s.fdalloc p ip then return
      else iput ip
    else iput ip

def iputAny : Option (Fin NINODE) → IProg N Unit
  | none => return
  | some ip => iput ip

/-- `sys_link`: whether the first inode is a directory, and the entry that `dirlink` finds under the
new name. -/
def sysLink (p : Fin N) (old new : Path) (isDir : Bool) (hit : Option ℕ) : IProg N Unit := do
  match ← namex p old false with
  | none => return
  | some ip =>
    if isDir then iput ip
    else
      match ← namex p new true with
      | none => iput ip
      | some dp =>
        match hit with
        | none =>
          iput dp
          iput ip
        | some inum =>
          let other ← iget inum
          iput other
          iput dp
          iput ip

/-- `sys_unlink`: the entry that is found, and whether it is a directory with entries. -/
def sysUnlink (p : Fin N) (path : Path) (found : Option ℕ) (full : Bool) : IProg N Unit := do
  match ← namex p path true with
  | none => return
  | some dp =>
    match found with
    | none => iput dp
    | some inum =>
      let ip ← iget inum
      if full then
        iput ip
        iput dp
      else
        iput dp
        iput ip

def sysChdir (p : Fin N) (path : Path) (isDir : Bool) : IProg N Unit := do
  match ← namex p path false with
  | none => return
  | some ip =>
    if isDir then .atomic (.chdir ip) fun s => s.chdir p ip
    else iput ip

def fileclose (f : Fin NFILE) : IProg N Unit := do
  iputAny (← .atomic (.fileclose f) fun s => s.fileclose f)

def sysClose (p : Fin N) (fd : Fin NOFILE) : IProg N Unit := do
  match ← .atomic (.argfd fd) fun s => s.argfd p fd with
  | none => return
  | some f => fileclose f

def closeAll (p : Fin N) : List (Fin NOFILE) → IProg N Unit
  | [] => return
  | fd :: l => do
    sysClose p fd
    closeAll p l

def exit (p : Fin N) : IProg N Unit := do
  closeAll p (List.finRange NOFILE)
  iputAny (← .atomic .exit fun s => s.exit p)

end IProg

inductive Call (N : ℕ) where
  | sysOpen (path : Path) (good : Bool)
  | creat (path : Path) (found fresh : Option ℕ) (linked good : Bool)
  | mkdir (path : Path) (found fresh : Option ℕ) (linked : Bool)
  | link (old new : Path) (isDir : Bool) (hit : Option ℕ)
  | unlink (path : Path) (found : Option ℕ) (full : Bool)
  | chdir (path : Path) (isDir : Bool)
  /-- `exec`, which holds a reference to the program while it loads it. -/
  | exec (path : Path)
  | fork (q : Fin N)
  | close (fd : Fin NOFILE)
  | exit

def Call.body {N : ℕ} (p : Fin N) : Call N → IProg N Unit
  | .sysOpen path good => do IProg.openFile p good (← IProg.namex p path false)
  | .creat path found fresh linked good => do
    IProg.openFile p good (← IProg.create p path found fresh linked)
  | .mkdir path found fresh linked => do IProg.iputAny (← IProg.create p path found fresh linked)
  | .link old new isDir hit => IProg.sysLink p old new isDir hit
  | .unlink path found full => IProg.sysUnlink p path found full
  | .chdir path isDir => IProg.sysChdir p path isDir
  | .exec path => do IProg.iputAny (← IProg.namex p path false)
  | .fork q => .atomic (.fork q) fun s => s.fork p q
  | .close fd => IProg.sysClose p fd
  | .exit => IProg.exit p

def machine (N : ℕ) : Machine (Sys N) (Act N) (Fin N) where
  Call := Call N
  body p x := do
    .atomic .enter fun s => .done () { s with busy := update s.busy p true }
    x.body p
    .atomic .leave fun s => .done () { s with busy := update s.busy p false }
  ready s p _ := s.cwd p ≠ none

instance (N : ℕ) (s : Sys N) (p : Fin N) (x : (machine N).Call) :
    Decidable ((machine N).ready s p x) :=
  inferInstanceAs (Decidable (s.cwd p ≠ none))

/-- The tables after `userinit`: the first process is in the root directory. -/
def Sys.boot {N : ℕ} (p₀ : Fin N) : Sys N where
  inode := update (fun _ => ⟨0, 0⟩) 0 ⟨ROOTINO, 1⟩
  file _ := ⟨0, none⟩
  ofile _ _ := none
  cwd := update (fun _ => none) p₀ (some 0)
  busy _ := false

end Itable

end Xv6
