import Xv6Kernel.Content.Model
import Xv6Kernel.Mkfs.Kernel

/-!
# Directories on the disk

The calls that change the directory tree, `sys_link`, `sys_unlink`, `sys_mkdir` and `sys_mknod`,
with the functions of `kernel/fs.c` under them, on the blocks of the disk and the table of inodes,
run by one process while nobody else runs.  The result is `none` where the kernel panics.
-/

namespace Xv6.Dirs

open Function
open Mkfs (DIRSIZ IPB BPB ROOTINO T_DIR Dinode slash)
open Mkfs.Kernel (strncmp)
open Content

/-- The inode that `ilock` reads. -/
def ofDinode (i : ℕ) (din : Dinode) : Inode where
  inum := i
  type := din.getLE 2 0
  major := din.getLE 2 2
  minor := din.getLE 2 4
  nlink := din.getLE 2 6
  size := din.getLE 4 8
  addrs k := din.getLE 4 (12 + 4 * k)

/-- An entry of the table of inodes. -/
structure Core where
  ref : ℕ
  valid : Bool
  ip : Inode

/-- The blocks, the table of inodes, and the current directory of the process. -/
structure Sys where
  fs : Fs
  core : ℕ → Option Core
  cwd : ℕ

namespace Sys

def set (s : Sys) (i : ℕ) (c : Option Core) : Sys :=
  { s with core := update s.core i c }

def put (s : Sys) (i : ℕ) (c : Core) (ip : Inode) (fs : Fs) : Sys :=
  { s with fs := fs, core := update s.core i (some { c with ip := ip }) }

/-- `iget`, with what an entry of the table contains that was not in use. -/
def iget (s : Sys) (i : ℕ) : Sys :=
  match s.core i with
  | some c => s.set i (some { c with ref := c.ref + 1 })
  | none => s.set i (some ⟨1, false, ofDinode i (Bytes.zero 64)⟩)

end Sys

variable (sb : Superblock)

def ilock (s : Sys) (i : ℕ) : Option (Core × Sys) :=
  match s.core i with
  | none => none
  | some c =>
    if c.valid then some (c, s)
    else
      let ip := ofDinode i (dinodeAt sb s.fs i)
      if ip.type = 0 then none
      else
        let c := { c with valid := true, ip := ip }
        some (c, s.set i (some c))

def cleared (fs : Fs) (b : ℕ) : Block :=
  (fs.data (sb.bblock b)).set (b % BPB / 8)
    ((fs.data (sb.bblock b)).get (b % BPB / 8) &&& ~~~(1 <<< UInt8.ofNat (b % BPB % 8)))

def bfree (fs : Fs) (b : ℕ) : Option Fs :=
  if isFree sb fs b then none
  else some (Content.logWrite (fs.put (sb.bblock b) (cleared sb fs b)) (sb.bblock b))

def itruncDirect : ℕ → Fs → Inode → Option (Inode × Fs)
  | 0, fs, ip => some (ip, fs)
  | k + 1, fs, ip =>
    let i := NDIRECT - (k + 1)
    if ip.addrs i = 0 then itruncDirect k fs ip
    else
      match bfree sb fs (ip.addrs i) with
      | none => none
      | some fs => itruncDirect k fs { ip with addrs := update ip.addrs i 0 }

/-- The second loop of `itrunc`, with `k` entries of the indirect block `ind` to go. -/
def itruncIndirect (ind : ℕ) : ℕ → Fs → Option Fs
  | 0, fs => some fs
  | k + 1, fs =>
    let a := (fs.data ind).getLE 4 (4 * (NINDIRECT - (k + 1)))
    if a = 0 then itruncIndirect ind k fs
    else
      match bfree sb fs a with
      | none => none
      | some fs => itruncIndirect ind k fs

def itrunc (fs : Fs) (ip : Inode) : Option (Inode × Fs) :=
  match itruncDirect sb NDIRECT fs ip with
  | none => none
  | some (ip, fs) =>
    let finish (ip : Inode) (fs : Fs) : Inode × Fs :=
      ({ ip with size := 0 }, iupdate sb fs { ip with size := 0 })
    if ip.addrs NDIRECT = 0 then some (finish ip fs)
    else
      match itruncIndirect sb (ip.addrs NDIRECT) NINDIRECT fs with
      | none => none
      | some fs =>
        match bfree sb fs (ip.addrs NDIRECT) with
        | none => none
        | some fs => some (finish { ip with addrs := update ip.addrs NDIRECT 0 } fs)

/-- `iput`, which frees an inode without links at its last reference. -/
def iput (s : Sys) (i : ℕ) : Option Sys :=
  match s.core i with
  | none => none
  | some c =>
    if c.ref = 1 ∧ c.valid = true ∧ c.ip.nlink = 0 then
      match itrunc sb s.fs c.ip with
      | none => none
      | some (ip, fs) => some { s.set i none with fs := iupdate sb fs { ip with type := 0 } }
    else some (s.set i (if c.ref = 1 then none else some { c with ref := c.ref - 1 }))

def ialloc (s : Sys) (type : ℕ) : Option ℕ × Sys :=
  match (List.range sb.ninodes).find? fun i =>
      decide (0 < i ∧ (ofDinode i (dinodeAt sb s.fs i)).type = 0) with
  | none => (none, s)
  | some i =>
    let bp := (s.fs.data (sb.iblock i)).paste (i % IPB * 64) ((Bytes.zero 64).setLE 2 0 type)
    let fs := Content.logWrite (s.fs.put (sb.iblock i) bp) (sb.iblock i)
    (some i, ({ s with fs := fs } : Sys).iget i)

structure Dirent where
  inum : ℕ
  name : List UInt8

def stack : Memory := ⟨fun _ => 0, fun _ => none, fun _ => false⟩

/-- `readi` of a `struct dirent`; anything but 16 bytes is a panic of the callers. -/
def readDirent (fs : Fs) (dp : Inode) (off : ℕ) : Option (Dirent × Inode × Fs) :=
  match readi sb fs dp stack false 0 (UInt32.ofNat off) 16 with
  | none => none
  | some (r, mem, dp, fs) =>
    if r = 16 then
      some (⟨(mem.kernel 0).toNat + 256 * (mem.kernel 1).toNat,
        (List.range DIRSIZ).map fun k => mem.kernel (2 + k)⟩, dp, fs)
    else none

/-- The bytes of a `struct dirent`. -/
def direntMem (de : Dirent) : Memory :=
  { stack with
    kernel := fun a => if a = 0 then UInt8.ofNat de.inum else if a = 1 then
      UInt8.ofNat (de.inum / 256) else de.name.getD (a - 2) 0 }

/-- `writei` of a `struct dirent`. -/
def writeDirent (fs : Fs) (dp : Inode) (off : ℕ) (de : Dirent) : Option (ℤ × Inode × Fs) :=
  writei sb fs dp (direntMem de) false 0 (UInt32.ofNat off) 16

def namecmp (s t : List UInt8) : ℤ := strncmp DIRSIZ s t

def dirlookupLoop (name : List UInt8) :
    ℕ → Fs → Inode → ℕ → Option (Option (ℕ × ℕ) × Inode × Fs)
  | 0, fs, dp, _ => some (none, dp, fs)
  | fuel + 1, fs, dp, off =>
    if off < dp.size then
      match readDirent sb fs dp off with
      | none => none
      | some (de, dp, fs) =>
        if de.inum = 0 then dirlookupLoop name fuel fs dp (off + 16)
        else if namecmp name de.name = 0 then some (some (de.inum, off), dp, fs)
        else dirlookupLoop name fuel fs dp (off + 16)
    else some (none, dp, fs)

/-- `dirlookup` in the inode `d` with the entry `c`: the inode and the offset. -/
def dirlookup (s : Sys) (d : ℕ) (c : Core) (name : List UInt8) : Option (Option (ℕ × ℕ) × Sys) :=
  if c.ip.type = T_DIR then
    match dirlookupLoop sb name (c.ip.size + 1) s.fs c.ip 0 with
    | none => none
    | some (none, dp, fs) => some (none, s.put d c dp fs)
    | some (some (i, off), dp, fs) => some (some (i, off), (s.put d c dp fs).iget i)
  else none

def dirlinkLoop : ℕ → Fs → Inode → ℕ → Option (ℕ × Inode × Fs)
  | 0, fs, dp, off => some (off, dp, fs)
  | fuel + 1, fs, dp, off =>
    if off < dp.size then
      match readDirent sb fs dp off with
      | none => none
      | some (de, dp, fs) =>
        if de.inum = 0 then some (off, dp, fs) else dirlinkLoop fuel fs dp (off + 16)
    else some (off, dp, fs)

/-- What `strncpy` copies of a name, apart from the zeros behind it. -/
def strncpy (name : List UInt8) : List UInt8 := (name.takeWhile (· ≠ 0)).take DIRSIZ

/-- `dirlink` in the inode `d` with the entry `c`: whether it succeeds, and the entry. -/
def dirlink (s : Sys) (d : ℕ) (c : Core) (name : List UInt8) (inum : ℕ) :
    Option (Bool × Core × Sys) :=
  match dirlookup sb s d c name with
  | none => none
  | some (some (i, _), s) => (iput sb s i).map fun s => (false, c, s)
  | some (none, s) =>
    match dirlinkLoop sb (c.ip.size + 1) s.fs c.ip 0 with
    | none => none
    | some (off, dp, fs) =>
      match writeDirent sb fs dp off ⟨inum, strncpy name⟩ with
      | none => none
      | some (r, dp, fs) => some (decide (r = 16), { c with ip := dp }, s.put d c dp fs)

/-- `skipelem`: what is left of the path, and the buffer `name`, in which a short element ends with a
zero byte and what follows it stays. -/
def skipelem (path name : List UInt8) : Option (List UInt8 × List UInt8) :=
  (Mkfs.Kernel.skipelem path).map fun (elem, rest) =>
    (rest, if elem.length ≥ DIRSIZ then elem else elem ++ 0 :: name.drop (elem.length + 1))

def namexLoop (nameiparent : Bool) :
    ℕ → Sys → ℕ → List UInt8 → List UInt8 → Option (Option ℕ × List UInt8 × Sys)
  | 0, _, _, _, _ => none
  | fuel + 1, s, i, path, name =>
    match skipelem path name with
    | none =>
      if nameiparent then (iput sb s i).map fun s => (none, name, s) else some (some i, name, s)
    | some (path, name) =>
      match ilock sb s i with
      | none => none
      | some (c, s) =>
        if c.ip.type ≠ T_DIR then (iput sb s i).map fun s => (none, name, s)
        else if nameiparent = true ∧ path = [] then some (some i, name, s)
        else
          match dirlookup sb s i c name with
          | none => none
          | some (none, s) => (iput sb s i).map fun s => (none, name, s)
          | some (some (next, _), s) =>
            match iput sb s i with
            | none => none
            | some s => namexLoop nameiparent fuel s next path name

def namex (s : Sys) (path : List UInt8) (nameiparent : Bool) (name : List UInt8) :
    Option (Option ℕ × List UInt8 × Sys) :=
  let start := if path.head? = some slash then ROOTINO else s.cwd
  namexLoop sb nameiparent (path.length + 1) (s.iget start) start path name

/-! ## System calls -/

def fail (s : Option Sys) : Option (ℤ × Sys) := s.map fun s => (-1, s)

/-- The label `bad` of `sys_link`. -/
def linkBad (s : Sys) (i : ℕ) : Option (ℤ × Sys) :=
  match ilock sb s i with
  | none => none
  | some (c, s) =>
    let ip := { c.ip with nlink := (c.ip.nlink + (2 ^ 16 - 1)) % 2 ^ 16 }
    fail (iput sb (s.put i c ip (iupdate sb s.fs ip)) i)

/-- The first half of `sys_link`: the inode of the old path, whose link count was raised; `buf` is
what is on the stack of `namei`. -/
def linkOld (s : Sys) (old buf : List UInt8) : Option (Option ℕ × Sys) :=
  match namex sb s old false buf with
  | none => none
  | some (none, _, s) => some (none, s)
  | some (some i, _, s) =>
    match ilock sb s i with
    | none => none
    | some (c, s) =>
      if c.ip.type = T_DIR then (iput sb s i).map fun s => (none, s)
      else
        let ip := { c.ip with nlink := (c.ip.nlink + 1) % 2 ^ 16 }
        some (some i, s.put i c ip (iupdate sb s.fs ip))

/-- The second half of `sys_link`: the entry for the inode `i`. -/
def linkNew (s : Sys) (i : ℕ) (new name : List UInt8) : Option (ℤ × Sys) :=
  match namex sb s new true name with
  | none => none
  | some (none, _, s) => linkBad sb s i
  | some (some d, name, s) =>
    match ilock sb s d with
    | none => none
    | some (cd, s) =>
      match dirlink sb s d cd name i with
      | none => none
      | some (ok, _, s) =>
        match iput sb s d with
        | none => none
        | some s => if ok then (iput sb s i).map fun s => (0, s) else linkBad sb s i

/-- `sys_link`; a path is `none` if `argstr` fails, and `buf` and `name` are what is on the
stack. -/
def sysLink (s : Sys) (old new : Option (List UInt8)) (buf name : List UInt8) :
    Option (ℤ × Sys) :=
  match old, new with
  | some old, some new =>
    match linkOld sb s old buf with
    | none => none
    | some (none, s) => some (-1, s)
    | some (some i, s) => linkNew sb s i new name
  | _, _ => some (-1, s)

def isdiremptyLoop : ℕ → Fs → Inode → ℕ → Option (Bool × Inode × Fs)
  | 0, fs, dp, _ => some (true, dp, fs)
  | fuel + 1, fs, dp, off =>
    if off < dp.size then
      match readDirent sb fs dp off with
      | none => none
      | some (de, dp, fs) =>
        if de.inum = 0 then isdiremptyLoop fuel fs dp (off + 16) else some (false, dp, fs)
    else some (true, dp, fs)

/-- The name is `.` or `..`. -/
def isDots (name : List UInt8) : Bool :=
  decide (namecmp name [46] = 0) || decide (namecmp name [46, 46] = 0)

/-- The end of `sys_unlink`, which clears the entry and drops the link. -/
def unlinkEntry (s : Sys) (d : ℕ) (cd : Core) (off i : ℕ) (c : Core) : Option (ℤ × Sys) :=
  match writeDirent sb s.fs cd.ip off ⟨0, []⟩ with
  | none => none
  | some (r, dp, fs) =>
    if r ≠ 16 then none
    else
      let dp' := if c.ip.type = T_DIR then { dp with nlink := (dp.nlink + (2 ^ 16 - 1)) % 2 ^ 16 }
        else dp
      let fs := if c.ip.type = T_DIR then iupdate sb fs dp' else fs
      match iput sb (s.put d cd dp' fs) d with
      | none => none
      | some s =>
        let ip := { c.ip with nlink := (c.ip.nlink + (2 ^ 16 - 1)) % 2 ^ 16 }
        (iput sb (s.put i c ip (iupdate sb s.fs ip)) i).map fun s => (0, s)

def sysUnlink (s : Sys) (path : Option (List UInt8)) (name : List UInt8) : Option (ℤ × Sys) :=
  match path with
  | none => some (-1, s)
  | some path =>
    match namex sb s path true name with
    | none => none
    | some (none, _, s) => some (-1, s)
    | some (some d, name, s) =>
      match ilock sb s d with
      | none => none
      | some (cd, s) =>
        if isDots name then fail (iput sb s d)
        else
          match dirlookup sb s d cd name with
          | none => none
          | some (none, s) => fail (iput sb s d)
          | some (some (i, off), s) =>
            match ilock sb s i with
            | none => none
            | some (c, s) =>
              if c.ip.nlink = 0 ∨ 2 ^ 15 ≤ c.ip.nlink then none
              else if c.ip.type = T_DIR then
                match isdiremptyLoop sb (c.ip.size + 1) s.fs c.ip 32 with
                | none => none
                | some (false, ip, fs) =>
                  match iput sb (s.put i c ip fs) i with
                  | none => none
                  | some s => fail (iput sb s d)
                | some (true, ip, fs) =>
                  unlinkEntry sb (s.put i c ip fs) d cd off i { c with ip := ip }
              else unlinkEntry sb s d cd off i c

/-- The end of `create` when it fails with the new inode `i` in the directory `d`. -/
def createFail (s : Sys) (i : ℕ) (c : Core) (d : ℕ) : Option (Option ℕ × Sys) :=
  let ip := { c.ip with nlink := 0 }
  match iput sb (s.put i c ip (iupdate sb s.fs ip)) i with
  | none => none
  | some s => (iput sb s d).map fun s => (none, s)

/-- The entries `.` and `..` of a new directory: whether there was room, and the entry. -/
def createDots (s : Sys) (i : ℕ) (c : Core) (d : ℕ) : Option (Bool × Core × Sys) :=
  match dirlink sb s i c [46] i with
  | none => none
  | some (false, c, s) => some (false, c, s)
  | some (true, c, s) => dirlink sb s i c [46, 46] d

/-- The end of `create`: the entry of the new inode `i` in the directory `d`. -/
def createEntry (s : Sys) (type i : ℕ) (c : Core) (d : ℕ) (cd : Core) (name : List UInt8) :
    Option (Option ℕ × Sys) :=
  match dirlink sb s d cd name i with
  | none => none
  | some (false, _, s) => createFail sb s i c d
  | some (true, cd, s) =>
    let dp := { cd.ip with nlink := (cd.ip.nlink + 1) % 2 ^ 16 }
    let s := if type = T_DIR then s.put d cd dp (iupdate sb s.fs dp) else s
    (iput sb s d).map fun s => (some i, s)

def create (s : Sys) (path : List UInt8) (type major minor : ℕ) (name : List UInt8) :
    Option (Option ℕ × Sys) :=
  match namex sb s path true name with
  | none => none
  | some (none, _, s) => some (none, s)
  | some (some d, name, s) =>
    match ilock sb s d with
    | none => none
    | some (cd, s) =>
      match dirlookup sb s d cd name with
      | none => none
      | some (some (i, _), s) =>
        match iput sb s d with
        | none => none
        | some s =>
          match ilock sb s i with
          | none => none
          | some (c, s) =>
            if type = 2 ∧ (c.ip.type = 2 ∨ c.ip.type = 3) then some (some i, s)
            else (iput sb s i).map fun s => (none, s)
      | some (none, s) =>
        match ialloc sb s type with
        | (none, s) => (iput sb s d).map fun s => (none, s)
        | (some i, s) =>
          match ilock sb s i with
          | none => none
          | some (c, s) =>
            let ip := { c.ip with major := major, minor := minor, nlink := 1 }
            let s := s.put i c ip (iupdate sb s.fs ip)
            let c := { c with ip := ip }
            if type = T_DIR then
              match createDots sb s i c d with
              | none => none
              | some (false, c, s) => createFail sb s i c d
              | some (true, c, s) => createEntry sb s type i c d cd name
            else createEntry sb s type i c d cd name

/-- `sys_mkdir` and `sys_mknod`, for the type of the new inode. -/
def sysCreate (s : Sys) (path : Option (List UInt8)) (type major minor : ℕ) (name : List UInt8) :
    Option (ℤ × Sys) :=
  match path with
  | none => some (-1, s)
  | some path =>
    match create sb s path type major minor name with
    | none => none
    | some (none, s) => some (-1, s)
    | some (some i, s) => (iput sb s i).map fun s => (0, s)

def sysMkdir (s : Sys) (path : Option (List UInt8)) (name : List UInt8) : Option (ℤ × Sys) :=
  sysCreate sb s path T_DIR 0 0 name

def sysMknod (s : Sys) (path : Option (List UInt8)) (major minor : ℕ) (name : List UInt8) :
    Option (ℤ × Sys) :=
  sysCreate sb s path 3 major minor name

end Xv6.Dirs
