import Xv6Kernel.Log.BufferCache

/-!
# The image that `mkfs` writes

`mkfs/mkfs.c` on a little-endian host.  The image is a sequence of blocks; inodes are 64 bytes in
the inode blocks, with the fields of `struct dinode` at their offsets, and directory entries are 16
bytes.

A failed assertion ends it; the result of the model is then `none`.
-/

namespace Xv6.Mkfs

abbrev FSSIZE : ℕ := 2000

abbrev NINODES : ℕ := 200

abbrev IPB : ℕ := 16

abbrev BPB : ℕ := BSIZE * 8

abbrev DIRSIZ : ℕ := 14

abbrev ROOTINO : ℕ := 1

abbrev T_DIR : ℕ := 1

abbrev T_FILE : ℕ := 2

abbrev nbitmap : ℕ := FSSIZE / BPB + 1

abbrev ninodeblocks : ℕ := NINODES / IPB + 1

abbrev nlog : ℕ := LOGSIZE

/-- The number of blocks in front of the data blocks. -/
abbrev nmeta : ℕ := 2 + nlog + ninodeblocks + nbitmap

abbrev logstart : ℕ := 2

abbrev inodestart : ℕ := 2 + nlog

abbrev bmapstart : ℕ := 2 + nlog + ninodeblocks

/-- A `struct dinode`. -/
abbrev Dinode : Type := Bytes 64

def Dinode.size (din : Dinode) : ℕ := din.getLE 4 8

/-- The entry `k` of `addrs`. -/
def Dinode.addr (din : Dinode) (k : ℕ) : ℕ := din.getLE 4 (12 + 4 * k)

def Dinode.setSize (din : Dinode) (n : ℕ) : Dinode := din.setLE 4 8 n

/-- Set the entry `k` of `addrs`. -/
def Dinode.setAddr (din : Dinode) (k b : ℕ) : Dinode := din.setLE 4 (12 + 4 * k) b

abbrev Disk : Type := ℕ → Block

def wsect (d : Disk) (sec : ℕ) (b : Block) : Disk := Function.update d sec b

def iblock (inum : ℕ) : ℕ := inum / IPB + inodestart

def rinode (d : Disk) (inum : ℕ) : Dinode := (d (iblock inum)).slice 64 (inum % IPB * 64)

def winode (d : Disk) (inum : ℕ) (din : Dinode) : Disk :=
  wsect d (iblock inum) ((d (iblock inum)).paste (inum % IPB * 64) din)

structure Image where
  disk : Disk
  freeinode : ℕ
  freeblock : ℕ

def ialloc (s : Image) (type : ℕ) : ℕ × Image :=
  let din := (((Bytes.zero 64).setLE 2 0 type).setLE 2 6 1).setLE 4 8 0
  (s.freeinode, { s with freeinode := s.freeinode + 1, disk := winode s.disk s.freeinode din })

/-- What the loop of `iappend` works on: the blocks, the next free block and the inode. -/
structure Append where
  disk : Disk
  freeblock : ℕ
  din : Dinode

namespace Append

def direct (a : Append) (k : ℕ) : Append :=
  if a.din.addr k = 0 then
    { a with din := a.din.setAddr k a.freeblock, freeblock := a.freeblock + 1 }
  else a

def entry (a : Append) (k : ℕ) : ℕ := (a.disk (a.din.addr NDIRECT)).getLE 4 (4 * k)

def indirect (a : Append) (k : ℕ) : Append :=
  if a.entry k = 0 then
    { a with
      disk := wsect a.disk (a.din.addr NDIRECT)
        ((a.disk (a.din.addr NDIRECT)).setLE 4 (4 * k) a.freeblock)
      freeblock := a.freeblock + 1 }
  else a

/-- The block of the file with the index `fbn`, which is allocated if there is none. -/
def place (a : Append) (fbn : ℕ) : ℕ × Append :=
  if fbn < NDIRECT then
    let a := a.direct fbn
    (a.din.addr fbn, a)
  else
    let a := (a.direct NDIRECT).indirect (fbn - NDIRECT)
    (a.entry (fbn - NDIRECT), a)

/-- Copy bytes into the block `x`. -/
def copy (a : Append) (x off : ℕ) (p : List UInt8) : Append :=
  { a with disk := wsect a.disk x ((a.disk x).blit off p) }

/-- The loop of `iappend`; each round copies at least one byte. -/
def loop : ℕ → Append → ℕ → List UInt8 → Option (Append × ℕ)
  | 0, a, off, _ => some (a, off)
  | fuel + 1, a, off, p =>
    if p = [] then some (a, off)
    else
      let fbn := off / BSIZE
      if fbn < MAXFILE then
        let n1 := min p.length ((fbn + 1) * BSIZE - off)
        loop fuel ((a.place fbn).2.copy (a.place fbn).1 (off - fbn * BSIZE) (p.take n1))
          (off + n1) (p.drop n1)
      else none

end Append

def iappend (s : Image) (inum : ℕ) (p : List UInt8) : Option Image :=
  let din := rinode s.disk inum
  match Append.loop p.length ⟨s.disk, s.freeblock, din⟩ din.size p with
  | none => none
  | some (a, off) => some { s with
      disk := winode a.disk inum (a.din.setSize off)
      freeblock := a.freeblock }

/-- A `struct dirent`. -/
def dirent (inum : ℕ) (name : List UInt8) : List UInt8 :=
  [UInt8.ofNat inum, UInt8.ofNat (inum / 256)] ++
    (name.take DIRSIZ ++ List.replicate (DIRSIZ - name.length) 0)

/-- An input file: its name on the command line and the pieces that `read` returns. -/
structure Input where
  argv : List UInt8
  pieces : List (List UInt8)

/-- The character `/`. -/
abbrev slash : UInt8 := 47

/-- The character `_`. -/
abbrev underscore : UInt8 := 95

/-- The characters `user/`. -/
abbrev userSlash : List UInt8 := [117, 115, 101, 114, 47]

def stripUser (argv : List UInt8) : List UInt8 :=
  if argv.take 5 = userSlash then argv.drop 5 else argv

/-- The name without a leading `_`. -/
def stripUnderscore (name : List UInt8) : List UInt8 :=
  if name.head? = some underscore then name.tail else name

def Input.shortname (f : Input) : List UInt8 := stripUnderscore (stripUser f.argv)

def Input.contents (f : Input) : List UInt8 := f.pieces.flatten

def appendPieces (s : Image) (inum : ℕ) : List (List UInt8) → Option Image
  | [] => some s
  | p :: ps =>
    match iappend s inum p with
    | none => none
    | some s => appendPieces s inum ps

def addFile (s : Image) (f : Input) : Option Image :=
  if slash ∈ stripUser f.argv then none
  else if DIRSIZ < f.shortname.length then none
  else
    let x := ialloc s T_FILE
    match iappend x.2 ROOTINO (dirent x.1 f.shortname) with
    | none => none
    | some s => appendPieces s x.1 f.pieces

/-- The loop of `main`. -/
def addFiles (s : Image) : List Input → Option Image
  | [] => some s
  | f :: fs =>
    match addFile s f with
    | none => none
    | some s => addFiles s fs

def bitmap (used : ℕ) : Block :=
  (List.range used).foldl (fun b i => b.set (i / 8) (b.get (i / 8) ||| 1 <<< UInt8.ofNat (i % 8)))
    (Bytes.zero BSIZE)

def balloc (s : Image) : Option Image :=
  if s.freeblock < BPB then some { s with disk := wsect s.disk bmapstart (bitmap s.freeblock) }
  else none

/-- The superblock: the fields of `struct superblock` in their order. -/
def superblock : Block :=
  [0x10203040, FSSIZE, FSSIZE - nmeta, NINODES, nlog, logstart, inodestart, bmapstart].zipIdx.foldl
    (fun b x => b.setLE 4 (4 * x.2) x.1) (Bytes.zero BSIZE)

def blank : Image := ⟨wsect (fun _ => Bytes.zero _) 1 superblock, 1, nmeta⟩

def addDots (s : Image) (rootino : ℕ) : Option Image :=
  match iappend s rootino (dirent rootino [46]) with
  | none => none
  | some s => iappend s rootino (dirent rootino [46, 46])

def roundRoot (s : Image) (rootino : ℕ) : Image :=
  let din := rinode s.disk rootino
  { s with disk := winode s.disk rootino (din.setSize ((din.size / BSIZE + 1) * BSIZE)) }

def mkfs (fs : List Input) : Option Image :=
  let x := ialloc blank T_DIR
  if x.1 ≠ ROOTINO then none
  else
    match addDots x.2 x.1 with
    | none => none
    | some s =>
      match addFiles s fs with
      | none => none
      | some s => balloc (roundRoot s x.1)

def Image.Fits (s : Image) : Prop := s.freeinode ≤ NINODES ∧ s.freeblock ≤ FSSIZE

instance (s : Image) : Decidable s.Fits := inferInstanceAs (Decidable (_ ∧ _))

end Xv6.Mkfs
