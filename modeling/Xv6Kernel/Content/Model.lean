import Xv6Kernel.Mkfs.Image
import Xv6Kernel.Memory.Layout

/-!
# The contents of a file

`balloc`, `bmap`, `readi` and `writei` of `kernel/fs.c` with the copies between a block and the
memory of a process, and the transaction that `filewrite` opens for one chunk.

The state holds for every block what `bread` yields: the buffer if the block is cached, its copy on
the disk otherwise.  `log.lh` holds the blocks of the running transaction; next to it the calls of
`log_write` are recorded one by one.
-/

namespace Xv6.Content

open Mkfs (IPB BPB Dinode)

/-! ## Blocks -/

/-- The fields of `struct superblock` that are read, with the order of the areas on the disk. -/
structure Superblock where
  size : ℕ
  /-- The number of data blocks, which are the last ones. -/
  nblocks : ℕ
  ninodes : ℕ
  inodestart : ℕ
  bmapstart : ℕ
  inodestart_pos : 0 < inodestart
  inodes_fit : inodestart + (ninodes / IPB + 1) ≤ bmapstart
  bitmap_fits : bmapstart + (size / BPB + 1) ≤ size - nblocks
  size_lt : size < 2 ^ 32

def Superblock.datastart (sb : Superblock) : ℕ := sb.size - sb.nblocks

def Superblock.bblock (sb : Superblock) (b : ℕ) : ℕ := b / BPB + sb.bmapstart

def Superblock.iblock (sb : Superblock) (i : ℕ) : ℕ := i / IPB + sb.inodestart

/-- What `bread` yields for each block, the header of the log, and the calls of `log_write`. -/
structure Fs where
  data : ℕ → Block
  lh : List ℕ
  calls : List ℕ

def Fs.put (fs : Fs) (b : ℕ) (bp : Block) : Fs := { fs with data := Function.update fs.data b bp }

/-- `log_write`, without its panics. -/
def logWrite (fs : Fs) (b : ℕ) : Fs :=
  { fs with lh := if b ∈ fs.lh then fs.lh else fs.lh ++ [b], calls := fs.calls ++ [b] }

def bzero (fs : Fs) (b : ℕ) : Fs := logWrite (fs.put b (Bytes.zero BSIZE)) b

def isFree (sb : Superblock) (fs : Fs) (b : ℕ) : Bool :=
  decide ((fs.data (sb.bblock b)).get (b % BPB / 8) &&& 1 <<< UInt8.ofNat (b % BPB % 8) = 0)

def marked (sb : Superblock) (fs : Fs) (b : ℕ) : Block :=
  (fs.data (sb.bblock b)).set (b % BPB / 8)
    ((fs.data (sb.bblock b)).get (b % BPB / 8) ||| 1 <<< UInt8.ofNat (b % BPB % 8))

/-- `balloc`. -/
def balloc (sb : Superblock) (fs : Fs) : ℕ × Fs :=
  match (List.range sb.size).find? (isFree sb fs) with
  | none => (0, fs)
  | some b => (b, bzero (logWrite (fs.put (sb.bblock b) (marked sb fs b)) (sb.bblock b)) b)

/-! ## Inodes -/

structure Inode where
  inum : ℕ
  type : ℕ
  major : ℕ
  minor : ℕ
  nlink : ℕ
  size : ℕ
  addrs : ℕ → ℕ

/-- The `struct dinode` of an inode. -/
def Inode.dinode (ip : Inode) : Dinode :=
  (List.range (NDIRECT + 1)).foldl (fun din k => din.setLE 4 (12 + 4 * k) (ip.addrs k))
    (((((Bytes.zero 64).setLE 2 0 ip.type).setLE 2 2 ip.major).setLE 2 4 ip.minor).setLE 2 6
      ip.nlink |>.setLE 4 8 ip.size)

/-- The `struct dinode` of an inode number in its block. -/
def dinodeAt (sb : Superblock) (fs : Fs) (i : ℕ) : Dinode :=
  (fs.data (sb.iblock i)).slice 64 (i % IPB * 64)

def iupdate (sb : Superblock) (fs : Fs) (ip : Inode) : Fs :=
  logWrite (fs.put (sb.iblock ip.inum)
    ((fs.data (sb.iblock ip.inum)).paste (ip.inum % IPB * 64) ip.dinode)) (sb.iblock ip.inum)

/-- The entry `i` of `addrs` in `bmap`, allocated if there is none; the address is zero if there is
no block for it. -/
def bmapAddr (sb : Superblock) (fs : Fs) (ip : Inode) (i : ℕ) : ℕ × Inode × Fs :=
  if ip.addrs i = 0 then
    let r := balloc sb fs
    if r.1 = 0 then (0, ip, r.2)
    else (r.1, { ip with addrs := Function.update ip.addrs i r.1 }, r.2)
  else (ip.addrs i, ip, fs)

/-- The entry `k` of the indirect block `ind` in `bmap`, allocated if there is none. -/
def bmapEntry (sb : Superblock) (fs : Fs) (ind k : ℕ) : ℕ × Fs :=
  let a := (fs.data ind).getLE 4 (4 * k)
  if a = 0 then
    let r := balloc sb fs
    if r.1 = 0 then r
    else (r.1, logWrite (r.2.put ind ((r.2.data ind).setLE 4 (4 * k) r.1)) ind)
  else (a, fs)

def bmap (sb : Superblock) (fs : Fs) (ip : Inode) (bn : ℕ) : Option (ℕ × Inode × Fs) :=
  if bn < NDIRECT then some (bmapAddr sb fs ip bn)
  else if bn - NDIRECT < NINDIRECT then
    let r := bmapAddr sb fs ip NDIRECT
    if r.1 = 0 then some r
    else
      let e := bmapEntry sb r.2.2 r.1 (bn - NDIRECT)
      some (e.1, r.2.1, e.2)
  else none

/-! ## Memory -/

/-- The memory of the kernel, and that of the process. -/
structure Memory where
  kernel : ℕ → UInt8
  /-- The pages that `walkaddr` finds in the page table of the process. -/
  page : ℕ → Option (ℕ → UInt8)
  writable : ℕ → Bool

/-- The loop of `copyin`, to the offset `o` of a block. -/
def copyin (mem : Memory) : ℕ → Block → ℕ → ℕ → ℕ → Block × Bool
  | 0, dst, _, _, _ => (dst, true)
  | fuel + 1, dst, o, srcva, len =>
    if 0 < len then
      match mem.page (srcva / PGSIZE) with
      | none => (dst, false)
      | some p =>
        let n := min (PGSIZE - srcva % PGSIZE) len
        copyin mem fuel (dst.copy o n fun i => p (srcva % PGSIZE + i)) (o + n) (srcva + n) (len - n)
    else (dst, true)

/-- `either_copyin`, to the offset `o` of a block; the result tells whether it succeeded. -/
def eitherCopyin (mem : Memory) (dst : Block) (o : ℕ) (userSrc : Bool) (src len : ℕ) :
    Block × Bool :=
  if userSrc then copyin mem len dst o src len
  else (dst.copy o len fun i => mem.kernel (src + i), true)

def Memory.setPage (mem : Memory) (vpn : ℕ) (p : ℕ → UInt8) (lo n : ℕ) (f : ℕ → UInt8) : Memory :=
  { mem with
    page := Function.update mem.page vpn
      (some fun x => if lo ≤ x ∧ x < lo + n then f (x - lo) else p x) }

def copyout (mem : Memory) : ℕ → ℕ → Block → ℕ → ℕ → Memory × Bool
  | 0, _, _, _, _ => (mem, true)
  | fuel + 1, dstva, src, o, len =>
    if 0 < len then
      match mem.page (dstva / PGSIZE), mem.writable (dstva / PGSIZE) with
      | some p, true =>
        let n := min (PGSIZE - dstva % PGSIZE) len
        copyout (mem.setPage (dstva / PGSIZE) p (dstva % PGSIZE) n fun i => src.get (o + i)) fuel
          (dstva + n) src (o + n) (len - n)
      | _, _ => (mem, false)
    else (mem, true)

def eitherCopyout (mem : Memory) (userDst : Bool) (dst : ℕ) (src : Block) (o len : ℕ) :
    Memory × Bool :=
  if userDst then copyout mem len dst src o len
  else
    ({ mem with
      kernel := fun a =>
        if dst ≤ a ∧ a < dst + len then src.get (o + (a - dst)) else mem.kernel a },
      true)

/-! ## Reading and writing -/

/-- The loop of `readi` with `tot` of `n` bytes copied; each round copies at least one byte. -/
def readLoop (sb : Superblock) (userDst : Bool) (n : ℕ) :
    ℕ → Fs → Inode → Memory → ℕ → ℕ → ℕ → Option (ℤ × Memory × Inode × Fs)
  | 0, fs, ip, mem, _, _, tot => some (tot, mem, ip, fs)
  | fuel + 1, fs, ip, mem, dst, off, tot =>
    if tot < n then
      match bmap sb fs ip (off / BSIZE) with
      | none => none
      | some (addr, ip, fs) =>
        if addr = 0 then some (tot, mem, ip, fs)
        else
          let m := min (n - tot) (BSIZE - off % BSIZE)
          let r := eitherCopyout mem userDst dst (fs.data addr) (off % BSIZE) m
          if r.2 then readLoop sb userDst n fuel fs ip r.1 (dst + m) (off + m) (tot + m)
          else some (-1, r.1, ip, fs)
    else some (tot, mem, ip, fs)

def readi (sb : Superblock) (fs : Fs) (ip : Inode) (mem : Memory) (userDst : Bool) (dst : ℕ)
    (off n : UInt32) : Option (ℤ × Memory × Inode × Fs) :=
  if ip.size < off.toNat ∨ off + n < off then some (0, mem, ip, fs)
  else
    let n := if ip.size < (off + n).toNat then ip.size - off.toNat else n.toNat
    readLoop sb userDst n n fs ip mem dst off.toNat 0

/-- How a round of the loop of `writei` ends. -/
inductive Round where
  | full (ip : Inode) (fs : Fs)
  | fault (ip : Inode) (fs : Fs)
  | wrote (m : ℕ) (ip : Inode) (fs : Fs)

def writeRound (sb : Superblock) (mem : Memory) (userSrc : Bool) (fs : Fs) (ip : Inode)
    (src off left : ℕ) : Option Round :=
  match bmap sb fs ip (off / BSIZE) with
  | none => none
  | some (addr, ip, fs) =>
    if addr = 0 then some (.full ip fs)
    else
      let m := min left (BSIZE - off % BSIZE)
      let r := eitherCopyin mem (fs.data addr) (off % BSIZE) userSrc src m
      if r.2 then some (.wrote m ip (logWrite (fs.put addr r.1) addr))
      else some (.fault ip (fs.put addr r.1))

/-- Why the loop of `writei` ended. -/
inductive Stop where
  | done
  | full
  | fault
  deriving DecidableEq

structure Written where
  tot : ℕ
  stop : Stop
  ip : Inode
  fs : Fs

def writeLoop (sb : Superblock) (mem : Memory) (userSrc : Bool) (n : ℕ) :
    ℕ → Fs → Inode → ℕ → ℕ → ℕ → Option Written
  | 0, fs, ip, _, _, tot => some ⟨tot, .done, ip, fs⟩
  | fuel + 1, fs, ip, src, off, tot =>
    if tot < n then
      match writeRound sb mem userSrc fs ip src off (n - tot) with
      | none => none
      | some (.full ip fs) => some ⟨tot, .full, ip, fs⟩
      | some (.fault ip fs) => some ⟨tot, .fault, ip, fs⟩
      | some (.wrote m ip fs) => writeLoop sb mem userSrc n fuel fs ip (src + m) (off + m) (tot + m)
    else some ⟨tot, .done, ip, fs⟩

/-- `writei` after its loop. -/
def writeEnd (sb : Superblock) (off : ℕ) (w : Written) : ℤ × Inode × Fs :=
  let ip := if w.ip.size < off + w.tot then { w.ip with size := off + w.tot } else w.ip
  (w.tot, ip, iupdate sb w.fs ip)

/-- The tests at the start of `writei`. -/
def Accepts (ip : Inode) (off n : UInt32) : Prop :=
  ¬(ip.size < off.toNat ∨ off + n < off) ∧ ¬MAXFILE * BSIZE < (off + n).toNat

instance (ip : Inode) (off n : UInt32) : Decidable (Accepts ip off n) :=
  inferInstanceAs (Decidable (_ ∧ _))

def writei (sb : Superblock) (fs : Fs) (ip : Inode) (mem : Memory) (userSrc : Bool) (src : ℕ)
    (off n : UInt32) : Option (ℤ × Inode × Fs) :=
  if Accepts ip off n then
    (writeLoop sb mem userSrc n.toNat n.toNat fs ip src off.toNat 0).map (writeEnd sb off.toNat)
  else some (-1, ip, fs)

/-- The number of bytes in a chunk of `filewrite`. -/
def chunkLen (n i : ℕ) : ℕ :=
  let n1 := n - i
  if ((MAXOPBLOCKS - 1 - 1 - 2) / 2) * BSIZE < n1 then ((MAXOPBLOCKS - 1 - 1 - 2) / 2) * BSIZE
  else n1

/-- The transaction of `filewrite` for the chunk after `i` of `n` bytes: the value of `writei`, the
offset of the file, the inode and the blocks. -/
def filewriteChunk (sb : Superblock) (fs : Fs) (ip : Inode) (mem : Memory) (addr : ℕ)
    (off : UInt32) (n i : ℕ) : Option (ℤ × UInt32 × Inode × Fs) :=
  (writei sb { fs with calls := [] } ip mem true (addr + i) off (UInt32.ofNat (chunkLen n i))).map
    fun (r, ip, fs) => (r, if 0 < r then off + UInt32.ofNat r.toNat else off, ip, fs)

end Xv6.Content
