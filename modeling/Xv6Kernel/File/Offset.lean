import Xv6Kernel.Foundation.Bytes
import Xv6Kernel.Param
import Xv6Kernel.Pipe.Model

/-!
# Processes that share an open file

`fileread` and `filewrite` on one `struct file` of type `FD_INODE`.  `filewrite` cuts its buffer
into chunks and writes each of them under the lock of the inode, in a transaction of its own;
between two chunks other processes may use the file.  The offset `f->off` is read and advanced under
the same lock, so that an `ilock` section is one action.

The loops of `readi` and `writei` go block by block.  A block may not be had, or the copy from or to
user memory may fail; a `Trouble` says in which iteration this happens.
-/

namespace Xv6

open Protocol Function

variable {n off : ℕ}

/-- What may go wrong in a loop over the blocks of a file. -/
inductive Trouble where
  | none
  | space (k : ℕ)
  /-- The copy fails in the iteration `k`, after `j` bytes. -/
  | fault (k j : ℕ)
  deriving DecidableEq

structure SharedFile where
  readable : Bool
  writable : Bool
  off : ℕ
  size : ℕ
  block : ℕ → Bytes BSIZE

namespace SharedFile

def byte (block : ℕ → Bytes BSIZE) (x : ℕ) : UInt8 := (block (x / BSIZE)).get (x % BSIZE)

/-- The copy of a part of the buffer into the block of the offset `off`. -/
def store (block : ℕ → Bytes BSIZE) (off : ℕ) (l : List UInt8) : ℕ → Bytes BSIZE :=
  Function.update block (off / BSIZE) ((block (off / BSIZE)).blit (off % BSIZE) l)

/-- The loop of `writei` from the iteration `k` on: `tot` bytes of the buffer are written and `off`
is the offset of the next one. -/
def writeLoop (t : Trouble) (src : List UInt8) :
    ℕ → ℕ → ℕ → ℕ → (ℕ → Bytes BSIZE) → ℕ × ℕ × (ℕ → Bytes BSIZE)
  | 0, _, tot, off, block => (tot, off, block)
  | fuel + 1, k, tot, off, block =>
    if tot < src.length then
      let m := min (src.length - tot) (BSIZE - off % BSIZE)
      let part := (src.drop tot).take m
      match t with
      | .none => writeLoop t src fuel (k + 1) (tot + m) (off + m) (store block off part)
      | .space k' =>
        if k' = k then (tot, off, block)
        else writeLoop t src fuel (k + 1) (tot + m) (off + m) (store block off part)
      | .fault k' j =>
        if k' = k then (tot, off, store block off (part.take j))
        else writeLoop t src fuel (k + 1) (tot + m) (off + m) (store block off part)
    else (tot, off, block)

def writei (s : SharedFile) (src : List UInt8) (t : Trouble) : ℤ × SharedFile :=
  if s.size < s.off ∨ u32 (s.off + src.length) < s.off then (-1, s)
  else if MAXFILE * BSIZE < u32 (s.off + src.length) then (-1, s)
  else
    let x := writeLoop t src src.length 0 0 s.off s.block
    (x.1, { s with size := if s.size < x.2.1 then x.2.1 else s.size, block := x.2.2 })

def readLoop (t : Trouble) (n : ℕ) : ℕ → ℕ → ℕ → ℕ → ℤ
  | 0, _, tot, _ => tot
  | fuel + 1, k, tot, off =>
    if tot < n then
      let m := min (n - tot) (BSIZE - off % BSIZE)
      match t with
      | .none => readLoop t n fuel (k + 1) (tot + m) (off + m)
      | .space k' => if k' = k then tot else readLoop t n fuel (k + 1) (tot + m) (off + m)
      | .fault k' _ => if k' = k then -1 else readLoop t n fuel (k + 1) (tot + m) (off + m)
    else tot

/-- The number of bytes that a read of `n` bytes at `off` asks for, in a file of the given size. -/
def readCount (off size n : ℕ) : ℕ :=
  if size < off ∨ u32 (off + n) < off then 0
  else if size < u32 (off + n) then size - off
  else n

def readi (s : SharedFile) (n : ℕ) (t : Trouble) : ℤ :=
  readLoop t (readCount s.off s.size n) (readCount s.off s.size n) 0 0 s.off

def writeChunk (s : SharedFile) (src : List UInt8) (t : Trouble) : ℤ × SharedFile :=
  let x := s.writei src t
  (x.1, if 0 < x.1 then { x.2 with off := u32 (x.2.off + x.1.toNat) } else x.2)

def read (s : SharedFile) (n : ℕ) (t : Trouble) : SharedFile :=
  if 0 < s.readi n t then { s with off := u32 (s.off + (s.readi n t).toNat) } else s

end SharedFile

inductive OffsetAct where
  | call (buf : List UInt8)
  | chunk (src : List UInt8) (t : Trouble)
  | ret (r : ℤ)
  | read (n : ℕ) (t : Trouble)
  | trunc
  deriving DecidableEq

abbrev OffsetProg : Type → Type 1 := Prog SharedFile OffsetAct

abbrev maxChunk : ℕ := ((MAXOPBLOCKS - 1 - 1 - 2) / 2) * BSIZE

/-- The loop of `filewrite` with `i` bytes written; it is entered at most once for each byte. -/
def filewriteLoop (buf : List UInt8) (env : ℕ → Trouble) : ℕ → ℕ → OffsetProg Unit
  | 0, i => .atomic (.ret (if i = buf.length then buf.length else -1)) fun s => .done () s
  | fuel + 1, i =>
    if i < buf.length then do
      let src := (buf.drop i).take maxChunk
      let r ← .atomic (.chunk src (env i)) fun s =>
        .done (s.writeChunk src (env i)).1 (s.writeChunk src (env i)).2
      if r = src.length then filewriteLoop buf env fuel (i + src.length)
      else .atomic (.ret (if i = buf.length then buf.length else -1)) fun s => .done () s
    else .atomic (.ret (if i = buf.length then buf.length else -1)) fun s => .done () s

def filewrite (buf : List UInt8) (env : ℕ → Trouble) : OffsetProg Unit := do
  if ← .atomic (.call buf) fun s => .done s.writable s then
    filewriteLoop buf env buf.length 0
  else .atomic (.ret (-1)) fun s => .done () s

def fileread (n : ℤ) (t : Trouble) : OffsetProg Unit :=
  -- the signed argument of `fileread` is an unsigned argument of `readi`
  let m := (n % 2 ^ 32).toNat
  .atomic (.read m t) fun s => .done () (if s.readable then s.read m t else s)

inductive OffsetCall where
  /-- `filewrite` of a buffer, with what goes wrong at each of its chunks. -/
  | write (buf : List UInt8) (env : ℕ → Trouble)
  | read (n : ℤ) (t : Trouble)
  | trunc

def offsetMachine (ι : Type) : Machine SharedFile OffsetAct ι where
  Call := OffsetCall
  body _ x := match x with
    | .write buf env => filewrite buf env
    | .read n t => fileread n t
    | .trunc => .atomic .trunc fun s =>
      .done () { s with size := 0, block := fun _ => Bytes.zero _ }
  ready _ _ _ := True

instance (ι : Type) (s : SharedFile) (p : ι) (x : (offsetMachine ι).Call) :
    Decidable ((offsetMachine ι).ready s p x) :=
  inferInstanceAs (Decidable True)

/-- No copy fails, there is enough space, the file is not truncated and stays within its largest
size. -/
def Untroubled {ι : Type} (s : SharedFile) (_ : ι) : OffsetAct → Prop
  | .call _ | .ret _ => True
  | .chunk src t => t = .none ∧ s.off + src.length ≤ MAXFILE * BSIZE
  | .read _ t => t = .none
  | .trunc => False

instance {ι : Type} (s : SharedFile) (p : ι) (l : OffsetAct) : Decidable (Untroubled s p l) := by
  cases l <;> unfold Untroubled <;> infer_instance

/-! ## The history -/

structure Transfer (ι : Type) where
  proc : ι
  pos : ℕ
  len : ℕ
  written : Option (List UInt8)

structure FileHist (ι : Type) where
  readable : Bool
  off : ℕ
  size : ℕ
  transfers : List (Transfer ι)
  /-- The buffer of the last call of `filewrite` by each process. -/
  buffer : ι → List UInt8
  chunks : ι → List (List UInt8)

namespace FileHist

variable {ι : Type} [DecidableEq ι]

def count (η : FileHist ι) (n : ℕ) : ℕ :=
  if η.readable then SharedFile.readCount η.off η.size n else 0

def upd (η : FileHist ι) (p : ι) : OffsetAct → FileHist ι
  | .call buf => { η with
      buffer := Function.update η.buffer p buf
      chunks := Function.update η.chunks p [] }
  | .chunk src _ => { η with
      off := η.off + src.length
      size := max η.size (η.off + src.length)
      transfers := η.transfers ++ [⟨p, η.off, src.length, some src⟩]
      chunks := Function.update η.chunks p (η.chunks p ++ [src]) }
  | .ret _ => η
  | .read n _ => { η with
      off := η.off + η.count n
      transfers := η.transfers ++ [⟨p, η.off, η.count n, none⟩] }
  | .trunc => { η with size := 0 }

def init (s : SharedFile) : FileHist ι := ⟨s.readable, s.off, s.size, [], fun _ => [], fun _ => []⟩

def run (s : SharedFile) (tr : List (ι × OffsetAct)) : FileHist ι :=
  tr.foldl (fun η e => η.upd e.1 e.2) (init s)

def total (η : FileHist ι) : ℕ := (η.transfers.map Transfer.len).sum

def writes (η : FileHist ι) (p : ι) : List (List UInt8) :=
  η.transfers.filterMap fun t => if t.proc = p then t.written else none

end FileHist

/-! ## The loops -/

namespace SharedFile

lemma byte_store (block : ℕ → Bytes BSIZE) {l : List UInt8} (h : off % BSIZE + l.length ≤ BSIZE)
    (x : ℕ) :
    byte (store block off l) x =
      if off ≤ x ∧ x < off + l.length then l.getD (x - off) 0 else byte block x := by
  have h : off % 1024 + l.length ≤ 1024 := h
  unfold byte store
  by_cases hx : x / BSIZE = off / BSIZE
  · have hx' : x / 1024 = off / 1024 := hx
    rw [hx, update_self, Bytes.get_blit _ h]
    have hiff : (off % BSIZE ≤ x % BSIZE ∧ x % BSIZE < off % BSIZE + l.length) ↔
        (off ≤ x ∧ x < off + l.length) := by
      change (off % 1024 ≤ x % 1024 ∧ x % 1024 < off % 1024 + l.length) ↔ _
      omega
    by_cases hin : off ≤ x ∧ x < off + l.length
    · rw [if_pos hin, if_pos (hiff.mpr hin)]
      have hsub : x % 1024 - off % 1024 = x - off := by omega
      rw [show x % BSIZE - off % BSIZE = x - off from hsub]
    · rw [if_neg hin, if_neg fun hc => hin (hiff.mp hc)]
  · have hx' : x / 1024 ≠ off / 1024 := hx
    rw [update_of_ne hx, if_neg (by omega)]

lemma writeLoop_none (src : List UInt8) (fuel k tot off : ℕ) (block : ℕ → Bytes BSIZE)
    (htot : tot ≤ src.length) (hfuel : src.length - tot ≤ fuel) :
    ∃ block', writeLoop .none src fuel k tot off block =
        (src.length, off + (src.length - tot), block') ∧
      ∀ x, byte block' x = if off ≤ x ∧ x < off + (src.length - tot)
        then src.getD (tot + (x - off)) 0 else byte block x := by
  induction fuel generalizing k tot off block with
  | zero =>
    obtain rfl : tot = src.length := by omega
    refine ⟨block, by simp [writeLoop], fun x => ?_⟩
    rw [if_neg (by omega)]
  | succ fuel ih =>
    by_cases hlt : tot < src.length
    · have hmod : off % 1024 < 1024 := Nat.mod_lt _ (by decide)
      obtain ⟨m, hm⟩ : ∃ m, m = min (src.length - tot) (BSIZE - off % BSIZE) := ⟨_, rfl⟩
      have hm' : m = min (src.length - tot) (1024 - off % 1024) := hm
      have hlen : ((src.drop tot).take m).length = m := by
        rw [List.length_take, List.length_drop]
        omega
      obtain ⟨block', hloop, hbyte⟩ := ih (k + 1) (tot + m) (off + m)
        (store block off ((src.drop tot).take m)) (by omega) (by omega)
      refine ⟨block', ?_, fun x => ?_⟩
      · rw [writeLoop, if_pos hlt]
        simp only [← hm]
        rw [hloop, show off + m + (src.length - (tot + m)) = off + (src.length - tot) by omega]
      · rw [hbyte x, byte_store _ (by rw [hlen]; change off % 1024 + m ≤ 1024; omega), hlen]
        by_cases hx1 : off + m ≤ x ∧ x < off + m + (src.length - (tot + m))
        · rw [if_pos hx1, if_pos (by omega),
            show tot + m + (x - (off + m)) = tot + (x - off) by omega]
        rw [if_neg hx1]
        by_cases hx2 : off ≤ x ∧ x < off + m
        · rw [if_pos hx2, if_pos (by omega), List.getD_eq_getElem?_getD,
            List.getElem?_take_of_lt (by omega), List.getElem?_drop,
            ← List.getD_eq_getElem?_getD]
        · rw [if_neg hx2, if_neg (by omega)]
    · obtain rfl : tot = src.length := by omega
      refine ⟨block, by simp [writeLoop], fun x => ?_⟩
      rw [if_neg (by omega)]

lemma readLoop_none (n fuel k tot off : ℕ) (htot : tot ≤ n) (hfuel : n - tot ≤ fuel) :
    readLoop .none n fuel k tot off = n := by
  induction fuel generalizing k tot off with
  | zero =>
    obtain rfl : tot = n := by omega
    rfl
  | succ fuel ih =>
    rw [readLoop]
    split
    · have hmod : off % 1024 < 1024 := Nat.mod_lt _ (by decide)
      have hm : 1 ≤ min (n - tot) (BSIZE - off % BSIZE) := by
        change 1 ≤ min (n - tot) (1024 - off % 1024)
        omega
      exact ih (k + 1) _ _ (by omega) (by omega)
    · obtain rfl : tot = n := by omega
      rfl

lemma writeChunk_none (s : SharedFile) (src : List UInt8) (hoff : s.off ≤ s.size)
    (hmax : s.off + src.length ≤ MAXFILE * BSIZE) :
    ∃ block', s.writeChunk src .none = ((src.length : ℤ), { s with
        off := s.off + src.length, size := max s.size (s.off + src.length), block := block' }) ∧
      ∀ x, byte block' x = if s.off ≤ x ∧ x < s.off + src.length
        then src.getD (x - s.off) 0 else byte s.block x := by
  have hmax' : s.off + src.length ≤ 268 * 1024 := hmax
  have hu : u32 (s.off + src.length) = s.off + src.length := Nat.mod_eq_of_lt (by omega)
  obtain ⟨block', hloop, hbyte⟩ :=
    writeLoop_none src src.length 0 0 s.off s.block (Nat.zero_le _) (by omega)
  refine ⟨block', ?_, fun x => by simpa using hbyte x⟩
  rw [Nat.sub_zero] at hloop
  have hsize : (if s.size < s.off + src.length then s.off + src.length else s.size) =
      max s.size (s.off + src.length) := by
    split <;> omega
  simp only [writeChunk, writei, hu, hloop]
  rw [if_neg (by omega), if_neg (by omega), hsize]
  by_cases hpos : 0 < src.length
  · simp [hpos, hu]
  · obtain hz : src.length = 0 := by omega
    simp [hz]

lemma readCount_le {size : ℕ} (hoff : off ≤ size) (hsize : size ≤ MAXFILE * BSIZE)
    (hn : n < 2 ^ 32) : off + readCount off size n ≤ size := by
  have hsize' : size ≤ 268 * 1024 := hsize
  unfold readCount u32
  split
  · omega
  · split <;> omega

lemma read_none (s : SharedFile) (hoff : s.off ≤ s.size) (hsize : s.size ≤ MAXFILE * BSIZE)
    (hn : n < 2 ^ 32) :
    s.read n .none = { s with off := s.off + readCount s.off s.size n } := by
  have hle := readCount_le hoff hsize hn
  have hsize' : s.size ≤ 268 * 1024 := hsize
  have hu : u32 (s.off + readCount s.off s.size n) = s.off + readCount s.off s.size n :=
    Nat.mod_eq_of_lt (by omega)
  have hr : s.readi n .none = readCount s.off s.size n :=
    readLoop_none _ _ _ _ _ (Nat.zero_le _) (by omega)
  unfold read
  rw [hr]
  by_cases hpos : 0 < readCount s.off s.size n
  · simp [hpos, hu]
  · obtain hz : readCount s.off s.size n = 0 := by omega
    simp [hz]

end SharedFile

/-! ## The invariant -/

inductive OffsetGhost where
  | idle
  | writing (buf : List UInt8) (i : ℕ)
  | refused

variable {ι : Type} [DecidableEq ι]

/-- The transfers of a run that began with the file `s₀`: each begins where the one before it has
ended, and what was written stays. -/
structure Sharing (s₀ : SharedFile) (η : FileHist ι) (s : SharedFile) : Prop where
  off : s.off = s₀.off + η.total
  pos : ∀ l t r, η.transfers = l ++ t :: r → t.pos = s₀.off + (l.map Transfer.len).sum
  disjoint : η.transfers.Pairwise fun t u => t.pos + t.len ≤ u.pos
  kept : ∀ t ∈ η.transfers, ∀ src, t.written = some src → t.len = src.length ∧
    src.length ≤ 3 * BSIZE ∧
      ∀ i, i < src.length → SharedFile.byte s.block (t.pos + i) = src.getD i 0
  /-- The chunks of the current call of a process are the last ones it has written. -/
  order : ∀ p, η.chunks p <:+ η.writes p

structure OffsetInv (s₀ s : SharedFile) (η : FileHist ι) (γ : ι → OffsetGhost) : Prop where
  readable : s.readable = η.readable
  offset : s.off = η.off
  size : s.size = η.size
  le : s.off ≤ s.size
  max : s.size ≤ MAXFILE * BSIZE
  sharing : Sharing s₀ η s
  ends : ∀ t ∈ η.transfers, t.pos + t.len ≤ η.off
  chunks : ∀ p buf i, γ p = .writing buf i → η.buffer p = buf ∧ (η.chunks p).flatten = buf.take i
  refused : ∀ p, γ p = .refused → s.writable = false

def OffsetGuar (s : SharedFile) (η : FileHist ι) (p : ι) (l : OffsetAct) (s' : SharedFile) : Prop :=
  match l with
  | .chunk src _ => src.length ≤ 3 * BSIZE ∧ s'.off = s.off + src.length
  | .read n _ => s'.off = s.off + η.count n
  | .ret r => s.writable = true →
      r = (η.buffer p).length ∧ (η.chunks p).flatten = η.buffer p
  | _ => True

def offsetProtocol (ι : Type) [DecidableEq ι] (s₀ : SharedFile) :
    Protocol SharedFile OffsetAct ι OffsetGhost (FileHist ι) where
  inv := OffsetInv s₀
  upd η p l := η.upd p l
  ok := Untroubled
  guar := OffsetGuar
  view _ _ := True
  rest _ := True
  tol _ := False
  idle := .idle
  fin g := g = .idle

lemma Sharing.append {s₀ s s' : SharedFile} {η η' : FileHist ι} (h : Sharing s₀ η s)
    {t : Transfer ι} (hη : η'.transfers = η.transfers ++ [t]) (hpos : t.pos = s.off)
    (hoff : s'.off = s.off + t.len) (hends : ∀ u ∈ η.transfers, u.pos + u.len ≤ s.off)
    (hbyte : ∀ x, x < s.off → SharedFile.byte s'.block x = SharedFile.byte s.block x)
    (hnew : ∀ src, t.written = some src → t.len = src.length ∧ src.length ≤ 3 * BSIZE ∧
      ∀ i, i < src.length → SharedFile.byte s'.block (t.pos + i) = src.getD i 0)
    (horder : ∀ p, η'.chunks p <:+ η'.writes p) : Sharing s₀ η' s' := by
  refine ⟨?_, fun l u r hu => ?_, ?_, fun u hu src hsrc => ?_, horder⟩
  · rw [hoff, h.off, FileHist.total, FileHist.total, hη]
    simp [Nat.add_assoc]
  · rw [hη] at hu
    -- the transfer is the new one, or it was there before
    rcases List.eq_nil_or_concat r with rfl | ⟨r', v, rfl⟩
    · obtain ⟨hl, hut⟩ := List.append_inj' hu rfl
      obtain rfl : t = u := by simpa using hut
      rw [hpos, h.off, FileHist.total, hl]
    refine h.pos l u r' ?_
    have hcat : η.transfers ++ [t] = (l ++ u :: r') ++ [v] := by
      rw [hu]
      simp
    exact (List.append_inj' hcat rfl).1
  · rw [hη, List.pairwise_append]
    refine ⟨h.disjoint, List.pairwise_singleton _ _, fun u hu v hv => ?_⟩
    obtain rfl : v = t := by simpa using hv
    rw [hpos]
    exact hends u hu
  · rw [hη, List.mem_append, List.mem_singleton] at hu
    rcases hu with hu | rfl
    · obtain ⟨hlen, hle, hb⟩ := h.kept u hu src hsrc
      refine ⟨hlen, hle, fun i hi => ?_⟩
      have hend := hends u hu
      rw [hbyte _ (by omega)]
      exact hb i hi
    · exact hnew src hsrc

namespace OffsetInv

variable {s₀ s : SharedFile} {η : FileHist ι} {γ : ι → OffsetGhost} {p : ι}

section

variable (h : OffsetInv s₀ s η γ)
include h

lemma call (buf : List UInt8) (hg : γ p = .idle) :
    OffsetInv s₀ s (η.upd p (.call buf))
      (update γ p (if s.writable then .writing buf 0 else .refused)) := by
  refine ⟨h.readable, h.offset, h.size, h.le, h.max,
    ⟨h.sharing.off, h.sharing.pos, h.sharing.disjoint, h.sharing.kept, fun q => ?_⟩, h.ends,
    fun q buf' i hq => ?_, fun q hq => ?_⟩
  · by_cases hqp : q = p
    · subst hqp
      simp [FileHist.upd]
    · simpa [FileHist.upd, hqp, FileHist.writes] using h.sharing.order q
  · by_cases hqp : q = p
    · subst hqp
      rw [update_self] at hq
      split at hq
      · cases hq
        simp [FileHist.upd]
      · cases hq
    · rw [update_of_ne hqp] at hq
      simpa [FileHist.upd, hqp] using h.chunks q buf' i hq
  · by_cases hqp : q = p
    · subst hqp
      rw [update_self] at hq
      split at hq
      · cases hq
      · rename_i hw
        simpa using hw
    · rw [update_of_ne hqp] at hq
      exact h.refused q hq

lemma ret : OffsetInv s₀ s η (update γ p .idle) := by
  refine ⟨h.readable, h.offset, h.size, h.le, h.max, h.sharing, h.ends, fun q buf i hq => ?_,
    fun q hq => ?_⟩
  · by_cases hqp : q = p
    · subst hqp
      rw [update_self] at hq
      cases hq
    · rw [update_of_ne hqp] at hq
      exact h.chunks q buf i hq
  · by_cases hqp : q = p
    · subst hqp
      rw [update_self] at hq
      cases hq
    · rw [update_of_ne hqp] at hq
      exact h.refused q hq

lemma chunk {buf : List UInt8} {i : ℕ} {src : List UInt8} {t : Trouble}
    (hg : γ p = .writing buf i) (hsrc : src = (buf.drop i).take maxChunk)
    (hmax : s.off + src.length ≤ MAXFILE * BSIZE) {block' : ℕ → Bytes BSIZE}
    (hbyte : ∀ x, SharedFile.byte block' x = if s.off ≤ x ∧ x < s.off + src.length
      then src.getD (x - s.off) 0 else SharedFile.byte s.block x) :
    OffsetInv s₀ { s with
        off := s.off + src.length, size := Max.max s.size (s.off + src.length), block := block' }
      (η.upd p (.chunk src t)) (update γ p (.writing buf (i + src.length))) := by
  have hlen : src.length ≤ 3 * BSIZE := by
    rw [hsrc, List.length_take]
    exact Nat.min_le_left _ _
  have hends : ∀ u ∈ η.transfers, u.pos + u.len ≤ s.off := by
    rw [h.offset]
    exact h.ends
  have hle := h.max
  have hle' : s.size ≤ 268 * 1024 := hle
  have hmax' : s.off + src.length ≤ 268 * 1024 := hmax
  refine ⟨h.readable, ?_, ?_, ?_, ?_, ?_, fun u hu => ?_, fun q buf' j hq => ?_, fun q hq => ?_⟩
  · simp [FileHist.upd, h.offset]
  · simp [FileHist.upd, h.offset, h.size]
  · exact Nat.le_max_right _ _
  · change Max.max s.size (s.off + src.length) ≤ 268 * 1024
    omega
  · refine h.sharing.append (t := ⟨p, η.off, src.length, some src⟩) rfl h.offset.symm rfl hends
      (fun x hx => ?_) (fun src' hs => ?_) (fun q => ?_)
    · rw [hbyte x, if_neg (by omega)]
    · obtain rfl : src = src' := by simpa using hs
      refine ⟨rfl, hlen, fun j hj => ?_⟩
      change SharedFile.byte block' (η.off + j) = _
      rw [← h.offset, hbyte, if_pos (by omega), Nat.add_sub_cancel_left]
    · by_cases hqp : q = p
      · subst hqp
        obtain ⟨w, hw⟩ := h.sharing.order q
        refine ⟨w, ?_⟩
        simp only [FileHist.upd, update_self, FileHist.writes,
          List.filterMap_append] at hw ⊢
        rw [← List.append_assoc, hw]
        simp
      · have hsuf := h.sharing.order q
        simpa [FileHist.upd, hqp, Ne.symm hqp, FileHist.writes] using hsuf
  · change u.pos + u.len ≤ η.off + src.length
    simp only [FileHist.upd, List.mem_append, List.mem_singleton] at hu
    rcases hu with hu | rfl
    · have := h.ends u hu
      omega
    · exact le_rfl
  · by_cases hqp : q = p
    · subst hqp
      rw [update_self] at hq
      cases hq
      obtain ⟨hbuf, hch⟩ := h.chunks q buf i hg
      refine ⟨hbuf, ?_⟩
      have htake : src = (buf.drop i).take src.length := by
        rw [hsrc, List.length_take, ← List.take_eq_take_min]
      simp only [FileHist.upd, update_self, List.flatten_append, List.flatten_cons,
        List.flatten_nil, List.append_nil, hch]
      rw [List.take_add, ← htake]
    · rw [update_of_ne hqp] at hq
      simpa [FileHist.upd, hqp] using h.chunks q buf' j hq
  · by_cases hqp : q = p
    · subst hqp
      rw [update_self] at hq
      cases hq
    · rw [update_of_ne hqp] at hq
      exact h.refused q hq

lemma read {t : Trouble} (hn : n < 2 ^ 32) :
    OffsetInv s₀ { s with off := s.off + η.count n } (η.upd p (.read n t)) γ := by
  have hcount : s.off + η.count n ≤ s.size := by
    unfold FileHist.count
    split
    · rw [← h.offset, ← h.size]
      exact SharedFile.readCount_le h.le h.max hn
    · exact h.le
  refine ⟨h.readable, ?_, h.size, hcount, h.max, ?_, fun u hu => ?_, h.chunks, h.refused⟩
  · simp [FileHist.upd, h.offset]
  · refine h.sharing.append (t := ⟨p, η.off, η.count n, none⟩) rfl h.offset.symm rfl ?_
      (fun x _ => rfl) (fun src hs => by cases hs) (fun q => ?_)
    · rw [h.offset]
      exact h.ends
    · simpa [FileHist.upd, FileHist.writes] using h.sharing.order q
  · change u.pos + u.len ≤ η.off + η.count n
    simp only [FileHist.upd, List.mem_append, List.mem_singleton] at hu
    rcases hu with hu | rfl
    · have := h.ends u hu
      omega
    · exact le_rfl

end

end OffsetInv

variable {s₀ : SharedFile} {p : ι}

lemma safe_ret_whole (buf : List UInt8) :
    (offsetProtocol ι s₀).Safe p (fun _ g => g = .idle)
      (.atomic (.ret (if buf.length = buf.length then buf.length else -1)) fun s => .done () s)
      (.writing buf buf.length) := by
  refine safe_update trivial fun s η γ hinv hg _ => ?_
  refine ⟨fun _ => ?_, .idle, OffsetInv.ret hinv, rfl⟩
  obtain ⟨hbuf, hch⟩ := OffsetInv.chunks hinv p buf _ hg
  rw [List.take_length] at hch
  rw [if_pos rfl, hbuf]
  exact ⟨rfl, hch⟩

lemma safe_filewriteLoop (buf : List UInt8) (env : ℕ → Trouble) (fuel i : ℕ)
    (hi : i ≤ buf.length) (hfuel : buf.length ≤ i + fuel) :
    (offsetProtocol ι s₀).Safe p (fun _ g => g = .idle) (filewriteLoop buf env fuel i)
      (.writing buf i) := by
  induction fuel generalizing i with
  | zero =>
    obtain rfl : i = buf.length := by omega
    exact safe_ret_whole buf
  | succ fuel ih =>
    by_cases hlt : i < buf.length
    · obtain ⟨src, hsrc⟩ : ∃ src, src = (buf.drop i).take maxChunk := ⟨_, rfl⟩
      have hlen : src.length = min maxChunk (buf.length - i) := by
        rw [hsrc, List.length_take, List.length_drop]
      have hchunk : maxChunk = 3072 := rfl
      rw [filewriteLoop, if_pos hlt]
      simp only [← hsrc]
      refine Safe.bind (safe_atomic trivial (fun s η γ msg _ _ _ hf => by cases hf)
        fun s η γ b s' hinv hg hok hf => ?_)
      obtain ⟨ht, hmax⟩ := hok
      obtain ⟨block', hw, hbyte⟩ := s.writeChunk_none src (OffsetInv.le hinv) hmax
      rw [ht, hw] at hf
      cases hf
      refine ⟨⟨?_, rfl⟩, _, OffsetInv.chunk (t := env i) hinv hg hsrc hmax hbyte, ?_⟩
      · rw [hlen]
        exact Nat.min_le_left _ _
      · rw [if_pos rfl]
        exact ih (i + src.length) (by omega) (by omega)
    · obtain rfl : i = buf.length := by omega
      rw [filewriteLoop, if_neg hlt]
      exact safe_ret_whole buf

lemma offsetMachine_verified : (offsetProtocol ι s₀).Verified (offsetMachine ι) where
  start s η γ p x hinv hg _ := by
    refine ⟨.idle, ?_, ?_⟩
    · rw [show OffsetGhost.idle = γ p from hg.symm, update_eq_self]
      exact hinv
    cases x with
    | write buf env =>
      refine Safe.bind (safe_update trivial fun s η γ hinv hg _ => ?_)
      refine ⟨trivial, _, OffsetInv.call hinv buf hg, ?_⟩
      by_cases hw : s.writable = true
      · rw [if_pos hw, if_pos hw]
        exact safe_filewriteLoop buf env buf.length 0 (Nat.zero_le _) (by omega)
      rw [if_neg hw, if_neg hw]
      refine safe_update trivial fun s η γ hinv hg _ => ?_
      refine ⟨fun hwr => ?_, .idle, OffsetInv.ret hinv, rfl⟩
      rw [OffsetInv.refused hinv p hg] at hwr
      cases hwr
    | read n t =>
      refine safe_atomic trivial (fun s η γ msg _ _ _ hf => by cases hf)
        fun s η γ b s' hinv hg hok hf => ?_
      have hn : (n % 2 ^ 32).toNat < 2 ^ 32 := by omega
      have ht : t = .none := hok
      have hs : s' = { s with off := s.off + η.count (n % 2 ^ 32).toNat } := by
        rw [ht] at hf
        unfold FileHist.count
        rw [← OffsetInv.readable hinv, ← OffsetInv.offset hinv, ← OffsetInv.size hinv]
        split at hf
        · rename_i hr
          rw [SharedFile.read_none s (OffsetInv.le hinv) (OffsetInv.max hinv) hn] at hf
          cases hf
          rw [if_pos hr]
        · rename_i hr
          cases hf
          rw [if_neg hr, Nat.add_zero]
      subst hs
      refine ⟨rfl, .idle, ?_, rfl⟩
      rw [show OffsetGhost.idle = γ p from hg.symm, update_eq_self]
      exact OffsetInv.read (t := t) hinv hn
    | trunc =>
      exact safe_atomic trivial (fun s η γ msg _ _ _ hf => by cases hf)
        fun s η γ b s' _ _ hok _ => hok.elim
  finish s η γ p hinv hfin := by
    rw [show (offsetProtocol ι s₀).idle = γ p from (show γ p = _ from hfin).symm,
      update_eq_self]
    exact hinv

/-! ## Runs -/

end Xv6
