import Xv6Kernel.Mkfs.WellFormed
import Xv6Kernel.Pipe.Model
import Mathlib.Data.List.TakeWhile

/-!
# The kernel on the image of `mkfs`

The reading half of `kernel/fs.c`: `bmap`, `readi`, `dirlookup` and `namei`, and the search of
`balloc`, on the blocks of an image.  Where it would allocate a block in order to read it, or panic,
the result of the model is `none`.
-/

namespace Xv6

open Function

variable {f : Input} {name : List UInt8} {n k off fuel j : ℕ}

namespace Mkfs

namespace Kernel

def sb (d : Disk) (off : ℕ) : ℕ := (d 1).getLE 4 off

def sbSize (d : Disk) : ℕ := sb d 4

def sbInodestart (d : Disk) : ℕ := sb d 24

def sbBmapstart (d : Disk) : ℕ := sb d 28

/-- The inode that `ilock` reads. -/
def ilock (d : Disk) (inum : ℕ) : Dinode :=
  (d (inum / IPB + sbInodestart d)).slice 64 (inum % IPB * 64)

def type (din : Dinode) : ℕ := din.getLE 2 0

def bmap (d : Disk) (din : Dinode) (bn : ℕ) : Option ℕ :=
  if bn < NDIRECT then
    if din.addr bn = 0 then none else some (din.addr bn)
  else if bn - NDIRECT < NINDIRECT then
    if din.addr NDIRECT = 0 then none
    else
      let a := (d (din.addr NDIRECT)).getLE 4 (4 * (bn - NDIRECT))
      if a = 0 then none else some a
  else none

/-- The loop of `readi` with `n` bytes left; each round copies at least one byte. -/
def readLoop (d : Disk) (din : Dinode) : ℕ → ℕ → ℕ → Option (List UInt8)
  | 0, _, _ => some []
  | fuel + 1, off, n =>
    if n = 0 then some []
    else
      match bmap d din (off / BSIZE) with
      | none => none
      | some x =>
        let m := min n (BSIZE - off % BSIZE)
        match readLoop d din fuel (off + m) (n - m) with
        | none => none
        | some l => some ((List.range m).map (fun j => (d x).get (off % BSIZE + j)) ++ l)

def readi (d : Disk) (din : Dinode) (off n : ℕ) : Option (List UInt8) :=
  if din.size < off ∨ u32 (off + n) < off then some []
  else if din.size < u32 (off + n) then readLoop d din (din.size - off) off (din.size - off)
  else readLoop d din n off n

/-- `strncmp`; what follows the end of a list is a zero byte. -/
def strncmp : ℕ → List UInt8 → List UInt8 → ℤ
  | 0, _, _ => 0
  | n + 1, p, q =>
    if p.headD 0 ≠ 0 ∧ p.headD 0 = q.headD 0 then strncmp n p.tail q.tail
    else (p.headD 0).toNat - (q.headD 0).toNat

/-- `de.inum`. -/
def direntInum (de : List UInt8) : ℕ := (de.getD 0 0).toNat + 256 * (de.getD 1 0).toNat

def dirlookupLoop (d : Disk) (dp : Dinode) (name : List UInt8) : ℕ → ℕ → Option (Option ℕ)
  | 0, _ => some none
  | fuel + 1, off =>
    if off < dp.size then
      match readi d dp off 16 with
      | none => none
      | some de =>
        if de.length ≠ 16 then none
        else if direntInum de = 0 then dirlookupLoop d dp name fuel (off + 16)
        else if strncmp DIRSIZ name (de.drop 2) = 0 then some (some (direntInum de))
        else dirlookupLoop d dp name fuel (off + 16)
    else some none

def dirlookup (d : Disk) (dp : Dinode) (name : List UInt8) : Option (Option ℕ) :=
  if type dp ≠ T_DIR then none else dirlookupLoop d dp name (dp.size / 16 + 1) 0

def skipelem (path : List UInt8) : Option (List UInt8 × List UInt8) :=
  let path := path.dropWhile (· = slash)
  if path = [] then none
  else
    let elem := path.takeWhile (· ≠ slash)
    some (elem.take DIRSIZ, (path.drop elem.length).dropWhile (· = slash))

def namexLoop (d : Disk) : ℕ → ℕ → List UInt8 → Option (Option ℕ)
  | 0, ip, _ => some (some ip)
  | fuel + 1, ip, path =>
    match skipelem path with
    | none => some (some ip)
    | some (name, rest) =>
      if type (ilock d ip) ≠ T_DIR then some none
      else
        match dirlookup d (ilock d ip) name with
        | none => none
        | some none => some none
        | some (some next) => namexLoop d fuel next rest

/-- `namei`, by a process in the root directory; every round takes a character of the path. -/
def namei (d : Disk) (path : List UInt8) : Option (Option ℕ) :=
  namexLoop d (path.length + 1) ROOTINO path

/-- The block of the bitmap with the bit of a block, `BBLOCK`. -/
def bblock (d : Disk) (b : ℕ) : ℕ := b / BPB + sbBmapstart d

/-- `balloc`: the block and the disk after the call. -/
def balloc (d : Disk) : Option (ℕ × Disk) :=
  ((List.range (sbSize d)).find? fun b =>
    decide ((d (bblock d b)).get (b % BPB / 8) &&& 1 <<< UInt8.ofNat (b % BPB % 8) = 0)).map
  fun b =>
    let bp := d (bblock d b)
    let bp := bp.set (b % BPB / 8) (bp.get (b % BPB / 8) ||| 1 <<< UInt8.ofNat (b % BPB % 8))
    (b, wsect (wsect d (bblock d b) bp) b (Bytes.zero BSIZE))

def ballocs : ℕ → Disk → List ℕ
  | 0, _ => []
  | n + 1, d =>
    match balloc d with
    | none => []
    | some (b, d') => b :: ballocs n d'

end Kernel

open Kernel

/-! ## Reading -/

section Read

variable {d : Disk} {D : Fin NINODES → Dinode} {data : Fin NINODES → List UInt8} {fb : ℕ}
  {i : Fin NINODES}

lemma Files.bmap (h : Files d D data fb) (hk : k < nblk (data i).length)
    (hm : k < MAXFILE) : Kernel.bmap d (D i) k = some (addrOf d (D i) k) := by
  have hne := h.blocks.addrOf_ne_zero hk
  unfold Kernel.bmap
  unfold addrOf at hne ⊢
  have hm' : k < 268 := hm
  by_cases hlt : k < NDIRECT
  · rw [if_pos hlt] at hne ⊢
    rw [if_neg hne, if_pos hlt]
  have hlt' : ¬k < 12 := hlt
  rw [if_neg hlt] at hne ⊢
  have hind := h.blocks.addr_ne_zero (i := i) (by omega)
  have hn : k - NDIRECT < NINDIRECT := by
    change k - 12 < 256
    omega
  rw [if_pos hn, if_neg hind]
  simp only [if_neg hne, if_neg hlt]

section

variable (h : Files d D data fb) (hlen : (data i).length ≤ MAXFILE * BSIZE)
include h hlen

lemma Files.readLoop (hn : n ≤ fuel) (hoff : off + n ≤ (data i).length) :
    Kernel.readLoop d (D i) fuel off n = some (((data i).drop off).take n) := by
  have hlen' : (data i).length ≤ 268 * 1024 := hlen
  induction fuel generalizing off n with
  | zero =>
    obtain rfl : n = 0 := by omega
    simp [Kernel.readLoop]
  | succ fuel ih =>
    rw [Kernel.readLoop]
    by_cases hz : n = 0
    · rw [if_pos hz, hz, List.take_zero]
    rw [if_neg hz]
    obtain ⟨m, hm⟩ : ∃ m, m = min n (BSIZE - off % BSIZE) := ⟨_, rfl⟩
    have hm' : m = min n (1024 - off % 1024) := hm
    have hbm := h.bmap (i := i) (k := off / BSIZE)
      (by change off / 1024 < ((data i).length + 1023) / 1024; omega)
      (by change off / 1024 < 268; omega)
    rw [hbm]
    simp only [← hm]
    have hrest : Kernel.readLoop d (D i) fuel (off + m) (n - m) =
        some (((data i).drop (off + m)).take (n - m)) := ih (by omega) (by omega)
    rw [hrest]
    simp only [Option.some.injEq]
    -- the first `m` bytes lie in one block
    have hbytes : (List.range m).map
        (fun j => (d (addrOf d (D i) (off / BSIZE))).get (off % BSIZE + j)) =
          ((data i).drop off).take m := by
      refine List.ext_getElem ?_ fun j hj hj' => ?_
      · rw [List.length_map, List.length_range, List.length_take, List.length_drop]
        omega
      · rw [List.length_map, List.length_range] at hj
        have hb := h.bytes i (off + j) (by omega)
        have hdiv : (off + j) / BSIZE = off / BSIZE := by
          change (off + j) / 1024 = off / 1024
          omega
        have hmod : (off + j) % BSIZE = off % BSIZE + j := by
          change (off + j) % 1024 = off % 1024 + j
          omega
        rw [hdiv, hmod] at hb
        rw [List.getElem_map, List.getElem_range, hb, List.getElem_take, List.getElem_drop,
          List.getD_eq_getElem _ _ (by omega)]
    rw [hbytes, ← List.drop_drop, ← List.take_add, show m + (n - m) = n by omega]

lemma Files.readi (hsize : (data i).length ≤ (D i).size) (hoff : off + n ≤ (data i).length) :
    Kernel.readi d (D i) off n = some (((data i).drop off).take n) := by
  have hlen' : (data i).length ≤ 268 * 1024 := hlen
  have hu : u32 (off + n) = off + n := Nat.mod_eq_of_lt (by omega)
  rw [Kernel.readi, hu, if_neg (by omega), if_neg (by omega)]
  exact h.readLoop hlen le_rfl hoff

lemma Files.readi_all (hsize : (D i).size = (data i).length) (hoff : off + n < 2 ^ 32) :
    Kernel.readi d (D i) off n = some (((data i).drop off).take n) := by
  have hu : u32 (off + n) = off + n := Nat.mod_eq_of_lt hoff
  rw [Kernel.readi, hu, hsize]
  by_cases hbig : (data i).length < off
  · rw [if_pos (.inl hbig), List.drop_eq_nil_of_le (by omega), List.take_nil]
  rw [if_neg (by omega)]
  by_cases hover : (data i).length < off + n
  · rw [if_pos hover, h.readLoop hlen le_rfl (by omega), List.take_of_length_le (by simp),
      List.take_of_length_le (by rw [List.length_drop]; omega)]
  · rw [if_neg hover]
    exact h.readLoop hlen le_rfl (by omega)

end

end Read

/-! ## Names -/

lemma strncmp_eq_zero {p q : List UInt8} (hp : 0 ∉ p) (hq : 0 ∉ q) (hpn : p.length ≤ n)
    (hqn : q.length ≤ n) : strncmp n p (q ++ List.replicate (n - q.length) 0) = 0 ↔ p = q := by
  induction n generalizing p q with
  | zero =>
    obtain rfl : p = [] := List.length_eq_zero_iff.mp (by omega)
    obtain rfl : q = [] := List.length_eq_zero_iff.mp (by omega)
    simp [strncmp]
  | succ n ih =>
    have hdiff : ∀ a b : UInt8, ((a.toNat : ℤ) - b.toNat = 0) ↔ a = b := by
      intro a b
      rw [sub_eq_zero, Nat.cast_inj, UInt8.toNat_inj]
    have hne : ∀ a : UInt8, a ≠ 0 → a.toNat ≠ 0 := fun a ha h => ha (UInt8.toNat_inj.mp h)
    cases p with
    | nil =>
      cases q with
      | nil => simp [strncmp, List.replicate_succ]
      | cons b q =>
        have hb : b ≠ 0 := fun hb => hq (by simp [hb])
        simp [strncmp, hne b hb]
    | cons a p =>
      have ha : a ≠ 0 := fun ha => hp (by simp [ha])
      cases q with
      | nil => simp [strncmp, List.replicate_succ, ha, hne a ha]
      | cons b q =>
        have hrec := ih (p := p) (q := q) (fun h => hp (List.mem_cons_of_mem _ h))
          (fun h => hq (List.mem_cons_of_mem _ h)) (by simpa using hpn) (by simpa using hqn)
        by_cases hab : a = b
        · subst hab
          have hsub : n + 1 - (q.length + 1) = n - q.length := by omega
          simp only [strncmp, List.cons_append, List.headD_cons, List.tail_cons, List.length_cons,
            hsub]
          rw [if_pos ⟨ha, trivial⟩, hrec]
          simp
        · simp [strncmp, hab, hdiff]

lemma flatten_drop_take {L : List (List UInt8)} (hL : ∀ e ∈ L, e.length = 16) {e : List UInt8}
    (he : L[k]? = some e) : (L.flatten.drop (16 * k)).take 16 = e := by
  induction L generalizing k with
  | nil => simp at he
  | cons x L ih =>
    have hx := hL x List.mem_cons_self
    cases k with
    | zero =>
      obtain rfl : x = e := by simpa using he
      simp [← hx]
    | succ k =>
      have he' : L[k]? = some e := by simpa using he
      rw [List.flatten_cons, show 16 * (k + 1) = x.length + 16 * k by omega, List.drop_append,
        List.drop_eq_nil_of_le (by omega), List.nil_append, Nat.add_sub_cancel_left]
      exact ih (fun y hy => hL y (List.mem_cons_of_mem _ hy)) he'

lemma direntInum_dirent {inum : ℕ} (h : inum < 2 ^ 16) (name : List UInt8) :
    direntInum (dirent inum name) = inum := by
  simp only [direntInum, dirent, List.cons_append, List.getD_cons_zero, List.getD_cons_succ,
    UInt8.toNat_ofNat']
  omega

lemma drop_dirent (inum : ℕ) (h : name.length ≤ DIRSIZ) :
    (dirent inum name).drop 2 = name ++ List.replicate (DIRSIZ - name.length) 0 := by
  simp only [dirent, List.cons_append, List.nil_append, List.drop_succ_cons, List.drop_zero]
  rw [List.take_of_length_le h]

lemma zero_notMem_shortname (h : 0 ∉ f.argv) : 0 ∉ f.shortname := by
  have hstrip : 0 ∉ stripUser f.argv := by
    unfold stripUser
    split
    · exact fun hm => h (List.mem_of_mem_drop hm)
    · exact h
  unfold Input.shortname stripUnderscore
  split
  · exact fun hm => hstrip (List.mem_of_mem_tail hm)
  · exact hstrip

def rootNames (fs : List Input) : List (ℕ × List UInt8) :=
  (ROOTINO, [46]) :: (ROOTINO, [46, 46]) :: fs.mapIdx fun j f => (j + 2, f.shortname)

lemma rootEntries_eq_map (fs : List Input) :
    rootEntries fs = (rootNames fs).map fun x => dirent x.1 x.2 := by
  rw [rootEntries, rootNames, List.map_cons, List.map_cons]
  congr 2
  refine List.ext_getElem? fun n => ?_
  simp only [List.getElem?_map, List.getElem?_mapIdx, Option.map_map]
  rfl

lemma dirlookupLoop_eq {d : Disk} {dp : Dinode} {L : List (ℕ × List UInt8)} {v t : ℕ}
    (hread : ∀ k x, L[k]? = some x → 16 * k < dp.size ∧
      Kernel.readi d dp (16 * k) 16 = some (dirent x.1 x.2))
    (hL : ∀ x ∈ L, 0 < x.1 ∧ x.1 < 2 ^ 16 ∧ 0 ∉ x.2 ∧ x.2.length ≤ DIRSIZ)
    (hnodup : (L.map Prod.snd).Nodup) (ht : L[t]? = some (v, name)) (hk : k ≤ t)
    (hfuel : t - k < fuel) : dirlookupLoop d dp name fuel (16 * k) = some (some v) := by
  have hname := hL _ (List.mem_of_getElem? ht)
  induction fuel generalizing k with
  | zero => omega
  | succ fuel ih =>
    have htlen : t < L.length := (List.getElem?_eq_some_iff.mp ht).1
    obtain ⟨x, hx⟩ : ∃ x, L[k]? = some x := ⟨L[k], List.getElem?_eq_getElem (by omega)⟩
    obtain ⟨hsize, hde⟩ := hread k x hx
    have hxL := hL x (List.mem_of_getElem? hx)
    have hlen := length_dirent x.1 hxL.2.2.2
    have hcmp := strncmp_eq_zero hname.2.2.1 hxL.2.2.1 hname.2.2.2 hxL.2.2.2
    rw [dirlookupLoop, if_pos hsize, hde]
    simp only [hlen, ne_eq, not_true, if_false, direntInum_dirent hxL.2.1,
      drop_dirent _ hxL.2.2.2, Nat.pos_iff_ne_zero.mp hxL.1, hcmp]
    by_cases hkt : k = t
    · subst hkt
      obtain rfl : x = (v, name) := Option.some.inj (hx.symm.trans ht)
      rw [if_pos rfl]
    · -- another name stands before it
      have hne : name ≠ x.2 := by
        intro he
        have h1 : (L.map Prod.snd)[k]? = some name := by rw [List.getElem?_map, hx, he]; rfl
        have h2 : (L.map Prod.snd)[t]? = some name := by rw [List.getElem?_map, ht]; rfl
        refine hkt ((List.getElem?_inj (by rw [List.length_map]; omega) hnodup).mp ?_)
        rw [h1, h2]
      rw [if_neg hne]
      exact ih (k := k + 1) (by omega) (by omega)

/-! ## Allocation -/

/-- The kernel finds the bitmap, and the blocks in front of `fb` are marked. -/
structure InUse (fb : ℕ) (d : Disk) : Prop where
  bound : nmeta ≤ fb
  fits : fb ≤ FSSIZE
  size : sbSize d = FSSIZE
  bmapstart : sbBmapstart d = bmapstart
  marked : ∀ b, b < fb → Marked d b

namespace InUse

variable {fb b : ℕ} {d d' : Disk}

lemma balloc (h : InUse fb d) (hb : Kernel.balloc d = some (b, d')) :
    fb ≤ b ∧ b < FSSIZE ∧ InUse fb d' := by
  obtain ⟨b', hfind, heq⟩ := Option.map_eq_some_iff.mp hb
  obtain ⟨rfl, rfl⟩ := Prod.mk.inj heq
  have hfound := List.find?_some hfind
  have hbit : (d (bblock d b')).get (b' % BPB / 8) &&& 1 <<< UInt8.ofNat (b' % BPB % 8) = 0 :=
    of_decide_eq_true hfound
  have hlt : b' < FSSIZE := h.size ▸ List.mem_range.mp (List.mem_of_find?_eq_some hfind)
  have hfree : fb ≤ b' := by
    by_contra hlow
    refine h.marked b' (by omega) ?_
    rw [← h.bmapstart]
    exact hbit
  refine ⟨hfree, hlt, ?_⟩
  have hmeta : 46 ≤ fb := h.bound
  have hfb : fb ≤ 2000 := h.fits
  have hlt' : b' < 2000 := hlt
  have hblock : bblock d b' = 45 := by
    rw [bblock, h.bmapstart]
    change b' / 8192 + 45 = 45
    omega
  rw [hblock]
  have hsb : ∀ bp : Block, wsect (wsect d 45 bp) b' (Bytes.zero BSIZE) 1 = d 1 := by
    intro bp
    rw [wsect, update_of_ne (by omega), wsect, update_of_ne (by decide)]
  refine ⟨h.bound, h.fits, ?_, ?_, fun c hc => ?_⟩
  · rw [sbSize, sb, hsb]
    exact h.size
  · rw [sbBmapstart, sb, hsb]
    exact h.bmapstart
  · have hmark := h.marked c hc
    have hc8 : c % BPB % 8 < 8 := Nat.mod_lt _ (by decide)
    have hcblock : c / BPB + Mkfs.bmapstart = 45 := by
      change c / 8192 + 45 = 45
      omega
    rw [Marked, hcblock] at hmark ⊢
    rw [wsect, update_of_ne (by omega), wsect, update_self]
    by_cases hbyte : c % BPB / 8 = b' % BPB / 8
    · rw [hbyte, Bytes.get_set_self _ _ (by change b' % 8192 / 8 < 1024; omega),
        and_bit_ne_zero hc8, or_bit (Nat.mod_lt _ (by decide))]
      rw [hbyte, and_bit_ne_zero hc8] at hmark
      exact .inr hmark
    · rwa [Bytes.get_set_of_ne _ _ hbyte]

lemma ballocs (h : InUse fb d) (hb : b ∈ Kernel.ballocs n d) : fb ≤ b ∧ b < FSSIZE := by
  induction n generalizing d with
  | zero => cases hb
  | succ n ih =>
    rw [Kernel.ballocs] at hb
    split at hb
    · cases hb
    rename_i r hcall
    obtain ⟨hfree, hlt, hnext⟩ := h.balloc hcall
    rcases List.mem_cons.mp hb with rfl | hb
    · exact ⟨hfree, hlt⟩
    · exact ih hnext hb

end InUse

/-! ## The image -/

section Image

variable {fs : List Input} {s : Image} {ty : Fin NINODES → ℕ} {data : Fin NINODES → List UInt8}

namespace Built

section

variable (h : Built fs s ty data)
include h

lemma superblock_final : finalDisk s 1 = superblock := by
  rw [finalDisk_of_ne (by decide) (by decide), h.contents.front 1 (.inl (by decide))]
  change update (fun _ => Bytes.zero BSIZE) 1 superblock 1 = _
  rw [update_self]

lemma ilock_final (i : ℕ) : ilock (finalDisk s) i = rinode (finalDisk s) i := by
  have hstart : sbInodestart (finalDisk s) = inodestart := by
    rw [sbInodestart, sb, h.superblock_final]
    decide +kernel
  rw [ilock, hstart]
  rfl

lemma type_final (i : Fin NINODES) : type (rinode (finalDisk s) i) = ty i := by
  by_cases hi : i.val = ROOTINO
  · rw [rinode_finalDisk_root hi, type]
    exact (Bytes.getLE_setLE_of_disjoint 4 2 _ _ _ _ (by omega)).trans (h.contents.type i)
  · rw [rinode_finalDisk hi]
    exact h.contents.type i

lemma dirlookup_root (hin : fs.length + 2 ≤ NINODES) (hnul : ∀ f ∈ fs, 0 ∉ f.argv)
    (hdots : ∀ f ∈ fs, f.shortname ≠ [46] ∧ f.shortname ≠ [46, 46])
    (hnodup : (fs.map Input.shortname).Nodup) (hf : fs[j]? = some f) :
    dirlookup (finalDisk s) (rinode (finalDisk s) ROOTINO) f.shortname = some (some (j + 2)) := by
  obtain ⟨r, hr⟩ : ∃ r : Fin NINODES, r.val = ROOTINO := ⟨⟨1, by decide⟩, rfl⟩
  have hin' : fs.length + 2 ≤ 200 := hin
  have hjlt : j < fs.length := (List.getElem?_eq_some_iff.mp hf).1
  have hsize := h.size_root hin hr
  have hlen := h.length_root hr
  have hsize' : (rinode (finalDisk s) r).size = (16 * (fs.length + 2) / 1024 + 1) * 1024 := hsize
  have htype : type (rinode (finalDisk s) r) = T_DIR := (h.type_final r).trans (h.root r hr).2
  rw [hr] at htype hsize'
  have hL : ∀ x ∈ rootNames fs, 0 < x.1 ∧ x.1 < 2 ^ 16 ∧ 0 ∉ x.2 ∧ x.2.length ≤ DIRSIZ := by
    intro x hx
    simp only [rootNames, List.mem_cons, List.mem_mapIdx] at hx
    rcases hx with rfl | rfl | ⟨k, hk, rfl⟩
    · decide
    · decide
    · have hmem := List.getElem_mem hk
      exact ⟨Nat.succ_pos _, by simp only; omega, zero_notMem_shortname (hnul _ hmem),
        (h.names _ hmem).1⟩
  have hnames : ((rootNames fs).map Prod.snd).Nodup := by
    have hmap : (rootNames fs).map Prod.snd = [46] :: [46, 46] :: fs.map Input.shortname := by
      rw [rootNames, List.map_cons, List.map_cons]
      congr 2
      refine List.ext_getElem? fun n => ?_
      simp only [List.getElem?_map, List.getElem?_mapIdx, Option.map_map]
      rfl
    rw [hmap, List.nodup_cons, List.nodup_cons]
    refine ⟨?_, ?_, hnodup⟩
    · simp only [List.mem_cons, List.mem_map, not_or, not_exists, not_and]
      exact ⟨by decide, fun g hg => (hdots g hg).1⟩
    · simp only [List.mem_map, not_exists, not_and]
      exact fun g hg => (hdots g hg).2
  have htarget : (rootNames fs)[j + 2]? = some (j + 2, f.shortname) := by
    simp [rootNames, hf]
  have hcount : (rootNames fs).length = fs.length + 2 := by simp [rootNames]
  rw [dirlookup, if_neg (by rw [htype]; decide)]
  refine dirlookupLoop_eq (k := 0) (t := j + 2) (fun k x hx => ?_) hL hnames htarget
    (Nat.zero_le _) ?_
  · have hk : k < fs.length + 2 := hcount ▸ (List.getElem?_eq_some_iff.mp hx).1
    refine ⟨by omega, ?_⟩
    rw [← hr]
    have hle : (data r).length ≤ (rinode (finalDisk s) r).size := by
      rw [hsize, hlen]
      change 16 * (fs.length + 2) ≤ (16 * (fs.length + 2) / 1024 + 1) * 1024
      omega
    have hread : Kernel.readi (finalDisk s) (rinode (finalDisk s) r) (16 * k) 16 =
        some (((data r).drop (16 * k)).take 16) :=
      h.final.readi (h.contents.len r) hle (by omega)
    rw [hread, (h.root r hr).1, rootEntries_eq_map,
      flatten_drop_take (e := dirent x.1 x.2) (fun e he => ?_) (by rw [List.getElem?_map, hx]; rfl)]
    obtain ⟨y, hy, rfl⟩ := List.mem_map.mp he
    have h1 : y.2.length ≤ 14 := (hL y hy).2.2.2
    have hdirsiz : DIRSIZ = 14 := rfl
    simp only [dirent, List.length_append, List.length_cons, List.length_nil, List.length_take,
      List.length_replicate]
    omega
  · omega

lemma namei_final (hin : fs.length + 2 ≤ NINODES) (hnul : ∀ f ∈ fs, 0 ∉ f.argv)
    (hne : ∀ f ∈ fs, f.shortname ≠ [])
    (hdots : ∀ f ∈ fs, f.shortname ≠ [46] ∧ f.shortname ≠ [46, 46])
    (hnodup : (fs.map Input.shortname).Nodup) (hf : fs[j]? = some f) :
    namei (finalDisk s) f.shortname = some (some (j + 2)) := by
  obtain ⟨r, hr⟩ : ∃ r : Fin NINODES, r.val = ROOTINO := ⟨⟨1, by decide⟩, rfl⟩
  have hmem := List.mem_of_getElem? hf
  obtain ⟨hlen, hslash⟩ := h.names f hmem
  have hall : ∀ c ∈ f.shortname, decide (c ≠ slash) = true := fun c hc =>
    decide_eq_true fun he => hslash (he ▸ hc)
  have hskip : skipelem f.shortname = some (f.shortname, []) := by
    have hdrop : f.shortname.dropWhile (· = slash) = f.shortname := by
      cases hname : f.shortname with
      | nil => rfl
      | cons c l =>
        have hc : c ≠ slash := fun he => hslash (by rw [hname, he]; exact List.mem_cons_self)
        rw [List.dropWhile_cons_of_neg (by simpa using hc)]
    have htake : f.shortname.takeWhile (· ≠ slash) = f.shortname :=
      List.takeWhile_eq_self_iff.mpr hall
    simp only [skipelem, hdrop, if_neg (hne f hmem), htake, List.take_of_length_le hlen,
      List.drop_length, List.dropWhile_nil]
  have hnil : ∀ fuel ip, namexLoop (finalDisk s) fuel ip [] = some (some ip) := by
    intro fuel ip
    cases fuel with
    | zero => rfl
    | succ fuel => rfl
  have htype : type (ilock (finalDisk s) ROOTINO) = T_DIR := by
    rw [h.ilock_final, ← hr]
    exact (h.type_final r).trans (h.root r hr).2
  rw [namei, namexLoop, hskip]
  simp only
  rw [if_neg (by rw [htype]; decide), h.ilock_final,
    h.dirlookup_root hin hnul hdots hnodup hf]
  exact hnil _ _

lemma inUse_final (hfits : s.Fits) : InUse s.freeblock (finalDisk s) := by
  have hfb : s.freeblock ≤ 2000 := hfits.2
  refine ⟨h.final.blocks.bound, hfits.2, ?_, ?_, fun b hb => ?_⟩
  · rw [sbSize, sb, h.superblock_final]
    decide +kernel
  · rw [sbBmapstart, sb, h.superblock_final]
    decide +kernel
  · have hdiv : b / BPB = 0 := Nat.div_eq_of_lt (by change b < 8192; omega)
    have hmod : b % BPB = b := Nat.mod_eq_of_lt (by change b < 8192; omega)
    rw [Marked, hdiv, hmod, Nat.zero_add, finalDisk, wsect, update_self,
      and_bit_ne_zero (Nat.mod_lt b (by decide)),
      bitmap_bit (by change s.freeblock ≤ 8192; omega) (by change b < 8192; omega)]
    exact hb

end

end Built

end Image

/-- `mkfs` and the kernel agree on the disk format.  For input files with distinct short names that
are neither empty nor `.` or `..`, and an image that fits: `namei` finds each file under its short
name, as an inode of type `T_FILE` whose size is the length of the file, and `readi` returns the
bytes of the file from any offset on; and the kernel's `balloc` returns a data block that no inode
refers to. -/
theorem mkfs_kernel_agree {fs : List Input} {s : Image} (h : mkfs fs = some s) (hfits : s.Fits)
    (hnul : ∀ f ∈ fs, 0 ∉ f.argv) (hne : ∀ f ∈ fs, f.shortname ≠ [])
    (hdots : ∀ f ∈ fs, f.shortname ≠ [46] ∧ f.shortname ≠ [46, 46])
    (hnodup : (fs.map Input.shortname).Nodup) :
    (∀ f ∈ fs, ∃ inum, namei s.disk f.shortname = some (some inum) ∧
      type (ilock s.disk inum) = T_FILE ∧ (ilock s.disk inum).size = f.contents.length ∧
      ∀ off n, off + n < 2 ^ 32 →
        readi s.disk (ilock s.disk inum) off n = some ((f.contents.drop off).take n)) ∧
    ∀ n b, b ∈ Kernel.ballocs n s.disk → nmeta ≤ b ∧ b < FSSIZE ∧
      ∀ (i : Fin NINODES) o, Referenced s.disk (ilock s.disk i) o →
        slotAddr s.disk (ilock s.disk i) o ≠ b := by
  obtain ⟨s1, ty, data, hb, rfl⟩ := mkfs_built h hfits
  have hfits1 : s1.Fits := hfits
  have hin : fs.length + 2 ≤ NINODES := hb.inodes ▸ hfits1.1
  have hin' : fs.length + 2 ≤ 200 := hin
  change (∀ f ∈ fs, ∃ inum, namei (finalDisk s1) f.shortname = some (some inum) ∧
      type (ilock (finalDisk s1) inum) = T_FILE ∧
      (ilock (finalDisk s1) inum).size = f.contents.length ∧
      ∀ off n, off + n < 2 ^ 32 →
        readi (finalDisk s1) (ilock (finalDisk s1) inum) off n =
          some ((f.contents.drop off).take n)) ∧
    ∀ n b, b ∈ Kernel.ballocs n (finalDisk s1) → nmeta ≤ b ∧ b < FSSIZE ∧
      ∀ (i : Fin NINODES) o, Referenced (finalDisk s1) (ilock (finalDisk s1) i) o →
        slotAddr (finalDisk s1) (ilock (finalDisk s1) i) o ≠ b
  refine ⟨fun f hf => ?_, fun n b hballoc => ?_⟩
  · obtain ⟨j, hj⟩ := List.getElem?_of_mem hf
    have hjlt : j < fs.length := (List.getElem?_eq_some_iff.mp hj).1
    obtain ⟨i, hi⟩ : ∃ i : Fin NINODES, i.val = j + 2 := ⟨⟨j + 2, by omega⟩, rfl⟩
    obtain ⟨hdata, hty⟩ := hb.file i j f hi hj
    have hiroot : i.val ≠ ROOTINO := by
      change i.val ≠ 1
      omega
    refine ⟨i, ?_, ?_, ?_, fun off n hoff => ?_⟩
    · rw [hi]
      exact hb.namei_final hin hnul hne hdots hnodup hj
    · rw [hb.ilock_final, hb.type_final, hty]
    · rw [hb.ilock_final, hb.size_final hiroot, hdata]
    · rw [hb.ilock_final, ← hdata]
      exact hb.final.readi_all (i := i) (hb.contents.len i) (hb.size_final hiroot) hoff
  · obtain ⟨hfree, hlt⟩ := (hb.inUse_final hfits1).ballocs hballoc
    refine ⟨hb.final.blocks.bound.trans hfree, hlt, fun i o ho he => ?_⟩
    rw [hb.ilock_final] at ho he
    have hused := (hb.final.blocks.slots.alloc i o (hb.live_of_referenced ho)).2
    change slotAddr (finalDisk s1) (rinode (finalDisk s1) i) o < s1.freeblock at hused
    omega

/-- The image of one file of three bytes. -/
theorem mkfs_kernel_agree_one :
    ∃ s, mkfs [⟨[117, 115, 101, 114, 47, 95, 98], [[1, 2], [3]]⟩] = some s ∧ s.Fits ∧
      ∃ inum, namei s.disk [98] = some (some inum) ∧ type (ilock s.disk inum) = T_FILE ∧
        (ilock s.disk inum).size = 3 ∧ ∀ off n, off + n < 2 ^ 32 →
          readi s.disk (ilock s.disk inum) off n =
            some ((([1, 2, 3] : List UInt8).drop off).take n) := by
  have hrun : (mkfs [⟨[117, 115, 101, 114, 47, 95, 98], [[1, 2], [3]]⟩]).any
      (fun s => decide s.Fits) = true := by
    decide +kernel
  obtain ⟨s, hs, htest⟩ := exists_of_any hrun
  refine ⟨s, hs, of_decide_eq_true htest, ?_⟩
  exact (mkfs_kernel_agree hs (of_decide_eq_true htest) (by decide) (by decide) (by decide)
    (by decide)).1 _ List.mem_cons_self

end Mkfs

end Xv6
