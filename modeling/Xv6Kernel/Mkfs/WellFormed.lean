import Xv6Kernel.Mkfs.Build

/-!
# Well-formed images

An image is well formed if every inode has an address for each of its blocks, no block is referenced
twice, the referenced blocks are marked in the bitmap, and the log header is empty.

`mkfs` rounds the size of the root directory up to the next block, and it does so also when the
entries end with a whole block; the size then covers a block that the directory does not have.
-/

namespace Xv6

open Function

variable {i : Fin NINODES} {b : ℕ}

namespace Mkfs

def Marked (d : Disk) (b : ℕ) : Prop :=
  (d (b / BPB + bmapstart)).get (b % BPB / 8) &&& 1 <<< UInt8.ofNat (b % BPB % 8) ≠ 0

def Referenced (d : Disk) (din : Dinode) : Option ℕ → Prop
  | none => din.addr NDIRECT ≠ 0
  | some k => (k < NDIRECT ∨ k < MAXFILE ∧ din.addr NDIRECT ≠ 0) ∧ addrOf d din k ≠ 0

structure WellFormed (d : Disk) : Prop where
  blocks : ∀ (i : Fin NINODES) k, k < nblk (rinode d i).size → addrOf d (rinode d i) k ≠ 0
  once : ∀ (i j : Fin NINODES) o o', Referenced d (rinode d i) o → Referenced d (rinode d j) o' →
    slotAddr d (rinode d i) o = slotAddr d (rinode d j) o' → i = j ∧ o = o'
  marked : ∀ (i : Fin NINODES) o, Referenced d (rinode d i) o → Marked d (slotAddr d (rinode d i) o)
  log : (d logstart).getLE 4 0 = 0

/-! ## The bitmap -/

lemma bitmap_bit {used : ℕ} (hused : used ≤ BPB) (hb : b < BPB) :
    ((bitmap used).get (b / 8)).toNat.testBit (b % 8) = true ↔ b < used := by
  have hb : b < 8192 := hb
  unfold bitmap
  induction used with
  | zero => simp
  | succ n ih =>
    have hn : n + 1 ≤ 8192 := hused
    rw [List.range_succ, List.foldl_append, List.foldl_cons, List.foldl_nil]
    have ih := ih (by change n ≤ 8192; omega)
    by_cases hbyte : b / 8 = n / 8
    · rw [hbyte] at ih ⊢
      rw [Bytes.get_set_self _ _ (by change n / 8 < 1024; omega), or_bit (by omega)]
      refine (or_congr Iff.rfl ih).trans ?_
      omega
    · rw [Bytes.get_set_of_ne _ _ hbyte]
      refine ih.trans ?_
      omega

/-! ## The final image -/

variable {fs : List Input} {s : Image} {ty : Fin NINODES → ℕ} {data : Fin NINODES → List UInt8}

lemma length_dirent (n : ℕ) {name : List UInt8} (hname : name.length ≤ DIRSIZ) :
    (dirent n name).length = 16 := by
  have hname : name.length ≤ 14 := hname
  have hdirsiz : DIRSIZ = 14 := rfl
  simp only [dirent, List.length_append, List.length_cons, List.length_nil, List.length_take,
    List.length_replicate]
  omega

def finalDisk (s : Image) : Disk := wsect (roundRoot s ROOTINO).disk bmapstart (bitmap s.freeblock)

lemma rinode_finalDisk (hi : i.val ≠ ROOTINO) : rinode (finalDisk s) i = rinode s.disk i := by
  have hblock : finalDisk s (iblock i) = (roundRoot s ROOTINO).disk (iblock i) :=
    update_of_ne (iblock_lt i.isLt).ne _ _
  rw [rinode_congr hblock]
  exact rinode_winode_of_ne _ _ hi

lemma rinode_finalDisk_root (hi : i.val = ROOTINO) : rinode (finalDisk s) i =
      (rinode s.disk i).setSize (((rinode s.disk i).size / BSIZE + 1) * BSIZE) := by
  have hblock : finalDisk s (iblock i) = (roundRoot s ROOTINO).disk (iblock i) :=
    update_of_ne (iblock_lt i.isLt).ne _ _
  rw [rinode_congr hblock, hi]
  exact rinode_winode_self _ _ _

lemma finalDisk_of_ne (hb : b ≠ bmapstart) (hr : b ≠ iblock ROOTINO) : finalDisk s b = s.disk b := by
  rw [finalDisk, wsect, update_of_ne hb]
  exact update_of_ne hr _ _

namespace Built

section

variable (h : Built fs s ty data)
include h

lemma final : Files (finalDisk s) (fun i => rinode (finalDisk s) i) data s.freeblock := by
  refine h.contents.files.congr (fun b hb => ?_) fun i k _ => ?_
  · have hb : 46 ≤ b := hb
    exact finalDisk_of_ne (by change b ≠ 45; omega) (by change b ≠ 32; omega)
  · by_cases hi : i.val = ROOTINO
    · rw [rinode_finalDisk_root hi, Dinode.addr_setSize]
    · rw [rinode_finalDisk hi]

lemma length_root (hi : i.val = ROOTINO) : (data i).length = 16 * (fs.length + 2) := by
  have hent : ∀ e ∈ rootEntries fs, e.length = 16 := by
    intro e he
    simp only [rootEntries, List.mem_cons, List.mem_mapIdx] at he
    rcases he with rfl | rfl | ⟨j, hj, rfl⟩
    · exact length_dirent _ (by decide)
    · exact length_dirent _ (by decide)
    · exact length_dirent _ (h.names _ (List.getElem_mem hj)).1
  rw [(h.root i hi).1, List.length_flatten, List.map_congr_left hent]
  simp [rootEntries]
  omega

lemma live_of_referenced {o : Option ℕ}
    (ho : Referenced (finalDisk s) (rinode (finalDisk s) i) o) : Live (nblk (data i).length) o := by
  have hb := h.final.blocks
  rcases o with _ | k
  · by_contra hlive
    exact ho (hb.indirect i (Nat.le_of_not_lt hlive))
  by_contra hlive
  have hk : nblk (data i).length ≤ k := Nat.le_of_not_lt hlive
  obtain ⟨hcase, hne⟩ := ho
  by_cases hlt : k < NDIRECT
  · exact hne (by rw [addrOf, if_pos hlt]; exact hb.direct i k hk hlt)
  obtain ⟨hmax, hind⟩ := hcase.resolve_left hlt
  refine hne (hb.entries i k ?_ hk hmax)
  by_contra hsmall
  exact hind (hb.indirect i (Nat.le_of_not_lt hsmall))

lemma size_final (hi : i.val ≠ ROOTINO) : (rinode (finalDisk s) i).size = (data i).length := by
  rw [rinode_finalDisk hi]
  exact h.contents.size i

lemma size_root (hin : fs.length + 2 ≤ NINODES) (hi : i.val = ROOTINO) :
    (rinode (finalDisk s) i).size = (16 * (fs.length + 2) / BSIZE + 1) * BSIZE := by
  have hin : fs.length + 2 ≤ 200 := hin
  rw [rinode_finalDisk_root hi, h.contents.size i, h.length_root hi]
  refine Dinode.size_setSize ?_
  change (16 * (fs.length + 2) / 1024 + 1) * 1024 < _
  omega

lemma wellFormed (hfits : s.Fits) (hn : (fs.length + 2) % 64 ≠ 0) : WellFormed (finalDisk s) := by
  have hb := h.final.blocks
  have hin : fs.length + 2 ≤ NINODES := h.inodes ▸ hfits.1
  have hfb : s.freeblock ≤ 2000 := hfits.2
  refine ⟨fun i k hk => ?_, fun i j o o' ho ho' he => ?_, fun i o ho => ?_, ?_⟩
  · have hlive : k < nblk (data i).length := by
      by_cases hi : i.val = ROOTINO
      · rw [h.size_root hin hi] at hk
        rw [h.length_root hi]
        change k < ((16 * (fs.length + 2) / 1024 + 1) * 1024 + 1023) / 1024 at hk
        change k < (16 * (fs.length + 2) + 1023) / 1024
        omega
      · rwa [h.size_final hi] at hk
    exact hb.addrOf_ne_zero hlive
  · exact hb.slots.inj i j o o' (h.live_of_referenced ho) (h.live_of_referenced ho') he
  · have hlt := (hb.slots.alloc i o (h.live_of_referenced ho)).2
    generalize slotAddr (finalDisk s) (rinode (finalDisk s) i) o = b at hlt
    have hdiv : b / BPB = 0 := by
      change b / 8192 = 0
      omega
    have hmod : b % BPB = b := Nat.mod_eq_of_lt (by change b < 8192; omega)
    rw [Marked, hdiv, hmod, Nat.zero_add, and_bit_ne_zero (Nat.mod_lt _ (by decide)), finalDisk,
      wsect, update_self, bitmap_bit (by change s.freeblock ≤ 8192; omega)
        (by change b < 8192; omega)]
    exact hlt
  · rw [finalDisk_of_ne (by decide) (by decide), h.contents.front _ (.inl (by decide))]
    change (update (fun _ => Bytes.zero BSIZE) 1 superblock 2).getLE 4 0 = 0
    rw [update_of_ne (by decide), Bytes.getLE_zero]

lemma not_wellFormed (hfits : s.Fits) (hn : (fs.length + 2) % 64 = 0) :
    ¬WellFormed (finalDisk s) := by
  intro hwf
  obtain ⟨r, hr⟩ : ∃ r : Fin NINODES, r.val = ROOTINO := ⟨⟨1, by decide⟩, rfl⟩
  have hin : fs.length + 2 ≤ NINODES := h.inodes ▸ hfits.1
  have hin' : fs.length + 2 ≤ 200 := hin
  have hlen := h.length_root hr
  have hk := hwf.blocks r (nblk (data r).length) (by
    rw [h.size_root hin hr, hlen]
    change (16 * (fs.length + 2) + 1023) / 1024 <
      ((16 * (fs.length + 2) / 1024 + 1) * 1024 + 1023) / 1024
    omega)
  have hsmall : nblk (data r).length < NDIRECT := by
    rw [hlen]
    change (16 * (fs.length + 2) + 1023) / 1024 < 12
    omega
  exact hk (by rw [addrOf, if_pos hsmall]; exact h.final.blocks.direct r _ le_rfl hsmall)

end

end Built

/-- `mkfs` produces a well-formed image exactly if the number of its input files is not two less
than a multiple of 64, the number of entries in a block of a directory. -/
theorem mkfs_wellFormed_iff {fs : List Input} {s : Image} (h : mkfs fs = some s) (hfits : s.Fits) :
    WellFormed s.disk ↔ (fs.length + 2) % 64 ≠ 0 := by
  obtain ⟨s1, ty, data, hb, rfl⟩ := mkfs_built h hfits
  exact ⟨fun hwf hn => hb.not_wellFormed hfits hn hwf, hb.wellFormed hfits⟩

lemma exists_of_any {o : Option Image} {test : Image → Bool} (h : o.any test = true) :
    ∃ s, o = some s ∧ test s = true := by
  cases o with
  | none => cases h
  | some s => exact ⟨s, rfl, h⟩

/-- The image of one file of three bytes is well formed. -/
theorem mkfs_wellFormed_iff_one :
    ∃ s, mkfs [⟨[117, 115, 101, 114, 47, 95, 97], [[1, 2], [3]]⟩] = some s ∧ s.Fits ∧
      (WellFormed s.disk ↔ (1 + 2) % 64 ≠ 0) := by
  have hrun : (mkfs [⟨[117, 115, 101, 114, 47, 95, 97], [[1, 2], [3]]⟩]).any
      (fun s => decide s.Fits) = true := by
    decide +kernel
  obtain ⟨s, hs, hfits⟩ := exists_of_any hrun
  exact ⟨s, hs, of_decide_eq_true hfits, mkfs_wellFormed_iff hs (of_decide_eq_true hfits)⟩

def sixtyTwoFiles : List Input :=
  (List.range 62).map fun j => ⟨[UInt8.ofNat (97 + j / 26), UInt8.ofNat (97 + j % 26)], []⟩

/-- The image of sixty-two empty files is not well formed. -/
theorem mkfs_sixtyTwoFiles_not_wellFormed :
    ∃ s, mkfs sixtyTwoFiles = some s ∧ s.Fits ∧ ¬WellFormed s.disk := by
  have hrun : (mkfs sixtyTwoFiles).any
      (fun s => decide s.Fits) = true := by
    decide +kernel
  obtain ⟨s, hs, htest⟩ := exists_of_any hrun
  have hfits : s.Fits := of_decide_eq_true htest
  obtain ⟨s1, ty, data, hb, rfl⟩ := mkfs_built hs hfits
  exact ⟨_, hs, hfits, hb.not_wellFormed hfits (by decide)⟩

end Mkfs

end Xv6
