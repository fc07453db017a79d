import Xv6Kernel.Content.Array
import Xv6Kernel.Dirs.Model

/-!
# Operations on the blocks of an inode

`writei` and `iupdate` fill empty slots of the inode with blocks that were free, and they write no
marked block but those of the inode (`Works`).
-/

namespace Xv6

open Function

variable {b n lo hi c : ℕ} {P Q : ℕ → Prop}

namespace Dirs

open Mkfs (BPB Dinode)
open Content

/-! ## Inodes on the disk -/

def view (sb : Superblock) (fs : Fs) (i : ℕ) : Inode := ofDinode i (dinodeAt sb fs i)

structure Ranged (ip : Inode) : Prop where
  type : ip.type < 2 ^ 16
  nlink : ip.nlink < 2 ^ 16
  size : ip.size < 2 ^ 32
  addrs : ∀ k ≤ NDIRECT, ip.addrs k < 2 ^ 32

structure Coh (sb : Superblock) (fs : Fs) (ip : Inode) : Prop where
  type : (view sb fs ip.inum).type = ip.type
  nlink : (view sb fs ip.inum).nlink = ip.nlink
  size : (view sb fs ip.inum).size = ip.size
  addrs : ∀ k ≤ NDIRECT, (view sb fs ip.inum).addrs k = ip.addrs k

lemma getLE_foldl_addrs (a : ℕ → ℕ) (n : ℕ) (hn : n ≤ NDIRECT + 1) (din : Dinode) :
    (∀ w o, o + w ≤ 12 → ((List.range n).foldl (fun din k => din.setLE 4 (12 + 4 * k) (a k))
      din).getLE w o = din.getLE w o) ∧
    ∀ k < n, ((List.range n).foldl (fun din k => din.setLE 4 (12 + 4 * k) (a k)) din).getLE 4
      (12 + 4 * k) = a k % 2 ^ 32 := by
  induction n with
  | zero => exact ⟨fun _ _ _ => rfl, fun k hk => absurd hk (by omega)⟩
  | succ n ih =>
    have hn' : n + 1 ≤ 13 := hn
    obtain ⟨ih1, ih2⟩ := ih (by omega)
    rw [List.range_succ, List.foldl_append, List.foldl_cons, List.foldl_nil]
    refine ⟨fun w o ho => ?_, fun k hk => ?_⟩
    · rw [Bytes.getLE_setLE_of_disjoint _ _ _ _ _ _ (by omega), ih1 w o ho]
    · by_cases hkn : k = n
      · rw [hkn, Bytes.getLE_setLE _ _ _ _ (by omega)]
        norm_num
      · rw [Bytes.getLE_setLE_of_disjoint _ _ _ _ _ _ (by omega), ih2 k (by omega)]

lemma ofDinode_dinode (ip : Inode) (h : Ranged ip) (i : ℕ) :
    (ofDinode i ip.dinode).type = ip.type ∧ (ofDinode i ip.dinode).nlink = ip.nlink ∧
      (ofDinode i ip.dinode).size = ip.size ∧
        ∀ k ≤ NDIRECT, (ofDinode i ip.dinode).addrs k = ip.addrs k := by
  obtain ⟨h1, h2⟩ := getLE_foldl_addrs ip.addrs (NDIRECT + 1) le_rfl
    (((((Bytes.zero 64).setLE 2 0 ip.type).setLE 2 2 ip.major).setLE 2 4 ip.minor).setLE 2 6
      ip.nlink |>.setLE 4 8 ip.size)
  have htype := h.type
  have hnlink := h.nlink
  have hsize := h.size
  refine ⟨(h1 2 0 (by omega)).trans ?_, (h1 2 6 (by omega)).trans ?_, (h1 4 8 (by omega)).trans ?_,
    fun k hk => (h2 k (by omega)).trans (Nat.mod_eq_of_lt (h.addrs k hk))⟩
  · rw [Bytes.getLE_setLE_of_disjoint _ _ _ _ _ _ (by omega),
      Bytes.getLE_setLE_of_disjoint _ _ _ _ _ _ (by omega),
      Bytes.getLE_setLE_of_disjoint _ _ _ _ _ _ (by omega),
      Bytes.getLE_setLE_of_disjoint _ _ _ _ _ _ (by omega), Bytes.getLE_setLE _ _ _ _ (by omega)]
    exact Nat.mod_eq_of_lt (by omega)
  · rw [Bytes.getLE_setLE_of_disjoint _ _ _ _ _ _ (by omega), Bytes.getLE_setLE _ _ _ _ (by omega)]
    exact Nat.mod_eq_of_lt (by omega)
  · rw [Bytes.getLE_setLE _ _ _ _ (by omega)]
    exact Nat.mod_eq_of_lt (by omega)

section

variable {sb : Superblock} {fs fs' : Fs} {ip ip' jp : Inode}

lemma getLE_lt (k : ℕ) (b : Bytes n) (o : ℕ) : b.getLE k o < 2 ^ (8 * k) := by
  induction k generalizing o with
  | zero => exact Nat.one_pos
  | succ k ih =>
    have h := ih (o + 1)
    have hb := (b.get o).toNat_lt
    rw [Bytes.getLE, show 8 * (k + 1) = 8 * k + 8 by omega, pow_add]
    omega

lemma ranged_view (i : ℕ) : Ranged (view sb fs i) :=
  ⟨getLE_lt 2 _ _, getLE_lt 2 _ _, getLE_lt 4 _ _, fun _ _ => getLE_lt 4 _ _⟩

lemma Coh.ranged (h : Coh sb fs ip) : Ranged ip where
  type := h.type ▸ (ranged_view ip.inum).type
  nlink := h.nlink ▸ (ranged_view ip.inum).nlink
  size := h.size ▸ (ranged_view ip.inum).size
  addrs k hk := h.addrs k hk ▸ (ranged_view ip.inum).addrs k hk

lemma coh_of_dinodeAt (h : Ranged ip) (hd : dinodeAt sb fs ip.inum = ip.dinode) : Coh sb fs ip := by
  obtain ⟨h1, h2, h3, h4⟩ := ofDinode_dinode ip h ip.inum
  rw [← hd] at h1 h2 h3 h4
  exact ⟨h1, h2, h3, h4⟩

lemma slot_eq_of_addrs {g : Fs} (h : ∀ k ≤ NDIRECT, jp.addrs k = ip.addrs k) (s : ℕ) :
    slot g jp s = slot g ip s := by
  unfold slot
  rw [h NDIRECT le_rfl]
  by_cases hs : s ≤ NDIRECT
  · rw [if_pos hs, if_pos hs, h s hs]
  · rw [if_neg hs, if_neg hs]

/-! ## Images -/

/-- The inode that the reader of an image finds is the one found here. -/
lemma view_eq_ilock (h : Mkfs.Kernel.sbInodestart fs.data = sb.inodestart) (i : ℕ) :
    view sb fs i = ofDinode i (Mkfs.Kernel.ilock fs.data i) := by
  unfold Mkfs.Kernel.ilock
  rw [h]
  rfl

/-- The blocks that the reader of an image finds are those found here. -/
lemma bmap_image_iff (din : Dinode) (i bn : ℕ) {b : ℕ} : Mkfs.Kernel.bmap fs.data din bn = some b ↔
    bn < MAXFILE ∧ b ≠ 0 ∧ lookup fs (ofDinode i din) bn = b := by
  have hite : ∀ a, (if a = 0 then none else some a) = some b ↔ b ≠ 0 ∧ a = b := by
    intro a
    split <;> rename_i ha
    · exact iff_of_false (by simp) fun h => h.1 (h.2.symm.trans ha)
    · rw [Option.some.injEq]
      exact ⟨fun h => ⟨h ▸ ha, h⟩, And.right⟩
  unfold Mkfs.Kernel.bmap lookup slotOf
  by_cases hdir : bn < NDIRECT
  · rw [if_pos hdir, if_pos hdir, hite, slot, if_pos hdir.le,
      and_iff_right (hdir.trans (by decide))]
    rfl
  have hslot : slot fs (ofDinode i din) (bn + 1) = if din.addr NDIRECT = 0 then 0
      else (fs.data (din.addr NDIRECT)).getLE 4 (4 * (bn - NDIRECT)) := by
    rw [slot, if_neg (by omega), Nat.add_sub_add_right]
    rfl
  have hmax : MAXFILE = NDIRECT + NINDIRECT := rfl
  rw [if_neg hdir, if_neg hdir, hslot]
  by_cases hind : bn - NDIRECT < NINDIRECT
  · rw [if_pos hind, and_iff_right (by omega)]
    by_cases hzero : din.addr NDIRECT = 0
    · simp [hzero, eq_comm]
    · rw [if_neg hzero, if_neg hzero]
      exact hite _
  · rw [if_neg hind]
    exact iff_of_false (by simp) fun h => hind (by omega)

/-- The block that `balloc` takes on an image is the one taken here. -/
lemma balloc_image (hsize : Mkfs.Kernel.sbSize fs.data = sb.size)
    (hmap : Mkfs.Kernel.sbBmapstart fs.data = sb.bmapstart) :
    (Mkfs.Kernel.balloc fs.data).elim (0, fs.data) id =
      ((balloc sb fs).1, (balloc sb fs).2.data) := by
  unfold Mkfs.Kernel.balloc balloc
  simp only [Mkfs.Kernel.bblock, hmap, hsize]
  change (Option.map _ (List.find? (isFree sb fs) _)).elim _ _ = _
  cases (List.range sb.size).find? (isFree sb fs) <;> rfl

/-! ## Operations -/

/-- An operation on an inode that fills empty slots and writes the blocks in its slots. -/
structure Works (sb : Superblock) (fs : Fs) (ip : Inode) (fs' : Fs) (ip' : Inode) : Prop
    extends Fills sb fs ip fs' ip' where
  inum : ip'.inum = ip.inum
  slots : Slots sb fs' ip'
  data : ∀ b, sb.datastart ≤ b → b < sb.size → isFree sb fs b = false →
    (∀ s < nslots, b ≠ slot fs ip s) → fs'.data b = fs.data b
  dinode : ∀ j < sb.ninodes, j ≠ ip.inum → dinodeAt sb fs' j = dinodeAt sb fs j
  coh : Coh sb fs' ip'

namespace Works

lemma refl (hs : Slots sb fs ip) (hc : Coh sb fs ip) : Works sb fs ip fs ip :=
  ⟨.refl sb fs ip, rfl, hs, fun _ _ _ _ _ => rfl, fun _ _ _ => rfl, hc⟩

lemma trans {fs1 fs2 fs3 : Fs} {ip1 ip2 ip3 : Inode} (h : Works sb fs1 ip1 fs2 ip2)
    (h' : Works sb fs2 ip2 fs3 ip3) : Works sb fs1 ip1 fs3 ip3 where
  toFills := h.toFills.trans h'.slots h'.toFills
  inum := h'.inum.trans h.inum
  slots := h'.slots
  data b hle hlt hu hout := by
    rw [h'.data b hle hlt (h.used b hlt hu), h.data b hle hlt hu hout]
    intro s hs heq
    by_cases hzero : slot fs1 ip1 s = 0
    · have hfree := h.fresh s hs hzero (by rw [← heq]; have := sb.bmapstart_lt_datastart; omega)
      rw [← heq, hu] at hfree
      cases hfree
    · exact hout s hs (by rw [heq, h.keep s hs hzero])
  dinode j hj hne := by
    rw [h'.dinode j hj (by rwa [h.inum]), h.dinode j hj hne]
  coh := h'.coh

lemma iupdate (hs : Slots sb fs ip) (hi : ip.inum < sb.ninodes) (hnum : ip'.inum = ip.inum)
    (haddrs : ip'.addrs = ip.addrs) (hr : Ranged ip') :
    Works sb fs ip (Content.iupdate sb fs ip') ip' := by
  have hi' : ip'.inum < sb.ninodes := by rwa [hnum]
  have hslot : ∀ s, slot (Content.iupdate sb fs ip') ip' s = slot fs ip s :=
    slot_iupdate hi' hs haddrs
  refine ⟨(Fills.refl sb fs ip).congr hslot fun b _ => isFree_iupdate hi' b, hnum,
    hs.congr (fun s _ => hslot s) fun b _ hu => by rwa [isFree_iupdate hi'], fun b hle _ _ _ => ?_,
    fun j _ hne => dinodeAt_iupdate_of_ne (by rwa [hnum]),
    coh_of_dinodeAt hr dinodeAt_iupdate_self⟩
  exact data_iupdate hi' (sb.bmapstart_lt_datastart.le.trans hle)

end Works

lemma not_touched_of_out (hle : sb.datastart ≤ b) (hu : isFree sb fs b = false)
    (hind : b ≠ slot fs ip NDIRECT)
    (hout : ∀ i, lo ≤ i → i < hi → b ≠ lookup fs ip (i / BSIZE)) : ¬Touched sb fs ip lo hi b := by
  rintro (⟨-, hx⟩ | ⟨-, hfree⟩ | ⟨-, hx⟩ | ⟨i, hi1, hi2, -, hx⟩)
  · omega
  · rw [hu] at hfree
    cases hfree
  · exact hind hx
  · exact hout i hi1 hi2 hx

lemma works_of_run {f : ℕ → UInt8} {l : List ℕ} {jp : Inode}
    (hrun : Content.Run sb f lo hi l fs ip fs' jp) (h : Wf sb fs ip) (hhi : hi ≤ MAXFILE * BSIZE)
    (hr : Ranged ip) (hip : ip' = { jp with size := n }) (hn : n < 2 ^ 32) :
    Works sb fs ip (iupdate sb fs' ip') ip' := by
  have hsame := hrun.ext.same
  have hnum : ip'.inum = ip.inum := by rw [hip, hsame]
  have hi' : ip'.inum < sb.ninodes := by
    rw [hnum]
    exact h.inum
  have haddrs : ip'.addrs = jp.addrs := by rw [hip]
  have hslot : ∀ s, slot (iupdate sb fs' ip') ip' s = slot fs' jp s :=
    slot_iupdate hi' hrun.slots haddrs
  have hranged : Ranged ip' := by
    refine ⟨?_, ?_, by rwa [hip], fun k hk => ?_⟩
    · rw [hip, hsame]
      exact hr.type
    · rw [hip, hsame]
      exact hr.nlink
    · have hk' : k < 269 := lt_of_le_of_lt hk (by decide)
      have hs : slot fs' jp k = jp.addrs k := if_pos hk
      rw [haddrs, ← hs]
      by_cases hzero : slot fs' jp k = 0
      · rw [hzero]
        exact Nat.two_pow_pos 32
      · exact (hrun.slots.lt k hk' hzero).trans sb.size_lt
  refine ⟨hrun.ext.toFills.congr hslot fun b _ => isFree_iupdate hi' b, hnum,
    hrun.slots.congr (fun s _ => hslot s) fun b _ hu => by rwa [isFree_iupdate hi'],
    fun b hle _ hu hout => ?_, fun j hj hne => ?_, coh_of_dinodeAt hranged dinodeAt_iupdate_self⟩
  · rw [data_iupdate hi' (sb.bmapstart_lt_datastart.le.trans hle)]
    refine hrun.logged.data b fun hx => not_touched_of_out hle hu (hout _ (by decide))
      (fun i _ hi => hout _ (slotOf_lt (div_lt_MAXFILE (by omega)))) (hrun.touch b hx)
  · rw [dinodeAt_iupdate_of_ne (by rwa [hnum])]
    exact (hrun.apart h hhi).dinode j hj hne

/-- An operation on a directory that fails: at most the indirect block is new. -/
structure Kept (sb : Superblock) (fs : Fs) (ip : Inode) (fs' : Fs) (ip' : Inode) : Prop where
  type : ip'.type = ip.type
  nlink : ip'.nlink = ip.nlink
  size : ip'.size = ip.size
  only : ∀ s < nslots, s ≠ NDIRECT → slot fs' ip' s = slot fs ip s
  bytes : ∀ i < ip.size, byteAt fs' ip' i = byteAt fs ip i

lemma writeDirent_spec (h : Wf sb fs ip) (hc : Coh sb fs ip) {off : ℕ} {de : Dirent} {r : ℤ}
    (h16 : off % 16 = 0) (hoff : off ≤ ip.size)
    (hw : writeDirent sb fs ip off de = some (r, ip', fs')) :
    Works sb fs ip fs' ip' ∧ Wf sb fs' ip' ∧ ip'.type = ip.type ∧ ip'.nlink = ip.nlink ∧
      (r ≠ 16 → Kept sb fs ip fs' ip') := by
  have hmax : ip.size ≤ 274432 := h.size_le
  have hofft : (UInt32.ofNat off).toNat = off := by
    rw [UInt32.toNat_ofNat', Nat.mod_eq_of_lt (by omega)]
  unfold writeDirent at hw
  by_cases hacc : Accepts ip (UInt32.ofNat off) 16
  swap
  · rw [writei, if_neg hacc] at hw
    cases hw
    exact ⟨.refl h.slots hc, h, rfl, rfl, fun _ => ⟨rfl, rfl, rfl, fun _ _ _ => rfl,
      fun _ _ => rfl⟩⟩
  have hbound : off + 16 ≤ 274432 := by
    have := (accepts_iff.mp hacc).2
    rwa [hofft] at this
  obtain ⟨tot, ip1, fs1, hw1, -, -, hip1, hwf1, -⟩ :=
    writei_spec h hacc (show ∀ k < (16 : UInt32).toNat, ((direntMem de).byte false (0 + k)).isSome
      from fun _ _ => rfl)
  rw [hw1] at hw
  cases hw
  rw [writei, if_pos hacc] at hw1
  obtain ⟨w, hloop, hend⟩ := Option.map_eq_some_iff.mp hw1
  obtain ⟨hw, hfs, htot⟩ : (writeEnd sb (UInt32.ofNat off).toNat w).2.1 = ip' ∧
      (writeEnd sb (UInt32.ofNat off).toNat w).2.2 = fs' ∧ ((w.tot : ℕ) : ℤ) = (tot : ℤ) :=
    ⟨by rw [hend], by rw [hend], congrArg Prod.fst hend⟩
  rw [hofft] at hw hfs hloop
  have hend' : fs' = iupdate sb w.fs ip' := by rw [← hfs, ← hw]; rfl
  change writeLoop sb (direntMem de) false 16 (15 + 1) fs ip 0 off 0 = some w at hloop
  obtain ⟨addr, jp, gs, l, hmap, hround⟩ := writeRound_spec (direntMem de) false h.reserved
    h.slots 0 (show 0 < 16 - 0 by omega)
    (show off < MAXFILE * BSIZE by change off < 274432; omega)
    (f := fun i => (direntMem de).val false (0 + (i - off))) fun _ _ => rfl
  rw [writeLoop, if_pos (by omega)] at hloop
  rcases hround with ⟨hzero, hround⟩ | ⟨hne, m, c, hm, hcopy, hround⟩
  · rw [hround] at hloop
    cases hloop
    have hrun := hmap.run (fun i => (direntMem de).val false (0 + (i - off))) off
    have hsame := hrun.ext.same
    have hjsize : jp.size = ip.size := by rw [hsame]
    have hjp : ip' = { jp with size := ip.size } := by
      rw [← hw, writeEnd]
      change (if jp.size < off + 0 then { jp with size := off + 0 } else jp) = _
      rw [if_neg (by omega), ← hjsize]
    have hworks : Works sb fs ip fs' ip' := by
      rw [hend']
      exact works_of_run hrun h (by change off ≤ 274432; omega) hc.ranged hjp hc.ranged.size
    refine ⟨hworks, hwf1, by rw [hip1], by rw [hip1], fun _ => ⟨by rw [hip1], by rw [hip1],
      by rw [hjp], fun s hs hsi => ?_, fun i hi => ?_⟩⟩
    · have hslot : slot fs' ip' s = slot gs jp s := by
        rw [hend']
        exact slot_iupdate hwf1.inum hrun.slots (by rw [hjp]) s
      by_cases hbn : s = slotOf (off / BSIZE)
      · have hz : slot gs jp s = 0 := by
          rw [hbn]
          exact hmap.lookup.trans hzero
        rw [hslot, hz]
        by_contra hne'
        exact hne' ((hrun.ext.keep s hs (Ne.symm hne')).symm.trans hz).symm
      · rw [hslot, hmap.only s hs hsi hbn]
    · have hi' : i < 274432 := by omega
      have hlook := h.lookup_ne hi
      have hlook' := hrun.ext.lookup (div_lt_MAXFILE hi') hlook
      rw [hend', byteAt_iupdate hwf1.inum hrun.slots (by rw [hjp]) hi' (by rwa [hlook'])]
      exact hrun.old i hi' (by omega) hlook
  · have hm' : m = min (16 - 0) (1024 - off % 1024) := hm
    have hm16 : m = 16 := by omega
    subst hm16
    rcases hround with ⟨hbad, -⟩ | ⟨-, hround, hrun⟩
    · rw [hcopy] at hbad
      cases hbad
    rw [hround] at hloop
    have hloop : some (⟨16, .done, jp, Content.logWrite (gs.put addr c.1) addr⟩ : Written) =
        some w := by
      rw [← hloop]
      rfl
    cases hloop
    have hjsize : jp.size = ip.size := by rw [hrun.ext.same]
    have hjp : ip' = { jp with size := max ip.size (off + 16) } := by
      rw [← hw, writeEnd]
      change (if jp.size < off + 16 then { jp with size := off + 16 } else jp) = _
      rw [← hjsize]
      by_cases hlt : jp.size < off + 16
      · rw [if_pos hlt, max_eq_right hlt.le]
      · rw [if_neg hlt, max_eq_left (by omega)]
    refine ⟨?_, hwf1, by rw [hip1], by rw [hip1], fun hr => ?_⟩
    · rw [hend']
      exact works_of_run hrun h hbound hc.ranged hjp (by omega)
    · exact absurd htot.symm hr

end

/-! ## `itrunc` -/

/-- The blocks of `P` are given back; only bitmap blocks are written. -/
structure Freed (sb : Superblock) (fs : Fs) (P : ℕ → Prop) (fs' : Fs) : Prop where
  free : ∀ c < sb.size, isFree sb fs' c = true ↔ P c ∨ isFree sb fs c = true
  data : ∀ x, ¬(sb.bmapstart ≤ x ∧ x < sb.datastart) → fs'.data x = fs.data x

section

variable {sb : Superblock} {fs fs' fs'' : Fs}

lemma Freed.refl (sb : Superblock) (fs : Fs) : Freed sb fs (fun _ => False) fs :=
  ⟨fun _ _ => by rw [false_or], fun _ _ => rfl⟩

lemma Freed.trans (h : Freed sb fs P fs') (h' : Freed sb fs' Q fs'') :
    Freed sb fs (fun c => P c ∨ Q c) fs'' where
  free c hc := by
    rw [h'.free c hc, h.free c hc]
    tauto
  data x hx := by rw [h'.data x hx, h.data x hx]

lemma Freed.congr (h : Freed sb fs P fs') (hPQ : ∀ c, P c ↔ Q c) : Freed sb fs Q fs' :=
  ⟨fun c hc => by rw [h.free c hc, hPQ], h.data⟩

lemma and_not_bit {x : UInt8} {a : ℕ} (ha : a < 8) :
    (x &&& ~~~(1 <<< UInt8.ofNat a)).toNat.testBit c = true ↔ a ≠ c ∧ x.toNat.testBit c = true := by
  have hbit : ∀ y : UInt8, y.toNat.testBit c = y.toBitVec.getLsbD c := fun _ => rfl
  have hone : (1 <<< UInt8.ofNat a : UInt8).toBitVec.getLsbD c = decide (a = c) := by
    rw [← hbit, toNat_one_shiftLeft ha, Nat.testBit_two_pow]
  rw [hbit, UInt8.toBitVec_and, UInt8.toBitVec_not, BitVec.getLsbD_and, BitVec.getLsbD_not, hone,
    hbit]
  by_cases hc : c < 8
  · simp [hc, and_comm]
  · have hx : x.toBitVec.getLsbD c = false := BitVec.getLsbD_of_ge _ _ (by omega)
    simp [hx]

lemma isFree_cleared (h : fs'.data (sb.bblock b) = cleared sb fs b)
    (hother : sb.bblock c ≠ sb.bblock b → fs'.data (sb.bblock c) = fs.data (sb.bblock c)) :
    isFree sb fs' c = false ↔ c ≠ b ∧ isFree sb fs c = false := by
  by_cases hblock : sb.bblock c = sb.bblock b
  · have hdiv : c / 8192 = b / 8192 := by
      change c / 8192 + sb.bmapstart = b / 8192 + sb.bmapstart at hblock
      omega
    rw [isFree_eq_false, isFree_eq_false, hblock, h, cleared]
    by_cases hbyte : c % BPB / 8 = b % BPB / 8
    · have hbyte' : c % 8192 / 8 = b % 8192 / 8 := hbyte
      rw [hbyte, Bytes.get_set_self _ _ (by change b % 8192 / 8 < 1024; omega),
        and_not_bit (Nat.mod_lt _ (by decide))]
      refine and_congr (not_congr ⟨fun hbit => ?_, fun hcb => by rw [hcb]⟩) Iff.rfl
      have hbit : b % 8192 % 8 = c % 8192 % 8 := hbit
      omega
    rw [Bytes.get_set_of_ne _ _ hbyte]
    refine ⟨fun hbit => ⟨?_, hbit⟩, And.right⟩
    rintro rfl
    exact hbyte rfl
  · rw [isFree_congr (hother hblock)]
    refine ⟨fun hbit => ⟨?_, hbit⟩, And.right⟩
    rintro rfl
    exact hblock rfl

lemma bfree_spec (hb : b < sb.size) (hu : isFree sb fs b = false) :
    ∃ fs', bfree sb fs b = some fs' ∧ Freed sb fs (fun c => c = b) fs' := by
  refine ⟨_, by rw [bfree, if_neg (by rw [hu]; exact Bool.false_ne_true)], fun c hc => ?_,
    fun x hx => ?_⟩
  · rw [← Bool.not_eq_false, isFree_cleared (data_logWrite_put _ _ _) fun hne =>
      update_of_ne hne _ _, ← Bool.not_eq_false (isFree sb fs c)]
    tauto
  · have hlt := sb.bblock_lt hb
    have hle := sb.bmapstart_le_bblock b
    exact update_of_ne (by omega) _ _

def Own (sb : Superblock) (fs : Fs) (b : ℕ) : Prop :=
  sb.datastart ≤ b ∧ b < sb.size ∧ isFree sb fs b = false

lemma Own.freed (h : Own sb fs b) (hf : Freed sb fs P fs') (hP : ¬P b) : Own sb fs' b := by
  refine ⟨h.1, h.2.1, ?_⟩
  rw [← Bool.not_eq_true, hf.free b h.2.1, h.2.2]
  simpa using hP

lemma itruncDirect_spec (k : ℕ) : ∀ (fs : Fs) (ip : Inode), k ≤ NDIRECT →
    (∀ i, NDIRECT - k ≤ i → i < NDIRECT → ip.addrs i ≠ 0 → Own sb fs (ip.addrs i)) →
    (∀ i < NDIRECT, ∀ j < NDIRECT, ip.addrs i ≠ 0 → ip.addrs i = ip.addrs j → i = j) →
    ∃ ip' fs', itruncDirect sb k fs ip = some (ip', fs') ∧ ip' = { ip with addrs := ip'.addrs } ∧
      (∀ i, ip'.addrs i = if NDIRECT - k ≤ i ∧ i < NDIRECT then 0 else ip.addrs i) ∧
      Freed sb fs (fun c => c ≠ 0 ∧ ∃ i, NDIRECT - k ≤ i ∧ i < NDIRECT ∧ c = ip.addrs i) fs' := by
  induction k with
  | zero =>
    intro fs ip _ _ _
    refine ⟨ip, fs, rfl, rfl, fun i => (if_neg (by omega)).symm, (Freed.refl sb fs).congr ?_⟩
    rintro c
    refine ⟨False.elim, ?_⟩
    rintro ⟨-, i, hi, hi', -⟩
    omega
  | succ k ih =>
    intro fs ip hk hown honce
    have hk' : k + 1 ≤ 12 := hk
    have hi : NDIRECT - (k + 1) < NDIRECT := by omega
    rw [itruncDirect]
    by_cases hzero : ip.addrs (NDIRECT - (k + 1)) = 0
    · simp only [if_pos hzero]
      obtain ⟨ip', fs', hloop, hsame, haddrs, hfreed⟩ :=
        ih fs ip (by omega) (fun i hi => hown i (by omega)) honce
      refine ⟨ip', fs', hloop, hsame, fun i => ?_, hfreed.congr fun c => ?_⟩
      · rw [haddrs]
        by_cases hik : i = NDIRECT - (k + 1)
        · rw [hik, hzero, ite_self, ite_self]
        · exact if_congr (by omega) rfl rfl
      · refine and_congr_right fun hc => ⟨?_, ?_⟩
        · rintro ⟨i, h1, h2, rfl⟩
          exact ⟨i, by omega, h2, rfl⟩
        · rintro ⟨i, h1, h2, rfl⟩
          refine ⟨i, ?_, h2, rfl⟩
          by_contra hlt
          exact hc (by rw [show i = NDIRECT - (k + 1) by omega, hzero])
    · simp only [if_neg hzero]
      have hb := hown _ le_rfl hi hzero
      obtain ⟨fs1, hfree, hfreed1⟩ := bfree_spec hb.2.1 hb.2.2
      rw [hfree]
      have hupd : ∀ i, i ≠ NDIRECT - (k + 1) →
          update ip.addrs (NDIRECT - (k + 1)) 0 i = ip.addrs i :=
        fun i hne => update_of_ne hne _ _
      obtain ⟨ip', fs', hloop, hsame, haddrs, hfreed⟩ :=
        ih fs1 { ip with addrs := update ip.addrs (NDIRECT - (k + 1)) 0 } (by omega)
          (fun i hlo hhi hne => by
            have hik : i ≠ NDIRECT - (k + 1) := by omega
            dsimp only at hne ⊢
            rw [hupd i hik] at hne ⊢
            exact (hown i (by omega) hhi hne).freed hfreed1 fun heq =>
              hik (honce i hhi _ hi hne heq))
          (fun i hi' j hj hne heq => by
            have hik : i ≠ NDIRECT - (k + 1) := fun h => hne (by
              rw [h]
              exact update_self _ _ _)
            have hjk : j ≠ NDIRECT - (k + 1) := fun h => hne (by
              rw [heq, h]
              exact update_self _ _ _)
            dsimp only at hne heq
            rw [hupd i hik] at hne
            rw [hupd i hik, hupd j hjk] at heq
            exact honce i hi' j hj hne heq)
      refine ⟨ip', fs', hloop, hsame, fun i => ?_, (hfreed1.trans hfreed).congr fun c => ?_⟩
      · rw [haddrs]
        by_cases hik : i = NDIRECT - (k + 1)
        · rw [hik]
          refine Eq.trans ?_ (if_pos ⟨le_rfl, hi⟩).symm
          dsimp only
          rw [update_self, ite_self]
        · exact if_congr (by omega) rfl (hupd i hik)
      · constructor
        · rintro (rfl | ⟨hc, i, h1, h2, heq⟩)
          · exact ⟨hzero, _, le_rfl, hi, rfl⟩
          · exact ⟨hc, i, by omega, h2, by rw [heq]; exact hupd i (by omega)⟩
        · rintro ⟨hc, i, h1, h2, heq⟩
          by_cases hik : i = NDIRECT - (k + 1)
          · exact .inl (by rw [heq, hik])
          · exact .inr ⟨hc, i, by omega, h2, by rw [heq]; exact (hupd i hik).symm⟩

lemma itruncIndirect_spec {ind : ℕ} (hind : sb.datastart ≤ ind) {a : ℕ → ℕ} (k : ℕ) :
    ∀ (fs : Fs), k ≤ NINDIRECT → (∀ j, a j = (fs.data ind).getLE 4 (4 * j)) →
    (∀ j, NINDIRECT - k ≤ j → j < NINDIRECT → a j ≠ 0 → Own sb fs (a j)) →
    (∀ i < NINDIRECT, ∀ j < NINDIRECT, a i ≠ 0 → a i = a j → i = j) →
    ∃ fs', itruncIndirect sb ind k fs = some fs' ∧
      Freed sb fs (fun c => c ≠ 0 ∧ ∃ j, NINDIRECT - k ≤ j ∧ j < NINDIRECT ∧ c = a j) fs' := by
  induction k with
  | zero =>
    intro fs _ _ _ _
    refine ⟨fs, rfl, (Freed.refl sb fs).congr fun c => ⟨False.elim, ?_⟩⟩
    rintro ⟨-, i, hi, hi', -⟩
    omega
  | succ k ih =>
    intro fs hk ha hown honce
    have hk' : k + 1 ≤ 256 := hk
    have hi : NINDIRECT - (k + 1) < NINDIRECT := by
      change 256 - (k + 1) < 256
      omega
    rw [itruncIndirect]
    simp only [← ha]
    by_cases hzero : a (NINDIRECT - (k + 1)) = 0
    · rw [if_pos hzero]
      obtain ⟨fs', hloop, hfreed⟩ := ih fs (by omega) ha (fun i hi => hown i (by omega)) honce
      refine ⟨fs', hloop, hfreed.congr fun c => and_congr_right fun hc => ⟨?_, ?_⟩⟩
      · rintro ⟨i, h1, h2, rfl⟩
        exact ⟨i, by omega, h2, rfl⟩
      · rintro ⟨i, h1, h2, rfl⟩
        refine ⟨i, ?_, h2, rfl⟩
        by_contra hlt
        exact hc (by rw [show i = NINDIRECT - (k + 1) by omega, hzero])
    · rw [if_neg hzero]
      have hb := hown _ le_rfl hi hzero
      obtain ⟨fs1, hfree, hfreed1⟩ := bfree_spec hb.2.1 hb.2.2
      rw [hfree]
      obtain ⟨fs', hloop, hfreed⟩ := ih fs1 (by omega)
        (fun j => by rw [ha, hfreed1.data ind (by omega)])
        (fun i hlo hhi hne => (hown i (by omega) hhi hne).freed hfreed1 fun heq => by
          have := honce i hhi _ hi hne heq
          omega) honce
      refine ⟨fs', hloop, (hfreed1.trans hfreed).congr fun c => ⟨?_, ?_⟩⟩
      · rintro (rfl | ⟨hc, i, h1, h2, heq⟩)
        · exact ⟨hzero, _, le_rfl, hi, rfl⟩
        · exact ⟨hc, i, by omega, h2, heq⟩
      · rintro ⟨hc, i, h1, h2, heq⟩
        by_cases hik : i = NINDIRECT - (k + 1)
        · exact .inl (by rw [heq, hik])
        · exact .inr ⟨hc, i, by omega, h2, heq⟩

def InSlot (fs : Fs) (ip : Inode) (c : ℕ) : Prop := c ≠ 0 ∧ ∃ s < nslots, c = slot fs ip s

lemma own_of_slots {ip : Inode} (hs : Slots sb fs ip) {s : ℕ} (hlt : s < nslots)
    (hne : slot fs ip s ≠ 0) : Own sb fs (slot fs ip s) :=
  ⟨hs.le s hlt hne, hs.lt s hlt hne, hs.used s hlt hne⟩

/-- `itrunc` frees the blocks of the inode, and no others. -/
lemma itrunc_spec {ip : Inode} (hs : Slots sb fs ip) :
    ∃ ip' g, itrunc sb fs ip = some (ip', iupdate sb g ip') ∧
      ip' = { ip with size := 0, addrs := ip'.addrs } ∧ (∀ k ≤ NDIRECT, ip'.addrs k = 0) ∧
      Freed sb fs (InSlot fs ip) g := by
  have hdir : ∀ i ≤ NDIRECT, slot fs ip i = ip.addrs i := fun i hi => if_pos hi
  have hlt : ∀ i ≤ NDIRECT, i < nslots := fun i hi => lt_of_le_of_lt hi (by decide)
  have honce : ∀ i ≤ NDIRECT, ∀ j ≤ NDIRECT, ip.addrs i ≠ 0 → ip.addrs i = ip.addrs j → i = j := by
    intro i hi j hj hne heq
    rw [← hdir i hi] at hne heq
    rw [← hdir j hj] at heq
    exact hs.once i (hlt i hi) j (hlt j hj) hne heq
  obtain ⟨ip1, fs1, hloop, hsame, haddrs, hfreed⟩ := @itruncDirect_spec sb NDIRECT fs ip le_rfl
    (fun i _ hi hne => by
      rw [← hdir i hi.le] at hne ⊢
      exact own_of_slots hs (hlt i hi.le) hne)
    (fun i hi j hj => honce i hi.le j hj.le)
  have hind : ip1.addrs NDIRECT = ip.addrs NDIRECT := by
    rw [haddrs, if_neg (by omega)]
  have hzero : ∀ k < NDIRECT, ip1.addrs k = 0 := fun k hk => by
    rw [haddrs, if_pos ⟨by omega, hk⟩]
  unfold itrunc
  rw [hloop]
  dsimp only
  rw [hind]
  by_cases hi : ip.addrs NDIRECT = 0
  · rw [if_pos hi]
    refine ⟨_, fs1, rfl, by rw [hsame], fun k hk => ?_, hfreed.congr fun c => ?_⟩
    · change ip1.addrs k = 0
      rcases hk.lt_or_eq with hk | rfl
      · exact hzero k hk
      · rw [hind, hi]
    · refine and_congr_right fun hc => ⟨?_, ?_⟩
      · rintro ⟨i, -, hi', rfl⟩
        exact ⟨i, hlt i hi'.le, (hdir i hi'.le).symm⟩
      · rintro ⟨s, hs', rfl⟩
        by_cases hsd : s < NDIRECT
        · exact ⟨s, by omega, hsd, hdir s hsd.le⟩
        refine absurd ?_ hc
        unfold slot
        rw [if_pos hi]
        split
        · rw [show s = NDIRECT by omega, hi]
        · rfl
  · rw [if_neg hi]
    have hown : Own sb fs (ip.addrs NDIRECT) := by
      rw [← hdir NDIRECT le_rfl] at hi ⊢
      exact own_of_slots hs (by decide) hi
    have hout : ∀ s < nslots, NDIRECT ≤ s → slot fs ip s ≠ 0 → Own sb fs1 (slot fs ip s) := by
      intro s hlt' hle hne
      refine (own_of_slots hs hlt' hne).freed hfreed ?_
      rintro ⟨-, i, -, hi', heq⟩
      rw [← hdir i hi'.le] at heq
      have := hs.once s hlt' i (hlt i hi'.le) hne heq
      omega
    have hentry : ∀ j, slot fs ip (NDIRECT + 1 + j) =
        (fs1.data (ip.addrs NDIRECT)).getLE 4 (4 * j) := by
      intro j
      rw [hfreed.data _ (by have := hown.1; omega), slot, if_neg (by omega), if_neg hi,
        Nat.add_sub_cancel_left]
    have hj : ∀ j < NINDIRECT, NDIRECT + 1 + j < nslots := fun j hj => by
      have hj : j < 256 := hj
      change 12 + 1 + j < 269
      omega
    obtain ⟨fs2, hloop2, hfreed2⟩ := itruncIndirect_spec hown.1
      (a := fun j => slot fs ip (NDIRECT + 1 + j)) NINDIRECT fs1 le_rfl hentry
      (fun j _ hlt' hne => hout _ (hj j hlt') (by omega) hne)
      (fun i hi' j hj' hne heq => by
        have := hs.once _ (hj i hi') _ (hj j hj') hne heq
        omega)
    rw [hloop2]
    have hown2 : Own sb fs2 (ip.addrs NDIRECT) := by
      have h := hout NDIRECT (by decide) le_rfl (by rwa [hdir _ le_rfl])
      rw [← hdir NDIRECT le_rfl]
      refine h.freed hfreed2 ?_
      rintro ⟨hne, j, -, hlt', heq⟩
      have := hs.once _ (by decide) _ (hj j hlt') hne heq
      omega
    obtain ⟨fs3, hfree, hfreed3⟩ := bfree_spec hown2.2.1 hown2.2.2
    dsimp only
    rw [hfree]
    refine ⟨_, fs3, rfl, by rw [hsame], fun k hk => ?_,
      ((hfreed.trans hfreed2).trans hfreed3).congr fun c => ⟨?_, ?_⟩⟩
    · change update ip1.addrs NDIRECT 0 k = 0
      rcases hk.lt_or_eq with hk | rfl
      · rw [update_of_ne (by omega), hzero k hk]
      · exact update_self _ _ _
    · rintro ((⟨hc, i, -, hi', rfl⟩ | ⟨hc, j, -, hj', rfl⟩) | rfl)
      · exact ⟨hc, i, hlt i hi'.le, (hdir i hi'.le).symm⟩
      · exact ⟨hc, _, hj j hj', rfl⟩
      · exact ⟨hi, NDIRECT, by decide, (hdir _ le_rfl).symm⟩
    · rintro ⟨hc, s, hs', rfl⟩
      have hs' : s < 269 := hs'
      rcases Nat.lt_trichotomy s NDIRECT with hsd | rfl | hsd
      · exact .inl (.inl ⟨hc, s, by omega, hsd, hdir s hsd.le⟩)
      · exact .inr (hdir _ le_rfl)
      · have hsd' : 12 < s := hsd
        refine .inl (.inr ⟨hc, s - 13, by omega, ?_, ?_⟩)
        · change s - 13 < 256
          omega
        · change slot fs ip s = slot fs ip (12 + 1 + (s - 13))
          congr 1
          omega

end

end Dirs

end Xv6
