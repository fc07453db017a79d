import Xv6Kernel.Content.Model

/-!
# The blocks of an inode

An inode refers to its blocks through 269 slots: the direct addresses, the indirect block and its
entries.  In a well-formed file system the blocks in the slots are data blocks marked in the bitmap,
and no block is in two slots.
-/

namespace Xv6

open Function

variable {i bn : ℕ}

namespace Content

open Mkfs (IPB BPB Dinode)

/-! ## Layout -/

section Layout

variable (sb : Superblock)

lemma Superblock.bblock_lt {b : ℕ} (hb : b < sb.size) : sb.bblock b < sb.datastart := by
  have hfit := sb.bitmap_fits
  have hdiv : b / BPB ≤ sb.size / BPB := Nat.div_le_div_right hb.le
  unfold Superblock.bblock Superblock.datastart
  omega

lemma Superblock.bmapstart_le_bblock (b : ℕ) : sb.bmapstart ≤ sb.bblock b :=
  Nat.le_add_left _ _

lemma Superblock.bmapstart_lt_datastart : sb.bmapstart < sb.datastart := by
  have hfit : sb.bmapstart + (sb.size / 8192 + 1) ≤ sb.size - sb.nblocks := sb.bitmap_fits
  unfold Superblock.datastart
  omega

lemma Superblock.iblock_lt (hi : i < sb.ninodes) : sb.iblock i < sb.bmapstart := by
  have hfit := sb.inodes_fit
  have hdiv : i / IPB ≤ sb.ninodes / IPB := Nat.div_le_div_right hi.le
  unfold Superblock.iblock
  omega

lemma Superblock.datastart_le : sb.datastart ≤ sb.size := Nat.sub_le _ _

end Layout

/-! ## What `log_write` covers -/

/-- An operation calls `log_write` for the blocks of `l`, and changes no other. -/
structure Logged (fs : Fs) (l : List ℕ) (fs' : Fs) : Prop where
  calls : fs'.calls = fs.calls ++ l
  lh : ∀ b, b ∈ fs'.lh ↔ b ∈ fs.lh ∨ b ∈ l
  data : ∀ b, b ∉ l → fs'.data b = fs.data b

namespace Logged

lemma refl (fs : Fs) : Logged fs [] fs :=
  ⟨(List.append_nil _).symm, fun b => by simp, fun _ _ => rfl⟩

lemma trans {fs fs' fs'' : Fs} {l l' : List ℕ} (h : Logged fs l fs') (h' : Logged fs' l' fs'') :
    Logged fs (l ++ l') fs'' where
  calls := by rw [h'.calls, h.calls, List.append_assoc]
  lh b := by rw [h'.lh, h.lh, List.mem_append, or_assoc]
  data b hb := by
    rw [List.mem_append, not_or] at hb
    rw [h'.data b hb.2, h.data b hb.1]

lemma put (fs : Fs) (b : ℕ) (bp : Block) : Logged fs [b] (logWrite (fs.put b bp) b) where
  calls := rfl
  lh c := by
    change c ∈ (if b ∈ fs.lh then fs.lh else fs.lh ++ [b]) ↔ _
    split
    · rw [List.mem_singleton]
      constructor
      · exact .inl
      · rintro (hc | rfl)
        · exact hc
        · assumption
    · rw [List.mem_append]
  data c hc := update_of_ne (fun h => hc (List.mem_singleton.mpr h)) _ _

/-- At each of its calls of `log_write`, the log has at most as many blocks as in the end. -/
lemma card_le {fs fs' : Fs} {l l' : List ℕ} (h : Logged fs l fs') (hl : l' <+: l) :
    (fs.lh ++ l').toFinset.card ≤ fs'.lh.length := by
  refine (Finset.card_le_card fun b hb => ?_).trans (List.toFinset_card_le fs'.lh)
  rw [List.mem_toFinset, List.mem_append] at hb
  exact List.mem_toFinset.mpr ((h.lh b).mpr (hb.imp_right (hl.subset ·)))

end Logged

lemma data_logWrite_put (fs : Fs) (b : ℕ) (bp : Block) :
    (logWrite (fs.put b bp) b).data b = bp := update_self _ _ _

/-! ## The bitmap -/

section Bitmap

variable {sb : Superblock} {fs fs' : Fs}

lemma isFree_eq_false {b : ℕ} : isFree sb fs b = false ↔
      ((fs.data (sb.bblock b)).get (b % BPB / 8)).toNat.testBit (b % BPB % 8) = true := by
  unfold isFree
  rw [decide_eq_false_iff_not]
  exact and_bit_ne_zero (Nat.mod_lt _ (by decide))

lemma isFree_congr {b : ℕ} (h : fs'.data (sb.bblock b) = fs.data (sb.bblock b)) :
    isFree sb fs' b = isFree sb fs b := by
  unfold isFree
  rw [h]

lemma isFree_marked {b c : ℕ} (h : fs'.data (sb.bblock b) = marked sb fs b)
    (hother : sb.bblock c ≠ sb.bblock b → fs'.data (sb.bblock c) = fs.data (sb.bblock c)) :
    isFree sb fs' c = false ↔ c = b ∨ isFree sb fs c = false := by
  by_cases hblock : sb.bblock c = sb.bblock b
  · have hdiv : c / 8192 = b / 8192 := by
      change c / 8192 + sb.bmapstart = b / 8192 + sb.bmapstart at hblock
      omega
    rw [isFree_eq_false, isFree_eq_false, hblock, h, marked]
    by_cases hbyte : c % BPB / 8 = b % BPB / 8
    · have hbyte' : c % 8192 / 8 = b % 8192 / 8 := hbyte
      rw [hbyte, Bytes.get_set_self _ _ (by change b % 8192 / 8 < 1024; omega),
        or_bit (Nat.mod_lt _ (by decide))]
      refine or_congr ⟨fun hbit => ?_, fun hcb => by rw [hcb]⟩ Iff.rfl
      have hbit : b % 8192 % 8 = c % 8192 % 8 := hbit
      omega
    · rw [Bytes.get_set_of_ne _ _ hbyte, or_iff_right]
      rintro rfl
      exact hbyte rfl
  · rw [isFree_congr (hother hblock), or_iff_right]
    rintro rfl
    exact hblock rfl

def Reserved (sb : Superblock) (fs : Fs) : Prop := ∀ b < sb.datastart, isFree sb fs b = false

/-- A marked block stays marked while other blocks are allocated; a block of the bitmap is written
only for that. -/
lemma Reserved.ne_zero (h : Reserved sb fs) {b : ℕ} (hb : isFree sb fs b = true) :
    sb.datastart ≤ b := by
  by_contra hlt
  rw [h b (by omega)] at hb
  cases hb

structure Balloc (sb : Superblock) (fs : Fs) (b : ℕ) (fs' : Fs) : Prop where
  lt : b < sb.size
  free : isFree sb fs b = true
  le : sb.datastart ≤ b
  marks : ∀ c < sb.size, isFree sb fs' c = false ↔ c = b ∨ isFree sb fs c = false
  zero : fs'.data b = Bytes.zero BSIZE
  logged : Logged fs [sb.bblock b, b] fs'

def Full (sb : Superblock) (fs : Fs) : Prop := ∀ b < sb.size, isFree sb fs b = false

/-- `balloc` fails on a full disk, or takes a free block, which it marks and clears. -/
lemma balloc_spec (h : Reserved sb fs) : (balloc sb fs = (0, fs) ∧ Full sb fs) ∨
      ((balloc sb fs).1 ≠ 0 ∧ Balloc sb fs (balloc sb fs).1 (balloc sb fs).2) := by
  unfold balloc
  rcases hfind : (List.range sb.size).find? (isFree sb fs) with _ | b
  · refine .inl ⟨rfl, fun b hb => ?_⟩
    have hb := List.find?_eq_none.mp hfind b (List.mem_range.mpr hb)
    simpa using hb
  have hfree : isFree sb fs b = true := List.find?_some hfind
  have hlt : b < sb.size := List.mem_range.mp (List.mem_of_find?_eq_some hfind)
  have hle := h.ne_zero hfree
  have hmap := sb.bmapstart_lt_datastart
  have hne : ∀ c < sb.size, sb.bblock c ≠ b := fun c hc => by
    have := sb.bblock_lt hc
    omega
  have hlog := (Logged.put fs (sb.bblock b) (marked sb fs b)).trans
    (Logged.put (logWrite (fs.put (sb.bblock b) (marked sb fs b)) (sb.bblock b)) b
      (Bytes.zero BSIZE))
  refine .inr ⟨show b ≠ 0 by omega, hlt, hfree, hle, fun c hc => ?_, data_logWrite_put _ _ _,
    hlog⟩
  refine isFree_marked ?_ fun hother => hlog.data _ ?_
  · exact (update_of_ne (hne b hlt) _ _).trans (data_logWrite_put _ _ _)
  · simp [hother, hne c hc]

lemma Full.balloc (h : Full sb fs) : balloc sb fs = (0, fs) := by
  unfold Content.balloc
  rw [List.find?_eq_none.mpr]
  intro b hb
  rw [h b (List.mem_range.mp hb)]
  exact Bool.false_ne_true

end Bitmap

/-! ## Slots -/

abbrev nslots : ℕ := MAXFILE + 1

/-- The block in a slot: a direct address, the indirect block, or an entry of it. -/
def slot (fs : Fs) (ip : Inode) (s : ℕ) : ℕ :=
  if s ≤ NDIRECT then ip.addrs s
  else if ip.addrs NDIRECT = 0 then 0
  else (fs.data (ip.addrs NDIRECT)).getLE 4 (4 * (s - (NDIRECT + 1)))

def slotOf (bn : ℕ) : ℕ := if bn < NDIRECT then bn else bn + 1

/-- The block of the file with the number `bn`, zero if it has none. -/
def lookup (fs : Fs) (ip : Inode) (bn : ℕ) : ℕ := slot fs ip (slotOf bn)

lemma slotOf_ne (bn : ℕ) : slotOf bn ≠ NDIRECT := by
  change (if bn < 12 then bn else bn + 1) ≠ 12
  split <;> omega

lemma slotOf_lt (h : bn < MAXFILE) : slotOf bn < nslots := by
  have h : bn < 268 := h
  change (if bn < 12 then bn else bn + 1) < 269
  split <;> omega

lemma slotOf_inj {bn' : ℕ} (h : slotOf bn = slotOf bn') : bn = bn' := by
  change (if bn < 12 then bn else bn + 1) = (if bn' < 12 then bn' else bn' + 1) at h
  split at h <;> split at h <;> omega

structure Slots (sb : Superblock) (fs : Fs) (ip : Inode) : Prop where
  le : ∀ s < nslots, slot fs ip s ≠ 0 → sb.datastart ≤ slot fs ip s
  lt : ∀ s < nslots, slot fs ip s ≠ 0 → slot fs ip s < sb.size
  used : ∀ s < nslots, slot fs ip s ≠ 0 → isFree sb fs (slot fs ip s) = false
  once : ∀ s < nslots, ∀ t < nslots, slot fs ip s ≠ 0 → slot fs ip s = slot fs ip t → s = t

lemma slot_congr {fs fs' : Fs} {ip ip' : Inode} (haddrs : ip'.addrs = ip.addrs)
    (hdata : ip.addrs NDIRECT ≠ 0 → fs'.data (ip.addrs NDIRECT) = fs.data (ip.addrs NDIRECT))
    (s : ℕ) : slot fs' ip' s = slot fs ip s := by
  unfold slot
  rw [haddrs]
  by_cases hind : ip.addrs NDIRECT = 0
  · rw [if_pos hind, if_pos hind]
  · rw [if_neg hind, if_neg hind, hdata hind]

lemma Slots.congr {sb : Superblock} {fs fs' : Fs} {ip jp : Inode} (hs : Slots sb fs ip)
    (hslot : ∀ s < nslots, slot fs' jp s = slot fs ip s)
    (hused : ∀ b < sb.size, isFree sb fs b = false → isFree sb fs' b = false) : Slots sb fs' jp := by
  refine ⟨fun s hlt hne => ?_, fun s hlt hne => ?_, fun s hlt hne => ?_,
    fun s hlt t ht hne heq => ?_⟩
  · rw [hslot s hlt] at hne ⊢
    exact hs.le s hlt hne
  · rw [hslot s hlt] at hne ⊢
    exact hs.lt s hlt hne
  · rw [hslot s hlt] at hne ⊢
    exact hused _ (hs.lt s hlt hne) (hs.used s hlt hne)
  · rw [hslot s hlt] at hne
    rw [hslot s hlt, hslot t ht] at heq
    exact hs.once s hlt t ht hne heq

/-- The blocks that an allocation logs: the bitmap block, the new block and, for an entry, the
indirect block. -/
lemma mem_allocLogged {sb : Superblock} {fs : Fs} {ip : Inode} {s b x : ℕ}
    (hx : x ∈ [sb.bblock b, b] ++ if NDIRECT < s then [slot fs ip NDIRECT] else []) :
    x = sb.bblock b ∨ x = b ∨ (NDIRECT < s ∧ x = slot fs ip NDIRECT) := by
  rw [List.mem_append, List.mem_pair] at hx
  rcases hx with (hx | hx) | hx
  · exact .inl hx
  · exact .inr (.inl hx)
  · by_cases hs : NDIRECT < s
    · rw [if_pos hs, List.mem_singleton] at hx
      exact .inr (.inr ⟨hs, hx⟩)
    · rw [if_neg hs] at hx
      cases hx

structure AllocAt (sb : Superblock) (fs : Fs) (ip : Inode) (s b : ℕ) (fs' : Fs) (ip' : Inode) :
    Prop where
  empty : slot fs ip s = 0
  bound : s < nslots
  lt : b < sb.size
  free : isFree sb fs b = true
  le : sb.datastart ≤ b
  marks : ∀ c < sb.size, isFree sb fs' c = false ↔ c = b ∨ isFree sb fs c = false
  same : ip' = { ip with addrs := ip'.addrs }
  self : slot fs' ip' s = b
  other : ∀ t < nslots, t ≠ s → slot fs' ip' t = slot fs ip t
  /-- The bitmap block, the block and, for an entry, the indirect block are logged. -/
  logged : Logged fs ([sb.bblock b, b] ++ if NDIRECT < s then [slot fs ip NDIRECT] else []) fs'

section Alloc

variable {sb : Superblock} {fs fs' : Fs} {ip ip' : Inode}

lemma Balloc.allocAt_addr {b : ℕ} (h : Balloc sb fs b fs') (hs : Slots sb fs ip)
    (hi : i ≤ NDIRECT) (hempty : ip.addrs i = 0) :
    AllocAt sb fs ip i b fs' { ip with addrs := update ip.addrs i b } := by
  have hi' : i ≤ 12 := hi
  have hmap := sb.bmapstart_lt_datastart
  have hle := h.le
  refine ⟨by rw [slot, if_pos hi, hempty], by change i < 269; omega, h.lt, h.free, h.le, h.marks,
    rfl, ?_, ?_, ?_⟩
  · rw [slot, if_pos hi]
    exact update_self _ _ _
  · intro t ht hti
    unfold slot
    change (if t ≤ NDIRECT then update ip.addrs i b t else
      if update ip.addrs i b NDIRECT = 0 then 0
      else (fs'.data (update ip.addrs i b NDIRECT)).getLE 4 (4 * (t - (NDIRECT + 1)))) = _
    rw [update_of_ne hti]
    by_cases htd : t ≤ NDIRECT
    · rw [if_pos htd, if_pos htd]
    rw [if_neg htd, if_neg htd]
    by_cases hind : i = NDIRECT
    · -- the new indirect block is zeroed
      subst hind
      rw [update_self, if_pos hempty, if_neg (by omega), h.zero, Bytes.getLE_zero]
    rw [update_of_ne (Ne.symm hind)]
    by_cases hzero : ip.addrs NDIRECT = 0
    · rw [if_pos hzero, if_pos hzero]
    have hslot : slot fs ip NDIRECT = ip.addrs NDIRECT := if_pos le_rfl
    have hused := hs.used NDIRECT (by decide) (by rwa [hslot])
    have hdata := hs.le NDIRECT (by decide) (by rwa [hslot])
    rw [hslot] at hused hdata
    have hbm := sb.bblock_lt h.lt
    rw [if_neg hzero, if_neg hzero, h.logged.data]
    rw [List.mem_pair, not_or]
    refine ⟨by omega, fun heq => ?_⟩
    rw [heq, h.free] at hused
    cases hused
  · rw [if_neg (by omega), List.append_nil]
    exact h.logged

lemma Balloc.allocAt_entry {k b : ℕ} (h : Balloc sb fs b fs') (hs : Slots sb fs ip)
    (hk : k < NINDIRECT) (hind : ip.addrs NDIRECT ≠ 0)
    (hempty : (fs.data (ip.addrs NDIRECT)).getLE 4 (4 * k) = 0) :
    AllocAt sb fs ip (NDIRECT + 1 + k) b (logWrite (fs'.put (ip.addrs NDIRECT)
        ((fs'.data (ip.addrs NDIRECT)).setLE 4 (4 * k) b)) (ip.addrs NDIRECT)) ip := by
  have hk' : k < 256 := hk
  have hsize := sb.size_lt
  have hlt := h.lt
  have hslot : slot fs ip NDIRECT = ip.addrs NDIRECT := if_pos le_rfl
  have hused := hs.used NDIRECT (by decide) (by rwa [hslot])
  have hdata := hs.le NDIRECT (by decide) (by rwa [hslot])
  rw [hslot] at hused hdata
  have hbm := sb.bblock_lt h.lt
  have hne : ip.addrs NDIRECT ≠ b := fun heq => by
    rw [heq, h.free] at hused
    cases hused
  have hold : fs'.data (ip.addrs NDIRECT) = fs.data (ip.addrs NDIRECT) := by
    refine h.logged.data _ ?_
    rw [List.mem_pair, not_or]
    exact ⟨by omega, hne⟩
  have hentry : ∀ t, NDIRECT < t → ∀ g : Fs,
      slot g ip t = (g.data (ip.addrs NDIRECT)).getLE 4 (4 * (t - (NDIRECT + 1))) := by
    intro t ht g
    rw [slot, if_neg (by omega), if_neg hind]
  refine ⟨?_, by change 12 + 1 + k < 269; omega, h.lt, h.free, h.le, ?_, rfl, ?_, ?_, ?_⟩
  · rw [hentry _ (by omega), Nat.add_sub_cancel_left, hempty]
  · intro c hc
    have hcb := sb.bblock_lt hc
    rw [← h.marks c hc, isFree_congr]
    exact update_of_ne (by omega) _ _
  · rw [hentry _ (by omega), Nat.add_sub_cancel_left, data_logWrite_put,
      Bytes.getLE_setLE _ _ _ _ (by change 4 * k + 4 ≤ 1024; omega)]
    exact Nat.mod_eq_of_lt (by omega)
  · intro t ht hts
    by_cases htd : t ≤ NDIRECT
    · rw [slot, slot, if_pos htd, if_pos htd]
    have htd' : ¬t ≤ 12 := htd
    rw [hentry t (by omega), hentry t (by omega), data_logWrite_put, hold,
      Bytes.getLE_setLE_of_disjoint]
    omega
  · rw [if_pos (by omega), hslot]
    exact h.logged.trans (Logged.put _ _ _)

/-- An operation fills empty slots of an inode with free blocks, and marks no others. -/
structure Fills (sb : Superblock) (fs : Fs) (ip : Inode) (fs' : Fs) (ip' : Inode) : Prop where
  used : ∀ b < sb.size, isFree sb fs b = false → isFree sb fs' b = false
  keep : ∀ s < nslots, slot fs ip s ≠ 0 → slot fs' ip' s = slot fs ip s
  fresh : ∀ s < nslots, slot fs ip s = 0 → slot fs' ip' s ≠ 0 →
    isFree sb fs (slot fs' ip' s) = true
  marked : ∀ b < sb.size, isFree sb fs' b = false → isFree sb fs b = false ∨
    ∃ s < nslots, slot fs ip s = 0 ∧ slot fs' ip' s = b ∧ b ≠ 0

namespace Fills

lemma refl (sb : Superblock) (fs : Fs) (ip : Inode) : Fills sb fs ip fs ip :=
  ⟨fun _ _ h => h, fun _ _ _ => rfl, fun _ _ h h' => absurd h h', fun _ _ h => .inl h⟩

lemma trans {fs1 fs2 fs3 : Fs} {ip1 ip2 ip3 : Inode} (h : Fills sb fs1 ip1 fs2 ip2)
    (hs : Slots sb fs3 ip3) (h' : Fills sb fs2 ip2 fs3 ip3) : Fills sb fs1 ip1 fs3 ip3 where
  used b hb hu := h'.used b hb (h.used b hb hu)
  keep s hs hne := by
    have heq := h.keep s hs hne
    rw [← heq]
    exact h'.keep s hs (by rwa [heq])
  fresh s hlt hzero hne := by
    by_cases hmid : slot fs2 ip2 s = 0
    · have hfree := h'.fresh s hlt hmid hne
      by_contra hused
      rw [Bool.not_eq_true] at hused
      rw [h.used _ (hs.lt s hlt hne) hused] at hfree
      cases hfree
    · rw [h'.keep s hlt hmid]
      exact h.fresh s hlt hzero hmid
  marked b hb hu := by
    rcases h'.marked b hb hu with hu | ⟨s, hlt, hzero, hslot, hne⟩
    · rcases h.marked b hb hu with hu | ⟨s, hlt, hzero, hslot, hne⟩
      · exact .inl hu
      · exact .inr ⟨s, hlt, hzero, by rw [h'.keep s hlt (by rwa [hslot]), hslot], hne⟩
    · refine .inr ⟨s, hlt, ?_, hslot, hne⟩
      by_contra hne'
      exact hne' ((h.keep s hlt hne').symm.trans hzero)

lemma congr {gs : Fs} {jp : Inode} (h : Fills sb fs ip fs' ip')
    (hslot : ∀ s, slot gs jp s = slot fs' ip' s)
    (hfree : ∀ b < sb.size, isFree sb gs b = isFree sb fs' b) : Fills sb fs ip gs jp where
  used b hb hu := (hfree b hb).trans (h.used b hb hu)
  keep s hs hne := (hslot s).trans (h.keep s hs hne)
  fresh s hs hzero hne := by
    rw [hslot] at hne ⊢
    exact h.fresh s hs hzero hne
  marked b hb hu := by
    simp only [hslot]
    exact h.marked b hb (by rwa [← hfree b hb])

lemma reserved (h : Fills sb fs ip fs' ip') (hr : Reserved sb fs) : Reserved sb fs' :=
  fun b hb => h.used b (hb.trans_le sb.datastart_le) (hr b hb)

end Fills

/-- An operation that changes nothing else in the inode. -/
structure Ext (sb : Superblock) (fs : Fs) (ip : Inode) (fs' : Fs) (ip' : Inode) : Prop
    extends Fills sb fs ip fs' ip' where
  same : ip' = { ip with addrs := ip'.addrs }

namespace Ext

lemma refl (sb : Superblock) (fs : Fs) (ip : Inode) : Ext sb fs ip fs ip := ⟨.refl sb fs ip, rfl⟩

lemma trans {fs1 fs2 fs3 : Fs} {ip1 ip2 ip3 : Inode} (h : Ext sb fs1 ip1 fs2 ip2)
    (hs : Slots sb fs3 ip3) (h' : Ext sb fs2 ip2 fs3 ip3) : Ext sb fs1 ip1 fs3 ip3 :=
  ⟨h.toFills.trans hs h'.toFills, by rw [h'.same, h.same]⟩

end Ext

namespace AllocAt

variable {s b : ℕ}

lemma slots (h : AllocAt sb fs ip s b fs' ip') (hs : Slots sb fs ip) : Slots sb fs' ip' := by
  have hcases : ∀ t < nslots, slot fs' ip' t ≠ 0 →
      (t = s ∧ slot fs' ip' t = b) ∨
        (t ≠ s ∧ slot fs' ip' t = slot fs ip t ∧ slot fs ip t ≠ 0) := by
    intro t ht hne
    by_cases hts : t = s
    · exact .inl ⟨hts, by rw [hts, h.self]⟩
    · have heq := h.other t ht hts
      exact .inr ⟨hts, heq, by rwa [← heq]⟩
  have hold : ∀ t < nslots, slot fs ip t ≠ 0 → slot fs ip t ≠ b := by
    intro t ht hne heq
    have hused := hs.used t ht hne
    rw [heq, h.free] at hused
    cases hused
  refine ⟨fun t ht hne => ?_, fun t ht hne => ?_, fun t ht hne => ?_, fun t ht u hu hne heq => ?_⟩
  · rcases hcases t ht hne with ⟨-, heq⟩ | ⟨-, heq, hold⟩
    · rw [heq]
      exact h.le
    · rw [heq]
      exact hs.le t ht hold
  · rcases hcases t ht hne with ⟨-, heq⟩ | ⟨-, heq, hold⟩
    · rw [heq]
      exact h.lt
    · rw [heq]
      exact hs.lt t ht hold
  · rcases hcases t ht hne with ⟨-, heq⟩ | ⟨-, heq, hold⟩
    · rw [heq]
      exact (h.marks b h.lt).mpr (.inl rfl)
    · rw [heq]
      exact (h.marks _ (hs.lt t ht hold)).mpr (.inr (hs.used t ht hold))
  · rcases hcases t ht hne with ⟨hts, htb⟩ | ⟨hts, htt, hne'⟩
    · rcases hcases u hu (by rwa [← heq]) with ⟨hus, -⟩ | ⟨hus, huu, hnu⟩
      · rw [hts, hus]
      · exact absurd (by rw [← huu, ← heq, htb]) (hold u hu hnu)
    · rcases hcases u hu (by rwa [← heq]) with ⟨hus, hub⟩ | ⟨hus, huu, hnu⟩
      · exact absurd (by rw [← htt, heq, hub]) (hold t ht hne')
      · exact hs.once t ht u hu hne' (by rw [← htt, heq, huu])

lemma ext (h : AllocAt sb fs ip s b fs' ip') : Ext sb fs ip fs' ip' where
  same := h.same
  used c hc hu := (h.marks c hc).mpr (.inr hu)
  keep t ht hne := h.other t ht fun hts => hne (by rw [hts, h.empty])
  fresh t ht hzero hne := by
    by_cases hts : t = s
    · rw [hts, h.self]
      exact h.free
    · rw [h.other t ht hts] at hne
      exact absurd hzero hne
  marked c hc hu := by
    rcases (h.marks c hc).mp hu with rfl | hu
    · have hle := h.le
      have hmap := sb.bmapstart_lt_datastart
      exact .inr ⟨s, h.bound, h.empty, h.self, by omega⟩
    · exact .inl hu

end AllocAt

end Alloc

end Content

end Xv6
