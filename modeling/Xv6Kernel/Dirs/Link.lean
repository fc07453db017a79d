import Xv6Kernel.Dirs.Walk

/-!
# Calls that fail: `sys_link` and `sys_unlink`

A call that returns -1 leaves every inode, and with them the directories, as they were
(`Unchanged`); the only block that may be marked now and was free is the indirect block of the
parent directory.
-/

namespace Xv6

variable {name : List UInt8} {n off : ℕ} {v : ℤ}

namespace Dirs

open Mkfs (ROOTINO T_DIR)
open Content

structure Stays (sb : Superblock) (fs fs' : Fs) (j : ℕ) : Prop where
  type : (view sb fs' j).type = (view sb fs j).type
  size : (view sb fs' j).size = (view sb fs j).size
  bytes : ∀ i < (view sb fs j).size, byteAt fs' (view sb fs' j) i = byteAt fs (view sb fs j) i

section

variable {sb : Superblock} {fs fs' fs'' : Fs} {ip ip' jp : Inode} {j : ℕ}

lemma Stays.refl (sb : Superblock) (fs : Fs) (j : ℕ) : Stays sb fs fs j :=
  ⟨rfl, rfl, fun _ _ => rfl⟩

lemma Stays.trans (h : Stays sb fs fs' j) (h' : Stays sb fs' fs'' j) : Stays sb fs fs'' j where
  type := h'.type.trans h.type
  size := h'.size.trans h.size
  bytes i hi := (h'.bytes i (by rwa [h.size])).trans (h.bytes i hi)

lemma slot_of_addrs_zero (fs : Fs) (h : ∀ k ≤ NDIRECT, ip.addrs k = 0) (s : ℕ) :
    slot fs ip s = 0 := by
  unfold slot
  rw [if_pos (h NDIRECT le_rfl)]
  split
  · exact h s (by assumption)
  · rfl

lemma slots_of_addrs_zero (h : ∀ k ≤ NDIRECT, ip.addrs k = 0) : Slots sb fs ip := by
  have hslot := slot_of_addrs_zero fs h
  exact ⟨fun s _ hne => absurd (hslot s) hne, fun s _ hne => absurd (hslot s) hne,
    fun s _ hne => absurd (hslot s) hne, fun s _ _ _ hne => absurd (hslot s) hne⟩

lemma Disk.slots (h : Disk sb fs) (hj : j < sb.ninodes) : Slots sb fs (view sb fs j) := by
  by_cases htype : (view sb fs j).type = 0
  · exact slots_of_addrs_zero (h.free j hj htype).2.2
  · exact (h.wf j hj htype).slots

lemma Coh.slot (h : Coh sb fs ip) (g : Fs) (s : ℕ) :
    slot g (view sb fs ip.inum) s = slot g ip s := slot_eq_of_addrs h.addrs s

lemma Works.view_eq (hw : Works sb fs ip fs' ip') (hj : j < sb.ninodes) (hne : j ≠ ip.inum) :
    view sb fs' j = view sb fs j := by
  unfold view
  rw [hw.dinode j hj hne]

section Others

variable (hd : Disk sb fs) (hw : Works sb fs ip fs' ip') (hc : Coh sb fs ip)
  (hi : ip.inum < sb.ninodes)
include hd hw hc hi

section

variable (hj : j < sb.ninodes) (hne : j ≠ ip.inum)
include hj hne

lemma Disk.data_slot {s : ℕ} (hs : s < nslots) (hz : slot fs (view sb fs j) s ≠ 0) :
    fs'.data (slot fs (view sb fs j) s) = fs.data (slot fs (view sb fs j) s) := by
  have hown := own_of_slots (hd.slots hj) hs hz
  refine hw.data _ hown.1 hown.2.1 hown.2.2 fun t ht => ?_
  rw [← hc.slot]
  exact hd.apart j hj _ hi hne s hs t ht hz

lemma Disk.slot_eq (s : ℕ) : slot fs' (view sb fs j) s = slot fs (view sb fs j) s :=
  slot_eq_of_data (fun hz => hd.data_slot hw hc hi hj hne (by decide) hz) s

lemma Disk.stays : Stays sb fs fs' j := by
  have hview := hw.view_eq hj hne
  refine ⟨by rw [hview], by rw [hview], fun i hi' => ?_⟩
  rw [hview]
  have htype : (view sb fs j).type ≠ 0 := fun h0 => by
    have := (hd.free j hj h0).2.1
    omega
  have hwf := hd.wf j hj htype
  have hsize := hwf.size_le
  unfold byteAt
  rw [show lookup fs' (view sb fs j) (i / BSIZE) = lookup fs (view sb fs j) (i / BSIZE) from
    hd.slot_eq hw hc hi hj hne _]
  rw [show fs'.data (lookup fs (view sb fs j) (i / BSIZE)) =
    fs.data (lookup fs (view sb fs j) (i / BSIZE)) from
    hd.data_slot hw hc hi hj hne (slotOf_lt (div_lt_MAXFILE (by omega))) (hwf.lookup_ne hi')]

lemma Disk.slot_ne {s t : ℕ} (hs : s < nslots)
    (ht : t < nslots) (hz : slot fs' ip' s ≠ 0) : slot fs' ip' s ≠ slot fs (view sb fs j) t := by
  by_cases hold : slot fs ip s = 0
  · intro heq
    have hfree := hw.fresh s hs hold hz
    have hused := (hd.slots hj).used t ht (by rwa [← heq])
    rw [← heq, hfree] at hused
    cases hused
  · rw [hw.keep s hs hold, ← hc.slot]
    refine hd.apart _ hi j hj (Ne.symm hne) s hs t ht ?_
    rwa [hc.slot]

end

lemma Disk.works (hwf : Wf sb fs' ip') (htype : ip'.type ≠ 0) : Disk sb fs' := by
  have hnum := hw.inum
  have hcoh := hw.coh
  have hself : ∀ g s, slot g (view sb fs' ip.inum) s = slot g ip' s := fun g s => by
    rw [← hnum]
    exact hcoh.slot g s
  have htype' : (view sb fs' ip.inum).type = ip'.type := by
    rw [← hnum]
    exact hcoh.type
  refine ⟨hw.reserved hd.reserved, fun j hj ht => ?_, fun j hj ht => ?_,
    fun j hj k hk hjk s hs t ht hz => ?_⟩
  · by_cases hji : j = ip.inum
    · subst hji
      have hsize := hcoh.size
      have haddrs := hcoh.addrs
      rw [hnum] at hsize haddrs
      exact wf_congr hwf hnum.symm hsize haddrs
    have hview := hw.view_eq hj hji
    rw [hview] at ht ⊢
    have h := hd.wf j hj ht
    have hslot := hd.slot_eq hw hc hi hj hji
    exact ⟨hw.reserved hd.reserved, h.slots.congr (fun s _ => hslot s) hw.used, h.inum,
      fun bn hbn => ⟨(h.blocks bn hbn).1, (hslot _).trans_ne (h.blocks bn hbn).2⟩⟩
  · by_cases hji : j = ip.inum
    · subst hji
      exact absurd (htype'.symm.trans ht) htype
    · rw [hw.view_eq hj hji] at ht ⊢
      exact hd.free j hj ht
  · by_cases hji : j = ip.inum
    · subst hji
      rw [hself] at hz ⊢
      rw [hw.view_eq hk (Ne.symm hjk), hd.slot_eq hw hc hi hk (Ne.symm hjk)]
      exact hd.slot_ne hw hc hi hk (Ne.symm hjk) hs ht hz
    rw [hw.view_eq hj hji, hd.slot_eq hw hc hi hj hji] at hz ⊢
    by_cases hki : k = ip.inum
    · subst hki
      rw [hself]
      by_cases hz' : slot fs' ip' t = 0
      · rwa [hz']
      · exact Ne.symm (hd.slot_ne hw hc hi hj hji ht hs hz')
    · rw [hw.view_eq hk hki, hd.slot_eq hw hc hi hk hki]
      exact hd.apart j hj k hk hjk s hs t ht hz

end Others

lemma Kept.stays (h : Kept sb fs ip fs' ip') (hw : Works sb fs ip fs' ip') (hc : Coh sb fs ip) :
    Stays sb fs fs' ip.inum ∧ (view sb fs' ip.inum).nlink = (view sb fs ip.inum).nlink := by
  have hcoh := hw.coh
  have h1 := hcoh.type
  have h2 := hcoh.size
  have h3 := hcoh.nlink
  have h4 := byteAt_of_coh hcoh
  rw [hw.inum] at h1 h2 h3 h4
  refine ⟨⟨by rw [h1, h.type, hc.type], by rw [h2, h.size, hc.size], fun i hi => ?_⟩,
    by rw [h3, h.nlink, hc.nlink]⟩
  rw [← h4, ← byteAt_of_coh hc]
  exact h.bytes i (by rwa [← hc.size])

lemma iupdate_stays (h : Wf sb fs ip) (hc : Coh sb fs ip) (hnum : ip'.inum = ip.inum)
    (htype : ip'.type = ip.type) (hsize : ip'.size = ip.size) (haddrs : ip'.addrs = ip.addrs)
    (hn : ip'.nlink < 2 ^ 16) :
    Works sb fs ip (iupdate sb fs ip') ip' ∧ Wf sb (iupdate sb fs ip') ip' ∧
      Stays sb fs (iupdate sb fs ip') ip.inum ∧
      (view sb (iupdate sb fs ip') ip.inum).nlink = ip'.nlink ∧
      ∀ b, isFree sb (iupdate sb fs ip') b = isFree sb fs b := by
  have hr := hc.ranged
  have hi' : ip'.inum < sb.ninodes := by
    rw [hnum]
    exact h.inum
  have hw : Works sb fs ip (iupdate sb fs ip') ip' :=
    .iupdate h.slots h.inum hnum haddrs ⟨by rw [htype]; exact hr.type, hn, by
      rw [hsize]
      exact hr.size, fun k hk => by rw [haddrs]; exact hr.addrs k hk⟩
  have hslot : ∀ s, slot (iupdate sb fs ip') ip' s = slot fs ip s :=
    slot_iupdate hi' h.slots haddrs
  have hcoh := hw.coh
  have h1 := hcoh.type
  have h2 := hcoh.size
  have h3 := hcoh.nlink
  have h4 := byteAt_of_coh hcoh
  rw [hnum] at h1 h2 h3 h4
  refine ⟨hw, ⟨hw.reserved h.reserved, hw.slots, hi', fun bn hbn => ?_⟩,
    ⟨by rw [h1, htype, hc.type], by rw [h2, hsize, hc.size], fun i hi => ?_⟩, h3,
    isFree_iupdate hi'⟩
  · rw [hsize] at hbn
    exact ⟨(h.blocks bn hbn).1, (hslot _).trans_ne (h.blocks bn hbn).2⟩
  · rw [hc.size] at hi
    have hmax := h.size_le
    rw [← h4, ← byteAt_of_coh hc]
    exact byteAt_iupdate hi' h.slots haddrs (by omega) (h.lookup_ne hi)

lemma stays_of_data (hs : Slots sb fs (view sb fs j)) (hv : view sb fs' j = view sb fs j)
    (hne : ∀ i < (view sb fs j).size, lookup fs (view sb fs j) (i / BSIZE) ≠ 0 ∧
      i < MAXFILE * BSIZE)
    (hdata : ∀ b, sb.datastart ≤ b → fs'.data b = fs.data b) : Stays sb fs fs' j := by
  have hslot : ∀ s, slot fs' (view sb fs j) s = slot fs (view sb fs j) s :=
    slot_eq_of_data fun hz => hdata _ (hs.le _ (by decide) hz)
  refine ⟨by rw [hv], by rw [hv], fun i hi => ?_⟩
  obtain ⟨hz, hlt⟩ := hne i hi
  rw [hv]
  unfold byteAt
  rw [show lookup fs' (view sb fs j) (i / BSIZE) = lookup fs (view sb fs j) (i / BSIZE) from
    hslot _, hdata (lookup fs (view sb fs j) (i / BSIZE))
      (hs.le _ (slotOf_lt (div_lt_MAXFILE hlt)) hz)]

lemma Disk.lookup_ne (hd : Disk sb fs) (hj : j < sb.ninodes) {i : ℕ}
    (hi : i < (view sb fs j).size) :
    lookup fs (view sb fs j) (i / BSIZE) ≠ 0 ∧ i < MAXFILE * BSIZE := by
  have hwf := hd.wf j hj fun h0 => by
    have := (hd.free j hj h0).2.1
    omega
  exact ⟨hwf.lookup_ne hi, hi.trans_le hwf.size_le⟩

end

/-! ## States -/

inductive Reach (sb : Superblock) (s : Sys) : ℕ → Prop
  | root : Reach sb s ROOTINO
  | cwd : Reach sb s s.cwd
  | entry {d off : ℕ} (hd : Reach sb s d) (htype : (view sb s.fs d).type = T_DIR)
    (hmod : off % 16 = 0) (hoff : off + 16 ≤ (view sb s.fs d).size) :
    Reach sb s (direntInum s.fs (view sb s.fs d) off)

structure Sound (sb : Superblock) (s : Sys) : Prop where
  tree : Tree sb s.fs
  root : ROOTINO < sb.ninodes
  cwd : s.cwd < sb.ninodes
  held : Held sb (fun j => count (s.core j)) s
  /-- Somebody refers to an inode in use that has no links, if a path can lead to it. -/
  anchored : Anchored sb (Reach sb s) (fun j => count (s.core j)) s.fs
  live : ∀ j c, s.core j = some c → (view sb s.fs j).type ≠ 0

lemma reach_closed (sb : Superblock) (s : Sys) : Closed sb (Reach sb s) s.fs :=
  fun _ _ hR htype _ hmod hoff => .entry hR htype hmod hoff

/-- The inodes are as before, and so is the bitmap, apart from the indirect block of a directory of
`P`. -/
structure Unchanged (sb : Superblock) (P : ℕ → Prop) (fs fs' : Fs) : Prop where
  stays : ∀ j < sb.ninodes, Stays sb fs fs' j
  nlink : ∀ j < sb.ninodes, (view sb fs' j).nlink = (view sb fs j).nlink
  blocks : ∀ b < sb.size, isFree sb fs' b = isFree sb fs b ∨ ∃ d, P d ∧ isFree sb fs b = true ∧
    isFree sb fs' b = false ∧ b = (view sb fs' d).addrs NDIRECT

/-- The directory that a path leads to, without its last element. -/
def Parent (sb : Superblock) (s : Sys) (path name : List UInt8) (d : ℕ) : Prop :=
  ∃ name' s', namex sb s path true name = some (some d, name', s')

section

variable {sb : Superblock} {fs fs' : Fs} {R : ℕ → Prop} {r : ℕ → ℕ} {s s' : Sys} {i d : ℕ}
  {c : Core} {P : ℕ → Prop}

lemma Unchanged.of_eq (h : fs' = fs) : Unchanged sb P fs fs' := by
  subst h
  exact ⟨fun j _ => .refl sb fs' j, fun _ _ => rfl, fun _ _ => .inl rfl⟩

lemma Anchored.congr (h : Anchored sb R r fs) (htype : ∀ j < sb.ninodes, (view sb fs' j).type =
    (view sb fs j).type) (hnlink : ∀ j < sb.ninodes, (view sb fs' j).nlink = (view sb fs j).nlink) :
    Anchored sb R r fs' := by
  intro j hj hR ht hn
  rw [htype j hj] at ht
  rw [hnlink j hj] at hn
  exact h j hj hR ht hn

/-! ## `sys_link` -/

structure Relinked (sb : Superblock) (i n : ℕ) (fs fs' : Fs) : Prop where
  stays : ∀ j < sb.ninodes, Stays sb fs fs' j
  other : ∀ j < sb.ninodes, j ≠ i → view sb fs' j = view sb fs j
  nlink : (view sb fs' i).nlink = n
  free : ∀ b, isFree sb fs' b = isFree sb fs b
  disk : Disk sb fs'

lemma Held.relink (h : Held sb r s) (hd : Disk sb s.fs) (hcore : s.core i = some c)
    (hl : Locked sb s.fs i c) (hwf : Wf sb s.fs c.ip) (hn : n < 2 ^ 16) :
    Held sb r (s.put i c { c.ip with nlink := n } (iupdate sb s.fs { c.ip with nlink := n })) ∧
      Relinked sb i n s.fs (iupdate sb s.fs { c.ip with nlink := n }) := by
  obtain ⟨hw, hwf', hst, hnl, hfree⟩ := iupdate_stays hwf hl.coh
    (show ({ c.ip with nlink := n } : Inode).inum = c.ip.inum from rfl) rfl rfl rfl hn
  have hi : c.ip.inum < sb.ninodes := hwf.inum
  rw [hl.inum] at hst hnl
  refine ⟨(h.put hcore hl hw hl.type).1, fun j hj => ?_, fun j hj hne => ?_, hnl, hfree,
    hd.works hw hl.coh hi hwf' hl.type⟩
  · by_cases hji : j = i
    · rw [hji]
      exact hst
    · exact hd.stays hw hl.coh hi hj (by rwa [hl.inum])
  · exact hw.view_eq hj (by rwa [hl.inum])

lemma Stays.direntInum_eq {j : ℕ} (h : Stays sb fs fs' j)
    (hoff : off + 16 ≤ (view sb fs j).size) :
    direntInum fs' (view sb fs' j) off = direntInum fs (view sb fs j) off := by
  unfold direntInum
  rw [h.bytes off (by omega), h.bytes (off + 1) (by omega)]

lemma Tree.of_stays (h : Tree sb fs) (hd : Disk sb fs')
    (hst : ∀ j < sb.ninodes, Stays sb fs fs' j) : Tree sb fs' := by
  refine ⟨hd, fun j hj htype off hmod hoff => ?_⟩
  have hj' := hst j hj
  rw [hj'.type] at htype
  rw [hj'.size] at hoff
  rw [hj'.direntInum_eq hoff]
  exact h.entries j hj htype off hmod hoff

lemma Closed.of_stays (h : Closed sb R fs) (hst : ∀ j < sb.ninodes, Stays sb fs fs' j) :
    Closed sb R fs' := by
  intro j hj hR htype off hmod hoff
  have hj' := hst j hj
  rw [hj'.type] at htype
  rw [hj'.size] at hoff
  rw [hj'.direntInum_eq hoff]
  exact h j hj hR htype off hmod hoff

lemma Kept.unchanged {dp dp' : Inode} (h : Kept sb fs dp fs' dp') (hw : Works sb fs dp fs' dp')
    (hd : Disk sb fs) (hc : Coh sb fs dp) (hi : dp.inum < sb.ninodes) (hnum : dp.inum = d) :
    Unchanged sb (· = d) fs fs' := by
  obtain ⟨hst, hnl⟩ := h.stays hw hc
  refine ⟨fun j hj => ?_, fun j hj => ?_, fun b hb => ?_⟩
  · by_cases hji : j = dp.inum
    · rw [hji]
      exact hst
    · exact hd.stays hw hc hi hj hji
  · by_cases hji : j = dp.inum
    · rw [hji]
      exact hnl
    · rw [hw.view_eq hj hji]
  · rcases hfree : isFree sb fs b with _ | _
    · exact .inl (hw.used b hb hfree)
    cases hfree' : isFree sb fs' b with
    | true => exact .inl rfl
    | false =>
      refine .inr ⟨d, rfl, rfl, rfl, ?_⟩
      rcases hw.marked b hb hfree' with hu | ⟨s, hs, hzero, hslot, hne⟩
      · rw [hfree] at hu
        cases hu
      by_cases hsi : s = NDIRECT
      · subst hsi
        have haddrs := hw.coh.addrs NDIRECT le_rfl
        rw [hw.inum, hnum] at haddrs
        rw [haddrs, ← hslot]
        exact if_pos le_rfl
      · rw [h.only s hs hsi, hzero] at hslot
        exact absurd hslot.symm hne

lemma linkOld_spec (hs : Sound sb s) {old buf : List UInt8} {res : Option ℕ}
    (hl : linkOld sb s old buf = some (res, s')) :
    (res = none ∧ s'.fs = s.fs) ∨ ∃ i, res = some i ∧ i < sb.ninodes ∧ Reach sb s i ∧
      Held sb (bump (fun j => count (s.core j)) i) s' ∧ s'.cwd = s.cwd ∧
      Relinked sb i (((view sb s.fs i).nlink + 1) % 2 ^ 16) s.fs s'.fs ∧
      (view sb s.fs i).type ≠ T_DIR := by
  unfold linkOld at hl
  rcases hname : namex sb s old false buf with _ | ⟨found, n, s1⟩
  · rw [hname] at hl
    cases hl
  obtain ⟨hstill, hcase⟩ := namex_spec hs.tree (reach_closed sb s) hs.anchored
    ⟨hs.root, .root⟩ ⟨hs.cwd, .cwd⟩ hs.held hname
  rw [hname] at hl
  rcases hcase with ⟨rfl, -⟩ | ⟨i, rfl, hi, hRi, hheld, -⟩
  · cases hl
    exact .inl ⟨rfl, hstill.1⟩
  dsimp only at hl
  rcases hlock : ilock sb s1 i with _ | ⟨c, s2⟩
  · rw [hlock] at hl
    cases hl
  obtain ⟨hheld2, hstill2, hcore, hlk⟩ := hheld.ilock hi hlock
  have hfs := (hstill.trans hstill2).1
  rw [hlock] at hl
  dsimp only at hl
  by_cases htype : c.ip.type = T_DIR
  · rw [if_pos htype] at hl
    obtain ⟨g, hp, heq⟩ := Option.map_eq_some_iff.mp hl
    cases heq
    obtain ⟨-, hst⟩ := hheld2.iput (by rw [hfs]; exact hs.anchored) hRi hp
    exact .inl ⟨rfl, hst.1.trans hfs⟩
  rw [if_neg htype] at hl
  cases hl
  obtain ⟨hheld', hre⟩ := hheld2.relink (by rw [hfs]; exact hs.tree.toDisk) hcore hlk
    (hlk.wf (by rw [hfs]; exact hs.tree.toDisk))
    (Nat.mod_lt (c.ip.nlink + 1) (Nat.two_pow_pos 16))
  refine .inr ⟨i, rfl, hi, hRi, hheld', (hstill.trans hstill2).2, ?_, ?_⟩
  · rw [← hfs, hlk.view_nlink]
    exact hre
  · rw [← hfs, hlk.view_type]
    exact htype

lemma linkBad_spec (h : Held sb (bump r i) s) (hd : Disk sb s.fs) (hi : i < sb.ninodes) (hR : R i)
    (ha : ∀ fs', Relinked sb i (((view sb s.fs i).nlink + (2 ^ 16 - 1)) % 2 ^ 16) s.fs fs' →
      Anchored sb R r fs') (hl : linkBad sb s i = some (v, s')) :
    Relinked sb i (((view sb s.fs i).nlink + (2 ^ 16 - 1)) % 2 ^ 16) s.fs s'.fs := by
  unfold linkBad at hl
  split at hl
  · cases hl
  rename_i c s1 hlock
  obtain ⟨hheld, hstill, hcore, hlk⟩ := h.ilock hi hlock
  obtain ⟨g, hp, heq⟩ := Option.map_eq_some_iff.mp hl
  cases heq
  rw [← hstill.1] at hd ha ⊢
  rw [hlk.view_nlink] at ha ⊢
  obtain ⟨hheld', hre⟩ := hheld.relink hd hcore hlk (hlk.wf hd)
    (Nat.mod_lt (c.ip.nlink + (2 ^ 16 - 1)) (Nat.two_pow_pos 16))
  rw [(hheld'.iput (ha _ hre) hR hp).2.1]
  exact hre

lemma Relinked.unchanged {fs1 fs2 fs3 : Fs} {Q : ℕ → Prop} (h1 : Relinked sb i n fs fs1)
    (h2 : Unchanged sb Q fs1 fs2) (h3 : Relinked sb i (view sb fs i).nlink fs2 fs3)
    (hQ : ∀ d, Q d → P d ∧ d < sb.ninodes ∧ d ≠ i) : Unchanged sb P fs fs3 := by
  refine ⟨fun j hj => ((h1.stays j hj).trans (h2.stays j hj)).trans (h3.stays j hj),
    fun j hj => ?_, fun b hb => ?_⟩
  · by_cases hji : j = i
    · rw [hji, h3.nlink]
    · rw [h3.other j hj hji, h2.nlink j hj, h1.other j hj hji]
  · rw [h3.free b, ← h1.free b]
    rcases h2.blocks b hb with heq | ⟨d, hd, hf, hu, hb'⟩
    · exact .inl heq
    · obtain ⟨hP, hlt, hne⟩ := hQ d hd
      exact .inr ⟨d, hP, hf, hu, by rw [h3.other d hlt hne, hb']⟩

lemma linkNew_spec (hd0 : Tree sb fs) (hcl : Closed sb R fs) (ha : Anchored sb R r fs)
    (hroot : ROOTINO < sb.ninodes ∧ R ROOTINO) (hcwd : s.cwd < sb.ninodes ∧ R s.cwd)
    (hi : i < sb.ninodes) (hRi : R i) (h : Held sb (bump r i) s) (hre : Relinked sb i n fs s.fs)
    (hn : n = ((view sb fs i).nlink + 1) % 2 ^ 16) (htype : (view sb fs i).type ≠ T_DIR)
    {new : List UInt8} (hl : linkNew sb s i new name = some (-1, s')) :
    Unchanged sb (Parent sb s new name) fs s'.fs := by
  have htree : Tree sb s.fs := hd0.of_stays hre.disk hre.stays
  have hanch : Anchored sb R (bump r i) s.fs := by
    intro j hj hR ht hz
    by_cases hji : j = i
    · rw [hji, bump_self]
      exact Nat.succ_pos _
    · rw [hre.other j hj hji] at ht hz
      exact ha.bump i j hj hR ht hz
  -- the link count is lowered in a state that differs by what `dirlink` did
  have hbad : ∀ {Q : ℕ → Prop} {g : Sys} {v : ℤ}, Held sb (bump r i) g → Disk sb g.fs →
      Unchanged sb Q s.fs g.fs → (∀ d, Q d → Parent sb s new name d ∧ d < sb.ninodes ∧ d ≠ i) →
      linkBad sb g i = some (v, s') → Unchanged sb (Parent sb s new name) fs s'.fs := by
    intro Q g v hheld hdisk hun hQ hb
    have hnl : ((view sb g.fs i).nlink + (2 ^ 16 - 1)) % 2 ^ 16 = (view sb fs i).nlink := by
      have hlt : (view sb fs i).nlink < 2 ^ 16 := (ranged_view i).nlink
      rw [hun.nlink i hi, hre.nlink, hn]
      omega
    have hlow := linkBad_spec hheld hdisk hi hRi (fun fs' hre' => ?_) hb
    · rw [hnl] at hlow
      exact hre.unchanged hun hlow hQ
    · rw [hnl] at hre'
      have hall : Unchanged sb (Parent sb s new name) fs fs' := hre.unchanged hun hre' hQ
      exact ha.congr (fun j hj => (hall.stays j hj).type) hall.nlink
  unfold linkNew at hl
  rcases hname : namex sb s new true name with _ | ⟨found, n', s1⟩
  · rw [hname] at hl
    cases hl
  obtain ⟨hstill, hcase⟩ := namex_spec htree (hcl.of_stays hre.stays) hanch hroot hcwd h hname
  rw [hname] at hl
  rcases hcase with ⟨rfl, hheld⟩ | ⟨d, rfl, hd, hRd, hheld, hdir⟩
  · dsimp only at hl
    exact hbad (Q := fun _ => False) hheld (by rw [hstill.1]; exact hre.disk)
      (.of_eq hstill.1) (fun _ hx => hx.elim) hl
  dsimp only at hl
  rcases hlock : ilock sb s1 d with _ | ⟨cd, s2⟩
  · rw [hlock] at hl
    cases hl
  obtain ⟨hheld2, hstill2, hcore, hlk⟩ := hheld.ilock hd hlock
  have hfs := (hstill.trans hstill2).1
  rw [hlock] at hl
  dsimp only at hl
  rcases hlink : dirlink sb s2 d cd n' i with _ | ⟨ok, c', s3⟩
  · rw [hlink] at hl
    cases hl
  have hdisk2 : Disk sb s2.fs := by
    rw [hfs]
    exact hre.disk
  obtain ⟨hheld3, -, -, -, hlk3, hworks, hwf3, -, hkept⟩ :=
    dirlink_spec hheld2 hcore hlk (hlk.wf hdisk2) hlink
  rw [hlink] at hl
  dsimp only at hl
  rcases hp : iput sb s3 d with _ | s4
  · rw [hp] at hl
    cases hl
  rw [hp] at hl
  dsimp only at hl
  cases ok with
  | true =>
    rw [if_pos rfl] at hl
    obtain ⟨g, -, heq⟩ := Option.map_eq_some_iff.mp hl
    cases heq
  | false =>
    rw [if_neg Bool.false_ne_true] at hl
    have hinum : cd.ip.inum < sb.ninodes := by
      rw [hlk.inum]
      exact hd
    have hun : Unchanged sb (· = d) s2.fs s3.fs :=
      (hkept rfl).unchanged hworks hdisk2 hlk.coh hinum hlk.inum
    have hdisk3 := hdisk2.works hworks hlk.coh hinum hwf3 hlk3.type
    rw [hfs] at hun
    obtain ⟨hheld4, hst4⟩ := hheld3.iput
      (hanch.congr (fun j hj => (hun.stays j hj).type) hun.nlink) hRd hp
    refine hbad (Q := (· = d)) hheld4 (by rw [hst4.1]; exact hdisk3)
      (by rw [hst4.1]; exact hun) (fun e he => ?_) hl
    rw [he]
    refine ⟨⟨n', s1, hname⟩, hd, fun hdi => ?_⟩
    have := hdir rfl
    rw [hdi, (hre.stays i hi).type] at this
    exact htype this

/-! ## `sys_unlink` -/

lemma unlinkEntry_eq_zero {cd : Core}
    (h : unlinkEntry sb s d cd off i c = some (v, s')) : v = 0 := by
  unfold unlinkEntry at h
  split at h
  · cases h
  split at h
  · cases h
  dsimp only at h
  split at h
  · cases h
  · obtain ⟨g, -, heq⟩ := Option.map_eq_some_iff.mp h
    cases heq
    rfl

lemma sysUnlink_fail (hs : Sound sb s) {path : Option (List UInt8)}
    (hl : sysUnlink sb s path name = some (-1, s')) : s'.fs = s.fs := by
  unfold sysUnlink at hl
  cases path with
  | none =>
    cases hl
    rfl
  | some path =>
  dsimp only at hl
  rcases hname : namex sb s path true name with _ | ⟨found, n, s1⟩
  · rw [hname] at hl
    cases hl
  obtain ⟨hstill, hcase⟩ := namex_spec hs.tree (reach_closed sb s) hs.anchored
    ⟨hs.root, .root⟩ ⟨hs.cwd, .cwd⟩ hs.held hname
  rw [hname] at hl
  rcases hcase with ⟨rfl, -⟩ | ⟨d, rfl, hd, hRd, hheld, -⟩
  · cases hl
    exact hstill.1
  dsimp only at hl
  rcases hlock : ilock sb s1 d with _ | ⟨cd, s2⟩
  · rw [hlock] at hl
    cases hl
  obtain ⟨hheld2, hstill2, hcore, hlk⟩ := hheld.ilock hd hlock
  have hfs := (hstill.trans hstill2).1
  -- the directory is given back
  have hput : ∀ {g g' : Sys}, g.fs = s.fs → Held sb (bump (fun j => count (s.core j)) d) g →
      fail (iput sb g d) = some (-1, g') → g'.fs = s.fs := by
    intro g g' hg hh hp
    obtain ⟨g1, hp, heq⟩ := Option.map_eq_some_iff.mp hp
    cases heq
    exact (hh.iput (by rw [hg]; exact hs.anchored) hRd hp).2.1.trans hg
  rw [hlock] at hl
  dsimp only at hl
  by_cases hdots : isDots n = true
  · rw [if_pos hdots] at hl
    exact hput hfs hheld2 hl
  rw [if_neg hdots] at hl
  have htree : Tree sb s2.fs := by
    rw [hfs]
    exact hs.tree
  rcases hlook : dirlookup sb s2 d cd n with _ | ⟨found, s3⟩
  · rw [hlook] at hl
    cases hl
  obtain ⟨htype, hcase⟩ := dirlookup_spec hcore (hlk.wf htree.toDisk) hlook
  rw [hlook] at hl
  rcases hcase with ⟨rfl, rfl⟩ | ⟨o, j, rfl, rfl, hj, ho, hmod⟩
  · exact hput hfs hheld2 hl
  dsimp only at hl
  obtain ⟨hjlt, hRj⟩ : j < sb.ninodes ∧ Reach sb s j := by
    rw [hj]
    exact hlk.direntInum_lt htree (by rw [hfs]; exact reach_closed sb s) hRd htype ho hmod
  obtain ⟨hheld3, hstill3⟩ := hheld2.iget j
  rcases hlock' : ilock sb (s2.iget j) j with _ | ⟨c, s4⟩
  · rw [hlock'] at hl
    cases hl
  obtain ⟨hheld4, hstill4, hcore4, hlk4⟩ := hheld3.ilock hjlt hlock'
  have hfs4 : s4.fs = s2.fs := (hstill3.trans hstill4).1
  rw [hlock'] at hl
  dsimp only at hl
  by_cases hn : c.ip.nlink = 0 ∨ 2 ^ 15 ≤ c.ip.nlink
  · rw [if_pos hn] at hl
    cases hl
  rw [if_neg hn] at hl
  by_cases htj : c.ip.type = T_DIR
  swap
  · rw [if_neg htj] at hl
    exact absurd (unlinkEntry_eq_zero hl) (by decide)
  rw [if_pos htj] at hl
  rcases hempty : isdiremptyLoop sb (c.ip.size + 1) s4.fs c.ip 32 with _ | ⟨empty, ip, fs'⟩
  · rw [hempty] at hl
    cases hl
  obtain ⟨rfl, rfl⟩ := isdiremptyLoop_spec
    (hlk4.wf (by rw [hfs4]; exact htree.toDisk)) _ 32 hempty
  rw [hempty] at hl
  cases empty with
  | true => exact absurd (unlinkEntry_eq_zero hl) (by decide)
  | false =>
    dsimp only at hl
    rw [put_self hcore4] at hl
    rcases hp : iput sb s4 j with _ | s5
    · rw [hp] at hl
      cases hl
    rw [hp] at hl
    obtain ⟨hheld5, hstill5⟩ := hheld4.iput
      (by rw [hfs4, hfs]; exact hs.anchored.bump d) hRj hp
    exact hput ((hstill5.1.trans hfs4).trans hfs) hheld5 hl

end

end Dirs

end Xv6
