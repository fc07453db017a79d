import Xv6Kernel.Dirs.Link
import Mathlib.Data.List.Find

/-!
# Calls that fail: `create`

A new inode has no block, so that the blocks it has when `create` fails were free before, and
`itrunc` gives back exactly these; the parent directory may keep an indirect block (`Created`).
-/

namespace Xv6

open Function

variable {fs₁ : Fs} {ip : Inode} {name : List UInt8} {type major minor : ℕ}
variable {cd : Core} {j : ℕ}

namespace Dirs

open Mkfs (DIRSIZ IPB T_DIR)
open Content

section

variable {sb : Superblock} {fs fs' : Fs} {R : ℕ → Prop} {r : ℕ → ℕ} {s s' : Sys} {i d : ℕ}
  {c : Core} {P : ℕ → Prop}

/-! ## The new inode -/

lemma ialloc_spec (ht : type < 2 ^ 16) (hd : Disk sb fs)
    (hfs1 : fs₁ = Content.logWrite (fs.put (sb.iblock i)
      ((fs.data (sb.iblock i)).paste (i % IPB * 64) ((Bytes.zero 64).setLE 2 0 type)))
        (sb.iblock i)) (hi : i < sb.ninodes) (hfree : (view sb fs i).type = 0) :
    (∀ jp, jp.inum = i → Coh sb fs₁ jp → jp.type = type ∧ Wf sb fs₁ jp ∧
      Works sb fs (view sb fs i) fs₁ jp) ∧ ∀ j ≠ i, dinodeAt sb fs₁ j = dinodeAt sb fs j := by
  obtain ⟨-, -, hzero⟩ := hd.free i hi hfree
  have hself : dinodeAt sb fs₁ i = (Bytes.zero 64).setLE 2 0 type := by
    rw [hfs1]
    exact dinodeAt_paste_self _ _
  have hother : ∀ j ≠ i, dinodeAt sb fs₁ j = dinodeAt sb fs j := fun j hj => by
    rw [hfs1]
    exact dinodeAt_paste_of_ne hj _
  have hdata : ∀ b, sb.bmapstart ≤ b → fs₁.data b = fs.data b := fun b hb => by
    have hlt := sb.iblock_lt hi
    rw [hfs1]
    exact update_of_ne (by omega) _ _
  have hbit : ∀ b, isFree sb fs₁ b = isFree sb fs b := fun b =>
    isFree_congr (hdata _ (sb.bmapstart_le_bblock b))
  have hget : ∀ w o, 2 ≤ o → (dinodeAt sb fs₁ i).getLE w o = 0 := fun w o ho => by
    rw [hself, Bytes.getLE_setLE_of_disjoint _ _ _ _ _ _ (by omega), Bytes.getLE_zero]
  refine ⟨fun jp hnum hc => ?_, hother⟩
  have hview : view sb fs₁ jp.inum = ofDinode i (dinodeAt sb fs₁ i) := by rw [hnum]; rfl
  have haddrs : ∀ k ≤ NDIRECT, jp.addrs k = 0 := fun k hk => by
    rw [← hc.addrs k hk, hview]
    exact hget 4 _ (by omega)
  have hsize : jp.size = 0 := by
    rw [← hc.size, hview]
    exact hget 4 8 (by omega)
  have hslot := slot_of_addrs_zero fs₁ haddrs
  have hslot0 := slot_of_addrs_zero fs hzero
  refine ⟨?_, ⟨fun b hb => by rw [hbit]; exact hd.reserved b hb, slots_of_addrs_zero haddrs,
    by rwa [hnum], fun bn hbn => ?_⟩, ?_⟩
  · rw [← hc.type, hview]
    change (dinodeAt sb fs₁ i).getLE 2 0 = type
    rw [hself, Bytes.getLE_setLE _ _ _ _ (by omega)]
    exact Nat.mod_eq_of_lt (by omega)
  · rw [hsize] at hbn
    exact absurd hbn (Nat.not_lt_zero _)
  · exact ⟨(Fills.refl sb fs _).congr (fun s => (hslot s).trans (hslot0 s).symm) fun b _ => hbit b,
      hnum, slots_of_addrs_zero haddrs,
      fun b hle _ _ _ => hdata b (sb.bmapstart_lt_datastart.le.trans hle),
      fun j _ hne => hother j hne, hc⟩

/-- What has happened to the disk when `create` fails with the new inode `ip` in the directory
`d`. -/
structure Created (sb : Superblock) (fs : Fs) (ip : Inode) (d : ℕ) (fs' : Fs) : Prop where
  disk : Disk sb fs'
  free : (view sb fs ip.inum).type = 0
  stays : ∀ j < sb.ninodes, j ≠ ip.inum → Stays sb fs fs' j
  nlink : ∀ j < sb.ninodes, j ≠ ip.inum → (view sb fs' j).nlink = (view sb fs j).nlink
  fresh : ∀ b, InSlot fs' ip b → isFree sb fs b = true
  used : ∀ b < sb.size, isFree sb fs b = false → isFree sb fs' b = false
  /-- A block that is newly marked belongs to the inode, or is the indirect block of `d`. -/
  marked : ∀ b < sb.size, isFree sb fs' b = false → isFree sb fs b = false ∨ InSlot fs' ip b ∨
    (b ≠ 0 ∧ b = (view sb fs' d).addrs NDIRECT)

/-- The last reference to an inode without links is given back. -/
structure Dropped (sb : Superblock) (fs : Fs) (ip : Inode) (fs' : Fs) : Prop where
  dinode : ∀ j < sb.ninodes, j ≠ ip.inum → dinodeAt sb fs' j = dinodeAt sb fs j
  data : ∀ b, sb.datastart ≤ b → fs'.data b = fs.data b
  blocks : ∀ b < sb.size, isFree sb fs' b = true ↔ InSlot fs ip b ∨ isFree sb fs b = true
  free : (view sb fs' ip.inum).type = 0 ∧ (view sb fs' ip.inum).nlink = 0 ∧
    (view sb fs' ip.inum).size = 0

lemma iput_last (hcore : s.core i = some c) (hl : Locked sb s.fs i c) (hwf : Wf sb s.fs c.ip)
    (href : c.ref = 1) (hn : c.ip.nlink = 0) :
    ∃ fs', iput sb s i = some { s.set i none with fs := fs' } ∧ Dropped sb s.fs c.ip fs' := by
  obtain ⟨ip', g, hit, hip, hzero, hfreed⟩ := itrunc_spec hwf.slots
  have hnum : ip'.inum = c.ip.inum := by rw [hip]
  have hi : ip'.inum < sb.ninodes := by
    rw [hnum]
    exact hwf.inum
  have hi' : ({ ip' with type := 0 } : Inode).inum < sb.ninodes := hi
  have hfree : ∀ b, isFree sb (iupdate sb (iupdate sb g ip') { ip' with type := 0 }) b =
      isFree sb g b := fun b => by rw [isFree_iupdate hi', isFree_iupdate hi]
  have hmap := sb.bmapstart_lt_datastart
  refine ⟨iupdate sb (iupdate sb g ip') { ip' with type := 0 }, ?_, fun j hj hne => ?_,
    fun b hb => ?_, fun b hb => by rw [hfree, hfreed.free b hb], ?_⟩
  · unfold iput
    rw [hcore]
    dsimp only
    rw [if_pos ⟨href, hl.valid, hn⟩, hit]
  · rw [dinodeAt_iupdate_of_ne (by change j ≠ ip'.inum; rwa [hnum]),
      dinodeAt_iupdate_of_ne (by rwa [hnum])]
    unfold dinodeAt
    rw [hfreed.data _ (by have := sb.iblock_lt hj; omega)]
  · rw [data_iupdate hi' (by omega), data_iupdate hi (by omega), hfreed.data b (by omega)]
  · have hcoh : Coh sb (iupdate sb (iupdate sb g ip') { ip' with type := 0 })
        { ip' with type := 0 } := by
      refine coh_of_dinodeAt ⟨Nat.two_pow_pos 16, ?_, ?_, fun k hk => ?_⟩ dinodeAt_iupdate_self
      · change ip'.nlink < _
        rw [hip]
        rw [hn]
        exact Nat.two_pow_pos 16
      · change ip'.size < _
        rw [hip]
        exact Nat.two_pow_pos 32
      · change ip'.addrs k < _
        rw [hzero k hk]
        exact Nat.two_pow_pos 32
    have h1 := hcoh.type
    have h2 := hcoh.nlink
    have h3 := hcoh.size
    rw [← hnum]
    refine ⟨h1, h2.trans ?_, h3.trans (by rw [hip])⟩
    rw [hip]
    exact hn

lemma Created.dropped (h : Created sb fs ip d fs') (hd0 : Disk sb fs) (hi : ip.inum < sb.ninodes)
    (hdi : d ≠ ip.inum) (hdlt : d < sb.ninodes)
    (hdr : Dropped sb fs' ip fs₁) : Unchanged sb (· = d) fs fs₁ := by
  have hview : ∀ j < sb.ninodes, j ≠ ip.inum → view sb fs₁ j = view sb fs' j := fun j hj hne => by
    unfold view
    rw [hdr.dinode j hj hne]
  obtain ⟨hn0, hs0, -⟩ := hd0.free _ hi h.free
  obtain ⟨ht1, hn1, hs1⟩ := hdr.free
  refine ⟨fun j hj => ?_, fun j hj => ?_, fun b hb => ?_⟩
  · by_cases hji : j = ip.inum
    · subst hji
      refine ⟨ht1.trans h.free.symm, hs1.trans hs0.symm, fun i hi => ?_⟩
      rw [hs0] at hi
      exact absurd hi (Nat.not_lt_zero _)
    · exact (h.stays j hj hji).trans (stays_of_data (h.disk.slots hj) (hview j hj hji)
        (fun i hi => h.disk.lookup_ne hj hi) hdr.data)
  · by_cases hji : j = ip.inum
    · subst hji
      rw [hn1, hn0]
    · rw [hview j hj hji, h.nlink j hj hji]
  · have hiff := hdr.blocks b hb
    cases hfree : isFree sb fs b with
    | false =>
      refine .inl ?_
      rw [← Bool.not_eq_true, hiff, h.used b hb hfree]
      rintro (hin | hx)
      · have := h.fresh b hin
        rw [hfree] at this
        cases this
      · cases hx
    | true =>
      cases hfree1 : isFree sb fs₁ b with
      | true => exact .inl rfl
      | false =>
        rw [hfree1] at hiff
        have hnot : ¬(InSlot fs' ip b ∨ isFree sb fs' b = true) := fun hx =>
          Bool.false_ne_true (hiff.mpr hx)
        rw [not_or, Bool.not_eq_true] at hnot
        refine .inr ⟨d, rfl, rfl, rfl, ?_⟩
        rcases h.marked b hb hnot.2 with hu | hin | ⟨-, heq⟩
        · rw [hfree] at hu
          cases hu
        · exact absurd hin hnot.1
        · rw [hview d hdlt hdi, heq]

lemma createFail_spec {res : Option ℕ} (hd0 : Disk sb fs) (ha : Anchored sb R r fs)
    (hRd : R d) (h : Held sb (bump (bump r d) i) s) (hcore : s.core i = some c)
    (hl : Locked sb s.fs i c) (hri : r i = 0) (hdi : d ≠ i) (hdlt : d < sb.ninodes)
    (hcr : Created sb fs c.ip d s.fs) (hf : createFail sb s i c d = some (res, s')) :
    Unchanged sb (· = d) fs s'.fs := by
  have hwf := hl.wf hcr.disk
  have hone : c.ref = 1 := by
    have hr := h.refs i
    rw [hcore, bump_self, bump_of_ne (Ne.symm hdi), hri] at hr
    exact hr
  obtain ⟨hheld, hre⟩ := h.relink hcr.disk hcore hl hwf (n := 0) (Nat.two_pow_pos 16)
  obtain ⟨ip1, hip1⟩ : ∃ ip1 : Inode, ip1 = { c.ip with nlink := 0 } := ⟨_, rfl⟩
  obtain ⟨s1, hs1⟩ : ∃ s1, s1 = s.put i c ip1 (iupdate sb s.fs ip1) := ⟨_, rfl⟩
  rw [← hip1, ← hs1] at hheld
  rw [← hip1] at hre
  have hfs1 : s1.fs = iupdate sb s.fs ip1 := by rw [hs1]; rfl
  rw [← hfs1] at hre
  have hcore1 : s1.core i = some { c with ip := ip1 } := by
    rw [hs1]
    exact update_self _ _ _
  have hl1 := hheld.locked i _ hcore1 hl.valid
  have hinum : ip1.inum = c.ip.inum := by rw [hip1]
  obtain ⟨fs2, hput, hdr⟩ := iput_last hcore1 hl1 (hl1.wf hre.disk) hone (by rw [hip1])
  -- raising no link count and writing no block, `iupdate` keeps what was known
  have hslot : ∀ t, slot s1.fs ip1 t = slot s.fs c.ip t := fun t => by
    rw [hfs1]
    exact slot_iupdate (by rw [hinum]; exact hwf.inum) hwf.slots (by rw [hip1]) t
  have hin : ∀ b, InSlot s1.fs ip1 b ↔ InSlot s.fs c.ip b := fun b => by
    unfold InSlot
    simp only [hslot]
  have hcr1 : Created sb fs ip1 d s1.fs := by
    refine ⟨hre.disk, by rw [hinum]; exact hcr.free, fun j hj hne => ?_, fun j hj hne => ?_,
      fun b hb => hcr.fresh b ((hin b).mp hb),
      fun b hb hu => by rw [hre.free]; exact hcr.used b hb hu, fun b hb hu => ?_⟩
    · rw [hinum] at hne
      exact (hcr.stays j hj hne).trans (hre.stays j hj)
    · rw [hinum] at hne
      rw [hre.other j hj (by rwa [← hl.inum]), hcr.nlink j hj hne]
    · rw [hre.free] at hu
      rw [hin, hre.other d hdlt hdi]
      exact hcr.marked b hb hu
  have hinum' : ip1.inum = i := hinum.trans hl.inum
  have hun := hcr1.dropped hd0 (by rw [hinum']; exact hl.lt) (by rwa [hinum']) hdlt hdr
  unfold createFail at hf
  dsimp only at hf
  rw [← hip1, ← hs1, hput] at hf
  obtain ⟨g, hp, heq⟩ := Option.map_eq_some_iff.mp hf
  cases heq
  have hheld2 : Held sb (bump r d) { s1.set i none with fs := fs2 } := by
    refine hheld.set rfl (fun j hj c' hl' => hl'.of_dinodeAt (hdr.dinode j hl'.lt ?_)) ?_
      (fun j hj => (bump_of_ne hj).symm) fun _ hx => (nomatch hx)
    · rwa [hinum']
    · rw [bump_of_ne (Ne.symm hdi), hri]
      rfl
  rw [(hheld2.iput (ha.congr (fun j hj => (hun.stays j hj).type) hun.nlink) hRd hp).2.1]
  exact hun

lemma createDots_spec {ok : Bool} {c' : Core} (h : Held sb r s) (hcore : s.core i = some c)
    (hl : Locked sb s.fs i c) (hwf : Wf sb s.fs c.ip)
    (hd : createDots sb s i c d = some (ok, c', s')) :
    Held sb r s' ∧ s'.core i = some c' ∧ (∀ j ≠ i, s'.core j = s.core j) ∧ Locked sb s'.fs i c' ∧
      Works sb s.fs c.ip s'.fs c'.ip ∧ Wf sb s'.fs c'.ip := by
  unfold createDots at hd
  rcases hfirst : dirlink sb s i c [46] i with _ | ⟨ok1, c1, s1⟩
  · rw [hfirst] at hd
    cases hd
  obtain ⟨hheld, -, hcore1, hother, hl1, hw, hwf1, -, -⟩ := dirlink_spec h hcore hl hwf hfirst
  rw [hfirst] at hd
  cases ok1 with
  | false =>
    cases hd
    exact ⟨hheld, hcore1, hother, hl1, hw, hwf1⟩
  | true =>
    obtain ⟨hheld', -, hcore2, hother', hl2, hw', hwf2, -, -⟩ :=
      dirlink_spec hheld hcore1 hl1 hwf1 hd
    exact ⟨hheld', hcore2, fun j hj => (hother' j hj).trans (hother j hj), hl2, hw.trans hw',
      hwf2⟩

lemma Works.created (hw : Works sb fs (view sb fs i) fs' ip) (hd0 : Disk sb fs)
    (hi : i < sb.ninodes) (hfree : (view sb fs i).type = 0) (hwf : Wf sb fs' ip)
    (htype : ip.type ≠ 0) (d : ℕ) : Created sb fs ip d fs' := by
  have hnum : ip.inum = i := hw.inum
  have hc : Coh sb fs (view sb fs i) := ⟨rfl, rfl, rfl, fun _ _ => rfl⟩
  have hzero := slot_of_addrs_zero fs (hd0.free i hi hfree).2.2
  refine ⟨hd0.works hw hc hi hwf htype, by rwa [hnum], fun j hj hne => ?_, fun j hj hne => ?_,
    fun b hb => ?_, hw.used, fun b hb hu => ?_⟩
  · exact hd0.stays hw hc hi hj (by rwa [← hnum])
  · rw [hw.view_eq hj (by rwa [← hnum])]
  · obtain ⟨hb0, t, ht, rfl⟩ := hb
    exact hw.fresh t ht (hzero t) hb0
  · rcases hw.marked b hb hu with hu | ⟨t, ht, -, rfl, hb0⟩
    · exact .inl hu
    · exact .inr (.inl ⟨hb0, t, ht, rfl⟩)

lemma Created.kept {dp dp' : Inode} (h : Created sb fs ip d fs') (hip : Coh sb fs' ip)
    (hi : ip.inum < sb.ninodes) (hdi : d ≠ ip.inum) (hk : Kept sb fs' dp fs₁ dp')
    (hw : Works sb fs' dp fs₁ dp') (hc : Coh sb fs' dp) (hnum : dp.inum = d) (hd : d < sb.ninodes)
    (hwf : Wf sb fs₁ dp') (htype : dp'.type ≠ 0) : Created sb fs ip d fs₁ := by
  have hdlt : dp.inum < sb.ninodes := by rwa [hnum]
  have hun := hk.unchanged hw h.disk hc hdlt hnum
  have hne : ip.inum ≠ dp.inum := by
    rw [hnum]
    exact Ne.symm hdi
  have hslot : ∀ t, slot fs₁ ip t = slot fs' ip t := fun t => by
    have heq := h.disk.slot_eq hw hc hdlt hi hne t
    rwa [hip.slot, hip.slot] at heq
  have hin : ∀ b, InSlot fs₁ ip b ↔ InSlot fs' ip b := fun b => by
    unfold InSlot
    simp only [hslot]
  refine ⟨h.disk.works hw hc hdlt hwf htype, h.free,
    fun j hj hji => (h.stays j hj hji).trans (hun.stays j hj),
    fun j hj hji => (hun.nlink j hj).trans (h.nlink j hj hji),
    fun b hb => h.fresh b ((hin b).mp hb), fun b hb hu => hw.used b hb (h.used b hb hu),
    fun b hb hu => ?_⟩
  rw [hin]
  rcases hun.blocks b hb with heq | ⟨e, rfl, hfree, -, hb'⟩
  · rw [heq] at hu
    rcases h.marked b hb hu with h1 | h1 | ⟨hb0, h1⟩
    · exact .inl h1
    · exact .inr (.inl h1)
    · -- an indirect block that the directory had stays where it is
      refine .inr (.inr ⟨hb0, ?_⟩)
      have h2 := hw.coh.addrs NDIRECT le_rfl
      have h3 := hc.addrs NDIRECT le_rfl
      rw [hw.inum, hnum] at h2
      rw [hnum] at h3
      have hs : slot fs' dp NDIRECT = dp.addrs NDIRECT := if_pos le_rfl
      have hs' : slot fs₁ dp' NDIRECT = dp'.addrs NDIRECT := if_pos le_rfl
      rw [h1, h3] at hb0 ⊢
      rw [h2, ← hs', hw.keep _ (by decide) (by rwa [hs]), hs]
  · refine .inr (.inr ⟨fun hb0 => ?_, hb'⟩)
    have hmap := sb.bmapstart_lt_datastart
    rw [hb0, h.disk.reserved 0 (by omega)] at hfree
    cases hfree

lemma createEntry_fail (hd0 : Disk sb fs) (ha : Anchored sb R r fs) (hRd : R d)
    (h : Held sb (bump (bump r d) i) s) (hcore : s.core i = some c) (hl : Locked sb s.fs i c)
    (hcored : s.core d = some cd) (hv : cd.valid = true) (hri : r i = 0) (hdi : d ≠ i)
    (hdlt : d < sb.ninodes) (hcr : Created sb fs c.ip d s.fs)
    (hf : createEntry sb s type i c d cd name = some (none, s')) : Unchanged sb (· = d) fs s'.fs := by
  unfold createEntry at hf
  have hld := h.locked d cd hcored hv
  rcases hlink : dirlink sb s d cd name i with _ | ⟨ok, c', s1⟩
  · rw [hlink] at hf
    cases hf
  obtain ⟨hheld, -, -, hother, hld1, hw, hwf, -, hkept⟩ :=
    dirlink_spec h hcored hld (hld.wf hcr.disk) hlink
  rw [hlink] at hf
  cases ok with
  | true =>
    obtain ⟨g, -, heq⟩ := Option.map_eq_some_iff.mp hf
    cases heq
  | false =>
    have hcore1 : s1.core i = some c := (hother i (Ne.symm hdi)).trans hcore
    have hl1 := hheld.locked i c hcore1 hl.valid
    refine createFail_spec hd0 ha hRd hheld hcore1 hl1 hri hdi hdlt ?_ hf
    exact hcr.kept hl.coh (by rw [hl.inum]; exact hl.lt) (by rwa [hl.inum]) (hkept rfl) hw hld.coh
      hld.inum hdlt hwf hld1.type

lemma Held.core_eq_none (h : Held sb r s) (hr : r i = 0) : s.core i = none := by
  cases hcore : s.core i with
  | none => rfl
  | some c =>
    have h1 := h.refs i
    have h2 := h.pos i c hcore
    rw [hcore, hr] at h1
    change c.ref = 0 at h1
    omega

lemma iget_core_of_ne (hj : j ≠ i) : (s.iget i).core j = s.core j := by
  unfold Sys.iget
  split <;> exact update_of_ne hj _ _

lemma create_new {g : Sys} (ht : type < 2 ^ 16) (hd0 : Disk sb s.fs) (ha : Anchored sb R r s.fs)
    (hRd : R d) (h : Held sb (bump r d) s) (hcored : s.core d = some cd) (hv : cd.valid = true)
    (hri : r i = 0) (hdi : d ≠ i) (hdlt : d < sb.ninodes) (hi : i < sb.ninodes)
    (hfree : (view sb s.fs i).type = 0) (hfs1 : fs₁ = Content.logWrite (s.fs.put (sb.iblock i)
      ((s.fs.data (sb.iblock i)).paste (i % IPB * 64) ((Bytes.zero 64).setLE 2 0 type)))
        (sb.iblock i))
    (hlock : ilock sb (({ s with fs := fs₁ } : Sys).iget i) i = some (c, g))
    (hip : ip = { c.ip with major := major, minor := minor, nlink := 1 })
    (hf : (if type = T_DIR then
        match createDots sb (g.put i c ip (iupdate sb g.fs ip)) i { c with ip := ip } d with
        | none => none
        | some (false, c, s) => createFail sb s i c d
        | some (true, c, s) => createEntry sb s type i c d cd name
      else createEntry sb (g.put i c ip (iupdate sb g.fs ip)) type i { c with ip := ip } d cd
        name) = some (none, s')) : Unchanged sb (· = d) s.fs s'.fs := by
  obtain ⟨hnew, hdin⟩ := ialloc_spec (i := i) ht hd0 hfs1 hi hfree
  have hnone : s.core i = none := h.core_eq_none (by rw [bump_of_ne (Ne.symm hdi), hri])
  have hheld1 : Held sb (bump r d) { s with fs := fs₁ } := by
    refine h.set (i := i) (x := none) ?_ (fun j hj c' hl => hl.of_dinodeAt (hdin j hj)) ?_
      (fun _ _ => rfl) fun _ hx => (nomatch hx)
    · rw [← hnone, update_eq_self]
    · rw [bump_of_ne (Ne.symm hdi), hri]
      rfl
  obtain ⟨hheld2, hstill2⟩ := hheld1.iget i
  obtain ⟨hheld3, hstill3, hcore, hl⟩ := hheld2.ilock hi hlock
  have hgfs : g.fs = fs₁ := hstill3.1.trans hstill2.1
  rw [← hgfs] at hnew
  obtain ⟨htype, hwf, hw0⟩ := hnew c.ip hl.inum hl.coh
  obtain ⟨hw1, hwf1, -, -, -⟩ := iupdate_stays hwf hl.coh
    (show ip.inum = c.ip.inum by rw [hip]) (by rw [hip]) (by rw [hip]) (by rw [hip])
    (by rw [hip]; exact Nat.one_lt_two_pow (by decide))
  have hiptype : ip.type ≠ 0 := by
    rw [hip]
    exact hl.type
  obtain ⟨hheld4, hl4⟩ := hheld3.put hcore hl hw1 hiptype
  have hcore4 : (g.put i c ip (iupdate sb g.fs ip)).core i = some { c with ip := ip } :=
    update_self _ _ _
  have hcored4 : (g.put i c ip (iupdate sb g.fs ip)).core d = some cd :=
    (update_of_ne hdi _ _).trans ((ilock_core_of_ne hlock hdi).trans
      ((iget_core_of_ne hdi).trans hcored))
  have hwork := hw0.trans hw1
  by_cases hdir : type = T_DIR
  swap
  · rw [if_neg hdir] at hf
    exact createEntry_fail hd0 ha hRd hheld4 hcore4 hl4 hcored4 hv hri hdi hdlt
      (hwork.created hd0 hi hfree hwf1 hiptype d) hf
  rw [if_pos hdir] at hf
  cases hdots : createDots sb (g.put i c ip (iupdate sb g.fs ip)) i { c with ip := ip } d with
  | none =>
    rw [hdots] at hf
    cases hf
  | some out =>
    obtain ⟨ok, c5, s5⟩ := out
    obtain ⟨hheld5, hcore5, hother5, hl5, hw5, hwf5⟩ :=
      createDots_spec hheld4 hcore4 hl4 hwf1 hdots
    have hcr := (hwork.trans hw5).created hd0 hi hfree hwf5 hl5.type d
    rw [hdots] at hf
    cases ok with
    | false => exact createFail_spec hd0 ha hRd hheld5 hcore5 hl5 hri hdi hdlt hcr hf
    | true =>
      exact createEntry_fail hd0 ha hRd hheld5 hcore5 hl5 ((hother5 d hdi).trans hcored4) hv hri hdi
        hdlt hcr hf

lemma create_fail (hs : Sound sb s) {path : List UInt8} (ht : type < 2 ^ 16)
    (hl : create sb s path type major minor name = some (none, s')) :
    Unchanged sb (Parent sb s path name) s.fs s'.fs := by
  unfold create at hl
  rcases hname : namex sb s path true name with _ | ⟨found, n, s1⟩
  · rw [hname] at hl
    cases hl
  obtain ⟨hstill, hcase⟩ := namex_spec hs.tree (reach_closed sb s) hs.anchored
    ⟨hs.root, .root⟩ ⟨hs.cwd, .cwd⟩ hs.held hname
  rw [hname] at hl
  rcases hcase with ⟨rfl, -⟩ | ⟨d, rfl, hd, hRd, hheld, hdir⟩
  · cases hl
    exact .of_eq hstill.1
  dsimp only at hl
  rcases hlock : ilock sb s1 d with _ | ⟨cd, s2⟩
  · rw [hlock] at hl
    cases hl
  obtain ⟨hheld2, hstill2, hcore, hlk⟩ := hheld.ilock hd hlock
  have hfs := (hstill.trans hstill2).1
  rw [hlock] at hl
  dsimp only at hl
  have htree : Tree sb s2.fs := by
    rw [hfs]
    exact hs.tree
  have ha2 : Anchored sb (Reach sb s) (fun j => count (s.core j)) s2.fs := by
    rw [hfs]
    exact hs.anchored
  rcases hlook : dirlookup sb s2 d cd n with _ | ⟨found, s3⟩
  · rw [hlook] at hl
    cases hl
  obtain ⟨htype, hcase⟩ := dirlookup_spec hcore (hlk.wf htree.toDisk) hlook
  rw [hlook] at hl
  rcases hcase with ⟨rfl, rfl⟩ | ⟨o, j, rfl, rfl, hj, ho, hmod⟩
  · unfold ialloc at hl
    dsimp only at hl
    cases hfind : (List.range sb.ninodes).find? fun i =>
        decide (0 < i ∧ (ofDinode i (dinodeAt sb s3.fs i)).type = 0) with
    | none =>
      rw [hfind] at hl
      obtain ⟨g, hp, heq⟩ := Option.map_eq_some_iff.mp hl
      cases heq
      exact .of_eq ((hheld2.iput ha2 hRd hp).2.1.trans hfs)
    | some i =>
      have hi : i < sb.ninodes := List.mem_range.mp (List.mem_of_find?_eq_some hfind)
      have hfound := List.find?_some hfind
      have hfree : (view sb s3.fs i).type = 0 := (decide_eq_true_eq.mp hfound).2
      have hdi : d ≠ i := fun hdi => by
        have := hdir rfl
        rw [← hfs, hdi, hfree] at this
        cases this
      have hri : count (s.core i) = 0 := by
        cases hc : s.core i with
        | none => rfl
        | some c =>
          refine absurd ?_ (hs.live i c hc)
          rw [← hfs]
          exact hfree
      rw [hfind] at hl
      dsimp only at hl
      split at hl
      · cases hl
      rename_i c g hlock'
      have hun := create_new ht htree.toDisk ha2 hRd hheld2 hcore hlk.valid hri hdi hd hi
        hfree rfl hlock' rfl hl
      rw [hfs] at hun
      refine ⟨hun.stays, hun.nlink, fun b hb => ?_⟩
      rcases hun.blocks b hb with heq | ⟨e, rfl, hrest⟩
      · exact .inl heq
      · exact .inr ⟨e, ⟨n, s1, hname⟩, hrest⟩
  · dsimp only at hl
    obtain ⟨hjlt, hRj⟩ : j < sb.ninodes ∧ Reach sb s j := by
      rw [hj]
      exact hlk.direntInum_lt htree (by rw [hfs]; exact reach_closed sb s) hRd htype ho hmod
    obtain ⟨hheld3, hstill3⟩ := hheld2.iget j
    rw [bump_comm] at hheld3
    rcases hp : iput sb (s2.iget j) d with _ | s4
    · rw [hp] at hl
      cases hl
    obtain ⟨hheld4, hstill4⟩ := hheld3.iput (by rw [hstill3.1]; exact ha2.bump j) hRd hp
    rw [hp] at hl
    dsimp only at hl
    rcases hlock' : ilock sb s4 j with _ | ⟨c, s5⟩
    · rw [hlock'] at hl
      cases hl
    obtain ⟨hheld5, hstill5, -, -⟩ := hheld4.ilock hjlt hlock'
    have hfs5 : s5.fs = s2.fs := ((hstill3.trans hstill4).trans hstill5).1
    rw [hlock'] at hl
    dsimp only at hl
    split at hl
    · cases hl
    obtain ⟨g, hp', heq⟩ := Option.map_eq_some_iff.mp hl
    cases heq
    obtain ⟨-, hst⟩ := hheld5.iput (by rw [hfs5]; exact ha2) hRj hp'
    exact .of_eq ((hst.1.trans hfs5).trans hfs)

end

def direntName (fs : Fs) (dp : Inode) (off : ℕ) : List UInt8 :=
  (List.range DIRSIZ).map fun k => byteAt fs dp (off + 2 + k)

def dirMap (sb : Superblock) (fs : Fs) (d : ℕ) (name : List UInt8) : Option ℕ :=
  ((List.range ((view sb fs d).size / 16)).find? fun k =>
    decide (direntInum fs (view sb fs d) (16 * k) ≠ 0 ∧
      namecmp name (direntName fs (view sb fs d) (16 * k)) = 0)).map fun k =>
    direntInum fs (view sb fs d) (16 * k)

section

variable {sb : Superblock} {fs fs' : Fs} {s : Sys} {P Q : ℕ → Prop}

lemma Stays.dirMap_eq {d : ℕ} (h : Stays sb fs fs' d) (name : List UInt8) :
    dirMap sb fs' d name = dirMap sb fs d name := by
  have hinum : ∀ k < (view sb fs d).size / 16,
      direntInum fs' (view sb fs' d) (16 * k) = direntInum fs (view sb fs d) (16 * k) :=
    fun k hk => h.direntInum_eq (by omega)
  have hname : ∀ k < (view sb fs d).size / 16,
      direntName fs' (view sb fs' d) (16 * k) = direntName fs (view sb fs d) (16 * k) := by
    intro k hk
    refine List.map_congr_left fun l hl => h.bytes _ ?_
    have hl : l < 14 := List.mem_range.mp hl
    omega
  unfold dirMap
  rw [h.size]
  rw [List.find?_congr fun k hk => by
    rw [hinum k (List.mem_range.mp hk), hname k (List.mem_range.mp hk)]]
  cases hk : (List.range ((view sb fs d).size / 16)).find? fun k =>
      decide (direntInum fs (view sb fs d) (16 * k) ≠ 0 ∧
        namecmp name (direntName fs (view sb fs d) (16 * k)) = 0) with
  | none => rfl
  | some k =>
    exact congrArg some (hinum k (List.mem_range.mp (List.mem_of_find?_eq_some hk)))

/-- A call has no effect, apart from an indirect block of a directory of `P`. -/
structure NoEffect (sb : Superblock) (P : ℕ → Prop) (fs fs' : Fs) : Prop extends
    Unchanged sb P fs fs' where
  tree : ∀ d < sb.ninodes, ∀ name, dirMap sb fs' d name = dirMap sb fs d name

lemma Unchanged.noEffect (h : Unchanged sb P fs fs') (hPQ : ∀ d, P d → Q d) :
    NoEffect sb Q fs fs' := by
  refine ⟨⟨h.stays, h.nlink, fun b hb => ?_⟩, fun d hd name => (h.stays d hd).dirMap_eq name⟩
  rcases h.blocks b hb with heq | ⟨d, hP, hrest⟩
  · exact .inl heq
  · exact .inr ⟨d, hPQ d hP, hrest⟩

def ParentOf (sb : Superblock) (s : Sys) (path : Option (List UInt8)) (name : List UInt8) (d : ℕ) :
    Prop :=
  ∃ p, path = some p ∧ Parent sb s p name d

def ParentOfLink (sb : Superblock) (s : Sys) (old new : Option (List UInt8))
    (buf name : List UInt8) (d : ℕ) : Prop :=
  ∃ o p i s', old = some o ∧ new = some p ∧ linkOld sb s o buf = some (some i, s') ∧
    Parent sb s' p name d

lemma sysLink_fail (hs : Sound sb s) {old new : Option (List UInt8)} {buf : List UInt8} {s' : Sys}
    (hl : sysLink sb s old new buf name = some (-1, s')) :
    NoEffect sb (ParentOfLink sb s old new buf name) s.fs s'.fs := by
  have hnone : s'.fs = s.fs → NoEffect sb (ParentOfLink sb s old new buf name) s.fs s'.fs :=
    fun h => Unchanged.noEffect (P := fun _ => False) (.of_eq h) fun _ hx => hx.elim
  rcases old with _ | o
  · cases hl
    exact hnone rfl
  rcases new with _ | p
  · cases hl
    exact hnone rfl
  unfold sysLink at hl
  dsimp only at hl
  rcases hold : linkOld sb s o buf with _ | ⟨res, s1⟩
  · rw [hold] at hl
    cases hl
  rw [hold] at hl
  rcases linkOld_spec hs hold with ⟨rfl, hfs⟩ | ⟨i, rfl, hi, hR, hheld, hcwd, hre, htype⟩
  · cases hl
    exact hnone hfs
  refine (linkNew_spec hs.tree (reach_closed sb s) hs.anchored ⟨hs.root, .root⟩
    (by rw [hcwd]; exact ⟨hs.cwd, .cwd⟩) hi hR hheld hre rfl htype hl).noEffect
      fun d hd => ?_
  exact ⟨o, p, i, s1, rfl, rfl, hold, hd⟩

lemma sysCreate_fail (hs : Sound sb s) {path : Option (List UInt8)} (ht : type < 2 ^ 16)
    {s' : Sys} (hl : sysCreate sb s path type major minor name = some (-1, s')) :
    NoEffect sb (ParentOf sb s path name) s.fs s'.fs := by
  unfold sysCreate at hl
  rcases path with _ | p
  · cases hl
    exact Unchanged.noEffect (P := fun _ => False) (.of_eq rfl) fun _ hx => hx.elim
  dsimp only at hl
  rcases hc : create sb s p type major minor name with _ | ⟨res, s1⟩
  · rw [hc] at hl
    cases hl
  rw [hc] at hl
  cases res with
  | none =>
    cases hl
    exact (create_fail hs ht hc).noEffect fun d hd => ⟨p, rfl, hd⟩
  | some i =>
    obtain ⟨g, -, heq⟩ := Option.map_eq_some_iff.mp hl
    cases heq

/-- **Failed directory operations have no effect.**  When `sys_link`, `sys_unlink`, `sys_mkdir` or
`sys_mknod` returns -1, the directories and the type, the links, the size and the bytes of every
inode are as before, and so are the marked blocks, but for an indirect block that the parent
directory has got. -/
theorem failed_noEffect (hs : Sound sb s) (name : List UInt8) (s' : Sys) :
    (∀ old new buf, sysLink sb s old new buf name = some (-1, s') →
      NoEffect sb (ParentOfLink sb s old new buf name) s.fs s'.fs) ∧
    (∀ path, sysUnlink sb s path name = some (-1, s') → NoEffect sb (fun _ => False) s.fs s'.fs) ∧
    (∀ path, sysMkdir sb s path name = some (-1, s') →
      NoEffect sb (ParentOf sb s path name) s.fs s'.fs) ∧
    ∀ path major minor, sysMknod sb s path major minor name = some (-1, s') →
      NoEffect sb (ParentOf sb s path name) s.fs s'.fs :=
  ⟨fun _ _ _ hl => sysLink_fail hs hl,
    fun _ hl => Unchanged.noEffect (.of_eq (sysUnlink_fail hs hl)) fun _ hx => hx,
    fun _ hl => sysCreate_fail hs (by decide) hl,
    fun _ _ _ hl => sysCreate_fail hs (by norm_num) hl⟩

end

/-! ## A full disk -/

def rootDir : Inode where
  inum := 1
  type := T_DIR
  major := 0
  minor := 0
  nlink := 1
  size := 32
  addrs k := if k = 0 then 46 else 0

def rootFs : Fs where
  data b :=
    if b = 45 then fun _ => 255
    else if b = 32 then (Bytes.zero BSIZE).paste 64 rootDir.dinode
    else if b = 46 then (Bytes.zero BSIZE).blit 0
      ([1, 0, 46, 0, 0, 0, 0, 0, 0, 0, 0, 0, 0, 0, 0, 0, 1, 0, 46, 46])
    else Bytes.zero BSIZE
  lh := []
  calls := []

def rootSys : Sys := ⟨rootFs, fun _ => none, 1⟩

lemma coh_rootDir : Coh mkfsSb rootFs rootDir := by
  refine coh_of_dinodeAt ⟨by decide, by decide, by decide, fun k _ => ?_⟩ ?_
  · change (if k = 0 then 46 else 0) < _
    split <;> norm_num
  · exact Bytes.slice_paste_self _ _ (by decide)

lemma dinodeAt_rootFs (hj : j < 200) (hne : j ≠ 1) : dinodeAt mkfsSb rootFs j = Bytes.zero 64 := by
  have hzero : ∀ o, (Bytes.zero BSIZE).slice 64 o = Bytes.zero 64 := fun o =>
    funext fun _ => Bytes.get_zero _
  have hb : mkfsSb.iblock j = j / 16 + 32 := rfl
  unfold dinodeAt
  by_cases hlow : j / 16 = 0
  · have hdata : rootFs.data (mkfsSb.iblock j) = (Bytes.zero BSIZE).paste 64 rootDir.dinode := by
      rw [hb, hlow]
      rfl
    rw [hdata, Bytes.slice_paste_of_disjoint _ _ (by decide)
      (by change j % 16 * 64 + 64 ≤ 64 ∨ 64 + 64 ≤ j % 16 * 64; omega), hzero]
  have hdata : rootFs.data (mkfsSb.iblock j) = Bytes.zero BSIZE := by
    rw [hb]
    exact (if_neg (show ¬j / 16 + 32 = 45 by omega)).trans
      ((if_neg (show ¬j / 16 + 32 = 32 by omega)).trans
        (if_neg (show ¬j / 16 + 32 = 46 by omega)))
  rw [hdata, hzero]

lemma slot_rootDir (s : ℕ) : slot rootFs rootDir s = if s = 0 then 46 else 0 := by
  unfold slot
  by_cases hs : s ≤ NDIRECT
  · rw [if_pos hs]
    rfl
  · rw [if_neg hs, if_pos (show rootDir.addrs NDIRECT = 0 from rfl), if_neg (by omega)]

lemma wf_rootDir : Wf mkfsSb rootFs rootDir := by
  have hslot : ∀ s, slot rootFs rootDir s ≠ 0 → s = 0 ∧ slot rootFs rootDir s = 46 := by
    intro s hne
    rw [slot_rootDir] at hne ⊢
    by_cases hs : s = 0
    · exact ⟨hs, if_pos hs⟩
    · exact absurd (if_neg hs) hne
  refine ⟨by unfold Reserved; decide +kernel, ⟨fun s _ h => ?_, fun s _ h => ?_, fun s _ h => ?_,
    fun s _ t _ h heq => ?_⟩, by decide, fun bn hbn => ?_⟩
  · rw [(hslot s h).2]
    decide
  · rw [(hslot s h).2]
    decide
  · rw [(hslot s h).2]
    decide +kernel
  · rw [(hslot s h).1, (hslot t (by rwa [← heq])).1]
  · have hbn : bn * 1024 < 32 := hbn
    obtain rfl : bn = 0 := by omega
    exact ⟨by decide, by decide⟩

lemma tree_rootFs : Tree mkfsSb rootFs := by
  have hview : ∀ j < mkfsSb.ninodes, j ≠ 1 → view mkfsSb rootFs j = ofDinode j (Bytes.zero 64) :=
    fun j hj hne => by
      unfold view
      rw [dinodeAt_rootFs hj hne]
  have hzero : ∀ j < mkfsSb.ninodes, j ≠ 1 → (view mkfsSb rootFs j).type = 0 ∧
      (view mkfsSb rootFs j).nlink = 0 ∧ (view mkfsSb rootFs j).size = 0 ∧
        ∀ k ≤ NDIRECT, (view mkfsSb rootFs j).addrs k = 0 := fun j hj hne => by
    rw [hview j hj hne]
    exact ⟨Bytes.getLE_zero _ _, Bytes.getLE_zero _ _, Bytes.getLE_zero _ _,
      fun _ _ => Bytes.getLE_zero _ _⟩
  have hc := coh_rootDir
  have hslot : ∀ j < mkfsSb.ninodes, j ≠ 1 → ∀ s, slot rootFs (view mkfsSb rootFs j) s = 0 :=
    fun j hj hne => slot_of_addrs_zero rootFs (hzero j hj hne).2.2.2
  refine ⟨⟨wf_rootDir.reserved, fun j hj ht => ?_, fun j hj ht => ?_,
    fun i hi j hj hij s _ t _ hz => ?_⟩, fun d hd ht off hmod hoff => ?_⟩
  · by_cases hj1 : j = 1
    · subst hj1
      exact wf_congr wf_rootDir rfl hc.size hc.addrs
    · exact absurd (hzero j hj hj1).1 ht
  · by_cases hj1 : j = 1
    · subst hj1
      have := hc.type.symm.trans ht
      cases this
    · exact (hzero j hj hj1).2
  · by_cases hi1 : i = 1
    · rw [hslot j hj (by omega)]
      exact hz
    · exact absurd (hslot i hi hi1 s) hz
  · by_cases hd1 : d = 1
    · subst hd1
      have hsize : (view mkfsSb rootFs 1).size = 32 := hc.size
      have heq : direntInum rootFs (view mkfsSb rootFs 1) off = direntInum rootFs rootDir off := by
        unfold direntInum
        rw [byteAt_of_coh hc, byteAt_of_coh hc]
        rfl
      have hoff' : off = 0 ∨ off = 16 := by omega
      rw [heq]
      rcases hoff' with rfl | rfl <;> decide +kernel
    · rw [(hzero d hd hd1).1] at ht
      cases ht

lemma sound_rootSys : Sound mkfsSb rootSys := by
  refine ⟨tree_rootFs, by decide, by decide,
    ⟨fun _ => rfl, fun _ _ hx => (nomatch hx), fun _ _ hx => (nomatch hx)⟩, fun j hj _ ht hn => ?_,
    fun _ _ hx => (nomatch hx)⟩
  by_cases hj1 : j = 1
  · subst hj1
    have := coh_rootDir.nlink.symm.trans hn
    cases this
  refine absurd ?_ ht
  change (ofDinode j (dinodeAt mkfsSb rootFs j)).type = 0
  rw [dinodeAt_rootFs hj hj1]
  exact Bytes.getLE_zero _ _

/-- `mkdir("a")` with no free block: the new inode gets no block for its entries, and is freed. -/
theorem failed_noEffect_full : ∃ s', sysMkdir mkfsSb rootSys (some [97]) [] = some (-1, s') ∧
    s'.fs.calls = [32, 32, 32, 32, 32, 32] ∧
    NoEffect mkfsSb (ParentOf mkfsSb rootSys (some [97]) []) rootFs s'.fs := by
  have hrun : (sysMkdir mkfsSb rootSys (some [97]) []).map (fun r => (r.1, r.2.fs.calls)) =
      some (-1, [32, 32, 32, 32, 32, 32]) := by decide +kernel
  obtain ⟨⟨v, s'⟩, hcall, heq⟩ := Option.map_eq_some_iff.mp hrun
  obtain ⟨rfl, hcalls⟩ := Prod.mk.inj heq
  exact ⟨s', hcall, hcalls, (failed_noEffect sound_rootSys [] s').2.2.1 _ hcall⟩

end Dirs

end Xv6
