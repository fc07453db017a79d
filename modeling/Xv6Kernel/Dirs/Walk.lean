import Xv6Kernel.Dirs.Blocks

/-!
# Walking a path

A walk along a path reads directories and moves one reference from an inode to the next; it never
drops the last reference to an inode without links, since somebody else holds one (`Anchored`), so
it changes nothing on the disk (`Still`).
-/

namespace Xv6

open Function

variable {fs' : Fs} {dp ip : Inode} {name : List UInt8} {j : ℕ}

namespace Dirs

open Mkfs (ROOTINO T_DIR slash)
open Content

/-! ## Well-formed disks -/

def direntInum (fs : Fs) (dp : Inode) (off : ℕ) : ℕ :=
  (byteAt fs dp off).toNat + 256 * (byteAt fs dp (off + 1)).toNat

/-- The inodes of a well-formed file system. -/
structure Disk (sb : Superblock) (fs : Fs) : Prop where
  reserved : Reserved sb fs
  wf : ∀ j < sb.ninodes, (view sb fs j).type ≠ 0 → Wf sb fs (view sb fs j)
  free : ∀ j < sb.ninodes, (view sb fs j).type = 0 → (view sb fs j).nlink = 0 ∧
    (view sb fs j).size = 0 ∧ ∀ k ≤ NDIRECT, (view sb fs j).addrs k = 0
  apart : ∀ i < sb.ninodes, ∀ j < sb.ninodes, i ≠ j → ∀ s < nslots, ∀ t < nslots,
    slot fs (view sb fs i) s ≠ 0 → slot fs (view sb fs i) s ≠ slot fs (view sb fs j) t

/-- A well-formed file system. -/
structure Tree (sb : Superblock) (fs : Fs) : Prop extends Disk sb fs where
  entries : ∀ d < sb.ninodes, (view sb fs d).type = T_DIR → ∀ off, off % 16 = 0 →
    off + 16 ≤ (view sb fs d).size → direntInum fs (view sb fs d) off < sb.ninodes

def count (c : Option Core) : ℕ :=
  match c with
  | none => 0
  | some c => c.ref

/-- One more reference to an inode. -/
def bump (r : ℕ → ℕ) (i : ℕ) : ℕ → ℕ := fun j => r j + if j = i then 1 else 0

lemma bump_comm (r : ℕ → ℕ) (i j : ℕ) : bump (bump r i) j = bump (bump r j) i :=
  funext fun _ => Nat.add_right_comm _ _ _

/-- Somebody refers to every inode of `R` in use that has no links. -/
def Anchored (sb : Superblock) (R : ℕ → Prop) (r : ℕ → ℕ) (fs : Fs) : Prop :=
  ∀ j < sb.ninodes, R j → (view sb fs j).type ≠ 0 → (view sb fs j).nlink = 0 → 0 < r j

def Closed (sb : Superblock) (R : ℕ → Prop) (fs : Fs) : Prop :=
  ∀ d < sb.ninodes, R d → (view sb fs d).type = T_DIR → ∀ off, off % 16 = 0 →
    off + 16 ≤ (view sb fs d).size → R (direntInum fs (view sb fs d) off)

/-- The entry of the table of an inode that was read from the disk. -/
structure Locked (sb : Superblock) (fs : Fs) (i : ℕ) (c : Core) : Prop where
  valid : c.valid = true
  inum : c.ip.inum = i
  lt : i < sb.ninodes
  coh : Coh sb fs c.ip
  type : c.ip.type ≠ 0

structure Held (sb : Superblock) (r : ℕ → ℕ) (s : Sys) : Prop where
  refs : ∀ j, count (s.core j) = r j
  pos : ∀ j c, s.core j = some c → 0 < c.ref
  locked : ∀ j c, s.core j = some c → c.valid = true → Locked sb s.fs j c

def Still (s s' : Sys) : Prop := s'.fs = s.fs ∧ s'.cwd = s.cwd

lemma Still.trans {s s' s'' : Sys} (h : Still s s') (h' : Still s' s'') : Still s s'' :=
  ⟨h'.1.trans h.1, h'.2.trans h.2⟩

section

variable {sb : Superblock} {fs : Fs} {R : ℕ → Prop} {r : ℕ → ℕ} {s s' : Sys} {i : ℕ} {c : Core}

lemma wf_congr {jp : Inode} (h : Wf sb fs ip) (hnum : jp.inum = ip.inum)
    (hsize : jp.size = ip.size) (haddrs : ∀ k ≤ NDIRECT, jp.addrs k = ip.addrs k) : Wf sb fs jp := by
  have hslot : ∀ s, slot fs jp s = slot fs ip s := slot_eq_of_addrs haddrs
  refine ⟨h.reserved, h.slots.congr (fun s _ => hslot s) fun _ _ hu => hu,
    by rw [hnum]; exact h.inum, fun bn hbn => ?_⟩
  rw [hsize] at hbn
  obtain ⟨h1, h2⟩ := h.blocks bn hbn
  exact ⟨h1, (hslot _).trans_ne h2⟩

lemma wf_of_coh (hc : Coh sb fs ip) (h : Wf sb fs (view sb fs ip.inum)) : Wf sb fs ip :=
  wf_congr h rfl hc.size.symm fun k hk => (hc.addrs k hk).symm

lemma byteAt_of_coh (hc : Coh sb fs ip) (i : ℕ) :
    byteAt fs ip i = byteAt fs (view sb fs ip.inum) i := by
  unfold byteAt
  rw [show lookup fs ip (i / BSIZE) = lookup fs (view sb fs ip.inum) (i / BSIZE) from
    slot_eq_of_addrs (fun k hk => (hc.addrs k hk).symm) _]

section

variable (h : Locked sb fs i c)
include h

lemma Locked.wf (ht : Disk sb fs) : Wf sb fs c.ip := by
  refine wf_of_coh h.coh ?_
  rw [h.inum]
  refine ht.wf i h.lt ?_
  have htype := h.coh.type
  rw [h.inum] at htype
  rw [htype]
  exact h.type

lemma Locked.view_type : (view sb fs i).type = c.ip.type := by
  rw [← h.inum]
  exact h.coh.type

lemma Locked.view_nlink : (view sb fs i).nlink = c.ip.nlink := by
  rw [← h.inum]
  exact h.coh.nlink

lemma Locked.of_dinodeAt (hd : dinodeAt sb fs' i = dinodeAt sb fs i) : Locked sb fs' i c := by
  have hview : view sb fs' c.ip.inum = view sb fs c.ip.inum := by
    unfold view
    rw [h.inum, hd]
  obtain ⟨h1, h2, h3, h4⟩ := h.coh
  rw [← hview] at h1 h2 h3 h4
  exact ⟨h.valid, h.inum, h.lt, ⟨h1, h2, h3, h4⟩, h.type⟩

end

/-! ## References -/

lemma Held.set (h : Held sb r s) {x : Option Core} {r' : ℕ → ℕ}
    (hcore : s'.core = update s.core i x)
    (hother : ∀ j ≠ i, ∀ c, Locked sb s.fs j c → Locked sb s'.fs j c)
    (hr : r' i = count x) (hr' : ∀ j ≠ i, r' j = r j)
    (hx : ∀ c, x = some c → 0 < c.ref ∧ (c.valid = true → Locked sb s'.fs i c)) : Held sb r' s' := by
  have hself : s'.core i = x := by rw [hcore, update_self]
  have hne : ∀ j ≠ i, s'.core j = s.core j := fun j hj => by
    rw [hcore, update_of_ne hj]
  refine ⟨fun j => ?_, fun j c hj => ?_, fun j c hj hv => ?_⟩
  · by_cases hji : j = i
    · rw [hji, hself, hr]
    · rw [hne j hji, hr' j hji, h.refs]
  · by_cases hji : j = i
    · rw [hji, hself] at hj
      exact (hx c hj).1
    · rw [hne j hji] at hj
      exact h.pos j c hj
  · by_cases hji : j = i
    · rw [hji, hself] at hj
      rw [hji]
      exact (hx c hj).2 hv
    · rw [hne j hji] at hj
      exact hother j hji c (h.locked j c hj hv)

lemma bump_self : bump r i i = r i + 1 := by rw [bump, if_pos rfl]

lemma bump_of_ne (h : j ≠ i) : bump r i j = r j := by rw [bump, if_neg h, Nat.add_zero]

lemma Held.iget (h : Held sb r s) (i : ℕ) : Held sb (bump r i) (s.iget i) ∧ Still s (s.iget i) := by
  unfold Sys.iget
  cases hcore : s.core i with
  | none =>
    refine ⟨h.set rfl (fun _ _ _ hl => hl) ?_ (fun j hj => bump_of_ne hj) fun c hc => ?_, rfl, rfl⟩
    · rw [bump_self, ← h.refs, hcore]
      rfl
    · cases hc
      exact ⟨Nat.one_pos, fun hv => (nomatch hv)⟩
  | some c0 =>
    refine ⟨h.set rfl (fun _ _ _ hl => hl) ?_ (fun j hj => bump_of_ne hj) fun c hc => ?_, rfl, rfl⟩
    · rw [bump_self, ← h.refs, hcore]
      rfl
    · cases hc
      refine ⟨Nat.succ_pos _, fun hv => ?_⟩
      have hl := h.locked i c0 hcore hv
      exact ⟨hv, hl.inum, hl.lt, hl.coh, hl.type⟩

lemma Held.ilock (h : Held sb r s) (hi : i < sb.ninodes) (hl : Dirs.ilock sb s i = some (c, s')) :
    Held sb r s' ∧ Still s s' ∧ s'.core i = some c ∧ Locked sb s'.fs i c := by
  unfold Dirs.ilock at hl
  split at hl
  · cases hl
  rename_i c0 hcore
  by_cases hv : c0.valid = true
  · simp only [hv, if_true] at hl
    cases hl
    exact ⟨h, ⟨rfl, rfl⟩, hcore, h.locked i c hcore hv⟩
  simp only [if_neg hv] at hl
  by_cases htype : (ofDinode i (dinodeAt sb s.fs i)).type = 0
  · rw [if_pos htype] at hl
    cases hl
  rw [if_neg htype] at hl
  cases hl
  have hlock : Locked sb s.fs i
      { c0 with valid := true, ip := ofDinode i (dinodeAt sb s.fs i) } :=
    ⟨rfl, rfl, hi, ⟨rfl, rfl, rfl, fun _ _ => rfl⟩, htype⟩
  refine ⟨h.set rfl (fun _ _ _ hl => hl) ?_ (fun _ _ => rfl) fun c hc => ?_, ⟨rfl, rfl⟩,
    update_self _ _ _, hlock⟩
  · rw [← h.refs, hcore]
    rfl
  · cases hc
    exact ⟨h.pos i c0 hcore, fun _ => hlock⟩

lemma ilock_core_of_ne (hl : Dirs.ilock sb s i = some (c, s')) (hj : j ≠ i) :
    s'.core j = s.core j := by
  unfold Dirs.ilock at hl
  split at hl
  · cases hl
  split at hl
  · cases hl
    rfl
  dsimp only at hl
  split at hl
  · cases hl
  · cases hl
    exact update_of_ne hj _ _

lemma Held.put (h : Held sb r s) (hcore : s.core i = some c) (hl : Locked sb s.fs i c)
    {ip' : Inode} (hw : Works sb s.fs c.ip fs' ip') (htype : ip'.type ≠ 0) :
    Held sb r (s.put i c ip' fs') ∧ Locked sb fs' i { c with ip := ip' } := by
  have hlock : Locked sb fs' i { c with ip := ip' } :=
    ⟨hl.valid, hw.inum.trans hl.inum, hl.lt, hw.coh, htype⟩
  refine ⟨h.set rfl (fun j hj c' hl' => ?_) ?_ (fun _ _ => rfl) fun c' hc => ?_, hlock⟩
  · exact hl'.of_dinodeAt (hw.dinode j hl'.lt (by rwa [hl.inum]))
  · rw [← h.refs, hcore]
    rfl
  · cases hc
    exact ⟨h.pos i c hcore, fun _ => hlock⟩

lemma Held.iput (h : Held sb (bump r i) s) (ha : Anchored sb R r s.fs) (hR : R i)
    (hp : Dirs.iput sb s i = some s') : Held sb r s' ∧ Still s s' := by
  unfold Dirs.iput at hp
  split at hp
  · cases hp
  rename_i c hcore
  have hri : c.ref = r i + 1 := by
    have hr := h.refs i
    rw [hcore, bump_self] at hr
    exact hr
  have hnot : ¬(c.ref = 1 ∧ c.valid = true ∧ c.ip.nlink = 0) := by
    rintro ⟨hone, hv, hn⟩
    have hl := h.locked i c hcore hv
    have hpos := ha i hl.lt hR (hl.view_type.trans_ne hl.type) (hl.view_nlink.trans hn)
    omega
  simp only [if_neg hnot] at hp
  cases hp
  refine ⟨h.set rfl (fun _ _ _ hl => hl) ?_ (fun j hj => (bump_of_ne hj).symm) fun c' hc => ?_,
    rfl, rfl⟩
  · by_cases hone : c.ref = 1
    · rw [if_pos hone]
      change r i = 0
      omega
    · rw [if_neg hone]
      change r i = c.ref - 1
      omega
  · by_cases hone : c.ref = 1
    · rw [if_pos hone] at hc
      cases hc
    rw [if_neg hone] at hc
    cases hc
    refine ⟨by dsimp only; omega, fun hv => ?_⟩
    have hl := h.locked i c hcore hv
    exact ⟨hv, hl.inum, hl.lt, hl.coh, hl.type⟩

/-! ## Directories -/

lemma readDirent_spec {dp' : Inode} {de : Dirent} {off : ℕ} (h : Wf sb fs dp)
    (hoff : off < dp.size) (hr : readDirent sb fs dp off = some (de, dp', fs')) :
    dp' = dp ∧ fs' = fs ∧ de.inum = direntInum fs dp off ∧ off + 16 ≤ dp.size := by
  have hmax : dp.size ≤ 274432 := h.size_le
  have hofft : (UInt32.ofNat off).toNat = off := by
    rw [UInt32.toNat_ofNat', Nat.mod_eq_of_lt (by omega)]
  have hsum : (UInt32.ofNat off + 16).toNat = off + 16 := by
    rw [toNat_add_of_not_lt (by rw [hofft]; change ¬2 ^ 32 ≤ off + 16; omega), hofft]
    rfl
  unfold readDirent at hr
  have hin : ¬(dp.size < (UInt32.ofNat off).toNat ∨ UInt32.ofNat off + 16 < UInt32.ofNat off) := by
    rw [hofft, add_lt_iff, hofft]
    change ¬(dp.size < off ∨ 2 ^ 32 ≤ off + 16)
    omega
  rw [readi, if_neg hin, hofft, hsum] at hr
  obtain ⟨n, hn⟩ : ∃ n, n = if dp.size < off + 16 then dp.size - off else (16 : UInt32).toNat :=
    ⟨_, rfl⟩
  have hn' : n = if dp.size < off + 16 then dp.size - off else 16 := hn
  obtain ⟨mem', hloop, hst⟩ := readLoop_spec false (n := n) h n stack 0 off 0 (Nat.zero_le _)
    (by omega) (by split at hn' <;> omega) fun _ _ hx => absurd hx Bool.false_ne_true
  simp only [← hn, hloop] at hr
  by_cases h16 : (n : ℤ) = 16
  swap
  · rw [if_neg h16] at hr
    cases hr
  rw [if_pos h16] at hr
  have hn16 : n = 16 := by omega
  cases hr
  have h0 := hst.new 0 (by omega)
  have h1 := hst.new 1 (by omega)
  have h0 : mem'.kernel 0 = byteAt fs' dp off := Option.some_inj.mp h0
  have h1 : mem'.kernel 1 = byteAt fs' dp (off + 1) := Option.some_inj.mp h1
  refine ⟨rfl, rfl, ?_, by split at hn' <;> omega⟩
  dsimp only
  rw [h0, h1, direntInum]

lemma dirlookupLoop_spec (h : Wf sb fs dp) (name : List UInt8) (fuel : ℕ) :
    ∀ (off : ℕ) {res : Option (ℕ × ℕ)} {dp' : Inode} {fs' : Fs}, off % 16 = 0 →
      dirlookupLoop sb name fuel fs dp off = some (res, dp', fs') → dp' = dp ∧ fs' = fs ∧
        ∀ i o, res = some (i, o) → i = direntInum fs dp o ∧ o + 16 ≤ dp.size ∧ o % 16 = 0 := by
  induction fuel with
  | zero =>
    intro off res dp' fs' _ hl
    cases hl
    exact ⟨rfl, rfl, fun _ _ hx => (nomatch hx)⟩
  | succ fuel ih =>
    intro off res dp' fs' hmod hl
    rw [dirlookupLoop] at hl
    by_cases hoff : off < dp.size
    swap
    · rw [if_neg hoff] at hl
      cases hl
      exact ⟨rfl, rfl, fun _ _ hx => (nomatch hx)⟩
    rw [if_pos hoff] at hl
    split at hl
    · cases hl
    rename_i de dp1 fs1 hread
    obtain ⟨rfl, rfl, hinum, hsize⟩ := readDirent_spec h hoff hread
    by_cases hz : de.inum = 0
    · rw [if_pos hz] at hl
      exact ih (off + 16) (by omega) hl
    rw [if_neg hz] at hl
    by_cases hname : namecmp name de.name = 0
    · rw [if_pos hname] at hl
      cases hl
      refine ⟨rfl, rfl, fun i o hx => ?_⟩
      cases hx
      exact ⟨hinum, hsize, hmod⟩
    · rw [if_neg hname] at hl
      exact ih (off + 16) (by omega) hl

lemma dirlinkLoop_spec (h : Wf sb fs dp) (fuel : ℕ) :
    ∀ (off : ℕ) {off' : ℕ} {dp' : Inode} {fs' : Fs}, off % 16 = 0 → off ≤ dp.size →
      dirlinkLoop sb fuel fs dp off = some (off', dp', fs') → dp' = dp ∧ fs' = fs ∧
        off' % 16 = 0 ∧ off' ≤ dp.size := by
  induction fuel with
  | zero =>
    intro off off' dp' fs' hmod hle hl
    cases hl
    exact ⟨rfl, rfl, hmod, hle⟩
  | succ fuel ih =>
    intro off off' dp' fs' hmod hle hl
    rw [dirlinkLoop] at hl
    by_cases hoff : off < dp.size
    swap
    · rw [if_neg hoff] at hl
      cases hl
      exact ⟨rfl, rfl, hmod, hle⟩
    rw [if_pos hoff] at hl
    split at hl
    · cases hl
    rename_i de dp1 fs1 hread
    obtain ⟨rfl, rfl, -, hsize⟩ := readDirent_spec h hoff hread
    by_cases hz : de.inum = 0
    · rw [if_pos hz] at hl
      cases hl
      exact ⟨rfl, rfl, hmod, hle⟩
    · rw [if_neg hz] at hl
      exact ih (off + 16) (by omega) hsize hl

lemma isdiremptyLoop_spec (h : Wf sb fs dp) (fuel : ℕ) :
    ∀ (off : ℕ) {res : Bool} {dp' : Inode} {fs' : Fs},
      isdiremptyLoop sb fuel fs dp off = some (res, dp', fs') → dp' = dp ∧ fs' = fs := by
  induction fuel with
  | zero =>
    intro off res dp' fs' hl
    cases hl
    exact ⟨rfl, rfl⟩
  | succ fuel ih =>
    intro off res dp' fs' hl
    rw [isdiremptyLoop] at hl
    by_cases hoff : off < dp.size
    swap
    · rw [if_neg hoff] at hl
      cases hl
      exact ⟨rfl, rfl⟩
    rw [if_pos hoff] at hl
    split at hl
    · cases hl
    rename_i de dp1 fs1 hread
    obtain ⟨rfl, rfl, -, -⟩ := readDirent_spec h hoff hread
    by_cases hz : de.inum = 0
    · rw [if_pos hz] at hl
      exact ih (off + 16) hl
    · rw [if_neg hz] at hl
      cases hl
      exact ⟨rfl, rfl⟩

lemma put_self (hcore : s.core i = some c) : s.put i c c.ip s.fs = s := by
  unfold Sys.put
  rw [← hcore, update_eq_self]

lemma dirlookup_spec {res : Option (ℕ × ℕ)} (hcore : s.core i = some c) (h : Wf sb s.fs c.ip)
    (hl : dirlookup sb s i c name = some (res, s')) : c.ip.type = T_DIR ∧ ((res = none ∧ s' = s) ∨
      ∃ o, ∃ j, res = some (j, o) ∧ s' = s.iget j ∧ j = direntInum s.fs c.ip o ∧
        o + 16 ≤ c.ip.size ∧ o % 16 = 0) := by
  unfold dirlookup at hl
  by_cases htype : c.ip.type = T_DIR
  swap
  · rw [if_neg htype] at hl
    cases hl
  rw [if_pos htype] at hl
  refine ⟨htype, ?_⟩
  rcases hloop : dirlookupLoop sb name (c.ip.size + 1) s.fs c.ip 0 with _ | ⟨found, dp, fs'⟩
  · rw [hloop] at hl
    cases hl
  obtain ⟨rfl, rfl, hfound⟩ := dirlookupLoop_spec h name _ 0 rfl hloop
  rw [hloop] at hl
  cases found with
  | none =>
    dsimp only at hl
    rw [put_self hcore] at hl
    cases hl
    exact .inl ⟨rfl, rfl⟩
  | some p =>
    obtain ⟨j, o⟩ := p
    dsimp only at hl
    rw [put_self hcore] at hl
    cases hl
    obtain ⟨h1, h2, h3⟩ := hfound j o rfl
    exact .inr ⟨o, j, rfl, rfl, h1, h2, h3⟩

lemma Locked.direntInum_lt (h : Locked sb fs i c) (ht : Tree sb fs) (hcl : Closed sb R fs)
    (hR : R i) (htype : c.ip.type = T_DIR) {o : ℕ} (ho : o + 16 ≤ c.ip.size) (hmod : o % 16 = 0) :
    direntInum fs c.ip o < sb.ninodes ∧ R (direntInum fs c.ip o) := by
  have htype' := h.view_type.trans htype
  have hsize := h.coh.size
  have hbyte := byteAt_of_coh h.coh
  rw [h.inum] at hsize hbyte
  rw [← hsize] at ho
  have heq : direntInum fs c.ip o = direntInum fs (view sb fs i) o := by
    unfold direntInum
    rw [hbyte, hbyte]
  rw [heq]
  exact ⟨ht.entries i h.lt htype' o hmod ho, hcl i h.lt hR htype' o hmod ho⟩

/-! ## Paths -/

lemma Anchored.bump (h : Anchored sb R r fs) (i : ℕ) : Anchored sb R (bump r i) fs := by
  intro j hj hR ht hn
  have := h j hj hR ht hn
  unfold Dirs.bump
  omega

lemma namexLoop_spec (ht : Tree sb fs) (hcl : Closed sb R fs) (ha : Anchored sb R r fs)
    (parent : Bool) (fuel : ℕ) :
    ∀ (s : Sys) (i : ℕ) (path name : List UInt8) {res : Option ℕ} {name' : List UInt8} {s' : Sys},
      s.fs = fs → Held sb (bump r i) s → i < sb.ninodes → R i →
      namexLoop sb parent fuel s i path name = some (res, name', s') →
      Still s s' ∧ ((res = none ∧ Held sb r s') ∨
        ∃ d, res = some d ∧ d < sb.ninodes ∧ R d ∧ Held sb (bump r d) s' ∧
          (parent = true → (view sb fs d).type = T_DIR)) := by
  induction fuel with
  | zero =>
    intro s i path name res name' s' _ _ _ _ hl
    cases hl
  | succ fuel ih =>
    intro s i path name res name' s' hfs hheld hi hRi hl
    have hput : ∀ {g g' : Sys}, g.fs = fs → Held sb (bump r i) g → iput sb g i = some g' →
        Held sb r g' ∧ Still g g' := fun hg hh => hh.iput (by rwa [hg]) hRi
    rw [namexLoop] at hl
    cases hskip : skipelem path name with
    | none =>
      rw [hskip] at hl
      dsimp only at hl
      by_cases hpar : parent = true
      · rw [if_pos hpar] at hl
        obtain ⟨g, hp, heq⟩ := Option.map_eq_some_iff.mp hl
        cases heq
        obtain ⟨h1, h2⟩ := hput hfs hheld hp
        exact ⟨h2, .inl ⟨rfl, h1⟩⟩
      · rw [if_neg hpar] at hl
        cases hl
        exact ⟨⟨rfl, rfl⟩, .inr ⟨i, rfl, hi, hRi, hheld, fun h => absurd h hpar⟩⟩
    | some out =>
      obtain ⟨path1, name1⟩ := out
      rw [hskip] at hl
      dsimp only at hl
      rcases hlock : ilock sb s i with _ | ⟨c, s1⟩
      · rw [hlock] at hl
        cases hl
      obtain ⟨hheld1, hstill1, hcore1, hlk⟩ := hheld.ilock hi hlock
      have hfs1 : s1.fs = fs := hstill1.1.trans hfs
      rw [hfs1] at hlk
      rw [hlock] at hl
      dsimp only at hl
      by_cases htype : c.ip.type ≠ T_DIR
      · rw [if_pos htype] at hl
        obtain ⟨g, hp, heq⟩ := Option.map_eq_some_iff.mp hl
        cases heq
        obtain ⟨h1, h2⟩ := hput hfs1 hheld1 hp
        exact ⟨hstill1.trans h2, .inl ⟨rfl, h1⟩⟩
      rw [if_neg htype] at hl
      rw [not_not] at htype
      by_cases hlast : parent = true ∧ path1 = []
      · rw [if_pos hlast] at hl
        cases hl
        exact ⟨hstill1, .inr ⟨i, rfl, hi, hRi, hheld1, fun _ => hlk.view_type.trans htype⟩⟩
      rw [if_neg hlast] at hl
      rcases hlook : dirlookup sb s1 i c name1 with _ | ⟨found, s2⟩
      · rw [hlook] at hl
        cases hl
      obtain ⟨-, hcase⟩ := dirlookup_spec hcore1 (by rw [hfs1]; exact hlk.wf ht.toDisk) hlook
      rw [hlook] at hl
      rcases hcase with ⟨rfl, rfl⟩ | ⟨o, j, rfl, rfl, hj, ho, hmod⟩
      · dsimp only at hl
        obtain ⟨g, hp, heq⟩ := Option.map_eq_some_iff.mp hl
        cases heq
        obtain ⟨h1, h2⟩ := hput hfs1 hheld1 hp
        exact ⟨hstill1.trans h2, .inl ⟨rfl, h1⟩⟩
      dsimp only at hl
      obtain ⟨hheld2, hstill2⟩ := hheld1.iget j
      rw [bump_comm] at hheld2
      obtain ⟨hjlt, hRj⟩ : j < sb.ninodes ∧ R j := by
        rw [hj, hfs1]
        exact hlk.direntInum_lt ht hcl hRi htype ho hmod
      rcases hp : iput sb (s1.iget j) i with _ | s3
      · rw [hp] at hl
        cases hl
      rw [hp] at hl
      obtain ⟨hheld3, hstill3⟩ := hheld2.iput
        (by rw [hstill2.1, hfs1]; exact ha.bump j) hRi hp
      have hstill := (hstill1.trans hstill2).trans hstill3
      obtain ⟨hrest, hres⟩ := ih s3 j path1 name1 (hstill.1.trans hfs) hheld3 hjlt hRj hl
      exact ⟨hstill.trans hrest, hres⟩

/-- `namex` keeps one reference, to the inode it returns, and changes nothing on the disk. -/
lemma namex_spec {path name' : List UInt8} {parent : Bool} {res : Option ℕ} (ht : Tree sb s.fs)
    (hcl : Closed sb R s.fs) (ha : Anchored sb R r s.fs) (hroot : ROOTINO < sb.ninodes ∧ R ROOTINO)
    (hcwd : s.cwd < sb.ninodes ∧ R s.cwd) (h : Held sb r s)
    (hl : namex sb s path parent name = some (res, name', s')) :
    Still s s' ∧ ((res = none ∧ Held sb r s') ∨
      ∃ d, res = some d ∧ d < sb.ninodes ∧ R d ∧ Held sb (bump r d) s' ∧
        (parent = true → (view sb s.fs d).type = T_DIR)) := by
  unfold namex at hl
  dsimp only at hl
  obtain ⟨i, hi⟩ : ∃ i, i = if path.head? = some slash then ROOTINO else s.cwd := ⟨_, rfl⟩
  rw [← hi] at hl
  have hlt : i < sb.ninodes ∧ R i := by
    rw [hi]
    split
    · exact hroot
    · exact hcwd
  obtain ⟨hheld, hstill⟩ := h.iget i
  obtain ⟨h1, h2⟩ := namexLoop_spec ht hcl ha parent _ _ i path name hstill.1 hheld hlt.1
    hlt.2 hl
  exact ⟨hstill.trans h1, h2⟩

/-! ## `dirlink` -/

lemma iput_iget (h : ∀ c, s.core j = some c → 0 < c.ref) : iput sb (s.iget j) j = some s := by
  unfold iput Sys.iget
  cases hcore : s.core j with
  | none =>
    have hj : (s.set j (some ⟨1, false, ofDinode j (Bytes.zero 64)⟩)).core j =
      some ⟨1, false, ofDinode j (Bytes.zero 64)⟩ := update_self _ _ _
    dsimp only
    rw [hj]
    dsimp only
    rw [if_neg (fun hx => (nomatch hx.2.1)), if_pos rfl]
    unfold Sys.set
    simp only [update_idem]
    rw [← hcore, update_eq_self]
  | some c =>
    have hpos := h c hcore
    have hj : (s.set j (some { c with ref := c.ref + 1 })).core j =
      some { c with ref := c.ref + 1 } := update_self _ _ _
    dsimp only
    rw [hj]
    dsimp only
    rw [if_neg (fun hx => by have := hx.1; omega), if_neg (by omega)]
    unfold Sys.set
    simp only [update_idem, Nat.add_sub_cancel]
    rw [← hcore, update_eq_self]

lemma dirlink_spec {inum : ℕ} {ok : Bool} {c' : Core} (h : Held sb r s)
    (hcore : s.core i = some c) (hl : Locked sb s.fs i c) (hwf : Wf sb s.fs c.ip)
    (hd : dirlink sb s i c name inum = some (ok, c', s')) :
    Held sb r s' ∧ s'.cwd = s.cwd ∧ s'.core i = some c' ∧ (∀ j ≠ i, s'.core j = s.core j) ∧
      Locked sb s'.fs i c' ∧ Works sb s.fs c.ip s'.fs c'.ip ∧ Wf sb s'.fs c'.ip ∧
      c'.ref = c.ref ∧ (ok = false → Kept sb s.fs c.ip s'.fs c'.ip) := by
  have hsame : Held sb r s ∧ s.cwd = s.cwd ∧ s.core i = some c ∧ (∀ j ≠ i, s.core j = s.core j) ∧
      Locked sb s.fs i c ∧ Works sb s.fs c.ip s.fs c.ip ∧ Wf sb s.fs c.ip ∧ c.ref = c.ref ∧
      (false = false → Kept sb s.fs c.ip s.fs c.ip) :=
    ⟨h, rfl, hcore, fun _ _ => rfl, hl, .refl hwf.slots hl.coh, hwf, rfl,
      fun _ => ⟨rfl, rfl, rfl, fun _ _ _ => rfl, fun _ _ => rfl⟩⟩
  unfold dirlink at hd
  rcases hlook : dirlookup sb s i c name with _ | ⟨found, s1⟩
  · rw [hlook] at hd
    cases hd
  obtain ⟨htype, hcase⟩ := dirlookup_spec hcore hwf hlook
  rw [hlook] at hd
  rcases hcase with ⟨rfl, rfl⟩ | ⟨o, j, rfl, rfl, -⟩
  · dsimp only at hd
    rcases hloop : dirlinkLoop sb (c.ip.size + 1) s1.fs c.ip 0 with _ | ⟨off, dp, fs'⟩
    · rw [hloop] at hd
      cases hd
    obtain ⟨rfl, rfl, hmod, hle⟩ := dirlinkLoop_spec hwf _ 0 rfl (Nat.zero_le _) hloop
    rw [hloop] at hd
    dsimp only at hd
    rcases hw : writeDirent sb s1.fs c.ip off ⟨inum, strncpy name⟩ with _ | ⟨n, dp', fs'⟩
    · rw [hw] at hd
      cases hd
    rw [hw] at hd
    cases hd
    obtain ⟨hworks, hwf', ht, -, hkept⟩ := writeDirent_spec hwf hl.coh hmod hle hw
    obtain ⟨hheld, hlock⟩ := h.put hcore hl hworks (by rw [ht]; exact hl.type)
    exact ⟨hheld, rfl, update_self _ _ _, fun j hj => update_of_ne hj _ _,
      hlock, hworks, hwf', rfl, fun hn => hkept (of_decide_eq_false hn)⟩
  · dsimp only at hd
    rw [iput_iget (h.pos j)] at hd
    cases hd
    exact hsame

end

end Dirs

end Xv6
