import Xv6Kernel.Content.Write

/-!
# `readi` and `writei` as operations on an array of bytes

A file is an array of bytes whose blocks are allocated up to its size.
-/

namespace Xv6

open Function

variable {off n : UInt32} {lo hi i j : ℕ}
variable {user : Bool} {jp' : Inode} {l : List ℕ} {mem : Memory} {f : ℕ → UInt8}

namespace Content

open Mkfs (IPB BPB Dinode)

/-! ## Well-formed files -/

structure Wf (sb : Superblock) (fs : Fs) (ip : Inode) : Prop where
  reserved : Reserved sb fs
  slots : Slots sb fs ip
  inum : ip.inum < sb.ninodes
  blocks : ∀ bn, bn * BSIZE < ip.size → bn < MAXFILE ∧ lookup fs ip bn ≠ 0

/-- Another inode: its blocks are marked, and no block of `ip`. -/
structure Other (sb : Superblock) (fs : Fs) (ip jp : Inode) : Prop where
  inum : jp.inum ≠ ip.inum
  slots : Slots sb fs jp
  apart : ∀ s < nslots, ∀ t < nslots, slot fs jp s ≠ 0 → slot fs jp s ≠ slot fs ip t

section

variable {sb : Superblock} {fs fs' : Fs} {ip ip' jp : Inode}

lemma Wf.size_le (h : Wf sb fs ip) : ip.size ≤ MAXFILE * BSIZE := by
  by_contra hlt
  exact absurd (h.blocks MAXFILE (by omega)).1 (lt_irrefl _)

lemma Wf.lookup_ne (h : Wf sb fs ip) (hi : i < ip.size) : lookup fs ip (i / BSIZE) ≠ 0 :=
  (h.blocks _ ((Nat.div_mul_le_self i BSIZE).trans_lt hi)).2

lemma Wf.bmap_eq (h : Wf sb fs ip) {bn : ℕ} (hbn : bn * BSIZE < ip.size) :
    bmap sb fs ip bn = some (lookup fs ip bn, ip, fs) := by
  obtain ⟨hlt, hne⟩ := h.blocks bn hbn
  have hlt : bn < 268 := hlt
  unfold bmap
  by_cases hd : bn < NDIRECT
  · have heq : lookup fs ip bn = ip.addrs bn := by
      rw [lookup, slotOf, if_pos hd, slot, if_pos (by omega)]
    rw [heq] at hne
    rw [if_pos hd, heq, bmapAddr, if_neg hne]
  have hd' : ¬bn < 12 := hd
  have hk : bn - NDIRECT < NINDIRECT := by
    change bn - 12 < 256
    omega
  have hind : ip.addrs NDIRECT ≠ 0 := by
    intro hzero
    refine hne ?_
    rw [lookup, slotOf, if_neg hd, slot, if_neg (by omega), if_pos hzero]
  have heq : lookup fs ip bn = (fs.data (ip.addrs NDIRECT)).getLE 4 (4 * (bn - NDIRECT)) := by
    rw [lookup, slotOf, if_neg hd, slot, if_neg (by omega), if_neg hind]
    congr 2
  rw [heq] at hne
  rw [if_neg hd, if_pos hk, heq, bmapAddr, if_neg hind]
  simp only [if_neg hind, bmapEntry, if_neg hne]

lemma Other.not_touched (h : Other sb fs ip jp) {s : ℕ} (hhi : hi ≤ MAXFILE * BSIZE)
    (hlt : s < nslots) (hne : slot fs jp s ≠ 0) : ¬Touched sb fs ip lo hi (slot fs jp s) := by
  have hle := h.slots.le s hlt hne
  have hused := h.slots.used s hlt hne
  rintro (⟨-, hx⟩ | ⟨-, hfree⟩ | ⟨-, hx⟩ | ⟨i, -, hi', -, hx⟩)
  · omega
  · rw [hfree] at hused
    cases hused
  · exact h.apart s hlt NDIRECT (by decide) hne hx
  · exact h.apart s hlt _ (slotOf_lt (div_lt_MAXFILE (by omega))) hne hx

lemma slot_eq_of_data (h : slot fs jp NDIRECT ≠ 0 →
    fs'.data (slot fs jp NDIRECT) = fs.data (slot fs jp NDIRECT)) (s : ℕ) :
    slot fs' jp s = slot fs jp s := by
  have hslot : slot fs jp NDIRECT = jp.addrs NDIRECT := if_pos le_rfl
  rw [hslot] at h
  exact slot_congr rfl h s

/-! ## Copies to memory -/

def Memory.Writes (mem : Memory) (user : Bool) (a : ℕ) : Prop :=
  user = true → (mem.page (a / PGSIZE)).isSome ∧ mem.writable (a / PGSIZE) = true

structure Stored (mem : Memory) (user : Bool) (dst len : ℕ) (g : ℕ → UInt8) (mem' : Memory) :
    Prop where
  new : ∀ k < len, mem'.byte user (dst + k) = some (g k)
  old : ∀ v a, (v = user → ¬(dst ≤ a ∧ a < dst + len)) → mem'.byte v a = mem.byte v a
  writes : ∀ v a, mem'.Writes v a ↔ mem.Writes v a

lemma Stored.nil (mem : Memory) (user : Bool) (dst : ℕ) (g : ℕ → UInt8) :
    Stored mem user dst 0 g mem :=
  ⟨fun k hk => absurd hk (by omega), fun _ _ _ => rfl, fun _ _ => Iff.rfl⟩

lemma Stored.trans {mem' mem'' : Memory} {dst len len' : ℕ} {g : ℕ → UInt8}
    (h : Stored mem user dst len g mem')
    (h' : Stored mem' user (dst + len) len' (fun k => g (len + k)) mem'') :
    Stored mem user dst (len + len') g mem'' where
  new k hk := by
    by_cases hlt : k < len
    · rw [h'.old user (dst + k) fun _ => by omega]
      exact h.new k hlt
    · have hk' := h'.new (k - len) (by omega)
      rwa [Nat.add_assoc, Nat.add_sub_cancel' (by omega)] at hk'
  old v a hout := by
    rw [h'.old v a fun hv => by have := hout hv; omega,
      h.old v a fun hv => by have := hout hv; omega]
  writes v a := (h'.writes v a).trans (h.writes v a)

lemma Stored.page {mem : Memory} {a n : ℕ} {p : ℕ → UInt8} (hp : mem.page (a / PGSIZE) = some p)
    (hn : a % PGSIZE + n ≤ PGSIZE) (g : ℕ → UInt8) :
    Stored mem true a n g (mem.setPage (a / PGSIZE) p (a % PGSIZE) n g) where
  new k hk := by
    have hset : (mem.setPage (a / PGSIZE) p (a % PGSIZE) n g).page (a / PGSIZE) =
        some fun x => if a % PGSIZE ≤ x ∧ x < a % PGSIZE + n then g (x - a % PGSIZE) else p x :=
      update_self _ _ _
    rw [Memory.byte_page hset (by omega), if_pos (by omega), Nat.add_sub_cancel_left]
  old v b hout := by
    rcases v with _ | _
    · rfl
    have hout := hout rfl
    rw [Memory.byte, Memory.byte, if_pos rfl, if_pos rfl]
    by_cases hpage : b / PGSIZE = a / PGSIZE
    · have hpage' : b / 4096 = a / 4096 := hpage
      rw [hpage, hp]
      change (update mem.page (a / PGSIZE) _ (a / PGSIZE)).map _ = _
      rw [update_self]
      refine congrArg some (if_neg ?_)
      change ¬(a % 4096 ≤ b % 4096 ∧ b % 4096 < a % 4096 + n)
      omega
    · change (update mem.page (a / PGSIZE) _ (b / PGSIZE)).map _ = _
      rw [update_of_ne hpage]
  writes v b := by
    unfold Memory.Writes
    by_cases hpage : b / PGSIZE = a / PGSIZE
    · change (v = true → (update mem.page (a / PGSIZE) _ (b / PGSIZE)).isSome ∧ _) ↔ _
      rw [hpage, update_self, hp]
      rfl
    · change (v = true → (update mem.page (a / PGSIZE) _ (b / PGSIZE)).isSome ∧ _) ↔ _
      rw [update_of_ne hpage]
      rfl

lemma copyout_spec {src : Block} (fuel : ℕ) : ∀ (mem : Memory) (dstva o len : ℕ), len ≤ fuel →
    (∀ k < len, mem.Writes true (dstva + k)) → (copyout mem fuel dstva src o len).2 = true ∧
      Stored mem true dstva len (fun k => src.get (o + k)) (copyout mem fuel dstva src o len).1 := by
  induction fuel with
  | zero =>
    intro mem dstva o len hlen _
    obtain rfl : len = 0 := by omega
    exact ⟨rfl, .nil _ _ _ _⟩
  | succ fuel ih =>
    intro mem dstva o len hlen hok
    by_cases hzero : 0 < len
    swap
    · obtain rfl : len = 0 := by omega
      exact ⟨rfl, .nil _ _ _ _⟩
    obtain ⟨hpage, hw⟩ := hok 0 hzero rfl
    rw [Nat.add_zero] at hpage hw
    obtain ⟨p, hp⟩ := Option.isSome_iff_exists.mp hpage
    rw [copyout, if_pos hzero, hp, hw]
    obtain ⟨n, hn⟩ : ∃ n, n = min (PGSIZE - dstva % PGSIZE) len := ⟨_, rfl⟩
    have hn' : n = min (4096 - dstva % 4096) len := hn
    simp only [← hn]
    have hfirst := Stored.page hp (show dstva % PGSIZE + n ≤ PGSIZE by
      omega) fun i => src.get (o + i)
    obtain ⟨hres, hrest⟩ := ih _ (dstva + n) (o + n) (len - n) (by omega) (fun k hk => by
      rw [hfirst.writes, Nat.add_assoc]
      exact hok (n + k) (by omega))
    refine ⟨hres, ?_⟩
    simp only [Nat.add_assoc o] at hrest
    have h := hfirst.trans hrest
    rwa [Nat.add_sub_cancel' (by omega)] at h

lemma eitherCopyout_spec {mem : Memory} {user : Bool} {dst len : ℕ} (src : Block) (o : ℕ)
    (hok : ∀ k < len, mem.Writes user (dst + k)) : (eitherCopyout mem user dst src o len).2 = true ∧
      Stored mem user dst len (fun k => src.get (o + k)) (eitherCopyout mem user dst src o len).1 := by
  cases user with
  | true => exact copyout_spec len mem dst o len le_rfl hok
  | false =>
    have heq : eitherCopyout mem false dst src o len =
        ({ mem with
          kernel := fun a => if dst ≤ a ∧ a < dst + len then src.get (o + (a - dst))
            else mem.kernel a }, true) := rfl
    rw [heq]
    refine ⟨rfl, fun k hk => ?_, fun v a hout => ?_, fun _ _ => Iff.rfl⟩
    · refine congrArg some ((if_pos ⟨by omega, by omega⟩).trans ?_)
      rw [Nat.add_sub_cancel_left]
    · cases v with
      | true => rfl
      | false => exact congrArg some (if_neg (hout rfl))

/-! ## `readi` -/

/-- `readi` copies bytes of the file, and changes neither inode nor blocks. -/
lemma readLoop_spec (user : Bool) {n : ℕ} (h : Wf sb fs ip) (fuel : ℕ) :
    ∀ (mem : Memory) (dst off tot : ℕ), tot ≤ n → n - tot ≤ fuel → off + (n - tot) ≤ ip.size →
      (∀ k < n - tot, mem.Writes user (dst + k)) →
      ∃ mem', readLoop sb user n fuel fs ip mem dst off tot = some ((n : ℤ), mem', ip, fs) ∧
        Stored mem user dst (n - tot) (fun k => byteAt fs ip (off + k)) mem' := by
  induction fuel with
  | zero =>
    intro mem dst off tot htot hfuel _ _
    obtain rfl : tot = n := by omega
    refine ⟨mem, rfl, ?_⟩
    rw [Nat.sub_self]
    exact .nil _ _ _ _
  | succ fuel ih =>
    intro mem dst off tot htot hfuel hsize hok
    rw [readLoop]
    by_cases hlt : tot < n
    swap
    · obtain rfl : tot = n := by omega
      rw [if_neg hlt, Nat.sub_self]
      exact ⟨mem, rfl, .nil _ _ _ _⟩
    have hoff : off < ip.size := by omega
    rw [if_pos hlt, h.bmap_eq ((Nat.div_mul_le_self off BSIZE).trans_lt hoff)]
    simp only [if_neg (h.lookup_ne hoff)]
    obtain ⟨m, hm⟩ : ∃ m, m = min (n - tot) (BSIZE - off % BSIZE) := ⟨_, rfl⟩
    have hm' : m = min (n - tot) (1024 - off % 1024) := hm
    rw [← hm]
    obtain ⟨hres, hst⟩ := eitherCopyout_spec (fs.data (lookup fs ip (off / BSIZE))) (off % BSIZE)
      (show ∀ k < m, mem.Writes user (dst + k) from fun k hk => hok k (by omega))
    rw [if_pos hres]
    have hst' : Stored mem user dst m (fun k => byteAt fs ip (off + k))
        (eitherCopyout mem user dst (fs.data (lookup fs ip (off / BSIZE))) (off % BSIZE) m).1 := by
      refine ⟨fun k hk => ?_, hst.old, hst.writes⟩
      obtain ⟨hd, hr⟩ := chunk_div off (k := k) (by omega)
      rw [hst.new k hk, byteAt, hd, hr]
    obtain ⟨mem', hloop, hrest⟩ := ih _ (dst + m) (off + m) (tot + m) (by omega) (by omega)
      (by omega) (fun k hk => by
        rw [hst.writes, Nat.add_assoc]
        exact hok (m + k) (by omega))
    refine ⟨mem', hloop, ?_⟩
    simp only [Nat.add_assoc off] at hrest
    have h := hst'.trans hrest
    rwa [show m + (n - (tot + m)) = n - tot by omega] at h

/-! ## The inode block -/

lemma data_iupdate {b : ℕ} (hi : ip.inum < sb.ninodes) (hb : sb.bmapstart ≤ b) :
    (iupdate sb fs ip).data b = fs.data b := by
  have hlt := sb.iblock_lt hi
  exact update_of_ne (by omega) _ _

lemma isFree_iupdate (hi : ip.inum < sb.ninodes) (b : ℕ) :
    isFree sb (iupdate sb fs ip) b = isFree sb fs b :=
  isFree_congr (data_iupdate hi (sb.bmapstart_le_bblock b))

lemma slot_iupdate (hi : ip.inum < sb.ninodes) (hs : Slots sb fs jp)
    (haddrs : jp'.addrs = jp.addrs) (s : ℕ) : slot (iupdate sb fs ip) jp' s = slot fs jp s := by
  refine slot_congr haddrs (fun hind => data_iupdate hi ?_) s
  have hslot : slot fs jp NDIRECT = jp.addrs NDIRECT := if_pos le_rfl
  have hle := hs.le NDIRECT (by decide) (by rwa [hslot])
  rw [hslot] at hle
  exact sb.bmapstart_lt_datastart.le.trans hle

lemma byteAt_iupdate (hi : ip.inum < sb.ninodes) (hs : Slots sb fs jp)
    (haddrs : jp'.addrs = jp.addrs) (hb : i < MAXFILE * BSIZE)
    (hne : lookup fs jp (i / BSIZE) ≠ 0) : byteAt (iupdate sb fs ip) jp' i = byteAt fs jp i := by
  unfold byteAt
  rw [show lookup (iupdate sb fs ip) jp' (i / BSIZE) = lookup fs jp (i / BSIZE) from
    slot_iupdate hi hs haddrs _]
  have hle : sb.datastart ≤ lookup fs jp (i / BSIZE) :=
    hs.le _ (slotOf_lt (div_lt_MAXFILE hb)) hne
  rw [data_iupdate hi (sb.bmapstart_lt_datastart.le.trans hle)]

lemma dinodeAt_paste_self (i : ℕ) (din : Dinode) : dinodeAt sb (logWrite (fs.put (sb.iblock i)
      ((fs.data (sb.iblock i)).paste (i % IPB * 64) din)) (sb.iblock i)) i = din := by
  unfold dinodeAt
  rw [data_logWrite_put]
  refine Bytes.slice_paste_self _ _ ?_
  change i % 16 * 64 + 64 ≤ 1024
  omega

lemma dinodeAt_paste_of_ne (hj : j ≠ i) (din : Dinode) :
    dinodeAt sb (logWrite (fs.put (sb.iblock i)
      ((fs.data (sb.iblock i)).paste (i % IPB * 64) din)) (sb.iblock i)) j = dinodeAt sb fs j := by
  unfold dinodeAt
  by_cases hblock : sb.iblock j = sb.iblock i
  · have hmod : i % 16 < 16 := Nat.mod_lt _ (by decide)
    have hdiv : j / 16 = i / 16 := by
      change j / 16 + sb.inodestart = i / 16 + sb.inodestart at hblock
      omega
    rw [hblock, data_logWrite_put]
    refine Bytes.slice_paste_of_disjoint _ _ ?_ ?_
    · change i % 16 * 64 + 64 ≤ 1024
      omega
    · change j % 16 * 64 + 64 ≤ i % 16 * 64 ∨ i % 16 * 64 + 64 ≤ j % 16 * 64
      omega
  · exact congrArg (Bytes.slice 64 · (j % IPB * 64)) (update_of_ne hblock _ _)

lemma dinodeAt_iupdate_self : dinodeAt sb (iupdate sb fs ip) ip.inum = ip.dinode :=
  dinodeAt_paste_self _ _

lemma dinodeAt_iupdate_of_ne (hj : j ≠ ip.inum) :
    dinodeAt sb (iupdate sb fs ip) j = dinodeAt sb fs j :=
  dinodeAt_paste_of_ne hj _

lemma Wf.not_touched (h : Wf sb fs ip) (hj : j < sb.ninodes)
    (hhi : hi ≤ MAXFILE * BSIZE) : ¬Touched sb fs ip lo hi (sb.iblock j) := by
  have hlt := sb.iblock_lt hj
  have hmap := sb.bmapstart_lt_datastart
  rintro (⟨hx, -⟩ | ⟨-, hfree⟩ | ⟨hne, hx⟩ | ⟨i, -, hi', hne, hx⟩)
  · omega
  · rw [h.reserved _ (by omega)] at hfree
    cases hfree
  · have hle := h.slots.le NDIRECT (by decide) (by rwa [← hx])
    omega
  · have hb : i < MAXFILE * BSIZE := by omega
    have hle := h.slots.le _ (slotOf_lt (div_lt_MAXFILE hb)) (by
      rw [hx] at hne
      exact hne)
    have hx : sb.iblock j = slot fs ip (slotOf (i / BSIZE)) := hx
    omega

/-! ## `writei` -/

structure Apart (sb : Superblock) (fs : Fs) (ip : Inode) (fs' : Fs) : Prop where
  lookup : ∀ jp, Other sb fs ip jp → ∀ bn < MAXFILE, Content.lookup fs' jp bn =
    Content.lookup fs jp bn
  bytes : ∀ jp, Other sb fs ip jp → ∀ i < MAXFILE * BSIZE, Content.lookup fs jp (i / BSIZE) ≠ 0 →
    byteAt fs' jp i = byteAt fs jp i
  dinode : ∀ j < sb.ninodes, j ≠ ip.inum → dinodeAt sb fs' j = dinodeAt sb fs j

lemma Run.apart (hrun : Run sb f lo hi l fs ip fs' ip') (h : Wf sb fs ip)
    (hhi : hi ≤ MAXFILE * BSIZE) : Apart sb fs ip fs' := by
  have hslot : ∀ jp, Other sb fs ip jp → ∀ s, slot fs' jp s = slot fs jp s := fun jp hj =>
    slot_eq_of_data fun hne => hrun.logged.data _ fun hx =>
      hj.not_touched hhi (by decide) hne (hrun.touch _ hx)
  refine ⟨fun jp hj bn _ => hslot jp hj _, fun jp hj i hi hne => ?_, fun j hj _ => ?_⟩
  · unfold byteAt
    rw [show Content.lookup fs' jp (i / BSIZE) = Content.lookup fs jp (i / BSIZE) from
      hslot jp hj _]
    rw [hrun.logged.data]
    exact fun hx => hj.not_touched hhi (slotOf_lt (div_lt_MAXFILE hi)) hne (hrun.touch _ hx)
  · unfold dinodeAt
    rw [hrun.logged.data]
    exact fun hx => h.not_touched hj hhi (hrun.touch _ hx)

lemma Other.slots_run (hj : Other sb fs ip jp) (hrun : Run sb f lo hi l fs ip fs' ip')
    (hhi : hi ≤ MAXFILE * BSIZE) : Slots sb fs' jp := by
  have hslot : ∀ s, slot fs' jp s = slot fs jp s := slot_eq_of_data fun hne =>
    hrun.logged.data _ fun hx => hj.not_touched hhi (by decide) hne (hrun.touch _ hx)
  exact hj.slots.congr (fun s _ => hslot s) hrun.ext.used

lemma toNat_add_of_not_lt (h : ¬2 ^ 32 ≤ off.toNat + n.toNat) :
    (off + n).toNat = off.toNat + n.toNat := by
  rw [UInt32.toNat_add, Nat.mod_eq_of_lt (by omega)]

lemma add_lt_iff : off + n < off ↔ 2 ^ 32 ≤ off.toNat + n.toNat := by
  have h2 := n.toNat_lt
  rw [UInt32.lt_iff_toNat_lt, UInt32.toNat_add]
  omega

lemma accepts_iff :
    Accepts ip off n ↔ off.toNat ≤ ip.size ∧ off.toNat + n.toNat ≤ MAXFILE * BSIZE := by
  have hmax : MAXFILE * BSIZE = 274432 := rfl
  unfold Accepts
  rw [add_lt_iff, hmax]
  constructor
  · rintro ⟨h, h'⟩
    rw [toNat_add_of_not_lt (fun hx => h (.inr hx))] at h'
    omega
  · rintro ⟨h, h'⟩
    rw [toNat_add_of_not_lt (by omega)]
    omega

lemma writeEnd_spec (off : ℕ) {w : Written} (hw : w.ip.inum < sb.ninodes) :
    (writeEnd sb off w).2.1 = { w.ip with size := max w.ip.size (off + w.tot) } ∧
      (writeEnd sb off w).2.2 = iupdate sb w.fs (writeEnd sb off w).2.1 ∧
      (writeEnd sb off w).2.1.inum < sb.ninodes := by
  refine ⟨?_, rfl, ?_⟩
  · unfold writeEnd
    by_cases hlt : w.ip.size < off + w.tot
    · simp only [if_pos hlt, max_eq_right hlt.le]
    · simp only [if_neg hlt, max_eq_left (Nat.le_of_not_lt hlt)]
  · unfold writeEnd
    split <;> exact hw

/-- `writei` of an accepted range from memory that can be read. -/
lemma writei_spec (h : Wf sb fs ip) {src : ℕ} (hacc : Accepts ip off n)
    (hmem : ∀ k < n.toNat, (mem.byte user (src + k)).isSome) :
    ∃ (tot : ℕ) (ip' : Inode) (fs' : Fs), writei sb fs ip mem user src off n =
        some ((tot : ℤ), ip', fs') ∧ tot ≤ n.toNat ∧ (tot < n.toNat → Full sb fs') ∧
      ip' = { ip with size := max ip.size (off.toNat + tot), addrs := ip'.addrs } ∧
      Wf sb fs' ip' ∧
      (∀ i < ip'.size, byteAt fs' ip' i =
        if off.toNat ≤ i ∧ i < off.toNat + tot then mem.val user (src + (i - off.toNat))
        else byteAt fs ip i) ∧
      dinodeAt sb fs' ip.inum = ip'.dinode ∧ Apart sb fs ip fs' ∧ ∃ l, Logged fs l fs' := by
  obtain ⟨hoff, hbound⟩ := accepts_iff.mp hacc
  obtain ⟨w, fs1, l, d, hloop, hd, hn, hrun, hend, -, -⟩ :=
    writeLoop_spec mem user (n := n.toNat)
      (f := fun i => mem.val user (src + (i - off.toNat))) n.toNat fs ip src off.toNat 0 h.reserved
      h.slots (Nat.zero_le _) (by omega) (by omega) fun i _ => rfl
  obtain rfl : w.tot = d := by omega
  have hfs : w.fs = fs1 ∧ (w.tot < n.toNat → Full sb fs1) := by
    unfold Ending at hend
    split at hend
    · exact ⟨hend.2, fun hlt => absurd hend.1 (by omega)⟩
    · exact ⟨hend.2.1, fun _ => hend.2.2⟩
    · obtain ⟨hleft, hne, r, hr, hbad, -⟩ := hend
      obtain ⟨hok, -⟩ := eitherCopyin_spec mem
        (fs1.data (lookup fs1 w.ip ((off.toNat + w.tot) / BSIZE))) user (src + w.tot)
        (chunk_le (n.toNat - w.tot) (off.toNat + w.tot))
      rw [← hr, hbad] at hok
      refine absurd (hok.mpr fun k hk => ?_) Bool.false_ne_true
      rw [Nat.add_assoc]
      exact hmem _ (by omega)
  obtain ⟨hfs, hfull⟩ := hfs
  have hsame := hrun.ext.same
  have hinum : w.ip.inum < sb.ninodes := by
    rw [hsame]
    exact h.inum
  have hsize : w.ip.size = ip.size := by rw [hsame]
  obtain ⟨hip, hup, hinum'⟩ := writeEnd_spec off.toNat hinum
  generalize hres : writeEnd sb off.toNat w = res at hip hup hinum'
  have htot : res.1 = (w.tot : ℤ) := by rw [← hres]; rfl
  obtain ⟨r, ip', fs'⟩ := res
  dsimp only at htot hip hup hinum'
  subst htot
  rw [hfs] at hup
  have haddrs : ip'.addrs = w.ip.addrs := by rw [hip]
  have hsize' : ip'.size = max ip.size (off.toNat + w.tot) := by rw [hip, ← hsize]
  have hslot : ∀ s, slot fs' ip' s = slot fs1 w.ip s := fun s => by
    rw [hup]
    exact slot_iupdate hinum' hrun.slots haddrs s
  have hfree : ∀ b, isFree sb fs' b = isFree sb fs1 b := fun b => by
    rw [hup]
    exact isFree_iupdate hinum' b
  have hmax := h.size_le
  have hold : ∀ i < ip'.size, ¬(off.toNat ≤ i ∧ i < off.toNat + w.tot) → i < ip.size :=
    fun i hi hout => by omega
  have hne : ∀ i < ip'.size, lookup fs1 w.ip (i / BSIZE) ≠ 0 := by
    intro i hi
    by_cases hin : off.toNat ≤ i ∧ i < off.toNat + w.tot
    · exact (hrun.new i hin.1 hin.2).1
    · have hi' := hold i hi hin
      rw [hrun.ext.lookup (div_lt_MAXFILE (by omega)) (h.lookup_ne hi')]
      exact h.lookup_ne hi'
  have hap := hrun.apart h (by omega)
  refine ⟨w.tot, ip', fs', ?_, hn, fun hlt b hb => ?_, ?_, ⟨?_, ?_, hinum', ?_⟩, ?_, ?_,
    ⟨?_, ?_, ?_⟩, _, by rw [hup]; exact hrun.logged.trans (Logged.put _ _ _)⟩
  · unfold writei
    rw [if_pos hacc, hloop, Option.map_some, hres]
  · rw [hfree]
    exact hfull hlt b hb
  · rw [hip, hsame]
  · intro b hb
    rw [hfree]
    exact hrun.reserved h.reserved b hb
  · exact hrun.slots.congr (fun s _ => hslot s) fun b _ hu => by rwa [hfree]
  · intro bn hbn
    have hdiv : bn * BSIZE / BSIZE = bn := Nat.mul_div_cancel _ (by decide)
    constructor
    · rw [← hdiv]
      exact div_lt_MAXFILE (by omega)
    · have hlook := hne (bn * BSIZE) hbn
      rw [hdiv] at hlook
      exact (hslot _).trans_ne hlook
  · intro i hi
    rw [hup, byteAt_iupdate hinum' hrun.slots haddrs (by omega) (hne i hi)]
    by_cases hin : off.toNat ≤ i ∧ i < off.toNat + w.tot
    · rw [if_pos hin, (hrun.new i hin.1 hin.2).2]
    · rw [if_neg hin, hrun.old i (by omega) hin (h.lookup_ne (hold i hi hin))]
  · have hj : ip.inum = ip'.inum := by rw [hip, hsame]
    rw [hup, hj, dinodeAt_iupdate_self]
  · intro jp hj bn hbn
    rw [← hap.lookup jp hj bn hbn, hup]
    exact slot_iupdate hinum' (hj.slots_run hrun (by omega)) rfl _
  · intro jp hj i hi hne'
    rw [← hap.bytes jp hj i hi hne', hup]
    refine byteAt_iupdate hinum' (hj.slots_run hrun (by omega)) rfl hi ?_
    rwa [hap.lookup jp hj _ (div_lt_MAXFILE hi)]
  · intro j hj hne'
    rw [← hap.dinode j hj hne', hup]
    refine dinodeAt_iupdate_of_ne ?_
    rwa [hip, hsame]

/-- **`readi` and `writei` implement an array of bytes.**  Outside of the array, `readi` returns 0
and `writei` returns -1, and nothing changes.  Within it, `readi` copies the bytes from the offset
up to the size and changes nothing else; `writei` overwrites a part of the array and extends it, and
it stops early only where `balloc` returns 0.  `bmap` does not panic, and `log_write` finds room at
each call of `writei` if the log has room in the end. -/
theorem readi_writei_byteArray (h : Wf sb fs ip) (mem : Memory) (user : Bool) (addr : ℕ)
    (off n : UInt32) :
    ((ip.size < off.toNat ∨ 2 ^ 32 ≤ off.toNat + n.toNat) →
      readi sb fs ip mem user addr off n = some (0, mem, ip, fs)) ∧
    (¬(ip.size < off.toNat ∨ 2 ^ 32 ≤ off.toNat + n.toNat) →
      (∀ k < n.toNat, off.toNat + k < ip.size → mem.Writes user (addr + k)) →
      ∃ (tot : ℕ) (mem' : Memory),
        readi sb fs ip mem user addr off n = some ((tot : ℤ), mem', ip, fs) ∧
        off.toNat + tot = min (off.toNat + n.toNat) ip.size ∧
        (∀ k < tot, mem'.byte user (addr + k) = some (byteAt fs ip (off.toNat + k))) ∧
        ∀ v a, (v = user → ¬(addr ≤ a ∧ a < addr + tot)) → mem'.byte v a = mem.byte v a) ∧
    ((ip.size < off.toNat ∨ 2 ^ 32 ≤ off.toNat + n.toNat ∨
        MAXFILE * BSIZE < off.toNat + n.toNat) →
      writei sb fs ip mem user addr off n = some (-1, ip, fs)) ∧
    (¬(ip.size < off.toNat ∨ 2 ^ 32 ≤ off.toNat + n.toNat ∨
        MAXFILE * BSIZE < off.toNat + n.toNat) →
      (∀ k < n.toNat, (mem.byte user (addr + k)).isSome) →
      ∃ (tot : ℕ) (ip' : Inode) (fs' : Fs),
        writei sb fs ip mem user addr off n = some ((tot : ℤ), ip', fs') ∧
        tot ≤ n.toNat ∧ (tot < n.toNat → (balloc sb fs').1 = 0) ∧
        ip' = { ip with size := max ip.size (off.toNat + tot), addrs := ip'.addrs } ∧
        (∀ i < ip'.size, lookup fs' ip' (i / BSIZE) ≠ 0 ∧ byteAt fs' ip' i =
          if off.toNat ≤ i ∧ i < off.toNat + tot then mem.val user (addr + (i - off.toNat))
          else byteAt fs ip i) ∧
        dinodeAt sb fs' ip.inum = ip'.dinode ∧
        (∀ j < sb.ninodes, j ≠ ip.inum → dinodeAt sb fs' j = dinodeAt sb fs j) ∧
        (∀ jp, Other sb fs ip jp → ∀ i < MAXFILE * BSIZE,
          lookup fs' jp (i / BSIZE) = lookup fs jp (i / BSIZE) ∧
          (lookup fs jp (i / BSIZE) ≠ 0 → byteAt fs' jp i = byteAt fs jp i)) ∧
        (fs'.lh.length < LOGSIZE - 1 → ∃ l, fs'.calls = fs.calls ++ l ∧
          ∀ l', l' <+: l → (fs.lh ++ l').toFinset.card < LOGSIZE - 1)) := by
  refine ⟨fun hout => ?_, fun hin hmem => ?_, fun hout => ?_, fun hin hmem => ?_⟩
  · rw [readi, if_pos]
    rwa [add_lt_iff]
  · have hwrap := toNat_add_of_not_lt fun hx => hin (.inr hx)
    obtain ⟨tot, htot⟩ : ∃ tot, tot = if ip.size < (off + n).toNat then ip.size - off.toNat
        else n.toNat := ⟨_, rfl⟩
    have hmin : off.toNat + tot = min (off.toNat + n.toNat) ip.size := by
      rw [htot, hwrap]
      split <;> omega
    obtain ⟨mem', hloop, hst⟩ := readLoop_spec user (n := tot) h tot mem addr off.toNat 0
      (Nat.zero_le _) (by omega) (by omega) fun k hk => hmem k (by omega) (by omega)
    refine ⟨tot, mem', ?_, hmin, hst.new, hst.old⟩
    rw [readi, if_neg (by rwa [add_lt_iff])]
    simp only [← htot]
    exact hloop
  · rw [writei, if_neg]
    rw [accepts_iff]
    have hmax : MAXFILE * BSIZE = 274432 := rfl
    omega
  · have hacc : Accepts ip off n := by
      rw [accepts_iff]
      omega
    obtain ⟨tot, ip', fs', hw, hle, hfull, hip, hwf, hbytes, hdin, hap, l, hlog⟩ :=
      writei_spec h hacc hmem
    refine ⟨tot, ip', fs', hw, hle, fun hlt => by rw [(hfull hlt).balloc], hip,
      fun i hi => ⟨hwf.lookup_ne hi, hbytes i hi⟩, hdin, hap.dinode, fun jp hj i hi =>
      ⟨hap.lookup jp hj _ (div_lt_MAXFILE hi), hap.bytes jp hj i hi⟩, fun hroom =>
      ⟨l, hlog.calls, fun l' hl => (hlog.card_le hl).trans_lt hroom⟩⟩

end

/-! ## A small file -/

def mkfsSb : Superblock where
  size := 2000
  nblocks := 1954
  ninodes := 200
  inodestart := 32
  bmapstart := 45
  inodestart_pos := by decide
  inodes_fit := by decide
  bitmap_fits := by decide
  size_lt := by decide

def smallFs : Fs where
  data b := if b = 45 then fun i => if i.val < 6 then 255 else 0 else Bytes.zero BSIZE
  lh := []
  calls := []

def smallFile : Inode where
  inum := 2
  type := 2
  major := 0
  minor := 0
  nlink := 1
  size := 10
  addrs k := if k = 0 then 46 else 0

def onePage (c : UInt8) : Memory where
  kernel _ := c
  page vpn := if vpn = 0 then some fun _ => c else none
  writable _ := true

lemma slot_smallFile (s : ℕ) : slot smallFs smallFile s = if s = 0 then 46 else 0 := by
  unfold slot
  by_cases hs : s ≤ NDIRECT
  · rw [if_pos hs]
    rfl
  · rw [if_neg hs, if_pos (show smallFile.addrs NDIRECT = 0 from rfl), if_neg (by omega)]

lemma smallFile_wf : Wf mkfsSb smallFs smallFile := by
  have hslot : ∀ s, slot smallFs smallFile s ≠ 0 → s = 0 ∧ slot smallFs smallFile s = 46 := by
    intro s hne
    rw [slot_smallFile] at hne ⊢
    by_cases hs : s = 0
    · exact ⟨hs, if_pos hs⟩
    · exact absurd (if_neg hs) hne
  refine ⟨by unfold Reserved; decide +kernel, ⟨fun s _ h => ?_, fun s _ h => ?_, fun s _ h => ?_,
    fun s _ t _ h heq => ?_⟩, by decide, fun bn hbn => ?_⟩
  · rw [(hslot s h).2]
    decide
  · rw [(hslot s h).2]
    decide
  · rw [(hslot s h).2]
    decide +kernel
  · rw [(hslot s h).1, (hslot t (by rwa [← heq])).1]
  · have hbn : bn * 1024 < 10 := hbn
    obtain rfl : bn = 0 := by omega
    exact ⟨by decide, by decide⟩

/-- The bytes of the small file: a read at its end, and a write that extends it. -/
theorem readi_writei_byteArray_small :
    (∃ mem', readi mkfsSb smallFs smallFile (onePage 7) false 0 8 4 =
      some (((2 : ℕ) : ℤ), mem', smallFile, smallFs)) ∧
    ∃ (tot : ℕ) (ip' : Inode) (fs' : Fs), writei mkfsSb smallFs smallFile (onePage 7) true 0 8 4 =
      some ((tot : ℤ), ip', fs') ∧ tot ≤ 4 ∧ ip'.size = max 10 (8 + tot) := by
  have h := readi_writei_byteArray smallFile_wf (onePage 7)
  constructor
  · obtain ⟨tot, mem', hr, hmin, -⟩ := (h false 0 8 4).2.1 (by decide) fun _ _ _ hx => (nomatch hx)
    have hmin : 8 + tot = 10 := hmin
    obtain rfl : tot = 2 := by omega
    exact ⟨mem', hr⟩
  · obtain ⟨tot, ip', fs', hw, hle, -, hip, -⟩ := (h true 0 8 4).2.2.2 (by decide) (by decide)
    refine ⟨tot, ip', fs', hw, hle, ?_⟩
    rw [hip]
    rfl

end Content

end Xv6
