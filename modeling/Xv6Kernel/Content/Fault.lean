import Xv6Kernel.Content.Array

/-!
# A write that faults

`copyin` stores into the buffer page by page, and `writei` calls it with the buffer of the shared
cache.  When a page in the middle of a chunk is not mapped, `writei` leaves the loop without
`log_write`, with the bytes of the pages before it in the buffer: the file has changed behind the
bytes that `writei` reports, and the buffer differs from its block on the disk.
-/

namespace Xv6

open Function

variable {j i : ℕ}

namespace Content

variable {sb : Superblock} {fs fs' : Fs} {ip ip' : Inode} {mem : Memory} {user : Bool}

def Coherent (disk : ℕ → Block) (fs : Fs) : Prop := ∀ b, b ∉ fs.lh → fs.data b = disk b

/-- The loop of `writei` ends because `copyin` failed. -/
def Faults (sb : Superblock) (fs : Fs) (ip : Inode) (mem : Memory) (user : Bool) (src : ℕ)
    (off n : UInt32) : Prop :=
  Accepts ip off n ∧
    (writeLoop sb mem user n.toNat n.toNat fs ip src off.toNat 0).map Written.stop = some .fault

/-- Before the first source byte `k'` that is not mapped, every byte `k` that goes to the same block
of the file is the one that the block has; if the block is in the transaction, this is asked of the
bytes below the size only. -/
def Repeats (fs : Fs) (ip : Inode) (mem : Memory) (user : Bool) (src : ℕ) (off n : UInt32) : Prop :=
  ∀ k k', k < k' → k' < n.toNat → (∀ j < k', (mem.byte user (src + j)).isSome) →
    (mem.byte user (src + k')).isSome = false →
    (off.toNat + k) / BSIZE = (off.toNat + k') / BSIZE →
    lookup fs ip ((off.toNat + k) / BSIZE) ≠ 0 →
    (off.toNat + k < ip.size ∨ lookup fs ip ((off.toNat + k) / BSIZE) ∉ fs.lh) →
    byteAt fs ip (off.toNat + k) = mem.val user (src + k)

/-- The state in which the loop faults: `tot` bytes are written, and a copy of the next chunk that
stops `j'` bytes into it is in the buffer of the block `a`. -/
structure FaultAt (sb : Superblock) (fs : Fs) (ip : Inode) (mem : Memory) (user : Bool)
    (src off n : ℕ) (w : Written) (fs₁ : Fs) (l : List ℕ) (j' : ℕ) (bp : Block) : Prop where
  run : Run sb (fun i => mem.val user (src + (i - off))) off (off + w.tot) l fs ip fs₁ w.ip
  lt : w.tot + j' < n
  chunk : j' < BSIZE - (off + w.tot) % BSIZE
  align : w.tot = 0 ∨ (off + w.tot) % BSIZE = 0
  mapped : ∀ j < w.tot + j', (mem.byte user (src + j)).isSome
  unmapped : (mem.byte user (src + (w.tot + j'))).isSome = false
  block : lookup fs₁ w.ip ((off + w.tot) / BSIZE) ≠ 0
  put : w.fs = fs₁.put (lookup fs₁ w.ip ((off + w.tot) / BSIZE)) bp
  new : ∀ j < j', bp.get ((off + w.tot) % BSIZE + j) = mem.val user (src + (w.tot + j))
  old : ∀ i, (∀ j < j', i ≠ (off + w.tot) % BSIZE + j) →
    bp.get i = (fs₁.data (lookup fs₁ w.ip ((off + w.tot) / BSIZE))).get i

lemma Faults.faultAt (h : Wf sb fs ip) {src : ℕ} {off n : UInt32}
    (hf : Faults sb fs ip mem user src off n) :
    ∃ w fs₁ l j' bp, writeLoop sb mem user n.toNat n.toNat fs ip src off.toNat 0 = some w ∧
      FaultAt sb fs ip mem user src off.toNat n.toNat w fs₁ l j' bp := by
  obtain ⟨hacc, hstop⟩ := hf
  obtain ⟨-, hbound⟩ := accepts_iff.mp hacc
  obtain ⟨w, fs₁, l, d, hloop, hd, hn, hrun, hend, halign, hsome⟩ :=
    writeLoop_spec mem user (n := n.toNat)
      (f := fun i => mem.val user (src + (i - off.toNat))) n.toNat fs ip src off.toNat 0 h.reserved
      h.slots (Nat.zero_le _) (by omega) (by omega) fun i _ => rfl
  obtain rfl : w.tot = d := by omega
  rw [hloop] at hstop
  have hstop : w.stop = .fault := Option.some.inj hstop
  unfold Ending at hend
  rw [hstop] at hend
  obtain ⟨hleft, hblock, r, hr, hbad, hput⟩ := hend
  obtain ⟨hok, hnew, hold⟩ := eitherCopyin_spec mem
    (fs₁.data (lookup fs₁ w.ip ((off.toNat + w.tot) / BSIZE))) user (src + w.tot)
    (chunk_le (n.toNat - w.tot) (off.toNat + w.tot))
  rw [← hr] at hok hnew hold
  -- the first byte of the chunk that is not mapped
  have hex : ∃ j, j < min (n.toNat - w.tot) (BSIZE - (off.toNat + w.tot) % BSIZE) ∧
      (mem.byte user (src + w.tot + j)).isSome = false := by
    by_contra hno
    rw [hbad] at hok
    refine absurd (hok.mpr fun k hk => ?_) Bool.false_ne_true
    by_contra hk'
    exact hno ⟨k, hk, by simpa using hk'⟩
  classical
  obtain ⟨hlt, hun⟩ := Nat.find_spec hex
  have hmin := fun {j} => Nat.find_min hex (m := j)
  generalize Nat.find hex = j' at hlt hun hmin
  have hmapped : ∀ j < j', (mem.byte user (src + w.tot + j)).isSome := fun j hj => by
    by_contra hno
    exact hmin hj ⟨by omega, by simpa using hno⟩
  have hreach : ∀ j, mem.Reaches user (src + w.tot) j ↔ j < j' := by
    refine fun j => ⟨fun hj => ?_, fun hj i hi => hmapped i (by omega)⟩
    by_contra hge
    have hj := hj j' (by omega)
    rw [hun] at hj
    cases hj
  refine ⟨w, fs₁, l, j', r.1, hloop, hrun, by omega, by omega, by omega, fun j hj => ?_, ?_, hblock,
    hput, fun j hj => ?_, fun i hi => hold i fun k hk hik hk' => hi k ((hreach k).mp hk') hik⟩
  · by_cases hjt : j < w.tot
    · exact hsome j hjt
    · have hj' := hmapped (j - w.tot) (by omega)
      rwa [Nat.add_assoc, Nat.add_sub_cancel' (by omega)] at hj'
  · rwa [← Nat.add_assoc]
  · rw [← Nat.add_assoc]
    exact hnew j (by omega) ((hreach j).mpr hj)

namespace FaultAt

variable {src off n : ℕ} {w : Written} {fs₁ : Fs} {l : List ℕ} {j' : ℕ} {bp : Block}

section

variable (h : FaultAt sb fs ip mem user src off n w fs₁ l j' bp)
include h

lemma div (hj : j ≤ j') : (off + (w.tot + j)) / BSIZE = (off + w.tot) / BSIZE ∧
      (off + (w.tot + j)) % BSIZE = (off + w.tot) % BSIZE + j := by
  have hchunk := h.chunk
  rw [← Nat.add_assoc]
  exact chunk_div _ (by omega)

lemma le_of_div {k : ℕ} (hk : (off + k) / BSIZE = (off + w.tot) / BSIZE) : w.tot ≤ k := by
  have hk : (off + k) / 1024 = (off + w.tot) / 1024 := hk
  have halign : w.tot = 0 ∨ (off + w.tot) % 1024 = 0 := h.align
  omega

lemma byteAt_end (hbound : off + n ≤ MAXFILE * BSIZE) (hinum : ip'.inum < sb.ninodes)
    (haddrs : ip'.addrs = w.ip.addrs) (hi : i < MAXFILE * BSIZE)
    (hne : lookup fs₁ w.ip (i / BSIZE) ≠ 0) :
    byteAt (iupdate sb w.fs ip') ip' i =
      if i / BSIZE = (off + w.tot) / BSIZE then bp.get (i % BSIZE) else byteAt fs₁ w.ip i := by
  have hlt := h.lt
  have hbn : (off + w.tot) / BSIZE < MAXFILE := div_lt_MAXFILE (by omega)
  have hdata :
      w.fs.data = update fs₁.data (lookup fs₁ w.ip ((off + w.tot) / BSIZE)) bp := by
    rw [h.put]
    rfl
  have hlook : lookup w.fs w.ip (i / BSIZE) = lookup fs₁ w.ip (i / BSIZE) :=
    h.run.slots.slot_put hbn h.block hdata _
  rw [byteAt_iupdate hinum (h.run.slots.put hbn h.block hdata) haddrs hi (by rwa [hlook]),
    h.run.slots.byteAt_put hbn h.block hdata hi hne]

lemma not_mem (hw : Wf sb fs ip) (hbound : off + n ≤ MAXFILE * BSIZE)
    (hne : lookup fs ip ((off + w.tot) / BSIZE) ≠ 0) : lookup fs ip ((off + w.tot) / BSIZE) ∉ l := by
  have hlt := h.lt
  have hbn : (off + w.tot) / BSIZE < MAXFILE := div_lt_MAXFILE (by omega)
  intro hx
  have hle := hw.slots.le _ (slotOf_lt hbn) hne
  have hused := hw.slots.used _ (slotOf_lt hbn) hne
  rcases h.run.touch _ hx with ⟨-, hx⟩ | ⟨-, hfree⟩ | ⟨-, hx⟩ | ⟨i, hlo, hhi, -, hx⟩
  · exact absurd (hle.trans_lt hx) (lt_irrefl _)
  · exact Bool.false_ne_true (hused.symm.trans hfree)
  · exact slotOf_ne _ (hw.slots.once _ (slotOf_lt hbn) NDIRECT (by decide) hne hx)
  · have hib : i / BSIZE < MAXFILE := div_lt_MAXFILE (by omega)
    have hdiv : (off + w.tot) / 1024 = i / 1024 :=
      slotOf_inj (hw.slots.once _ (slotOf_lt hbn) _ (slotOf_lt hib) hne hx)
    have halign : w.tot = 0 ∨ (off + w.tot) % 1024 = 0 := h.align
    omega

lemma eq_of_unmapped {k' : ℕ} (hmapped : ∀ j < k', (mem.byte user (src + j)).isSome)
    (hunmapped : (mem.byte user (src + k')).isSome = false) : k' = w.tot + j' := by
  by_contra hne
  rcases Nat.lt_or_gt_of_ne hne with hlt | hgt
  · rw [h.mapped k' hlt] at hunmapped
    cases hunmapped
  · have hm := hmapped _ hgt
    rw [h.unmapped] at hm
    cases hm

lemma mem_lh (ip' : Inode) (b : ℕ) :
    b ∈ (iupdate sb w.fs ip').lh ↔ b ∈ fs.lh ∨ b ∈ l ∨ b = sb.iblock ip'.inum := by
  have h1 := (Logged.put w.fs (sb.iblock ip'.inum)
    ((w.fs.data (sb.iblock ip'.inum)).paste (ip'.inum % Mkfs.IPB * 64) ip'.dinode)).lh b
  have h2 : b ∈ w.fs.lh ↔ b ∈ fs₁.lh := by rw [h.put]; rfl
  rw [h2, h.run.logged.lh, List.mem_singleton, or_assoc] at h1
  exact h1

lemma data_end {b : ℕ}
    (hb : b ≠ sb.iblock ip'.inum) : (iupdate sb w.fs ip').data b =
      if b = lookup fs₁ w.ip ((off + w.tot) / BSIZE) then bp else fs₁.data b := by
  refine (update_of_ne hb _ _).trans ?_
  rw [h.put]
  by_cases heq : b = lookup fs₁ w.ip ((off + w.tot) / BSIZE)
  · rw [if_pos heq, heq]
    exact update_self _ _ _
  · rw [if_neg heq]
    exact update_of_ne heq _ _

lemma block_ne (hbound : off + n ≤ MAXFILE * BSIZE) (hinum : ip'.inum < sb.ninodes) :
    lookup fs₁ w.ip ((off + w.tot) / BSIZE) ≠ sb.iblock ip'.inum := by
  have hlt := h.lt
  have hbn : (off + w.tot) / BSIZE < MAXFILE := div_lt_MAXFILE (by omega)
  have h1 := sb.iblock_lt hinum
  have h2 := sb.bmapstart_lt_datastart
  have h3 := h.run.slots.le _ (slotOf_lt hbn) h.block
  change slot fs₁ w.ip (slotOf ((off + w.tot) / BSIZE)) ≠ _
  omega

lemma lookup_eq {bn : ℕ}
    (hbn : bn < MAXFILE) (hne : lookup fs ip bn ≠ 0) : lookup fs₁ w.ip bn = lookup fs ip bn :=
  h.run.ext.lookup hbn hne

lemma byteAt_copied (hbound : off + n ≤ MAXFILE * BSIZE) (hinum : ip'.inum < sb.ninodes)
    (haddrs : ip'.addrs = w.ip.addrs) (hj : j < j')
    (hne : lookup fs ip ((off + w.tot) / BSIZE) ≠ 0) :
    byteAt (iupdate sb w.fs ip') ip' (off + (w.tot + j)) = mem.val user (src + (w.tot + j)) := by
  have hlt := h.lt
  have hbn : (off + w.tot) / BSIZE < MAXFILE := div_lt_MAXFILE (by omega)
  obtain ⟨hdiv, hmod⟩ := h.div hj.le
  rw [h.byteAt_end hbound hinum haddrs (by omega) (by rw [hdiv, h.lookup_eq hbn hne]; exact hne),
    if_pos hdiv, hmod, h.new j hj]

end

end FaultAt

section

variable {src : ℕ} {off n : UInt32} {w : Written} {fs₁ : Fs} {l : List ℕ} {j' : ℕ} {bp : Block}
  {disk : ℕ → Block}

section

variable (hat : FaultAt sb fs ip mem user src off.toNat n.toNat w fs₁ l j' bp)
include hat

/-- If the rest of the file is as before and the cache as the disk is, the bytes that were copied
are the ones that the block had. -/
lemma FaultAt.repeats (h : Wf sb fs ip) (hc : Coherent disk fs)
    (hbound : off.toNat + n.toNat ≤ MAXFILE * BSIZE) (hinum : ip'.inum < sb.ninodes)
    (haddrs : ip'.addrs = w.ip.addrs) (hsize : ip'.size = max ip.size (off.toNat + w.tot))
    (hfile : ∀ i < ip'.size, ¬(off.toNat ≤ i ∧ i < off.toNat + w.tot) →
      byteAt (iupdate sb w.fs ip') ip' i = byteAt fs ip i)
    (hcache : Coherent disk (iupdate sb w.fs ip')) : Repeats fs ip mem user src off n := by
  intro k k' hkk' hk' hmapped hunmapped hdiv hne hcond
  have hbn : (off.toNat + w.tot) / BSIZE < MAXFILE := div_lt_MAXFILE (by have := hat.lt; omega)
  obtain rfl := hat.eq_of_unmapped hmapped hunmapped
  rw [(hat.div le_rfl).1] at hdiv
  obtain ⟨j, rfl⟩ := Nat.exists_eq_add_of_le (hat.le_of_div hdiv)
  have hj : j < j' := by omega
  rw [hdiv] at hne hcond
  rcases hcond with hlt' | hnot
  · rw [← hfile _ (by omega) (by omega), hat.byteAt_copied hbound hinum haddrs hj hne]
  have hb := hat.lookup_eq hbn hne
  have hblock := hat.block_ne hbound hinum
  rw [hb] at hblock
  have hout : lookup fs ip ((off.toNat + w.tot) / BSIZE) ∉ (iupdate sb w.fs ip').lh := by
    rw [hat.mem_lh, not_or, not_or]
    exact ⟨hnot, hat.not_mem h hbound hne, hblock⟩
  have hbp := (hcache _ hout).trans (hc _ hnot).symm
  rw [hat.data_end hblock, if_pos hb.symm] at hbp
  rw [byteAt, hdiv, (hat.div hj.le).2, ← hbp, hat.new j hj]

lemma FaultAt.byteAt_source (hrep : Repeats fs ip mem user src off n) (hj : j < j')
    (hne : lookup fs ip ((off.toNat + w.tot) / BSIZE) ≠ 0)
    (hcond : off.toNat + (w.tot + j) < ip.size ∨
      lookup fs ip ((off.toNat + w.tot) / BSIZE) ∉ fs.lh) :
    byteAt fs ip (off.toNat + (w.tot + j)) = mem.val user (src + (w.tot + j)) := by
  have hdiv := (hat.div hj.le).1
  refine hrep (w.tot + j) (w.tot + j') (by omega) hat.lt hat.mapped hat.unmapped ?_ ?_ ?_
  · rw [hdiv, (hat.div le_rfl).1]
  · rwa [hdiv]
  · rwa [hdiv]

lemma FaultAt.file_eq (h : Wf sb fs ip) (hbound : off.toNat + n.toNat ≤ MAXFILE * BSIZE)
    (hinum : ip'.inum < sb.ninodes) (haddrs : ip'.addrs = w.ip.addrs)
    (hrep : Repeats fs ip mem user src off n) (hi : i < ip.size)
    (hout : ¬(off.toNat ≤ i ∧ i < off.toNat + w.tot)) :
    byteAt (iupdate sb w.fs ip') ip' i = byteAt fs ip i := by
  have hmax := h.size_le
  have hne := h.lookup_ne hi
  have hib : i < MAXFILE * BSIZE := by omega
  have hold := hat.run.old i hib hout hne
  rw [← hold, hat.byteAt_end hbound hinum haddrs hib
    (by rw [hat.lookup_eq (div_lt_MAXFILE hib) hne]; exact hne)]
  by_cases hdiv : i / BSIZE = (off.toNat + w.tot) / BSIZE
  swap
  · rw [if_neg hdiv]
  rw [if_pos hdiv]
  by_cases hj : ∃ j < j', i % BSIZE = (off.toNat + w.tot) % BSIZE + j
  · obtain ⟨j, hj, hmod⟩ := hj
    have hpos : i = off.toNat + (w.tot + j) := by
      have hdiv : i / 1024 = (off.toNat + w.tot) / 1024 := hdiv
      have hmod : i % 1024 = (off.toNat + w.tot) % 1024 + j := hmod
      omega
    rw [hmod, hat.new j hj, hold, hpos]
    rw [hdiv] at hne
    exact (hat.byteAt_source hrep hj hne (.inl (by omega))).symm
  · rw [hat.old _ fun j hj' hmod => hj ⟨j, hj', hmod⟩, byteAt, hdiv]

lemma FaultAt.coherent (hc : Coherent disk fs) (hbound : off.toNat + n.toNat ≤ MAXFILE * BSIZE)
    (hrep : Repeats fs ip mem user src off n) : Coherent disk (iupdate sb w.fs ip') := by
  intro b hb
  rw [hat.mem_lh, not_or, not_or] at hb
  obtain ⟨hb1, hb2, hb3⟩ := hb
  have hlt := hat.lt
  have hbn : (off.toNat + w.tot) / BSIZE < MAXFILE := div_lt_MAXFILE (by omega)
  have hclean : fs₁.data b = disk b := by
    rw [hat.run.logged.data b hb2, hc b hb1]
  rw [hat.data_end hb3]
  by_cases heq : b = lookup fs₁ w.ip ((off.toNat + w.tot) / BSIZE)
  swap
  · rw [if_neg heq, hclean]
  rw [if_pos heq, ← hclean, heq]
  -- a block that was allocated for the file is logged
  have hne : lookup fs ip ((off.toNat + w.tot) / BSIZE) ≠ 0 := fun hzero =>
    hb2 (by
      rw [heq]
      exact hat.run.fresh _ (slotOf_lt hbn) hzero hat.block)
  have hkeep := hat.lookup_eq hbn hne
  refine Bytes.ext_get fun x _ => ?_
  by_cases hj : ∃ j < j', x = (off.toNat + w.tot) % BSIZE + j
  · obtain ⟨j, hj, rfl⟩ := hj
    obtain ⟨hdiv, hmod⟩ := hat.div hj.le
    have hval := hat.byteAt_source hrep hj hne (.inr (by rwa [← hkeep, ← heq]))
    rw [hat.new j hj, ← hval, ← hat.run.old _ (by omega) (by omega) (by rwa [hdiv]), byteAt, hdiv,
      hmod]
  · exact hat.old x fun j hj' hx => hj ⟨j, hj', hx⟩

end

end

/-- **A faulting write leaves the rest of the file alone, and the cache as the disk is, exactly when
the bytes copied before the fault into the block of the fault are the ones it had.** -/
theorem writei_fault_iff (h : Wf sb fs ip) {disk : ℕ → Block} (hc : Coherent disk fs) {src : ℕ}
    {off n : UInt32} (hf : Faults sb fs ip mem user src off n) {tot : ℕ}
    (hw : writei sb fs ip mem user src off n = some ((tot : ℤ), ip', fs')) :
    ((∀ i < ip'.size, ¬(off.toNat ≤ i ∧ i < off.toNat + tot) → byteAt fs' ip' i = byteAt fs ip i) ∧
      Coherent disk fs') ↔ Repeats fs ip mem user src off n := by
  obtain ⟨w, fs₁, l, j', bp, hloop, hat⟩ := hf.faultAt h
  obtain ⟨hoff, hbound⟩ := accepts_iff.mp hf.1
  rw [writei, if_pos hf.1, hloop, Option.map_some] at hw
  have hw := Option.some.inj hw
  have hsame := hat.run.ext.same
  have hinum1 : w.ip.inum < sb.ninodes := by
    rw [hsame]
    exact h.inum
  obtain ⟨hip, hup, hinum⟩ := writeEnd_spec off.toNat hinum1
  have htot : (writeEnd sb off.toNat w).1 = (w.tot : ℤ) := rfl
  rw [hw] at hip hup hinum htot
  dsimp only at hip hup hinum htot
  obtain rfl : tot = w.tot := by omega
  have hsize : ip'.size = max ip.size (off.toNat + w.tot) := by rw [hip, hsame]
  have haddrs : ip'.addrs = w.ip.addrs := by rw [hip]
  rw [hup]
  constructor
  · rintro ⟨hfile, hcache⟩
    exact hat.repeats h hc hbound hinum haddrs hsize hfile hcache
  · intro hrep
    exact ⟨fun i hi hout => hat.file_eq h hbound hinum haddrs hrep (by omega) hout,
      hat.coherent hc hbound hrep⟩

/-! ## A write from the end of a page -/

lemma smallFs_coherent : Coherent smallFs.data smallFs := fun _ _ => rfl

lemma smallFile_faults (c : UInt8) : Faults mkfsSb smallFs smallFile (onePage c) true 4090 0 10 :=
  ⟨by decide, by rfl⟩

/-- The file has changed although the write reports no byte. -/
theorem writei_fault_changes : Wf mkfsSb smallFs smallFile ∧ Coherent smallFs.data smallFs ∧
      Faults mkfsSb smallFs smallFile (onePage 7) true 4090 0 10 ∧
      ∃ ip' fs', writei mkfsSb smallFs smallFile (onePage 7) true 4090 0 10 =
          some (((0 : ℕ) : ℤ), ip', fs') ∧
        ¬((∀ i < ip'.size, ¬(0 ≤ i ∧ i < 0 + 0) → byteAt fs' ip' i = byteAt smallFs smallFile i) ∧
          Coherent smallFs.data fs') := by
  refine ⟨smallFile_wf, smallFs_coherent, smallFile_faults 7, _, _, rfl, fun h => ?_⟩
  have h := h.1 0 (by decide) (by decide)
  revert h
  decide +kernel

lemma onePage_val_zero (a : ℕ) : (onePage 0).val true a = 0 := by
  unfold Memory.val Memory.byte onePage
  by_cases ha : a / PGSIZE = 0
  · simp [ha]
  · simp [ha]

/-- When the page holds the bytes of the file, nothing changes. -/
theorem writei_fault_iff_zero :
    ∃ ip' fs', writei mkfsSb smallFs smallFile (onePage 0) true 4090 0 10 =
        some (((0 : ℕ) : ℤ), ip', fs') ∧
      (∀ i < ip'.size, ¬((0 : UInt32).toNat ≤ i ∧ i < (0 : UInt32).toNat + 0) →
        byteAt fs' ip' i = byteAt smallFs smallFile i) ∧ Coherent smallFs.data fs' := by
  refine ⟨_, _, rfl, (writei_fault_iff smallFile_wf smallFs_coherent (smallFile_faults 0) rfl).mpr
    fun k k' hk hk' hmapped _ _ _ _ => ?_⟩
  rw [onePage_val_zero, byteAt, show ((0 : UInt32).toNat + k) / BSIZE = 0 from ?_]
  · exact Bytes.get_zero _
  · have hk' : k' < 10 := hk'
    change (0 + k) / 1024 = 0
    omega

end Content

end Xv6
