import Xv6Kernel.Content.Blocks

/-!
# The loop of `writei`

`Run` says what a part of `writei` does to a file: it overwrites the bytes of an interval, keeps the
other bytes of the blocks that the file had, gives it free blocks only, and logs every block that it
changes.
-/

namespace Xv6

open Function

variable {l : List ℕ} {lo hi mid i x s b : ℕ}

namespace Content

open Mkfs (IPB BPB Dinode)

variable {sb : Superblock} {fs fs' : Fs} {ip ip' : Inode}

def byteAt (fs : Fs) (ip : Inode) (i : ℕ) : UInt8 :=
  (fs.data (lookup fs ip (i / BSIZE))).get (i % BSIZE)

/-- A block that may be written while the bytes of `[lo, hi)` are. -/
def Touched (sb : Superblock) (fs : Fs) (ip : Inode) (lo hi x : ℕ) : Prop :=
  (sb.bmapstart ≤ x ∧ x < sb.datastart) ∨
    (x < sb.size ∧ isFree sb fs x = true) ∨
      (x ≠ 0 ∧ x = slot fs ip NDIRECT) ∨
        ∃ i, lo ≤ i ∧ i < hi ∧ x ≠ 0 ∧ x = lookup fs ip (i / BSIZE)

structure Run (sb : Superblock) (f : ℕ → UInt8) (lo hi : ℕ) (l : List ℕ) (fs : Fs) (ip : Inode)
    (fs' : Fs) (ip' : Inode) : Prop where
  slots : Slots sb fs' ip'
  ext : Ext sb fs ip fs' ip'
  logged : Logged fs l fs'
  touch : ∀ x ∈ l, Touched sb fs ip lo hi x
  fresh : ∀ s < nslots, slot fs ip s = 0 → slot fs' ip' s ≠ 0 → slot fs' ip' s ∈ l
  new : ∀ i, lo ≤ i → i < hi → lookup fs' ip' (i / BSIZE) ≠ 0 ∧ byteAt fs' ip' i = f i
  old : ∀ i < MAXFILE * BSIZE, ¬(lo ≤ i ∧ i < hi) → lookup fs ip (i / BSIZE) ≠ 0 →
    byteAt fs' ip' i = byteAt fs ip i

lemma div_lt_MAXFILE (h : i < MAXFILE * BSIZE) : i / BSIZE < MAXFILE := by
  have h : i < 268 * 1024 := h
  change i / 1024 < 268
  omega

lemma Ext.lookup (h : Ext sb fs ip fs' ip') {bn : ℕ} (hbn : bn < MAXFILE)
    (hne : lookup fs ip bn ≠ 0) : lookup fs' ip' bn = lookup fs ip bn :=
  h.keep _ (slotOf_lt hbn) hne

lemma Touched.of_ext (h : Touched sb fs' ip' mid hi x) (he : Ext sb fs ip fs' ip')
    (hs : Slots sb fs' ip') (hlo : lo ≤ mid)
    (hhi : ∀ i, mid ≤ i → i < hi → i < MAXFILE * BSIZE) : Touched sb fs ip lo hi x := by
  have hslot : ∀ s < nslots, x ≠ 0 → x = slot fs' ip' s →
      x = slot fs ip s ∨ (x < sb.size ∧ isFree sb fs x = true) := by
    intro s hlt hne hx
    by_cases hzero : slot fs ip s = 0
    · rw [hx] at hne ⊢
      exact .inr ⟨hs.lt s hlt hne, he.fresh s hlt hzero hne⟩
    · exact .inl (by rw [hx, he.keep s hlt hzero])
  rcases h with hx | ⟨hlt, hfree⟩ | ⟨hne, hx⟩ | ⟨i, hi1, hi2, hne, hx⟩
  · exact .inl hx
  · refine .inr (.inl ⟨hlt, ?_⟩)
    by_contra hused
    rw [he.used x hlt (by simpa using hused)] at hfree
    cases hfree
  · rcases hslot _ (by decide) hne hx with hx | hx
    · exact .inr (.inr (.inl ⟨hne, hx⟩))
    · exact .inr (.inl hx)
  · rcases hslot _ (slotOf_lt (div_lt_MAXFILE (hhi i hi1 hi2))) hne hx with hx | hx
    · exact .inr (.inr (.inr ⟨i, by omega, hi2, hne, hx⟩))
    · exact .inr (.inl hx)

lemma Touched.mono (h : Touched sb fs ip lo mid x) (hhi : mid ≤ hi) : Touched sb fs ip lo hi x := by
  rcases h with hx | hx | hx | ⟨i, hi1, hi2, hx⟩
  · exact .inl hx
  · exact .inr (.inl hx)
  · exact .inr (.inr (.inl hx))
  · exact .inr (.inr (.inr ⟨i, hi1, by omega, hx⟩))

namespace Run

variable {f : ℕ → UInt8}

lemma refl (f : ℕ → UInt8) (p : ℕ) (hs : Slots sb fs ip) : Run sb f p p [] fs ip fs ip where
  slots := hs
  ext := .refl sb fs ip
  logged := .refl fs
  touch x hx := absurd hx List.not_mem_nil
  fresh s _ h h' := absurd h h'
  new i hi hi' := absurd hi' (by omega)
  old i _ _ _ := rfl

lemma trans {fs1 fs2 fs3 : Fs} {ip1 ip2 ip3 : Inode} {l' : List ℕ}
    (h : Run sb f lo mid l fs1 ip1 fs2 ip2) (h' : Run sb f mid hi l' fs2 ip2 fs3 ip3)
    (hlo : lo ≤ mid) (hmid : mid ≤ hi) (hhi : ∀ i, lo ≤ i → i < hi → i < MAXFILE * BSIZE) :
    Run sb f lo hi (l ++ l') fs1 ip1 fs3 ip3 where
  slots := h'.slots
  ext := h.ext.trans h'.slots h'.ext
  logged := h.logged.trans h'.logged
  touch x hx := by
    rcases List.mem_append.mp hx with hx | hx
    · exact (h.touch x hx).mono hmid
    · exact (h'.touch x hx).of_ext h.ext h.slots hlo fun i hi => hhi i (by omega)
  fresh s hlt hzero hne := by
    rw [List.mem_append]
    by_cases hmid : slot fs2 ip2 s = 0
    · exact .inr (h'.fresh s hlt hmid hne)
    · rw [h'.ext.keep s hlt hmid]
      exact .inl (h.fresh s hlt hzero hmid)
  new i hi1 hi2 := by
    by_cases hlt : i < mid
    · have hbound := hhi i hi1 hi2
      obtain ⟨hne, hbyte⟩ := h.new i hi1 hlt
      rw [h'.ext.lookup (div_lt_MAXFILE hbound) hne, h'.old i hbound (by omega) hne]
      exact ⟨hne, hbyte⟩
    · exact h'.new i (by omega) hi2
  old i hbound hout hne := by
    have heq := h.ext.lookup (div_lt_MAXFILE hbound) hne
    rw [h'.old i hbound (by omega) (by rwa [heq]), h.old i hbound (by omega) hne]

lemma reserved (h : Run sb f lo hi l fs ip fs' ip') (hr : Reserved sb fs) : Reserved sb fs' :=
  h.ext.reserved hr

end Run

/-! ## `bmap` -/

lemma AllocAt.data_slot {t : ℕ} (h : AllocAt sb fs ip s b fs' ip') (hs : Slots sb fs ip)
    (ht : t < nslots) (hti : t ≠ NDIRECT) (hne : slot fs ip t ≠ 0) :
    fs'.data (slot fs ip t) = fs.data (slot fs ip t) := by
  refine h.logged.data _ fun hx => ?_
  have hle := hs.le t ht hne
  have hused := hs.used t ht hne
  have hbm := sb.bblock_lt h.lt
  rcases mem_allocLogged hx with hx | hx | ⟨-, hx⟩
  · omega
  · rw [hx, h.free] at hused
    cases hused
  · exact hti (hs.once t ht NDIRECT (by decide) hne hx)

lemma AllocAt.run (h : AllocAt sb fs ip s b fs' ip') (hs : Slots sb fs ip)
    (hind : NDIRECT < s → slot fs ip NDIRECT ≠ 0) (f : ℕ → UInt8) (p : ℕ) :
    Run sb f p p ([sb.bblock b, b] ++ if NDIRECT < s then [slot fs ip NDIRECT] else []) fs ip fs'
      ip' where
  slots := h.slots hs
  ext := h.ext
  logged := h.logged
  touch x hx := by
    rcases mem_allocLogged hx with rfl | rfl | ⟨hlt, rfl⟩
    · exact .inl ⟨sb.bmapstart_le_bblock b, sb.bblock_lt h.lt⟩
    · exact .inr (.inl ⟨h.lt, h.free⟩)
    · exact .inr (.inr (.inl ⟨hind hlt, rfl⟩))
  fresh t ht hzero hne := by
    by_cases hts : t = s
    · rw [hts, h.self]
      simp
    · rw [h.other t ht hts] at hne
      exact absurd hzero hne
  new i hi hi' := absurd hi' (by omega)
  old i hbound _ hne := by
    have hlt := slotOf_lt (div_lt_MAXFILE hbound)
    unfold byteAt
    rw [h.ext.lookup (div_lt_MAXFILE hbound) hne]
    exact congrArg (·.get (i % BSIZE)) (h.data_slot hs hlt (slotOf_ne _) hne)

/-- The blocks that `bmap` logs when it returns `addr`. -/
def Mapped (sb : Superblock) (ip' : Inode) (addr x : ℕ) : Prop :=
  (addr ≠ 0 ∧ (x = addr ∨ x = sb.bblock addr)) ∨
    (ip'.addrs NDIRECT ≠ 0 ∧ (x = ip'.addrs NDIRECT ∨ x = sb.bblock (ip'.addrs NDIRECT)))

/-- What `bmap` does. -/
structure Bmap (sb : Superblock) (fs : Fs) (ip : Inode) (bn addr : ℕ) (ip' : Inode) (fs' : Fs)
    (l : List ℕ) : Prop where
  run : ∀ f p, Run sb f p p l fs ip fs' ip'
  lookup : lookup fs' ip' bn = addr
  full : addr = 0 → Full sb fs'
  mapped : ∀ x ∈ l, Mapped sb ip' addr x
  found : Content.lookup fs ip bn ≠ 0 → l = []
  only : ∀ s < nslots, s ≠ NDIRECT → s ≠ slotOf bn → slot fs' ip' s = slot fs ip s

section

variable (hr : Reserved sb fs) (hs : Slots sb fs ip)
include hr hs

lemma bmapAddr_spec (hi : i ≤ NDIRECT) :
    ∃ l, (∀ f p, Run sb f p p l fs ip (bmapAddr sb fs ip i).2.2 (bmapAddr sb fs ip i).2.1) ∧
      (bmapAddr sb fs ip i).2.1.addrs i = (bmapAddr sb fs ip i).1 ∧
      ((bmapAddr sb fs ip i).1 = 0 → Full sb (bmapAddr sb fs ip i).2.2) ∧
      (∀ x ∈ l, (bmapAddr sb fs ip i).1 ≠ 0 ∧
        (x = (bmapAddr sb fs ip i).1 ∨ x = sb.bblock (bmapAddr sb fs ip i).1)) ∧
      (ip.addrs i ≠ 0 → l = []) ∧ ∀ s < nslots, s ≠ i →
        slot (bmapAddr sb fs ip i).2.2 (bmapAddr sb fs ip i).2.1 s = slot fs ip s := by
  unfold bmapAddr
  by_cases hzero : ip.addrs i = 0
  · rw [if_pos hzero]
    rcases balloc_spec hr with ⟨heq, hfull⟩ | ⟨hne, hb⟩
    · rw [heq]
      exact ⟨[], fun f p => .refl f p hs, hzero, fun _ => hfull,
        fun x hx => absurd hx List.not_mem_nil, fun h => absurd hzero h, fun _ _ _ => rfl⟩
    have halloc := hb.allocAt_addr hs hi hzero
    have hnot : ¬NDIRECT < i := by omega
    rw [if_neg hne]
    refine ⟨_, fun f p => halloc.run hs (fun h => absurd h hnot) f p, update_self _ _ _,
      fun h => absurd h hne, fun x hx => ?_, fun h => absurd hzero h, halloc.other⟩
    rcases mem_allocLogged hx with hx | hx | ⟨hlt, -⟩
    · exact ⟨hne, .inr hx⟩
    · exact ⟨hne, .inl hx⟩
    · exact absurd hlt hnot
  · rw [if_neg hzero]
    exact ⟨[], fun f p => .refl f p hs, rfl, fun h => absurd h hzero,
      fun x hx => absurd hx List.not_mem_nil, fun _ => rfl, fun _ _ _ => rfl⟩

lemma bmapEntry_spec {k : ℕ} (hk : k < NINDIRECT)
    (hind : ip.addrs NDIRECT ≠ 0) :
    ∃ l, (∀ f p, Run sb f p p l fs ip (bmapEntry sb fs (ip.addrs NDIRECT) k).2 ip) ∧
      slot (bmapEntry sb fs (ip.addrs NDIRECT) k).2 ip (NDIRECT + 1 + k) =
        (bmapEntry sb fs (ip.addrs NDIRECT) k).1 ∧ ((bmapEntry sb fs (ip.addrs NDIRECT) k).1 = 0 →
        Full sb (bmapEntry sb fs (ip.addrs NDIRECT) k).2) ∧
      (∀ x ∈ l, Mapped sb ip (bmapEntry sb fs (ip.addrs NDIRECT) k).1 x) ∧
      (slot fs ip (NDIRECT + 1 + k) ≠ 0 → l = []) ∧ ∀ s < nslots, s ≠ NDIRECT + 1 + k →
        slot (bmapEntry sb fs (ip.addrs NDIRECT) k).2 ip s = slot fs ip s := by
  have hslot : slot fs ip (NDIRECT + 1 + k) = (fs.data (ip.addrs NDIRECT)).getLE 4 (4 * k) := by
    rw [slot, if_neg (by omega), if_neg hind, Nat.add_sub_cancel_left]
  have hslotd : slot fs ip NDIRECT = ip.addrs NDIRECT := if_pos le_rfl
  unfold bmapEntry
  by_cases hzero : (fs.data (ip.addrs NDIRECT)).getLE 4 (4 * k) = 0
  · rw [if_pos hzero]
    rcases balloc_spec hr with ⟨heq, hfull⟩ | ⟨hne, hb⟩
    · rw [heq]
      exact ⟨[], fun f p => .refl f p hs, hslot.trans hzero, fun _ => hfull,
        fun x hx => absurd hx List.not_mem_nil, fun h => absurd (hslot.trans hzero) h,
        fun _ _ _ => rfl⟩
    have halloc := hb.allocAt_entry hs hk hind hzero
    rw [if_neg hne]
    refine ⟨_, fun f p => halloc.run hs (fun _ => by rwa [hslotd]) f p, halloc.self,
      fun h => absurd h hne, fun x hx => ?_, fun h => absurd (hslot.trans hzero) h,
      halloc.other⟩
    rcases mem_allocLogged hx with hx | hx | ⟨-, hx⟩
    · exact .inl ⟨hne, .inr hx⟩
    · exact .inl ⟨hne, .inl hx⟩
    · exact .inr ⟨hind, .inl (hx.trans hslotd)⟩
  · rw [if_neg hzero]
    exact ⟨[], fun f p => .refl f p hs, hslot, fun h => absurd h hzero,
      fun x hx => absurd hx List.not_mem_nil, fun _ => rfl, fun _ _ _ => rfl⟩

/-- `bmap` finds the block of the file, or allocates what is missing of the way to it. -/
lemma bmap_spec {bn : ℕ} (hbn : bn < MAXFILE) :
    ∃ addr ip' fs' l, bmap sb fs ip bn = some (addr, ip', fs') ∧ Bmap sb fs ip bn addr ip' fs' l := by
  have hbn' : bn < 268 := hbn
  unfold bmap
  by_cases hd : bn < NDIRECT
  · have hd' : bn < 12 := hd
    have hslot : ∀ g j, lookup g j bn = j.addrs bn := fun g j => by
      rw [lookup, slotOf, if_pos hd, slot, if_pos (by omega)]
    obtain ⟨l, hrun, haddr, hfull, hl, hfound, honly⟩ := bmapAddr_spec hr hs (i := bn) (by omega)
    rw [if_pos hd]
    generalize bmapAddr sb fs ip bn = r at hrun haddr hfull hl honly
    refine ⟨_, _, _, l, rfl, hrun, ?_, hfull, fun x hx => .inl (hl x hx), ?_, fun s hlt _ hs => ?_⟩
    · rw [hslot]
      exact haddr
    · rwa [hslot]
    · rw [slotOf, if_pos hd] at hs
      exact honly s hlt hs
  · have hd' : ¬bn < 12 := hd
    have hslot : ∀ g j, lookup g j bn = slot g j (NDIRECT + 1 + (bn - NDIRECT)) := fun g j => by
      rw [lookup, slotOf, if_neg hd]
      congr 1
      omega
    have hk : bn - NDIRECT < NINDIRECT := by
      change bn - 12 < 256
      omega
    rw [if_neg hd, if_pos hk]
    obtain ⟨l, hrun, haddr, hfull, hl, hfound, honly⟩ := bmapAddr_spec hr hs (i := NDIRECT) le_rfl
    have hfound' : lookup fs ip bn ≠ 0 → ip.addrs NDIRECT ≠ 0 := by
      intro hne hzero
      refine hne ?_
      rw [hslot, slot, if_neg (by omega), if_pos hzero]
    generalize bmapAddr sb fs ip NDIRECT = r at hrun haddr hfull hl honly
    obtain ⟨addr, ip1, fs1⟩ := r
    by_cases hzero : addr = 0
    · refine ⟨_, _, _, l, if_pos hzero, hrun, ?_, hfull, fun x hx => .inl (hl x hx),
        fun hne => hfound (hfound' hne), fun s hlt hs _ => honly s hlt hs⟩
      rw [hslot, slot, if_neg (by omega), if_pos (haddr.trans hzero), hzero]
    have hind : ip1.addrs NDIRECT ≠ 0 := by rwa [haddr]
    have hrun1 := hrun (fun _ => 0) 0
    obtain ⟨l', hrun', hslot', hfull', hl', hfound'', honly'⟩ :=
      bmapEntry_spec (hrun1.reserved hr) hrun1.slots hk hind
    rw [haddr] at hrun' hslot' hfull' hl' honly'
    refine ⟨_, _, _, l ++ l', if_neg hzero, fun f p => ?_, ?_, hfull', fun x hx => ?_,
      fun hne => ?_, fun s hlt hs1 hs2 => ?_⟩
    · exact (hrun f p).trans (hrun' f p) le_rfl le_rfl fun i hi hi' => absurd hi' (by omega)
    · rw [hslot]
      exact hslot'
    · rcases List.mem_append.mp hx with hx | hx
      · obtain ⟨h1, h2⟩ := hl x hx
        exact .inr (by rw [haddr]; exact ⟨h1, h2⟩)
      · exact hl' x hx
    · have hl0 := hfound (hfound' hne)
      have hkeep := hrun1.ext.lookup hbn hne
      rw [hl0, hfound'' (by rw [← hslot]; rwa [hkeep])]
      rfl
    · refine (honly' s hlt fun hs => hs2 ?_).trans (honly s hlt hs1)
      rw [hs, slotOf, if_neg hd]
      omega

end

end Content

end Xv6
