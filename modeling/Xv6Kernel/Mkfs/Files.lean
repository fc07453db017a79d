import Xv6Kernel.Mkfs.Blocks

/-!
# Appending to files

`Files` says that the inodes hold given contents.
-/

namespace Xv6

open Function

namespace Mkfs

variable {a : Append} {q p : List UInt8} {fuel off : ℕ}

/-- The number of blocks of a file of `n` bytes. -/
def nblk (n : ℕ) : ℕ := (n + (BSIZE - 1)) / BSIZE

structure Files (d : Disk) (D : Fin NINODES → Dinode) (data : Fin NINODES → List UInt8) (fb : ℕ) :
    Prop where
  blocks : Blocks d D (fun i => nblk (data i).length) fb
  bytes : ∀ i y, y < (data i).length →
    (d (addrOf d (D i) (y / BSIZE))).get (y % BSIZE) = (data i).getD y 0

section Files

variable {d d' : Disk} {D D' : Fin NINODES → Dinode} {data : Fin NINODES → List UInt8} {fb : ℕ}
  {i : Fin NINODES}

lemma Files.congr (h : Files d D data fb) (hd : ∀ b, nmeta ≤ b → d' b = d b)
    (hD : ∀ i k, k ≤ NDIRECT → (D' i).addr k = (D i).addr k) : Files d' D' data fb := by
  have hind : ∀ i, NDIRECT < nblk (data i).length →
      d' ((D' i).addr NDIRECT) = d ((D i).addr NDIRECT) := fun i hi => by
    rw [hD i _ le_rfl]
    exact hd _ (h.blocks.slots.alloc i none hi).1
  have haddr : ∀ i k, (k < NDIRECT ∨ NDIRECT < nblk (data i).length) →
      addrOf d' (D' i) k = addrOf d (D i) k := by
    intro i k hk
    unfold addrOf
    by_cases hlt : k < NDIRECT
    · rw [if_pos hlt, if_pos hlt, hD i k hlt.le]
    · rw [if_neg hlt, if_neg hlt, hind i (hk.resolve_left hlt)]
  have hslot : ∀ i o, Live (nblk (data i).length) o →
      slotAddr d' (D' i) o = slotAddr d (D i) o := by
    intro i o ho
    cases o with
    | none => exact hD i _ le_rfl
    | some k =>
      have ho : k < nblk (data i).length := ho
      exact haddr i k (by omega)
  refine ⟨⟨h.blocks.bound, ⟨fun j o ho => ?_, fun j j' o o' ho ho' he => ?_⟩, fun j k hj hk => ?_,
    fun j hj => ?_, fun j k hj hk hm => ?_, fun b hb => ?_⟩, fun j y hy => ?_⟩
  · simp only [hslot j o ho]
    exact h.blocks.slots.alloc j o ho
  · simp only [hslot j o ho, hslot j' o' ho'] at he
    exact h.blocks.slots.inj j j' o o' ho ho' he
  · rw [hD j k hk.le]
    exact h.blocks.direct j k hj hk
  · rw [hD j _ le_rfl]
    exact h.blocks.indirect j hj
  · rw [haddr j k (.inr hj)]
    exact h.blocks.entries j k hj hk hm
  · rw [hd b (h.blocks.bound.trans hb)]
    exact h.blocks.fresh b hb
  · have hk : y / BSIZE < nblk (data j).length := by
      change y / 1024 < ((data j).length + 1023) / 1024
      omega
    have hmeta : nmeta ≤ addrOf d (D j) (y / BSIZE) := (h.blocks.slots.alloc j (some _) hk).1
    rw [haddr j _ (by omega), hd _ hmeta]
    exact h.bytes j y hy

lemma Files.place (h : Files d D data fb) (hfb : fb < 2 ^ 31)
    (hm : (data i).length / BSIZE < MAXFILE) (hq : q ≠ [])
    (hlen : q.length ≤ BSIZE - (data i).length % BSIZE) :
    ∃ x a, Append.place ⟨d, fb, D i⟩ ((data i).length / BSIZE) = (x, a) ∧
      Blocks a.disk (update D i a.din)
        (fun j => nblk (update data i (data i ++ q) j).length) a.freeblock ∧
      x = addrOf a.disk a.din ((data i).length / BSIZE) ∧ fb ≤ a.freeblock ∧
      (∀ j k, k < nblk (data j).length → addrOf a.disk (update D i a.din j) k = addrOf d (D j) k ∧
        a.disk (addrOf d (D j) k) = d (addrOf d (D j) k)) ∧ (∀ b, b < nmeta → a.disk b = d b) ∧
      ∀ w o, o + w ≤ 12 → a.din.getLE w o = (D i).getLE w o := by
  have hq' : 0 < q.length := List.length_pos_iff.mpr hq
  have hlen' : q.length ≤ 1024 - (data i).length % 1024 := hlen
  have hcnt : (fun j => nblk (update data i (data i ++ q) j).length) =
      update (fun j => nblk (data j).length) i ((data i).length / BSIZE + 1) := by
    funext j
    by_cases hji : j = i
    · subst hji
      rw [update_self, update_self, List.length_append]
      change ((data j).length + q.length + 1023) / 1024 = (data j).length / 1024 + 1
      omega
    · rw [update_of_ne hji, update_of_ne hji]
  rw [hcnt]
  by_cases hr : (data i).length % BSIZE = 0
  · -- the file ends with a whole block: the next one is allocated
    have hr' : (data i).length % 1024 = 0 := hr
    have hc : (data i).length / BSIZE = nblk (data i).length := by
      change (data i).length / 1024 = ((data i).length + 1023) / 1024
      omega
    have hp := h.blocks.place (i := i) (hc ▸ hm) hfb
    rw [hc]
    exact ⟨(Append.place ⟨d, fb, D i⟩ (nblk (data i).length)).1,
      (Append.place ⟨d, fb, D i⟩ (nblk (data i).length)).2, rfl, hp.blocks, hp.addr, hp.le,
      fun j k hk => ⟨hp.same j k hk, hp.data j k hk⟩, hp.front, hp.head⟩
  · have hr' : (data i).length % 1024 ≠ 0 := hr
    have hc : (data i).length / BSIZE + 1 = nblk (data i).length := by
      change (data i).length / 1024 + 1 = ((data i).length + 1023) / 1024
      omega
    refine ⟨_, _, h.blocks.place_of_lt (i := i) (by omega), ?_, rfl, le_rfl,
      fun j k hk => ⟨?_, rfl⟩, fun _ _ => rfl, fun _ _ _ => rfl⟩
    · rw [hc, update_eq_self, update_eq_self]
      exact h.blocks
    · rw [update_eq_self]

/-- What a number of rounds of `iappend` on the inode `i` has done: the bytes `p` are appended. -/
structure Appended (d : Disk) (D : Fin NINODES → Dinode) (data : Fin NINODES → List UInt8) (fb : ℕ)
    (i : Fin NINODES) (p : List UInt8) (a : Append) : Prop where
  files : Files a.disk (update D i a.din) (update data i (data i ++ p))
    a.freeblock
  le : fb ≤ a.freeblock
  front : ∀ b, b < nmeta → a.disk b = d b
  head : ∀ w o, o + w ≤ 12 → a.din.getLE w o = (D i).getLE w o

lemma Files.round (h : Files d D data fb) (hfb : fb < 2 ^ 31)
    (hm : (data i).length / BSIZE < MAXFILE) (hq : q ≠ [])
    (hlen : q.length ≤ BSIZE - (data i).length % BSIZE) : Appended d D data fb i q
      ((Append.place ⟨d, fb, D i⟩ ((data i).length / BSIZE)).2.copy
        (Append.place ⟨d, fb, D i⟩ ((data i).length / BSIZE)).1 ((data i).length % BSIZE) q) := by
  obtain ⟨x, a, hpl, hblocks, hx, hle, hold, hfront, hhead⟩ := h.place hfb hm hq hlen
  rw [hpl]
  have hlen' : q.length ≤ 1024 - (data i).length % 1024 := hlen
  have hq' : 0 < q.length := List.length_pos_iff.mpr hq
  have hxlive : (data i).length / BSIZE < nblk (update data i (data i ++ q) i).length := by
    rw [update_self, List.length_append]
    change (data i).length / 1024 < ((data i).length + q.length + 1023) / 1024
    omega
  have hx' : x = addrOf a.disk (update D i a.din i) ((data i).length / BSIZE) := by
    rw [update_self]
    exact hx
  obtain ⟨hw, hwaddr⟩ := hblocks.write (i := i) hxlive
    ((a.disk x).blit ((data i).length % BSIZE) q)
  rw [← hx'] at hw hwaddr
  have hxmeta : nmeta ≤ x := by
    rw [hx']
    exact (hblocks.slots.alloc i (some _) hxlive).1
  refine ⟨⟨hw, fun j y hy => ?_⟩, hle, fun b hb => ?_, hhead⟩
  · have hylive : y / BSIZE < nblk (update data i (data i ++ q) j).length := by
      change y / 1024 < ((update data i (data i ++ q) j).length + 1023) / 1024
      omega
    change Bytes.get (wsect a.disk x ((a.disk x).blit ((data i).length % BSIZE) q)
      (addrOf (wsect a.disk x ((a.disk x).blit ((data i).length % BSIZE) q))
        (update D i a.din j) (y / BSIZE))) (y % BSIZE) = _
    rw [hwaddr j _ hylive]
    by_cases hat : j = i ∧ y / BSIZE = (data i).length / BSIZE
    · -- the byte lies in the block that is written
      obtain ⟨rfl, hyb⟩ := hat
      have hyb' : y / 1024 = (data j).length / 1024 := hyb
      rw [hyb, ← hx', wsect, update_self]
      rw [update_self, List.length_append] at hy
      rw [update_self, Bytes.get_blit _ (by change _ % 1024 + _ ≤ 1024; omega)]
      by_cases hnew : (data j).length ≤ y
      · rw [if_pos (by change _ % 1024 ≤ y % 1024 ∧ y % 1024 < _ % 1024 + _; omega),
          show y % BSIZE - (data j).length % BSIZE = y - (data j).length by
            change y % 1024 - (data j).length % 1024 = _; omega,
          List.getD_append_right _ _ _ _ hnew]
      rw [if_neg (by change ¬(_ % 1024 ≤ y % 1024 ∧ y % 1024 < _ % 1024 + _); omega),
        List.getD_append _ _ _ _ (by omega)]
      have hlive : y / BSIZE < nblk (data j).length := by
        change y / 1024 < ((data j).length + 1023) / 1024
        omega
      obtain ⟨hsame, hdata⟩ := hold j (y / BSIZE) hlive
      rw [hyb, ← hx'] at hsame
      rw [← h.bytes j y (by omega), hyb, ← hsame]
      rw [hyb, ← hsame] at hdata
      rw [hdata]
    · have hne : addrOf a.disk (update D i a.din j) (y / BSIZE) ≠ x := by
        intro he
        rw [hx'] at he
        obtain ⟨hji, ho⟩ := hblocks.slots.inj j i (some _) (some _) hylive hxlive he
        exact hat ⟨hji, Option.some.inj ho⟩
      rw [wsect, update_of_ne hne]
      have hyold : y < (data j).length ∧
          (update data i (data i ++ q) j).getD y 0 = (data j).getD y 0 := by
        by_cases hji : j = i
        · subst hji
          rw [update_self, List.length_append] at hy
          have hyb : y / 1024 ≠ (data j).length / 1024 := fun he => hat ⟨rfl, he⟩
          have hlt : y < (data j).length := by omega
          exact ⟨hlt, by rw [update_self, List.getD_append _ _ _ _ hlt]⟩
        · rw [update_of_ne hji] at hy ⊢
          exact ⟨hy, rfl⟩
      have hlive : y / BSIZE < nblk (data j).length := by
        change y / 1024 < ((data j).length + 1023) / 1024
        omega
      obtain ⟨hsame, hdata⟩ := hold j (y / BSIZE) hlive
      rw [hyold.2, hsame, hdata]
      exact h.bytes j y hyold.1
  · change wsect a.disk x _ b = d b
    rw [wsect, update_of_ne (by omega)]
    exact hfront b hb

end Files

/-! ## The loop of `iappend` -/

namespace Append

lemma le_place (a : Append) (k : ℕ) : a.freeblock ≤ (a.place k).2.freeblock := by
  have hdir : ∀ (a : Append) k, a.freeblock ≤ (a.direct k).freeblock := by
    intro a k
    unfold direct
    split
    · exact Nat.le_succ _
    · exact le_rfl
  unfold place
  split
  · exact hdir a k
  refine (hdir a NDIRECT).trans ?_
  change _ ≤ (indirect _ _).freeblock
  unfold indirect
  split
  · exact Nat.le_succ _
  · exact le_rfl

lemma le_loop {a' : Append} {off' : ℕ}
    (h : loop fuel a off p = some (a', off')) : a.freeblock ≤ a'.freeblock := by
  induction fuel generalizing a off p with
  | zero =>
    cases h
    exact le_rfl
  | succ fuel ih =>
    rw [loop] at h
    split at h
    · cases h
      exact le_rfl
    simp only at h
    split at h
    · have hrest := ih h
      exact (le_place a (off / BSIZE)).trans hrest
    · cases h

end Append

lemma Files.loop {d : Disk} {D : Fin NINODES → Dinode} {data : Fin NINODES → List UInt8} {fb : ℕ}
    {i : Fin NINODES} (h : Files d D data fb) (hp : p.length ≤ fuel)
    (hmax : (data i).length ≤ MAXFILE * BSIZE)
    (hloop : Append.loop fuel ⟨d, fb, D i⟩ (data i).length p = some (a, off))
    (hfb : a.freeblock ≤ FSSIZE) :
    Appended d D data fb i p a ∧ off = (data i).length + p.length ∧ off ≤ MAXFILE * BSIZE := by
  -- what a loop that has nothing to append leaves
  have hnil : ∀ {d D data fb}, Files d D data fb → (data i).length ≤ MAXFILE * BSIZE →
      Appended d D data fb i [] ⟨d, fb, D i⟩ ∧ (data i).length = (data i).length + 0 ∧
        (data i).length ≤ MAXFILE * BSIZE := by
    intro d D data fb h hmax
    refine ⟨⟨?_, le_rfl, fun _ _ => rfl, fun _ _ _ => rfl⟩, rfl, hmax⟩
    rw [List.append_nil, update_eq_self, update_eq_self]
    exact h
  induction fuel generalizing d D data fb p with
  | zero =>
    obtain rfl : p = [] := List.length_eq_zero_iff.mp (by omega)
    cases hloop
    exact hnil h hmax
  | succ fuel ih =>
    rw [Append.loop] at hloop
    split at hloop
    · rename_i hpe
      subst hpe
      cases hloop
      exact hnil h hmax
    rename_i hpe
    have hpos : 0 < p.length := List.length_pos_iff.mpr hpe
    simp only at hloop
    split at hloop
    · rename_i hm
      have hm' : (data i).length / 1024 < 268 := hm
      obtain ⟨n1, hn1⟩ : ∃ n1, n1 = min p.length
        (((data i).length / BSIZE + 1) * BSIZE - (data i).length) := ⟨_, rfl⟩
      have hn1' : n1 = min p.length (((data i).length / 1024 + 1) * 1024 - (data i).length) := hn1
      rw [← hn1] at hloop
      have hoff : (data i).length - (data i).length / BSIZE * BSIZE =
          (data i).length % BSIZE := by
        change (data i).length - (data i).length / 1024 * 1024 = (data i).length % 1024
        omega
      rw [hoff] at hloop
      have htake : (p.take n1).length = n1 := by
        rw [List.length_take]
        omega
      have hround := h.round (i := i) (q := p.take n1)
        (by
          have h1 := Append.le_loop hloop
          have h2 := Append.le_place ⟨d, fb, D i⟩ ((data i).length / BSIZE)
          change fb < 2147483648
          change _ ≤ 2000 at hfb
          change fb ≤ _ at h2
          change Append.freeblock (Append.place _ _).2 ≤ _ at h1
          omega)
        hm (fun he => by rw [he] at htake; simp at htake; omega)
        (by rw [htake]; change n1 ≤ 1024 - (data i).length % 1024; omega)
      generalize hb : (Append.place ⟨d, fb, D i⟩ ((data i).length / BSIZE)).2.copy
        (Append.place ⟨d, fb, D i⟩ ((data i).length / BSIZE)).1 ((data i).length % BSIZE)
        (p.take n1) = b at hround hloop
      have hlen : (update data i (data i ++ p.take n1) i).length =
          (data i).length + n1 := by
        rw [update_self, List.length_append, htake]
      have hb' : (⟨b.disk, b.freeblock, update D i b.din i⟩ : Append) = b := by
        rw [update_self]
      have hdrop : (p.drop n1).length ≤ fuel := by
        rw [List.length_drop]
        omega
      obtain ⟨happ, hoff', hmax'⟩ := ih hround.files hdrop
        (by rw [hlen]; change _ ≤ 268 * 1024; omega) (by rw [hb', hlen]; exact hloop)
      refine ⟨⟨?_, hround.le.trans happ.le,
        fun c hc => (happ.front c hc).trans (hround.front c hc),
        fun w o hw => (happ.head w o hw).trans ?_⟩, ?_, hmax'⟩
      · have hf := happ.files
        rwa [update_idem, update_idem, update_self, List.append_assoc,
          List.take_append_drop] at hf
      · rw [update_self]
        exact hround.head w o hw
      · rw [hoff', hlen, List.length_drop]
        omega
    · cases hloop

end Mkfs

end Xv6
