import Xv6Kernel.Mkfs.Image

/-!
# Block addresses in the image

An inode has a slot for each of its blocks, and one for its indirect block.  `Slots` says that the
slots in use have different addresses, all of them allocated; `Blocks` adds that the other addresses
are zero.
-/

namespace Xv6

open Function

variable {c j y : ℕ}

namespace Mkfs

/-! ## Inodes -/

namespace Dinode

variable {din : Dinode} {k b : ℕ}

lemma addr_setAddr (hk : k ≤ 12) (hb : b < 2 ^ 32) : Dinode.addr (Dinode.setAddr din k b) k = b := by
  unfold Dinode.addr Dinode.setAddr
  rw [Bytes.getLE_setLE 4 _ _ _ (by omega)]
  exact Nat.mod_eq_of_lt (by simpa using hb)

lemma addr_setAddr_of_ne (h : j ≠ k) :
    Dinode.addr (Dinode.setAddr din k b) j = Dinode.addr din j :=
  Bytes.getLE_setLE_of_disjoint 4 4 _ _ _ _ (by omega)

lemma addr_setSize (n j : ℕ) : Dinode.addr (Dinode.setSize din n) j = Dinode.addr din j :=
  Bytes.getLE_setLE_of_disjoint 4 4 _ _ _ _ (by omega)

lemma size_setSize {n : ℕ} (hn : n < 2 ^ 32) : Dinode.size (Dinode.setSize din n) = n := by
  unfold Dinode.size Dinode.setSize
  rw [Bytes.getLE_setLE 4 _ _ _ (by omega)]
  exact Nat.mod_eq_of_lt (by simpa using hn)

end Dinode

lemma rinode_winode_self (d : Disk) (i : ℕ) (din : Dinode) : rinode (winode d i din) i = din := by
  unfold rinode winode wsect
  rw [update_self]
  refine Bytes.slice_paste_self _ _ ?_
  have : i % 16 < 16 := Nat.mod_lt _ (by decide)
  change i % 16 * 64 + 64 ≤ 1024
  omega

lemma rinode_winode_of_ne (d : Disk) {i : ℕ} (din : Dinode) (h : j ≠ i) :
    rinode (winode d i din) j = rinode d j := by
  unfold rinode winode wsect
  have hi : i % 16 < 16 := Nat.mod_lt _ (by decide)
  have hj : j % 16 < 16 := Nat.mod_lt _ (by decide)
  by_cases hb : iblock j = iblock i
  · rw [hb, update_self]
    have hb' : j / 16 + 32 = i / 16 + 32 := hb
    refine Bytes.slice_paste_of_disjoint _ _ ?_ ?_
    · change i % 16 * 64 + 64 ≤ 1024
      omega
    · change j % 16 * 64 + 64 ≤ i % 16 * 64 ∨ i % 16 * 64 + 64 ≤ j % 16 * 64
      omega
  · rw [update_of_ne hb]

lemma iblock_lt {i : ℕ} (h : i < NINODES) : iblock i < bmapstart := by
  have h : i < 200 := h
  change i / 16 + 32 < 45
  omega

lemma le_iblock (i : ℕ) : inodestart ≤ iblock i := Nat.le_add_left _ _

lemma rinode_congr {d d' : Disk} {i : ℕ} (h : d' (iblock i) = d (iblock i)) :
    rinode d' i = rinode d i := by
  unfold rinode
  rw [h]

/-! ## Slots -/

def addrOf (d : Disk) (din : Dinode) (k : ℕ) : ℕ :=
  if k < NDIRECT then din.addr k else (d (din.addr NDIRECT)).getLE 4 (4 * (k - NDIRECT))

def slotAddr (d : Disk) (din : Dinode) : Option ℕ → ℕ
  | none => din.addr NDIRECT
  | some k => addrOf d din k

/-- The slots in use by a file of `c` blocks. -/
def Live (c : ℕ) : Option ℕ → Prop
  | none => NDIRECT < c
  | some k => k < c

structure Slots (S : Fin NINODES → Option ℕ → ℕ) (cnt : Fin NINODES → ℕ) (fb : ℕ) : Prop where
  alloc : ∀ i o, Live (cnt i) o → nmeta ≤ S i o ∧ S i o < fb
  inj : ∀ i j o o', Live (cnt i) o → Live (cnt j) o' → S i o = S j o' → i = j ∧ o = o'

lemma Slots.extend {S S' : Fin NINODES → Option ℕ → ℕ} {cnt : Fin NINODES → ℕ} {fb fb' : ℕ}
    (h : Slots S cnt fb) {i : Fin NINODES} (hmeta : nmeta ≤ fb) (hfb : fb ≤ fb')
    (hold : ∀ j o, Live (cnt j) o → S' j o = S j o)
    (hnew : ∀ o, Live c o → ¬Live (cnt i) o → fb ≤ S' i o ∧ S' i o < fb')
    (hinj : ∀ o o', Live c o → ¬Live (cnt i) o → Live c o' → ¬Live (cnt i) o' →
      S' i o = S' i o' → o = o') : Slots S' (update cnt i c) fb' := by
  -- a slot in use was in use before, or it is one of the new ones
  have hcases : ∀ j o, Live (update cnt i c j) o →
      Live (cnt j) o ∨ (j = i ∧ Live c o ∧ ¬Live (cnt i) o) := by
    intro j o hj
    by_cases hji : j = i
    · subst hji
      rw [update_self] at hj
      by_cases hl : Live (cnt j) o
      · exact .inl hl
      · exact .inr ⟨rfl, hj, hl⟩
    · rw [update_of_ne hji] at hj
      exact .inl hj
  refine ⟨fun j o hj => ?_, fun j k o o' hj hk he => ?_⟩
  · rcases hcases j o hj with hl | ⟨rfl, hc, hl⟩
    · rw [hold j o hl]
      have := h.alloc j o hl
      omega
    · have := hnew o hc hl
      omega
  · rcases hcases j o hj with hl | ⟨rfl, hc, hl⟩ <;>
      rcases hcases k o' hk with hl' | ⟨rfl, hc', hl'⟩
    · rw [hold j o hl, hold k o' hl'] at he
      exact h.inj j k o o' hl hl' he
    · rw [hold j o hl] at he
      have h1 := h.alloc j o hl
      have h2 := hnew o' hc' hl'
      omega
    · rw [hold k o' hl'] at he
      have h1 := h.alloc k o' hl'
      have h2 := hnew o hc hl
      omega
    · exact ⟨rfl, hinj o o' hc hl hc' hl' he⟩

structure Blocks (d : Disk) (D : Fin NINODES → Dinode) (cnt : Fin NINODES → ℕ) (fb : ℕ) :
    Prop where
  bound : nmeta ≤ fb
  slots : Slots (fun i => slotAddr d (D i)) cnt fb
  direct : ∀ i k, cnt i ≤ k → k < NDIRECT → (D i).addr k = 0
  indirect : ∀ i, cnt i ≤ NDIRECT → (D i).addr NDIRECT = 0
  entries : ∀ i k, NDIRECT < cnt i → cnt i ≤ k → k < MAXFILE → addrOf d (D i) k = 0
  fresh : ∀ b, fb ≤ b → d b = Bytes.zero _

section Place

variable {d d' : Disk} {D : Fin NINODES → Dinode} {cnt : Fin NINODES → ℕ} {fb : ℕ}
  {i : Fin NINODES}

lemma addrOf_congr {din : Dinode} {k : ℕ}
    (h : NDIRECT ≤ k → d' (din.addr NDIRECT) = d (din.addr NDIRECT)) :
    addrOf d' din k = addrOf d din k := by
  unfold addrOf
  split
  · rfl
  · rw [h (by omega)]

lemma slotAddr_congr {din : Dinode} {o : Option ℕ} (ho : Live c o)
    (h : NDIRECT < c → d' (din.addr NDIRECT) = d (din.addr NDIRECT)) :
    slotAddr d' din o = slotAddr d din o := by
  cases o with
  | none => rfl
  | some k =>
    refine addrOf_congr fun hk => h ?_
    have ho : k < c := ho
    omega

section

variable (h : Blocks d D cnt fb)
include h

lemma Blocks.write {k : ℕ} (hk : k < cnt i) (blk : Block) :
    Blocks (wsect d (addrOf d (D i) k) blk) D cnt fb ∧
      ∀ j l, l < cnt j → addrOf (wsect d (addrOf d (D i) k) blk) (D j) l = addrOf d (D j) l := by
  have hx := h.slots.alloc i (some k) hk
  have hne : ∀ j, NDIRECT < cnt j →
      wsect d (addrOf d (D i) k) blk ((D j).addr NDIRECT) = d ((D j).addr NDIRECT) := by
    intro j hj
    refine update_of_ne (fun he => ?_) _ _
    have := (h.slots.inj j i none (some k) hj hk he).2
    cases this
  have hsame : ∀ j o, Live (cnt j) o →
      slotAddr (wsect d (addrOf d (D i) k) blk) (D j) o = slotAddr d (D j) o :=
    fun j o ho => slotAddr_congr ho (hne j)
  refine ⟨⟨h.bound, ⟨fun j o ho => ?_, fun j j' o o' ho ho' he => ?_⟩, h.direct, h.indirect,
    fun j l hj hl hm => ?_, fun b hb => ?_⟩, fun j l hl => hsame j (some l) hl⟩
  · simp only [hsame j o ho]
    exact h.slots.alloc j o ho
  · simp only [hsame j o ho, hsame j' o' ho'] at he
    exact h.slots.inj j j' o o' ho ho' he
  · rw [addrOf_congr fun _ => hne j hj]
    exact h.entries j l hj hl hm
  · have hlt : addrOf d (D i) k < fb := hx.2
    rw [wsect, update_of_ne (by omega)]
    exact h.fresh b hb

lemma Blocks.addrOf_ne_zero {k : ℕ} (hk : k < cnt i) :
    addrOf d (D i) k ≠ 0 := by
  have h1 : 46 ≤ addrOf d (D i) k := (h.slots.alloc i (some k) hk).1
  omega

lemma Blocks.addr_ne_zero (hk : NDIRECT < cnt i) :
    (D i).addr NDIRECT ≠ 0 := by
  have h1 : 46 ≤ (D i).addr NDIRECT := (h.slots.alloc i none hk).1
  omega

lemma Blocks.place_of_lt {k : ℕ} (hk : k < cnt i) :
    Append.place ⟨d, fb, D i⟩ k = (addrOf d (D i) k, ⟨d, fb, D i⟩) := by
  have hne := h.addrOf_ne_zero hk
  unfold Append.place addrOf
  unfold addrOf at hne
  by_cases hlt : k < NDIRECT
  · rw [if_pos hlt] at hne ⊢
    rw [if_pos hlt]
    simp only [Append.direct, if_neg hne]
  rw [if_neg hlt] at hne ⊢
  rw [if_neg hlt]
  have hind := h.addr_ne_zero (i := i) (by omega)
  simp only [Append.direct, if_neg hind, Append.indirect, Append.entry, if_neg hne]

end

structure Placed (d : Disk) (D : Fin NINODES → Dinode) (cnt : Fin NINODES → ℕ) (fb : ℕ)
    (i : Fin NINODES) (x : ℕ) (a : Append) : Prop where
  blocks : Blocks a.disk (update D i a.din) (update cnt i (cnt i + 1)) a.freeblock
  addr : x = addrOf a.disk a.din (cnt i)
  le : fb ≤ a.freeblock
  same : ∀ j k, k < cnt j → addrOf a.disk (update D i a.din j) k = addrOf d (D j) k
  data : ∀ j k, k < cnt j → a.disk (addrOf d (D j) k) = d (addrOf d (D j) k)
  front : ∀ b, b < nmeta → a.disk b = d b
  head : ∀ w o, o + w ≤ 12 → a.din.getLE w o = (D i).getLE w o

lemma getLE_setAddr (din : Dinode) (k b : ℕ) {w o : ℕ} (h : o + w ≤ 12) :
    (din.setAddr k b).getLE w o = din.getLE w o :=
  Bytes.getLE_setLE_of_disjoint 4 w _ _ _ _ (by omega)

lemma Blocks.placeDirect (h : Blocks d D cnt fb) (hc : cnt i < NDIRECT) (hfb : fb < 2 ^ 31) :
    Placed d D cnt fb i fb ⟨d, fb + 1, (D i).setAddr (cnt i) fb⟩ := by
  have hc' : cnt i < 12 := hc
  have haddr : ∀ k, k ≠ cnt i → ((D i).setAddr (cnt i) fb).addr k = (D i).addr k :=
    fun k hk => Dinode.addr_setAddr_of_ne hk
  have hself : ((D i).setAddr (cnt i) fb).addr (cnt i) = fb :=
    Dinode.addr_setAddr (by omega) (by omega)
  have hne : NDIRECT ≠ cnt i := by
    change 12 ≠ cnt i
    omega
  have hnew : addrOf d ((D i).setAddr (cnt i) fb) (cnt i) = fb := by
    rw [addrOf, if_pos hc, hself]
  have hold : ∀ j k, k < cnt j →
      addrOf d (update D i ((D i).setAddr (cnt i) fb) j) k = addrOf d (D j) k := by
    intro j k hk
    by_cases hji : j = i
    · subst hji
      rw [update_self, addrOf, addrOf, haddr k (by omega), haddr _ hne]
    · rw [update_of_ne hji]
  refine ⟨⟨Nat.le_succ_of_le h.bound, ?_, fun j k hj hk => ?_, fun j hj => ?_,
    fun j k hj hk hm => ?_, fun b hb => h.fresh b (Nat.le_of_succ_le hb)⟩, hnew.symm,
    Nat.le_succ fb, hold, fun _ _ _ => rfl, fun _ _ => rfl, fun w o hw => getLE_setAddr _ _ _ hw⟩
  · refine h.slots.extend h.bound (Nat.le_succ fb) (fun j o ho => ?_) (fun o ho hno => ?_)
      (fun o o' ho hno ho' hno' _ => ?_)
    · cases o with
      | none =>
        by_cases hji : j = i
        · subst hji
          have ho : NDIRECT < cnt j := ho
          omega
        · simp only [update_of_ne hji]
      | some k => exact hold j k ho
    · rcases o with _ | k
      · have ho : 12 < cnt i + 1 := ho
        omega
      have ho : k < cnt i + 1 := ho
      have hno : ¬k < cnt i := hno
      obtain rfl : k = cnt i := by omega
      simp only [update_self, slotAddr, hnew]
      omega
    · rcases o with _ | k
      · have ho : 12 < cnt i + 1 := ho
        omega
      rcases o' with _ | k'
      · have ho' : 12 < cnt i + 1 := ho'
        omega
      have h1 : k < cnt i + 1 := ho
      have h2 : ¬k < cnt i := hno
      have h3 : k' < cnt i + 1 := ho'
      have h4 : ¬k' < cnt i := hno'
      rw [show k = k' by omega]
  · by_cases hji : j = i
    · subst hji
      simp only [update_self] at hj ⊢
      rw [haddr k (by omega)]
      exact h.direct j k (by omega) hk
    · simp only [update_of_ne hji] at hj ⊢
      exact h.direct j k hj hk
  · by_cases hji : j = i
    · subst hji
      simp only [update_self]
      rw [haddr _ hne]
      exact h.indirect j (by change cnt j ≤ 12; omega)
    · simp only [update_of_ne hji] at hj ⊢
      exact h.indirect j hj
  · by_cases hji : j = i
    · subst hji
      simp only [update_self] at hj
      have hj : 12 < cnt j + 1 := hj
      omega
    · simp only [update_of_ne hji] at hj hk ⊢
      exact h.entries j k hj hk hm

lemma addrOf_setEntry {din : Dinode} {x : ℕ} (hy : din.addr NDIRECT = y) (hc : NDIRECT ≤ c)
    (hm : c < MAXFILE) (hx : x < 2 ^ 32) {k : ℕ} :
    addrOf (wsect d y ((d y).setLE 4 (4 * (c - NDIRECT)) x)) din k =
      if k = c then x else addrOf d din k := by
  have hc' : 12 ≤ c := hc
  have hm' : c < 268 := hm
  unfold addrOf wsect
  rw [hy, update_self]
  by_cases hlt : k < NDIRECT
  · have hlt' : k < 12 := hlt
    rw [if_pos hlt, if_pos hlt, if_neg (by omega)]
  have hlt' : ¬k < 12 := hlt
  rw [if_neg hlt, if_neg hlt]
  by_cases hk : k = c
  · subst hk
    rw [if_pos rfl, Bytes.getLE_setLE 4 _ _ _ (by change 4 * (k - 12) + 4 ≤ 1024; omega)]
    exact Nat.mod_eq_of_lt (by simpa using hx)
  rw [if_neg hk]
  refine Bytes.getLE_setLE_of_disjoint 4 4 _ _ _ _ ?_
  change 4 * (k - 12) + 4 ≤ 4 * (c - 12) ∨ 4 * (c - 12) + 4 ≤ 4 * (k - 12)
  omega

lemma Blocks.placeEntry (h : Blocks d D cnt fb) {din : Dinode} (x fb' : ℕ) (hc : NDIRECT ≤ cnt i)
    (hm : cnt i < MAXFILE) (hx : x < 2 ^ 32) (hxfb : fb ≤ x ∧ x < fb') (hy : din.addr NDIRECT = y)
    (hyx : y ≠ x) (hyold : NDIRECT < cnt i → y = (D i).addr NDIRECT)
    (hynew : cnt i = NDIRECT → fb ≤ y ∧ y < fb')
    (hdir : ∀ k, k < NDIRECT → din.addr k = (D i).addr k)
    (hhead : ∀ w o, o + w ≤ 12 → din.getLE w o = (D i).getLE w o) : Placed d D cnt fb i x
      ⟨wsect d y ((d y).setLE 4 (4 * (cnt i - NDIRECT)) x), fb', din⟩ := by
  have hc' : 12 ≤ cnt i := hc
  -- the indirect block is no data block, and no other indirect block
  have hyne : ∀ j o, Live (cnt j) o → (j ≠ i ∨ o ≠ none) → slotAddr d (D j) o ≠ y := by
    intro j o ho hjo he
    by_cases hci : NDIRECT < cnt i
    · rw [hyold hci] at he
      obtain ⟨rfl, rfl⟩ := h.slots.inj j i o none ho hci he
      exact hjo.elim (fun hn => hn rfl) fun hn => hn rfl
    · have h1 := hynew (by omega)
      have h2 : slotAddr d (D j) o < fb := (h.slots.alloc j o ho).2
      omega
  have hylt' : y < fb' := by
    by_cases hci : NDIRECT < cnt i
    · have h2 : (D i).addr NDIRECT < fb := (h.slots.alloc i none hci).2
      rw [hyold hci]
      omega
    · exact (hynew (by omega)).2
  have hymeta : nmeta ≤ y := by
    by_cases hci : NDIRECT < cnt i
    · rw [hyold hci]
      exact (h.slots.alloc i none hci).1
    · exact h.bound.trans (hynew (by omega)).1
  -- the addresses in the old entries
  have hentry : ∀ k, k < cnt i → addrOf d din k = addrOf d (D i) k := by
    intro k hk
    unfold addrOf
    by_cases hlt : k < NDIRECT
    · rw [if_pos hlt, if_pos hlt, hdir k hlt]
    · rw [if_neg hlt, if_neg hlt, hy, hyold (by omega)]
  have hnew : addrOf (wsect d y ((d y).setLE 4 (4 * (cnt i - NDIRECT)) x)) din (cnt i) = x := by
    rw [addrOf_setEntry hy hc hm hx, if_pos rfl]
  have hother : ∀ j, j ≠ i → NDIRECT < cnt j →
      wsect d y ((d y).setLE 4 (4 * (cnt i - NDIRECT)) x) ((D j).addr NDIRECT) =
        d ((D j).addr NDIRECT) := fun j hji hj =>
    update_of_ne (hyne j none hj (.inl hji)) _ _
  have hold : ∀ j k, k < cnt j →
      addrOf (wsect d y ((d y).setLE 4 (4 * (cnt i - NDIRECT)) x)) (update D i din j) k =
        addrOf d (D j) k := by
    intro j k hk
    by_cases hji : j = i
    · subst hji
      rw [update_self, addrOf_setEntry hy hc hm hx, if_neg (by omega), hentry k hk]
    · rw [update_of_ne hji]
      exact addrOf_congr fun hk' => hother j hji (by omega)
  refine ⟨⟨h.bound.trans (show fb ≤ fb' by omega), ?_, fun j k hj hk => ?_, fun j hj => ?_,
    fun j k hj hk hmk => ?_, fun b hb => ?_⟩, hnew.symm, by change fb ≤ fb'; omega, hold,
    fun j k hk => update_of_ne (hyne j (some k) hk (.inr (by simp))) _ _,
    fun b hb => update_of_ne (by omega) _ _, hhead⟩
  · refine h.slots.extend h.bound (show fb ≤ fb' by omega) (fun j o ho => ?_) (fun o ho hno => ?_)
      (fun o o' ho hno ho' hno' he => ?_)
    · cases o with
      | none =>
        by_cases hji : j = i
        · subst hji
          simp only [update_self, slotAddr]
          rw [hy, hyold ho]
        · simp only [update_of_ne hji, slotAddr]
      | some k => exact hold j k ho
    · cases o with
      | none =>
        have ho : 12 < cnt i + 1 := ho
        have hno : ¬12 < cnt i := hno
        simp only [update_self, slotAddr, hy]
        exact hynew (by change cnt i = 12; omega)
      | some k =>
        have ho : k < cnt i + 1 := ho
        have hno : ¬k < cnt i := hno
        obtain rfl : k = cnt i := by omega
        simp only [update_self, slotAddr, hnew]
        exact hxfb
    · cases o with
      | none =>
        cases o' with
        | none => rfl
        | some k' =>
          have h3 : k' < cnt i + 1 := ho'
          have h4 : ¬k' < cnt i := hno'
          obtain rfl : k' = cnt i := by omega
          simp only [update_self, slotAddr, hnew, hy] at he
          exact absurd he hyx
      | some k =>
        have h1 : k < cnt i + 1 := ho
        have h2 : ¬k < cnt i := hno
        obtain rfl : k = cnt i := by omega
        rcases o' with _ | k'
        · simp only [update_self, slotAddr, hnew, hy] at he
          exact absurd he.symm hyx
        have h3 : k' < cnt i + 1 := ho'
        have h4 : ¬k' < cnt i := hno'
        rw [show k' = cnt i by omega]
  · by_cases hji : j = i
    · subst hji
      simp only [update_self] at hj
      have hk : k < 12 := hk
      omega
    · simp only [update_of_ne hji] at hj ⊢
      exact h.direct j k hj hk
  · by_cases hji : j = i
    · subst hji
      simp only [update_self] at hj
      have hj : cnt j + 1 ≤ 12 := hj
      omega
    · simp only [update_of_ne hji] at hj ⊢
      exact h.indirect j hj
  · by_cases hji : j = i
    · subst hji
      simp only [update_self] at hj hk ⊢
      rw [addrOf_setEntry hy hc hm hx, if_neg (by omega)]
      by_cases hci : NDIRECT < cnt j
      · have hk12 : ¬k < NDIRECT := by
          change ¬k < 12
          omega
        have he := h.entries j k hci (by omega) hmk
        rw [addrOf, if_neg hk12] at he ⊢
        rwa [hy, hyold hci]
      have hk12 : ¬k < NDIRECT := by
        change ¬k < 12
        omega
      rw [addrOf, if_neg hk12, hy, h.fresh y (hynew (by omega)).1, Bytes.getLE_zero]
    · simp only [update_of_ne hji] at hj hk ⊢
      rw [addrOf_congr fun _ => hother j hji hj]
      exact h.entries j k hj hk hmk
  · have hb : fb' ≤ b := hb
    change wsect d y _ b = _
    rw [wsect, update_of_ne (by omega)]
    exact h.fresh b (by omega)

lemma Blocks.place (h : Blocks d D cnt fb) (hm : cnt i < MAXFILE) (hfb : fb < 2 ^ 31) :
    Placed d D cnt fb i (Append.place ⟨d, fb, D i⟩ (cnt i)).1
      (Append.place ⟨d, fb, D i⟩ (cnt i)).2 := by
  unfold Append.place
  by_cases hlt : cnt i < NDIRECT
  · have hz := h.direct i (cnt i) le_rfl hlt
    have hlt' : cnt i < 12 := hlt
    simp only [if_pos hlt, Append.direct, if_pos hz]
    rw [Dinode.addr_setAddr (by omega) (by omega)]
    exact h.placeDirect hlt hfb
  simp only [if_neg hlt]
  by_cases hci : NDIRECT < cnt i
  · -- there is an indirect block
    have hind := h.addr_ne_zero hci
    have hz := h.entries i (cnt i) hci le_rfl hm
    rw [addrOf, if_neg hlt] at hz
    have hp := h.placeEntry fb (fb + 1) (by omega) hm (by omega) (by omega) rfl
      (fun he => by have h2 : (D i).addr NDIRECT < fb := (h.slots.alloc i none hci).2; omega)
      (fun _ => rfl) (fun he => by omega) (fun _ _ => rfl) (fun _ _ _ => rfl)
    have hx := hp.addr
    simp only [Append.direct, if_neg hind, Append.indirect, Append.entry, if_pos hz]
    rw [addrOf, if_neg hlt] at hx
    rw [← hx]
    exact hp
  · -- the indirect block is allocated as well
    have hceq : cnt i = NDIRECT := by omega
    have hz := h.indirect i (by omega)
    have hset : ((D i).setAddr NDIRECT fb).addr NDIRECT = fb :=
      Dinode.addr_setAddr (by decide) (by omega)
    have hfresh : (d fb).getLE 4 (4 * (cnt i - NDIRECT)) = 0 := by
      rw [h.fresh fb le_rfl, Bytes.getLE_zero]
    have hp := h.placeEntry (fb + 1) (fb + 2) (by omega) hm (by omega) (by omega) hset
      (by omega) (fun he => by omega) (fun _ => by omega)
      (fun k hk => Dinode.addr_setAddr_of_ne (by omega)) (fun w o hw => getLE_setAddr _ _ _ hw)
    have hx := hp.addr
    simp only [Append.direct, if_pos hz, Append.indirect, Append.entry, hset, if_pos hfresh]
    rw [addrOf, if_neg hlt] at hx
    simp only [hset] at hx
    rw [← hx]
    exact hp

end Place

end Mkfs

end Xv6
