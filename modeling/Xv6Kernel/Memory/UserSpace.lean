import Mathlib.Data.Finset.Card
import Xv6Kernel.Memory.Copy

/-!
# The pages of a user address space

`UserSpace` divides the heap of an address space into its page table and its user pages, which fill
the page numbers from 0 up.
-/

namespace Xv6

open Function

open HProg Heap

variable {K : KernelImage}
variable {A B : List ℕ} {a b c : PHeap} {p n f : ℕ}

/-! ## Dividing pages -/

lemma Pages.divide {h : PHeap} (hP : Pages K (A ++ B) h) :
    ∃ hA hB, h.Split hA hB ∧ Pages K A hA ∧ Pages K B hB := by
  obtain ⟨hA, hB, hAB⟩ := List.nodup_append.mp hP.nodup
  have hown : ∀ x, h x ≠ none ↔ x ∈ A ∨ x ∈ B := fun x => (hP.owned_iff x).trans List.mem_append
  refine ⟨fun x => if x ∈ A then h x else none, fun x => if x ∈ A then none else h x, ?_, ?_, ?_⟩
  · intro x
    by_cases hx : x ∈ A
    · exact .inl ⟨if_pos hx, (if_pos hx).symm⟩
    · exact .inr ⟨if_neg hx, (if_neg hx).symm⟩
  · refine ⟨hA, fun x hx => hP.valid x (List.mem_append_left _ hx), fun x => ?_⟩
    by_cases hx : x ∈ A
    · simp [hx, (hown x).mpr (.inl hx)]
    · simp [hx]
  · refine ⟨hB, fun x hx => hP.valid x (List.mem_append_right _ hx), fun x => ?_⟩
    by_cases hx : x ∈ A
    · simpa [hx] using fun hxB => hAB x hx x hxB rfl
    · have := hown x
      simpa [hx] using this

lemma Pages.append {h hA hB : PHeap} (hPA : Pages K A hA) (hPB : Pages K B hB)
    (hs : h.Split hA hB) : Pages K (A ++ B) h := by
  refine ⟨hPA.nodup.append hPB.nodup fun x hxA hxB => ?_, fun x hx => ?_, fun x => ?_⟩
  · exact (hPB.owned_iff x).mpr hxB (hs.left ((hPA.owned_iff x).mpr hxA)).2
  · exact (List.mem_append.mp hx).elim (hPA.valid x) (hPB.valid x)
  · rw [hs.owned_iff, hPA.owned_iff, hPB.owned_iff, List.mem_append]

lemma Pages.eq_empty {h : PHeap} (hP : Pages K [] h) : h = Heap.empty := by
  funext x
  by_contra hx
  exact List.not_mem_nil ((hP.owned_iff x).mp hx)

lemma Pages.length_le {L : List ℕ} {h : PHeap} (hP : Pages K L h) : L.length ≤ 2 ^ 15 := by
  have hsub : L.toFinset ⊆ (Finset.range (2 ^ 15)).image fun i => KERNBASE + i * PGSIZE := by
    intro x hx
    have hv := hP.valid x (List.mem_toFinset.mp hx)
    have h₁ := K.kernbase_lt
    have h₂ := K.etext_le
    obtain ⟨ha, hb, hc⟩ := hv
    refine Finset.mem_image.mpr ⟨(x - KERNBASE) / PGSIZE, Finset.mem_range.mpr ?_, ?_⟩
    · unfold PHYSTOP KERNBASE PGSIZE at *
      omega
    · unfold PHYSTOP KERNBASE PGSIZE at *
      omega
  calc L.length = L.toFinset.card := (List.toFinset_card_of_nodup hP.nodup).symm
    _ ≤ _ := Finset.card_le_card hsub
    _ ≤ _ := Finset.card_image_le
    _ = 2 ^ 15 := Finset.card_range _

lemma length_physPages (m : ℕ → ℕ) (v n : ℕ) : (physPages m v n).length = n := by
  simp [physPages]

lemma physPages_append (m : ℕ → ℕ) (v n k : ℕ) :
    physPages m v (n + k) = physPages m v n ++ physPages m (v + n) k := by
  unfold physPages
  rw [← List.map_append, List.range'_append_1]

lemma mem_physPages {m : ℕ → ℕ} {v x : ℕ} :
    x ∈ physPages m v n ↔ ∃ w, v ≤ w ∧ w < v + n ∧ pte2pa (m w) = x := by
  simp [physPages, and_assoc]

/-! ## Address spaces -/

/-- The page number of the trap frame, the end of the user addresses. -/
def TRAPPN : ℕ := TRAPFRAME / PGSIZE

/-- The number of pages of an address space of size `sz`. -/
def pageCount (sz : ℕ) : ℕ := (sz + (PGSIZE - 1)) / PGSIZE

/-- The heap is an address space: a table with the entries `m`, and the physical pages of the page
numbers below `n`.  No other page below the trap frame is mapped. -/
structure UserSpace (K : KernelImage) (pt n : ℕ) (m : ℕ → ℕ) (h h₁ h₂ : PHeap) : Prop where
  split : h.Split h₁ h₂
  table : IsTable K pt m h₁
  pages : Pages K (physPages m 0 n) h₂
  leaf : ∀ v < n, IsLeaf (m v)
  unmapped : ∀ v, n ≤ v → v < TRAPPN → ¬IsValid (m v)

lemma UserSpace.le {pt : ℕ} {m : ℕ → ℕ} {h h₁ h₂ : PHeap} (hU : UserSpace K pt n m h h₁ h₂) :
    n ≤ 2 ^ 15 := by
  have := hU.pages.length_le
  rwa [length_physPages] at this

lemma pgroundup_eq_pageCount {sz : ℕ} (hsz : sz ≤ MAXVA) : pgroundup sz = pageCount sz * PGSIZE := by
  have hlt : sz + PGSIZE ≤ 2 ^ 64 := by
    have hmax : MAXVA = 2 ^ 38 := by decide
    unfold PGSIZE
    omega
  rw [pgroundup_eq hlt]
  rfl

/-! ## Adding pages -/

/-- The entries from `v` on of `k` new pages have been added to `m₀`, with the given flags and
contents; the heap consists of the new pages. -/
structure NewPages (K : KernelImage) (flags : ℕ → ℕ) (content : ℕ → Page) (m₀ m : ℕ → ℕ)
    (v k : ℕ) (hN : PHeap) : Prop where
  same : ∀ w, w < v ∨ v + k ≤ w → m w = m₀ w
  entry : ∀ w, v ≤ w → w < v + k → m w = pa2pte (pte2pa (m w)) ||| flags w ||| PTE_V
  content : ∀ w, v ≤ w → w < v + k → hN (pte2pa (m w)) = some (content w)
  pages : Pages K (physPages m v k) hN

variable {flags : ℕ → ℕ} {content : ℕ → Page} {m₀ m : ℕ → ℕ} {v k : ℕ} {hN : PHeap}

lemma NewPages.none (flags : ℕ → ℕ) (content : ℕ → Page) (m : ℕ → ℕ) (v : ℕ) :
    NewPages K flags content m m v 0 Heap.empty :=
  ⟨fun _ _ => rfl, fun w h₁ h₂ => by omega, fun w h₁ h₂ => by omega, pages_nil⟩

lemma pte2pa_new (hv : K.Valid p) (hf : f < 1024) : pte2pa (pa2pte p ||| f ||| PTE_V) = p := by
  rw [Nat.or_assoc]
  exact hv.pte2pa (Nat.or_lt_two_pow (n := 10) hf (by decide))

lemma pteFlags_new (p : ℕ) (hf : f < 1024) : pteFlags (pa2pte p ||| f ||| PTE_V) = f ||| PTE_V := by
  rw [Nat.or_assoc]
  exact pteFlags_pa2pte_or (Nat.or_lt_two_pow (n := 10) hf (by decide)) p

lemma NewPages.add (hNP : NewPages K flags content m₀ m v k hN) (hv : K.Valid p)
    (hp : hN p = Option.none) (hf : flags (v + k) < 1024) : NewPages K flags content m₀
      (update m (v + k) (pa2pte p ||| flags (v + k) ||| PTE_V)) v (k + 1)
      (update hN p (some (content (v + k)))) := by
  have hpa := pte2pa_new (K := K) hv hf
  have hold : ∀ w, v ≤ w → w < v + k → pte2pa (m w) ≠ p := by
    intro w hw hw' heq
    have := hNP.content w hw hw'
    rw [heq, hp] at this
    exact absurd this (by simp)
  constructor
  · intro w hw
    rw [update_of_ne (by omega)]
    exact hNP.same w (by omega)
  · intro w hw hw'
    by_cases hwk : w = v + k
    · subst hwk
      rw [update_self, hpa]
    · rw [update_of_ne hwk]
      exact hNP.entry w hw (by omega)
  · intro w hw hw'
    by_cases hwk : w = v + k
    · subst hwk
      rw [update_self, hpa, update_self]
    · rw [update_of_ne hwk, update_of_ne (hold w hw (by omega))]
      exact hNP.content w hw (by omega)
  · have hlist : physPages (update m (v + k) (pa2pte p ||| flags (v + k) ||| PTE_V)) v
        (k + 1) = physPages m v k ++ [p] := by
      rw [physPages_append, physPages_congr (m := m) fun w _ hw =>
        update_of_ne (by omega) _ _]
      simp [physPages, hpa]
    rw [hlist]
    exact (hNP.pages.cons hv hp).perm (List.perm_append_singleton p _).symm

lemma NewPages.isLeaf (hNP : NewPages K flags content m₀ m v k hN)
    (hf : ∀ w, flags w < 1024 ∧ flags w ||| PTE_V ≠ PTE_V) {w : ℕ} (hw : v ≤ w)
    (hw' : w < v + k) : IsLeaf (m w) := by
  have hfl : pteFlags (m w) = flags w ||| PTE_V := by
    rw [hNP.entry w hw hw', pteFlags_new _ (hf w).1]
  refine ⟨(isValid_iff _).mpr ?_, ?_⟩
  · rw [hfl]
    simp [PTE_V]
  · rw [hfl]
    exact (hf w).2

lemma wp_addPage {tol : String → Prop} {pt : ℕ} {h h₁ : PHeap} (hs : h.Split h₁ hN)
    (hT : IsTable K pt m h₁) (hNP : NewPages K flags content m₀ m v k hN) (hv : K.Valid p)
    (hp : h p = none) (hf : flags (v + k) < 1024) (hvk : v + k < MAXPN)
    (hm : ¬IsValid (m (v + k))) :
    (mappages pt ((v + k) * PGSIZE) PGSIZE p (flags (v + k))).wp K.Valid tol (fun r h' =>
      (r = 0 ∧ ∃ m' h1' hN', h'.Split h1' hN' ∧ IsTable K pt m' h1' ∧
        NewPages K flags content m₀ m' v (k + 1) hN') ∨
      (r ≠ 0 ∧ ∃ h1', h1' p = none ∧ IsTable K pt m h1' ∧
        h'.Split h1' (update hN p (some (content (v + k))))))
      (update h p (some (content (v + k)))) := by
  have hfree := not_or.mp (mt (hs.owned_iff p).mpr (by simp [hp]))
  have hpN : hN p = none := not_not.mp hfree.2
  have hs' := (hs.symm.update (not_not.mp hfree.1) (some (content (v + k)))).symm
  have hpa : p < 2 ^ 64 := hv.2.2.trans (by decide)
  have hone : 1 * PGSIZE = PGSIZE := Nat.one_mul _
  have hmap : (mappages pt ((v + k) * PGSIZE) (1 * PGSIZE) p (flags (v + k))).wp K.Valid tol _ _ :=
    wp_mappages hs' hT Nat.one_pos hvk hpa fun w hw hw' => by rwa [show w = v + k by omega]
  rw [hone] at hmap
  refine wp_mono hmap ?_
  rintro r h' ⟨j, h1', hsp, hT', ⟨rfl, rfl⟩ | ⟨rfl, hj⟩⟩
  · rw [← Nat.zero_add 1, ← mapRange_succ m hpa, mapRange_zero] at hT'
    exact .inl ⟨rfl, _, h1', _, hsp, hT', hNP.add hv hpN hf⟩
  · obtain rfl : j = 0 := by omega
    rw [mapRange_zero] at hT'
    exact .inr ⟨by decide, h1', (hsp.right (by simp)).2, hT', hsp⟩

/-! ## Address spaces in the memory -/

lemma Owns.part {s : KMem} {h : PHeap} {L : List ℕ} (ho : Owns K s h L) (hs : h.Split a b)
    {pg : Page} (hp : a p = some pg) : s.mem p = pg :=
  ho.agree p pg ((hs.left (by simp [hp])).1.trans hp)

lemma Owns.same {s s' : KMem} {h h' : PHeap} {L L' : List ℕ} (ho : Owns K s h L)
    (ho' : Owns K s' h' L') (hs : h.Split a b) (hs' : h'.Split a c) (hp : a p ≠ none) :
    s'.mem p = s.mem p := by
  obtain ⟨pg, hpg⟩ := Option.ne_none_iff_exists'.mp hp
  rw [ho.part hs hpg, ho'.part hs' hpg]

lemma IsTable.pteOf_eq {pt v : ℕ} {m : ℕ → ℕ} {s : KMem} {h h₁ h₂ : PHeap} {L : List ℕ}
    (hT : IsTable K pt m h₁) (ho : Owns K s h L) (hs : h.Split h₁ h₂) (hv : v < MAXPN) :
    pteOf s.mem pt v = m v :=
  (hT.absMap_eq ho hs hv).1

/-- The memory holds an address space of the size `sz` with the table at `pt`, apart from the free
pages and from the pages `rest` of other owners. -/
def HasSpace (K : KernelImage) (s : KMem) (pt sz : ℕ) (rest : PHeap) : Prop :=
  ∃ m h hu h₁ h₂ L, Owns K s h L ∧ h.Split rest hu ∧ UserSpace K pt (pageCount sz) m hu h₁ h₂

section

variable {s s' : KMem} {pt sz : ℕ} {h h' hu h₁ h₂ F : PHeap} {L L' : List ℕ}

lemma UserSpace.size_le (hU : UserSpace K pt (pageCount sz) m hu h₁ h₂) : sz ≤ 2 ^ 27 := by
  have hle := hU.le
  unfold pageCount PGSIZE at hle
  omega

lemma HasSpace.size_le {rest : PHeap} (h : HasSpace K s pt sz rest) : sz ≤ 2 ^ 27 := by
  obtain ⟨m, h, hu, h₁, h₂, L, -, -, hU⟩ := h
  exact hU.size_le

lemma UserSpace.owned (hU : UserSpace K pt (pageCount sz) m hu h₁ h₂) {v : ℕ}
    (hv : v < pageCount sz) : h₂ (pte2pa (m v)) ≠ none :=
  (hU.pages.owned_iff _).mpr (mem_physPages.mpr ⟨v, Nat.zero_le v, by omega, rfl⟩)

lemma UserSpace.congr (hU : UserSpace K pt n m hu h₁ h₂) {m' : ℕ → ℕ} {hu' h1' : PHeap}
    (hs : hu'.Split h1' h₂) (hT : IsTable K pt m' h1')
    (hdec : ∀ w, decodePte (m' w) = decodePte (m w)) : UserSpace K pt n m' hu' h1' h₂ := by
  have hvalid : ∀ w, IsValid (m' w) ↔ IsValid (m w) := fun w => by
    rw [← not_iff_not, ← decodePte_eq_none, ← decodePte_eq_none, hdec w]
  have hsame : ∀ w, IsValid (m w) →
      pte2pa (m' w) = pte2pa (m w) ∧ pteFlags (m' w) = pteFlags (m w) := by
    intro w hw
    have := hdec w
    rw [decodePte, decodePte, if_pos ((hvalid w).mpr hw), if_pos hw] at this
    simpa using this
  refine ⟨hs, hT, ?_, fun v hv => ?_, fun v hv hv' => ?_⟩
  · have hlist : physPages m' 0 n = physPages m 0 n := by
      refine List.map_congr_left fun w hw => (hsame w (hU.leaf w ?_).1).1
      rw [List.mem_range'_1] at hw
      omega
    rw [hlist]
    exact hU.pages
  · obtain ⟨hval, hne⟩ := hU.leaf v hv
    refine ⟨(hvalid v).mpr hval, ?_⟩
    rw [(hsame v hval).2]
    exact hne
  · rw [hvalid]
    exact hU.unmapped v hv hv'

lemma UserSpace.contents (hU : UserSpace K pt (pageCount sz) m hu h₁ h₂) (ho : Owns K s h L)
    (ho' : Owns K s' h' L') {d F0 : PHeap} (hT : h.Split h₁ F0) (hF : h.Split d F)
    (hs' : h'.Split c F) (hFr : F.Split a b) {v : ℕ} (hv : v < pageCount sz)
    (hb : b (pte2pa (m v)) ≠ none) :
    s'.mem (pte2pa (pteOf s.mem pt v)) = s.mem (pte2pa (pteOf s.mem pt v)) := by
  have hle := hU.le
  rw [hU.table.pteOf_eq ho hT (by unfold MAXPN; omega)]
  have hFv : F (pte2pa (m v)) ≠ none := by
    rw [(hFr.right hb).1]
    exact hb
  exact ho.same ho' hF.symm hs'.symm hFv

end

end Xv6
