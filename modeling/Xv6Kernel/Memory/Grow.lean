import Xv6Kernel.Memory.UserSpace

/-!
# Growing and shrinking a process

`uvmalloc` and `uvmdealloc` of `vm.c`, and `growproc` of `proc.c` on the memory of the process.  The
size is a `uint64` and the increment an `int`: the sum wraps around when a process is to shrink by
more than its size, `uvmdealloc` then takes the request for one to grow, and `growproc` reports
success although nothing has changed.
-/

namespace Xv6

open HProg Heap Function

variable {K : KernelImage}
variable {hN : PHeap} {tol : String → Prop} {newsz xperm a v : ℕ} {n : ℤ}

def addInt (a : ℕ) (n : ℤ) : ℕ := ((a + n) % 2 ^ 64).toNat

def intOfU64 (a : ℕ) : ℕ := addInt 0 ((a : ℤ).bmod (2 ^ 32))

/-- Remove user pages to bring the size from `oldsz` to `newsz`; the result is the new size. -/
def uvmdealloc (pagetable oldsz newsz : ℕ) : MProg ℕ :=
  if newsz ≥ oldsz then pure oldsz
  else do
    if pgroundup newsz < pgroundup oldsz then
      let npages := intOfU64 ((pgroundup oldsz - pgroundup newsz) / PGSIZE)
      uvmunmap pagetable (pgroundup newsz) npages true
    pure newsz

def uvmallocFrom (pagetable oldsz newsz xperm : ℕ) : ℕ → ℕ → MProg ℕ
  | 0, a => if a < newsz then .panic "uvmalloc: rounds" else pure newsz
  | n + 1, a =>
    if a < newsz then do
      match ← HProg.allocPage with
      | none =>
        let _ ← uvmdealloc pagetable a oldsz
        pure 0
      | some mem =>
        HProg.fill mem 0
        let r ← mappages pagetable a PGSIZE mem (PTE_R ||| PTE_U ||| xperm)
        if r ≠ 0 then
          HProg.freePage mem
          let _ ← uvmdealloc pagetable a oldsz
          pure 0
        else uvmallocFrom pagetable oldsz newsz xperm n (u64 (a + PGSIZE))
    else pure newsz

/-- Add user pages to bring the size from `oldsz` to `newsz`; the result is the new size, or 0 if
there is no memory. -/
def uvmalloc (pagetable oldsz newsz xperm : ℕ) : MProg ℕ :=
  if newsz < oldsz then pure oldsz
  else uvmallocFrom pagetable (pgroundup oldsz) newsz xperm
    (pageCount newsz - pageCount oldsz) (pgroundup oldsz)

/-- Change the size of a process by `n`: the result of the function, and the size afterwards. -/
def growproc (pagetable sz : ℕ) (n : ℤ) : MProg (ℤ × ℕ) :=
  if n > 0 then do
    let sz' ← uvmalloc pagetable sz (addInt sz n) PTE_W
    if sz' = 0 then pure (-1, sz) else pure (0, sz')
  else if n < 0 then do
    let sz' ← uvmdealloc pagetable sz (addInt sz n)
    pure (0, sz')
  else pure (0, sz)

/-! ## Arithmetic -/

lemma addInt_eq (h0 : 0 ≤ a + n) (h : a + n < 2 ^ 64) : (addInt a n : ℤ) = a + n := by
  unfold addInt
  omega

lemma intOfU64_eq (h : a < 2 ^ 31) : intOfU64 a = a := by
  have hb : ((a : ℤ).bmod (2 ^ 32)) = a := Int.bmod_eq_of_le (by omega) (by omega)
  unfold intOfU64
  rw [hb]
  have := addInt_eq (a := 0) (n := (a : ℤ)) (by omega) (by omega)
  omega

lemma pageCount_mul (v : ℕ) : pageCount (v * PGSIZE) = v := by
  unfold pageCount PGSIZE
  omega

lemma pageCount_mono {b : ℕ} (h : a ≤ b) : pageCount a ≤ pageCount b :=
  Nat.div_le_div_right (by omega)

lemma mul_lt_iff_lt_pageCount {sz : ℕ} : v * PGSIZE < sz ↔ v < pageCount sz := by
  unfold pageCount PGSIZE
  omega

/-! ## What the functions do to the pages they own -/

lemma wp_uvmdealloc {pt oldsz : ℕ} {m : ℕ → ℕ} {h h₁ h₂ : PHeap} (hs : h.Split h₁ h₂)
    (hT : IsTable K pt m h₁) (hle : newsz ≤ oldsz) (hold : oldsz < 2 ^ 34)
    (hP : Pages K (physPages m (pageCount newsz) (pageCount oldsz - pageCount newsz)) h₂)
    (hm : ∀ w, pageCount newsz ≤ w → w < pageCount oldsz → IsLeaf (m w)) :
    (uvmdealloc pt oldsz newsz).wp K.Valid tol (fun r h' => r = newsz ∧ h₁.SameDomain h' ∧
      IsTable K pt (unmapRange m (pageCount newsz) (pageCount oldsz - pageCount newsz)) h') h := by
  have hmax : MAXVA = 2 ^ 38 := by decide
  have hmono := pageCount_mono hle
  have hcount : pageCount oldsz ≤ 2 ^ 22 := by
    unfold pageCount PGSIZE
    omega
  have hro : pgroundup oldsz = pageCount oldsz * PGSIZE := pgroundup_eq_pageCount (by omega)
  have hrn : pgroundup newsz = pageCount newsz * PGSIZE := pgroundup_eq_pageCount (by omega)
  -- nothing to remove: the two sizes have the same pages
  have hnothing : pageCount oldsz - pageCount newsz = 0 → h₁.SameDomain h ∧
      IsTable K pt (unmapRange m (pageCount newsz) (pageCount oldsz - pageCount newsz)) h := by
    intro h0
    rw [h0] at hP ⊢
    have hempty : h₂ = Heap.empty := Pages.eq_empty (by simpa [physPages] using hP)
    obtain rfl := hs.eq_of_empty' hempty
    rw [unmapRange_zero]
    exact ⟨.refl h, hT⟩
  unfold uvmdealloc
  by_cases hge : newsz ≥ oldsz
  · obtain rfl : newsz = oldsz := Nat.le_antisymm hle hge
    rw [if_pos hge]
    exact ⟨rfl, hnothing (Nat.sub_self _)⟩
  rw [if_neg hge, hro, hrn]
  by_cases hlt : pageCount newsz * PGSIZE < pageCount oldsz * PGSIZE
  · have hdiv : (pageCount oldsz * PGSIZE - pageCount newsz * PGSIZE) / PGSIZE =
        pageCount oldsz - pageCount newsz := by
      rw [← Nat.sub_mul, Nat.mul_div_cancel _ (by decide)]
    rw [if_pos hlt, hdiv, intOfU64_eq (by omega)]
    have hall : Leaves true m (pageCount newsz) (pageCount oldsz - pageCount newsz)
        (physPages m (pageCount newsz) (pageCount oldsz - pageCount newsz)) [] := by
      simp [Leaves]
    refine wp_seq (wp_uvmunmap hs hT hP (by unfold MAXPN; omega)
      (fun w hw hw' => hm w hw (by omega)) hall) ?_
    rintro _ h' ⟨h1', h2', hs', hT', hdom, hP'⟩
    obtain rfl := hs'.eq_of_empty' hP'.eq_empty
    exact ⟨rfl, hdom, hT'⟩
  · rw [if_neg hlt]
    refine ⟨rfl, hnothing ?_⟩
    unfold PGSIZE at hlt
    omega

lemma flags_user (hx : xperm < 1024) :
    PTE_R ||| PTE_U ||| xperm < 1024 ∧ PTE_R ||| PTE_U ||| xperm ||| PTE_V ≠ PTE_V := by
  constructor
  · exact Nat.or_lt_two_pow (n := 10) (by decide) hx
  · intro heq
    have hbit := congrArg (fun x => Nat.testBit x 1) heq
    simp [PTE_R, PTE_V, PTE_U, Nat.testBit_or] at hbit
    exact absurd (hbit (.inl (by decide))) (by decide)

def AllocPost (K : KernelImage) (pt v newsz xperm : ℕ) (m : ℕ → ℕ) (r : ℕ) (h' : PHeap) : Prop :=
  (r = newsz ∧ ∃ m' h₁' hN, h'.Split h₁' hN ∧ IsTable K pt m' h₁' ∧
    NewPages K (fun _ => PTE_R ||| PTE_U ||| xperm) (fun _ _ => 0) m m' v (pageCount newsz - v)
      hN) ∨
  (r = 0 ∧ ∃ m', IsTable K pt m' h' ∧ (∀ w, decodePte (m' w) = decodePte (m w)))

lemma wp_undo {pt k : ℕ} {m0 m : ℕ → ℕ} {h h₁ : PHeap} (hs : h.Split h₁ hN)
    (hT : IsTable K pt m h₁) (hx : xperm < 1024)
    (hNP : NewPages K (fun _ => PTE_R ||| PTE_U ||| xperm) (fun _ _ => 0) m0 m v k hN)
    (hvk : v + k ≤ 2 ^ 21) (hm : ∀ w, v ≤ w → w < v + k → ¬IsValid (m0 w)) :
    (do
      let _ ← uvmdealloc pt ((v + k) * PGSIZE) (v * PGSIZE)
      pure 0 : MProg ℕ).wp K.Valid tol (AllocPost K pt v newsz xperm m0) h := by
  have hf : ∀ w : ℕ, (fun _ => PTE_R ||| PTE_U ||| xperm : ℕ → ℕ) w < 1024 ∧
      (fun _ => PTE_R ||| PTE_U ||| xperm : ℕ → ℕ) w ||| PTE_V ≠ PTE_V :=
    fun _ => flags_user hx
  have hsub : pageCount ((v + k) * PGSIZE) - pageCount (v * PGSIZE) = k := by
    rw [pageCount_mul, pageCount_mul]
    omega
  refine wp_seq (wp_uvmdealloc hs hT (Nat.mul_le_mul_right _ (by omega))
    (by unfold PGSIZE; omega) ?_ ?_) ?_
  · rw [hsub, pageCount_mul]
    exact hNP.pages
  · intro w hw hw'
    rw [pageCount_mul] at hw hw'
    exact hNP.isLeaf hf hw hw'
  · rintro _ h' ⟨-, -, hT'⟩
    rw [hsub, pageCount_mul] at hT'
    refine .inr ⟨rfl, _, hT', fun w => ?_⟩
    unfold unmapRange
    by_cases hw : v ≤ w ∧ w < v + k
    · rw [if_pos hw, decodePte_eq_none.mpr not_isValid_zero, decodePte_eq_none.mpr (hm w hw.1 hw.2)]
    · rw [if_neg hw, hNP.same w (by omega)]

lemma wp_uvmallocFrom {pt k n : ℕ} {m0 m : ℕ → ℕ} {h h₁ : PHeap} (hs : h.Split h₁ hN)
    (hT : IsTable K pt m h₁) (hx : xperm < 1024)
    (hNP : NewPages K (fun _ => PTE_R ||| PTE_U ||| xperm) (fun _ _ => 0) m0 m v k hN)
    (hn : v + k + n = max (v + k) (pageCount newsz)) (hvk : v + k + n ≤ 2 ^ 21)
    (hk : 0 < k → v + k ≤ pageCount newsz) (hm : ∀ w, v ≤ w → w < v + k + n → ¬IsValid (m0 w)) :
    (uvmallocFrom pt (v * PGSIZE) newsz xperm n ((v + k) * PGSIZE)).wp K.Valid tol
      (AllocPost K pt v newsz xperm m0) h := by
  induction n generalizing k m h h₁ hN with
  | zero =>
    have hge : ¬(v + k) * PGSIZE < newsz := by
      rw [mul_lt_iff_lt_pageCount]
      omega
    have hcount : pageCount newsz - v = k := by omega
    unfold uvmallocFrom
    rw [if_neg hge]
    exact .inl ⟨rfl, m, h₁, hN, hs, hT, by rwa [hcount]⟩
  | succ n ih =>
    have hlt : (v + k) * PGSIZE < newsz := by
      rw [mul_lt_iff_lt_pageCount]
      omega
    unfold uvmallocFrom
    rw [if_pos hlt]
    refine wp_bind.mpr (wp_allocPage ?_ ?_)
    · exact wp_undo hs hT hx hNP (by omega) fun w hw hw' => hm w hw (by omega)
    · intro p pg hv hp
      refine wp_bind.mpr (wp_fill (update_self ..) ?_)
      rw [update_idem]
      have hmk : ¬IsValid (m (v + k)) := by
        rw [hNP.same _ (.inr le_rfl)]
        exact hm _ (by omega) (by omega)
      refine wp_seq (wp_addPage hs hT hNP hv hp (flags_user hx).1 (by unfold MAXPN; omega) hmk) ?_
      rintro r h' (⟨rfl, m', h1', hN', hs', hT', hNP'⟩ | ⟨hr, h1', h₁p, hT', hs'⟩)
      · have hnext : u64 ((v + k) * PGSIZE + PGSIZE) = (v + (k + 1)) * PGSIZE := by
          rw [u64_next_page (by unfold MAXPN; omega), Nat.add_assoc]
        simp only [ne_eq, not_true_eq_false, if_false, hnext]
        exact ih hs' hT' hNP' (by omega) (by omega) (fun _ => by omega)
          fun w hw hw' => hm w hw (by omega)
      · rw [if_pos hr]
        have hfree := not_or.mp (mt (hs.owned_iff p).mpr (by simp [hp]))
        refine wp_bind.mpr (wp_freePage hv (by rw [(hs'.right (by simp)).1]; simp) ?_)
        have hs'' := (hs'.symm.update h₁p none).symm
        have hback : update (update hN p (some fun _ => 0)) p none = hN := by
          rw [update_idem, update_eq_self_iff]
          exact (not_not.mp hfree.2).symm
        rw [hback] at hs''
        exact wp_undo hs'' hT' hx hNP (by omega) fun w hw hw' => hm w hw (by omega)

/-- `uvmalloc` adds zeroed pages, or takes back those it has added. -/
lemma wp_uvmalloc {pt oldsz : ℕ} {m : ℕ → ℕ} {h : PHeap} (hT : IsTable K pt m h)
    (hx : xperm < 1024) (hle : oldsz ≤ newsz) (hnew : newsz < 2 ^ 32)
    (hm : ∀ w, pageCount oldsz ≤ w → w < pageCount newsz → ¬IsValid (m w)) :
    (uvmalloc pt oldsz newsz xperm).wp K.Valid tol
      (AllocPost K pt (pageCount oldsz) newsz xperm m) h := by
  have hmax : MAXVA = 2 ^ 38 := by decide
  have hmono := pageCount_mono hle
  have hcount : pageCount newsz ≤ 2 ^ 20 := by
    unfold pageCount PGSIZE
    omega
  have hs : h.Split h Heap.empty := fun _ => .inl ⟨rfl, rfl⟩
  unfold uvmalloc
  rw [if_neg (by omega), pgroundup_eq_pageCount (by omega)]
  exact wp_uvmallocFrom (k := 0) hs hT hx (NewPages.none _ _ _ _) (by omega) (by omega)
    (fun h => absurd h (lt_irrefl 0)) fun w hw hw' => hm w hw (by omega)

/-! ## The memory -/

structure Resized (s s' : KMem) (pt sz sz' : ℕ) : Prop where
  kept : ∀ v, v < pageCount sz → v < pageCount sz' → pteOf s'.mem pt v = pteOf s.mem pt v ∧
    s'.mem (pte2pa (pteOf s.mem pt v)) = s.mem (pte2pa (pteOf s.mem pt v))
  zero : ∀ v, pageCount sz ≤ v → v < pageCount sz' → WritablePage s'.mem pt v ∧
    s'.mem (pte2pa (pteOf s'.mem pt v)) = fun _ => 0
  freed : ∃ L, FreeChain s'.mem s'.freelist L ∧ ∀ v, pageCount sz' ≤ v → v < pageCount sz →
    ¬IsValid (pteOf s'.mem pt v) ∧ pte2pa (pteOf s.mem pt v) ∈ L
  above : ∀ v, pageCount sz ≤ v → pageCount sz' ≤ v → v < MAXPN →
    pteOf s'.mem pt v = pteOf s.mem pt v

structure SameUser (s s' : KMem) (pt sz : ℕ) : Prop where
  mapped : ∀ v, v < MAXPN → decodePte (pteOf s'.mem pt v) = decodePte (pteOf s.mem pt v)
  contents : ∀ v, v < pageCount sz →
    s'.mem (pte2pa (pteOf s.mem pt v)) = s.mem (pte2pa (pteOf s.mem pt v))

/-- What `growproc(n)` should do: it returns 0 and the size has changed by `n`, or it returns -1 and
nothing has changed. -/
def GrowsBy (s : KMem) (pt sz : ℕ) (n : ℤ) (res : ℤ × ℕ) (s' : KMem) : Prop :=
  (res.1 = 0 ∧ (res.2 : ℤ) = sz + n ∧ Resized s s' pt sz res.2) ∨
  (res.1 = -1 ∧ res.2 = sz ∧ SameUser s s' pt sz)

section

variable {s : KMem} {pt sz : ℕ} {rest : PHeap} {m : ℕ → ℕ} {h hu h₁ h₂ : PHeap} {L : List ℕ}
variable {s' : KMem} {h' F : PHeap} {L' : List ℕ}

lemma UserSpace.grown (hU : UserSpace K pt (pageCount sz) m hu h₁ h₂) (ho : Owns K s h L)
    (ho' : Owns K s' h' L') (hF : h.Split h₁ F) (hFr : F.Split rest h₂) {m' : ℕ → ℕ}
    {hA h1' : PHeap} (hs' : h'.Split hA F) (hsA : hA.Split h1' hN) (hT' : IsTable K pt m' h1')
    (hNP : NewPages K (fun _ => PTE_R ||| PTE_U ||| PTE_W) (fun _ _ => 0) m m' (pageCount sz)
      (pageCount newsz - pageCount sz) hN) (hle : sz ≤ newsz) (hcount : pageCount newsz ≤ 2 ^ 20) :
    Resized s s' pt sz newsz ∧ HasSpace K s' pt newsz rest := by
  have hmono := pageCount_mono hle
  obtain ⟨G, hG, hGs⟩ := hs'.symm.rotate hsA
  have hpte : ∀ v, v < MAXPN → pteOf s'.mem pt v = m' v := fun v hv => hT'.pteOf_eq ho' hG hv
  have hpte0 : ∀ v, v < MAXPN → pteOf s.mem pt v = m v := fun v hv => hU.table.pteOf_eq ho hF hv
  have hend : pageCount sz + (pageCount newsz - pageCount sz) = pageCount newsz := by omega
  refine ⟨⟨fun v hv hv' => ⟨?_, ?_⟩, fun v hv hv' => ?_, ⟨L', ho'.chain, fun v hv hv' => by omega⟩,
    fun v hv hv' hv'' => ?_⟩, ?_⟩
  · rw [hpte v (by unfold MAXPN; omega), hpte0 v (by unfold MAXPN; omega)]
    exact hNP.same v (.inl hv)
  · exact hU.contents ho ho' hF hF hs' hFr hv (hU.owned hv)
  · have hent := hNP.entry v hv (by omega)
    have hfl := pteFlags_new (pte2pa (m' v)) (show PTE_R ||| PTE_U ||| PTE_W < 1024 by decide)
    rw [← hent] at hfl
    obtain ⟨G', hG', -⟩ := hG.rotate hGs.symm
    rw [WritablePage, UserPage, hpte v (by unfold MAXPN; omega), isValid_iff,
      and_eq_pteFlags_and (by decide), and_eq_pteFlags_and (f := PTE_W) (by decide), hfl]
    refine ⟨⟨⟨by unfold MAXPN; omega, by decide, by decide⟩, by decide⟩, ?_⟩
    exact ho'.part hG' (hNP.content v hv (by omega))
  · rw [hpte v hv'', hpte0 v hv'']
    exact hNP.same v (.inr (by omega))
  · -- the new pages join the user pages
    obtain ⟨h2', hG2, h₂s⟩ := hGs.symm.rotate hFr
    obtain ⟨hu', hur, hus⟩ := hG.rotate hG2
    refine ⟨m', h', hu', h1', h2', L', ho', hur, hus, hT', ?_, fun v hv => ?_, fun v hv hv' => ?_⟩
    · have hold : physPages m' 0 (pageCount sz) = physPages m 0 (pageCount sz) :=
        physPages_congr fun w _ hw => hNP.same w (.inl (by omega))
      have happ := physPages_append m' 0 (pageCount sz) (pageCount newsz - pageCount sz)
      rw [hend, Nat.zero_add, hold] at happ
      rw [happ]
      exact hU.pages.append hNP.pages h₂s.symm
    · by_cases hvs : v < pageCount sz
      · rw [hNP.same v (.inl hvs)]
        exact hU.leaf v hvs
      · exact hNP.isLeaf (fun _ => flags_user (by decide)) (by omega) (by omega)
    · rw [hNP.same v (.inr (by omega))]
      exact hU.unmapped v (by omega) hv'

lemma uvmalloc_always (hsp : HasSpace K s pt sz rest) (hle : sz ≤ newsz)
    (hnew : newsz < 2 ^ 32) : (uvmalloc pt sz newsz PTE_W).Always K s fun r s' =>
      (r = .ok newsz ∧ Resized s s' pt sz newsz ∧ HasSpace K s' pt newsz rest) ∨
      (r = .ok 0 ∧ SameUser s s' pt sz ∧ HasSpace K s' pt sz rest) := by
  obtain ⟨m, h, hu, h₁, h₂, L, ho, hs, hU⟩ := hsp
  have htrap : TRAPPN = 2 ^ 26 - 2 := by decide
  have hcount : pageCount newsz ≤ 2 ^ 20 := by
    unfold pageCount PGSIZE
    omega
  obtain ⟨F, hF, hFr⟩ := hs.rotate hU.split
  -- the program owns the table; the user pages and the pages of others are its frame
  have halloc : (uvmalloc pt sz newsz PTE_W).wp K.Valid (fun _ => False) _ h :=
    wp_frame (wp_uvmalloc hU.table (by decide) hle hnew
      fun w hw hw' => hU.unmapped w hw (by omega)) hF
  refine .of_wp halloc ho ?_
  rintro r h' L' s' - ⟨hA, hs', hpost⟩ ho' -
  obtain ⟨rfl, m', h1', hN, hsA, hT', hNP⟩ | ⟨rfl, m', hT', hdec⟩ := hpost
  · obtain ⟨hres, hspace⟩ := hU.grown ho ho' hF hFr hs' hsA hT' hNP hle hcount
    exact .inl ⟨rfl, hres, hspace⟩
  refine .inr ⟨rfl, ⟨fun v hv => ?_, fun v hv => ?_⟩, ?_⟩
  · rw [hT'.pteOf_eq ho' hs' hv, hU.table.pteOf_eq ho hF hv]
    exact hdec v
  · exact hU.contents ho ho' hF hF hs' hFr hv (hU.owned hv)
  · obtain ⟨hu', hur, hus⟩ := hs'.rotate hFr
    exact ⟨m', h', hu', hA, h₂, L', ho', hur, hU.congr hus hT' hdec⟩

lemma growproc_grow (hsp : HasSpace K s pt sz rest) (hn : 0 < n) (hn' : n < 2 ^ 31) :
    (growproc pt sz n).Always K s fun r s' => ∃ res, r = .ok res ∧ GrowsBy s pt sz n res s' ∧
      HasSpace K s' pt res.2 rest := by
  have hsz := hsp.size_le
  obtain ⟨newsz, hnew⟩ : ∃ a : ℕ, (a : ℤ) = sz + n := ⟨(sz + n).toNat, by omega⟩
  have hadd : addInt sz n = newsz := by
    have := addInt_eq (a := sz) (n := n) (by omega) (by omega)
    omega
  unfold growproc
  rw [if_pos hn, hadd]
  refine (uvmalloc_always hsp (show sz ≤ newsz by omega) (by omega)).seq ?_
  rintro r s1 (⟨rfl, hres, hspace⟩ | ⟨rfl, hsame, hspace⟩)
  · refine ⟨newsz, rfl, ⟨HProg.Runs.total K _ s1, fun r s' hr => ?_⟩⟩
    rw [if_neg (by omega)] at hr
    obtain ⟨rfl, rfl⟩ := hr
    exact ⟨(0, newsz), rfl, .inl ⟨rfl, hnew, hres⟩, hspace⟩
  · refine ⟨0, rfl, ⟨HProg.Runs.total K _ s1, fun r s' hr => ?_⟩⟩
    rw [if_pos rfl] at hr
    obtain ⟨rfl, rfl⟩ := hr
    exact ⟨(-1, sz), rfl, .inr ⟨rfl, rfl, hsame⟩, hspace⟩

lemma growproc_shrink (ho : Owns K s h L) (hs : h.Split rest hu)
    (hU : UserSpace K pt (pageCount sz) m hu h₁ h₂) (hn : n < 0) (hn' : 0 ≤ sz + n) :
    (growproc pt sz n).Always K s fun r s' => ∃ res, r = .ok res ∧ GrowsBy s pt sz n res s' ∧
      HasSpace K s' pt res.2 rest := by
  have hsz := hU.size_le
  obtain ⟨newsz, hnew⟩ : ∃ a : ℕ, (a : ℤ) = sz + n := ⟨(sz + n).toNat, by omega⟩
  have hadd : addInt sz n = newsz := by
    have := addInt_eq (a := sz) (n := n) (by omega) (by omega)
    omega
  have hmono := pageCount_mono (a := newsz) (b := sz) (by omega)
  have hle := hU.le
  have hlist := physPages_append m 0 (pageCount newsz) (pageCount sz - pageCount newsz)
  rw [Nat.zero_add, Nat.add_sub_cancel' hmono] at hlist
  obtain ⟨hkeep, hdrop, h₂s, hPk, hPd⟩ := (hlist ▸ hU.pages).divide
  obtain ⟨F0, hF0, hFr0⟩ := hs.rotate hU.split
  obtain ⟨F, hFd, hFr⟩ := hFr0.rotate h₂s.symm
  obtain ⟨hF, hTd⟩ := hF0.assoc hFd
  -- the program owns the table and the pages to be removed
  have hdealloc : (uvmdealloc pt sz newsz).wp K.Valid (fun _ => False) _ h :=
    wp_frame (wp_uvmdealloc hTd hU.table (by omega) (by omega) hPd
      fun w hw hw' => hU.leaf w hw') hF
  have hgrow : (growproc pt sz n).wp K.Valid (fun _ => False) (fun res h' => res = (0, newsz) ∧
      ∃ h1', h'.Split h1' F ∧ h₁.SameDomain h1' ∧ IsTable K pt
        (unmapRange m (pageCount newsz) (pageCount sz - pageCount newsz)) h1') h := by
    unfold growproc
    rw [if_neg (by omega), if_pos hn, hadd]
    refine wp_seq hdealloc ?_
    rintro r h' ⟨h1', hs', rfl, hdom, hT'⟩
    exact ⟨rfl, h1', hs', hdom, hT'⟩
  refine .of_wp hgrow ho ?_
  rintro res h' L' s' - ⟨rfl, h1', hs', hdom, hT'⟩ ho' hsame
  refine ⟨_, rfl, .inl ⟨rfl, hnew, ?_⟩, ?_⟩
  · change Resized s s' pt sz newsz
    have hpte : ∀ v, v < MAXPN → pteOf s'.mem pt v = _ := fun v hv => hT'.pteOf_eq ho' hs' hv
    have hpte0 : ∀ v, v < MAXPN → pteOf s.mem pt v = m v := fun v hv =>
      hU.table.pteOf_eq ho hF0 hv
    refine ⟨fun v hv hv' => ⟨?_, ?_⟩, fun v hv hv' => by omega,
      ⟨L', ho'.chain, fun v hv hv' => ⟨?_, ?_⟩⟩, fun v hv hv' hv'' => ?_⟩
    · rw [hpte v (by unfold MAXPN; omega), hpte0 v (by unfold MAXPN; omega), unmapRange,
        if_neg (by omega)]
    · exact hU.contents ho ho' hF0 hF hs' hFr hv
        ((hPk.owned_iff _).mpr (mem_physPages.mpr ⟨v, Nat.zero_le v, by omega, rfl⟩))
    · rw [hpte v (by unfold MAXPN; omega), unmapRange, if_pos (by omega)]
      exact not_isValid_zero
    · rw [hpte0 v (by unfold MAXPN; omega)]
      have hd : hdrop (pte2pa (m v)) ≠ none :=
        (hPd.owned_iff _).mpr (mem_physPages.mpr ⟨v, hv, by omega, rfl⟩)
      -- the page is owned by neither part any more, and so it is free
      obtain ⟨hu1, hu2⟩ := hTd.right hd
      obtain ⟨hh1, hh2⟩ := hF.left (a := pte2pa (m v)) (by rwa [hu1])
      have hgone : ¬h' (pte2pa (m v)) ≠ none := by
        rw [hs'.owned_iff, hdom]
        simp [hu2, hh2]
      have hmem := (hsame.pages (pte2pa (m v))).mpr (.inr (by rw [hh1, hu1]; exact hd))
      exact hmem.resolve_right hgone
    · rw [hpte v hv'', hpte0 v hv'', unmapRange, if_neg (by omega)]
  · obtain ⟨hu', hur, hus⟩ := hs'.rotate hFr
    refine ⟨_, h', hu', h1', hkeep, L', ho', hur, hus, hT', ?_, fun v hv => ?_, fun v hv hv' => ?_⟩
    · have hold : physPages (unmapRange m (pageCount newsz) (pageCount sz - pageCount newsz)) 0
          (pageCount newsz) = physPages m 0 (pageCount newsz) :=
        physPages_congr fun w _ hw => if_neg (by omega)
      change Pages K (physPages _ 0 (pageCount newsz)) hkeep
      rw [hold]
      exact hPk
    · change v < pageCount newsz at hv
      rw [unmapRange, if_neg (by omega)]
      exact hU.leaf v (by omega)
    · change pageCount newsz ≤ v at hv
      unfold unmapRange
      by_cases hin : v < pageCount sz
      · rw [if_pos (by omega)]
        exact not_isValid_zero
      · rw [if_neg (by omega)]
        exact hU.unmapped v (by omega) hv'

end

lemma growproc_wraps (pt : ℕ) {sz : ℕ} (hn : -2 ^ 31 ≤ n) (hsz : sz ≤ 2 ^ 32)
    (hneg : sz + n < 0) : growproc pt sz n = pure (0, sz) := by
  have hge : addInt sz n ≥ sz := by
    unfold addInt
    omega
  unfold growproc uvmdealloc
  rw [if_neg (by omega), if_pos (by omega), if_pos hge]
  rfl

/-- `growproc(n)` does what it reports if and only if the process is not to shrink by more than its
size. -/
theorem growproc_grows_iff (K : KernelImage) (s : KMem) (pt sz : ℕ) (rest : PHeap)
    (hU : HasSpace K s pt sz rest) (n : ℤ) (hn : -2 ^ 31 ≤ n ∧ n < 2 ^ 31) :
    ((growproc pt sz n).Always K s fun r s' => ∃ res, r = .ok res ∧ GrowsBy s pt sz n res s' ∧
      HasSpace K s' pt res.2 rest) ↔ 0 ≤ sz + n := by
  obtain ⟨m, h, hu, h₁, h₂, L, ho, hs, hsp⟩ := hU
  have hsz := hsp.size_le
  constructor
  · intro hall
    by_contra hneg
    rw [growproc_wraps pt hn.1 (by omega) (by omega)] at hall
    obtain ⟨res, hres, hgrow, -⟩ := hall.2 (.ok (0, sz)) s ⟨rfl, rfl⟩
    obtain rfl : (0, sz) = res := Except.ok.inj hres
    obtain ⟨-, heq, -⟩ | ⟨heq, -⟩ := hgrow
    · dsimp only at heq
      omega
    · exact absurd (show (0 : ℤ) = -1 from heq) (by decide)
  · intro h0
    obtain hpos | hzero | hneg := lt_trichotomy 0 n
    · exact growproc_grow ⟨m, h, hu, h₁, h₂, L, ho, hs, hsp⟩ hpos hn.2
    · subst hzero
      refine ⟨⟨_, _, rfl, rfl⟩, ?_⟩
      rintro r s' ⟨rfl, rfl⟩
      refine ⟨_, rfl, .inl ⟨rfl, by simp, ?_⟩, m, h, hu, h₁, h₂, L, ho, hs, hsp⟩
      exact ⟨fun _ _ _ => ⟨rfl, rfl⟩, fun v hv hv' => absurd hv' (Nat.not_lt.mpr hv),
        ⟨L, ho.chain, fun v hv hv' => absurd hv' (Nat.not_lt.mpr hv)⟩, fun _ _ _ _ => rfl⟩
    · exact growproc_shrink ho hs hsp hneg h0

namespace FivePages

lemma created_table : created.mem (page 0) = fun _ => 0 := funext (by decide +kernel)

/-- An empty address space; the four pages behind its table are free. -/
lemma hasSpace_created : HasSpace image created (page 0) 0 Heap.empty := by
  refine ⟨fun _ => 0, _, _, _, Heap.empty, [page 1, page 2, page 3, page 4], ⟨?_, ?_, ?_, ?_, ?_⟩,
    fun _ => .inr ⟨rfl, rfl⟩, fun _ => .inl ⟨rfl, rfl⟩, isTable_empty (K := image) (by decide),
    pages_nil, ?_, ?_⟩
  · simp only [FreeChain]
    decide +kernel
  · decide
  · decide
  · decide +kernel
  · intro a pg hpg
    by_cases ha : a = page 0
    · rw [ha, update_self] at hpg
      rw [ha, created_table]
      exact Option.some.inj hpg
    · rw [update_of_ne ha] at hpg
      exact absurd hpg (by simp [Heap.empty])
  · exact fun v hv => absurd hv (Nat.not_lt_zero v)
  · exact fun _ _ _ => not_isValid_zero

end FivePages

/-- A process of size 0 grows by a page: there are free pages for it and for the table. -/
theorem growproc_grows_iff_five_pages :
    HasSpace FivePages.image FivePages.created (FivePages.page 0) 0 Heap.empty ∧
    ((growproc (FivePages.page 0) 0 4096).Always FivePages.image FivePages.created fun r s' =>
      ∃ res, r = .ok res ∧ GrowsBy FivePages.created (FivePages.page 0) 0 4096 res s' ∧
        HasSpace FivePages.image s' (FivePages.page 0) res.2 Heap.empty) ∧
    ∃ s', (growproc (FivePages.page 0) 0 4096).Runs FivePages.image FivePages.created
      (.ok (0, 4096)) s' := by
  have hspace := FivePages.hasSpace_created
  refine ⟨hspace, (growproc_grows_iff _ _ _ _ _ hspace 4096 (by decide)).mpr (by decide), ?_⟩
  exact HProg.exists_runs_of_run (by decide +kernel)

/-- A process that is to shrink below size 0, one of size 0 and, whatever the memory, one of a page
that is to shrink by two: the result is 0 and the size is as before. -/
theorem growproc_below_zero :
    HasSpace FivePages.image FivePages.created (FivePages.page 0) 0 Heap.empty ∧
    ((growproc (FivePages.page 0) 0 (-4096)).Runs FivePages.image FivePages.created (.ok (0, 0))
        FivePages.created ∧
      ¬GrowsBy FivePages.created (FivePages.page 0) 0 (-4096) (0, 0) FivePages.created) ∧
    ∀ (K : KernelImage) (s : KMem) (pt : ℕ), (growproc pt 4096 (-8192)).Runs K s (.ok (0, 4096)) s ∧
        ¬GrowsBy s pt 4096 (-8192) (0, 4096) s := by
  refine ⟨FivePages.hasSpace_created, ⟨?_, ?_⟩, fun K s pt => ⟨?_, ?_⟩⟩
  · rw [growproc_wraps _ (by decide) (by decide) (by decide)]
    exact ⟨rfl, rfl⟩
  · rintro (⟨-, heq, -⟩ | ⟨heq, -⟩)
    · exact absurd heq (by decide)
    · exact absurd heq (by decide)
  · rw [growproc_wraps pt (by decide) (by decide) (by decide)]
    exact ⟨rfl, rfl⟩
  · rintro (⟨-, heq, -⟩ | ⟨heq, -⟩)
    · exact absurd heq (by decide)
    · exact absurd heq (by decide)

end Xv6
