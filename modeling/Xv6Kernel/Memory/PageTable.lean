import Xv6Kernel.Memory.PageTree

/-!
# Page tables as maps

A page table is a map from page numbers to entries: the virtual address `v * PGSIZE` has the entry
`m v`, and 0 is the missing entry.  `IsTable K pt m h` says that the heap `h` consists of the pages
of a three-level table with the top page `pt` and the entries `m`.
-/

namespace Xv6

open Function

open HProg Heap

variable {K : KernelImage}

/-- The heap consists of the pages of a page table with the given entries. -/
def IsTable (K : KernelImage) (pt : ℕ) (m : ℕ → ℕ) (h : PHeap) : Prop :=
  ∃ t, PTree.Ok K 2 pt t h ∧ (∀ x, h x ≠ none → x ∈ PTree.addrs 2 pt t) ∧
    ∀ v, v < 2 ^ 27 → PTree.entry 2 t (v * PGSIZE) = m v

/-- The entry of the page number `v` is stored at `r`, and writing there changes this entry. -/
def PteAt (K : KernelImage) (pt : ℕ) (m : ℕ → ℕ) (v : ℕ) (r : PteRef) (h : PHeap) : Prop :=
  ∃ pg, h r.1 = some pg ∧ pg r.2 = m v ∧ ∀ e, IsTable K pt (update m v e)
    (update h r.1 (some (update pg r.2 e)))

/-- The page numbers below `MAXVA`. -/
abbrev MAXPN : ℕ := 2 ^ 26

lemma maxpn_mul : MAXPN * PGSIZE = MAXVA := by decide

lemma page_lt_maxva {v : ℕ} (hv : v < MAXPN) : v * PGSIZE < MAXVA := by
  rw [← maxpn_mul]
  exact Nat.mul_lt_mul_of_pos_right hv (by decide)

lemma pteAt_of_slot {pt v : ℕ} {m : ℕ → ℕ} {t : PTree 2} {r : PteRef} {h : PHeap}
    (hok : PTree.Ok K 2 pt t h) (hdom : ∀ x, h x ≠ none → x ∈ PTree.addrs 2 pt t)
    (hent : ∀ v, v < 2 ^ 27 → PTree.entry 2 t (v * PGSIZE) = m v) (hv : v < 2 ^ 27)
    (hs : PTree.slot 2 pt t (v * PGSIZE) = some r) : PteAt K pt m v r h := by
  obtain ⟨hmem, pg, hpg, hj⟩ := hok.isAt.slot hs
  refine ⟨pg, hpg, hj.trans (hent v hv), fun e => ?_⟩
  refine ⟨PTree.set 2 t (v * PGSIZE) e, hok.set hs hpg, fun x hx => ?_, fun w hw => ?_⟩
  · rw [PTree.addrs_set]
    by_cases hxr : x = r.1
    · exact hxr ▸ hmem
    · rw [update_of_ne hxr] at hx
      exact hdom x hx
  · by_cases hwv : w = v
    · subst hwv
      rw [update_self, PTree.entry_set_self hs]
    rw [update_of_ne hwv, PTree.entry_set_of_ne, hent w hw]
    by_contra hno
    push Not at hno
    exact hwv (page_eq_of_px hw hv hno)

/-- What `walk` returns: the place of the entry, or nothing; without `alloc` it changes nothing and
finds every entry that is not missing. -/
def WalkPost (K : KernelImage) (pt : ℕ) (m : ℕ → ℕ) (v : ℕ) (alloc : Bool) (h₁ h₁' : PHeap) :
    Option PteRef → Prop
  | none => alloc = false → m v = 0 ∧ h₁' = h₁
  | some r => PteAt K pt m v r h₁' ∧ (alloc = false → h₁' = h₁)

/-- `walk` yields the place of the entry, if there is a table for it. -/
lemma wp_walk {tol : String → Prop} {pt v : ℕ} {m : ℕ → ℕ} {alloc : Bool} {h h₁ h₂ : PHeap}
    (hs : h.Split h₁ h₂) (hT : IsTable K pt m h₁) (hv : v < MAXPN) :
    (walk pt (v * PGSIZE) alloc).wp K.Valid tol (fun r h' => ∃ h1', h'.Split h1' h₂ ∧
      IsTable K pt m h1' ∧ WalkPost K pt m v alloc h₁ h1' r) h := by
  obtain ⟨t, hok, hdom, hent⟩ := hT
  have hv' : v < 2 ^ 27 := hv.trans (by decide)
  unfold walk
  rw [if_neg (Nat.not_le.mpr (page_lt_maxva hv))]
  refine wp_mono (wp_frame (PTree.wp_walkFrom hok) hs) ?_
  rintro r h' ⟨h1', hs', t', hg, hr, hfalse⟩
  have hdom' : ∀ x, h1' x ≠ none → x ∈ PTree.addrs 2 pt t' := by
    intro x hx
    by_contra hno
    rw [hg.frame x hno] at hx
    exact hno (hg.keep x (hdom x hx))
  have hent' : ∀ v, v < 2 ^ 27 → PTree.entry 2 t' (v * PGSIZE) = m v := fun v hv =>
    (hg.entry_eq _).trans (hent v hv)
  refine ⟨h1', hs', ⟨t', hg.ok, hdom', hent'⟩, ?_⟩
  cases r with
  | none => exact fun hal => ⟨by rw [← hent' v hv', PTree.entry_of_slot_eq_none hr.symm],
      (hfalse hal).2⟩
  | some r => exact ⟨pteAt_of_slot hg.ok hdom' hent' hv' hr.symm, fun hal => (hfalse hal).2⟩

lemma isTable_empty {pt : ℕ} (hv : K.Valid pt) :
    IsTable K pt (fun _ => 0) (update Heap.empty pt (some fun _ => 0)) := by
  refine ⟨PTree.empty 2, PTree.ok_empty (update_self ..) hv, fun x hx => ?_,
    fun v _ => PTree.entry_empty 2 _⟩
  rw [PTree.addrs_empty, List.mem_singleton]
  by_contra hne
  exact hx (by simp [hne, Heap.empty])

lemma wp_uvmcreate {tol : String → Prop} {h : PHeap} :
    uvmcreate.wp K.Valid tol (fun r h' => match r with
      | none => h' = h
      | some pt => ∃ h₁, h'.Split h₁ h ∧ IsTable K pt (fun _ => 0) h₁) h := by
  refine wp_bind.mpr (wp_allocPage rfl fun p pg hv hp => ?_)
  refine wp_bind.mpr (wp_fill (update_self ..) ?_)
  refine ⟨_, fun x => ?_, isTable_empty hv⟩
  by_cases hx : x = p
  · subst hx
    simp [hp]
  · simp [hx, Heap.empty]

lemma wp_freewalk {tol : String → Prop} {pt : ℕ} {m : ℕ → ℕ} {h h₁ h₂ : PHeap}
    (hs : h.Split h₁ h₂) (hT : IsTable K pt m h₁) (hm : ∀ v, v < 2 ^ 27 → ¬IsValid (m v)) :
    (freewalk 3 pt).wp K.Valid tol (fun _ h' => h' = h₂) h := by
  obtain ⟨t, hok, hdom, hent⟩ := hT
  have hleaf : PTree.NoLeaf 2 t := by
    intro i2 c hc i1 d hd i0
    obtain ⟨v, hv, h2, h1, h0⟩ := exists_page i2 i1 i0
    have := hent v hv
    simp only [PTree.entry, h2, hc, h1, hd, h0, Option.elim_some] at this
    rw [this]
    exact hm v hv
  refine wp_mono (wp_frame (PTree.wp_freewalk hok hleaf) hs) ?_
  rintro - h' ⟨h1', hs', hfree, hframe⟩
  have hempty : h1' = Heap.empty := by
    funext x
    by_cases hx : x ∈ PTree.addrs 2 pt t
    · exact hfree x hx
    · rw [hframe x hx]
      exact not_not.mp (mt (hdom x) hx)
  rw [hempty] at hs'
  exact hs'.symm.eq_of_empty

/-! ## Adding entries -/

/-- The entries after `n` pages from `v` on have been mapped to those from `pa` on. -/
def mapRange (m : ℕ → ℕ) (v n pa perm : ℕ) : ℕ → ℕ := fun w =>
  if v ≤ w ∧ w < v + n then pa2pte (u64 (pa + (w - v) * PGSIZE)) ||| perm ||| PTE_V else m w

lemma mapRange_zero (m : ℕ → ℕ) (v pa perm : ℕ) : mapRange m v 0 pa perm = m := by
  funext w
  exact if_neg (by omega)

lemma mapRange_succ (m : ℕ → ℕ) {v n pa perm : ℕ} (hpa : pa < 2 ^ 64) :
    mapRange (update m v (pa2pte pa ||| perm ||| PTE_V)) (v + 1) n (u64 (pa + PGSIZE)) perm =
      mapRange m v (n + 1) pa perm := by
  funext w
  unfold mapRange
  by_cases hw : w = v
  · subst hw
    rw [if_neg (by omega), if_pos (by omega), update_self, Nat.sub_self, Nat.zero_mul,
      Nat.add_zero, u64, Nat.mod_eq_of_lt hpa]
  by_cases hin : v + 1 ≤ w ∧ w < v + 1 + n
  · have haddr : u64 (u64 (pa + PGSIZE) + (w - (v + 1)) * PGSIZE) = u64 (pa + (w - v) * PGSIZE) := by
      unfold u64 PGSIZE
      omega
    rw [if_pos hin, if_pos (by omega), haddr]
  · rw [if_neg hin, if_neg (by omega), update_of_ne hw]

/-- What `mappages` returns: 0 after it has mapped all pages, or -1 after a part of them. -/
def MapPost (n k : ℕ) (r : Int) : Prop := (r = 0 ∧ k = n) ∨ (r = -1 ∧ k < n)

lemma u64_next_page {v : ℕ} (hv : v < MAXPN) : u64 (v * PGSIZE + PGSIZE) = (v + 1) * PGSIZE := by
  unfold u64 PGSIZE
  unfold MAXPN at hv
  omega

/-- One round of `mappages`, before the rest of the loop `k`: the table is as before if a page for it
is missing, and otherwise the entry has been added. -/
lemma wp_mapRound {tol : String → Prop} {pt v last n pa perm : ℕ} {m : ℕ → ℕ} {h h₁ h₂ : PHeap}
    {Q : Int → PHeap → Prop} (hs : h.Split h₁ h₂) (hT : IsTable K pt m h₁) (hv : v < MAXPN)
    (hm : ¬IsValid (m v))
    (hfail : ∀ h' h1', h'.Split h1' h₂ → IsTable K pt m h1' → Q (-1) h')
    (hnext : ∀ h' h1', h'.Split h1' h₂ →
      IsTable K pt (update m v (pa2pte pa ||| perm ||| PTE_V)) h1' →
      (if v * PGSIZE = last then pure 0
        else mappagesFrom pt last perm n (u64 (v * PGSIZE + PGSIZE)) (u64 (pa + PGSIZE))).wp
          K.Valid tol Q h') :
    (mappagesFrom pt last perm (n + 1) (v * PGSIZE) pa).wp K.Valid tol Q h := by
  refine wp_seq (wp_walk hs hT hv) ?_
  rintro r h' ⟨h1', hs', hT', hr⟩
  cases r with
  | none => exact hfail h' h1' hs' hT'
  | some r =>
    obtain ⟨⟨pg, hpg, hj, hset⟩, -⟩ := hr
    obtain ⟨hr1, hr2⟩ := hs'.left (a := r.1) (by simp [hpg])
    refine wp_bind.mpr (wp_load (hr1.trans hpg) ?_)
    rw [hj, if_neg hm]
    exact wp_bind.mpr (wp_store (hr1.trans hpg) (hnext _ _ (hs'.update hr2 _) (hset _)))

section

variable {tol : String → Prop} {pt v n pa perm : ℕ} {m : ℕ → ℕ} {h h₁ h₂ : PHeap}
    (hs : h.Split h₁ h₂) (hT : IsTable K pt m h₁)
include hs hT

lemma wp_mappagesFrom (hv : v + n < MAXPN) (hpa : pa < 2 ^ 64)
    (hm : ∀ w, v ≤ w → w ≤ v + n → ¬IsValid (m w)) :
    (mappagesFrom pt ((v + n) * PGSIZE) perm (n + 1) (v * PGSIZE) pa).wp K.Valid tol
      (fun r h' => ∃ k h1', h'.Split h1' h₂ ∧ IsTable K pt (mapRange m v k pa perm) h1' ∧
        MapPost (n + 1) k r) h := by
  induction n generalizing v pa m h h₁ with
  | zero =>
    refine wp_mapRound hs hT hv (hm v le_rfl le_rfl) (fun h' h1' hs' hT' => ?_)
      fun h' h1' hs' hT' => ?_
    · exact ⟨0, h1', hs', by rwa [mapRange_zero], .inr ⟨rfl, by omega⟩⟩
    · rw [Nat.add_zero, if_pos rfl]
      refine ⟨1, h1', hs', ?_, .inl ⟨rfl, rfl⟩⟩
      rwa [← mapRange_succ m hpa, mapRange_zero]
  | succ n ih =>
    refine wp_mapRound hs hT (by omega) (hm v le_rfl (by omega)) (fun h' h1' hs' hT' => ?_)
      fun h' h1' hs' hT' => ?_
    · exact ⟨0, h1', hs', by rwa [mapRange_zero], .inr ⟨rfl, by omega⟩⟩
    · have hne : v * PGSIZE ≠ (v + (n + 1)) * PGSIZE := by
        unfold PGSIZE
        omega
      rw [if_neg hne, u64_next_page (by omega), show v + (n + 1) = v + 1 + n by omega]
      have hm' : ∀ w, v + 1 ≤ w → w ≤ v + 1 + n →
          ¬IsValid (update m v (pa2pte pa ||| perm ||| PTE_V) w) := by
        intro w hw hw'
        rw [update_of_ne (by omega)]
        exact hm w (by omega) (by omega)
      refine wp_mono (ih hs' hT' (by omega) (Nat.mod_lt _ (by decide)) hm') ?_
      rintro r h'' ⟨k, h1'', hs'', hT'', hr⟩
      rw [mapRange_succ m hpa] at hT''
      exact ⟨k + 1, h1'', hs'', hT'', hr.imp (fun hr => ⟨hr.1, by omega⟩) fun hr =>
        ⟨hr.1, by omega⟩⟩

/-- `mappages` maps the pages, or fails for want of a page for a table. -/
lemma wp_mappages (hn : 0 < n) (hv : v + n ≤ MAXPN)
    (hpa : pa < 2 ^ 64) (hm : ∀ w, v ≤ w → w < v + n → ¬IsValid (m w)) :
    (mappages pt (v * PGSIZE) (n * PGSIZE) pa perm).wp K.Valid tol
      (fun r h' => ∃ k h1', h'.Split h1' h₂ ∧ IsTable K pt (mapRange m v k pa perm) h1' ∧
        MapPost n k r) h := by
  obtain ⟨n, rfl⟩ : ∃ k, n = k + 1 := ⟨n - 1, by omega⟩
  have hlast : u64 (v * PGSIZE + (n + 1) * PGSIZE - PGSIZE) = (v + n) * PGSIZE := by
    unfold u64 PGSIZE
    unfold MAXPN at hv
    omega
  unfold mappages
  rw [if_neg (by simp), if_neg (by simp), if_neg (by simp [PGSIZE]), hlast,
    Nat.mul_div_cancel _ (by decide)]
  exact wp_mappagesFrom hs hT (by omega) hpa fun w hw hw' => hm w hw (by omega)

end

/-! ## Removing entries -/

structure Pages (K : KernelImage) (L : List ℕ) (h : PHeap) : Prop where
  nodup : L.Nodup
  valid : ∀ x ∈ L, K.Valid x
  owned_iff : ∀ x, h x ≠ none ↔ x ∈ L

lemma pages_nil : Pages K [] Heap.empty :=
  ⟨List.nodup_nil, by simp, fun x => by simp [Heap.empty]⟩

lemma Pages.perm {L L' : List ℕ} {h : PHeap} (hP : Pages K L h) (hp : L.Perm L') : Pages K L' h :=
  ⟨hp.nodup_iff.mp hP.nodup, fun x hx => hP.valid x (hp.mem_iff.mpr hx),
    fun x => (hP.owned_iff x).trans hp.mem_iff⟩

lemma Pages.drop {L : List ℕ} {p : ℕ} {h : PHeap} (hP : Pages K (p :: L) h) :
    Pages K L (update h p none) := by
  obtain ⟨hp, hnd⟩ := List.nodup_cons.mp hP.nodup
  refine ⟨hnd, fun x hx => hP.valid x (List.mem_cons_of_mem _ hx), fun x => ?_⟩
  by_cases hx : x = p
  · subst hx
    simp [hp]
  · rw [update_of_ne hx, hP.owned_iff x]
    simp [hx]

lemma Pages.cons {L : List ℕ} {p : ℕ} {pg : Page} {h : PHeap} (hP : Pages K L h)
    (hv : K.Valid p) (hp : h p = none) : Pages K (p :: L) (update h p (some pg)) := by
  have hmem : p ∉ L := fun hm => (hP.owned_iff p).mpr hm hp
  refine ⟨List.nodup_cons.mpr ⟨hmem, hP.nodup⟩, ?_, fun x => ?_⟩
  · simpa [hv] using hP.valid
  · by_cases hx : x = p
    · subst hx
      simp
    · rw [update_of_ne hx, hP.owned_iff x]
      simp [hx]

/-- The entries after those of `n` pages from `v` on have been removed. -/
def unmapRange (m : ℕ → ℕ) (v n : ℕ) : ℕ → ℕ := fun w => if v ≤ w ∧ w < v + n then 0 else m w

lemma unmapRange_zero (m : ℕ → ℕ) (v : ℕ) : unmapRange m v 0 = m := by
  funext w
  exact if_neg (by omega)

lemma unmapRange_succ (m : ℕ → ℕ) (v n : ℕ) :
    unmapRange (update m v 0) (v + 1) n = unmapRange m v (n + 1) := by
  funext w
  unfold unmapRange
  by_cases hw : w = v
  · subst hw
    rw [if_neg (by omega), if_pos (by omega), update_self]
  rw [update_of_ne hw]
  by_cases hin : v + 1 ≤ w ∧ w < v + 1 + n
  · rw [if_pos hin, if_pos (by omega)]
  · rw [if_neg hin, if_neg (by omega)]

def physPages (m : ℕ → ℕ) (v n : ℕ) : List ℕ := (List.range' v n).map fun w => pte2pa (m w)

lemma physPages_succ (m : ℕ → ℕ) (v n : ℕ) :
    physPages m v (n + 1) = pte2pa (m v) :: physPages m (v + 1) n := by
  simp [physPages, List.range'_succ]

lemma physPages_congr {m m' : ℕ → ℕ} {v n : ℕ} (h : ∀ w, v ≤ w → w < v + n → m' w = m w) :
    physPages m' v n = physPages m v n := by
  refine List.map_congr_left fun w hw => ?_
  rw [List.mem_range'_1] at hw
  rw [h w hw.1 hw.2]

def Leaves (doFree : Bool) (m : ℕ → ℕ) (v n : ℕ) (L L' : List ℕ) : Prop :=
  if doFree then L.Perm (physPages m v n ++ L') else L = L'

def IsLeaf (pte : ℕ) : Prop := IsValid pte ∧ pteFlags pte ≠ PTE_V

lemma Leaves.first {doFree : Bool} {m : ℕ → ℕ} {v n : ℕ} {L L' : List ℕ}
    (hL : Leaves doFree m v (n + 1) L L') : ∃ L1, Leaves doFree m v 1 L L1 ∧
      Leaves doFree (update m v 0) (v + 1) n L1 L' := by
  cases doFree with
  | false => exact ⟨L, rfl, by simpa [Leaves] using hL⟩
  | true =>
    refine ⟨physPages m (v + 1) n ++ L', ?_, ?_⟩
    · have hcons : L.Perm (physPages m v (n + 1) ++ L') := hL
      rw [physPages_succ] at hcons
      simpa [Leaves, physPages_succ, physPages] using hcons
    · have hrest : physPages (update m v 0) (v + 1) n = physPages m (v + 1) n :=
        physPages_congr fun w hw _ => update_of_ne (by omega) _ _
      simp [Leaves, hrest]

lemma wp_unmapRound {tol : String → Prop} {pt v stop n : ℕ} {doFree : Bool} {m : ℕ → ℕ}
    {L L1 : List ℕ} {h h₁ h₂ : PHeap} {Q : Unit → PHeap → Prop} (hs : h.Split h₁ h₂)
    (hT : IsTable K pt m h₁) (hP : Pages K L h₂) (hv : v < MAXPN) (hstop : v * PGSIZE < stop)
    (hm : IsLeaf (m v)) (hL : Leaves doFree m v 1 L L1)
    (hnext : ∀ h' h1' h2', h'.Split h1' h2' → IsTable K pt (update m v 0) h1' →
      h₁.SameDomain h1' → Pages K L1 h2' →
      (uvmunmapFrom pt stop doFree n (u64 (v * PGSIZE + PGSIZE))).wp K.Valid tol Q h') :
    (uvmunmapFrom pt stop doFree (n + 1) (v * PGSIZE)).wp K.Valid tol Q h := by
  unfold uvmunmapFrom
  rw [if_pos hstop]
  refine wp_seq (wp_walk hs hT hv) ?_
  rintro r h' ⟨h1', hs', hT', hr⟩
  rcases r with _ | r
  · -- the entry is valid, so `walk` finds it
    rw [(hr rfl).1] at hm
    exact absurd hm.1 not_isValid_zero
  obtain ⟨⟨pg, hpg, hj, hset⟩, hsame⟩ := hr
  obtain rfl := hsame rfl
  obtain ⟨hr1, hr2⟩ := hs'.left (a := r.1) (by simp [hpg])
  have hdom : ∀ pg', h1'.SameDomain (update h1' r.1 (some pg')) :=
    SameDomain.update (by simp [hpg])
  refine wp_bind.mpr (wp_load (hr1.trans hpg) ?_)
  rw [hj, if_neg (not_not.mpr hm.1), if_neg hm.2]
  rcases doFree with _ | _
  · have hL' : L = L1 := hL
    exact wp_bind.mpr (wp_store (hr1.trans hpg)
      (hnext _ _ _ (hs'.update hr2 _) (hset 0) (hdom _) (hL' ▸ hP)))
  have hP' : Pages K (pte2pa (m v) :: L1) h₂ := hP.perm hL
  have hown : h₂ (pte2pa (m v)) ≠ none := (hP'.owned_iff _).mpr List.mem_cons_self
  obtain ⟨hw, h₁w⟩ := hs'.right hown
  refine wp_bind.mpr (wp_freePage (hP'.valid _ List.mem_cons_self) (by rwa [hw]) ?_)
  have hs'' := (hs'.symm.update h₁w none).symm
  obtain ⟨hq1, hq2⟩ := hs''.left (a := r.1) (by simp [hpg])
  exact wp_bind.mpr (wp_store (hq1.trans hpg)
    (hnext _ _ _ (hs''.update hq2 _) (hset 0) (hdom _) hP'.drop))

section

variable {tol : String → Prop} {pt v n : ℕ} {doFree : Bool} {m : ℕ → ℕ} {L L' : List ℕ}
    {h h₁ h₂ : PHeap} (hs : h.Split h₁ h₂) (hT : IsTable K pt m h₁) (hP : Pages K L h₂)
    (hv : v + n ≤ MAXPN) (hm : ∀ w, v ≤ w → w < v + n → IsLeaf (m w))
    (hL : Leaves doFree m v n L L')
include hs hT hP hv hm hL

lemma wp_uvmunmapFrom : (uvmunmapFrom pt ((v + n) * PGSIZE) doFree n (v * PGSIZE)).wp K.Valid tol
      (fun _ h' => ∃ h1' h2', h'.Split h1' h2' ∧ IsTable K pt (unmapRange m v n) h1' ∧
        h₁.SameDomain h1' ∧ Pages K L' h2') h := by
  induction n generalizing v m L h h₁ h₂ with
  | zero =>
    unfold uvmunmapFrom
    rw [Nat.add_zero, if_neg (lt_irrefl _)]
    refine ⟨h₁, h₂, hs, by rwa [unmapRange_zero], .refl h₁, hP.perm ?_⟩
    cases doFree with
    | false => exact hL ▸ List.Perm.refl _
    | true => simpa [Leaves, physPages] using hL
  | succ n ih =>
    have hlt : v * PGSIZE < (v + (n + 1)) * PGSIZE := by
      unfold PGSIZE
      omega
    obtain ⟨L1, hL1, hL'⟩ := hL.first
    refine wp_unmapRound hs hT hP (by omega) hlt (hm v le_rfl (by omega)) hL1 ?_
    intro h' h1' h2' hs' hT' hdom hP'
    rw [u64_next_page (by omega), show v + (n + 1) = v + 1 + n by omega, ← unmapRange_succ]
    have hm' : ∀ w, v + 1 ≤ w → w < v + 1 + n → IsLeaf (update m v 0 w) := by
      intro w hw hw'
      rw [update_of_ne (by omega)]
      exact hm w (by omega) (by omega)
    refine wp_mono (ih hs' hT' hP' (by omega) hm' hL') ?_
    rintro r h'' ⟨h1'', h2'', hs'', hT'', hdom', hP''⟩
    exact ⟨h1'', h2'', hs'', hT'', hdom.trans hdom', hP''⟩

lemma wp_uvmunmap : (uvmunmap pt (v * PGSIZE) n doFree).wp K.Valid tol
      (fun _ h' => ∃ h1' h2', h'.Split h1' h2' ∧ IsTable K pt (unmapRange m v n) h1' ∧
        h₁.SameDomain h1' ∧ Pages K L' h2') h := by
  have hstop : u64 (v * PGSIZE + n * PGSIZE) = (v + n) * PGSIZE := by
    unfold u64 PGSIZE
    unfold MAXPN at hv
    omega
  unfold uvmunmap
  rw [if_neg (by simp), hstop]
  exact wp_uvmunmapFrom hs hT hP hv hm hL

end

end Xv6
