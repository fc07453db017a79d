import Xv6Kernel.Memory.PageTable

/-!
# The page table refines a finite map

The abstract map of a page table in the memory sends a virtual address to the physical page and the
flags of its valid entry at level 0.  `TableRun` is the set of the states that a client of one table
reaches: the table is made by `uvmcreate`, and then the client takes pages from the allocator, maps
and unmaps, with arguments that pass the checks of the functions, and with any failures of `kalloc`.
-/

namespace Xv6

open Function

open HProg Heap

variable {s' : KMem} {va n v a pa perm : ℕ}
variable {doFree : Bool} {r : Except String (Option PteRef)} {e : PteRef} {size npages : ℕ}

/-! ## The abstract map -/

/-- The entry of `va` at level 0 of the table at `pagetable`, read through the valid entries above
it; 0 if one of them is not valid. -/
def entryOf (mem : ℕ → Page) (va : ℕ) : ℕ → ℕ → ℕ
  | 0, pagetable => mem pagetable (px 0 va)
  | level + 1, pagetable =>
    let pte := mem pagetable (px (level + 1) va)
    if IsValid pte then entryOf mem va level (pte2pa pte) else 0

def decodePte (pte : ℕ) : Option (ℕ × ℕ) :=
  if IsValid pte then some (pte2pa pte, pteFlags pte) else none

def absMap (mem : ℕ → Page) (pagetable va : ℕ) : Option (ℕ × ℕ) :=
  decodePte (entryOf mem va 2 pagetable)

def tablePages (mem : ℕ → Page) : ℕ → ℕ → List ℕ
  | 0, pagetable => [pagetable]
  | level + 1, pagetable => pagetable :: (List.finRange 512).flatMap fun i =>
      if IsValid (mem pagetable i) then tablePages mem level (pte2pa (mem pagetable i)) else []

def mappedPages (mem : ℕ → Page) (pagetable va n : ℕ) : List ℕ :=
  (List.range n).map fun k => pte2pa (entryOf mem (va + k * PGSIZE) 2 pagetable)

/-! ## The states of a client of a page table -/

/-- The memory, and the pages a client of a page table has got from `kalloc` and not freed. -/
structure TableState where
  mem : KMem
  own : List ℕ

inductive TableOp where
  | kalloc
  | mappages (va size pa perm : ℕ)
  | uvmunmap (va npages : ℕ) (doFree : Bool)

/-- The arguments pass the checks of the functions.  For `mappages`: the range is page-aligned, not
empty, below `MAXVA` and unmapped; the physical addresses have at most 56 bits and `perm` consists
of flags.  For `uvmunmap`: the range is page-aligned, below `MAXVA` and mapped by leaves; the pages
to be freed are different pages of the client. -/
def TableOp.Passes (pagetable : ℕ) (s : TableState) : TableOp → Prop
  | .kalloc => True
  | .mappages va size pa perm => va % PGSIZE = 0 ∧ size % PGSIZE = 0 ∧ size ≠ 0 ∧
      va + size ≤ MAXVA ∧ pa + size ≤ 2 ^ 56 ∧ perm < 2 ^ 10 ∧
      ∀ k, k < size / PGSIZE → absMap s.mem.mem pagetable (va + k * PGSIZE) = none
  | .uvmunmap va npages doFree => va % PGSIZE = 0 ∧ va + npages * PGSIZE ≤ MAXVA ∧
      (∀ k, k < npages → ∃ pa flags, absMap s.mem.mem pagetable (va + k * PGSIZE) =
        some (pa, flags) ∧ flags ≠ PTE_V) ∧
      (doFree = true → (mappedPages s.mem.mem pagetable va npages).Nodup ∧
        ∀ pa ∈ mappedPages s.mem.mem pagetable va npages, pa ∈ s.own)

inductive TableStep (K : KernelImage) (pagetable : ℕ) : TableState → TableOp → TableState → Prop
  | kalloc {s : TableState} {r : Option ℕ} {mem' : KMem}
      (hrun : (allocPage : MProg (Option ℕ)).Runs K s.mem (.ok r) mem') :
      TableStep K pagetable s .kalloc ⟨mem', r.toList ++ s.own⟩
  | mappages {s : TableState} {va size pa perm : ℕ} {r : Int} {mem' : KMem}
      (hrun : (Xv6.mappages pagetable va size pa perm).Runs K s.mem (.ok r) mem') :
      TableStep K pagetable s (.mappages va size pa perm) ⟨mem', s.own⟩
  | uvmunmap {s : TableState} {va npages : ℕ} {doFree : Bool} {mem' : KMem}
      (hrun : (Xv6.uvmunmap pagetable va npages doFree).Runs K s.mem (.ok ()) mem') :
      TableStep K pagetable s (.uvmunmap va npages doFree) ⟨mem', s.own.filter fun pa =>
        ¬(doFree = true ∧ pa ∈ mappedPages s.mem.mem pagetable va npages)⟩

/-- The free list of the memory is well formed. -/
def AllocatorOk (K : KernelImage) (s : KMem) : Prop := ∃ L, Owns K s Heap.empty L

inductive TableRun (K : KernelImage) (pagetable : ℕ) : TableState → Prop
  | create {s s' : KMem} (hs : AllocatorOk K s)
      (hrun : uvmcreate.Runs K s (.ok (some pagetable)) s') : TableRun K pagetable ⟨s', []⟩
  | step {s s' : TableState} {op : TableOp} (hr : TableRun K pagetable s)
      (hop : op.Passes pagetable s) (hstep : TableStep K pagetable s op s') :
      TableRun K pagetable s'

/-- Every run of the program on the memory `s` ends, and does so as the predicate says. -/
def HProg.Always {α : Type} (K : KernelImage) (m : MProg α) (s : KMem)
    (P : Except String α → KMem → Prop) : Prop :=
  (∃ r s', m.Runs K s r s') ∧ ∀ r s', m.Runs K s r s' → P r s'

def PageAddr (va : ℕ) : Prop := va % PGSIZE = 0 ∧ va < MAXVA

/-- The functions of `vm.c` implement the operations of a finite map on the table at `pagetable`. -/
structure RefinesMap (K : KernelImage) (pagetable : ℕ) (s : TableState) : Prop where
  /-- `walk(va, 0)` changes nothing and finds exactly the abstract entry of `va`. -/
  walk_finds : ∀ va, PageAddr va → (walk pagetable va false).Always K s.mem fun r s' => s' = s.mem ∧
    ((r = .ok none ∧ absMap s.mem.mem pagetable va = none) ∨
      ∃ p i, r = .ok (some (p, i)) ∧ absMap s.mem.mem pagetable va = decodePte (s.mem.mem p i))
  /-- A successful `mappages` adds exactly its entries, a failing one a proper prefix of them. -/
  mappages_adds : ∀ va size pa perm, (TableOp.mappages va size pa perm).Passes pagetable s →
    (mappages pagetable va size pa perm).Always K s.mem fun r s' => ∃ k,
      ((r = .ok 0 ∧ k = size / PGSIZE) ∨ (r = .ok (-1) ∧ k < size / PGSIZE)) ∧
      ∀ va', PageAddr va' → absMap s'.mem pagetable va' =
        if va ≤ va' ∧ va' < va + k * PGSIZE then
          some (pgrounddown (pa + (va' - va)), perm ||| PTE_V)
        else absMap s.mem.mem pagetable va'
  uvmunmap_removes : ∀ va npages doFree, (TableOp.uvmunmap va npages doFree).Passes pagetable s →
    (uvmunmap pagetable va npages doFree).Always K s.mem fun r s' => r = .ok () ∧
      ∀ va', PageAddr va' → absMap s'.mem pagetable va' =
        if va ≤ va' ∧ va' < va + npages * PGSIZE then none else absMap s.mem.mem pagetable va'
  /-- The interior pages that `walk` allocates do not change the abstract map. -/
  walk_alloc : ∀ va, PageAddr va → (walk pagetable va true).Always K s.mem fun r s' =>
    (∃ x, r = .ok x) ∧
      ∀ va', PageAddr va' → absMap s'.mem pagetable va' = absMap s.mem.mem pagetable va'
  entries_distinct : ∀ va va' e e' s' s'', PageAddr va → PageAddr va' → va ≠ va' →
    (walk pagetable va false).Runs K s.mem (.ok (some e)) s' →
    (walk pagetable va' false).Runs K s.mem (.ok (some e')) s'' → e ≠ e'
  /-- Once every leaf is removed, `freewalk` frees every page of the table exactly once. -/
  freewalk_frees : (∀ va, PageAddr va → absMap s.mem.mem pagetable va = none) →
    (freewalk 3 pagetable).Always K s.mem fun r s' => r = .ok () ∧
      ∃ L L', FreeChain s.mem.mem s.mem.freelist L ∧ FreeChain s'.mem s'.freelist L' ∧
        L'.Nodup ∧ L'.Perm (tablePages s.mem.mem 2 pagetable ++ L)

/-! ## The tree of a table and the memory -/

variable {K : KernelImage}

section

variable {t : PTree n} {h : PHeap} (hok : PTree.Ok K n a t h) {mem : ℕ → Page}
    (hmem : ∀ x pg, h x = some pg → mem x = pg)
include hok hmem

lemma PTree.Ok.entryOf : Xv6.entryOf mem va n a = PTree.entry n t va := by
  induction n generalizing a with
  | zero => rw [Xv6.entryOf, hmem a _ hok.isAt.top]; rfl
  | succ n ih =>
    unfold Xv6.entryOf
    rw [hmem a _ hok.isAt.top]
    cases hc : t (px (n + 1) va) with
    | none => simp [PTree.page_of_none hc, not_isValid_zero, PTree.entry, hc]
    | some c =>
      have hv := (hok.child hc).valid _ (PTree.top_mem_addrs _ _ _)
      simp only [PTree.page_of_some hc, isValid_table, if_true, hv.pte2pa (show PTE_V < 1024 by decide)]
      simpa [PTree.entry, hc] using ih (hok.child hc)

lemma PTree.Ok.tablePages : Xv6.tablePages mem n a = PTree.addrs n a t := by
  induction n generalizing a with
  | zero => rfl
  | succ n ih =>
    unfold Xv6.tablePages PTree.addrs
    rw [hmem a _ hok.isAt.top]
    congr 2
    funext i
    cases hc : t i with
    | none => simp [PTree.page_of_none hc, not_isValid_zero]
    | some c =>
      have hv := (hok.child hc).valid _ (PTree.top_mem_addrs _ _ _)
      simp only [PTree.page_of_some hc, isValid_table, if_true, hv.pte2pa (show PTE_V < 1024 by decide)]
      simpa using ih (hok.child hc)

end

/-- The state of a client: the memory consists of the free pages, the table with the entries `m`,
and the pages of the client. -/
structure ClientInv (K : KernelImage) (pagetable : ℕ) (s : TableState) (m : ℕ → ℕ)
    (h h₁ h₂ : PHeap) (L : List ℕ) : Prop where
  owns : Owns K s.mem h L
  split : h.Split h₁ h₂
  table : IsTable K pagetable m h₁
  pages : Pages K s.own h₂
  high : ∀ v, MAXPN ≤ v → v < 2 ^ 27 → m v = 0

lemma PageAddr.exists_page (h : PageAddr va) : ∃ v, v < MAXPN ∧ va = v * PGSIZE := by
  refine ⟨va / PGSIZE, ?_, (Nat.div_mul_cancel (Nat.dvd_of_mod_eq_zero h.1)).symm⟩
  rw [Nat.div_lt_iff_lt_mul (by decide), maxpn_mul]
  exact h.2

lemma pageAddr_mul (hv : v < MAXPN) : PageAddr (v * PGSIZE) :=
  ⟨Nat.mul_mod_left _ _, page_lt_maxva hv⟩

lemma HProg.Always.of_wp {α : Type} {m : MProg α} {Q : α → PHeap → Prop} {s : KMem} {h : PHeap}
    {L : List ℕ} {P : Except String α → KMem → Prop} (hm : m.wp K.Valid (fun _ => False) Q h)
    (ho : Owns K s h L) (hP : ∀ a h' L' s', m.Runs K s (.ok a) s' → Q a h' → Owns K s' h' L' →
      SamePages s h L s' h' L' → P (.ok a) s') : m.Always K s P := by
  refine ⟨HProg.Runs.total K m s, fun r s' hr => ?_⟩
  have hend := hr.sound hm ho
  cases r with
  | error msg => exact hend.elim
  | ok a =>
    obtain ⟨h', L', hQ, ho', hsame⟩ := hend
    exact hP a h' L' s' hr hQ ho' hsame

lemma HProg.runs_bind {α β : Type} {m : MProg α} {c : α → MProg β} {s : KMem}
    {r : Except String β} : (m >>= c).Runs K s r s' ↔
      (∃ msg, r = .error msg ∧ m.Runs K s (.error msg) s') ∨
      ∃ a s1, m.Runs K s (.ok a) s1 ∧ (c a).Runs K s1 r s' := by
  induction m generalizing s with
  | ret a =>
    constructor
    · exact fun h => .inr ⟨a, s, ⟨rfl, rfl⟩, h⟩
    · rintro (⟨msg, -, h, -⟩ | ⟨a', s1, ⟨h, rfl⟩, hr⟩)
      · exact absurd h (by simp)
      · obtain rfl := Except.ok.inj h
        exact hr
  | read p k ih => exact ih _
  | modify p f k ih => exact ih
  | alloc k ih =>
    refine (or_congr (ih none) (ih _)).trans ?_
    simp only [HProg.Runs, and_or_left, or_and_right, exists_or]
    exact or_or_or_comm
  | free p k ih =>
    rw [show (HProg.free p k >>= c) = HProg.free p (k.bind c) from rfl]
    simp only [HProg.Runs]
    cases kfree K p s with
    | done _ s1 => exact ih
    | panic msg =>
      constructor
      · exact fun h => .inl ⟨msg, h.1, rfl, h.2⟩
      · rintro (⟨msg', rfl, h, rfl⟩ | ⟨a, s1, ⟨h, -⟩, -⟩)
        · obtain rfl := Except.error.inj h
          exact ⟨rfl, rfl⟩
        · exact absurd h (by simp)
    | blocked => simp
  | pick k ih =>
    refine (exists_congr fun n => ih n).trans ?_
    rw [exists_or]
    refine or_congr ⟨?_, ?_⟩ ⟨?_, ?_⟩
    · rintro ⟨n, msg, hr, h⟩
      exact ⟨msg, hr, n, h⟩
    · rintro ⟨msg, hr, n, h⟩
      exact ⟨n, msg, hr, h⟩
    · rintro ⟨n, a, s1, h, h'⟩
      exact ⟨a, s1, ⟨n, h⟩, h'⟩
    · rintro ⟨a, s1, ⟨n, h⟩, h'⟩
      exact ⟨n, a, s1, h, h'⟩
  | panic msg =>
    constructor
    · exact fun h => .inl ⟨msg, h.1, rfl, h.2⟩
    · rintro (⟨msg', rfl, h, rfl⟩ | ⟨a, s1, ⟨h, -⟩, -⟩)
      · obtain rfl := Except.error.inj h
        exact ⟨rfl, rfl⟩
      · exact absurd h (by simp)

lemma HProg.Always.mono {α : Type} {m : MProg α} {s : KMem}
    {P Q : Except String α → KMem → Prop} (hm : m.Always K s P) (hPQ : ∀ r s', P r s' → Q r s') :
    m.Always K s Q :=
  ⟨hm.1, fun r s' hr => hPQ r s' (hm.2 r s' hr)⟩

lemma HProg.Always.seq {α β : Type} {m : MProg α} {c : α → MProg β} {s : KMem}
    {P : Except String α → KMem → Prop} {Q : Except String β → KMem → Prop} (hm : m.Always K s P)
    (hok : ∀ r s1, P r s1 → ∃ a, r = .ok a ∧ (c a).Always K s1 Q) : (m >>= c).Always K s Q := by
  refine ⟨HProg.Runs.total K _ s, fun r s' hr => ?_⟩
  obtain ⟨msg, -, hmsg⟩ | ⟨a, s1, ha, hc⟩ := HProg.runs_bind.mp hr
  · obtain ⟨a, ha, -⟩ := hok _ s' (hm.2 _ s' hmsg)
    exact absurd ha (by simp)
  · obtain ⟨a', ha', hall⟩ := hok _ s1 (hm.2 _ s1 ha)
    obtain rfl := Except.ok.inj ha'
    exact hall.2 r s' hc

lemma IsTable.absMap_eq {pt : ℕ} {m : ℕ → ℕ} {s : KMem} {h h₁ h₂ : PHeap} {L : List ℕ}
    (hT : IsTable K pt m h₁) (ho : Owns K s h L) (hs : h.Split h₁ h₂) (hv : v < MAXPN) :
    entryOf s.mem (v * PGSIZE) 2 pt = m v ∧ absMap s.mem pt (v * PGSIZE) = decodePte (m v) := by
  obtain ⟨t, hok, -, hent⟩ := hT
  have hagree : ∀ x pg, h₁ x = some pg → s.mem x = pg := fun x pg hx =>
    ho.agree x pg (((hs.left (by simp [hx])).1).trans hx)
  have he : entryOf s.mem (v * PGSIZE) 2 pt = m v := by
    rw [hok.entryOf hagree, hent v (hv.trans (by decide))]
  exact ⟨he, by rw [absMap, he]⟩

lemma IsTable.unique {pt : ℕ} {m m' : ℕ → ℕ} {h : PHeap} (hT : IsTable K pt m h)
    (hT' : IsTable K pt m' h) (v : ℕ) (hv : v < 2 ^ 27) : m v = m' v := by
  obtain ⟨t, hok, -, hent⟩ := hT
  obtain ⟨t', hok', -, hent'⟩ := hT'
  have hmem : ∀ x pg, h x = some pg → (fun x => (h x).getD fun _ => 0) x = pg := by
    intro x pg hx
    simp [hx]
  rw [← hent v hv, ← hent' v hv, ← hok.entryOf hmem, ← hok'.entryOf hmem]

lemma decodePte_eq_none {pte : ℕ} : decodePte pte = none ↔ ¬IsValid pte := by
  unfold decodePte
  split <;> simp_all

lemma decodePte_new (hpa : pa < 2 ^ 56) (hperm : perm < 2 ^ 10) :
    decodePte (pa2pte pa ||| perm ||| PTE_V) = some (pgrounddown pa, perm ||| PTE_V) := by
  have hf : perm ||| PTE_V < 1024 := Nat.or_lt_two_pow (n := 10) hperm (by decide)
  have hodd : (perm ||| PTE_V) % 2 = 1 := by
    simp [PTE_V]
  unfold decodePte
  rw [Nat.or_assoc, if_pos ((isValid_iff _).mpr (by rw [pteFlags_pa2pte_or hf, hodd])),
    pte2pa_pa2pte_or hpa hf, pteFlags_pa2pte_or hf]

lemma IsTable.mappedPages_eq {pt : ℕ} {m : ℕ → ℕ} {s : KMem} {h h₁ h₂ : PHeap} {L : List ℕ}
    (hT : IsTable K pt m h₁) (ho : Owns K s h L) (hs : h.Split h₁ h₂) (hv : v + n ≤ MAXPN) :
    mappedPages s.mem pt (v * PGSIZE) n = physPages m v n := by
  unfold mappedPages physPages
  rw [List.range'_eq_map_range, List.map_map]
  refine List.map_congr_left fun k hk => ?_
  rw [List.mem_range] at hk
  rw [← Nat.add_mul, (hT.absMap_eq ho hs (by omega)).1]
  rfl

lemma perm_append_filter {own F : List ℕ} (hown : own.Nodup) (hF : F.Nodup)
    (hsub : ∀ x ∈ F, x ∈ own) : own.Perm (F ++ own.filter fun x => x ∉ F) := by
  refine (List.perm_ext_iff_of_nodup hown ?_).mpr fun x => ?_
  · refine hF.append (hown.filter _) fun x hx hx' => ?_
    simp only [List.mem_filter, decide_eq_true_eq] at hx'
    exact hx'.2 hx
  · simp only [List.mem_append, List.mem_filter, decide_eq_true_eq]
    by_cases hx : x ∈ F
    · simp [hx, hsub x hx]
    · simp [hx]

lemma walkFrom_false_mem {s : KMem} (hrun : (walkFrom va false n a).Runs K s r s') : s' = s := by
  induction n generalizing a with
  | zero => exact hrun.2
  | succ n ih =>
    simp only [walkFrom, HProg.load] at hrun
    change (if IsValid (s.mem a (px (n + 1) va)) then _ else _ : MProg _).Runs K s r s' at hrun
    split at hrun
    · exact ih hrun
    · exact hrun.2

lemma walk_false_mem {pt : ℕ} {s : KMem} (hrun : (walk pt va false).Runs K s r s') : s' = s := by
  unfold walk at hrun
  split at hrun
  · exact hrun.2
  · exact walkFrom_false_mem hrun

namespace ClientInv

variable {pt : ℕ} {s : TableState} {m : ℕ → ℕ} {h h₁ h₂ : PHeap} {L : List ℕ}

section

variable (hI : ClientInv K pt s m h h₁ h₂ L)
include hI

lemma mappages_args
    (hp : (TableOp.mappages va size pa perm).Passes pt s) : ∃ v n, va = v * PGSIZE ∧
      size = n * PGSIZE ∧ 0 < n ∧ v + n ≤ MAXPN ∧ ∀ w, v ≤ w → w < v + n → ¬IsValid (m w) := by
  obtain ⟨hva, hsize, hne, hmax, -, -, hfree⟩ := hp
  obtain ⟨v, rfl⟩ := Nat.dvd_of_mod_eq_zero hva
  obtain ⟨n, rfl⟩ := Nat.dvd_of_mod_eq_zero hsize
  rw [← maxpn_mul, ← Nat.mul_add, Nat.mul_comm MAXPN] at hmax
  have hvn : v + n ≤ MAXPN := Nat.le_of_mul_le_mul_left hmax (by decide)
  refine ⟨v, n, Nat.mul_comm _ _, Nat.mul_comm _ _, Nat.pos_of_ne_zero ?_, hvn, fun w hw hw' => ?_⟩
  · rintro rfl
    exact hne rfl
  · have := hfree (w - v) (by rw [Nat.mul_div_cancel_left _ (by decide)]; omega)
    rw [Nat.mul_comm PGSIZE v, ← Nat.add_mul, show v + (w - v) = w by omega,
      (hI.table.absMap_eq hI.owns hI.split (by omega)).2] at this
    exact decodePte_eq_none.mp this

lemma uvmunmap_args
    (hp : (TableOp.uvmunmap va npages doFree).Passes pt s) : ∃ v, va = v * PGSIZE ∧
      v + npages ≤ MAXPN ∧ (∀ w, v ≤ w → w < v + npages → IsLeaf (m w)) ∧
      Leaves doFree m v npages s.own (s.own.filter fun pa =>
        ¬(doFree = true ∧ pa ∈ mappedPages s.mem.mem pt va npages)) := by
  obtain ⟨hva, hmax, hleaf, hfree⟩ := hp
  obtain ⟨v, rfl⟩ := Nat.dvd_of_mod_eq_zero hva
  rw [Nat.mul_comm PGSIZE v] at *
  rw [← maxpn_mul, ← Nat.add_mul] at hmax
  have hvn : v + npages ≤ MAXPN := Nat.le_of_mul_le_mul_right hmax (by decide)
  refine ⟨v, rfl, hvn, fun w hw hw' => ?_, ?_⟩
  · obtain ⟨pa, flags, habs, hne⟩ := hleaf (w - v) (by omega)
    rw [← Nat.add_mul, show v + (w - v) = w by omega,
      (hI.table.absMap_eq hI.owns hI.split (by omega)).2] at habs
    unfold decodePte at habs
    split at habs
    · rename_i hvalid
      simp only [Option.some.injEq, Prod.mk.injEq] at habs
      exact ⟨hvalid, by rw [habs.2]; exact hne⟩
    · cases habs
  · rw [hI.table.mappedPages_eq hI.owns hI.split hvn] at *
    cases doFree with
    | false => simp [Leaves]
    | true =>
      obtain ⟨hnd, hsub⟩ := hfree rfl
      simpa [Leaves] using perm_append_filter hI.pages.nodup hnd hsub

lemma walk_finds (hva : PageAddr va) : (walk pt va false).Always K s.mem fun r s' => s' = s.mem ∧
      ((r = .ok none ∧ absMap s.mem.mem pt va = none) ∨
        ∃ p i, r = .ok (some (p, i)) ∧ absMap s.mem.mem pt va = decodePte (s.mem.mem p i)) := by
  obtain ⟨v, hv, rfl⟩ := hva.exists_page
  obtain ⟨-, habs⟩ := hI.table.absMap_eq hI.owns hI.split hv
  refine .of_wp (wp_walk hI.split hI.table hv) hI.owns fun r h' L' s' hrun hpost ho' _ => ?_
  refine ⟨walk_false_mem hrun, ?_⟩
  obtain ⟨h1', hs', -, hpost⟩ := hpost
  rw [habs]
  cases r with
  | none =>
    refine .inl ⟨rfl, decodePte_eq_none.mpr ?_⟩
    rw [(hpost rfl).1]
    exact not_isValid_zero
  | some e =>
    obtain ⟨⟨pg, hpg, hj, -⟩, -⟩ := hpost
    refine .inr ⟨e.1, e.2, rfl, ?_⟩
    rw [← walk_false_mem hrun, ho'.agree e.1 pg ((hs'.left (by simp [hpg])).1.trans hpg), hj]

lemma mappages_adds (hp : (TableOp.mappages va size pa perm).Passes pt s) :
    (mappages pt va size pa perm).Always K s.mem fun r s' => ∃ k,
      ((r = .ok 0 ∧ k = size / PGSIZE) ∨ (r = .ok (-1) ∧ k < size / PGSIZE)) ∧
      ∀ va', PageAddr va' → absMap s'.mem pt va' =
        if va ≤ va' ∧ va' < va + k * PGSIZE then
          some (pgrounddown (pa + (va' - va)), perm ||| PTE_V)
        else absMap s.mem.mem pt va' := by
  obtain ⟨v, n, rfl, rfl, hn, hvn, hm⟩ := hI.mappages_args hp
  obtain ⟨-, -, -, -, hpa, hperm, -⟩ := hp
  have hsize : n * PGSIZE / PGSIZE = n := Nat.mul_div_cancel _ (by decide)
  refine .of_wp (wp_mappages hI.split hI.table hn hvn (by omega) hm) hI.owns ?_
  rintro r h' L' s' - ⟨k, h1', hs', hT', hr⟩ ho' -
  have hk : k ≤ n := by
    obtain ⟨-, rfl⟩ | ⟨-, hk⟩ := hr
    · exact le_rfl
    · exact hk.le
  refine ⟨k, by rw [hsize]; exact hr.imp (fun hr => ⟨by rw [hr.1], hr.2⟩) fun hr =>
    ⟨by rw [hr.1], hr.2⟩, fun va' hva' => ?_⟩
  obtain ⟨w, hw, rfl⟩ := hva'.exists_page
  rw [(hT'.absMap_eq ho' hs' hw).2, (hI.table.absMap_eq hI.owns hI.split hw).2]
  unfold mapRange
  by_cases hin : v ≤ w ∧ w < v + k
  · have hin' : v * PGSIZE ≤ w * PGSIZE ∧ w * PGSIZE < v * PGSIZE + k * PGSIZE := by
      rw [← Nat.add_mul]
      exact ⟨Nat.mul_le_mul_right _ hin.1, Nat.mul_lt_mul_of_pos_right hin.2 (by decide)⟩
    have hlt : pa + (w - v) * PGSIZE < 2 ^ 56 := by
      unfold PGSIZE at *
      omega
    have hu : u64 (pa + (w - v) * PGSIZE) = pa + (w - v) * PGSIZE :=
      Nat.mod_eq_of_lt (hlt.trans (by decide))
    rw [if_pos hin, if_pos hin', hu, decodePte_new hlt hperm, Nat.sub_mul]
  · have hin' : ¬(v * PGSIZE ≤ w * PGSIZE ∧ w * PGSIZE < v * PGSIZE + k * PGSIZE) := by
      unfold PGSIZE
      omega
    rw [if_neg hin, if_neg hin']

lemma uvmunmap_removes (hp : (TableOp.uvmunmap va npages doFree).Passes pt s) :
    (uvmunmap pt va npages doFree).Always K s.mem fun r s' => r = .ok () ∧
      ∀ va', PageAddr va' → absMap s'.mem pt va' =
        if va ≤ va' ∧ va' < va + npages * PGSIZE then none else absMap s.mem.mem pt va' := by
  obtain ⟨v, rfl, hvn, hm, hL⟩ := hI.uvmunmap_args hp
  refine .of_wp (wp_uvmunmap hI.split hI.table hI.pages hvn hm hL) hI.owns ?_
  rintro r h' L' s' - ⟨h1', h2', hs', hT', -, -⟩ ho' -
  refine ⟨rfl, fun va' hva' => ?_⟩
  obtain ⟨w, hw, rfl⟩ := hva'.exists_page
  rw [(hT'.absMap_eq ho' hs' hw).2, (hI.table.absMap_eq hI.owns hI.split hw).2]
  unfold unmapRange
  by_cases hin : v ≤ w ∧ w < v + npages
  · rw [if_pos hin, if_pos (by unfold PGSIZE; omega)]
    exact decodePte_eq_none.mpr not_isValid_zero
  · rw [if_neg hin, if_neg (by unfold PGSIZE; omega)]

lemma walk_alloc (hva : PageAddr va) :
    (walk pt va true).Always K s.mem fun r s' => (∃ x, r = .ok x) ∧
      ∀ va', PageAddr va' → absMap s'.mem pt va' = absMap s.mem.mem pt va' := by
  obtain ⟨v, hv, rfl⟩ := hva.exists_page
  refine .of_wp (wp_walk hI.split hI.table hv) hI.owns ?_
  rintro r h' L' s' - ⟨h1', hs', hT', -⟩ ho' -
  refine ⟨⟨r, rfl⟩, fun va' hva' => ?_⟩
  obtain ⟨w, hw, rfl⟩ := hva'.exists_page
  rw [(hT'.absMap_eq ho' hs' hw).2, (hI.table.absMap_eq hI.owns hI.split hw).2]

lemma pteAt_of_walk (hv : v < MAXPN)
    (hrun : (walk pt (v * PGSIZE) false).Runs K s.mem (.ok (some e)) s') : PteAt K pt m v e h₁ := by
  have hend : EndsWell K (fun _ => False) _ s.mem h L s' (.ok (some e)) :=
    hrun.sound (wp_walk hI.split hI.table hv) hI.owns
  obtain ⟨h', L', ⟨h1', -, -, hpte, hsame⟩, -⟩ := hend
  rwa [hsame rfl] at hpte

lemma entries_distinct {va' : ℕ} {e' : PteRef} {s'' : KMem} (hva : PageAddr va)
    (hva' : PageAddr va') (hne : va ≠ va')
    (hrun : (walk pt va false).Runs K s.mem (.ok (some e)) s')
    (hrun' : (walk pt va' false).Runs K s.mem (.ok (some e')) s'') : e ≠ e' := by
  obtain ⟨v, hv, rfl⟩ := hva.exists_page
  obtain ⟨w, hw, rfl⟩ := hva'.exists_page
  rintro rfl
  have hvw : v ≠ w := fun he => hne (by rw [he])
  obtain ⟨pg, hpg, -, hset⟩ := hI.pteAt_of_walk hv hrun
  obtain ⟨pg', hpg', -, hset'⟩ := hI.pteAt_of_walk hw hrun'
  obtain rfl : pg = pg' := Option.some.inj (hpg.symm.trans hpg')
  -- writing to the shared place would change the entry of `v` and not change it
  have := (hset (m v + 1)).unique (hset' (m v + 1)) v (hv.trans (by decide))
  rw [update_self, update_of_ne hvw] at this
  omega

lemma freewalk_frees (hnone : ∀ va, PageAddr va → absMap s.mem.mem pt va = none) :
    (freewalk 3 pt).Always K s.mem fun r s' => r = .ok () ∧
      ∃ L L', FreeChain s.mem.mem s.mem.freelist L ∧ FreeChain s'.mem s'.freelist L' ∧
        L'.Nodup ∧ L'.Perm (tablePages s.mem.mem 2 pt ++ L) := by
  have hm : ∀ v, v < 2 ^ 27 → ¬IsValid (m v) := by
    intro v hv
    by_cases hlow : v < MAXPN
    · rw [← decodePte_eq_none, ← (hI.table.absMap_eq hI.owns hI.split hlow).2]
      exact hnone _ (pageAddr_mul hlow)
    · rw [hI.high v (Nat.not_lt.mp hlow) hv]
      exact not_isValid_zero
  refine .of_wp (wp_freewalk hI.split hI.table hm) hI.owns ?_
  rintro - h' L' s' - rfl ho' hsame
  refine ⟨rfl, L, L', hI.owns.chain, ho'.chain, ho'.nodup, ?_⟩
  obtain ⟨t, hok, hdom, -⟩ := hI.table
  have hmem : ∀ x, h₁ x ≠ none ↔ x ∈ PTree.addrs 2 pt t := fun x =>
    ⟨hdom x, fun hx => hok.isAt.owned hx⟩
  rw [hok.tablePages fun x pg hx => hI.owns.agree x pg
    (((hI.split.left (by simp [hx])).1).trans hx)]
  refine (List.perm_ext_iff_of_nodup ho'.nodup ?_).mpr fun x => ?_
  · refine hok.nodup.append hI.owns.nodup fun x hx hxL => ?_
    exact (hI.split.owned_iff x).mpr (.inl ((hmem x).mpr hx)) (hI.owns.disjoint x hxL)
  · rw [List.mem_append, ← hmem x]
    have hpages := hsame.pages x
    rw [hI.split.owned_iff x] at hpages
    by_cases hx : h' x = none
    · simp only [hx, ne_eq, not_true, or_false] at hpages
      rw [hpages, or_comm]
    have h₁x := (hI.split.right hx).2
    have hxL : x ∉ L := fun hxL => (hI.split.owned_iff x).mpr (.inr hx) (hI.owns.disjoint x hxL)
    have hxL' : x ∉ L' := fun hxL' => hx (ho'.disjoint x hxL')
    simp [h₁x, hxL, hxL']

end

end ClientInv

lemma ClientInv.refines {pt : ℕ} {s : TableState} {m : ℕ → ℕ} {h h₁ h₂ : PHeap} {L : List ℕ}
    (hI : ClientInv K pt s m h h₁ h₂ L) : RefinesMap K pt s where
  walk_finds _ := hI.walk_finds
  mappages_adds _ _ _ _ := hI.mappages_adds
  uvmunmap_removes _ _ _ := hI.uvmunmap_removes
  walk_alloc _ := hI.walk_alloc
  entries_distinct _ _ _ _ _ _ hva hva' hne := hI.entries_distinct hva hva' hne
  freewalk_frees := hI.freewalk_frees

/-! ## The runs of a client -/

section

variable {pt : ℕ} {s : TableState}

lemma ClientInv.kalloc {m : ℕ → ℕ} {h h₁ h₂ : PHeap} {L : List ℕ}
    (hI : ClientInv K pt s m h h₁ h₂ L) {r : Option ℕ} {mem' : KMem}
    (hrun : (allocPage : MProg (Option ℕ)).Runs K s.mem (.ok r) mem') :
    ∃ h' h2' L', ClientInv K pt ⟨mem', r.toList ++ s.own⟩ m h' h₁ h2' L' := by
  have hwp : (allocPage : MProg (Option ℕ)).wp K.Valid (fun _ => False) (fun r h' =>
      ∃ h2', h'.Split h₁ h2' ∧ Pages K (r.toList ++ s.own) h2') h := by
    refine wp_allocPage ⟨h₂, hI.split, hI.pages⟩ fun p pg hv hp => ?_
    have hfree := not_or.mp (mt (hI.split.owned_iff p).mpr (by simp [hp]))
    exact ⟨_, (hI.split.symm.update (not_not.mp hfree.1) (some pg)).symm,
      hI.pages.cons hv (not_not.mp hfree.2)⟩
  have hend : EndsWell K _ _ s.mem h L mem' (.ok r) := hrun.sound hwp hI.owns
  obtain ⟨h', L', ⟨h2', hs', hP'⟩, ho', -⟩ := hend
  exact ⟨h', h2', L', ho', hs', hI.table, hP', hI.high⟩

lemma ClientInv.step {s' : TableState} {m : ℕ → ℕ} {h h₁ h₂ : PHeap} {L : List ℕ}
    (hI : ClientInv K pt s m h h₁ h₂ L) {op : TableOp} (hop : op.Passes pt s)
    (hstep : TableStep K pt s op s') : ∃ m' h' h1' h2' L', ClientInv K pt s' m' h' h1' h2' L' := by
  cases hstep with
  | kalloc hrun =>
    obtain ⟨h', h2', L', hI'⟩ := hI.kalloc hrun
    exact ⟨m, h', h₁, h2', L', hI'⟩
  | @mappages va size pa perm r mem' hrun =>
    obtain ⟨v, n, rfl, rfl, hn, hvn, hm⟩ := hI.mappages_args hop
    have hpa := hop.2.2.2.2.1
    have hend : EndsWell K (fun _ => False) _ s.mem h L mem' (.ok r) :=
      hrun.sound (wp_mappages hI.split hI.table hn hvn (by omega) hm) hI.owns
    obtain ⟨h', L', ⟨k, h1', hs', hT', hr⟩, ho', -⟩ := hend
    refine ⟨_, h', h1', h₂, L', ho', hs', hT', hI.pages, fun w hw hw' => ?_⟩
    have hk : k ≤ n := by
      obtain ⟨-, rfl⟩ | ⟨-, hk⟩ := hr
      · exact le_rfl
      · exact hk.le
    rw [mapRange, if_neg (by omega), hI.high w hw hw']
  | @uvmunmap va npages doFree mem' hrun =>
    obtain ⟨v, rfl, hvn, hm, hL⟩ := hI.uvmunmap_args hop
    have hend : EndsWell K (fun _ => False) _ s.mem h L mem' (.ok ()) :=
      hrun.sound (wp_uvmunmap hI.split hI.table hI.pages hvn hm hL) hI.owns
    obtain ⟨h', L', ⟨h1', h2', hs', hT', -, hP'⟩, ho', -⟩ := hend
    refine ⟨_, h', h1', h2', L', ho', hs', hT', hP', fun w hw hw' => ?_⟩
    rw [unmapRange, if_neg (by omega), hI.high w hw hw']

lemma TableRun.inv (hr : TableRun K pt s) :
    ∃ m h h₁ h₂ L, ClientInv K pt s m h h₁ h₂ L := by
  induction hr with
  | @create s s' hs hrun =>
    obtain ⟨L, ho⟩ := hs
    have hend : EndsWell K (fun _ => False) _ s Heap.empty L s' (.ok (some pt)) :=
      hrun.sound wp_uvmcreate ho
    obtain ⟨h', L', ⟨h₁, hs', hT⟩, ho', -⟩ := hend
    exact ⟨_, h', h₁, Heap.empty, L', ho', hs', hT, pages_nil, fun _ _ _ => rfl⟩
  | step _ hop hstep ih =>
    obtain ⟨m, h, h₁, h₂, L, hI⟩ := ih
    exact hI.step hop hstep

end

/-- The three-level page table refines a finite map: in every state that a client of a table reaches,
`walk`, `mappages`, `uvmunmap` and `freewalk` do to the abstract map what they are for, and the entry
of a physical page gives back its address whatever the flags. -/
theorem pageTable_refines_map (K : KernelImage) (pagetable : ℕ) :
    (∀ s, TableRun K pagetable s → RefinesMap K pagetable s) ∧
      ∀ pa flags, pa % PGSIZE = 0 → pa < 2 ^ 56 → flags < 2 ^ 10 →
        pte2pa (pa2pte pa ||| flags) = pa := by
  constructor
  · intro s hr
    obtain ⟨m, h, h₁, h₂, L, hI⟩ := hr.inv
    exact hI.refines
  · intro pa flags halign hpa hflags
    rw [pte2pa_pa2pte_or hpa hflags, pgrounddown_of_aligned halign]

section

variable {K : KernelImage} {pagetable : ℕ} {s : TableState} (hr : TableRun K pagetable s)
include hr

lemma TableRun.kalloc {r : Option ℕ} (h : ((allocPage : MProg (Option ℕ)).run K s.mem).1 = .ok r) :
    TableRun K pagetable ⟨((allocPage : MProg (Option ℕ)).run K s.mem).2, r.toList ++ s.own⟩ :=
  have hop : TableOp.kalloc.Passes pagetable s := trivial
  hr.step hop (.kalloc (HProg.runs_of_run h))

lemma TableRun.mappages {va size pa perm : ℕ} {r : Int}
    (hop : (TableOp.mappages va size pa perm).Passes pagetable s)
    (h : ((Xv6.mappages pagetable va size pa perm).run K s.mem).1 = .ok r) :
    TableRun K pagetable ⟨((Xv6.mappages pagetable va size pa perm).run K s.mem).2, s.own⟩ :=
  hr.step hop (.mappages (HProg.runs_of_run h))

lemma TableRun.uvmunmap {va npages : ℕ} {doFree : Bool}
    (hop : (TableOp.uvmunmap va npages doFree).Passes pagetable s)
    (h : ((Xv6.uvmunmap pagetable va npages doFree).run K s.mem).1 = .ok ()) :
    ∃ own, TableRun K pagetable ⟨((Xv6.uvmunmap pagetable va npages doFree).run K s.mem).2, own⟩ :=
  ⟨_, hr.step hop (.uvmunmap (HProg.runs_of_run h))⟩

end

/-! ## A table on five pages -/

namespace FivePages

/-- A kernel that leaves five pages to the allocator. -/
def image : KernelImage where
  etext := PHYSTOP - 5 * PGSIZE
  endAddr := PHYSTOP - 5 * PGSIZE
  etext_aligned := by decide
  kernbase_lt := by decide
  etext_le := le_rfl
  end_le := by decide

/-- The `i`-th of the pages. -/
def page (i : ℕ) : ℕ := PHYSTOP - (5 - i) * PGSIZE

/-- The five pages are free, each linked to the next one. -/
def free : KMem := ⟨fun a _ => if a + PGSIZE < PHYSTOP then a + PGSIZE else 0, page 0⟩

/-- After `uvmcreate`; the table is in the first page. -/
def created : KMem := (uvmcreate.run image free).2

/-- After a `kalloc` by the client. -/
def taken : KMem := ((HProg.allocPage : MProg (Option ℕ)).run image created).2

def mapped : KMem := ((mappages (page 0) PGSIZE PGSIZE (page 1) (PTE_R ||| PTE_U)).run image taken).2

def unmapped : KMem := ((uvmunmap (page 0) PGSIZE 1 true).run image mapped).2

lemma owns_free : Owns image free Heap.empty [page 0, page 1, page 2, page 3, page 4] :=
  ⟨by simp only [FreeChain]; decide +kernel, by decide, by decide, fun _ _ => rfl,
    fun _ _ hpg => by cases hpg⟩

lemma run_mapped : TableRun image (page 0) ⟨mapped, [page 1]⟩ := by
  have hcreate := TableRun.create ⟨_, owns_free⟩ (HProg.runs_of_run (m := uvmcreate)
    (r := .ok (some (page 0))) (by decide +kernel))
  refine (hcreate.kalloc (r := some (page 1)) (by decide +kernel)).mappages
    ⟨by decide, by decide, by decide, by decide, by decide, by decide, fun k hk => ?_⟩
    (r := 0) (by decide +kernel)
  obtain rfl : k = 0 := Nat.lt_one_iff.mp hk
  decide +kernel

lemma run_unmapped : ∃ own, TableRun image (page 0) ⟨unmapped, own⟩ := by
  refine run_mapped.uvmunmap ⟨by decide, by decide, fun k hk => ?_, fun _ => ?_⟩ ?_
  · obtain rfl : k = 0 := Nat.lt_one_iff.mp hk
    exact ⟨page 1, PTE_R ||| PTE_U ||| PTE_V, by decide +kernel, by decide⟩
  · decide +kernel
  · decide +kernel

end FivePages

/-- A client takes a page, maps it and removes it again. -/
theorem pageTable_refines_map_five_pages :
    (∃ s, TableRun FivePages.image (FivePages.page 0) s ∧
      absMap s.mem.mem (FivePages.page 0) PGSIZE =
        some (FivePages.page 1, PTE_R ||| PTE_U ||| PTE_V) ∧
      RefinesMap FivePages.image (FivePages.page 0) s) ∧
    (∃ s, TableRun FivePages.image (FivePages.page 0) s ∧
      absMap s.mem.mem (FivePages.page 0) PGSIZE = none ∧ s.mem.freelist = FivePages.page 1 ∧
      RefinesMap FivePages.image (FivePages.page 0) s) ∧
    pte2pa (pa2pte (FivePages.page 1) ||| PTE_V) = FivePages.page 1 := by
  obtain ⟨own, hrun⟩ := FivePages.run_unmapped
  have hnone : absMap FivePages.unmapped.mem (FivePages.page 0) PGSIZE = none := by decide +kernel
  have hlist : FivePages.unmapped.freelist = FivePages.page 1 := by decide +kernel
  refine ⟨⟨_, FivePages.run_mapped, by decide +kernel, ?_⟩, ⟨_, hrun, hnone, hlist, ?_⟩, ?_⟩
  · exact (pageTable_refines_map _ _).1 _ FivePages.run_mapped
  · exact (pageTable_refines_map _ _).1 _ hrun
  · exact (pageTable_refines_map FivePages.image 0).2 _ _ (by decide) (by decide) (by decide)

end Xv6
