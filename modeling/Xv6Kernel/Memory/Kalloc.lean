import Xv6Kernel.Foundation.Heap
import Xv6Kernel.Foundation.Program
import Xv6Kernel.Memory.Layout

/-!
# The physical page allocator

`kalloc.c`: the free pages form a linked list through their first words, `kmem.freelist` is its
head.  The memory is a map from page addresses to the 512 words of the page.

`HProg.Runs` is the meaning of a sequential memory program on this memory.
-/

namespace Xv6

open Function

variable {L' : List ℕ} {tol : String → Prop} {p : ℕ}

abbrev Page : Type := Fin 512 → ℕ

/-- The addresses of the linker script `kernel.ld` that the memory management refers to. -/
structure KernelImage where
  etext : ℕ
  endAddr : ℕ
  etext_aligned : etext % PGSIZE = 0
  kernbase_lt : KERNBASE + PGSIZE ≤ etext
  etext_le : etext ≤ endAddr
  end_le : endAddr ≤ PHYSTOP

/-- The pages `kfree` accepts. -/
def KernelImage.Valid (K : KernelImage) (pa : ℕ) : Prop :=
  pa % PGSIZE = 0 ∧ K.endAddr ≤ pa ∧ pa < PHYSTOP

instance (K : KernelImage) (pa : ℕ) : Decidable (K.Valid pa) := by
  unfold KernelImage.Valid
  infer_instance

structure KMem where
  mem : ℕ → Page
  freelist : ℕ

/-- Replace the page at `pa`. -/
def KMem.setPage (s : KMem) (pa : ℕ) (pg : Page) : KMem :=
  { s with mem := update s.mem pa pg }

def junkFree : Page := fun _ => 0x0101010101010101

def junkAlloc : Page := fun _ => 0x0505050505050505

def kfree (K : KernelImage) (pa : ℕ) (s : KMem) : Outcome KMem Unit :=
  if K.Valid pa then
    .done () ⟨update s.mem pa (update junkFree 0 s.freelist), pa⟩
  else .panic "kfree"

def kalloc (s : KMem) : Option ℕ × KMem :=
  if s.freelist = 0 then (none, s)
  else (some s.freelist, ⟨update s.mem s.freelist junkAlloc, s.mem s.freelist 0⟩)

/-- Free the pages from `p` on that end below `paEnd`; `n` bounds their number. -/
def freerangeFrom (K : KernelImage) (paEnd : ℕ) : ℕ → ℕ → KMem → Outcome KMem Unit
  | 0, _, s => .done () s
  | n + 1, p, s =>
    if p + PGSIZE ≤ paEnd then
      match kfree K p s with
      | .done _ s' => freerangeFrom K paEnd n (p + PGSIZE) s'
      | .blocked => .blocked
      | .panic msg => .panic msg
    else .done () s

def freerange (K : KernelImage) (paStart paEnd : ℕ) (s : KMem) : Outcome KMem Unit :=
  freerangeFrom K paEnd (paEnd / PGSIZE) (pgroundup paStart) s

/-- Initialise the allocator: the free list is empty and all pages after the kernel are freed. -/
def kinit (K : KernelImage) (s : KMem) : Outcome KMem Unit :=
  freerange K K.endAddr PHYSTOP { s with freelist := 0 }

/-! ## Memory programs -/

abbrev MProg (α : Type) : Type := HProg ℕ (Fin 512) ℕ α

abbrev PHeap : Type := Heap ℕ (Fin 512) ℕ

/-- The program ends on the memory `s` with the given result (a value or a panic) and memory.
`kalloc` may return 0 even if there are free pages. -/
def HProg.Runs {α : Type} (K : KernelImage) : MProg α → KMem → Except String α → KMem → Prop
  | .ret a, s, r, s' => r = .ok a ∧ s' = s
  | .read p k, s, r, s' => (k (s.mem p)).Runs K s r s'
  | .modify p f k, s, r, s' => k.Runs K (s.setPage p (f (s.mem p))) r s'
  | .alloc k, s, r, s' =>
      (k none).Runs K s r s' ∨ (k (kalloc s).1).Runs K (kalloc s).2 r s'
  | .free p k, s, r, s' =>
      match kfree K p s with
      | .done _ s₁ => k.Runs K s₁ r s'
      | .panic msg => r = .error msg ∧ s' = s
      | .blocked => False
  | .pick k, s, r, s' => ∃ n, (k n).Runs K s r s'
  | .panic msg, s, r, s' => r = .error msg ∧ s' = s

lemma HProg.Runs.total {α : Type} (K : KernelImage) (m : MProg α) (s : KMem) :
    ∃ r s', m.Runs K s r s' := by
  induction m generalizing s with
  | ret a => exact ⟨_, _, rfl, rfl⟩
  | read p k ih => exact ih _ s
  | modify p f k ih => exact ih _
  | alloc k ih =>
    obtain ⟨r, s', hr⟩ := ih none s
    exact ⟨r, s', .inl hr⟩
  | free p k ih =>
    unfold Runs kfree
    split
    · rename_i s1 hs
      exact ih s1
    · exact ⟨_, _, rfl, rfl⟩
    · rename_i hs
      split at hs <;> cases hs
  | pick k ih =>
    obtain ⟨r, s', hr⟩ := ih 0 s
    exact ⟨r, s', 0, hr⟩
  | panic msg => exact ⟨_, _, rfl, rfl⟩

/-- The run in which `kalloc` takes a page whenever there is one. -/
def HProg.run {α : Type} (K : KernelImage) : MProg α → KMem → Except String α × KMem
  | .ret a, s => (.ok a, s)
  | .read p k, s => (k (s.mem p)).run K s
  | .modify p f k, s => k.run K (s.setPage p (f (s.mem p)))
  | .alloc k, s => (k (kalloc s).1).run K (kalloc s).2
  | .free p k, s => if K.Valid p then k.run K ⟨update s.mem p (update junkFree 0 s.freelist), p⟩
      else (.error "kfree", s)
  | .pick k, s => (k 0).run K s
  | .panic msg, s => (.error msg, s)

lemma HProg.runs_of_run {α : Type} {K : KernelImage} {m : MProg α} {s : KMem}
    {r : Except String α} (h : (m.run K s).1 = r) : m.Runs K s r (m.run K s).2 := by
  subst h
  induction m generalizing s with
  | ret a => exact ⟨rfl, rfl⟩
  | read p k ih => exact ih _
  | modify p f k ih => exact ih
  | alloc k ih => exact .inr (ih _)
  | free p k ih =>
    unfold Runs run kfree
    by_cases hv : K.Valid p
    · simp only [if_pos hv]
      exact ih
    · simp [if_neg hv]
  | pick k ih => exact ⟨0, ih 0⟩
  | panic msg => exact ⟨rfl, rfl⟩

lemma HProg.exists_runs_of_run {α : Type} {K : KernelImage} {m : MProg α} {s : KMem}
    {r : Except String α} (h : (m.run K s).1 = r) : ∃ s', m.Runs K s r s' :=
  ⟨_, runs_of_run h⟩

/-! ## The free list and the owned pages -/

/-- The pages that are linked from `r` through their first words are those of the list. -/
def FreeChain (mem : ℕ → Page) : ℕ → List ℕ → Prop
  | r, [] => r = 0
  | r, a :: L => r = a ∧ a ≠ 0 ∧ FreeChain mem (mem a 0) L

lemma FreeChain.congr {mem mem' : ℕ → Page} {r : ℕ} {L : List ℕ} (h : FreeChain mem r L)
    (heq : ∀ a ∈ L, mem' a = mem a) : FreeChain mem' r L := by
  induction L generalizing r with
  | nil => exact h
  | cons a L ih =>
    obtain ⟨hr, ha, hL⟩ := h
    refine ⟨hr, ha, ?_⟩
    rw [heq a (by simp)]
    exact ih hL fun b hb => heq b (by simp [hb])

lemma KernelImage.Valid.ne_zero {K : KernelImage} {pa : ℕ} (h : K.Valid pa) : pa ≠ 0 := by
  have := K.kernbase_lt
  have := K.etext_le
  have := h.2.1
  unfold KERNBASE PGSIZE at *
  omega

/-- The pages of the list `L` are the free pages of the memory `s`, and the pages of the heap `h`
are owned: they are not free, and the heap has their contents. -/
structure Owns (K : KernelImage) (s : KMem) (h : PHeap) (L : List ℕ) : Prop where
  chain : FreeChain s.mem s.freelist L
  nodup : L.Nodup
  valid : ∀ a ∈ L, K.Valid a
  disjoint : ∀ a ∈ L, h a = none
  agree : ∀ a pg, h a = some pg → s.mem a = pg

variable {K : KernelImage} {s : KMem} {h : PHeap} {L : List ℕ}

lemma Owns.setPage (ho : Owns K s h L) {pg : Page} (hp : h p ≠ none) :
    Owns K (s.setPage p pg) (update h p (some pg)) L := by
  have hL : p ∉ L := fun hmem => hp (ho.disjoint p hmem)
  refine ⟨ho.chain.congr fun a ha => ?_, ho.nodup, ho.valid, fun a ha => ?_, fun a pg' hpg => ?_⟩
  · exact update_of_ne (ne_of_mem_of_not_mem ha hL) _ _
  · rw [update_of_ne (ne_of_mem_of_not_mem ha hL)]
    exact ho.disjoint a ha
  · by_cases hap : a = p
    · subst hap
      simp only [update_self, Option.some.injEq] at hpg
      simp [KMem.setPage, hpg]
    · rw [update_of_ne hap] at hpg
      simp only [KMem.setPage, update_of_ne hap]
      exact ho.agree a pg' hpg

/-- What `kalloc` does: it fails and changes nothing, or takes the first page of the free list,
which becomes owned. -/
lemma Owns.kalloc (ho : Owns K s h L) : (Xv6.kalloc s = (none, s) ∧ L = []) ∨
    ∃ p L', L = p :: L' ∧ (Xv6.kalloc s).1 = some p ∧ K.Valid p ∧ h p = none ∧
      Owns K (Xv6.kalloc s).2 (update h p (some junkAlloc)) L' ∧
      ∀ a, a ≠ p → (Xv6.kalloc s).2.mem a = s.mem a := by
  rcases L with _ | ⟨p, L'⟩
  · left
    have hr : s.freelist = 0 := ho.chain
    simp [Xv6.kalloc, hr]
  right
  obtain ⟨hr, hp, hL'⟩ := ho.chain
  have hnd := List.nodup_cons.mp ho.nodup
  have hk : Xv6.kalloc s = (some p, ⟨update s.mem p junkAlloc, s.mem p 0⟩) := by
    simp [Xv6.kalloc, hr, hp]
  rw [hk]
  refine ⟨p, L', rfl, rfl, ho.valid p (by simp), ho.disjoint p (by simp), ?_,
    fun a ha => update_of_ne ha _ _⟩
  refine ⟨hL'.congr fun a ha => ?_, hnd.2, fun a ha => ho.valid a (by simp [ha]),
    fun a ha => ?_, fun a pg hpg => ?_⟩
  · exact update_of_ne (ne_of_mem_of_not_mem ha hnd.1) _ _
  · rw [update_of_ne (ne_of_mem_of_not_mem ha hnd.1)]
    exact ho.disjoint a (by simp [ha])
  · by_cases hap : a = p
    · subst hap
      simpa using hpg
    · rw [update_of_ne hap] at hpg
      simp only [update_of_ne hap]
      exact ho.agree a pg hpg

lemma Owns.kfree (ho : Owns K s h L) (hv : K.Valid p) (hp : h p ≠ none) :
    ∃ s', Xv6.kfree K p s = .done () s' ∧ Owns K s' (update h p none) (p :: L) ∧
      ∀ a, a ≠ p → s'.mem a = s.mem a := by
  have hL : p ∉ L := fun hmem => hp (ho.disjoint p hmem)
  refine ⟨_, if_pos hv, ?_, fun a ha => update_of_ne ha _ _⟩
  refine ⟨⟨rfl, hv.ne_zero, ?_⟩, List.nodup_cons.mpr ⟨hL, ho.nodup⟩, ?_, ?_, fun a pg hpg => ?_⟩
  · simp only [update_self]
    exact ho.chain.congr fun a ha => update_of_ne (ne_of_mem_of_not_mem ha hL) _ _
  · simpa [hv] using ho.valid
  · simp only [List.mem_cons, forall_eq_or_imp, update_self, true_and]
    intro a ha
    rw [update_of_ne (ne_of_mem_of_not_mem ha hL)]
    exact ho.disjoint a ha
  · by_cases hap : a = p
    · simp [hap] at hpg
    · rw [update_of_ne hap] at hpg
      simp only [update_of_ne hap]
      exact ho.agree a pg hpg

/-- The memory `s'` with the owned pages `h'` and the free pages `L'` has the same pages as `s`,
with `h` and `L`, and agrees with it elsewhere. -/
structure SamePages (s : KMem) (h : PHeap) (L : List ℕ) (s' : KMem) (h' : PHeap) (L' : List ℕ) :
    Prop where
  pages : ∀ a, (a ∈ L' ∨ h' a ≠ none) ↔ (a ∈ L ∨ h a ≠ none)
  frame : ∀ a, a ∉ L → h a = none → s'.mem a = s.mem a

lemma SamePages.refl (s : KMem) (h : PHeap) (L : List ℕ) : SamePages s h L s h L :=
  ⟨fun _ => Iff.rfl, fun _ _ _ => rfl⟩

lemma SamePages.trans {s' s'' : KMem} {h' h'' : PHeap} {L'' : List ℕ}
    (h1 : SamePages s h L s' h' L') (h2 : SamePages s' h' L' s'' h'' L'') :
    SamePages s h L s'' h'' L'' := by
  refine ⟨fun a => (h2.pages a).trans (h1.pages a), fun a hL hh => ?_⟩
  have hn := not_or.mp (mt (h1.pages a).mp (by simp [hL, hh]))
  rw [h2.frame a hn.1 (not_not.mp hn.2), h1.frame a hL hh]

lemma SamePages.of_change {s' : KMem} {h' : PHeap} (hp : p ∈ L ∨ h p ≠ none)
    (hp' : p ∈ L' ∨ h' p ≠ none) (hL : ∀ a, a ≠ p → (a ∈ L' ↔ a ∈ L)) (hh : ∀ a, a ≠ p → h' a = h a)
    (hmem : ∀ a, a ≠ p → s'.mem a = s.mem a) : SamePages s h L s' h' L' := by
  refine ⟨fun a => ?_, fun a haL hah => hmem a ?_⟩
  · by_cases ha : a = p
    · subst ha
      exact iff_of_true hp' hp
    · rw [hL a ha, hh a ha]
  · rintro rfl
    exact hp.elim haL fun hne => hne hah

/-- What the weakest precondition of a program says of a run: only tolerated panics are raised, and a
result satisfies the postcondition with pages that are owned at the end. -/
def EndsWell {α : Type} (K : KernelImage) (tol : String → Prop) (Q : α → PHeap → Prop) (s : KMem)
    (h : PHeap) (L : List ℕ) (s' : KMem) : Except String α → Prop
  | .error msg => tol msg
  | .ok a => ∃ h' L', Q a h' ∧ Owns K s' h' L' ∧ SamePages s h L s' h' L'

lemma EndsWell.after {α : Type} {Q : α → PHeap → Prop} {s1 s' : KMem} {h1 : PHeap} {L1 : List ℕ}
    {r : Except String α} (hend : EndsWell K tol Q s1 h1 L1 s' r)
    (hsame : SamePages s h L s1 h1 L1) : EndsWell K tol Q s h L s' r := by
  cases r with
  | error msg => exact hend
  | ok a =>
    obtain ⟨h', L', hQ, ho', hsame'⟩ := hend
    exact ⟨h', L', hQ, ho', hsame.trans hsame'⟩

lemma HProg.Runs.sound {α : Type} {m : MProg α} {Q : α → PHeap → Prop} {r : Except String α}
    {s' : KMem} (hm : m.wp K.Valid tol Q h) (ho : Owns K s h L)
    (hr : m.Runs K s r s') : EndsWell K tol Q s h L s' r := by
  induction m generalizing s h L with
  | ret a =>
    obtain ⟨rfl, rfl⟩ := hr
    exact ⟨h, L, hm, ho, .refl s' h L⟩
  | read p k ih =>
    obtain ⟨pg, hp, hk⟩ := hm
    refine ih pg hk ho ?_
    rw [← ho.agree p pg hp]
    exact hr
  | modify p f k ih =>
    obtain ⟨pg, hp, hk⟩ := hm
    have hr' : k.Runs K (s.setPage p (f (s.mem p))) r s' := hr
    rw [ho.agree p pg hp] at hr'
    have hne : h p ≠ none := by simp [hp]
    exact (ih hk (ho.setPage hne) hr').after <|
      .of_change (.inr hne) (.inr (by simp)) (fun _ _ => Iff.rfl)
        (fun a ha => update_of_ne ha _ _) fun a ha => update_of_ne ha _ _
  | alloc k ih =>
    obtain hr | hr := hr
    · exact ih none hm.1 ho hr
    obtain ⟨hk, rfl⟩ | ⟨p, L', rfl, hp, hv, hfree, ho', hmem⟩ := ho.kalloc
    · rw [hk] at hr
      exact ih none hm.1 ho hr
    rw [hp] at hr
    exact (ih (some p) (hm.2 p junkAlloc hv hfree) ho' hr).after <|
      .of_change (.inl (by simp)) (.inr (by simp)) (fun a ha => by simp [ha])
        (fun a ha => update_of_ne ha _ _) hmem
  | free p k ih =>
    obtain ⟨hv, hne, hk⟩ := hm
    obtain ⟨s1, hfree, ho', hmem⟩ := ho.kfree hv hne
    simp only [Runs, hfree] at hr
    exact (ih hk ho' hr).after <|
      .of_change (.inr hne) (.inl (by simp)) (fun a ha => by simp [ha])
        (fun a ha => update_of_ne ha _ _) hmem
  | pick k ih =>
    obtain ⟨n, hr⟩ := hr
    exact ih n (hm n) ho hr
  | panic msg =>
    obtain ⟨rfl, rfl⟩ := hr
    exact hm

/-! ## The free list after `kinit` -/

lemma Owns.freerangeFrom {n : ℕ} (ho : Owns K s h L) (hp : p % PGSIZE = 0) (hend : K.endAddr ≤ p)
    (hn : PHYSTOP ≤ p + n * PGSIZE) (hown : ∀ a, h a ≠ none ↔ K.Valid a ∧ p ≤ a) :
    ∃ s' L', Xv6.freerangeFrom K PHYSTOP n p s = .done () s' ∧ Owns K s' Heap.empty L' ∧
      ∀ a, a ∈ L' ↔ a ∈ L ∨ (K.Valid a ∧ p ≤ a) := by
  have hstop : PHYSTOP % PGSIZE = 0 := by decide
  have hnone : ∀ (p : ℕ) (h : PHeap), (∀ a, h a ≠ none ↔ K.Valid a ∧ p ≤ a) → PHYSTOP ≤ p →
      h = Heap.empty ∧ ∀ a, ¬(K.Valid a ∧ p ≤ a) := by
    intro p h hown hle
    have hno : ∀ a, ¬(K.Valid a ∧ p ≤ a) := fun a ha => by
      have := ha.1.2.2
      omega
    refine ⟨funext fun a => ?_, hno⟩
    exact not_not.mp (mt (hown a).mp (hno a))
  induction n generalizing p s h L with
  | zero =>
    obtain ⟨rfl, hno⟩ := hnone p h hown (by omega)
    exact ⟨s, L, rfl, ho, fun a => by simp [hno a]⟩
  | succ n ih =>
    unfold Xv6.freerangeFrom
    by_cases hle : p + PGSIZE ≤ PHYSTOP
    · have hv : K.Valid p := ⟨hp, hend, by unfold PGSIZE at hle; omega⟩
      obtain ⟨s1, hfree, ho', -⟩ := ho.kfree hv ((hown p).mpr ⟨hv, le_rfl⟩)
      -- the next page boundary is the next page
      have hnext : ∀ a, K.Valid a → p ≤ a → a ≠ p → p + PGSIZE ≤ a := by
        intro a ha hpa hne
        have := ha.1
        unfold PGSIZE at *
        omega
      have hown' : ∀ a, update h p none a ≠ none ↔ K.Valid a ∧ p + PGSIZE ≤ a := by
        intro a
        by_cases hap : a = p
        · subst hap
          simp [PGSIZE]
        · rw [update_of_ne hap, hown a]
          exact ⟨fun ha => ⟨ha.1, hnext a ha.1 ha.2 hap⟩, fun ha => ⟨ha.1, by omega⟩⟩
      obtain ⟨s', L', hrun, ho'', hL'⟩ := ih ho' (by simp [hp]) (by omega)
        (by rw [Nat.add_mul] at hn; omega) hown'
      rw [if_pos hle, hfree]
      refine ⟨s', L', hrun, ho'', fun a => ?_⟩
      rw [hL' a, List.mem_cons]
      by_cases hap : a = p
      · subst hap
        simp [hv]
      · simp only [hap, false_or]
        exact or_congr_right
          ⟨fun ha => ⟨ha.1, by omega⟩, fun ha => ⟨ha.1, hnext a ha.1 ha.2 hap⟩⟩
    · have hge : PHYSTOP ≤ p := by
        unfold PGSIZE at *
        omega
      obtain ⟨rfl, hno⟩ := hnone p h hown hge
      exact ⟨s, L, if_neg hle, ho, fun a => by simp [hno a]⟩

/-- `kinit` does not panic, and afterwards the free list is a list, without repetition, of just the
pages between the end of the kernel and `PHYSTOP`. -/
theorem kinit_owns (K : KernelImage) (s : KMem) :
    ∃ s' L, kinit K s = .done () s' ∧ Owns K s' Heap.empty L ∧ ∀ a, a ∈ L ↔ K.Valid a := by
  have hend := K.end_le
  have hstop : PHYSTOP = 34816 * 65536 := by decide
  have hup : pgroundup K.endAddr = (K.endAddr + 4095) / 4096 * 4096 :=
    pgroundup_eq (by unfold PGSIZE; omega)
  have hge : ∀ a, K.Valid a → pgroundup K.endAddr ≤ a := by
    intro a ha
    have := ha.1
    have := ha.2.1
    unfold PGSIZE at *
    omega
  -- at boot the allocator owns all of its pages
  have ho : Owns K { s with freelist := 0 } (fun a => if K.Valid a then some (s.mem a) else none) [] :=
    ⟨rfl, List.nodup_nil, by simp, by simp, fun a pg hpg => by
      by_cases hv : K.Valid a
      · simpa [hv] using hpg
      · simp [hv] at hpg⟩
  obtain ⟨s', L, hrun, ho', hL⟩ := ho.freerangeFrom (n := PHYSTOP / PGSIZE)
    (p := pgroundup K.endAddr) (by unfold PGSIZE; omega) (by omega) (by unfold PGSIZE; omega)
    (fun a => by
      by_cases hv : K.Valid a
      · simp [hv, hge a hv]
      · simp [hv])
  refine ⟨s', L, hrun, ho', fun a => ?_⟩
  rw [hL a]
  simp only [List.not_mem_nil, false_or]
  exact ⟨fun ha => ha.1, fun ha => ⟨ha, hge a ha⟩⟩

end Xv6
