import Xv6Kernel.Memory.Kalloc
import Mathlib.Data.List.FinRange

/-!
# Page tables

The functions of `vm.c` that build, read and take down page tables.  A loop whose end is not bounded
by its own counter is given a number of rounds; running out of rounds is a panic of the model that
the specifications exclude like the panics of the source.
-/

namespace Xv6

abbrev PteRef : Type := ℕ × Fin 512

def IsValid (pte : ℕ) : Prop := pte &&& PTE_V ≠ 0

instance (pte : ℕ) : Decidable (IsValid pte) := by
  unfold IsValid
  infer_instance

lemma isValid_iff (pte : ℕ) : IsValid pte ↔ pteFlags pte % 2 = 1 := by
  unfold IsValid PTE_V
  rw [pteFlags_eq, show (1 <<< 0 : ℕ) = 1 from rfl, Nat.and_one_is_mod]
  omega

lemma not_isValid_zero : ¬IsValid 0 := by
  decide

lemma KernelImage.Valid.pte2pa {K : KernelImage} {pa f : ℕ} (hv : K.Valid pa) (hf : f < 1024) :
    Xv6.pte2pa (pa2pte pa ||| f) = pa := by
  have hlt := hv.2.2
  rw [pte2pa_pa2pte_or (hlt.trans (by decide)) hf, pgrounddown_of_aligned hv.1]

lemma isValid_table (pa : ℕ) : IsValid (pa2pte pa ||| PTE_V) := by
  rw [isValid_iff, pteFlags_pa2pte_or (by decide)]
  decide

def walkFrom (va : ℕ) (alloc : Bool) : ℕ → ℕ → MProg (Option PteRef)
  | 0, pagetable => pure (some (pagetable, px 0 va))
  | level + 1, pagetable => do
    let pte ← HProg.load pagetable (px (level + 1) va)
    if IsValid pte then
      walkFrom va alloc level (pte2pa pte)
    else if alloc then
      match ← HProg.allocPage with
      | none => pure none
      | some child =>
        HProg.fill child 0
        HProg.store pagetable (px (level + 1) va) (pa2pte child ||| PTE_V)
        walkFrom va alloc level child
    else pure none

/-- The entry of the virtual address `va`; with `alloc` the tables on the way are created. -/
def walk (pagetable va : ℕ) (alloc : Bool) : MProg (Option PteRef) :=
  if va ≥ MAXVA then .panic "walk" else walkFrom va alloc 2 pagetable

/-- The physical page of a user address, 0 if it is not mapped for user code. -/
def walkaddr (pagetable va : ℕ) : MProg ℕ := do
  if va ≥ MAXVA then pure 0
  else
    match ← walk pagetable va false with
    | none => pure 0
    | some (p, i) =>
      let pte ← HProg.load p i
      if ¬IsValid pte then pure 0
      else if pte &&& PTE_U = 0 then pure 0
      else pure (pte2pa pte)

def mappagesFrom (pagetable last perm : ℕ) : ℕ → ℕ → ℕ → MProg Int
  | 0, _, _ => .panic "mappages: rounds"
  | n + 1, a, pa => do
    match ← walk pagetable a true with
    | none => pure (-1)
    | some (p, i) =>
      let pte ← HProg.load p i
      if IsValid pte then .panic "mappages: remap"
      else
        HProg.store p i (pa2pte pa ||| perm ||| PTE_V)
        if a = last then pure 0
        else mappagesFrom pagetable last perm n (u64 (a + PGSIZE)) (u64 (pa + PGSIZE))

/-- Map the pages of `[va, va + size)` to those from `pa` on; the result is -1 if a page table could
not be allocated. -/
def mappages (pagetable va size pa perm : ℕ) : MProg Int :=
  if va % PGSIZE ≠ 0 then .panic "mappages: va not aligned"
  else if size % PGSIZE ≠ 0 then .panic "mappages: size not aligned"
  else if size = 0 then .panic "mappages: size"
  else mappagesFrom pagetable (u64 (va + size - PGSIZE)) perm (size / PGSIZE) va pa

def uvmunmapFrom (pagetable stop : ℕ) (doFree : Bool) : ℕ → ℕ → MProg Unit
  | 0, a => if a < stop then .panic "uvmunmap: rounds" else pure ()
  | n + 1, a =>
    if a < stop then do
      match ← walk pagetable a false with
      | none => .panic "uvmunmap: walk"
      | some (p, i) =>
        let pte ← HProg.load p i
        if ¬IsValid pte then .panic "uvmunmap: not mapped"
        else if pteFlags pte = PTE_V then .panic "uvmunmap: not a leaf"
        else
          if doFree then HProg.freePage (pte2pa pte)
          HProg.store p i 0
          uvmunmapFrom pagetable stop doFree n (u64 (a + PGSIZE))
    else pure ()

/-- Remove the mappings of `npages` pages from `va` on, and free their memory if asked to. -/
def uvmunmap (pagetable va npages : ℕ) (doFree : Bool) : MProg Unit :=
  if va % PGSIZE ≠ 0 then .panic "uvmunmap: not aligned"
  else uvmunmapFrom pagetable (u64 (va + npages * PGSIZE)) doFree npages va

def uvmcreate : MProg (Option ℕ) := do
  match ← HProg.allocPage with
  | none => pure none
  | some pagetable =>
    HProg.fill pagetable 0
    pure (some pagetable)

@[irreducible] def pteIndices : List (Fin 512) := List.finRange 512

lemma mem_pteIndices (i : Fin 512) : i ∈ pteIndices := by
  unfold pteIndices
  exact List.mem_finRange i

lemma nodup_pteIndices : pteIndices.Nodup := by
  unfold pteIndices
  exact List.nodup_finRange 512

/-- Free a page table all of whose leaves have been removed. -/
def freewalk : ℕ → ℕ → MProg Unit
  | 0, _ => .panic "freewalk: depth"
  | depth + 1, pagetable => do
    HProg.forEach (fun i => do
      let pte ← HProg.load pagetable i
      if IsValid pte ∧ pte &&& (PTE_R ||| PTE_W ||| PTE_X) = 0 then
        freewalk depth (pte2pa pte)
        HProg.store pagetable i 0
      else if IsValid pte then .panic "freewalk: leaf"
      else pure ()) pteIndices
    HProg.freePage pagetable

end Xv6
