import Mathlib.Data.Nat.Bitwise
import Mathlib.Tactic.Ring

/-!
# Addresses and page table entries

The constants and macros of `riscv.h` and `memlayout.h` that the memory management uses.  Addresses,
sizes and page table entries are natural numbers below `2 ^ 64`; the arithmetic of the macros is
reduced modulo `2 ^ 64` where it can leave that range.
-/

namespace Xv6

variable {f : ℕ}

def u64 (n : ℕ) : ℕ := n % 2 ^ 64

def PGSIZE : ℕ := 4096

def MAXVA : ℕ := 1 <<< (9 + 9 + 9 + 12 - 1)

def TRAMPOLINE : ℕ := MAXVA - PGSIZE

def TRAPFRAME : ℕ := TRAMPOLINE - PGSIZE

def KERNBASE : ℕ := 0x80000000

def PHYSTOP : ℕ := KERNBASE + 128 * 1024 * 1024

def PTE_V : ℕ := 1 <<< 0

def PTE_R : ℕ := 1 <<< 1

def PTE_W : ℕ := 1 <<< 2

def PTE_X : ℕ := 1 <<< 3

/-- The flag of a page that user code can access. -/
def PTE_U : ℕ := 1 <<< 4

/-- The address `sz` rounded up to a page boundary. -/
def pgroundup (sz : ℕ) : ℕ := u64 (sz + PGSIZE - 1) - u64 (sz + PGSIZE - 1) % PGSIZE

/-- The address `a` rounded down to a page boundary. -/
def pgrounddown (a : ℕ) : ℕ := a - a % PGSIZE

/-- The physical address `pa` shifted to its place in a page table entry. -/
def pa2pte (pa : ℕ) : ℕ := (pa >>> 12) <<< 10

/-- The physical address in a page table entry. -/
def pte2pa (pte : ℕ) : ℕ := u64 ((pte >>> 10) <<< 12)

def pteFlags (pte : ℕ) : ℕ := pte &&& 0x3FF

/-- The index of the virtual address `va` in a page table of the given level. -/
def px (level va : ℕ) : Fin 512 :=
  ⟨(va >>> (12 + 9 * level)) &&& 0x1FF, by
    have := Nat.and_le_right (n := va >>> (12 + 9 * level)) (m := 0x1FF)
    omega⟩

/-! ## The entry of a physical page -/

lemma pa2pte_or (hf : f < 1024) (pa : ℕ) : pa2pte pa ||| f = pa / 4096 * 1024 + f := by
  unfold pa2pte
  rw [← Nat.shiftLeft_add_eq_or_of_lt (by omega : f < 2 ^ 10), Nat.shiftRight_eq_div_pow,
    Nat.shiftLeft_eq]

lemma pte2pa_eq (pte : ℕ) : pte2pa pte = pte / 1024 * 4096 % 2 ^ 64 := by
  unfold pte2pa u64
  rw [Nat.shiftRight_eq_div_pow, Nat.shiftLeft_eq]

lemma pteFlags_eq (pte : ℕ) : pteFlags pte = pte % 1024 :=
  Nat.and_two_pow_sub_one_eq_mod pte 10

lemma pte2pa_pa2pte_or {pa : ℕ} (hpa : pa < 2 ^ 56) (hf : f < 1024) :
    pte2pa (pa2pte pa ||| f) = pgrounddown pa := by
  rw [pa2pte_or hf, pte2pa_eq]
  unfold pgrounddown PGSIZE
  omega

lemma pteFlags_pa2pte_or (hf : f < 1024) (pa : ℕ) : pteFlags (pa2pte pa ||| f) = f := by
  rw [pa2pte_or hf, pteFlags_eq]
  omega

lemma and_eq_pteFlags_and (hf : f < 1024) (pte : ℕ) : pte &&& f = pteFlags pte &&& f := by
  have hmask : 0x3FF &&& f = f := by
    rw [Nat.and_comm]
    exact (Nat.and_two_pow_sub_one_eq_mod f 10).trans (Nat.mod_eq_of_lt hf)
  unfold pteFlags
  rw [Nat.and_assoc, hmask]

lemma pgrounddown_of_aligned {a : ℕ} (ha : a % PGSIZE = 0) : pgrounddown a = a := by
  unfold pgrounddown
  omega

lemma pgroundup_eq {sz : ℕ} (hsz : sz + PGSIZE ≤ 2 ^ 64) :
    pgroundup sz = (sz + 4095) / 4096 * 4096 := by
  unfold pgroundup u64 PGSIZE at *
  omega

/-! ## Page numbers

A page-aligned virtual address is `v * PGSIZE` for a page number `v`; the indices of `px` are the
digits of `v` to the base 512. -/

lemma px_page (level v : ℕ) : (px level (v * PGSIZE)).val = v / 512 ^ level % 512 := by
  have hshift : (v * PGSIZE) >>> (12 + 9 * level) = v / 512 ^ level := by
    rw [Nat.shiftRight_eq_div_pow, Nat.pow_add, Nat.pow_mul]
    unfold PGSIZE
    rw [show (2 : ℕ) ^ 12 = 4096 from rfl, show (2 : ℕ) ^ 9 = 512 from rfl, Nat.mul_comm v 4096,
      Nat.mul_div_mul_left _ _ (by decide)]
  show (v * PGSIZE) >>> (12 + 9 * level) &&& 0x1FF = _
  rw [hshift]
  exact Nat.and_two_pow_sub_one_eq_mod _ 9

lemma page_eq_of_px {v w : ℕ} (hv : v < 2 ^ 27) (hw : w < 2 ^ 27)
    (h : ∀ level, level ≤ 2 → px level (v * PGSIZE) = px level (w * PGSIZE)) : v = w := by
  have hdigit : ∀ level, level ≤ 2 → v / 512 ^ level % 512 = w / 512 ^ level % 512 := by
    intro level hl
    rw [← px_page, ← px_page, h level hl]
  have h0 := hdigit 0 (by decide)
  have h1 := hdigit 1 (by decide)
  have h2 := hdigit 2 (by decide)
  omega

lemma exists_page (i2 i1 i0 : Fin 512) : ∃ v < 2 ^ 27,
    px 2 (v * PGSIZE) = i2 ∧ px 1 (v * PGSIZE) = i1 ∧ px 0 (v * PGSIZE) = i0 := by
  refine ⟨i2 * 512 ^ 2 + i1 * 512 + i0, by omega, ?_, ?_, ?_⟩ <;>
    apply Fin.ext <;> rw [px_page] <;> omega

end Xv6
