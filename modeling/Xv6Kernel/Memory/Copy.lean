import Xv6Kernel.Memory.Refinement
import Mathlib.Tactic.IntervalCases

/-!
# Copies between the kernel and user memory

`copyout`, `copyin` and `copyinstr` of `vm.c` as memory programs.  The kernel's end of a copy is a
sequence of bytes: `copyout` gets it as an argument, the other two return the bytes that they have
stored at `dst`.  User memory is reached through the page table in the physical memory, which is
read here without any assumption on the table: the entry of an address is the one that `walk` finds.
-/

namespace Xv6

open Function

open HProg

variable {s s' : KMem} {pt n a va v x : ℕ} {mem mem' : ℕ → Page}

/-! ## Bytes of a page -/

/-- The number with the eight given bytes, the lowest first. -/
def wordOf (g : ℕ → UInt8) : ℕ :=
  (g 0).toNat + 256 * ((g 1).toNat + 256 * ((g 2).toNat + 256 * ((g 3).toNat + 256 * ((g 4).toNat +
    256 * ((g 5).toNat + 256 * ((g 6).toNat + 256 * (g 7).toNat))))))

def pageByte (pg : Page) (i : ℕ) : UInt8 :=
  UInt8.ofNat (pg ⟨i / 8 % 512, Nat.mod_lt _ (by decide)⟩ / 256 ^ (i % 8))

def setBytes (pg : Page) (lo n : ℕ) (f : ℕ → UInt8) : Page := fun w =>
  if lo < 8 * w.val + 8 ∧ 8 * w.val < lo + n then
    wordOf fun k =>
      if lo ≤ 8 * w.val + k ∧ 8 * w.val + k < lo + n then f (8 * w.val + k - lo)
      else pageByte pg (8 * w.val + k)
  else pg w

lemma ofNat_wordOf (g : ℕ → UInt8) {k : ℕ} (hk : k < 8) :
    UInt8.ofNat (wordOf g / 256 ^ k) = g k := by
  have h0 := (g 0).toNat_lt
  have h1 := (g 1).toNat_lt
  have h2 := (g 2).toNat_lt
  have h3 := (g 3).toNat_lt
  have h4 := (g 4).toNat_lt
  have h5 := (g 5).toNat_lt
  have h6 := (g 6).toNat_lt
  have h7 := (g 7).toNat_lt
  apply UInt8.toNat_inj.mp
  rw [UInt8.toNat_ofNat', wordOf]
  interval_cases k <;> omega

lemma pageByte_setBytes (pg : Page) (lo n : ℕ) (f : ℕ → UInt8) {i : ℕ} (hi : i < PGSIZE) :
    pageByte (setBytes pg lo n f) i =
      if lo ≤ i ∧ i < lo + n then f (i - lo) else pageByte pg i := by
  have hi' : i < 4096 := hi
  have hsplit : 8 * (i / 8 % 512) + i % 8 = i := by omega
  rw [pageByte, setBytes]
  split
  · rw [ofNat_wordOf _ (Nat.mod_lt i (by decide))]
    simp only [hsplit]
  · rename_i hout
    simp only at hout
    rw [if_neg (by omega), pageByte]

/-- The byte at a physical address. -/
def physByte (mem : ℕ → Page) (a : ℕ) : UInt8 := pageByte (mem (pgrounddown a)) (a % PGSIZE)

def copyoutFrom (pagetable : ℕ) : ℕ → ℕ → (ℕ → UInt8) → ℕ → MProg Int
  | 0, _, _, len => if 0 < len then .panic "copyout: rounds" else pure 0
  | rounds + 1, dstva, src, len =>
    if 0 < len then
      let va0 := pgrounddown dstva
      if va0 ≥ MAXVA then pure (-1)
      else do
        match ← walk pagetable va0 false with
        | none => pure (-1)
        | some (p, i) =>
          let pte ← HProg.load p i
          if ¬IsValid pte ∨ pte &&& PTE_U = 0 ∨ pte &&& PTE_W = 0 then pure (-1)
          else
            let n := min (PGSIZE - (dstva - va0)) len
            HProg.modify (pte2pa pte) (fun pg => setBytes pg (dstva - va0) n src)
              (copyoutFrom pagetable rounds (u64 (va0 + PGSIZE)) (fun j => src (n + j)) (len - n))
    else pure 0

def copyout (pagetable dstva : ℕ) (src : ℕ → UInt8) (len : ℕ) : MProg Int :=
  copyoutFrom pagetable len dstva src len

def pageBytes (pg : Page) (lo n : ℕ) : List UInt8 :=
  (List.range n).map fun j => pageByte pg (lo + j)

def copyinFrom (pagetable : ℕ) : ℕ → ℕ → ℕ → List UInt8 → MProg (Int × List UInt8)
  | 0, _, len, dst => if 0 < len then .panic "copyin: rounds" else pure (0, dst)
  | rounds + 1, srcva, len, dst =>
    if 0 < len then do
      let va0 := pgrounddown srcva
      let pa0 ← walkaddr pagetable va0
      if pa0 = 0 then pure (-1, dst)
      else
        let n := min (PGSIZE - (srcva - va0)) len
        HProg.read pa0 fun pg =>
          copyinFrom pagetable rounds (u64 (va0 + PGSIZE)) (len - n)
            (dst ++ pageBytes pg (srcva - va0) n)
    else pure (0, dst)

def copyin (pagetable srcva len : ℕ) : MProg (Int × List UInt8) :=
  copyinFrom pagetable len srcva len []

/-- The inner loop of `copyinstr` over `n` bytes of a page; the result tells whether it has found a
zero. -/
def copyStr (pg : Page) : ℕ → ℕ → List UInt8 → List UInt8 × Bool
  | 0, _, dst => (dst, false)
  | n + 1, off, dst =>
    if pageByte pg off = 0 then (dst ++ [0], true)
    else copyStr pg n (off + 1) (dst ++ [pageByte pg off])

def copyinstrFrom (pagetable : ℕ) : ℕ → ℕ → ℕ → List UInt8 → MProg (Int × List UInt8)
  | 0, _, max, dst => if 0 < max then .panic "copyinstr: rounds" else pure (-1, dst)
  | rounds + 1, srcva, max, dst =>
    if 0 < max then do
      let va0 := pgrounddown srcva
      let pa0 ← walkaddr pagetable va0
      if pa0 = 0 then pure (-1, dst)
      else
        let n := min (PGSIZE - (srcva - va0)) max
        HProg.read pa0 fun pg =>
          let r := copyStr pg n (srcva - va0) dst
          if r.2 then pure (0, r.1)
          else copyinstrFrom pagetable rounds (u64 (va0 + PGSIZE)) (max - n) r.1
    else pure (-1, dst)

def copyinstr (pagetable srcva max : ℕ) : MProg (Int × List UInt8) :=
  copyinstrFrom pagetable max srcva max []

/-! ## Looking up an address -/

variable {K : KernelImage}

def findPte (mem : ℕ → Page) (va : ℕ) : ℕ → ℕ → Option PteRef
  | 0, pagetable => some (pagetable, px 0 va)
  | level + 1, pagetable =>
    let pte := mem pagetable (px (level + 1) va)
    if IsValid pte then findPte mem va level (pte2pa pte) else none

lemma findPte_entry (mem : ℕ → Page) (va n a : ℕ) :
    entryOf mem va n a = match findPte mem va n a with
      | none => 0
      | some (p, i) => mem p i := by
  induction n generalizing a with
  | zero => rfl
  | succ n ih =>
    unfold entryOf findPte
    dsimp only
    split
    · exact ih _
    · rfl

section

variable {α : Type} {c : Option PteRef → MProg α} {r : Except String α}

lemma runs_walkFrom : (walkFrom va false n a >>= c).Runs K s r s' ↔
      (c (findPte s.mem va n a)).Runs K s r s' := by
  induction n generalizing a with
  | zero => exact Iff.rfl
  | succ n ih =>
    change ((if IsValid (s.mem a (px (n + 1) va)) then walkFrom va false n _
      else pure none : MProg _) >>= c).Runs K s r s' ↔ _
    unfold findPte
    dsimp only
    split
    · exact ih
    · exact Iff.rfl

lemma runs_walk (hva : va < MAXVA) : (walk pt va false >>= c).Runs K s r s' ↔
      (c (findPte s.mem va 2 pt)).Runs K s r s' := by
  unfold walk
  rw [if_neg (Nat.not_le.mpr hva)]
  exact runs_walkFrom

end

def pteOf (mem : ℕ → Page) (pt v : ℕ) : ℕ := entryOf mem (v * PGSIZE) 2 pt

def UserPage (mem : ℕ → Page) (pt v : ℕ) : Prop :=
  v < MAXPN ∧ IsValid (pteOf mem pt v) ∧ pteOf mem pt v &&& PTE_U ≠ 0

def WritablePage (mem : ℕ → Page) (pt v : ℕ) : Prop :=
  UserPage mem pt v ∧ pteOf mem pt v &&& PTE_W ≠ 0

/-- The physical address of the user address `a`. -/
def translate (mem : ℕ → Page) (pt a : ℕ) : ℕ := pte2pa (pteOf mem pt (a / PGSIZE)) + a % PGSIZE

instance (mem : ℕ → Page) (pt v : ℕ) : Decidable (UserPage mem pt v) :=
  inferInstanceAs (Decidable (_ ∧ _ ∧ _))

instance (mem : ℕ → Page) (pt v : ℕ) : Decidable (WritablePage mem pt v) :=
  inferInstanceAs (Decidable (_ ∧ _))

lemma bind_bind {α β γ : Type} (m : MProg α) (f : α → MProg β) (c : β → MProg γ) :
    m >>= f >>= c = m >>= fun a => f a >>= c := by
  induction m with
  | ret a => rfl
  | read p k ih => exact congrArg (HProg.read p) (funext ih)
  | modify p g k ih => exact congrArg (HProg.modify p g) ih
  | alloc k ih => exact congrArg HProg.alloc (funext ih)
  | free p k ih => exact congrArg (HProg.free p) ih
  | pick k ih => exact congrArg HProg.pick (funext ih)
  | panic msg => rfl

lemma maxva_le_of_not_lt (hv : ¬v < MAXPN) : v * PGSIZE ≥ MAXVA := by
  rw [← maxpn_mul]
  exact Nat.mul_le_mul_right _ (not_lt.mp hv)

lemma runs_walkaddr {α : Type} {c : ℕ → MProg α}
    {r : Except String α} : (walkaddr pt (v * PGSIZE) >>= c).Runs K s r s' ↔
      (c (if UserPage s.mem pt v then pte2pa (pteOf s.mem pt v) else 0)).Runs K s r s' := by
  have hentry := findPte_entry s.mem (v * PGSIZE) 2 pt
  unfold walkaddr
  by_cases hv : v < MAXPN
  swap
  · rw [if_pos (maxva_le_of_not_lt hv), if_neg fun hu => hv hu.1]
    exact Iff.rfl
  rw [if_neg (Nat.not_le.mpr (page_lt_maxva hv)), bind_bind, runs_walk (page_lt_maxva hv)]
  cases hfind : findPte s.mem (v * PGSIZE) 2 pt with
  | none =>
    rw [hfind] at hentry
    have hno : ¬UserPage s.mem pt v := fun hu => not_isValid_zero (by
      have hvalid := hu.2.1
      rwa [pteOf, hentry] at hvalid)
    rw [if_neg hno]
    exact Iff.rfl
  | some ref =>
    rw [hfind] at hentry
    have hpte : s.mem ref.1 ref.2 = pteOf s.mem pt v := hentry.symm
    change ((if ¬IsValid (s.mem ref.1 ref.2) then pure 0
      else if s.mem ref.1 ref.2 &&& PTE_U = 0 then pure 0
      else pure (pte2pa (s.mem ref.1 ref.2)) : MProg ℕ) >>= c).Runs K s r s' ↔ _
    rw [hpte]
    by_cases hvalid : IsValid (pteOf s.mem pt v)
    · rw [if_neg (not_not.mpr hvalid)]
      by_cases hu : pteOf s.mem pt v &&& PTE_U = 0
      · rw [if_pos hu, if_neg fun h => h.2.2 hu]
        exact Iff.rfl
      · rw [if_neg hu, if_pos ⟨hv, hvalid, hu⟩]
        exact Iff.rfl
    · rw [if_pos hvalid, if_neg fun h => hvalid h.2.1]
      exact Iff.rfl

/-! ## The pages of a table -/

lemma entryOf_congr (va : ℕ)
    (h : ∀ x ∈ tablePages mem n a, mem' x = mem x) : entryOf mem' va n a = entryOf mem va n a := by
  induction n generalizing a with
  | zero => exact congrFun (h a (by simp [tablePages])) _
  | succ n ih =>
    have htop : mem' a = mem a := h a (by simp [tablePages])
    unfold entryOf
    dsimp only
    rw [htop]
    split
    · rename_i hvalid
      refine ih fun x hx => h x (List.mem_cons_of_mem _ ?_)
      exact List.mem_flatMap.mpr ⟨_, List.mem_finRange _, by rwa [if_pos hvalid]⟩
    · rfl

lemma tablePages_congr
    (h : ∀ x ∈ tablePages mem n a, mem' x = mem x) : tablePages mem' n a = tablePages mem n a := by
  induction n generalizing a with
  | zero => rfl
  | succ n ih =>
    have htop : mem' a = mem a := h a (by simp [tablePages])
    unfold tablePages
    rw [htop]
    refine congrArg _ (List.flatMap_congr fun i _ => ?_)
    split
    · rename_i hvalid
      refine ih fun x hx => h x (List.mem_cons_of_mem _ ?_)
      exact List.mem_flatMap.mpr ⟨i, List.mem_finRange i, by rwa [if_pos hvalid]⟩
    · rfl

/-- The page table of a process: its user pages lie on physical pages of their own, which are not
pages of the table. -/
structure Separate (mem : ℕ → Page) (pt : ℕ) : Prop where
  apart : ∀ v, WritablePage mem pt v → pte2pa (pteOf mem pt v) ∉ tablePages mem 2 pt
  inj : ∀ v w, WritablePage mem pt v → WritablePage mem pt w →
    pte2pa (pteOf mem pt v) = pte2pa (pteOf mem pt w) → v = w

lemma pteOf_update (hx : x ∉ tablePages mem 2 pt) (pg : Page) :
    pteOf (update mem x pg) pt = pteOf mem pt := by
  funext v
  exact entryOf_congr _ fun y hy => update_of_ne (ne_of_mem_of_not_mem hy hx) _ _

lemma Separate.update (h : Separate mem pt) (hx : x ∉ tablePages mem 2 pt)
    (pg : Page) : Separate (Function.update mem x pg) pt := by
  have hpte := pteOf_update hx pg
  have htab : tablePages (Function.update mem x pg) 2 pt = tablePages mem 2 pt :=
    tablePages_congr fun y hy => Function.update_of_ne (ne_of_mem_of_not_mem hy hx) _ _
  constructor
  · intro v hv
    unfold WritablePage UserPage at hv
    rw [hpte] at hv ⊢
    rw [htab]
    exact h.apart v hv
  · intro v w hv hw heq
    unfold WritablePage UserPage at hv hw
    rw [hpte] at hv hw heq
    exact h.inj v w hv hw heq

end Xv6
