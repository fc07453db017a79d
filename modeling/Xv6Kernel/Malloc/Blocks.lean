import Xv6Kernel.Foundation.Linked
import Xv6Kernel.Malloc.Model
import Mathlib.Data.List.Chain
import Mathlib.Data.List.Perm.Basic
import Mathlib.Data.List.Sort

/-!
# The blocks of the heap

The heap is a sequence of blocks, each of them free or live, that covers the memory obtained from
`sbrk` without a gap (`Tiles`).  The invariant `Inv` ties the memory to such a sequence: every block
has its size in its header, the free blocks are linked in the order of their addresses, and no free
block follows another one.
-/

namespace Xv6

variable {a x : ℕ}

namespace Malloc

structure Seg where
  addr : ℕ
  units : ℕ
  live : Bool

def Seg.stop (g : Seg) : ℕ := g.addr + 16 * g.units

def Tiles : ℕ → List Seg → ℕ → Prop
  | lo, [], hi => lo = hi
  | lo, g :: S, hi => g.addr = lo ∧ 0 < g.units ∧ Tiles g.stop S hi

namespace Tiles

variable {lo hi : ℕ} {S T : List Seg} {g : Seg}

lemma append : Tiles lo (S ++ T) hi ↔ ∃ mid, Tiles lo S mid ∧ Tiles mid T hi := by
  induction S generalizing lo with
  | nil => exact ⟨fun h => ⟨lo, rfl, h⟩, fun ⟨_, h, h'⟩ => h ▸ h'⟩
  | cons g S ih =>
    constructor
    · rintro ⟨h1, h2, h3⟩
      obtain ⟨mid, h, h'⟩ := ih.mp h3
      exact ⟨mid, ⟨h1, h2, h⟩, h'⟩
    · rintro ⟨mid, ⟨h1, h2, h⟩, h'⟩
      exact ⟨h1, h2, ih.mpr ⟨mid, h, h'⟩⟩

section

variable (h : Tiles lo S hi)
include h

lemma le : lo ≤ hi := by
  induction S generalizing lo with
  | nil => exact le_of_eq h
  | cons g S ih =>
    obtain ⟨h1, -, h3⟩ := h
    have h := ih h3
    unfold Seg.stop at h
    omega

lemma mem (hg : g ∈ S) : lo ≤ g.addr ∧ 0 < g.units ∧ g.stop ≤ hi := by
  obtain ⟨S1, S2, rfl⟩ := List.append_of_mem hg
  obtain ⟨mid, h1, h2, h3, h4⟩ := append.mp h
  have hle := h1.le
  have hle' := h4.le
  exact ⟨by omega, h3, hle'⟩

lemma pairwise : S.Pairwise fun a b => a.stop ≤ b.addr := by
  induction S generalizing lo with
  | nil => exact .nil
  | cons g S ih =>
    obtain ⟨-, -, h3⟩ := h
    exact .cons (fun b hb => (h3.mem hb).1) (ih h3)

lemma cover (hlo : lo ≤ x) (hhi : x < hi) : ∃ g ∈ S, g.addr ≤ x ∧ x < g.stop := by
  induction S generalizing lo with
  | nil =>
    have h : lo = hi := h
    omega
  | cons g S ih =>
    obtain ⟨h1, -, h3⟩ := h
    by_cases hx : x < g.stop
    · exact ⟨g, List.mem_cons_self, by omega, hx⟩
    · obtain ⟨b, hb, hx'⟩ := ih h3 (by omega)
      exact ⟨b, List.mem_cons_of_mem _ hb, hx'⟩

lemma length_le : lo + 16 * S.length ≤ hi := by
  induction S generalizing lo with
  | nil => exact le_of_eq h
  | cons g S ih =>
    obtain ⟨h1, h2, h3⟩ := h
    have h := ih h3
    unfold Seg.stop at h
    rw [List.length_cons]
    omega

lemma align (hlo : lo % 16 = 0) (hg : g ∈ S) : g.addr % 16 = 0 := by
  induction S generalizing lo with
  | nil => cases hg
  | cons b S ih =>
    obtain ⟨h1, -, h3⟩ := h
    rcases List.mem_cons.mp hg with rfl | hg
    · rwa [h1]
    · refine ih h3 ?_ hg
      unfold Seg.stop
      omega

lemma eq_of_addr {a b : Seg} (ha : a ∈ S) (hb : b ∈ S) (hax : a.addr ≤ x ∧ x < a.stop)
    (hbx : b.addr ≤ x ∧ x < b.stop) : a = b := by
  induction S generalizing lo with
  | nil => cases ha
  | cons g S ih =>
    obtain ⟨-, -, h3⟩ := h
    rcases List.mem_cons.mp ha with hag | ha'
    · rcases List.mem_cons.mp hb with hbg | hb'
      · rw [hag, hbg]
      · have := (h3.mem hb').1
        subst hag
        omega
    rcases List.mem_cons.mp hb with hbg | hb'
    · have := (h3.mem ha').1
      subst hbg
      omega
    · exact ih h3 ha' hb'

end

end Tiles

def frees (S : List Seg) : List ℕ := (S.filter fun g => !g.live).map Seg.addr

def lives (S : List Seg) : List ℕ := (S.filter fun g => g.live).map fun g => g.addr + 16

def NoAdj (S : List Seg) : Prop := S.IsChain fun a b => a.live = true ∨ b.live = true

section Lists

variable {S T : List Seg} {g : Seg}

lemma frees_append : frees (S ++ T) = frees S ++ frees T := by
  simp [frees]

lemma frees_cons_live (h : g.live = true) : frees (g :: S) = frees S := by
  simp [frees, h]

lemma frees_cons_free (h : g.live = false) : frees (g :: S) = g.addr :: frees S := by
  simp [frees, h]

lemma lives_append : lives (S ++ T) = lives S ++ lives T := by
  simp [lives]

lemma lives_cons_free (h : g.live = false) : lives (g :: S) = lives S := by
  simp [lives, h]

lemma lives_cons_live (h : g.live = true) : lives (g :: S) = (g.addr + 16) :: lives S := by
  simp [lives, h]

lemma mem_frees : a ∈ frees S ↔ ∃ g ∈ S, g.live = false ∧ g.addr = a := by
  simp [frees, and_assoc]

lemma mem_lives : a ∈ lives S ↔ ∃ g ∈ S, g.live = true ∧ g.addr + 16 = a := by
  simp [lives, and_assoc]

lemma Tiles.frees_pairwise {lo hi : ℕ} (h : Tiles lo S hi) : (frees S).Pairwise (· < ·) := by
  have hp := List.Pairwise.and_mem.mp h.pairwise
  refine List.Pairwise.map _ (fun a b hab => ?_)
    (List.Pairwise.filter (fun g => !g.live) hp)
  obtain ⟨ha, -, hle⟩ := hab
  have hpos := (h.mem ha).2.1
  unfold Seg.stop at hle
  omega

lemma Tiles.lt_of_mem_frees {lo hi : ℕ} (h : Tiles lo S hi) (ha : a ∈ frees S) :
    lo ≤ a ∧ a < hi := by
  obtain ⟨g, hg, -, rfl⟩ := mem_frees.mp ha
  obtain ⟨h1, h2, h3⟩ := h.mem hg
  unfold Seg.stop at h3
  omega

end Lists

/-! ## The invariant -/

structure Ring (base : ℕ) (s : State) (A : List ℕ) : Prop where
  cycle : Follows s.ptr base A base
  start : s.freep ∈ base :: A
  empty : s.size base = 0

structure Inv (base brk₀ : ℕ) (s : State) (S : List Seg) : Prop where
  tiles : Tiles brk₀ S s.brk
  noAdj : NoAdj S
  size : ∀ g ∈ S, s.size g.addr = g.units
  ring : Ring base s (frees S)
  below : base < brk₀
  bound : s.brk < brk₀ + 2 ^ 36

namespace Inv

variable {base brk₀ : ℕ} {s : State} {S : List Seg}

lemma sorted (h : Inv base brk₀ s S) : (base :: frees S).Pairwise (· < ·) := by
  refine .cons (fun a ha => ?_) h.tiles.frees_pairwise
  have := (h.tiles.lt_of_mem_frees ha).1
  have := h.below
  omega

lemma length_le (h : Inv base brk₀ s S) : (frees S).length ≤ s.brk := by
  have h1 := h.tiles.length_le
  have h2 : (frees S).length ≤ S.length := by
    rw [frees, List.length_map]
    exact List.length_filter_le _ _
  omega

end Inv

end Malloc

end Xv6
