import Xv6Kernel.Fs.Model
import Mathlib.Algebra.Order.BigOperators.Group.Finset

/-!
# Orphan inodes

An inode that is allocated and has no entry in a directory is an orphan: if it is on the disk after
a crash, nobody can remove it.  `DiskInv` describes a disk without orphans, apart from the inodes
for which a process in a transaction is responsible: it is about to make an entry, or to free the
inode because it holds the only reference.
-/

namespace Xv6

open Function

namespace Fs

open Finset Protocol

/-! ## The disk -/

/-- A disk without orphans, apart from the inodes that are owed an entry or their removal.  `pend i`
is the number of entries that are about to be made for `i`. -/
structure DiskInv (d : Disk) (pend : ℕ → ℕ) (owed : ℕ → Prop) : Prop where
  root : d.kind ROOTINO = .dir ∧ d.up ROOTINO = ROOTINO ∧ 1 ≤ d.nlink ROOTINO
  nlink : ∀ i, i ≠ ROOTINO → d.kind i ≠ .free → d.nlink i = d.links i + pend i
  /-- Entries are in directories, and name inodes in use. -/
  ents : ∀ t ∈ d.ents, d.kind t.dir = .dir ∧ d.kind t.inum ≠ .free ∧ t.inum ≠ ROOTINO
  /-- The entry `..` of a directory is the directory that names it. -/
  up : ∀ t ∈ d.ents, d.kind t.inum = .dir → d.up t.inum = t.dir
  named : ∀ i, i ≠ ROOTINO → d.kind i ≠ .free → d.links i = 0 → owed i

def DiskOk (d : Disk) : Prop := DiskInv d (fun _ => 0) fun _ => False

namespace DiskInv

variable {d : Disk} {pend pend' : ℕ → ℕ} {owed owed' : ℕ → Prop} {dp n i : ℕ} {t : Entry}

lemma links_pos (ht : t ∈ d.ents) : 0 < d.links t.inum := by
  rw [Disk.links, List.countP_pos_iff]
  exact ⟨t, ht, by simp⟩

lemma exists_entry (hi : d.links i ≠ 0) : ∃ t ∈ d.ents, t.inum = i := by
  obtain ⟨t, ht, hti⟩ := List.countP_pos_iff.mp (Nat.pos_of_ne_zero hi)
  exact ⟨t, ht, by simpa using hti⟩

lemma ne_root (h : DiskInv d pend owed) (hi : d.kind i ≠ .dir) : i ≠ ROOTINO := by
  rintro rfl
  exact hi h.root.1

lemma links_free (h : DiskInv d pend owed) (hi : d.kind i = .free) : d.links i = 0 := by
  by_contra hne
  obtain ⟨t, ht, rfl⟩ := exists_entry hne
  exact (h.ents t ht).2.1 hi

lemma ents_free (h : DiskInv d pend owed) (hi : d.kind i = .free) (t : Entry)
    (ht : t ∈ d.ents) : t.dir ≠ i ∧ t.inum ≠ i := by
  obtain ⟨h1, h2, -⟩ := h.ents t ht
  refine ⟨fun he => ?_, fun he => h2 (he ▸ hi)⟩
  rw [he, hi] at h1
  cases h1

lemma links_cons (t : Entry) (ents : List Entry) (j : ℕ) :
    (ents.countP fun u => u.inum = j) + (if t.inum = j then 1 else 0) =
      (t :: ents).countP fun u => u.inum = j := by
  rw [List.countP_cons]
  simp

section

variable (h : DiskInv d pend owed)
include h

lemma mono (hpend : ∀ i, pend' i = pend i)
    (howed : ∀ i, owed i → owed' i) : DiskInv d pend' owed' :=
  ⟨h.root, fun i hi hk => by rw [hpend]; exact h.nlink i hi hk, h.ents, h.up,
    fun i hi hk hl => howed i (h.named i hi hk hl)⟩

lemma create (hdp : d.kind dp = .dir) (hi : d.kind i = .free)
    (hpend : pend i = 0) {k : Kind} (hk : k ≠ .free) : DiskInv (d.create dp n i k) pend owed := by
  have hroot : ROOTINO ≠ i := Ne.symm (h.ne_root (by rw [hi]; simp))
  have hdpi : dp ≠ i := by
    rintro rfl
    rw [hdp] at hi
    cases hi
  have hother := h.ents_free hi
  have hlinks : ∀ j, (d.create dp n i k).links j = d.links j + if i = j then 1 else 0 := fun j =>
    (links_cons ⟨dp, n, i⟩ d.ents j).symm
  refine ⟨?_, fun j hj hkj => ?_, fun t ht => ?_, fun t ht htk => ?_, fun j hj hkj hl => ?_⟩
  · simp only [Disk.create, ne_eq, hroot, not_false_eq_true, update_of_ne]
    exact h.root
  · rw [hlinks]
    by_cases hji : j = i
    · subst hji
      simp [Disk.create, h.links_free hi, hpend]
    have hij : i ≠ j := Ne.symm hji
    simp only [Disk.create, ne_eq, hji, not_false_eq_true, update_of_ne] at hkj ⊢
    rw [if_neg hij]
    exact h.nlink j hj hkj
  · rcases List.mem_cons.mp ht with rfl | ht
    · simp only [Disk.create, ne_eq, hdpi, not_false_eq_true, update_of_ne,
        update_self]
      exact ⟨hdp, hk, Ne.symm hroot⟩
    · obtain ⟨h1, h2⟩ := hother t ht
      simp only [Disk.create, ne_eq, h1, h2, not_false_eq_true, update_of_ne]
      exact h.ents t ht
  · rcases List.mem_cons.mp ht with rfl | ht
    · simp [Disk.create]
    · obtain ⟨h1, h2⟩ := hother t ht
      simp only [Disk.create, ne_eq, h2, not_false_eq_true, update_of_ne] at htk ⊢
      exact h.up t ht htk
  · rw [hlinks] at hl
    by_cases hji : j = i
    · subst hji
      simp at hl
    · simp only [Disk.create, ne_eq, hji, not_false_eq_true, update_of_ne] at hkj
      exact h.named j hj hkj (by omega)

lemma ialloc (hi : d.kind i = .free) (hpend : pend i = 0) {k : Kind}
    (howed : ∀ j, owed j → owed' j) (howedi : owed' i) : DiskInv (d.ialloc dp i k) pend owed' := by
  have hroot : ROOTINO ≠ i := Ne.symm (h.ne_root (by rw [hi]; simp))
  have hother := h.ents_free hi
  have hkind : ∀ j, j ≠ i → (d.ialloc dp i k).kind j = d.kind j := fun j hj =>
    update_of_ne hj _ _
  refine ⟨?_, fun j hj hkj => ?_, fun t ht => ?_, fun t ht htk => ?_, fun j hj hkj hl => ?_⟩
  · simp only [Disk.ialloc, ne_eq, hroot, not_false_eq_true, update_of_ne]
    exact h.root
  · change update d.nlink i 0 j = d.links j + pend j
    by_cases hji : j = i
    · subst hji
      rw [update_self, h.links_free hi, hpend]
    · rw [hkind j hji] at hkj
      rw [update_of_ne hji]
      exact h.nlink j hj hkj
  · rw [hkind _ (hother t ht).1, hkind _ (hother t ht).2]
    exact h.ents t ht
  · have hti := (hother t ht).2
    rw [hkind _ hti] at htk
    change update d.up i dp t.inum = t.dir
    rw [update_of_ne hti]
    exact h.up t ht htk
  · by_cases hji : j = i
    · subst hji
      exact howedi
    · rw [hkind j hji] at hkj
      exact howed j (h.named j hj hkj hl)

lemma dirlink (hdp : d.kind dp = .dir) (hi : d.kind i = .file)
    (hpend : ∀ j, pend j = pend' j + if i = j then 1 else 0)
    (howed : ∀ j, j ≠ i → owed j → owed' j) : DiskInv (d.dirlink dp n i) pend' owed' := by
  have hroot : i ≠ ROOTINO := h.ne_root (by rw [hi]; simp)
  have hlinks : ∀ j, (d.dirlink dp n i).links j = d.links j + if i = j then 1 else 0 := fun j =>
    (links_cons ⟨dp, n, i⟩ d.ents j).symm
  refine ⟨h.root, fun j hj hkj => ?_, fun t ht => ?_, fun t ht htk => ?_, fun j hj hkj hl => ?_⟩
  · have hn : d.nlink j = d.links j + pend j := h.nlink j hj hkj
    have hp := hpend j
    rw [hlinks]
    change d.nlink j = _
    omega
  · rcases List.mem_cons.mp ht with rfl | ht
    · exact ⟨hdp, by change d.kind i ≠ .free; rw [hi]; simp, hroot⟩
    · exact h.ents t ht
  · rcases List.mem_cons.mp ht with rfl | ht
    · have hk : d.kind i = .dir := htk
      rw [hi] at hk
      cases hk
    · exact h.up t ht htk
  · rw [hlinks] at hl
    have hji : j ≠ i := by
      rintro rfl
      simp at hl
    exact howed j hji (h.named j hj hkj (by omega))

lemma setNlink (hi : i ≠ ROOTINO) {k : ℕ}
    (hk : d.kind i ≠ .free → k = d.links i + pend' i) (hpend : ∀ j, j ≠ i → pend' j = pend j)
    (howed : ∀ j, j ≠ i → owed j → owed' j) (howedi : d.kind i ≠ .free → d.links i = 0 → owed' i) :
    DiskInv (d.setNlink i k) pend' owed' := by
  have hroot : ROOTINO ≠ i := Ne.symm hi
  refine ⟨?_, fun j hj hkj => ?_, h.ents, h.up, fun j hj hkj hl => ?_⟩
  · simp only [Disk.setNlink, ne_eq, hroot, not_false_eq_true, update_of_ne]
    exact h.root
  · by_cases hji : j = i
    · subst hji
      change update d.nlink j k j = d.links j + pend' j
      rw [update_self]
      exact hk hkj
    · change update d.nlink i k j = d.links j + pend' j
      rw [update_of_ne hji, hpend j hji]
      exact h.nlink j hj hkj
  · by_cases hji : j = i
    · subst hji
      exact howedi hkj hl
    · exact howed j hji (h.named j hj hkj hl)

end

lemma links_unlink (ht : t ∈ d.ents) (j : ℕ) :
    (d.unlink t).links j + (if t.inum = j then 1 else 0) = d.links j := by
  rw [Disk.links, Disk.links, (List.perm_cons_erase ht).countP_eq]
  exact links_cons t (d.ents.erase t) j

lemma unlink (h : DiskInv d pend owed) (ht : t ∈ d.ents) (hpend : ∀ j, pend' j = pend j)
    (howed : ∀ j, owed j → owed' j) (howedt : (d.unlink t).links t.inum = 0 → owed' t.inum) :
    DiskInv (d.unlink t) pend' owed' := by
  have hroot : ROOTINO ≠ t.inum := Ne.symm (h.ents t ht).2.2
  have hsub : ∀ u ∈ d.ents.erase t, u ∈ d.ents := fun u hu => List.mem_of_mem_erase hu
  refine ⟨?_, fun j hj hkj => ?_, fun u hu => h.ents u (hsub u hu),
    fun u hu => h.up u (hsub u hu), fun j hj hkj hl => ?_⟩
  · simp only [Disk.unlink, ne_eq, hroot, not_false_eq_true, update_of_ne]
    exact h.root
  · have hn : d.nlink j = d.links j + pend j := h.nlink j hj hkj
    have hl := links_unlink ht j
    change update d.nlink t.inum (d.nlink t.inum - 1) j = (d.unlink t).links j + pend' j
    rw [hpend]
    by_cases hjt : j = t.inum
    · subst hjt
      rw [update_self]
      rw [if_pos rfl] at hl
      omega
    · rw [update_of_ne hjt]
      rw [if_neg (Ne.symm hjt)] at hl
      omega
  · by_cases hjt : j = t.inum
    · subst hjt
      exact howedt hl
    · have hlj := links_unlink ht j
      rw [if_neg (Ne.symm hjt)] at hlj
      exact howed j (h.named j hj hkj (by omega))

lemma release (h : DiskInv d pend owed) (hi : i ≠ ROOTINO)
    (hno : ∀ t ∈ d.ents, t.dir ≠ i ∧ t.inum ≠ i) (howed : ∀ j, j ≠ i → owed j → owed' j) :
    DiskInv (d.release i) pend owed' := by
  have hents : d.ents.filter (fun t => decide (t.dir ≠ i)) = d.ents :=
    List.filter_eq_self.mpr fun t ht => decide_eq_true (hno t ht).1
  have hroot : ROOTINO ≠ i := Ne.symm hi
  have hkind : ∀ j, j ≠ i → (d.release i).kind j = d.kind j := fun j hj =>
    update_of_ne hj _ _
  have hfree : (d.release i).kind i = .free := update_self _ _ _
  have hlinks : ∀ j, (d.release i).links j = d.links j := by
    intro j
    rw [Disk.links, Disk.release, hents]
    rfl
  have hmem : ∀ t ∈ (d.release i).ents, t ∈ d.ents := fun t ht => List.mem_of_mem_filter ht
  refine ⟨?_, fun j hj hkj => ?_, fun t ht => ?_, fun t ht htk => ?_, fun j hj hkj hl => ?_⟩
  · rw [hkind _ hroot]
    exact h.root
  · have hji : j ≠ i := fun he => hkj (he ▸ hfree)
    rw [hkind j hji] at hkj
    rw [hlinks]
    exact h.nlink j hj hkj
  · obtain ⟨h1, h2⟩ := hno t (hmem t ht)
    rw [hkind _ h1, hkind _ h2]
    exact h.ents t (hmem t ht)
  · rw [hkind _ (hno t (hmem t ht)).2] at htk
    exact h.up t (hmem t ht) htk
  · have hji : j ≠ i := fun he => hkj (he ▸ hfree)
    rw [hkind j hji] at hkj
    rw [hlinks] at hl
    exact howed j hji (h.named j hj hkj hl)

lemma release_free (h : DiskInv d pend owed) (hi : d.kind i = .free) : d.release i = d := by
  have hents : d.ents.filter (fun t => decide (t.dir ≠ i)) = d.ents :=
    List.filter_eq_self.mpr fun t ht => decide_eq_true (h.ents_free hi t ht).1
  rw [Disk.release, hents, ← hi, update_eq_self]

end DiskInv

end Fs

end Xv6
