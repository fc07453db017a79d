import Mathlib.Data.List.Nodup
import Mathlib.Data.List.Chain

/-!
# Circular doubly linked lists

A circular doubly linked list is a pair of maps `next` and `prev` on a type of nodes, with a
distinguished head.  `Links.Ring L h l` says that following `next` from the head `h` visits the
nodes of `l` in order and returns to `h`, that `prev` runs the same circle backwards, and that no
node occurs twice.
-/

namespace Xv6

open Function

variable {n : ℕ}

/-- The pointer fields of the nodes of a doubly linked list. -/
structure Links (ν : Type) where
  next : ν → ν
  prev : ν → ν

namespace Links

variable {ν : Type}

/-- The links between the consecutive nodes of a list agree in both directions. -/
def Chained (L : Links ν) (l : List ν) : Prop :=
  l.IsChain fun a b => L.next a = b ∧ L.prev b = a

/-- The ring through the head `h` and the nodes of `l`, in the order of `next`. -/
structure Ring (L : Links ν) (h : ν) (l : List ν) : Prop where
  /-- The links run through `l` from the head back to the head. -/
  chained : L.Chained (h :: (l ++ [h]))
  nodup : (h :: l).Nodup

section Surgery

variable [DecidableEq ν]

def unlink (L : Links ν) (b : ν) : Links ν :=
  let L := { L with prev := update L.prev (L.next b) (L.prev b) }
  { L with next := update L.next (L.prev b) (L.next b) }

/-- Link the node `b` in directly behind the head `h`. -/
def pushFront (L : Links ν) (h b : ν) : Links ν :=
  let L := { L with next := update L.next b (L.next h) }
  let L := { L with prev := update L.prev b h }
  let L := { L with prev := update L.prev (L.next h) b }
  { L with next := update L.next h b }

/-- The empty ring at the head `h`: both pointers of the head point to itself. -/
def empty (L : Links ν) (h : ν) : Links ν :=
  ⟨update L.next h h, update L.prev h h⟩

/-- The nodes visited by following `f` from `x` until the head `h`, at most `n` of them. -/
def follow (f : ν → ν) (h : ν) : ℕ → ν → List ν
  | 0, _ => []
  | n + 1, x => if x = h then [] else x :: follow f h n (f x)

end Surgery

/-! ### Chains of links -/

lemma Chained.congr {L L' : Links ν} {l : List ν} (h : L.Chained l)
    (hn : ∀ a ∈ l.dropLast, L'.next a = L.next a) (hp : ∀ a ∈ l.tail, L'.prev a = L.prev a) :
    L'.Chained l := by
  induction l with
  | nil => exact List.isChain_nil
  | cons a l ih =>
    cases l with
    | nil => exact List.isChain_singleton a
    | cons b l =>
      rw [Chained, List.isChain_cons_cons] at h ⊢
      refine ⟨⟨?_, ?_⟩, ?_⟩
      · rw [hn a (by simp)]; exact h.1.1
      · rw [hp b (by simp)]; exact h.1.2
      · refine ih h.2 (fun c hc => hn c ?_) (fun c hc => hp c ?_)
        · rw [List.dropLast_cons_of_ne_nil (by simp)]; exact List.mem_cons_of_mem _ hc
        · simp only [List.tail_cons] at hc ⊢; exact List.mem_cons_of_mem _ hc

def flip (L : Links ν) : Links ν := ⟨L.prev, L.next⟩

lemma Ring.flip {L : Links ν} {h : ν} {l : List ν} (hr : L.Ring h l) : L.flip.Ring h l.reverse := by
  constructor
  · have hrev : h :: (l.reverse ++ [h]) = (h :: (l ++ [h])).reverse := by simp
    rw [Chained, hrev, List.isChain_reverse]
    exact hr.chained.imp fun a b hab => ⟨hab.2, hab.1⟩
  · have hnd := hr.nodup
    rw [List.nodup_cons] at hnd ⊢
    exact ⟨by simpa using hnd.1, List.nodup_reverse.mpr hnd.2⟩

section Surgery

variable [DecidableEq ν]

/-! ### Pointer surgery on a ring -/

lemma ring_empty (L : Links ν) (h : ν) : (L.empty h).Ring h [] := by
  refine ⟨?_, by simp⟩
  simp [Chained, empty]

lemma Ring.unlink {L : Links ν} {h b : ν} {l1 l2 : List ν} (hr : L.Ring h (l1 ++ b :: l2)) :
    (L.unlink b).Ring h (l1 ++ l2) := by
  -- `a` stands before `b` and `c` behind it, either of them possibly the head
  obtain ⟨xs, a, hxs⟩ : ∃ xs a, h :: l1 = xs ++ [a] :=
    ⟨_, _, (List.dropLast_append_getLast (List.cons_ne_nil h l1)).symm⟩
  obtain ⟨c, ys, hys⟩ : ∃ c ys, l2 ++ [h] = c :: ys :=
    List.exists_cons_of_ne_nil (by simp)
  have hnd : (h :: (l1 ++ b :: l2)).Nodup := hr.nodup
  have hfull : h :: (l1 ++ b :: l2 ++ [h]) = xs ++ a :: b :: c :: ys := by
    have : h :: (l1 ++ b :: l2 ++ [h]) = (h :: l1) ++ b :: (l2 ++ [h]) := by simp
    rw [this, hxs, hys]
    simp
  have hch := hr.chained
  rw [Chained, hfull, List.isChain_append_cons_cons, List.isChain_cons_cons] at hch
  obtain ⟨hleft, hab, hbc, hright⟩ := hch
  have ha : a ∈ h :: l1 := by rw [hxs]; simp
  have hc : c ∈ l2 ++ [h] := by rw [hys]; simp
  have hnext : (L.unlink b).next = update L.next a c := by
    by_cases hcb : c = b
    · exfalso
      subst hcb
      simp only [List.mem_append, List.mem_singleton] at hc
      simp only [List.nodup_cons, List.nodup_append, List.mem_append, List.mem_cons] at hnd
      grind
    · simp only [Links.unlink, hbc.1, hab.2]
      congr 1
      rw [update_of_ne (Ne.symm hcb), hab.2]
  have hprev : (L.unlink b).prev = update L.prev c a := by
    simp only [Links.unlink, hbc.1, hab.2]
  have hnd' : (h :: (l1 ++ l2)).Nodup := by
    refine hnd.sublist (List.Sublist.cons_cons h ?_)
    exact List.Sublist.append_left (List.sublist_cons_self b l2) l1
  refine ⟨?_, hnd'⟩
  have hfull' : h :: (l1 ++ l2 ++ [h]) = xs ++ a :: c :: ys := by
    have : h :: (l1 ++ l2 ++ [h]) = (h :: l1) ++ (l2 ++ [h]) := by simp
    rw [this, hxs, hys]
    simp
  rw [Chained, hfull', List.isChain_append_cons_cons]
  refine ⟨?_, ⟨?_, ?_⟩, ?_⟩
  · refine Chained.congr (L := L) hleft (fun x hx => ?_) (fun x hx => ?_)
    · rw [hnext, update_of_ne]
      have hxs' : (xs ++ [a]).Nodup := by
        rw [← hxs]; exact hnd'.sublist (by simp)
      rintro rfl
      simp only [List.dropLast_concat] at hx
      simp only [List.nodup_append, List.mem_singleton] at hxs'
      exact hxs'.2.2 x hx x rfl rfl
    · rw [hprev, update_of_ne]
      rw [← hxs, List.tail_cons] at hx
      rintro rfl
      simp only [List.mem_append, List.mem_singleton] at hc
      simp only [List.nodup_cons, List.nodup_append, List.mem_append] at hnd'
      grind
  · rw [hnext, update_self]
  · rw [hprev, update_self]
  · refine Chained.congr (L := L) hright (fun x hx => ?_) (fun x hx => ?_)
    · rw [hnext, update_of_ne]
      rw [← hys, List.dropLast_concat] at hx
      rintro rfl
      simp only [List.mem_cons] at ha
      simp only [List.nodup_cons, List.nodup_append, List.mem_append] at hnd'
      grind
    · rw [hprev, update_of_ne]
      have hys' : (c :: ys).Nodup := by
        rw [← hys, List.nodup_append]
        simp only [List.nodup_cons, List.nodup_append, List.mem_append] at hnd'
        grind
      rintro rfl
      exact (List.nodup_cons.mp hys').1 hx

lemma Ring.pushFront {L : Links ν} {h b : ν} {l : List ν} (hr : L.Ring h l)
    (hb : b ∉ h :: l) : (L.pushFront h b).Ring h (b :: l) := by
  obtain ⟨c, ys, hys⟩ : ∃ c ys, l ++ [h] = c :: ys := List.exists_cons_of_ne_nil (by simp)
  have hnd := hr.nodup
  have hc : c ∈ l ++ [h] := by rw [hys]; simp
  have hbh : b ≠ h := fun e => hb (by simp [e])
  have hbc : b ≠ c := by
    rintro rfl
    exact hb (by simpa [or_comm] using hc)
  have hch := hr.chained
  rw [Chained, hys, List.isChain_cons_cons] at hch
  obtain ⟨hhc, hright⟩ := hch
  have hnext : (L.pushFront h b).next =
      update (update L.next b c) h b := by
    simp only [Links.pushFront, hhc.1]
  have hprev : (L.pushFront h b).prev =
      update (update L.prev b h) c b := by
    simp only [Links.pushFront, hhc.1, update_of_ne (Ne.symm hbh)]
  constructor
  · rw [Chained, List.cons_append, hys, List.isChain_cons_cons, List.isChain_cons_cons]
    refine ⟨⟨?_, ?_⟩, ⟨?_, ?_⟩, ?_⟩
    · rw [hnext, update_self]
    · rw [hprev, update_of_ne hbc, update_self]
    · rw [hnext, update_of_ne hbh, update_self]
    · rw [hprev, update_self]
    · refine Chained.congr (L := L) hright (fun x hx => ?_) (fun x hx => ?_)
      · rw [← hys, List.dropLast_concat] at hx
        have hxh : x ≠ h := fun e => (List.nodup_cons.mp hnd).1 (e ▸ hx)
        have hxb : x ≠ b := fun e => hb (List.mem_cons_of_mem h (e ▸ hx))
        rw [hnext, update_of_ne hxh, update_of_ne hxb]
      · have hys' : (c :: ys).Nodup := by
          rw [← hys]
          exact (List.perm_append_singleton h l).nodup_iff.mpr hnd
        have hxc : x ≠ c := fun e => (List.nodup_cons.mp hys').1 (e ▸ hx)
        have hxb : x ≠ b := by
          rintro rfl
          have : x ∈ l ++ [h] := by rw [hys]; exact List.mem_cons_of_mem c hx
          exact hb (by simpa [or_comm] using this)
        rw [hprev, update_of_ne hxc, update_of_ne hxb]
  · rw [List.nodup_cons] at hnd ⊢
    refine ⟨?_, List.nodup_cons.mpr ⟨fun e => hb (List.mem_cons_of_mem h e), hnd.2⟩⟩
    rw [List.mem_cons]
    rintro (e | e)
    · exact hbh e.symm
    · exact hnd.1 e

/-! ### Traversals -/

lemma follow_of_chained {L : Links ν} {h x : ν} {l : List ν} (hc : L.Chained (x :: (l ++ [h])))
    (hl : h ∉ l) (hn : l.length < n) : follow L.next h n (L.next x) = l := by
  induction l generalizing x n with
  | nil =>
    obtain ⟨m, rfl⟩ : ∃ m, n = m + 1 := ⟨n - 1, by simp at hn; omega⟩
    simp only [Chained, List.nil_append, List.isChain_cons_cons] at hc
    simp [follow, hc.1.1]
  | cons a l ih =>
    obtain ⟨m, rfl⟩ : ∃ m, n = m + 1 := ⟨n - 1, by simp at hn; omega⟩
    rw [Chained, List.cons_append, List.isChain_cons_cons] at hc
    have hah : a ≠ h := fun e => hl (by simp [e])
    rw [follow, hc.1.1, if_neg hah, ih hc.2 (fun e => hl (List.mem_cons_of_mem a e))
      (by simpa using hn)]

section

variable {L : Links ν} {h : ν} {l : List ν} (hr : L.Ring h l) (hn : l.length < n)
include hr hn

lemma Ring.follow_next : follow L.next h n (L.next h) = l :=
  follow_of_chained hr.chained (List.nodup_cons.mp hr.nodup).1 hn

lemma Ring.follow_prev : follow L.prev h n (L.prev h) = l.reverse :=
  hr.flip.follow_next (by simpa using hn)

end

end Surgery

end Links

end Xv6
