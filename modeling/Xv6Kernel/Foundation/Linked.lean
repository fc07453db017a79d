import Mathlib.Data.List.Basic
import Mathlib.Data.Nat.Basic
import Mathlib.Logic.Function.Iterate
import Mathlib.Order.Basic

/-!
# Singly linked lists

`Follows f x l y` says that following the links `f` from the node `x` visits the nodes of `l` in
order and ends in `y`.  A circular list with the node `x` is `Follows f x l x`: every node of it is
reached from every other one.
-/

namespace Xv6

variable {ν : Type}

/-- The links lead from `x` through the nodes of `l` to `y`. -/
def Follows (f : ν → ν) : ν → List ν → ν → Prop
  | x, [], y => f x = y
  | x, a :: l, y => f x = a ∧ Follows f a l y

namespace Follows

variable {f g : ν → ν} {x y z : ν} {l : List ν}

lemma append_cons {a : ν} {m : List ν} :
    Follows f x (l ++ a :: m) y ↔ Follows f x l a ∧ Follows f a m y := by
  induction l generalizing x with
  | nil => exact Iff.rfl
  | cons b l ih =>
    change f x = b ∧ Follows f b (l ++ a :: m) y ↔ (f x = b ∧ Follows f b l a) ∧ _
    rw [ih, and_assoc]

lemma congr (h : Follows f x l y) (hg : ∀ a ∈ x :: l, g a = f a) : Follows g x l y := by
  induction l generalizing x with
  | nil => exact (hg x (by simp)).trans h
  | cons b l ih =>
    exact ⟨(hg x (by simp)).trans h.1, ih h.2 fun a ha => hg a (List.mem_cons_of_mem _ ha)⟩

lemma next (h : Follows f x l y) {c d : List ν} (hl : x :: l = c ++ z :: d) : f z = d.headD y := by
  induction l generalizing x c with
  | nil =>
    cases c with
    | nil =>
      obtain ⟨rfl, rfl⟩ := List.cons.inj hl
      exact h
    | cons b c => exact absurd (List.cons.inj hl).2 (by simp)
  | cons b l ih =>
    cases c with
    | nil =>
      obtain ⟨rfl, rfl⟩ := List.cons.inj hl
      exact h.1
    | cons b' c => exact ih h.2 (List.cons.inj hl).2

lemma next_mem (h : Follows f x l y) (hz : z ∈ x :: l) : f z ∈ y :: l := by
  obtain ⟨c, d, hl⟩ := List.append_of_mem hz
  rw [h.next hl]
  cases d with
  | nil => exact List.mem_cons_self
  | cons b d =>
    refine List.mem_cons_of_mem _ ?_
    change b ∈ l
    cases c with
    | nil =>
      rw [(List.cons.inj hl).2]
      exact List.mem_cons_self
    | cons b' c =>
      rw [(List.cons.inj hl).2]
      simp

lemma rehead {w : ν} (h : Follows f x l y) (hw : g w = l.headD y) (hg : ∀ a ∈ l, g a = f a) :
    Follows g w l y := by
  cases l with
  | nil => exact hw
  | cons a l => exact ⟨hw, h.2.congr hg⟩

lemma reach (h : Follows f x l y) (hz : z ∈ x :: l) : ∃ d ≤ l.length, f^[d] x = z := by
  induction l generalizing x with
  | nil => exact ⟨0, le_rfl, (List.mem_singleton.mp hz).symm⟩
  | cons b l ih =>
    rcases List.mem_cons.mp hz with rfl | hz
    · exact ⟨0, Nat.zero_le _, rfl⟩
    · obtain ⟨d, hd, hit⟩ := ih h.2 hz
      refine ⟨d + 1, Nat.succ_le_succ hd, ?_⟩
      rw [Function.iterate_succ_apply, h.1, hit]

lemma reach_end (h : Follows f x l y) (hz : z ∈ x :: l) : ∃ d ≤ l.length + 1, f^[d] z = y := by
  induction l generalizing x z with
  | nil =>
    rw [List.mem_singleton.mp hz]
    exact ⟨1, le_rfl, h⟩
  | cons b l ih =>
    rcases List.mem_cons.mp hz with rfl | hz
    · obtain ⟨d, hd, hit⟩ := ih h.2 List.mem_cons_self
      refine ⟨d + 1, Nat.succ_le_succ hd, ?_⟩
      rw [Function.iterate_succ_apply, h.1, hit]
    · obtain ⟨d, hd, hit⟩ := ih h.2 hz
      exact ⟨d, hd.trans (Nat.le_succ _), hit⟩

lemma reach_cycle {w : ν} (h : Follows f x l x) (hz : z ∈ x :: l) (hw : w ∈ x :: l) :
    ∃ d ≤ 2 * l.length + 1, f^[d] z = w := by
  obtain ⟨d1, hd1, hit1⟩ := h.reach_end hz
  obtain ⟨d2, hd2, hit2⟩ := h.reach hw
  refine ⟨d2 + d1, by omega, ?_⟩
  rw [Function.iterate_add_apply, hit1, hit2]

end Follows

end Xv6
