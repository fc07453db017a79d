import Mathlib.Data.List.Nodup

/-!
# Saving and restoring registers

Straight-line code that stores registers to slots at fixed offsets from a base register, and loads
them again.  `loads_stores` is the rule for a save and a later restore: what happens in between may
do anything but change the slots.  Addresses are multiples of 8, so that words do not overlap.
-/

namespace Xv6

open Function

/-- The registers of a processor and the words of the memory. -/
structure Words (R : Type) where
  reg : R → UInt64
  mem : UInt64 → UInt64

namespace Words

variable {R : Type}

/-- `sd r, o(b)`. -/
def sd (b : R) (s : R × UInt64) (w : Words R) : Words R :=
  { w with mem := update w.mem (w.reg b + s.2) (w.reg s.1) }

/-- `ld r, o(b)`. -/
def ld [DecidableEq R] (b : R) (s : R × UInt64) (w : Words R) : Words R :=
  { w with reg := update w.reg s.1 (w.mem (w.reg b + s.2)) }

def stores (b : R) : List (R × UInt64) → Words R → Words R
  | [], w => w
  | s :: l, w => stores b l (w.sd b s)

def loads [DecidableEq R] (b : R) : List (R × UInt64) → Words R → Words R
  | [], w => w
  | s :: l, w => loads b l (w.ld b s)

variable {b r : R} {l : List (R × UInt64)} {w : Words R} {o a : UInt64}

@[simp] lemma stores_reg : (stores b l w).reg = w.reg := by
  induction l generalizing w with
  | nil => rfl
  | cons s l ih => exact ih (w := w.sd b s)

lemma stores_mem_of_ne (ha : ∀ s ∈ l, a ≠ w.reg b + s.2) : (stores b l w).mem a = w.mem a := by
  induction l generalizing w with
  | nil => rfl
  | cons s l ih =>
    exact (ih (w := w.sd b s) fun t ht => ha t (.tail _ ht)).trans
      (update_of_ne (ha s (.head _)) _ _)

lemma stores_mem (hl : (l.map Prod.snd).Nodup) (h : (r, o) ∈ l) :
    (stores b l w).mem (w.reg b + o) = w.reg r := by
  induction l generalizing w with
  | nil => cases h
  | cons s l ih =>
    obtain ⟨hs, hl⟩ := List.nodup_cons.mp hl
    rcases List.mem_cons.mp h with rfl | h
    · -- the later slots have other offsets
      refine (stores_mem_of_ne (w := w.sd b (r, o)) fun t ht he => hs ?_).trans (update_self _ _ _)
      exact List.mem_map.mpr ⟨t, ht, ((UInt64.add_right_inj _).mp he).symm⟩
    · exact ih (w := w.sd b s) hl h

variable [DecidableEq R]

@[simp] lemma loads_mem : (loads b l w).mem = w.mem := by
  induction l generalizing w with
  | nil => rfl
  | cons s l ih => exact ih (w := w.ld b s)

lemma loads_reg_of_notMem (h : r ∉ l.map Prod.fst) : (loads b l w).reg r = w.reg r := by
  induction l generalizing w with
  | nil => rfl
  | cons s l ih =>
    rw [List.map_cons, List.mem_cons, not_or] at h
    exact (ih (w := w.ld b s) h.2).trans (update_of_ne h.1 _ _)

/-- The base register may be among those loaded, if its slot holds the base itself. -/
lemma loads_reg (hb : ∀ o, (b, o) ∈ l → w.mem (w.reg b + o) = w.reg b)
    (hl : (l.map Prod.fst).Nodup) (h : (r, o) ∈ l) :
    (loads b l w).reg r = w.mem (w.reg b + o) := by
  induction l generalizing w with
  | nil => cases h
  | cons s l ih =>
    obtain ⟨hs, hl⟩ := List.nodup_cons.mp hl
    rcases List.mem_cons.mp h with rfl | h
    · exact (loads_reg_of_notMem hs).trans (update_self _ _ _)
    have hbase : (w.ld b s).reg b = w.reg b := by
      by_cases he : b = s.1
      · subst he
        exact (update_self _ _ _).trans (hb s.2 (.head _))
      · exact update_of_ne he _ _
    refine (ih (w := w.ld b s) (fun o ho => ?_) hl h).trans ?_
    · rw [hbase]
      exact hb o (.tail _ ho)
    · rw [hbase]
      rfl

/-- Registers are restored from slots `m` among those where they were saved. -/
lemma loads_stores {c : R} {m : List (R × UInt64)} {v : Words R} (hc : v.reg c = w.reg b)
    (hl : (l.map Prod.snd).Nodup) (hm : (m.map Prod.fst).Nodup) (hsub : ∀ s ∈ m, s ∈ l)
    (hkeep : ∀ s ∈ m, v.mem (w.reg b + s.2) = (stores b l w).mem (w.reg b + s.2))
    (hb : c ∈ m.map Prod.fst → c = b) (h : (r, o) ∈ m) : (loads c m v).reg r = w.reg r := by
  have hslot : ∀ r o, (r, o) ∈ m → v.mem (v.reg c + o) = w.reg r := fun r o h => by
    rw [hc, hkeep _ h, stores_mem hl (hsub _ h)]
  rw [loads_reg (fun o ho => ?_) hm h, hslot _ _ h]
  rw [hslot _ _ ho, hc, hb (List.mem_map_of_mem ho)]

end Words

end Xv6
