import Mathlib.Data.List.Basic

/-!
# Programs over a heap of pages

`HProg A I W α` is the type of sequential programs over a memory of pages: a page is named by an
address in `A` and holds one word of type `W` for every index in `I`.  Such a program reads a page,
changes one, asks the allocator for a page or returns one to it, takes an arbitrary number from its
environment, or panics.

A `Heap` is the set of pages that a program owns, with their contents.  `HProg.wp` is the weakest
precondition of a program over the pages it owns: it may touch and free only those, the allocator
gives it a page it does not own yet or nothing at all, and it raises only the tolerated panics.
Since a program never needs more than what it owns, a specification stated for a small heap holds in
every larger one, and the rest is left alone: this is the frame rule `HProg.wp_frame`.
-/

namespace Xv6

open Function

/-- The pages owned by a program, with their contents. -/
abbrev Heap (A I W : Type) : Type := A → Option (I → W)

/-- Programs over pages with addresses in `A`, indices in `I` and words in `W`. -/
inductive HProg (A I W α : Type) : Type where
  | ret (a : α) : HProg A I W α
  | read (p : A) (k : (I → W) → HProg A I W α) : HProg A I W α
  | modify (p : A) (f : (I → W) → (I → W)) (k : HProg A I W α) : HProg A I W α
  | alloc (k : Option A → HProg A I W α) : HProg A I W α
  | free (p : A) (k : HProg A I W α) : HProg A I W α
  | pick (k : ℕ → HProg A I W α) : HProg A I W α
  | panic (msg : String) : HProg A I W α

namespace HProg

variable {A I W α β : Type}

def bind : HProg A I W α → (α → HProg A I W β) → HProg A I W β
  | ret a, c => c a
  | read p k, c => read p fun pg => (k pg).bind c
  | modify p f k, c => modify p f (k.bind c)
  | alloc k, c => alloc fun p => (k p).bind c
  | free p k, c => free p (k.bind c)
  | pick k, c => pick fun n => (k n).bind c
  | panic msg, _ => panic msg

instance : Monad (HProg A I W) where
  pure := ret
  bind := bind

def load (p : A) (i : I) : HProg A I W W := read p fun pg => ret (pg i)

/-- Write the word with index `i` of the page at `p`. -/
def store [DecidableEq I] (p : A) (i : I) (v : W) : HProg A I W Unit :=
  modify p (fun pg => update pg i v) (ret ())

def fill (p : A) (v : W) : HProg A I W Unit := modify p (fun _ _ => v) (ret ())

def allocPage : HProg A I W (Option A) := alloc ret

def freePage (p : A) : HProg A I W Unit := free p (ret ())

def forEach (f : β → HProg A I W Unit) : List β → HProg A I W Unit
  | [] => ret ()
  | b :: l => do
    f b
    forEach f l

/-! ## The weakest precondition -/

variable [DecidableEq A]

/-- From the owned pages `h` the program keeps to what it owns, raises only panics of `tol`, and
ends with a result and a heap related by `Q`.  The allocator hands out pages of `valid`. -/
def wp (valid : A → Prop) (tol : String → Prop) :
    HProg A I W α → (α → Heap A I W → Prop) → Heap A I W → Prop
  | ret a, Q, h => Q a h
  | read p k, Q, h => ∃ pg, h p = some pg ∧ (k pg).wp valid tol Q h
  | modify p f k, Q, h =>
      ∃ pg, h p = some pg ∧ k.wp valid tol Q (update h p (some (f pg)))
  | alloc k, Q, h => (k none).wp valid tol Q h ∧
      ∀ p pg, valid p → h p = none →
        (k (some p)).wp valid tol Q (update h p (some pg))
  | free p k, Q, h => valid p ∧ h p ≠ none ∧ k.wp valid tol Q (update h p none)
  | pick k, Q, h => ∀ n, (k n).wp valid tol Q h
  | panic msg, _, _ => tol msg

variable {valid : A → Prop} {tol : String → Prop} {Q : β → Heap A I W → Prop} {h : Heap A I W}

lemma wp_mono {m : HProg A I W α} {Q Q' : α → Heap A I W → Prop} {h : Heap A I W}
    (hm : m.wp valid tol Q h) (hQ : ∀ a h', Q a h' → Q' a h') : m.wp valid tol Q' h := by
  induction m generalizing h with
  | ret a => exact hQ a h hm
  | read p k ih =>
    obtain ⟨pg, hp, hk⟩ := hm
    exact ⟨pg, hp, ih pg hk⟩
  | modify p f k ih =>
    obtain ⟨pg, hp, hk⟩ := hm
    exact ⟨pg, hp, ih hk⟩
  | alloc k ih => exact ⟨ih none hm.1, fun p pg hv hp => ih (some p) (hm.2 p pg hv hp)⟩
  | free p k ih => exact ⟨hm.1, hm.2.1, ih hm.2.2⟩
  | pick k ih => exact fun n => ih n (hm n)
  | panic msg => exact hm

lemma wp_bind {m : HProg A I W α} {c : α → HProg A I W β} :
    (m >>= c).wp valid tol Q h ↔ m.wp valid tol (fun a h' => (c a).wp valid tol Q h') h := by
  induction m generalizing h with
  | ret a => exact Iff.rfl
  | read p k ih => exact exists_congr fun pg => and_congr_right fun _ => ih pg
  | modify p f k ih => exact exists_congr fun pg => and_congr_right fun _ => ih
  | alloc k ih =>
    exact and_congr (ih none) (forall_congr' fun p => forall_congr' fun pg =>
      forall_congr' fun _ => forall_congr' fun _ => ih (some p))
  | free p k ih => exact and_congr_right fun _ => and_congr_right fun _ => ih
  | pick k ih => exact forall_congr' fun n => ih n
  | panic msg => exact Iff.rfl

lemma wp_seq {m : HProg A I W α} {c : α → HProg A I W β} {R : α → Heap A I W → Prop}
    (hm : m.wp valid tol R h) (hc : ∀ a h', R a h' → (c a).wp valid tol Q h') :
    (m >>= c).wp valid tol Q h :=
  wp_bind.mpr (wp_mono hm hc)

@[simp] lemma wp_pure {a : β} : (Pure.pure a : HProg A I W β).wp valid tol Q h ↔ Q a h := Iff.rfl

@[simp] lemma wp_ret {a : β} : (ret a : HProg A I W β).wp valid tol Q h ↔ Q a h := Iff.rfl

@[simp] lemma wp_panic {msg : String} :
    (panic msg : HProg A I W β).wp valid tol Q h ↔ tol msg := Iff.rfl

lemma wp_load {p : A} {i : I} {pg : I → W} {Q : W → Heap A I W → Prop} (hp : h p = some pg)
    (hQ : Q (pg i) h) : (load p i).wp valid tol Q h :=
  ⟨pg, hp, hQ⟩

lemma wp_store [DecidableEq I] {p : A} {i : I} {v : W} {pg : I → W}
    {Q : Unit → Heap A I W → Prop} (hp : h p = some pg)
    (hQ : Q () (update h p (some (update pg i v)))) :
    (store p i v).wp valid tol Q h :=
  ⟨pg, hp, hQ⟩

lemma wp_fill {p : A} {v : W} {pg : I → W} {Q : Unit → Heap A I W → Prop} (hp : h p = some pg)
    (hQ : Q () (update h p (some fun _ => v))) : (fill p v).wp valid tol Q h :=
  ⟨pg, hp, hQ⟩

lemma wp_allocPage {Q : Option A → Heap A I W → Prop} (hnone : Q none h)
    (hsome : ∀ p pg, valid p → h p = none → Q (some p) (update h p (some pg))) :
    (allocPage : HProg A I W (Option A)).wp valid tol Q h :=
  ⟨hnone, hsome⟩

lemma wp_freePage {p : A} {Q : Unit → Heap A I W → Prop} (hv : valid p) (hp : h p ≠ none)
    (hQ : Q () (update h p none)) : (freePage p : HProg A I W Unit).wp valid tol Q h :=
  ⟨hv, hp, hQ⟩

/-- The loop rule, with an invariant on what is left of the list. -/
lemma wp_forEach {f : β → HProg A I W Unit} {J : List β → Heap A I W → Prop}
    (hstep : ∀ b l h, J (b :: l) h → (f b).wp valid tol (fun _ h' => J l h') h) {l : List β}
    {h : Heap A I W} (hJ : J l h) : (forEach f l).wp valid tol (fun _ h' => J [] h') h := by
  induction l generalizing h with
  | nil => exact hJ
  | cons b l ih => exact wp_seq (hstep b l h hJ) fun _ h' hJ' => ih hJ'

end HProg

/-! ## Dividing a heap -/

namespace Heap

variable {A I W : Type} {h h₁ h₂ h₃ k : Heap A I W}

def empty : Heap A I W := fun _ => none

/-- The pages of `h` are divided into those of `h₁` and those of `h₂`. -/
def Split (h h₁ h₂ : Heap A I W) : Prop :=
  ∀ a, (h₂ a = none ∧ h a = h₁ a) ∨ (h₁ a = none ∧ h a = h₂ a)

lemma Split.symm (hs : Split h h₁ h₂) : Split h h₂ h₁ := fun a => (hs a).symm

lemma Split.eq_of_empty (hs : Split h h₁ empty) : h = h₁ := by
  funext a
  obtain ⟨-, ha⟩ | ⟨ha1, ha⟩ := hs a
  · exact ha
  · rw [ha, ha1]; rfl

lemma Split.eq_of_empty' (hs : Split h h₁ h₂) (h₂e : h₂ = empty) : h = h₁ := by
  subst h₂e
  exact hs.eq_of_empty

def union (h₁ h₂ : Heap A I W) : Heap A I W := fun a => (h₁ a).or (h₂ a)

lemma Split.left (hs : Split h h₁ h₂) {a : A} (ha : h₁ a ≠ none) : h a = h₁ a ∧ h₂ a = none := by
  obtain ⟨ha2, hh⟩ | ⟨ha1, -⟩ := hs a
  · exact ⟨hh, ha2⟩
  · exact absurd ha1 ha

lemma Split.right (hs : Split h h₁ h₂) {a : A} (ha : h₂ a ≠ none) : h a = h₂ a ∧ h₁ a = none :=
  hs.symm.left ha

lemma Split.owned_iff (hs : Split h h₁ h₂) (a : A) : h a ≠ none ↔ h₁ a ≠ none ∨ h₂ a ≠ none := by
  obtain ⟨h₂a, hh⟩ | ⟨h₁a, hh⟩ := hs a
  · simp [hh, h₂a]
  · simp [hh, h₁a]

variable [DecidableEq A]

lemma Split.update (hs : Split h h₁ h₂) {a : A} (ha : h₂ a = none) (v : Option (I → W)) :
    Split (update h a v) (update h₁ a v) h₂ := by
  intro b
  by_cases hb : b = a
  · subst hb
    simp [ha]
  · simpa [hb] using hs b

def SameDomain (h h' : Heap A I W) : Prop := ∀ a, h' a ≠ none ↔ h a ≠ none

omit [DecidableEq A] in
lemma SameDomain.refl (h : Heap A I W) : SameDomain h h := fun _ => Iff.rfl

omit [DecidableEq A] in
lemma SameDomain.trans {h h' h'' : Heap A I W} (h₁ : SameDomain h h') (h₂ : SameDomain h' h'') :
    SameDomain h h'' := fun a => (h₂ a).trans (h₁ a)

lemma SameDomain.update {a : A} (ha : h a ≠ none) (pg : I → W) :
    SameDomain h (update h a (some pg)) := by
  intro b
  by_cases hb : b = a
  · subst hb
    simpa using ha
  · rw [update_of_ne hb]

omit [DecidableEq A] in
lemma Split.assoc (hs : Split h h₁ h₂) (hs2 : Split h₂ h₃ k) :
    Split h (union h₁ h₃) k ∧ Split (union h₁ h₃) h₁ h₃ := by
  constructor
  · intro a
    obtain ⟨h₂a, hh⟩ | ⟨h₁a, hh⟩ := hs a
    · have hk : k a = none := by
        by_contra hk
        exact hk ((hs2.right hk).1.symm.trans h₂a)
      have h₃a : h₃ a = none := by
        by_contra h₃a
        exact h₃a ((hs2.left h₃a).1.symm.trans h₂a)
      exact .inl ⟨hk, by rw [hh, union, h₃a, Option.or_none]⟩
    · obtain ⟨hk, h₂a⟩ | ⟨h₃a, h₂a⟩ := hs2 a
      · exact .inl ⟨hk, by rw [hh, h₂a, union, h₁a, Option.none_or]⟩
      · exact .inr ⟨by rw [union, h₁a, h₃a, Option.none_or], by rw [hh, h₂a]⟩
  · intro a
    obtain ⟨h₂a, -⟩ | ⟨h₁a, -⟩ := hs a
    · have h₃a : h₃ a = none := by
        by_contra h₃a
        exact h₃a ((hs2.left h₃a).1.symm.trans h₂a)
      exact .inl ⟨h₃a, by rw [union, h₃a, Option.or_none]⟩
    · exact .inr ⟨h₁a, by rw [union, h₁a, Option.none_or]⟩

omit [DecidableEq A] in
lemma Split.rotate (hs : Split h h₁ h₂) (hs2 : Split h₂ h₃ k) :
    ∃ g, Split h h₃ g ∧ Split g h₁ k :=
  ⟨union h₁ k, (hs.assoc hs2.symm).1.symm, (hs.assoc hs2.symm).2⟩

end Heap

/-- The frame rule: what a program does not own stays as it is. -/
lemma HProg.wp_frame {A I W α : Type} [DecidableEq A] {valid : A → Prop} {tol : String → Prop}
    {m : HProg A I W α} {Q : α → Heap A I W → Prop} {h h₁ h₂ : Heap A I W}
    (hm : m.wp valid tol Q h₁) (hs : h.Split h₁ h₂) :
    m.wp valid tol (fun a h' => ∃ h1', h'.Split h1' h₂ ∧ Q a h1') h := by
  induction m generalizing h h₁ with
  | ret a => exact ⟨h₁, hs, hm⟩
  | read p k ih =>
    obtain ⟨pg, hp, hk⟩ := hm
    exact ⟨pg, (hs.left (by simp [hp])).1.trans hp, ih pg hk hs⟩
  | modify p f k ih =>
    obtain ⟨pg, hp, hk⟩ := hm
    obtain ⟨hhp, h₂p⟩ := hs.left (a := p) (by simp [hp])
    exact ⟨pg, hhp.trans hp, ih hk (hs.update h₂p _)⟩
  | alloc k ih =>
    refine ⟨ih none hm.1 hs, fun p pg hv hp => ?_⟩
    have hfree : h₁ p = none ∧ h₂ p = none := by
      have := hs.owned_iff p
      simp only [hp, ne_eq, not_true, false_iff, not_or, not_not] at this
      exact this
    exact ih (some p) (hm.2 p pg hv hfree.1) (hs.update hfree.2 _)
  | free p k ih =>
    obtain ⟨hv, hp, hk⟩ := hm
    obtain ⟨hhp, h₂p⟩ := hs.left hp
    exact ⟨hv, by rwa [hhp], ih hk (hs.update h₂p _)⟩
  | pick k ih => exact fun n => ih n (hm n) hs
  | panic msg => exact hm

end Xv6
