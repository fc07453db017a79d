import Xv6Kernel.Memory.Vm
import Mathlib.Data.List.Pairwise

/-!
# Page tables as trees

`PTree n` is the tree that a page table of level `n` stands for: at level 0 the entries themselves,
above it the tables the valid entries point to.  `PTree.Ok` says that a tree lies in a heap: every
table is a page of its own with the entries of the tree.
-/

namespace Xv6

open Function

variable {i : Fin 512} {l : List (Fin 512)} {h h' h₁ : PHeap} {n a b va x v : ℕ}
variable {j : Fin 512} {tol : String → Prop}

abbrev PTree : ℕ → Type
  | 0 => Page
  | n + 1 => Fin 512 → Option (ℕ × PTree n)

namespace PTree

def page : (n : ℕ) → PTree n → Page
  | 0, t => t
  | _ + 1, t => fun i => (t i).elim 0 fun c => pa2pte c.1 ||| PTE_V

/-- The pages of the tree with the top page `a`. -/
def addrs : (n : ℕ) → ℕ → PTree n → List ℕ
  | 0, a, _ => [a]
  | n + 1, a, t => a :: (List.finRange 512).flatMap fun i => (t i).elim [] fun c => addrs n c.1 c.2

/-- The tree with the top page `a` lies in the heap. -/
def At : (n : ℕ) → ℕ → PTree n → PHeap → Prop
  | 0, a, t, h => h a = some t
  | n + 1, a, t, h => h a = some (page (n + 1) t) ∧ ∀ i c, t i = some c → At n c.1 c.2 h

/-- The place of the entry of `va`, if the tables on the way exist. -/
def slot : (n : ℕ) → ℕ → PTree n → ℕ → Option PteRef
  | 0, a, _, va => some (a, px 0 va)
  | n + 1, _, t, va => (t (px (n + 1) va)).bind fun c => slot n c.1 c.2 va

def entry : (n : ℕ) → PTree n → ℕ → ℕ
  | 0, t, va => t (px 0 va)
  | n + 1, t, va => (t (px (n + 1) va)).elim 0 fun c => entry n c.2 va

def set : (n : ℕ) → PTree n → ℕ → ℕ → PTree n
  | 0, t, va, v => update t (px 0 va) v
  | n + 1, t, va, v => update t (px (n + 1) va)
      ((t (px (n + 1) va)).map fun c => (c.1, set n c.2 va v))

def empty : (n : ℕ) → PTree n
  | 0 => fun _ => 0
  | _ + 1 => fun _ => none

def NoLeaf : (n : ℕ) → PTree n → Prop
  | 0, t => ∀ i, ¬IsValid (t i)
  | n + 1, t => ∀ i c, t i = some c → NoLeaf n c.2

/-! ## The pages of a tree -/

lemma top_mem_addrs (n a : ℕ) (t : PTree n) : a ∈ addrs n a t := by
  cases n <;> simp [addrs]

lemma mem_addrs_succ {t : PTree (n + 1)} :
    x ∈ addrs (n + 1) a t ↔ x = a ∨ ∃ i c, t i = some c ∧ x ∈ addrs n c.1 c.2 := by
  simp only [addrs, List.mem_cons, List.mem_flatMap, List.mem_finRange, true_and]
  refine or_congr_right (exists_congr fun i => ?_)
  cases t i <;> simp

/-- The pages of a tree are distinct if the top page is none of those below, those of each subtree
are distinct, and different subtrees have different pages. -/
lemma nodup_addrs_succ {t : PTree (n + 1)} : (addrs (n + 1) a t).Nodup ↔
      (∀ i c, t i = some c → a ∉ addrs n c.1 c.2) ∧
      (∀ i c, t i = some c → (addrs n c.1 c.2).Nodup) ∧
      ∀ i j c d, i ≠ j → t i = some c → t j = some d → (addrs n c.1 c.2).Disjoint
        (addrs n d.1 d.2) := by
  simp only [addrs, List.nodup_cons, List.nodup_flatMap, List.mem_flatMap, List.mem_finRange,
    true_and, forall_const, not_exists]
  refine and_congr (forall_congr' fun i => ?_) (and_congr (forall_congr' fun i => ?_) ?_)
  · cases t i <;> simp
  · cases t i <;> simp
  · constructor
    · intro hp i j c d hij hi hj
      have : Std.Symm (Function.onFun List.Disjoint
          fun i => (t i).elim [] fun c => addrs n c.1 c.2) := ⟨fun _ _ hd _ hx hx' => hd hx' hx⟩
      have := hp.forall (List.mem_finRange i) (List.mem_finRange j) hij
      simpa [Function.onFun, hi, hj] using this
    · intro hd
      refine (List.nodup_finRange 512).pairwise_of_forall_ne fun i _ j _ hij => ?_
      have := hd i j
      simp only [Function.onFun]
      cases hi : t i with
      | none => simp
      | some c =>
        cases hj : t j with
        | none => simp
        | some d => simpa using this c d hij hi hj

section

variable {t : PTree n} (hat : At n a t h)
include hat

lemma At.congr (heq : ∀ x ∈ addrs n a t, h' x = h x) : At n a t h' := by
  induction n generalizing a with
  | zero => exact (heq a (top_mem_addrs 0 a t)).trans hat
  | succ n ih =>
    refine ⟨(heq a (top_mem_addrs _ a t)).trans hat.1, fun i c hc => ih (hat.2 i c hc) ?_⟩
    exact fun x hx => heq x (mem_addrs_succ.mpr (.inr ⟨i, c, hc, hx⟩))

lemma At.top : h a = some (page n t) := by
  cases n with
  | zero => exact hat
  | succ n => exact hat.1

lemma At.owned (hx : x ∈ addrs n a t) : h x ≠ none := by
  induction n generalizing a with
  | zero =>
    rw [List.mem_singleton.mp hx, hat.top]
    exact Option.some_ne_none _
  | succ n ih =>
    obtain rfl | ⟨i, c, hc, hx⟩ := mem_addrs_succ.mp hx
    · rw [hat.top]
      exact Option.some_ne_none _
    · exact ih (hat.2 i c hc) hx

end

/-- A tree in a heap whose tables are distinct pages of the allocator. -/
structure Ok (K : KernelImage) (n a : ℕ) (t : PTree n) (h : PHeap) : Prop where
  isAt : At n a t h
  nodup : (addrs n a t).Nodup
  valid : ∀ x ∈ addrs n a t, K.Valid x

variable {K : KernelImage}

lemma Ok.child {t : PTree (n + 1)} (hok : Ok K (n + 1) a t h) {c : ℕ × PTree n}
    (hc : t i = some c) : Ok K n c.1 c.2 h :=
  ⟨hok.isAt.2 i c hc, (nodup_addrs_succ.mp hok.nodup).2.1 i c hc,
    fun x hx => hok.valid x (mem_addrs_succ.mpr (.inr ⟨i, c, hc, hx⟩))⟩

/-- The tree `t'` in `h'` has the tables of `t` in `h`, further tables on pages that `h` does not
own, and the same entries at level 0; nothing else is changed. -/
structure Grows (K : KernelImage) (n a : ℕ) (t : PTree n) (h : PHeap) (t' : PTree n) (h' : PHeap) :
    Prop where
  ok : Ok K n a t' h'
  keep : ∀ x ∈ addrs n a t, x ∈ addrs n a t'
  fresh : ∀ x ∈ addrs n a t', x ∈ addrs n a t ∨ h x = none
  frame : ∀ x ∉ addrs n a t', h' x = h x
  entry_eq : ∀ va, entry n t' va = entry n t va

lemma Grows.refl {t : PTree n} (hok : Ok K n a t h) : Grows K n a t h t h :=
  ⟨hok, fun _ hx => hx, fun _ hx => .inl hx, fun _ _ => rfl, fun _ => rfl⟩

lemma Grows.trans {t t' t'' : PTree n} {h'' : PHeap} (h₁ : Grows K n a t h t' h')
    (h2 : Grows K n a t' h' t'' h'') : Grows K n a t h t'' h'' := by
  refine ⟨h2.ok, fun x hx => h2.keep x (h₁.keep x hx), fun x hx => ?_, fun x hx => ?_,
    fun va => (h2.entry_eq va).trans (h₁.entry_eq va)⟩
  · by_cases hx' : x ∈ addrs n a t'
    · exact h₁.fresh x hx'
    · exact .inr ((h₁.frame x hx').symm.trans ((h2.fresh x hx).resolve_left hx'))
  · have hx' : x ∉ addrs n a t' := fun hx' => hx (h2.keep x hx')
    rw [h2.frame x hx, h₁.frame x hx']

section

variable {t : PTree (n + 1)} {u : PTree n}

lemma mem_addrs_update :
    x ∈ addrs (n + 1) a (update t i (some (b, u))) ↔
      x = a ∨ x ∈ addrs n b u ∨ ∃ j c, j ≠ i ∧ t j = some c ∧ x ∈ addrs n c.1 c.2 := by
  rw [mem_addrs_succ]
  refine or_congr_right ⟨?_, ?_⟩
  · rintro ⟨j, c, hc, hx⟩
    by_cases hj : j = i
    · subst hj
      rw [update_self, Option.some.injEq] at hc
      subst hc
      exact .inl hx
    · rw [update_of_ne hj] at hc
      exact .inr ⟨j, c, hj, hc, hx⟩
  · rintro (hx | ⟨j, c, hj, hc, hx⟩)
    · exact ⟨i, (b, u), update_self .., hx⟩
    · exact ⟨j, c, (update_of_ne hj _ _).trans hc, hx⟩

/-- A tree in which one subtree is replaced lies in a heap if the new subtree does, its pages are
those of no other part of the tree, and the rest of the tree lies there. -/
lemma Ok.replace (hu : Ok K n b u h)
    (htop : h a = some (page (n + 1) (update t i (some (b, u))))) (ha : a ∉ addrs n b u)
    (hva : K.Valid a) (hat : ∀ j c, j ≠ i → t j = some c → Ok K n c.1 c.2 h ∧ a ∉ addrs n c.1 c.2 ∧
      ∀ x ∈ addrs n c.1 c.2, x ∉ addrs n b u)
    (hd : ∀ j k c d, j ≠ i → k ≠ i → j ≠ k → t j = some c → t k = some d →
      (addrs n c.1 c.2).Disjoint (addrs n d.1 d.2)) : Ok K (n + 1) a (update t i (some (b, u))) h := by
  -- what a subtree of the new tree is
  have hcases : ∀ j c, update t i (some (b, u)) j = some c →
      (j = i ∧ c = (b, u)) ∨ (j ≠ i ∧ t j = some c) := by
    intro j c hc
    by_cases hj : j = i
    · subst hj
      rw [update_self, Option.some.injEq] at hc
      exact .inl ⟨rfl, hc.symm⟩
    · rw [update_of_ne hj] at hc
      exact .inr ⟨hj, hc⟩
  refine ⟨⟨htop, fun j c hc => ?_⟩, nodup_addrs_succ.mpr ⟨fun j c hc => ?_, fun j c hc => ?_, ?_⟩,
    fun x hx => ?_⟩
  · obtain ⟨-, rfl⟩ | ⟨hj, hc⟩ := hcases j c hc
    · exact hu.isAt
    · exact (hat j c hj hc).1.isAt
  · obtain ⟨-, rfl⟩ | ⟨hj, hc⟩ := hcases j c hc
    · exact ha
    · exact (hat j c hj hc).2.1
  · obtain ⟨-, rfl⟩ | ⟨hj, hc⟩ := hcases j c hc
    · exact hu.nodup
    · exact (hat j c hj hc).1.nodup
  · intro j k c d hjk hcj hdk
    obtain ⟨rfl, rfl⟩ | ⟨hj, hc⟩ := hcases j c hcj
    · obtain ⟨rfl, -⟩ | ⟨hk, hd'⟩ := hcases k d hdk
      · exact absurd rfl hjk
      · exact fun x hx hx' => (hat k d hk hd').2.2 x hx' hx
    · obtain ⟨rfl, rfl⟩ | ⟨hk, hd'⟩ := hcases k d hdk
      · exact fun x hx hx' => (hat j c hj hc).2.2 x hx hx'
      · exact hd j k c d hj hk hjk hc hd'
  · obtain rfl | hx | ⟨j, c, hj, hc, hx⟩ := mem_addrs_update.mp hx
    · exact hva
    · exact hu.valid x hx
    · exact (hat j c hj hc).1.valid x hx

lemma Grows.node {u' : PTree n} (hok : Ok K (n + 1) a t h)
    (hi : t i = some (b, u)) (hg : Grows K n b u h u' h') :
    Grows K (n + 1) a t h (update t i (some (b, u'))) h' := by
  obtain ⟨htop, -, hdisj⟩ := nodup_addrs_succ.mp hok.nodup
  -- an owned page outside the subtree is none of its new pages
  have hout : ∀ x, x ∉ addrs n b u → h x ≠ none → x ∉ addrs n b u' := fun x hx hne hx' =>
    (hg.fresh x hx').elim hx hne
  have ha : a ∉ addrs n b u' :=
    hout a (htop i _ hi) (hok.isAt.owned (top_mem_addrs _ a t))
  have hother : ∀ j c, j ≠ i → t j = some c → ∀ x ∈ addrs n c.1 c.2, x ∉ addrs n b u' := by
    intro j c hj hc x hx
    exact hout x (fun hx' => hdisj j i c _ hj hc hi hx hx') ((hok.child hc).isAt.owned hx)
  refine ⟨hg.ok.replace ?_ ha (hok.valid a (top_mem_addrs _ a t)) ?_ ?_, ?_, ?_, ?_, ?_⟩
  · rw [hg.frame a ha, hok.isAt.1]
    congr 1
    funext j
    by_cases hj : j = i
    · subst hj
      simp [page, hi]
    · simp [page, hj]
  · intro j c hj hc
    have hcok := hok.child hc
    exact ⟨⟨hcok.isAt.congr fun x hx => hg.frame x (hother j c hj hc x hx), hcok.nodup,
      hcok.valid⟩, htop j c hc, hother j c hj hc⟩
  · exact fun j k c d _ _ hjk hc hd => hdisj j k c d hjk hc hd
  · intro x hx
    obtain rfl | ⟨j, c, hc, hx⟩ := mem_addrs_succ.mp hx
    · exact top_mem_addrs _ _ _
    refine mem_addrs_update.mpr (.inr ?_)
    by_cases hj : j = i
    · subst hj
      rw [hi, Option.some.injEq] at hc
      subst hc
      exact .inl (hg.keep x hx)
    · exact .inr ⟨j, c, hj, hc, hx⟩
  · intro x hx
    obtain rfl | hx | ⟨j, c, hj, hc, hx⟩ := mem_addrs_update.mp hx
    · exact .inl (top_mem_addrs _ _ _)
    · exact (hg.fresh x hx).imp_left fun hx => mem_addrs_succ.mpr (.inr ⟨i, _, hi, hx⟩)
    · exact .inl (mem_addrs_succ.mpr (.inr ⟨j, c, hc, hx⟩))
  · intro x hx
    exact hg.frame x fun hx' => hx (mem_addrs_update.mpr (.inr (.inl hx')))
  · intro va
    by_cases hj : px (n + 1) va = i
    · simp [entry, hj, hi, hg.entry_eq va]
    · simp [entry, hj]

end

/-! ## Empty tables -/

lemma addrs_empty (n a : ℕ) : addrs n a (empty n) = [a] := by
  cases n <;> simp [addrs, empty]

lemma entry_empty (n va : ℕ) : entry n (empty n) va = 0 := by
  cases n <;> rfl

lemma ok_empty (hb : h b = some fun _ => 0) (hv : K.Valid b) : Ok K n b (empty n) h := by
  refine ⟨?_, by simp [addrs_empty], by simpa [addrs_empty] using hv⟩
  cases n with
  | zero => exact hb
  | succ n => exact ⟨hb, fun i c hc => by simp [empty] at hc⟩

lemma Grows.insert {t : PTree (n + 1)} (hok : Ok K (n + 1) a t h) (hi : t i = none)
    (hb : h b = none) (hv : K.Valid b) (hb' : h' b = some fun _ => 0)
    (ha' : h' a = some (update (page (n + 1) t) i (pa2pte b ||| PTE_V)))
    (hframe : ∀ x, x ≠ a → x ≠ b → h' x = h x) :
    Grows K (n + 1) a t h (update t i (some (b, empty n))) h' := by
  obtain ⟨htop, -, hdisj⟩ := nodup_addrs_succ.mp hok.nodup
  have hne : ∀ x ∈ addrs (n + 1) a t, x ≠ b := fun x hx he =>
    hok.isAt.owned hx (he ▸ hb)
  have hab : a ≠ b := hne a (top_mem_addrs _ a t)
  refine ⟨(ok_empty hb' hv).replace ?_ ?_ (hok.valid a (top_mem_addrs _ a t)) ?_ ?_, ?_, ?_, ?_, ?_⟩
  · rw [ha']
    congr 1
    funext j
    by_cases hj : j = i
    · subst hj
      simp [page]
    · simp [page, hj]
  · simpa [addrs_empty] using hab
  · intro j c hj hc
    have hcok := hok.child hc
    have hsub : ∀ x ∈ addrs n c.1 c.2, x ∈ addrs (n + 1) a t := fun x hx =>
      mem_addrs_succ.mpr (.inr ⟨j, c, hc, hx⟩)
    refine ⟨⟨hcok.isAt.congr fun x hx => hframe x ?_ (hne x (hsub x hx)), hcok.nodup,
      hcok.valid⟩, htop j c hc, fun x hx => by simpa [addrs_empty] using hne x (hsub x hx)⟩
    exact ne_of_mem_of_not_mem hx (htop j c hc)
  · exact fun j k c d _ _ hjk hc hd => hdisj j k c d hjk hc hd
  · intro x hx
    obtain rfl | ⟨j, c, hc, hx⟩ := mem_addrs_succ.mp hx
    · exact top_mem_addrs _ _ _
    have hj : j ≠ i := by
      rintro rfl
      simp [hi] at hc
    exact mem_addrs_update.mpr (.inr (.inr ⟨j, c, hj, hc, hx⟩))
  · intro x hx
    obtain rfl | hx | ⟨j, c, hj, hc, hx⟩ := mem_addrs_update.mp hx
    · exact .inl (top_mem_addrs _ _ _)
    · rw [addrs_empty, List.mem_singleton] at hx
      exact .inr (hx ▸ hb)
    · exact .inl (mem_addrs_succ.mpr (.inr ⟨j, c, hc, hx⟩))
  · intro x hx
    refine hframe x ?_ ?_
    · rintro rfl
      exact hx (top_mem_addrs _ _ _)
    · rintro rfl
      exact hx (mem_addrs_update.mpr (.inr (.inl (top_mem_addrs _ _ _))))
  · intro va
    by_cases hj : px (n + 1) va = i
    · simp [entry, hj, hi, entry_empty]
    · simp [entry, hj]

/-! ## Walking down a tree -/

lemma page_of_some {t : PTree (n + 1)} {c : ℕ × PTree n}
    (hc : t i = some c) : page (n + 1) t i = pa2pte c.1 ||| PTE_V := by
  simp [page, hc]

lemma page_of_none {t : PTree (n + 1)} (hi : t i = none) : page (n + 1) t i = 0 := by
  simp [page, hi]

/-- `walk` goes down to the slot of the address in a tree that may have grown; without `alloc`
nothing changes. -/
lemma wp_walkFrom {alloc : Bool} {t : PTree n} (hok : Ok K n a t h) :
    (walkFrom va alloc n a).wp K.Valid tol (fun r h' => ∃ t', Grows K n a t h t' h' ∧
      r = slot n a t' va ∧ (alloc = false → t' = t ∧ h' = h)) h := by
  induction n generalizing a h with
  | zero => exact ⟨t, .refl hok, rfl, fun _ => ⟨rfl, rfl⟩⟩
  | succ n ih =>
    have hstuck : t (px (n + 1) va) = none → ∃ t', Grows K (n + 1) a t h t' h ∧
        none = slot (n + 1) a t' va ∧ (alloc = false → t' = t ∧ h = h) := fun hi =>
      ⟨t, .refl hok, by simp [slot, hi], fun _ => ⟨rfl, rfl⟩⟩
    refine HProg.wp_bind.mpr (HProg.wp_load hok.isAt.top ?_)
    cases hi : t (px (n + 1) va) with
    | some c =>
      -- the table of the next level exists
      have hchild := hok.child hi
      rw [page_of_some hi, if_pos (isValid_table c.1),
        (hchild.valid _ (top_mem_addrs _ _ _)).pte2pa (by decide)]
      refine HProg.wp_mono (ih hchild) ?_
      rintro r h' ⟨u, hg, hr, hfalse⟩
      refine ⟨_, hg.node hok hi, by simpa [slot] using hr, fun hal => ?_⟩
      obtain ⟨rfl, rfl⟩ := hfalse hal
      exact ⟨by rw [← hi, update_eq_self], rfl⟩
    | none =>
      rw [page_of_none hi, if_neg not_isValid_zero]
      rcases alloc with _ | _
      · exact hstuck hi
      -- the table of the next level is created, if there is a page for it
      refine HProg.wp_bind.mpr (HProg.wp_allocPage (hstuck hi) fun b pg hv hb => ?_)
      have hab : a ≠ b := fun he => hok.isAt.owned (top_mem_addrs _ a t) (he ▸ hb)
      refine HProg.wp_bind.mpr (HProg.wp_fill (update_self ..) ?_)
      have htop : update (update h b (some pg)) b (some fun _ => 0) a =
          some (page (n + 1) t) := by
        simp [hab, hok.isAt.top]
      refine HProg.wp_bind.mpr (HProg.wp_store htop ?_)
      have hg : Grows K (n + 1) a t h (update t (px (n + 1) va) (some (b, empty n)))
          (update (update (update h b (some pg)) b (some fun _ => 0)) a
            (some (update (page (n + 1) t) (px (n + 1) va) (pa2pte b ||| PTE_V)))) :=
        .insert hok hi hb hv (by simp [hab.symm]) (by simp) fun x hxa hxb => by simp [hxa, hxb]
      refine HProg.wp_mono (ih (hg.ok.child (update_self ..))) ?_
      rintro r h' ⟨u, hgu, hr, -⟩
      refine ⟨_, hg.trans (hgu.node hg.ok (update_self ..)), ?_, fun hal => by cases hal⟩
      simpa [slot] using hr

/-! ## Slots and entries -/

lemma At.slot {t : PTree n} (hat : At n a t h) (hs : PTree.slot n a t va = some (b, j)) :
    b ∈ addrs n a t ∧ ∃ pg, h b = some pg ∧ pg j = entry n t va := by
  induction n generalizing a with
  | zero =>
    simp only [PTree.slot, Option.some.injEq, Prod.mk.injEq] at hs
    obtain ⟨rfl, rfl⟩ := hs
    exact ⟨top_mem_addrs 0 _ t, t, hat, rfl⟩
  | succ n ih =>
    obtain ⟨c, hc, hs⟩ := Option.bind_eq_some_iff.mp hs
    obtain ⟨hb, pg, hpg, hj⟩ := ih (hat.2 _ c hc) hs
    exact ⟨mem_addrs_succ.mpr (.inr ⟨_, c, hc, hb⟩), pg, hpg, by simpa [entry, hc] using hj⟩

lemma entry_of_slot_eq_none {t : PTree n} (hs : slot n a t va = none) : entry n t va = 0 := by
  induction n generalizing a with
  | zero => simp [slot] at hs
  | succ n ih =>
    cases hc : t (px (n + 1) va) with
    | none => simp [entry, hc]
    | some c =>
      simp only [slot, hc, Option.bind_some] at hs
      simpa [entry, hc] using ih hs

lemma addrs_set (n a va v : ℕ) (t : PTree n) : addrs n a (set n t va v) = addrs n a t := by
  induction n generalizing a with
  | zero => rfl
  | succ n ih =>
    simp only [addrs]
    congr 2
    funext i
    by_cases hi : i = px (n + 1) va
    · subst hi
      cases hc : t (px (n + 1) va) with
      | none => simp [set, hc]
      | some c => simp [set, hc, ih]
    · simp [set, hi]

lemma page_set_succ (n va v : ℕ) (t : PTree (n + 1)) :
    page (n + 1) (set (n + 1) t va v) = page (n + 1) t := by
  funext i
  by_cases hi : i = px (n + 1) va
  · subst hi
    cases hc : t (px (n + 1) va) <;> simp [page, set, hc]
  · simp [page, set, hi]

lemma Ok.set {t : PTree n} {pg : Page} (hok : Ok K n a t h)
    (hs : PTree.slot n a t va = some (b, j)) (hpg : h b = some pg) :
    Ok K n a (PTree.set n t va v) (update h b (some (update pg j v))) := by
  refine ⟨?_, by rw [addrs_set]; exact hok.nodup, by rw [addrs_set]; exact hok.valid⟩
  have hnd := hok.nodup
  have hat := hok.isAt
  clear hok
  induction n generalizing a with
  | zero =>
    simp only [PTree.slot, Option.some.injEq, Prod.mk.injEq] at hs
    obtain ⟨rfl, rfl⟩ := hs
    have : t = pg := Option.some.inj (hat.symm.trans hpg)
    simp [At, PTree.set, this]
  | succ n ih =>
    obtain ⟨hab, hndc, hdisj⟩ := nodup_addrs_succ.mp hnd
    obtain ⟨c, hc, hs⟩ := Option.bind_eq_some_iff.mp hs
    have hb : b ∈ addrs n c.1 c.2 := ((hat.2 _ c hc).slot hs).1
    refine ⟨?_, fun i d hd => ?_⟩
    · rw [page_set_succ, update_of_ne (ne_of_mem_of_not_mem hb (hab _ c hc)).symm]
      exact hat.1
    · by_cases hi : i = px (n + 1) va
      · subst hi
        simp only [PTree.set, hc, Option.map_some, update_self, Option.some.injEq] at hd
        subst hd
        exact ih hs (hndc _ c hc) (hat.2 _ c hc)
      simp only [PTree.set, update_of_ne hi] at hd
      refine (hat.2 i d hd).congr fun x hx => update_of_ne ?_ _ _
      rintro rfl
      exact hdisj i _ d c hi hd hc hx hb

lemma entry_set_self {r : PteRef} {t : PTree n} (hs : slot n a t va = some r) :
    entry n (set n t va v) va = v := by
  induction n generalizing a with
  | zero => simp [entry, set]
  | succ n ih =>
    obtain ⟨c, hc, hs⟩ := Option.bind_eq_some_iff.mp hs
    simpa [entry, set, hc] using ih hs

lemma entry_set_of_ne {va' : ℕ} {t : PTree n}
    (hne : ∃ level, level ≤ n ∧ px level va' ≠ px level va) :
    entry n (set n t va v) va' = entry n t va' := by
  induction n with
  | zero =>
    obtain ⟨level, hl, hne⟩ := hne
    rw [Nat.le_zero.mp hl] at hne
    simp [entry, set, hne]
  | succ n ih =>
    by_cases htop : px (n + 1) va' = px (n + 1) va
    · obtain ⟨level, hl, hne⟩ := hne
      have hl' : level ≤ n := by
        obtain hl | rfl := Nat.le_succ_iff.mp hl
        · exact hl
        · exact absurd htop hne
      cases hc : t (px (n + 1) va) with
      | none => simp [entry, set, htop, hc]
      | some c => simpa [entry, set, htop, hc] using ih ⟨level, hl', hne⟩
    · simp [entry, set, htop]

/-! ## Freeing a tree -/

def Freed (n : ℕ) (t : PTree (n + 1)) (l : List (Fin 512)) (x : ℕ) : Prop :=
  ∃ i c, i ∉ l ∧ t i = some c ∧ x ∈ addrs n c.1 c.2

/-- The loop of `freewalk` over a table above level 0, with the indices `l` still to come: the
subtrees before them have been freed and nothing else was changed but the table itself. -/
structure FreeLoop (n a : ℕ) (t : PTree (n + 1)) (h : PHeap) (l : List (Fin 512)) (h₁ : PHeap) :
    Prop where
  nodup : l.Nodup
  top : ∃ pg, h₁ a = some pg ∧ ∀ i ∈ l, pg i = page (n + 1) t i
  freed : ∀ x, x ≠ a → Freed n t l x → h₁ x = none
  frame : ∀ x, x ≠ a → ¬Freed n t l x → h₁ x = h x

lemma FreeLoop.child {t : PTree (n + 1)} (hJ : FreeLoop n a t h (i :: l) h₁)
    (hok : Ok K (n + 1) a t h) {c : ℕ × PTree n} (hc : t i = some c) : Ok K n c.1 c.2 h₁ := by
  obtain ⟨htop, -, hdisj⟩ := nodup_addrs_succ.mp hok.nodup
  have hchild := hok.child hc
  refine ⟨hchild.isAt.congr fun x hx => hJ.frame x ?_ ?_, hchild.nodup, hchild.valid⟩
  · exact ne_of_mem_of_not_mem hx (htop i c hc)
  · rintro ⟨j, d, hj, hd, hx'⟩
    exact hdisj i j c d (fun he => hj (he ▸ List.mem_cons_self)) hc hd hx hx'

lemma FreeLoop.next {t : PTree (n + 1)} {h2 : PHeap} (hJ : FreeLoop n a t h (i :: l) h₁)
    (ha : ∀ j c, t j = some c → a ∉ addrs n c.1 c.2) {c : ℕ × PTree n} (hc : t i = some c)
    (hfree : ∀ x ∈ addrs n c.1 c.2, h2 x = none) (hframe : ∀ x ∉ addrs n c.1 c.2, h2 x = h₁ x) :
    ∃ pg, h2 a = some pg ∧ FreeLoop n a t h l (update h2 a (some (update pg i 0))) := by
  obtain ⟨pg, hpg, hent⟩ := hJ.top
  obtain ⟨hi, hnd⟩ := List.nodup_cons.mp hJ.nodup
  have hiff : ∀ x, Freed n t l x ↔ Freed n t (i :: l) x ∨ x ∈ addrs n c.1 c.2 := by
    intro x
    constructor
    · rintro ⟨j, d, hj, hd, hx⟩
      by_cases hji : j = i
      · subst hji
        rw [hc, Option.some.injEq] at hd
        exact .inr (hd ▸ hx)
      · exact .inl ⟨j, d, by simp [hji, hj], hd, hx⟩
    · rintro (⟨j, d, hj, hd, hx⟩ | hx)
      · exact ⟨j, d, fun hjl => hj (List.mem_cons_of_mem _ hjl), hd, hx⟩
      · exact ⟨i, c, hi, hc, hx⟩
  refine ⟨pg, by rw [hframe a (ha i c hc), hpg], hnd, ⟨_, update_self .., ?_⟩, ?_, ?_⟩
  · intro j hj
    rw [update_of_ne (ne_of_mem_of_not_mem hj hi)]
    exact hent j (List.mem_cons_of_mem _ hj)
  · intro x hx hfr
    rw [update_of_ne hx]
    by_cases hx' : x ∈ addrs n c.1 c.2
    · exact hfree x hx'
    · rw [hframe x hx', hJ.freed x hx (((hiff x).mp hfr).resolve_right hx')]
  · intro x hx hfr
    obtain ⟨hfr, hx'⟩ := not_or.mp (mt (hiff x).mpr hfr)
    rw [update_of_ne hx, hframe x hx', hJ.frame x hx hfr]

lemma FreeLoop.skip {t : PTree (n + 1)} (hJ : FreeLoop n a t h (i :: l) h₁) (hi : t i = none) :
    FreeLoop n a t h l h₁ := by
  obtain ⟨pg, hpg, hent⟩ := hJ.top
  have hiff : ∀ x, Freed n t l x ↔ Freed n t (i :: l) x := by
    intro x
    refine exists_congr fun j => exists_congr fun d => and_congr_left fun hd => ?_
    have hji : j ≠ i := by
      rintro rfl
      simp [hi] at hd
    simp [hji]
  exact ⟨(List.nodup_cons.mp hJ.nodup).2, ⟨pg, hpg, fun j hj => hent j (by simp [hj])⟩,
    fun x hx hfr => hJ.freed x hx ((hiff x).mp hfr),
    fun x hx hfr => hJ.frame x hx (mt (hiff x).mpr hfr)⟩

lemma wp_freewalk {t : PTree n} (hok : Ok K n a t h) (hleaf : NoLeaf n t) :
    (freewalk (n + 1) a).wp K.Valid tol
      (fun _ h' => (∀ x ∈ addrs n a t, h' x = none) ∧ ∀ x ∉ addrs n a t, h' x = h x) h := by
  have hva : K.Valid a := hok.valid a (top_mem_addrs n a t)
  induction n generalizing a h with
  | zero =>
    unfold freewalk
    refine HProg.wp_seq (HProg.wp_forEach (J := fun _ h₁ => h₁ = h) ?_ rfl) ?_
    · rintro i l h₁ rfl
      refine HProg.wp_bind.mpr (HProg.wp_load hok.isAt ?_)
      rw [if_neg (fun hv => hleaf i hv.1), if_neg (hleaf i)]
      rfl
    · rintro - h₁ rfl
      refine HProg.wp_freePage hva (hok.isAt.owned (top_mem_addrs 0 a t)) ⟨fun x hx => ?_,
        fun x hx => ?_⟩
      · rw [List.mem_singleton.mp hx, update_self]
      · exact update_of_ne (mt List.mem_singleton.mpr hx) _ _
  | succ n ih =>
    have htop := (nodup_addrs_succ.mp hok.nodup).1
    have hfirst : FreeLoop n a t h pteIndices h := by
      refine ⟨nodup_pteIndices, ⟨_, hok.isAt.1, fun _ _ => rfl⟩, ?_, fun x _ _ => rfl⟩
      rintro x - ⟨i, c, hi, -⟩
      exact absurd (mem_pteIndices i) hi
    unfold freewalk
    refine HProg.wp_seq (HProg.wp_forEach (J := FreeLoop n a t h) ?_ hfirst) ?_
    · intro i l h₁ hJ
      obtain ⟨pg, hpg, hent⟩ := hJ.top
      refine HProg.wp_bind.mpr (HProg.wp_load hpg ?_)
      rw [hent i List.mem_cons_self]
      rcases hc : t i with _ | c
      · rw [page_of_none hc, if_neg (fun hv => not_isValid_zero hv.1), if_neg not_isValid_zero]
        exact hJ.skip hc
      have hvc : K.Valid c.1 := (hok.child hc).valid _ (top_mem_addrs _ _ _)
      have htab : (pa2pte c.1 ||| PTE_V) &&& (PTE_R ||| PTE_W ||| PTE_X) = 0 := by
        rw [and_eq_pteFlags_and (by decide), pteFlags_pa2pte_or (by decide)]
        decide
      rw [page_of_some hc, if_pos ⟨isValid_table c.1, htab⟩, hvc.pte2pa (by decide)]
      refine HProg.wp_seq (ih (hJ.child hok hc) (hleaf i c hc) hvc) fun _ h2 hfree => ?_
      obtain ⟨pg', hpg', hJ'⟩ := hJ.next htop hc hfree.1 hfree.2
      exact HProg.wp_store hpg' hJ'
    · intro _ h₁ hJ
      obtain ⟨pg, hpg, -⟩ := hJ.top
      have hfr : ∀ x, Freed n t [] x ↔ ∃ i c, t i = some c ∧ x ∈ addrs n c.1 c.2 := by
        simp [Freed]
      refine HProg.wp_freePage hva (by simp [hpg]) ⟨fun x hx => ?_, fun x hx => ?_⟩
      · by_cases hxa : x = a
        · rw [hxa, update_self]
        · rw [update_of_ne hxa]
          exact hJ.freed x hxa ((hfr x).mpr ((mem_addrs_succ.mp hx).resolve_left hxa))
      · obtain ⟨hxa, hx⟩ := not_or.mp (mt mem_addrs_succ.mpr hx)
        rw [update_of_ne hxa]
        exact hJ.frame x hxa (mt (hfr x).mp hx)

end PTree

end Xv6
