import Xv6Kernel.Malloc.Blocks

/-!
# `free`

The loop of `free` ends at the last free block below the block that is freed, from wherever in the
list it starts.
-/

namespace Xv6

open Function

variable {T : List Seg} {C : List ℕ} {s₁ : State} {a y b u : ℕ}
variable {F₁ F₂ : List ℕ} {s' : State}

namespace Malloc

variable {base brk₀ : ℕ} {s : State} {S S₁ S₂ : List Seg} {g : Seg}

/-! ## The loop -/

/-- The test of the loop of `free`. -/
def Stops (s : State) (bp p : ℕ) : Prop :=
  (p < bp ∧ bp < s.ptr p) ∨ (s.ptr p ≤ p ∧ (p < bp ∨ bp < s.ptr p))

lemma freeSearch_stops (bp : ℕ) {R : List ℕ} (hR : ∀ a ∈ R, s.ptr a ∈ R) (d : ℕ) :
    ∀ (x : ℕ) (fuel : ℕ), x ∈ R → d < fuel → Stops s bp (s.ptr^[d] x) →
      ∃ y ∈ R, freeSearch s bp fuel x = some y ∧ Stops s bp y := by
  induction d with
  | zero =>
    intro x fuel hx hfuel hstop
    obtain ⟨fuel, rfl⟩ : ∃ k, fuel = k + 1 := ⟨fuel - 1, by omega⟩
    refine ⟨x, hx, ?_, hstop⟩
    rw [freeSearch]
    rcases hstop with h | h
    · exact if_pos h
    · by_cases h' : x < bp ∧ bp < s.ptr x
      · exact if_pos h'
      · exact (if_neg h').trans (if_pos h)
  | succ d ih =>
    intro x fuel hx hfuel hstop
    obtain ⟨fuel, rfl⟩ : ∃ k, fuel = k + 1 := ⟨fuel - 1, by omega⟩
    rw [freeSearch]
    by_cases h1 : x < bp ∧ bp < s.ptr x
    · exact ⟨x, hx, if_pos h1, .inl h1⟩
    by_cases h2 : s.ptr x ≤ x ∧ (x < bp ∨ bp < s.ptr x)
    · exact ⟨x, hx, (if_neg h1).trans (if_pos h2), .inr h2⟩
    rw [if_neg h1, if_neg h2]
    exact ih _ fuel (hR x hx) (by omega) hstop

lemma split_unique {l1 l2 m1 m2 : List ℕ} (h : l1 ++ l2 = m1 ++ m2) (hl1 : ∀ a ∈ l1, a < b)
    (hl2 : ∀ a ∈ l2, b ≤ a) (hm1 : ∀ a ∈ m1, a < b) (hm2 : ∀ a ∈ m2, b ≤ a) : l1 = m1 ∧ l2 = m2 := by
  have hfilter : ∀ {l l' : List ℕ}, (∀ a ∈ l, a < b) → (∀ a ∈ l', b ≤ a) →
      (l ++ l').filter (fun a => decide (a < b)) = l := by
    intro l l' hl hl'
    rw [List.filter_append, List.filter_eq_self.mpr fun a ha => decide_eq_true (hl a ha),
      List.filter_eq_nil_iff.mpr fun a ha => by
        simpa using hl' a ha, List.append_nil]
  have heq : l1 = m1 := by
    rw [← hfilter hl1 hl2, h, hfilter hm1 hm2]
  subst heq
  exact ⟨rfl, List.append_cancel_left h⟩

lemma frees_split (hg : g.live = true) : frees (S₁ ++ g :: S₂) = frees S₁ ++ frees S₂ := by
  rw [frees_append, frees_cons_live hg]

section Place

variable (h : Inv base brk₀ s (S₁ ++ g :: S₂)) (hg : g.live = true)

include h

lemma Inv.lt_of_mem_left {a : Seg} (ha : a ∈ S₁) : a.stop ≤ g.addr := by
  have hp := h.tiles.pairwise
  rw [List.pairwise_append] at hp
  exact hp.2.2 a ha g List.mem_cons_self

lemma Inv.lt_of_mem_right {a : Seg} (ha : a ∈ S₂) : g.stop ≤ a.addr := by
  have hp := h.tiles.pairwise
  rw [List.pairwise_append, List.pairwise_cons] at hp
  exact hp.2.1.1 a ha

lemma Inv.base_lt : base < g.addr := by
  have h1 := (h.tiles.mem (g := g) (by simp)).1
  have h2 := h.below
  omega

lemma Inv.units_pos : 0 < g.units := (h.tiles.mem (g := g) (by simp)).2.1

lemma Inv.frees_left (ha : a ∈ base :: frees S₁) : a < g.addr := by
  rcases List.mem_cons.mp ha with rfl | ha
  · exact h.base_lt
  obtain ⟨b, hb, -, rfl⟩ := mem_frees.mp ha
  have hle := h.lt_of_mem_left hb
  have hpos := (h.tiles.mem (g := b) (by simp [hb])).2.1
  unfold Seg.stop at hle
  omega

lemma Inv.frees_right (ha : a ∈ frees S₂) : g.addr < a := by
  obtain ⟨b, hb, -, rfl⟩ := mem_frees.mp ha
  have hle := h.lt_of_mem_right hb
  have hpos := h.units_pos
  unfold Seg.stop at hle
  omega

include hg

lemma Inv.freeSearch_eq : ∃ C y, base :: frees S₁ = C ++ [y] ∧
      freeSearch s g.addr (2 * s.brk + 4) s.freep = some y ∧ s.ptr y = (frees S₂).headD base := by
  have hring := h.ring
  have hsorted := h.sorted
  have hlen := h.length_le
  rw [frees_split hg] at hring hsorted hlen
  -- the last free block in front of the block passes the test
  obtain ⟨C, y, hC⟩ : ∃ C y, base :: frees S₁ = C ++ [y] := by
    rcases List.eq_nil_or_concat (base :: frees S₁) with hnil | ⟨C, y, hC⟩
    · cases hnil
    · exact ⟨C, y, by rw [hC, List.concat_eq_append]⟩
  have hsplit : base :: (frees S₁ ++ frees S₂) = C ++ y :: frees S₂ := by
    rw [← List.cons_append, hC, List.append_assoc]
    rfl
  have hnext := hring.cycle.next hsplit
  have hy : y ∈ base :: frees S₁ := by rw [hC]; simp
  have hylt := h.frees_left hy
  have hbase : base ≤ y := by
    rcases List.mem_cons.mp hy with rfl | hy
    · exact le_rfl
    · have := List.rel_of_pairwise_cons hsorted (List.mem_append_left _ hy)
      omega
  have hstop : Stops s g.addr y := by
    cases hF : frees S₂ with
    | nil =>
      rw [hF] at hnext
      exact .inr ⟨hnext.trans_le hbase, .inl hylt⟩
    | cons q F =>
      rw [hF] at hnext
      have hq := h.frees_right (a := q) (by rw [hF]; simp)
      exact .inl ⟨hylt, hq.trans_eq hnext.symm⟩
  obtain ⟨d, hd, hit⟩ := hring.cycle.reach_cycle hring.start
    (show y ∈ base :: (frees S₁ ++ frees S₂) by rw [hsplit]; simp)
  obtain ⟨z, hz, hsearch, hzstop⟩ := freeSearch_stops g.addr
    (fun a ha => hring.cycle.next_mem ha) d s.freep (2 * s.brk + 4) hring.start (by omega)
    (by rwa [hit])
  -- and no other node does
  obtain ⟨C', D', hsplit'⟩ := List.append_of_mem hz
  have hnext' := hring.cycle.next hsplit'
  have hsorted' := hsorted
  rw [hsplit', List.pairwise_append, List.pairwise_cons] at hsorted'
  obtain ⟨-, ⟨hD', -⟩, hC'⟩ := hsorted'
  have hbase' : base ≤ z := by
    rcases List.mem_cons.mp hz with rfl | hz'
    · exact le_rfl
    · exact (List.rel_of_pairwise_cons hsorted hz').le
  have hblt := h.base_lt
  have hcut : z < g.addr ∧ ∀ a ∈ D', g.addr < a := by
    rcases D' with _ | ⟨q, D'⟩
    · have hnext' : s.ptr z = base := hnext'
      refine ⟨?_, fun a ha => (nomatch ha)⟩
      rcases hzstop with h' | h' <;> omega
    have hnext' : s.ptr z = q := hnext'
    have hq := hD' q List.mem_cons_self
    have hzq : z < g.addr ∧ g.addr < q := by
      rcases hzstop with h' | h' <;> omega
    refine ⟨hzq.1, fun a ha => ?_⟩
    rw [hsplit'] at hsorted
    have hp := (List.pairwise_append.mp hsorted).2.1
    rw [List.pairwise_cons] at hp
    rcases List.mem_cons.mp ha with rfl | ha
    · exact hzq.2
    · exact hzq.2.trans (List.rel_of_pairwise_cons hp.2 ha)
  have hsplit'' : (base :: frees S₁) ++ frees S₂ = (C' ++ [z]) ++ D' := by
    rw [List.cons_append, hsplit', List.append_assoc]
    rfl
  obtain ⟨hleft, hright⟩ := split_unique hsplit'' (fun a ha => h.frees_left ha)
    (fun a ha => (h.frees_right ha).le) (fun a ha => by
      rcases List.mem_append.mp ha with ha | ha
      · exact (hC' a ha z List.mem_cons_self).trans hcut.1
      · rw [List.mem_singleton.mp ha]
        exact hcut.1) fun a ha => (hcut.2 a ha).le
  exact ⟨C', z, hleft, hsearch, by rw [hnext', hright]⟩

end Place

/-! ## Joining with the block behind -/

/-- The block and what is behind it, after the block was linked to the free block behind it or
joined with it. -/
structure Joined (base : ℕ) (s : State) (S₂ : List Seg) (g : Seg) (s₁ : State) (u : ℕ)
    (T : List Seg) : Prop where
  tiles : Tiles g.addr (⟨g.addr, u, false⟩ :: T) s.brk
  noAdj : NoAdj (⟨g.addr, u, false⟩ :: T)
  links : Follows s₁.ptr g.addr (frees T) base
  size : s₁.size g.addr = u
  le : g.units ≤ u
  sub : ∀ a ∈ T, a ∈ S₂
  lives : lives T = Malloc.lives S₂
  count : (frees T).length ≤ (frees S₂).length
  mem : ∀ a, a ≠ g.addr → s₁.mem a = s.mem a
  brk : s₁.brk = s.brk

lemma ptr_set_self (s : State) (a : ℕ) (v : Header) : (s.set a v).ptr a = v.ptr := by
  simp [State.ptr, State.set]

lemma size_set_self (s : State) (a : ℕ) (v : Header) : (s.set a v).size a = v.size := by
  simp [State.size, State.set]

lemma mem_set_of_ne {s : State} (v : Header) (h : b ≠ a) : (s.set a v).mem b = s.mem b :=
  update_of_ne h _ _

lemma ptr_congr {s : State} (h : s'.mem a = s.mem a) : s'.ptr a = s.ptr a := by
  rw [State.ptr, h, State.ptr]

lemma size_congr {s : State} (h : s'.mem a = s.mem a) : s'.size a = s.size a := by
  rw [State.size, h, State.size]

lemma u32_eq {n : ℕ} (h : a + 16 * n ≤ b) (hb : b < a + 2 ^ 36) : u32 n = n :=
  Nat.mod_eq_of_lt (by omega)

lemma Ring.follows_right (h : Ring base s (F₁ ++ F₂))
    (hC : base :: F₁ = C ++ [y]) : Follows s.ptr y F₂ base := by
  have hcycle := h.cycle
  cases C with
  | nil =>
    obtain ⟨rfl, rfl⟩ := List.cons.inj hC
    exact hcycle
  | cons c C =>
    have hF : F₁ = C ++ [y] := (List.cons.inj hC).2
    rw [hF, List.append_assoc] at hcycle
    exact (Follows.append_cons.mp hcycle).2

lemma Ring.follows_left {f : ℕ → ℕ} (h : Ring base s (F₁ ++ F₂)) (hC : base :: F₁ = C ++ [y])
    (hy : f y = b) (hf : ∀ a ∈ C, f a = s.ptr a) : Follows f base F₁ b := by
  have hcycle := h.cycle
  cases C with
  | nil =>
    obtain ⟨rfl, rfl⟩ := List.cons.inj hC
    exact hy
  | cons c C =>
    have hbase : base = c := (List.cons.inj hC).1
    have hF : F₁ = C ++ [y] := (List.cons.inj hC).2
    subst hbase
    rw [hF, List.append_assoc] at hcycle
    rw [hF]
    exact Follows.append_cons.mpr ⟨(Follows.append_cons.mp hcycle).1.congr hf, hy⟩

lemma node_left (hC : base :: frees S₁ = C ++ [y]) : (y = base ∧ frees S₁ = []) ∨
      ∃ A b B, S₁ = A ++ b :: B ∧ b.live = false ∧ b.addr = y ∧ frees B = [] := by
  rcases List.eq_nil_or_concat (frees S₁) with hnil | ⟨F, z, hF⟩
  · rw [hnil] at hC
    cases C with
    | nil => exact .inl ⟨(List.cons.inj hC).1.symm, hnil⟩
    | cons c C => exact absurd (List.cons.inj hC).2 (by simp)
  rw [List.concat_eq_append] at hF
  have hzy : z = y := by
    rw [hF, ← List.cons_append] at hC
    exact List.singleton_inj.mp (List.append_inj_right' hC rfl)
  refine .inr ?_
  -- the last free block of a sequence
  clear hC
  induction S₁ using List.reverseRecOn generalizing F with
  | nil => exact absurd hF (by simp [frees])
  | append_singleton A b ih =>
    rw [frees_append] at hF
    cases hlive : b.live with
    | true =>
      rw [frees_cons_live hlive] at hF
      change frees A ++ [] = _ at hF
      rw [List.append_nil] at hF
      obtain ⟨A', b', B, rfl, h1, h2, h3⟩ := ih F hF
      refine ⟨A', b', B ++ [b], by simp, h1, h2, ?_⟩
      rw [frees_append, h3, frees_cons_live hlive]
      rfl
    | false =>
      rw [frees_cons_free hlive] at hF
      refine ⟨A, b, [], rfl, hlive, ?_, rfl⟩
      rw [← hzy]
      exact List.singleton_inj.mp (List.append_inj_right' hF rfl)

section Join

variable (h : Inv base brk₀ s (S₁ ++ g :: S₂)) (hg : g.live = true)

include h hg

lemma Inv.joinNext {C : List ℕ} {y : ℕ} (hC : base :: frees S₁ = C ++ [y]) :
    ∃ u T, Joined base s S₂ g (joinNext s g.addr ((frees S₂).headD base)) u T := by
  have hring := h.ring
  rw [frees_split hg] at hring
  have hright := hring.follows_right hC
  obtain ⟨mid, hlow, hmid, hpos, htiles⟩ := Tiles.append.mp h.tiles
  have hsize : s.size g.addr = g.units := h.size g (by simp)
  have hbelow := h.base_lt
  have hnadj : NoAdj (g :: S₂) := (List.isChain_append.mp h.noAdj).2.1
  unfold Malloc.joinNext
  rw [hsize]
  -- unless the block behind it is free, the block is only linked
  have hlink : (∀ b ∈ S₂.head?, b.live = true) → g.addr + 16 * g.units ≠ (frees S₂).headD base →
      ∃ u T, Joined base s S₂ g (if g.addr + 16 * g.units = (frees S₂).headD base then
        s.set g.addr ⟨s.ptr ((frees S₂).headD base),
          u32 (g.units + s.size ((frees S₂).headD base))⟩
        else s.set g.addr ⟨(frees S₂).headD base, g.units⟩) u T := by
    intro hlive hne
    rw [if_neg hne]
    refine ⟨g.units, S₂, ⟨rfl, hpos, htiles⟩, ?_, ?_, size_set_self _ _ _, le_rfl, fun a ha => ha,
      rfl, le_rfl, fun a ha => mem_set_of_ne _ ha, rfl⟩
    · cases S₂ with
      | nil => exact List.isChain_singleton _
      | cons b S₂ =>
        rw [NoAdj, List.isChain_cons_cons] at hnadj ⊢
        exact ⟨.inr (hlive b rfl), hnadj.2⟩
    · refine hright.rehead (ptr_set_self _ _ _) fun a ha => ptr_congr (mem_set_of_ne _ ?_)
      exact (h.frees_right ha).ne'
  cases hS : S₂ with
  | nil =>
    subst hS
    exact hlink (fun b hb => (nomatch hb)) (by
      change g.addr + 16 * g.units ≠ base
      omega)
  | cons b T =>
    subst hS
    obtain ⟨hb, hbpos, hT⟩ := htiles
    cases hlive : b.live with
    | true =>
      refine hlink (fun c hc => ?_) ?_
      · rw [← Option.some.inj hc]
        exact hlive
      · rw [frees_cons_live hlive]
        cases hF : frees T with
        | nil =>
          change g.addr + 16 * g.units ≠ base
          omega
        | cons q F =>
          have hq := (hT.lt_of_mem_frees (a := q) (by rw [hF]; simp)).1
          unfold Seg.stop at hq hb
          change g.addr + 16 * g.units ≠ q
          omega
    | false =>
      -- the free block behind it is joined to the block
      have hbsize : s.size b.addr = b.units := h.size b (by simp)
      have hhead : (frees (b :: T)).headD base = b.addr := by
        rw [frees_cons_free hlive]
        rfl
      have hstop : g.addr + 16 * g.units = b.addr := hb.symm
      have hle := hT.le
      have hbound := h.bound
      have hmid' := hlow.le
      unfold Seg.stop at hle
      rw [hhead, if_pos hstop, hbsize, u32_eq (a := brk₀) (b := s.brk) (by omega) hbound]
      have hTiles : Tiles g.addr (⟨g.addr, g.units + b.units, false⟩ :: T) s.brk := by
        refine ⟨rfl, Nat.add_pos_left hpos _, ?_⟩
        have heq : (⟨g.addr, g.units + b.units, false⟩ : Seg).stop = b.stop := by
          unfold Seg.stop
          change g.addr + 16 * (g.units + b.units) = b.addr + 16 * b.units
          omega
        rw [heq]
        exact hT
      rw [NoAdj, List.isChain_cons_cons] at hnadj
      rw [frees_cons_free hlive] at hright
      refine ⟨g.units + b.units, T, hTiles, ?_, ?_, size_set_self _ _ _, Nat.le_add_right _ _,
        fun a ha => List.mem_cons_of_mem _ ha, (lives_cons_free hlive).symm, by
          rw [frees_cons_free hlive]
          exact Nat.le_succ _, fun a ha => mem_set_of_ne _ ha, rfl⟩
      · cases T with
        | nil => exact List.isChain_singleton _
        | cons c T =>
          have hbc := hnadj.2
          rw [List.isChain_cons_cons] at hbc
          rw [NoAdj, List.isChain_cons_cons]
          refine ⟨.inr ?_, hbc.2⟩
          rcases hbc.1 with h' | h'
          · rw [hlive] at h'
            cases h'
          · exact h'
      · refine hright.2.rehead ?_ fun a ha => ptr_congr (mem_set_of_ne _ ?_)
        · rw [ptr_set_self]
          exact hright.2.next (c := []) rfl
        · have := h.frees_right (a := a) (by rw [frees_cons_free hlive]; simp [ha])
          omega

/-! ## Joining with the block in front -/

structure Freed (base brk₀ : ℕ) (s : State) (S₁ S₂ : List Seg) (g : Seg) (s' : State)
    (S' : List Seg) : Prop where
  inv : Inv base brk₀ s' S'
  lives : lives S' = Malloc.lives S₁ ++ Malloc.lives S₂
  count : (frees S').length ≤ (frees (S₁ ++ S₂)).length + 1
  /-- Only the headers of free blocks, of `base` and of the block have changed. -/
  mem : ∀ a, a ≠ g.addr → a ∉ base :: frees S₁ → s'.mem a = s.mem a
  brk : s'.brk = s.brk
  /-- The block is now in a free block, which is the first one in the list or the one behind it. -/
  fits : g.units ≤ s'.size (s'.ptr s'.freep) ∨ g.units ≤ s'.size s'.freep

section

variable (hC : base :: frees S₁ = C ++ [y]) (hj : Joined base s S₂ g s₁ u T)
include hC hj

lemma Inv.around :
    y ∈ base :: frees S₁ ∧ y < g.addr ∧ (∀ a ∈ C, a < y) ∧ (∀ a ∈ S₁, a.addr < g.addr) ∧
      ∀ a ∈ T, g.addr < a.addr := by
  obtain ⟨mid, -, -, hpos, -⟩ := Tiles.append.mp h.tiles
  have hy : y ∈ base :: frees S₁ := by rw [hC]; simp
  have hsorted := h.sorted
  rw [frees_split hg, ← List.cons_append, hC, List.append_assoc] at hsorted
  refine ⟨hy, h.frees_left hy, fun a ha =>
    (List.pairwise_append.mp hsorted).2.2 a ha y (by simp), fun a ha => ?_, fun a ha => ?_⟩
  · have hle := h.lt_of_mem_left ha
    have hpos := (h.tiles.mem (g := a) (by simp [ha])).2.1
    unfold Seg.stop at hle
    omega
  · have hle := h.lt_of_mem_right (hj.sub a ha)
    unfold Seg.stop at hle
    omega

lemma Inv.mergePrev (htouch : y + 16 * s.size y = g.addr) :
    ∃ S', Freed base brk₀ s S₁ S₂ g
      { s₁.set y ⟨s₁.ptr g.addr, u32 (s.size y + u)⟩ with freep := y } S' := by
  have hring := h.ring
  rw [frees_split hg] at hring
  obtain ⟨mid, hlow, hmid, hpos, -⟩ := Tiles.append.mp h.tiles
  have hmid : g.addr = mid := hmid
  have hnadj1 : NoAdj S₁ := (List.isChain_append.mp h.noAdj).1
  obtain ⟨hy, hylt, hCy, haddr1, haddr2⟩ := h.around hg hC hj
  have hCg : ∀ a ∈ C, a < g.addr := fun a ha => (hCy a ha).trans hylt
  have hTg : ∀ a ∈ frees T, g.addr < a := fun a ha => by
    obtain ⟨b, hb, -, rfl⟩ := mem_frees.mp ha
    exact haddr2 b hb
  rcases node_left hC with ⟨rfl, -⟩ | ⟨A, b, B, rfl, hblive, rfl, hB⟩
  · rw [hring.empty] at htouch
    omega
  have hbsize : s.size b.addr = b.units := h.size b (by simp)
  rw [hbsize] at htouch ⊢
  -- no block is between the two
  obtain ⟨mid', hA, hb', hbpos, hBt⟩ := Tiles.append.mp hlow
  have hb' : b.addr = mid' := hb'
  have hBnil : B = [] := by
    cases B with
    | nil => rfl
    | cons c B =>
      obtain ⟨hc, hcpos, hB'⟩ := hBt
      have hle := hB'.le
      unfold Seg.stop at hc hle
      omega
  subst hBnil
  have hFA : frees (A ++ [b]) = frees A ++ [b.addr] := by
    rw [frees_append, frees_cons_free hblive]
    rfl
  rw [hFA] at hring hC
  have hCA : C = base :: frees A := by
    rw [← List.cons_append] at hC
    exact (List.append_inj_left' hC rfl).symm
  have hbound := h.bound
  have hle := hj.tiles.2.2.le
  have hAle := hA.le
  unfold Seg.stop at hle
  have hu : u32 (b.units + u) = b.units + u :=
    u32_eq (a := brk₀) (b := s.brk) (by
      change g.addr + 16 * u ≤ s.brk at hle
      omega) hbound
  rw [hu]
  refine ⟨A ++ ⟨b.addr, b.units + u, false⟩ :: T, ⟨?_, ?_, ?_, ⟨?_, ?_, ?_⟩, h.below, ?_⟩, ?_, ?_,
    fun a ha ha' => ?_, hj.brk, .inr ?_⟩
  · change Tiles brk₀ _ s₁.brk
    rw [hj.brk]
    refine Tiles.append.mpr ⟨mid', hA, hb', Nat.add_pos_left hbpos _, ?_⟩
    have hstop : (⟨b.addr, b.units + u, false⟩ : Seg).stop =
        (⟨g.addr, u, false⟩ : Seg).stop := by
      unfold Seg.stop
      change b.addr + 16 * (b.units + u) = g.addr + 16 * u
      omega
    rw [hstop]
    exact hj.tiles.2.2
  · rw [NoAdj, List.isChain_append] at hnadj1 ⊢
    refine ⟨hnadj1.1, ?_, fun x hx z hz => ?_⟩
    · have hn := hj.noAdj
      cases T with
      | nil => exact List.isChain_singleton _
      | cons c T =>
        rw [NoAdj, List.isChain_cons_cons] at hn
        exact List.isChain_cons_cons.mpr ⟨hn.1, hn.2⟩
    · have hx' := hnadj1.2.2 x hx b rfl
      rw [hblive] at hx'
      rcases hx' with hx' | hx'
      · exact .inl hx'
      · cases hx'
  · intro a ha
    rcases List.mem_append.mp ha with ha | ha
    · have hne : a.addr ≠ b.addr := by
        have := (hA.mem ha).2.2
        have hp := (hA.mem ha).2.1
        unfold Seg.stop at this
        omega
      rw [← h.size a (by simp [ha])]
      exact size_congr ((mem_set_of_ne _ hne).trans (hj.mem _ (haddr1 a (by simp [ha])).ne))
    · rcases List.mem_cons.mp ha with rfl | ha
      · exact size_set_self _ _ _
      · have hlt := haddr2 a ha
        rw [← h.size a (by simp [hj.sub a ha])]
        exact size_congr ((mem_set_of_ne _ (by omega)).trans (hj.mem _ hlt.ne'))
  · rw [frees_append, frees_cons_free rfl]
    refine Follows.append_cons.mpr ⟨?_, ?_⟩
    · have hcycle := hring.cycle
      rw [List.append_assoc] at hcycle
      refine (Follows.append_cons.mp hcycle).1.congr fun a ha => ?_
      rw [← hCA] at ha
      exact ptr_congr ((mem_set_of_ne _ (hCy a ha).ne).trans (hj.mem _ (hCg a ha).ne))
    · refine hj.links.rehead ?_ fun a ha => ptr_congr (mem_set_of_ne _ ?_)
      · exact (ptr_set_self _ _ _).trans (hj.links.next (c := []) rfl)
      · have := hTg a ha
        omega
  · rw [frees_append, frees_cons_free rfl]
    simp
  · rw [← hring.empty]
    refine size_congr ((mem_set_of_ne _ ?_).trans (hj.mem _ (h.base_lt).ne))
    have := (h.tiles.mem (g := b) (by simp)).1
    have := h.below
    omega
  · change s₁.brk < _
    rw [hj.brk]
    exact hbound
  · rw [lives_append, lives_append, lives_cons_free rfl, lives_cons_free hblive, hj.lives]
    change _ = (lives A ++ []) ++ _
    rw [List.append_nil]
  · have hcount := hj.count
    rw [frees_append, frees_append, hFA, frees_cons_free rfl]
    simp only [List.length_append, List.length_cons, List.length_nil]
    omega
  · have hne : a ≠ b.addr := fun heq => ha' (by rw [heq]; exact hy)
    exact (mem_set_of_ne _ hne).trans (hj.mem a ha)
  · change g.units ≤ (s₁.set b.addr _).size b.addr
    rw [size_set_self]
    exact hj.le.trans (Nat.le_add_left _ _)

lemma Inv.linkPrev (htouch : y + 16 * s.size y ≠ g.addr) :
    ∃ S', Freed base brk₀ s S₁ S₂ g { s₁.set y ⟨g.addr, s.size y⟩ with freep := y } S' := by
  have hring := h.ring
  rw [frees_split hg] at hring
  obtain ⟨mid, hlow, hmid, hpos, -⟩ := Tiles.append.mp h.tiles
  have hmid : g.addr = mid := hmid
  have hnadj1 : NoAdj S₁ := (List.isChain_append.mp h.noAdj).1
  obtain ⟨hy, hylt, hCy, haddr1, haddr2⟩ := h.around hg hC hj
  have hCg : ∀ a ∈ C, a < g.addr := fun a ha => (hCy a ha).trans hylt
  have hTg : ∀ a ∈ frees T, g.addr < a := fun a ha => by
    obtain ⟨b, hb, -, rfl⟩ := mem_frees.mp ha
    exact haddr2 b hb
  have hmem : ∀ a, a ≠ y → a ≠ g.addr → (s₁.set y ⟨g.addr, s.size y⟩).mem a = s.mem a :=
    fun a h1 h2 => (mem_set_of_ne _ h1).trans (hj.mem a h2)
  have hself : ∀ a, a = y → (s₁.set y ⟨g.addr, s.size y⟩).size a = s.size a := by
    rintro a rfl
    exact size_set_self _ _ _
  have hsizes : ∀ a, a ≠ g.addr → (s₁.set y ⟨g.addr, s.size y⟩).size a = s.size a := by
    intro a ha
    by_cases hay : a = y
    · exact hself a hay
    · exact size_congr (hmem a hay ha)
  refine ⟨S₁ ++ ⟨g.addr, u, false⟩ :: T, ⟨?_, ?_, ?_, ⟨?_, ?_, ?_⟩, h.below, ?_⟩, ?_, ?_,
    fun a ha ha' => ?_, hj.brk, .inl ?_⟩
  · change Tiles brk₀ _ s₁.brk
    rw [hj.brk]
    exact Tiles.append.mpr ⟨mid, hlow, by rw [← hmid]; exact hj.tiles⟩
  · rw [NoAdj, List.isChain_append]
    refine ⟨hnadj1, hj.noAdj, fun x hx z _ => .inl ?_⟩
    -- the last block in front of it is not free
    rcases node_left hC with ⟨-, hnil⟩ | ⟨A, b, B, rfl, hblive, rfl, hB⟩
    · by_contra hx'
      have hmemx : x.addr ∈ frees S₁ :=
        mem_frees.mpr ⟨x, List.mem_of_getLast? hx, by simpa using hx', rfl⟩
      rw [hnil] at hmemx
      cases hmemx
    cases B with
    | nil =>
      refine absurd ?_ htouch
      obtain ⟨mid', -, hb', -, hBt⟩ := Tiles.append.mp hlow
      have hBt : b.addr + 16 * b.units = mid := hBt
      rw [h.size b (by simp), hBt, hmid]
    | cons c B =>
      by_contra hx'
      have hxB : x ∈ c :: B := by
        have hx : (A ++ b :: c :: B).getLast? = some x := hx
        rw [show A ++ b :: c :: B = (A ++ [b]) ++ (c :: B) by simp,
          List.getLast?_append_of_ne_nil _ (by simp)] at hx
        exact List.mem_of_getLast? hx
      have hmemx : x.addr ∈ frees (c :: B) :=
        mem_frees.mpr ⟨x, hxB, by simpa using hx', rfl⟩
      rw [hB] at hmemx
      cases hmemx
  · intro a ha
    rcases List.mem_append.mp ha with ha | ha
    · rw [← h.size a (by simp [ha])]
      exact hsizes _ (haddr1 a ha).ne
    rcases List.mem_cons.mp ha with rfl | ha
    · exact (size_congr (mem_set_of_ne _ hylt.ne')).trans hj.size
    · rw [← h.size a (by simp [hj.sub a ha])]
      exact hsizes _ (haddr2 a ha).ne'
  · rw [frees_append, frees_cons_free rfl]
    refine Follows.append_cons.mpr ⟨?_, ?_⟩
    · exact hring.follows_left hC (ptr_set_self _ _ _) fun a ha =>
        ptr_congr (hmem a (hCy a ha).ne (hCg a ha).ne)
    · refine hj.links.congr fun a ha => ptr_congr (mem_set_of_ne _ ?_)
      rcases List.mem_cons.mp ha with rfl | ha
      · exact hylt.ne'
      · have := hTg a ha
        omega
  · rw [frees_append]
    exact List.mem_append_left _ hy
  · rw [← hring.empty]
    exact hsizes base (h.base_lt).ne
  · change s₁.brk < _
    rw [hj.brk]
    exact h.bound
  · rw [lives_append, lives_cons_free rfl, hj.lives]
  · have hcount := hj.count
    rw [frees_append, frees_append, frees_cons_free rfl]
    simp only [List.length_append, List.length_cons]
    omega
  · exact hmem a (fun heq => ha' (by rw [heq]; exact hy)) ha
  · have hptr : (s₁.set y ⟨g.addr, s.size y⟩).ptr y = g.addr := ptr_set_self _ _ _
    change g.units ≤ (s₁.set y _).size ((s₁.set y _).ptr y)
    rw [hptr, size_congr (mem_set_of_ne _ hylt.ne'), hj.size]
    exact hj.le

end

lemma Inv.joinPrev {C : List ℕ} {y : ℕ} (hC : base :: frees S₁ = C ++ [y]) {s₁ : State} {u : ℕ}
    {T : List Seg} (hj : Joined base s S₂ g s₁ u T) :
    ∃ S', Freed base brk₀ s S₁ S₂ g { joinPrev s₁ y g.addr with freep := y } S' := by
  have hylt := (h.around hg hC hj).2.1
  unfold Malloc.joinPrev
  rw [size_congr (hj.mem y hylt.ne)]
  by_cases htouch : y + 16 * s.size y = g.addr
  · rw [if_pos htouch, hj.size]
    exact h.mergePrev hg hC hj htouch
  · rw [if_neg htouch]
    exact h.linkPrev hg hC hj htouch

lemma Inv.free : ∃ s' S', free s (g.addr + 16) = some s' ∧ Freed base brk₀ s S₁ S₂ g s' S' := by
  obtain ⟨C, y, hC, hsearch, hptr⟩ := h.freeSearch_eq hg
  obtain ⟨u, T, hj⟩ := h.joinNext hg hC
  obtain ⟨S', hfreed⟩ := h.joinPrev hg hC hj
  refine ⟨_, S', ?_, hfreed⟩
  unfold Malloc.free
  simp only [Nat.add_sub_cancel, hsearch, Option.map_some, hptr]

end Join

end Malloc

end Xv6
