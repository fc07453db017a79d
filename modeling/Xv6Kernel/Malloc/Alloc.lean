import Xv6Kernel.Malloc.Free

/-!
# `malloc`

The loop of `malloc` takes a block of the list that is large enough, or comes back to where it
started and gets more memory.
-/

namespace Xv6.Malloc

open Function

variable {base brk₀ : ℕ} {s s' : State} {S : List Seg}

def Frame (S : List Seg) (s s' : State) : Prop :=
  ∀ g ∈ S, g.live = true → ∀ a, g.addr ≤ a → a < g.stop → s'.mem a = s.mem a

lemma Inv.ne_of_live (h : Inv base brk₀ s S) {g : Seg} (hg : g ∈ S) (hlive : g.live = true)
    {a : ℕ} (hlo : g.addr ≤ a) (hhi : a < g.stop) : a ∉ base :: frees S := by
  intro ha
  have hmem := h.tiles.mem hg
  have hbelow := h.below
  rcases List.mem_cons.mp ha with rfl | ha
  · omega
  obtain ⟨b, hb, hfree, rfl⟩ := mem_frees.mp ha
  have hpos := (h.tiles.mem hb).2.1
  have heq := h.tiles.eq_of_addr hg hb ⟨hlo, hhi⟩ ⟨le_rfl, by unfold Seg.stop; omega⟩
  rw [heq, hfree] at hlive
  cases hlive

/-! ## Taking a block -/

structure Allocated (base brk₀ : ℕ) (s : State) (S : List Seg) (n ap : ℕ) (s' : State)
    (S' : List Seg) : Prop where
  inv : Inv base brk₀ s' S'
  lives : (lives S').Perm (ap :: Malloc.lives S)
  block : ∃ g ∈ S', g.live = true ∧ g.addr + 16 = ap ∧ g.units = n
  frame : Frame S s s'

lemma Inv.prev_eq {S₁ S₂ : List Seg} {g : Seg} (h : Inv base brk₀ s (S₁ ++ g :: S₂))
    (hg : g.live = false) {prevp : ℕ} (hprev : prevp ∈ base :: frees (S₁ ++ g :: S₂))
    (hptr : s.ptr prevp = g.addr) : frees (S₁ ++ g :: S₂) = frees S₁ ++ g.addr :: frees S₂ ∧
      ∃ C, base :: frees S₁ = C ++ [prevp] := by
  have hF : frees (S₁ ++ g :: S₂) = frees S₁ ++ g.addr :: frees S₂ := by
    rw [frees_append, frees_cons_free hg]
  refine ⟨hF, ?_⟩
  have hsorted := h.sorted
  have hcycle := h.ring.cycle
  have hblt := h.base_lt
  obtain ⟨C, D, hsplit⟩ := List.append_of_mem hprev
  have hnext := hcycle.next hsplit
  rcases D with _ | ⟨q, D⟩
  · have hnext : s.ptr prevp = base := hnext
    omega
  have hnext : s.ptr prevp = q := hnext
  obtain rfl : q = g.addr := hnext.symm.trans hptr
  have hs1 := hsorted
  rw [hsplit, List.pairwise_append] at hs1
  obtain ⟨-, hs2, hs3⟩ := hs1
  rw [List.pairwise_cons, List.pairwise_cons] at hs2
  have hs4 := hsorted
  rw [hF, ← List.cons_append, List.pairwise_append] at hs4
  obtain ⟨-, hs5, hs6⟩ := hs4
  rw [List.pairwise_cons] at hs5
  have heq : (base :: frees S₁) ++ g.addr :: frees S₂ = (C ++ [prevp]) ++ g.addr :: D := by
    rw [List.cons_append, ← hF, hsplit, List.append_assoc]
    rfl
  refine ⟨C, (split_unique (b := g.addr) heq (fun a ha => hs6 a ha _ List.mem_cons_self)
    (fun a ha => ?_) (fun a ha => ?_) fun a ha => ?_).1⟩
  · rcases List.mem_cons.mp ha with rfl | ha
    · exact le_rfl
    · exact (hs5.1 a ha).le
  · rcases List.mem_append.mp ha with ha | ha
    · exact hs3 a ha _ (by simp)
    · rw [List.mem_singleton.mp ha]
      exact hs2.1 _ List.mem_cons_self
  · rcases List.mem_cons.mp ha with rfl | ha
    · exact le_rfl
    · exact (hs2.2.1 a ha).le

lemma Inv.addr_ne {S₁ S₂ : List Seg} {g a : Seg} (h : Inv base brk₀ s (S₁ ++ g :: S₂))
    (ha : a ∈ S₁ ∨ a ∈ S₂) {x : ℕ} (hlo : g.addr ≤ x) (hhi : x < g.stop) : a.addr ≠ x := by
  rcases ha with ha | ha
  · have hle := h.lt_of_mem_left ha
    have hpos := (h.tiles.mem (g := a) (by simp [ha])).2.1
    unfold Seg.stop at hle
    omega
  · have hle := h.lt_of_mem_right ha
    omega

lemma NoAdj.cons_live {g x : Seg} {T : List Seg} (h : NoAdj (g :: T)) (hx : x.live = true) :
    NoAdj (x :: T) := by
  cases T with
  | nil => exact List.isChain_singleton _
  | cons c T => exact List.isChain_cons_cons.mpr ⟨.inl hx, (List.isChain_cons_cons.mp h).2⟩

section Take

variable {S₁ S₂ : List Seg} {g : Seg} (h : Inv base brk₀ s (S₁ ++ g :: S₂)) (hg : g.live = false)
  {n prevp : ℕ} (hn : 0 < n) (hprev : prevp ∈ base :: frees (S₁ ++ g :: S₂))
include h hg hn hprev

lemma Inv.takeWhole (hp : s.ptr prevp = g.addr) (heq : g.units = n) :
    ∃ S', Allocated base brk₀ s (S₁ ++ g :: S₂) n (g.addr + 16)
      { s.set prevp ⟨s.ptr g.addr, s.size prevp⟩ with freep := prevp } S' := by
  have hempty := h.ring.empty
  have hframe := fun {b} hb hlive {a} hlo hhi => h.ne_of_live (g := b) hb hlive (a := a) hlo hhi
  obtain ⟨hF, C, hC⟩ := h.prev_eq hg hprev hp
  have hsize : s.size g.addr = g.units := h.size g (by simp)
  have hprevlt : prevp < g.addr := h.frees_left (by rw [hC]; simp)
  obtain ⟨mid, hlow, hmid, -, htop⟩ := Tiles.append.mp h.tiles
  have hchain := List.isChain_append.mp h.noAdj
  have hmem : ∀ a, a ≠ prevp →
      (s.set prevp ⟨s.ptr g.addr, s.size prevp⟩).mem a = s.mem a := fun a ha => mem_set_of_ne _ ha
  have hsizes : ∀ a, (s.set prevp ⟨s.ptr g.addr, s.size prevp⟩).size a = s.size a := fun a => by
    by_cases ha : a = prevp
    · rw [ha, size_set_self]
    · exact size_congr (hmem a ha)
  have hring := h.ring
  rw [hF] at hring
  have hcycle := hring.cycle
  have hright := (Follows.append_cons.mp hcycle).2
  have hCne : ∀ a ∈ C, a ≠ prevp := by
    have hsorted := h.sorted
    rw [hF, ← List.cons_append, hC, List.append_assoc] at hsorted
    exact fun a ha => ((List.pairwise_append.mp hsorted).2.2 a ha prevp (by simp)).ne
  have hF2 : ∀ a ∈ frees S₂, a ≠ prevp := fun a ha => by
    have := h.frees_right ha
    omega
  refine ⟨S₁ ++ ⟨g.addr, n, true⟩ :: S₂, ⟨?_, ?_, fun a ha => ?_, ⟨?_, ?_, ?_⟩, h.below, h.bound⟩,
    ?_, ⟨⟨g.addr, n, true⟩, by simp, rfl, rfl, rfl⟩, fun b hb hlive a hlo hhi => ?_⟩
  · refine Tiles.append.mpr ⟨mid, hlow, hmid, hn, ?_⟩
    have hstop : (⟨g.addr, n, true⟩ : Seg).stop = g.stop := by
      unfold Seg.stop
      rw [heq]
    rw [hstop]
    exact htop
  · rw [NoAdj, List.isChain_append]
    refine ⟨hchain.1, ?_, fun x _ z hz => .inr ?_⟩
    · exact NoAdj.cons_live hchain.2.1 rfl
    · rw [← Option.some.inj hz]
  · refine (hsizes _).trans ?_
    rcases List.mem_append.mp ha with ha | ha
    · exact h.size a (by simp [ha])
    · rcases List.mem_cons.mp ha with rfl | ha
      · exact hsize.trans heq
      · exact h.size a (by simp [ha])
  · rw [frees_split rfl]
    have hnew : (s.set prevp ⟨s.ptr g.addr, s.size prevp⟩).ptr prevp = (frees S₂).headD base :=
      (ptr_set_self _ _ _).trans (hright.next (c := []) rfl)
    cases hF2' : frees S₂ with
    | nil =>
      rw [hF2'] at hnew
      rw [List.append_nil]
      exact hring.follows_left hC hnew fun a ha => ptr_congr (hmem a (hCne a ha))
    | cons q F =>
      rw [hF2'] at hnew hright hF2
      refine Follows.append_cons.mpr ⟨hring.follows_left hC hnew fun a ha =>
        ptr_congr (hmem a (hCne a ha)), hright.2.congr fun a ha => ptr_congr (hmem a (hF2 a ha))⟩
  · rw [frees_split rfl, ← List.cons_append, hC]
    simp
  · exact (hsizes base).trans hempty
  · rw [lives_append, lives_append, lives_cons_live rfl, lives_cons_free hg]
    exact List.perm_middle
  · refine hmem a fun hap => hframe hb hlive hlo hhi ?_
    rw [hap]
    exact hprev

lemma Inv.takeEnd (hlt : n < g.units) :
    ∃ S', Allocated base brk₀ s (S₁ ++ g :: S₂) n (g.addr + 16 * (g.units - n) + 16)
      { (s.set g.addr ⟨s.ptr g.addr, g.units - n⟩).set (g.addr + 16 * (g.units - n))
          ⟨(s.set g.addr ⟨s.ptr g.addr, g.units - n⟩).ptr (g.addr + 16 * (g.units - n)), n⟩ with
        freep := prevp } S' := by
  have hempty := h.ring.empty
  have hgS : g ∈ S₁ ++ g :: S₂ := by simp
  have hF : frees (S₁ ++ g :: S₂) = frees S₁ ++ g.addr :: frees S₂ := by
    rw [frees_append, frees_cons_free hg]
  have hblt := h.base_lt
  obtain ⟨mid, hlow, hmid, -, htop⟩ := Tiles.append.mp h.tiles
  have hchain := List.isChain_append.mp h.noAdj
  obtain ⟨q, hq⟩ : ∃ q, q = g.addr + 16 * (g.units - n) := ⟨_, rfl⟩
  rw [← hq]
  have hqin : g.addr < q ∧ q < g.stop := by
    unfold Seg.stop
    omega
  obtain ⟨t, ht⟩ : ∃ t, t = (s.set g.addr ⟨s.ptr g.addr, g.units - n⟩).set q
      ⟨(s.set g.addr ⟨s.ptr g.addr, g.units - n⟩).ptr q, n⟩ := ⟨_, rfl⟩
  rw [← ht]
  have hmem : ∀ a, a ≠ g.addr → a ≠ q → t.mem a = s.mem a := fun a h1 h2 => by
    rw [ht, mem_set_of_ne _ h2, mem_set_of_ne _ h1]
  have hsg : t.size g.addr = g.units - n := by
    rw [ht]
    exact (size_congr (mem_set_of_ne _ hqin.1.ne)).trans (size_set_self _ _ _)
  have hsq : t.size q = n := by
    rw [ht]
    exact size_set_self _ _ _
  have hptr : ∀ a, t.ptr a = s.ptr a := fun a => by
    by_cases haq : a = q
    · rw [haq, ht, ptr_set_self]
      exact ptr_congr (mem_set_of_ne _ hqin.1.ne')
    by_cases hag : a = g.addr
    · rw [hag, ht]
      exact (ptr_congr (mem_set_of_ne _ hqin.1.ne)).trans (ptr_set_self _ _ _)
    · exact ptr_congr (hmem a hag haq)
  have hbrk : t.brk = s.brk := by rw [ht]; rfl
  have hfrees : frees (S₁ ++ ⟨g.addr, g.units - n, false⟩ :: ⟨q, n, true⟩ :: S₂) =
      frees (S₁ ++ g :: S₂) := by
    rw [frees_append, frees_cons_free rfl, frees_cons_live rfl, hF]
  refine ⟨S₁ ++ ⟨g.addr, g.units - n, false⟩ :: ⟨q, n, true⟩ :: S₂,
    ⟨?_, ?_, fun a ha => ?_, ⟨?_, ?_, ?_⟩, h.below, ?_⟩,
    ?_, ⟨⟨q, n, true⟩, by simp, rfl, rfl, rfl⟩, fun b hb hlive a hlo hhi => ?_⟩
  · change Tiles brk₀ _ t.brk
    rw [hbrk]
    refine Tiles.append.mpr ⟨mid, hlow, hmid, ?_, hq, hn, ?_⟩
    · change 0 < g.units - n
      omega
    · have hstop : (⟨q, n, true⟩ : Seg).stop = g.stop := by
        unfold Seg.stop
        change q + 16 * n = g.addr + 16 * g.units
        omega
      rw [hstop]
      exact htop
  · rw [NoAdj, List.isChain_append]
    refine ⟨hchain.1, ?_, fun x hx z hz => ?_⟩
    · exact List.isChain_cons_cons.mpr ⟨.inr rfl, NoAdj.cons_live hchain.2.1 rfl⟩
    · have hx' := hchain.2.2 x hx g rfl
      rw [hg] at hx'
      rcases hx' with hx' | hx'
      · exact .inl hx'
      · cases hx'
  · have hother : a ∈ S₁ ∨ a ∈ S₂ → t.size a.addr = a.units := fun ha' => by
      rw [size_congr (hmem _ (h.addr_ne ha' le_rfl (by omega)) (h.addr_ne ha' hqin.1.le hqin.2))]
      exact h.size a (by simpa using ha'.imp_right .inr)
    rcases List.mem_append.mp ha with ha | ha
    · exact hother (.inl ha)
    rcases List.mem_cons.mp ha with rfl | ha
    · exact hsg
    · rcases List.mem_cons.mp ha with rfl | ha
      · exact hsq
      · exact hother (.inr ha)
  · rw [hfrees]
    exact h.ring.cycle.congr fun a _ => hptr a
  · rw [hfrees]
    exact hprev
  · refine (size_congr (hmem base hblt.ne (by omega))).trans hempty
  · change t.brk < _
    rw [hbrk]
    exact h.bound
  · rw [lives_append, lives_append, lives_cons_free rfl, lives_cons_live rfl, lives_cons_free hg]
    exact List.perm_middle
  · have hdis : ∀ x, g.addr ≤ x → x < g.stop → a ≠ x := by
      rintro x h1 h2 rfl
      have hbg := h.tiles.eq_of_addr hb hgS ⟨hlo, hhi⟩ ⟨h1, h2⟩
      rw [hbg, hg] at hlive
      cases hlive
    exact hmem a (hdis _ le_rfl (by omega)) (hdis q hqin.1.le hqin.2)

end Take

lemma Inv.take (h : Inv base brk₀ s S) {n prevp p : ℕ} (hn : 0 < n)
    (hprev : prevp ∈ base :: frees S) (hp : s.ptr prevp = p) (hfit : n ≤ s.size p) :
    ∃ S', Allocated base brk₀ s S n (take s n prevp p).1 (take s n prevp p).2 S' := by
  have hempty := h.ring.empty
  have hpmem : p ∈ frees S := by
    have hmem := h.ring.cycle.next_mem hprev
    rw [hp] at hmem
    rcases List.mem_cons.mp hmem with rfl | hmem
    · omega
    · exact hmem
  obtain ⟨g, hgS, hg, rfl⟩ := mem_frees.mp hpmem
  obtain ⟨S₁, S₂, rfl⟩ := List.append_of_mem hgS
  have hsize : s.size g.addr = g.units := h.size g (by simp)
  rw [hsize] at hfit
  unfold Malloc.take
  rw [hsize]
  by_cases heq : g.units = n
  · rw [if_pos heq]
    exact h.takeWhole hg hn hprev hp heq
  · rw [if_neg heq]
    simp only [size_set_self]
    exact h.takeEnd hg hn hprev (by omega)

/-! ## More memory -/

/-- `sbrk` lets the heap grow to less than 2^36 bytes, that is to less than 2^32 headers. -/
def Bounded (brk₀ : ℕ) (sbrk : Sbrk) : Prop := ∀ b k, sbrk b k = true → b + k < brk₀ + 2 ^ 36

structure Grown (base brk₀ : ℕ) (s : State) (S : List Seg) (n : ℕ) (s' : State) (S' : List Seg) :
    Prop where
  inv : Inv base brk₀ s' S'
  lives : lives S' = Malloc.lives S
  count : (frees S').length ≤ (frees S).length + 1
  frame : Frame S s s'
  fits : n ≤ s'.size (s'.ptr s'.freep) ∨ n ≤ s'.size s'.freep

lemma Inv.morecore (h : Inv base brk₀ s S) {sbrk : Sbrk} (hsbrk : Bounded brk₀ sbrk) (n : ℕ) :
    morecore sbrk s n = some (0, s) ∨
      ∃ s' S', morecore sbrk s n = some (s'.freep, s') ∧ Grown base brk₀ s S n s' S' := by
  unfold Malloc.morecore
  obtain ⟨nu, hnu⟩ : ∃ nu, nu = if n < 4096 then 4096 else n := ⟨_, rfl⟩
  rw [← hnu]
  have hle : n ≤ nu ∧ 0 < nu := by
    rw [hnu]
    split <;> omega
  rcases hok : sbrk s.brk (16 * nu) with _ | _
  · exact .inl (if_neg (by rw [hok]; exact Bool.false_ne_true))
  right
  -- the new memory is a live block until it is freed
  obtain ⟨t, ht⟩ : ∃ t, t = ({ s with brk := s.brk + 16 * nu } : State).set s.brk
      ⟨s.ptr s.brk, nu⟩ := ⟨_, rfl⟩
  have hmem : ∀ a, a ≠ s.brk → t.mem a = s.mem a := fun a ha => by
    rw [ht]
    exact update_of_ne ha _ _
  have hlt := h.tiles.le
  have hbelow := h.below
  have hlow : ∀ a ∈ base :: frees S, a < s.brk := by
    intro a ha
    rcases List.mem_cons.mp ha with rfl | ha
    · omega
    · exact (h.tiles.lt_of_mem_frees ha).2
  have hfr : frees (S ++ [⟨s.brk, nu, true⟩]) = frees S := by
    rw [frees_split rfl]
    exact List.append_nil _
  have hinv : Inv base brk₀ t (S ++ [⟨s.brk, nu, true⟩]) := by
    refine ⟨?_, ?_, fun a ha => ?_, ⟨?_, ?_, ?_⟩, hbelow, ?_⟩
    · rw [ht]
      exact Tiles.append.mpr ⟨s.brk, h.tiles, rfl, hle.2, rfl⟩
    · rw [NoAdj, List.isChain_append]
      refine ⟨h.noAdj, List.isChain_singleton _, fun x _ z hz => .inr ?_⟩
      rw [← Option.some.inj hz]
    · rcases List.mem_append.mp ha with ha | ha
      · have hm := h.tiles.mem ha
        unfold Seg.stop at hm
        rw [← h.size a ha]
        exact size_congr (hmem _ (by omega))
      · rw [List.mem_singleton.mp ha, ht]
        exact size_set_self _ _ _
    · rw [hfr]
      exact h.ring.cycle.congr fun a ha => ptr_congr (hmem a (hlow a ha).ne)
    · rw [hfr, ht]
      exact h.ring.start
    · rw [← h.ring.empty]
      exact size_congr (hmem base (hlow base List.mem_cons_self).ne)
    · rw [ht]
      exact hsbrk _ _ hok
  obtain ⟨s', S', hcall, hfreed⟩ := hinv.free rfl
  refine ⟨s', S', ?_, hfreed.inv, ?_, ?_, fun g hg hlive a hlo hhi => ?_, ?_⟩
  · refine (if_pos hok).trans ?_
    change (Malloc.free (({ s with brk := s.brk + 16 * nu } : State).set s.brk ⟨s.ptr s.brk, nu⟩)
      (s.brk + 16)).map _ = _
    rw [← ht, hcall]
    rfl
  · rw [hfreed.lives]
    exact List.append_nil _
  · have hcount := hfreed.count
    rwa [List.append_nil] at hcount
  · have hm := h.tiles.mem hg
    rw [hfreed.mem a (by change a ≠ s.brk; omega) (h.ne_of_live hg hlive hlo hhi),
      hmem a (by omega)]
  · rcases hfreed.fits with hf | hf
    · exact .inl (hle.1.trans hf)
    · exact .inr (hle.1.trans hf)

/-! ## The loop -/

lemma mallocLoop_walk (h : Inv base brk₀ s S) (sbrk : Sbrk) (n : ℕ) (d : ℕ) :
    ∀ prevp fuel, prevp ∈ base :: frees S → d < fuel → s.ptr^[d] (s.ptr prevp) = s.freep →
      (∃ q ∈ base :: frees S, n ≤ s.size (s.ptr q) ∧
        mallocLoop sbrk n fuel s prevp (s.ptr prevp) = some (take s n q (s.ptr q))) ∨
      (s.size s.freep < n ∧ ∃ fuel', fuel ≤ fuel' + d + 1 ∧
        mallocLoop sbrk n fuel s prevp (s.ptr prevp) =
          match morecore sbrk s n with
          | none => none
          | some (p, s) => if p = 0 then some (0, s)
            else mallocLoop sbrk n fuel' s p (s.ptr p)) := by
  induction d with
  | zero =>
    intro prevp fuel hprev hfuel hit
    obtain ⟨fuel, rfl⟩ : ∃ k, fuel = k + 1 := ⟨fuel - 1, by omega⟩
    have hit : s.ptr prevp = s.freep := hit
    rw [mallocLoop]
    by_cases hfit : n ≤ s.size (s.ptr prevp)
    · exact .inl ⟨prevp, hprev, hfit, if_pos hfit⟩
    · rw [if_neg hfit, if_pos hit]
      rw [hit] at hfit
      exact .inr ⟨by omega, fuel, by omega, rfl⟩
  | succ d ih =>
    intro prevp fuel hprev hfuel hit
    obtain ⟨fuel, rfl⟩ : ∃ k, fuel = k + 1 := ⟨fuel - 1, by omega⟩
    rw [mallocLoop]
    by_cases hfit : n ≤ s.size (s.ptr prevp)
    · exact .inl ⟨prevp, hprev, hfit, if_pos hfit⟩
    rw [if_neg hfit]
    by_cases hstart : s.ptr prevp = s.freep
    · rw [if_pos hstart]
      rw [hstart] at hfit
      exact .inr ⟨by omega, fuel, by omega, rfl⟩
    rw [if_neg hstart]
    rcases ih (s.ptr prevp) fuel (h.ring.cycle.next_mem hprev) (by omega) hit with
      hfound | ⟨hlt, fuel', hle, heq⟩
    · exact .inl hfound
    · exact .inr ⟨hlt, fuel', by omega, heq⟩

/-- What `malloc` has done. -/
def Returns (base brk₀ : ℕ) (s : State) (S : List Seg) (n ap : ℕ) (s' : State) : Prop :=
  (ap = 0 ∧ s' = s) ∨ (ap ≠ 0 ∧ ∃ S', Allocated base brk₀ s S n ap s' S')

lemma take_ne_zero (s : State) (n prevp p : ℕ) : (take s n prevp p).1 ≠ 0 := by
  unfold take
  split
  · exact Nat.succ_ne_zero _
  · exact Nat.succ_ne_zero _

lemma Inv.mallocLoop (h : Inv base brk₀ s S) (hbase : 0 < base) {sbrk : Sbrk}
    (hsbrk : Bounded brk₀ sbrk) {n : ℕ} (hn : 0 < n) :
    ∃ ap s', mallocLoop sbrk n (4 * s.brk + 8) s s.freep (s.ptr s.freep) = some (ap, s') ∧
      Returns base brk₀ s S n ap s' := by
  have hlen := h.length_le
  obtain ⟨d, hd, hit⟩ := h.ring.cycle.reach_cycle (h.ring.cycle.next_mem h.ring.start) h.ring.start
  rcases mallocLoop_walk h sbrk n d s.freep (4 * s.brk + 8) h.ring.start (by omega) hit with
    ⟨q, hq, hfit, heq⟩ | ⟨-, fuel, hfuel, heq⟩
  · exact ⟨_, _, heq, .inr ⟨take_ne_zero _ _ _ _, h.take hn hq rfl hfit⟩⟩
  rw [heq]
  rcases h.morecore hsbrk n with hfail | ⟨t, T, hmore, hgrown⟩
  · rw [hfail]
    exact ⟨0, s, rfl, .inl ⟨rfl, rfl⟩⟩
  have hne : t.freep ≠ 0 := by
    rcases List.mem_cons.mp hgrown.inv.ring.start with hstart | hstart
    · omega
    · have := (hgrown.inv.tiles.lt_of_mem_frees hstart).1
      have := h.below
      omega
  rw [hmore]
  simp only [if_neg hne]
  have hallocated : ∀ {ap s' S'}, Allocated base brk₀ t T n ap s' S' →
      Allocated base brk₀ s S n ap s' S' := by
    intro ap s' S' ha
    refine ⟨ha.inv, ?_, ha.block, fun g hg hlive a hlo hhi => ?_⟩
    · rw [← hgrown.lives]
      exact ha.lives
    · -- the block is still one of the blocks
      have hgT : g.addr + 16 ∈ lives T := by
        rw [hgrown.lives]
        exact mem_lives.mpr ⟨g, hg, hlive, rfl⟩
      obtain ⟨b, hb, hblive, hbaddr⟩ := mem_lives.mp hgT
      have hpos := (h.tiles.mem hg).2.1
      have hbsize := hgrown.inv.size b hb
      have hbg : b.addr = g.addr := by omega
      have hgsize : t.size g.addr = g.units := by
        rw [← h.size g hg]
        exact size_congr (hgrown.frame g hg hlive _ le_rfl (by unfold Seg.stop; omega))
      rw [hbg, hgsize] at hbsize
      rw [ha.frame b hb hblive a (by omega) (by unfold Seg.stop at hhi ⊢; omega),
        hgrown.frame g hg hlive a hlo hhi]
  have hcount := hgrown.count
  by_cases hfit : n ≤ t.size (t.ptr t.freep)
  · obtain ⟨fuel, rfl⟩ : ∃ k, fuel = k + 1 := ⟨fuel - 1, by omega⟩
    obtain ⟨S', hS'⟩ := hgrown.inv.take hn hgrown.inv.ring.start rfl hfit
    refine ⟨_, _, ?_, .inr ⟨take_ne_zero _ _ _ _, S', hallocated hS'⟩⟩
    rw [Malloc.mallocLoop, if_pos hfit]
  obtain ⟨e, he, hit'⟩ := hgrown.inv.ring.cycle.reach_cycle
    (hgrown.inv.ring.cycle.next_mem hgrown.inv.ring.start) hgrown.inv.ring.start
  rcases mallocLoop_walk hgrown.inv sbrk n e t.freep fuel hgrown.inv.ring.start (by omega) hit'
    with ⟨q, hq, hfit', heq'⟩ | ⟨hlt, -⟩
  · obtain ⟨S', hS'⟩ := hgrown.inv.take hn hq rfl hfit'
    exact ⟨_, _, heq', .inr ⟨take_ne_zero _ _ _ _, S', hallocated hS'⟩⟩
  · rcases hgrown.fits with hf | hf <;> omega

end Xv6.Malloc
