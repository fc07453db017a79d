import Xv6Kernel.Malloc.Alloc

/-!
# The allocator over whole runs

`Sound` is what a program may rely on: the list of free blocks is a cycle in the order of the
addresses, the free and the live blocks divide the memory obtained from `sbrk` among them, and no
two free blocks touch.
-/

namespace Xv6.Malloc

/-- The list of free blocks `A` and the live blocks are as they should be. -/
structure Sound (base brk₀ : ℕ) (s : State) (live A : List ℕ) : Prop where
  /-- The list is a cycle through `base`; before the first call there is none. -/
  list : (s.freep = 0 ∧ A = []) ∨ (Follows s.ptr base A base ∧ s.freep ∈ base :: A)
  sorted : (base :: A).Pairwise (· < ·)
  within : ∀ b ∈ A ++ live.map (· - 16), brk₀ ≤ b ∧ 0 < s.size b ∧ b + 16 * s.size b ≤ s.brk
  disjoint : (A ++ live.map (· - 16)).Pairwise fun a b =>
    a + 16 * s.size a ≤ b ∨ b + 16 * s.size b ≤ a
  cover : ∀ x, brk₀ ≤ x → x < s.brk →
    ∃ b ∈ A ++ live.map (· - 16), b ≤ x ∧ x < b + 16 * s.size b
  apart : ∀ a ∈ A, ∀ b ∈ A, a + 16 * s.size a ≠ b

variable {base brk₀ : ℕ} {s s' : State} {S : List Seg} {live : List ℕ}

lemma frees_lives_perm (S : List Seg) :
    (frees S ++ (lives S).map (· - 16)).Perm (S.map Seg.addr) := by
  have hlives : (lives S).map (· - 16) = (S.filter fun g => g.live).map Seg.addr := by
    rw [lives, List.map_map]
    exact List.map_congr_left fun g _ => Nat.add_sub_cancel _ _
  rw [hlives, frees, ← List.map_append]
  refine List.Perm.map _ (List.perm_append_comm.trans ?_)
  exact List.filter_append_perm _ S

lemma Inv.sound (h : Inv base brk₀ s S) (hlive : live.Perm (lives S)) :
    Sound base brk₀ s live (frees S) := by
  have hperm : (frees S ++ live.map (· - 16)).Perm (S.map Seg.addr) :=
    (List.Perm.append_left _ (hlive.map _)).trans (frees_lives_perm S)
  have hmem : ∀ b, b ∈ frees S ++ live.map (· - 16) ↔ ∃ g ∈ S, g.addr = b := fun b => by
    rw [hperm.mem_iff, List.mem_map]
  refine ⟨.inr ⟨h.ring.cycle, h.ring.start⟩, h.sorted, fun b hb => ?_, ?_, fun x hlo hhi => ?_,
    fun a ha b hb hab => ?_⟩
  · obtain ⟨g, hg, rfl⟩ := (hmem b).mp hb
    obtain ⟨h1, h2, h3⟩ := h.tiles.mem hg
    rw [h.size g hg]
    exact ⟨h1, h2, h3⟩
  · refine (hperm.pairwise_iff fun {a b} hab => hab.symm).mpr ?_
    rw [List.pairwise_map]
    refine (List.Pairwise.and_mem.mp h.tiles.pairwise).imp fun {a b} hab => .inl ?_
    rw [h.size a hab.1]
    exact hab.2.2
  · obtain ⟨g, hg, h1, h2⟩ := h.tiles.cover hlo hhi
    refine ⟨g.addr, (hmem _).mpr ⟨g, hg, rfl⟩, h1, ?_⟩
    rw [h.size g hg]
    exact h2
  · -- the block behind a free block is live
    obtain ⟨g, hg, hgfree, rfl⟩ := mem_frees.mp ha
    obtain ⟨c, hc, hcfree, rfl⟩ := mem_frees.mp hb
    rw [h.size g hg] at hab
    obtain ⟨S1, S2, rfl⟩ := List.append_of_mem hg
    have hchain := (List.isChain_append.mp h.noAdj).2.1
    obtain ⟨mid, -, hmid, hpos, htop⟩ := Tiles.append.mp h.tiles
    cases S2 with
    | nil =>
      have hbrk : g.addr + 16 * g.units = s.brk := htop
      have hcpos := h.tiles.mem hc
      unfold Seg.stop at hcpos
      omega
    | cons b T =>
      obtain ⟨hb', hbpos, -⟩ := htop
      have heq : c = b := h.tiles.eq_of_addr hc (by simp) (x := c.addr)
        ⟨le_rfl, by
          have := (h.tiles.mem hc).2.1
          unfold Seg.stop
          omega⟩
        ⟨by
          unfold Seg.stop at hb'
          omega, by
          unfold Seg.stop at hb' ⊢
          omega⟩
      rw [List.isChain_cons_cons, hgfree, ← heq, hcfree] at hchain
      rcases hchain.1 with h' | h' <;> cases h'

def Heap (base brk₀ : ℕ) (s : State) (live : List ℕ) : Prop :=
  (s.freep = 0 ∧ s.brk = brk₀ ∧ live = []) ∨ ∃ S, Inv base brk₀ s S ∧ live.Perm (lives S)

lemma Heap.sound (h : Heap base brk₀ s live) : ∃ A, Sound base brk₀ s live A := by
  rcases h with ⟨h1, h2, rfl⟩ | ⟨S, hS, hlive⟩
  · refine ⟨[], .inl ⟨h1, rfl⟩, List.pairwise_singleton _ _, fun b hb => (nomatch hb), .nil,
      fun x hlo hhi => ?_, fun a ha => (nomatch ha)⟩
    omega
  · exact ⟨_, hS.sound hlive⟩

/-- What `malloc` guarantees. -/
structure Granted (s : State) (live : List ℕ) (n ap : ℕ) (s' : State) : Prop where
  align : ap % 16 = 0
  size : n ≤ 16 * s'.size (ap - 16) - 16
  disjoint : ∀ v ∈ live, ap - 16 + 16 * s'.size (ap - 16) ≤ v - 16 ∨
    v - 16 + 16 * s.size (v - 16) ≤ ap - 16

def Untouched (s s' : State) (live : List ℕ) : Prop :=
  ∀ v ∈ live, ∀ a, v - 16 ≤ a → a < v - 16 + 16 * s.size (v - 16) → s'.mem a = s.mem a

lemma Inv.untouched (h : Inv base brk₀ s S) (hlive : live.Perm (lives S)) (hf : Frame S s s') :
    Untouched s s' live := by
  intro v hv a hlo hhi
  obtain ⟨g, hg, hgl, rfl⟩ := mem_lives.mp (hlive.mem_iff.mp hv)
  rw [Nat.add_sub_cancel] at hlo hhi
  rw [h.size g hg] at hhi
  exact hf g hg hgl a hlo hhi

lemma Inv.malloc (h : Inv base brk₀ s S) (hbase : 0 < base) (halign : brk₀ % 16 = 0)
    (hlive : live.Perm (lives S)) {sbrk : Sbrk} (hsbrk : Bounded brk₀ sbrk) (n : ℕ) :
    ∃ ap s', Malloc.mallocLoop sbrk (units n) (4 * s.brk + 8) s s.freep (s.ptr s.freep) =
        some (ap, s') ∧
      Heap base brk₀ s' (if ap = 0 then live else ap :: live) ∧
      (ap ≠ 0 → Granted s live n ap s') ∧ Untouched s s' live := by
  have hpos : 0 < units n := Nat.succ_pos _
  obtain ⟨ap, s', hcall, hret⟩ := h.mallocLoop hbase hsbrk hpos
  refine ⟨ap, s', hcall, ?_⟩
  rcases hret with ⟨rfl, rfl⟩ | ⟨hne, S', ha⟩
  · exact ⟨.inr ⟨S, h, hlive⟩, fun h => absurd rfl h, fun _ _ _ _ _ => rfl⟩
  rw [if_neg hne]
  have hperm : (ap :: live).Perm (lives S') := (hlive.cons ap).trans ha.lives.symm
  refine ⟨.inr ⟨S', ha.inv, hperm⟩, fun _ => ?_, h.untouched hlive ha.frame⟩
  obtain ⟨g, hg, hgl, rfl, hgu⟩ := ha.block
  have hsize : s'.size g.addr = units n := (ha.inv.size g hg).trans hgu
  refine ⟨?_, ?_, fun v hv => ?_⟩
  · have := ha.inv.tiles.align halign hg
    omega
  · rw [Nat.add_sub_cancel, hsize]
    unfold units
    omega
  · obtain ⟨b, hb, hbl, rfl⟩ := mem_lives.mp (hlive.mem_iff.mp hv)
    have hsound := (ha.inv.sound hperm).disjoint
    rw [List.pairwise_append, List.map_cons, List.pairwise_cons] at hsound
    have hdis := hsound.2.1.1 (b.addr + 16 - 16) (List.mem_map_of_mem hv)
    rw [Nat.add_sub_cancel, Nat.add_sub_cancel] at hdis ⊢
    have hbs : s'.size b.addr = s.size b.addr := size_congr (ha.frame b hb hbl _ le_rfl (by
      have := (h.tiles.mem hb).2.1
      unfold Seg.stop
      omega))
    rwa [hbs] at hdis

lemma Inv.init (hb : base < brk₀) (hbrk : s.brk = brk₀) :
    Inv base brk₀ { s.set base ⟨base, 0⟩ with freep := base } [] where
  tiles := hbrk.symm
  noAdj := List.isChain_nil
  size g hg := nomatch hg
  ring := ⟨ptr_set_self _ _ _, List.mem_cons_self, size_set_self _ _ _⟩
  below := hb
  bound := by
    change s.brk < _
    omega

lemma Heap.malloc (h : Heap base brk₀ s live) (hbase : 0 < base) (hb : base < brk₀)
    (halign : brk₀ % 16 = 0) {sbrk : Sbrk} (hsbrk : Bounded brk₀ sbrk) (n : ℕ) :
    ∃ ap s', malloc base sbrk s n = some (ap, s') ∧
      Heap base brk₀ s' (if ap = 0 then live else ap :: live) ∧
      (ap ≠ 0 → Granted s live n ap s') ∧ Untouched s s' live := by
  unfold Malloc.malloc
  rcases h with ⟨h1, h2, rfl⟩ | ⟨S, hS, hlive⟩
  · obtain ⟨ap, s', hcall, hheap, hgr, -⟩ :=
      (Inv.init hb h2).malloc hbase halign (List.Perm.refl []) hsbrk n
    rw [if_pos h1]
    refine ⟨ap, s', hcall, hheap, fun hne => ?_, fun v hv => (nomatch hv)⟩
    obtain ⟨ha, hs, -⟩ := hgr hne
    exact ⟨ha, hs, fun v hv => (nomatch hv)⟩
  have hne : s.freep ≠ 0 := by
    rcases List.mem_cons.mp hS.ring.start with hstart | hstart
    · omega
    · have := (hS.tiles.lt_of_mem_frees hstart).1
      omega
  rw [if_neg hne]
  exact hS.malloc hbase halign hlive hsbrk n

lemma Heap.free (h : Heap base brk₀ s live) {ap : ℕ} (hap : ap ∈ live) :
    ∃ s', free s ap = some s' ∧ Heap base brk₀ s' (live.erase ap) ∧
      Untouched s s' (live.erase ap) := by
  rcases h with ⟨-, -, rfl⟩ | ⟨S, hS, hlive⟩
  · cases hap
  obtain ⟨g, hg, hgl, rfl⟩ := mem_lives.mp (hlive.mem_iff.mp hap)
  obtain ⟨S1, S2, rfl⟩ := List.append_of_mem hg
  obtain ⟨s', S', hcall, hfreed⟩ := hS.free hgl
  have hsplit : lives (S1 ++ g :: S2) = lives S1 ++ (g.addr + 16) :: lives S2 := by
    rw [lives_append, lives_cons_live hgl]
  have hcons : live.Perm ((g.addr + 16) :: (lives S1 ++ lives S2)) := by
    rw [hsplit] at hlive
    exact hlive.trans List.perm_middle
  have herase : (live.erase (g.addr + 16)).Perm (lives S1 ++ lives S2) := by
    have := hcons.erase (g.addr + 16)
    rwa [List.erase_cons_head] at this
  refine ⟨s', hcall, .inr ⟨S', hfreed.inv, by rw [hfreed.lives]; exact herase⟩,
    fun v hv a hlo hhi => ?_⟩
  rw [herase.mem_iff, List.mem_append, mem_lives, mem_lives] at hv
  obtain ⟨b, hb, hbl, rfl⟩ : ∃ b, (b ∈ S1 ∨ b ∈ S2) ∧ b.live = true ∧ b.addr + 16 = v := by
    rcases hv with ⟨b, hb, h'⟩ | ⟨b, hb, h'⟩
    · exact ⟨b, .inl hb, h'⟩
    · exact ⟨b, .inr hb, h'⟩
  have hbS : b ∈ S1 ++ g :: S2 := by
    rcases hb with hb | hb <;> simp [hb]
  rw [Nat.add_sub_cancel] at hlo hhi
  rw [hS.size b hbS] at hhi
  have hnot := hS.ne_of_live hbS hbl hlo hhi
  refine hfreed.mem a (fun hag => ?_) fun ha => hnot ?_
  · have hpos := hS.units_pos
    have heq := hS.tiles.eq_of_addr hbS hg ⟨hlo, hhi⟩
      ⟨hag.ge, by rw [hag]; unfold Seg.stop; omega⟩
    exact hS.addr_ne hb le_rfl (by unfold Seg.stop; omega) (by rw [heq])
  · rw [frees_append]
    exact List.mem_append_left _ ha

lemma Heap.store (h : Heap base brk₀ s live) {ap a : ℕ} (hap : ap ∈ live) (hlo : ap ≤ a)
    (hhi : a < ap - 16 + 16 * s.size (ap - 16)) (v : Header) : Heap base brk₀ (s.set a v) live := by
  rcases h with ⟨-, -, rfl⟩ | ⟨S, hS, hlive⟩
  · cases hap
  obtain ⟨g, hg, hgl, rfl⟩ := mem_lives.mp (hlive.mem_iff.mp hap)
  rw [Nat.add_sub_cancel, hS.size g hg] at hhi
  have hnode := hS.ne_of_live hg hgl (a := a) (by omega) hhi
  have hmem : ∀ b, b ≠ a → (s.set a v).mem b = s.mem b := fun b hb => mem_set_of_ne v hb
  have hring : ∀ b ∈ base :: frees S, (s.set a v).mem b = s.mem b := fun b hb =>
    hmem b fun hba => hnode (by rwa [← hba])
  refine .inr ⟨S, ⟨hS.tiles, hS.noAdj, fun b hb => ?_, ⟨?_, hS.ring.start, ?_⟩, hS.below, hS.bound⟩,
    hlive⟩
  · rw [← hS.size b hb]
    refine size_congr (hmem _ fun hba => ?_)
    have hpos := (hS.tiles.mem hb).2.1
    have heq := hS.tiles.eq_of_addr hb hg (x := a)
      ⟨hba.le, by rw [← hba]; unfold Seg.stop; omega⟩ ⟨by omega, hhi⟩
    rw [heq] at hba
    omega
  · exact hS.ring.cycle.congr fun b hb => ptr_congr (hring b hb)
  · rw [← hS.ring.empty]
    exact size_congr (hring base List.mem_cons_self)

lemma Runs.heap (hbase : 0 < base) (hb : base < brk₀) (halign : brk₀ % 16 = 0)
    (h : Runs (Bounded brk₀) base brk₀ s live) : Heap base brk₀ s live := by
  induction h with
  | start s hfreep hbrk => exact .inl ⟨hfreep, hbrk, rfl⟩
  | malloc _ hsbrk _ hcall ih =>
    obtain ⟨ap, s', hcall', hheap, -⟩ := ih.malloc hbase hb halign hsbrk _
    rw [hcall] at hcall'
    obtain ⟨rfl, rfl⟩ := Prod.mk.inj (Option.some.inj hcall')
    exact hheap
  | free _ hap hcall ih =>
    obtain ⟨s', hcall', hheap, -⟩ := ih.free hap
    rw [hcall] at hcall'
    rw [Option.some.inj hcall']
    exact hheap
  | store _ hap hlo _ hhi ih => exact ih.store hap hlo hhi _

/-- **The allocator is sound in every run in which `sbrk` keeps the heap below 2^36 bytes.**  In
every state, the lists and blocks are as they should be, `malloc` and `free` return, a block that
`malloc` returns is aligned, large enough and disjoint from the live ones, and neither modifies a
live block. -/
theorem malloc_free_sound (hbase : 0 < base) (hb : base < brk₀) (halign : brk₀ % 16 = 0)
    (h : Runs (Bounded brk₀) base brk₀ s live) : (∃ A, Sound base brk₀ s live A) ∧
    (∀ (sbrk : Sbrk) (n : ℕ), Bounded brk₀ sbrk → 16 * units n < 2 ^ 31 →
      ∃ ap s', malloc base sbrk s n = some (ap, s') ∧ (ap ≠ 0 → Granted s live n ap s') ∧
        Untouched s s' live) ∧
    ∀ ap ∈ live, ∃ s', free s ap = some s' ∧ Untouched s s' (live.erase ap) := by
  have hheap := h.heap hbase hb halign
  refine ⟨hheap.sound, fun sbrk n hsbrk _ => ?_, fun ap hap => ?_⟩
  · obtain ⟨ap, s', hcall, -, hgr, hun⟩ := hheap.malloc hbase hb halign hsbrk n
    exact ⟨ap, s', hcall, hgr, hun⟩
  · obtain ⟨s', hcall, -, hun⟩ := hheap.free hap
    exact ⟨s', hcall, hun⟩

/-! ## Runs of calls -/

def start (brk₀ : ℕ) : State := ⟨fun _ => ⟨0, 0⟩, 0, brk₀⟩

/-- `k` calls of `malloc`. -/
def mallocs (base : ℕ) (sbrk : Sbrk) (n : ℕ) : ℕ → State → List ℕ → Option (State × List ℕ)
  | 0, s, live => some (s, live)
  | k + 1, s, live =>
    match malloc base sbrk s n with
    | none => none
    | some (ap, s) => mallocs base sbrk n k s (if ap = 0 then live else ap :: live)

/-- Calls of `free` for all live blocks, the last one first. -/
def freeAll (s : State) (live : List ℕ) : Option State := live.foldlM free s

lemma Runs.mallocs {P : Sbrk → Prop} {sbrk : Sbrk} {n : ℕ} (hsbrk : P sbrk)
    (hn : 16 * units n < 2 ^ 31) (k : ℕ) : ∀ {s : State} {live : List ℕ} {r : State × List ℕ},
      Runs P base brk₀ s live → mallocs base sbrk n k s live = some r → Runs P base brk₀ r.1 r.2 := by
  induction k with
  | zero =>
    intro s live r h hr
    rw [← Option.some.inj hr]
    exact h
  | succ k ih =>
    intro s live r h hr
    rw [Malloc.mallocs] at hr
    split at hr
    · cases hr
    rename_i q hcall
    exact ih (h.malloc hsbrk hn hcall) hr

lemma Runs.freeAll {P : Sbrk → Prop} : ∀ {live : List ℕ} {s s' : State},
    Runs P base brk₀ s live → freeAll s live = some s' → Runs P base brk₀ s' [] := by
  intro live
  induction live with
  | nil =>
    intro s s' h hr
    rw [← Option.some.inj hr]
    exact h
  | cons ap live ih =>
    intro s s' h hr
    rw [Malloc.freeAll, List.foldlM_cons] at hr
    rcases hcall : Malloc.free s ap with _ | t
    · rw [hcall] at hr
      cases hr
    rw [hcall] at hr
    have hstep := h.free List.mem_cons_self hcall
    rw [List.erase_cons_head] at hstep
    exact ih hstep hr

def largeRun : Option State :=
  match mallocs 64 (fun _ _ => true) (2 ^ 31 - 32) 33 (start 4096) [] with
  | none => none
  | some r => freeAll r.1 r.2

lemma largeRun_eq : largeRun.map (fun s => (s.freep, s.ptr 64, s.ptr 4096, s.size 4096, s.brk)) =
    some (64, 4096, 64, 134217695, 70866963952) := by
  decide +kernel

/-- When `sbrk` never fails, the heap does not stay sound. -/
theorem malloc_free_overflow :
    ∃ s, Runs (fun _ => True) 64 4096 s [] ∧ ¬∃ A, Sound 64 4096 s [] A := by
  have heq := largeRun_eq
  have hrun : ∀ s, largeRun = some s → Runs (fun _ => True) 64 4096 s [] := by
    intro s hs
    unfold largeRun at hs
    rcases hm : mallocs 64 (fun _ _ => true) (2 ^ 31 - 32) 33 (start 4096) [] with _ | r
    · rw [hm] at hs
      cases hs
    rw [hm] at hs
    exact (Runs.mallocs (P := fun _ => True) trivial (by decide) 33 (.start _ rfl rfl)
      hm).freeAll hs
  rcases hlarge : largeRun with _ | s
  · rw [hlarge] at heq
    cases heq
  rw [hlarge] at heq
  have heq : (s.freep, s.ptr 64, s.ptr 4096, s.size 4096, s.brk) =
      (64, 4096, 64, 134217695, 70866963952) := Option.some.inj heq
  simp only [Prod.mk.injEq] at heq
  obtain ⟨hfreep, hbase, hptr, hsize, hbrk⟩ := heq
  refine ⟨s, hrun s hlarge, fun ⟨A, hA⟩ => ?_⟩
  have hcycle : Follows s.ptr 64 A 64 := by
    rcases hA.list with ⟨hzero, -⟩ | ⟨hcycle, -⟩
    · omega
    · exact hcycle
  -- the only free block is the one at 4096
  have hA' : ∀ b ∈ A, b = 4096 := by
    cases A with
    | nil => exact fun b hb => (nomatch hb)
    | cons a A =>
      have ha : a = 4096 := hcycle.1.symm.trans hbase
      cases A with
      | nil => exact fun b hb => (List.mem_singleton.mp hb).trans ha
      | cons c A =>
        have hc : s.ptr a = c := hcycle.2.1
        rw [ha, hptr] at hc
        have hlt := List.rel_of_pairwise_cons hA.sorted (show c ∈ a :: c :: A by simp)
        omega
  obtain ⟨b, hb, -, hlt⟩ := hA.cover 70866963951 (by decide) (by omega)
  rw [List.map_nil, List.append_nil] at hb
  rw [hA' b hb, hsize] at hlt
  omega

/-- A program that allocates and frees a block. -/
theorem malloc_free_sound_one : ∃ s, Runs (Bounded 4096) 64 4096 s [] ∧ ∃ A, Sound 64 4096 s [] A := by
  have hmap : ((mallocs 64 (fun b k => decide (b + k < 2 ^ 36)) 100 1 (start 4096) []).bind
      fun r => freeAll r.1 r.2).isSome = true := by
    decide +kernel
  obtain ⟨s, hs⟩ := Option.isSome_iff_exists.mp hmap
  obtain ⟨r, hr, hs⟩ := Option.bind_eq_some_iff.mp hs
  have hbound : Bounded 4096 fun b k => decide (b + k < 2 ^ 36) := fun b k h => by
    have h := of_decide_eq_true h
    omega
  have hrun := (Runs.mallocs hbound (by decide) 1 (.start (start 4096) rfl rfl) hr).freeAll hs
  exact ⟨s, hrun, (malloc_free_sound (by decide) (by decide) (by decide) hrun).1⟩

end Xv6.Malloc
