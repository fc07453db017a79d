import Xv6Kernel.Malloc.Sound
import Mathlib.Algebra.Order.Ring.Int

/-!
# The argument of sbrk

`morecore` computes the number of bytes as an unsigned number of 64 bits and passes it as an `int`;
the header of the new block is filled from the number of units.
-/

namespace Xv6.Malloc

/-- The argument of `sbrk`: `nu * sizeof(Header)` as an `int`. -/
def sbrkArg (nu : ℕ) : ℤ :=
  let n : ℕ := 16 * nu % 2 ^ 32
  if n < 2 ^ 31 then n else n - 2 ^ 32

/-- The number of units that `morecore` asks for. -/
def asked (nu : ℕ) : ℕ := if nu < 4096 then 4096 else nu

/-- `morecore`; `sbrk` says whether the break may move by a number of bytes. -/
def morecoreInt (sbrk : ℕ → ℤ → Bool) (s : State) (nu : ℕ) : Option (ℕ × State) :=
  let nu := asked nu
  if sbrk s.brk (sbrkArg nu) then
    let hp := s.brk
    let s := { s with brk := (s.brk + sbrkArg nu).toNat }
    let s := s.set hp ⟨s.ptr hp, nu⟩
    (free s (hp + 16)).map fun s => (s.freep, s)
  else some (0, s)

def mallocLoopInt (sbrk : ℕ → ℤ → Bool) (nunits : ℕ) : ℕ → State → ℕ → ℕ → Option (ℕ × State)
  | 0, _, _, _ => none
  | fuel + 1, s, prevp, p =>
    if nunits ≤ s.size p then some (take s nunits prevp p)
    else if p = s.freep then
      match morecoreInt sbrk s nunits with
      | none => none
      | some (p, s) => if p = 0 then some (0, s) else mallocLoopInt sbrk nunits fuel s p (s.ptr p)
    else mallocLoopInt sbrk nunits fuel s p (s.ptr p)

def mallocInt (base : ℕ) (sbrk : ℕ → ℤ → Bool) (s : State) (nbytes : ℕ) : Option (ℕ × State) :=
  let nunits := units nbytes
  let s := if s.freep = 0 then { s.set base ⟨base, 0⟩ with freep := base } else s
  mallocLoopInt sbrk nunits (4 * s.brk + 8) s s.freep (s.ptr s.freep)

variable {base brk₀ : ℕ} {s : State} {live : List ℕ}

lemma sbrkArg_eq_iff (nu : ℕ) : sbrkArg nu = (16 * nu : ℕ) ↔ 16 * nu < 2 ^ 31 := by
  rw [sbrkArg]
  split <;> omega

lemma sbrkArg_asked {nu : ℕ} (h : 16 * nu < 2 ^ 31) :
    sbrkArg (asked nu) = (16 * asked nu : ℕ) := by
  rw [sbrkArg_eq_iff, asked]
  split <;> omega

lemma morecoreInt_eq (sbrk : ℕ → ℤ → Bool) (s : State) {nu : ℕ} (h : 16 * nu < 2 ^ 31) :
    morecoreInt sbrk s nu = morecore (fun brk n => sbrk brk n) s nu := by
  have hbrk : ((s.brk : ℤ) + (16 * asked nu : ℕ)).toNat = s.brk + 16 * asked nu := by omega
  simp only [morecoreInt, sbrkArg_asked h, hbrk]
  rfl

lemma mallocLoopInt_eq (sbrk : ℕ → ℤ → Bool) {nunits : ℕ} (h : 16 * nunits < 2 ^ 31)
    (fuel : ℕ) (s : State) (prevp p : ℕ) :
    mallocLoopInt sbrk nunits fuel s prevp p =
      mallocLoop (fun brk n => sbrk brk n) nunits fuel s prevp p := by
  induction fuel generalizing s prevp p with
  | zero => rfl
  | succ fuel ih =>
    rw [mallocLoopInt]
    simp only [morecoreInt_eq sbrk s h, ih]
    rfl

lemma mallocInt_eq (base : ℕ) (sbrk : ℕ → ℤ → Bool) (s : State) {n : ℕ}
    (h : 16 * units n < 2 ^ 31) :
    mallocInt base sbrk s n = malloc base (fun brk n => sbrk brk n) s n :=
  mallocLoopInt_eq sbrk h _ _ _ _

/-- A block that `malloc` returns lies in the memory that comes from `sbrk`. -/
lemma Heap.malloc_backed (h : Heap base brk₀ s live) (hbase : 0 < base) (hb : base < brk₀)
    (halign : brk₀ % 16 = 0) {sbrk : Sbrk} (hsbrk : Bounded brk₀ sbrk) (n : ℕ) :
    ∃ ap s', Malloc.malloc base sbrk s n = some (ap, s') ∧
      (ap ≠ 0 → brk₀ ≤ ap - 16 ∧ ap + n ≤ s'.brk) := by
  obtain ⟨ap, s', hcall, hheap, hgr, -⟩ := h.malloc hbase hb halign hsbrk n
  refine ⟨ap, s', hcall, fun hne => ?_⟩
  rw [if_neg hne] at hheap
  obtain ⟨A, hA⟩ := hheap.sound
  obtain ⟨hlo, hpos, hhi⟩ := hA.within (ap - 16)
    (List.mem_append_right _ (List.mem_map_of_mem List.mem_cons_self))
  have hsize := (hgr hne).size
  exact ⟨hlo, by omega⟩

/-- For a request of `nbytes` bytes, `sbrk` is asked for the memory of the new block if and only if
this is less than 2^31 bytes; then a block that `malloc` returns has `nbytes` bytes of memory behind
its header. -/
theorem malloc_request_iff (hbase : 0 < base) (hb : base < brk₀) (halign : brk₀ % 16 = 0)
    (h : Runs (Bounded brk₀) base brk₀ s live) (nbytes : ℕ) :
    (sbrkArg (asked (units nbytes)) = (16 * asked (units nbytes) : ℕ) ∧
        0 < sbrkArg (asked (units nbytes)) ↔ 16 * units nbytes < 2 ^ 31) ∧
    (16 * units nbytes < 2 ^ 31 → ∀ sbrk : ℕ → ℤ → Bool, Bounded brk₀ (fun brk n => sbrk brk n) →
      ∃ ap s', mallocInt base sbrk s nbytes = some (ap, s') ∧
        (ap ≠ 0 → brk₀ ≤ ap - 16 ∧ ap + nbytes ≤ s'.brk)) := by
  refine ⟨?_, fun hn sbrk hsbrk => ?_⟩
  · constructor
    · rintro ⟨heq, -⟩
      rw [sbrkArg_eq_iff, asked] at heq
      split at heq <;> omega
    · intro hn
      have hask := sbrkArg_asked hn
      refine ⟨hask, ?_⟩
      rw [hask, asked]
      split <;> omega
  · rw [mallocInt_eq base sbrk s hn]
    exact (h.heap hbase hb halign).malloc_backed hbase hb halign hsbrk nbytes

/-- A request of 100 bytes. -/
theorem malloc_request_iff_small :
    ∃ ap s', mallocInt 64 (fun b k => b + k < 2 ^ 36) (start 4096) 100 = some (ap, s') ∧
      (ap ≠ 0 → 4096 ≤ ap - 16 ∧ ap + 100 ≤ s'.brk) := by
  refine (malloc_request_iff (by decide) (by decide) (by decide) (.start (start 4096) rfl rfl)
    100).2 (by decide) _ fun b k h => ?_
  have h := of_decide_eq_true h
  omega

/-- For a request of 2^32 - 1 bytes `sbrk` is asked for 16 bytes, and `malloc` returns a block with
no memory behind its header. -/
theorem malloc_request_wraps :
    (mallocInt 64 (fun b k => b + k < 2 ^ 36) (start 4096) (2 ^ 32 - 1)).map
      (fun x => (x.1, x.2.brk, x.2.size 4096)) = some (4112, 4112, 2 ^ 28 + 1) ∧
    sbrkArg (asked (units (2 ^ 32 - 1))) = 16 := by
  decide +kernel

end Xv6.Malloc
