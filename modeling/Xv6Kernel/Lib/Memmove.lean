import Xv6Kernel.Memory.Layout

/-!
# `memmove`

The two versions of `memmove`, that of `kernel/string.c` and that of `user/ulib.c`.  The length is a
`uint` in the kernel and an `int` in the library; the loops run as often as it is positive.
-/

namespace Xv6.Memmove

open Function

/-- `while(n-- > 0) *d++ = *s++`. -/
def forward : ℕ → ℕ → ℕ → (ℕ → UInt8) → ℕ → UInt8
  | 0, _, _, mem => mem
  | n + 1, d, s, mem => forward n (u64 (d + 1)) (u64 (s + 1)) (update mem d (mem s))

/-- `while(n-- > 0) *--d = *--s`. -/
def backward : ℕ → ℕ → ℕ → (ℕ → UInt8) → ℕ → UInt8
  | 0, _, _, mem => mem
  | n + 1, d, s, mem =>
    let d := u64 (d + 2 ^ 64 - 1)
    let s := u64 (s + 2 ^ 64 - 1)
    backward n d s (update mem d (mem s))

/-- `memmove` of the kernel. -/
def kernelMemmove (dst src : ℕ) (n : UInt32) (mem : ℕ → UInt8) : ℕ → UInt8 :=
  if n = 0 then mem
  else if src < dst ∧ u64 (src + n.toNat) > dst then
    backward n.toNat (u64 (dst + n.toNat)) (u64 (src + n.toNat)) mem
  else forward n.toNat dst src mem

/-- The pointer `p + n` for an `int`. -/
def offset (p : ℕ) (n : Int32) : ℕ := ((p + n.toInt) % 2 ^ 64).toNat

/-- `memmove` of the library. -/
def userMemmove (dst src : ℕ) (n : Int32) (mem : ℕ → UInt8) : ℕ → UInt8 :=
  if src > dst then forward n.toInt.toNat dst src mem
  else backward n.toInt.toNat (offset dst n) (offset src n) mem

/-- The memory in which `n` bytes from `dst` on are the former bytes from `src` on. -/
def moved (mem : ℕ → UInt8) (dst src n : ℕ) : ℕ → UInt8 := fun a =>
  if dst ≤ a ∧ a < dst + n then mem (src + (a - dst)) else mem a

variable {dst src n : ℕ}

lemma moved_zero (mem : ℕ → UInt8) (dst src : ℕ) : moved mem dst src 0 = mem := by
  funext a
  exact if_neg (by omega)

/-- The first byte is moved first: no later source byte is the first destination byte. -/
lemma moved_first (mem : ℕ → UInt8) (h : dst ≤ src ∨ src + (n + 1) ≤ dst) :
    moved (update mem dst (mem src)) (dst + 1) (src + 1) n = moved mem dst src (n + 1) := by
  funext a
  simp only [moved]
  by_cases ha : dst + 1 ≤ a ∧ a < dst + 1 + n
  · rw [if_pos ha, if_pos (by omega), update_of_ne (by omega)]
    congr 1
    omega
  rw [if_neg ha]
  by_cases had : a = dst
  · rw [had, update_self, if_pos (by omega), Nat.sub_self, Nat.add_zero]
  · rw [update_of_ne had, if_neg (by omega)]

/-- The last byte is moved first: no earlier source byte is the last destination byte. -/
lemma moved_last (mem : ℕ → UInt8) (h : src ≤ dst) :
    moved (update mem (dst + n) (mem (src + n))) dst src n = moved mem dst src (n + 1) := by
  funext a
  simp only [moved]
  by_cases ha : dst ≤ a ∧ a < dst + n
  · rw [if_pos ha, if_pos (by omega), update_of_ne (by omega)]
  rw [if_neg ha]
  by_cases had : a = dst + n
  · rw [had, update_self, if_pos (by omega), Nat.add_sub_cancel_left]
  · rw [update_of_ne had, if_neg (by omega)]

lemma forward_eq (mem : ℕ → UInt8) (hd : dst + n ≤ 2 ^ 64) (hs : src + n ≤ 2 ^ 64)
    (h : dst ≤ src ∨ src + n ≤ dst) : forward n dst src mem = moved mem dst src n := by
  induction n generalizing dst src mem with
  | zero => exact (moved_zero mem dst src).symm
  | succ n ih =>
    rw [forward, ← moved_first mem h]
    cases n with
    | zero => exact (moved_zero _ _ _).symm
    | succ n =>
      have hd' : u64 (dst + 1) = dst + 1 := Nat.mod_eq_of_lt (by omega)
      have hs' : u64 (src + 1) = src + 1 := Nat.mod_eq_of_lt (by omega)
      rw [hd', hs']
      exact ih _ (by omega) (by omega) (by omega)

lemma u64_pred {a : ℕ} (ha : a < 2 ^ 64) : u64 (u64 (a + 1) + 2 ^ 64 - 1) = a := by
  unfold u64
  omega

lemma backward_eq (mem : ℕ → UInt8) (hd : dst + n ≤ 2 ^ 64) (hs : src + n ≤ 2 ^ 64)
    (h : src ≤ dst) :
    backward n (u64 (dst + n)) (u64 (src + n)) mem = moved mem dst src n := by
  induction n generalizing mem with
  | zero => exact (moved_zero mem dst src).symm
  | succ n ih =>
    have hd' : u64 (u64 (dst + (n + 1)) + 2 ^ 64 - 1) = dst + n :=
      u64_pred (a := dst + n) (by omega)
    have hs' : u64 (u64 (src + (n + 1)) + 2 ^ 64 - 1) = src + n :=
      u64_pred (a := src + n) (by omega)
    have hd'' : u64 (dst + n) = dst + n := Nat.mod_eq_of_lt (by omega)
    have hs'' : u64 (src + n) = src + n := Nat.mod_eq_of_lt (by omega)
    rw [backward, hd', hs', ← moved_last mem h]
    have hrest := ih (update mem (dst + n) (mem (src + n))) (by omega) (by omega)
    rwa [hd'', hs''] at hrest

lemma kernelMemmove_eq (mem : ℕ → UInt8) {n : UInt32} (hd : dst + n.toNat ≤ 2 ^ 64)
    (hs : src + n.toNat ≤ 2 ^ 64) :
    kernelMemmove dst src n mem = moved mem dst src n.toNat := by
  unfold kernelMemmove
  by_cases hn : n = 0
  · rw [if_pos hn, hn]
    exact (moved_zero mem dst src).symm
  rw [if_neg hn]
  by_cases hover : src < dst ∧ u64 (src + n.toNat) > dst
  · rw [if_pos hover]
    exact backward_eq mem hd hs hover.1.le
  rw [if_neg hover]
  refine forward_eq mem hd hs ?_
  by_contra hno
  -- the source lies below the destination, whose range ends in the address space
  have hlt : u64 (src + n.toNat) = src + n.toNat := Nat.mod_eq_of_lt (by omega)
  omega

lemma offset_eq (p : ℕ) {n : Int32} (hn : 0 ≤ n.toInt) : offset p n = u64 (p + n.toInt.toNat) := by
  unfold offset u64
  omega

lemma userMemmove_eq (mem : ℕ → UInt8) {n : Int32} (hd : dst + n.toInt.toNat ≤ 2 ^ 64)
    (hs : src + n.toInt.toNat ≤ 2 ^ 64) :
    userMemmove dst src n mem = moved mem dst src n.toInt.toNat := by
  unfold userMemmove
  by_cases hlt : src > dst
  · rw [if_pos hlt]
    exact forward_eq mem hd hs (.inl hlt.le)
  rw [if_neg hlt]
  by_cases hn : 0 ≤ n.toInt
  · rw [offset_eq dst hn, offset_eq src hn]
    exact backward_eq mem hd hs (not_lt.mp hlt)
  · rw [Int.toNat_of_nonpos (by omega)]
    exact (moved_zero mem dst src).symm

/-- Both versions move the bytes, whatever the overlap of the two ranges, as long as neither of them
wraps around; so they agree on every length that both can be given. -/
theorem memmove_moves (mem : ℕ → UInt8) (dst src : ℕ) :
    (∀ n : UInt32, dst + n.toNat ≤ 2 ^ 64 → src + n.toNat ≤ 2 ^ 64 →
      kernelMemmove dst src n mem = moved mem dst src n.toNat) ∧
    (∀ n : Int32, dst + n.toInt.toNat ≤ 2 ^ 64 → src + n.toInt.toNat ≤ 2 ^ 64 →
      userMemmove dst src n mem = moved mem dst src n.toInt.toNat) ∧
    ∀ (n : UInt32) (m : Int32), n.toNat = m.toInt → dst + n.toNat ≤ 2 ^ 64 →
      src + n.toNat ≤ 2 ^ 64 → kernelMemmove dst src n mem = userMemmove dst src m mem := by
  refine ⟨fun n hd hs => kernelMemmove_eq mem hd hs, fun n hd hs => userMemmove_eq mem hd hs,
    fun n m hnm hd hs => ?_⟩
  have hlen : m.toInt.toNat = n.toNat := by omega
  rw [kernelMemmove_eq mem hd hs, userMemmove_eq mem (by rwa [hlen]) (by rwa [hlen]), hlen]

/-- Three bytes moved up by one at the end of the address space. -/
theorem memmove_moves_end :
    kernelMemmove (2 ^ 64 - 3) (2 ^ 64 - 4) 3 (fun a => UInt8.ofNat a) =
      moved (fun a => UInt8.ofNat a) (2 ^ 64 - 3) (2 ^ 64 - 4) 3 :=
  (memmove_moves _ _ _).1 3 (by decide) (by decide)

end Xv6.Memmove
