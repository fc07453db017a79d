import Mathlib.Data.Fintype.Pi
import Mathlib.Data.Nat.Bitwise
import Mathlib.Tactic.IntervalCases

/-!
# Little-endian fields in a fixed array of bytes

`Bytes n` is an array of `n` bytes.  `Bytes.getLE k b off` reads the `k` bytes of `b` at the offset
`off` as a little-endian number, `Bytes.setLE k b off v` overwrites them.  Reads past the end yield
zero bytes, writes past the end are lost.
-/

namespace Xv6

variable {off k i c : ℕ}
variable {x : UInt8} {off' : ℕ}

/-- An array of `n` bytes. -/
def Bytes (n : ℕ) : Type := Fin n → UInt8

namespace Bytes

variable {n : ℕ}

instance : DecidableEq (Bytes n) := inferInstanceAs (DecidableEq (Fin n → UInt8))

def zero (n : ℕ) : Bytes n := fun _ => 0

/-- The byte at the offset `i`. -/
def get (b : Bytes n) (i : ℕ) : UInt8 := if h : i < n then b ⟨i, h⟩ else 0

def set (b : Bytes n) (i : ℕ) (v : UInt8) : Bytes n := fun j => if j.val = i then v else b j

/-- The `k` bytes at the offset `off` read as a little-endian number. -/
def getLE : ℕ → Bytes n → ℕ → ℕ
  | 0, _, _ => 0
  | k + 1, b, off => (b.get off).toNat + 256 * getLE k b (off + 1)

/-- The array with the `k` bytes at the offset `off` replaced by the little-endian digits of `v`. -/
def setLE : ℕ → Bytes n → ℕ → ℕ → Bytes n
  | 0, b, _, _ => b
  | k + 1, b, off, v => setLE k (b.set off (UInt8.ofNat v)) (off + 1) (v / 256)

@[simp] lemma get_zero (i : ℕ) : (zero n).get i = 0 := by
  unfold get zero
  split <;> rfl

lemma get_set_self (b : Bytes n) (v : UInt8) (hi : i < n) : (b.set i v).get i = v := by
  simp [get, set, hi]

lemma get_set_of_ne (b : Bytes n) {j : ℕ} (v : UInt8) (h : j ≠ i) : (b.set i v).get j = b.get j := by
  simp [get, set, h]

lemma getLE_congr {m : ℕ} (k : ℕ) {b : Bytes n} {c : Bytes m}
    (h : ∀ i, i < k → b.get (off + i) = c.get (off' + i)) : getLE k b off = getLE k c off' := by
  induction k generalizing off off' with
  | zero => rfl
  | succ k ih =>
    have h0 := h 0 (by omega)
    rw [Nat.add_zero, Nat.add_zero] at h0
    have hrest : getLE k b (off + 1) = getLE k c (off' + 1) := by
      refine ih fun i hi => ?_
      have := h (i + 1) (by omega)
      rwa [show off + 1 + i = off + (i + 1) by omega, show off' + 1 + i = off' + (i + 1) by omega]
    rw [getLE, getLE, h0, hrest]

@[simp] lemma getLE_zero (k off : ℕ) : getLE k (zero n) off = 0 := by
  induction k generalizing off with
  | zero => rfl
  | succ k ih => simp [getLE, ih]

lemma get_setLE_of_disjoint (k : ℕ) (b : Bytes n) (off v : ℕ)
    (h : i < off ∨ off + k ≤ i) : (setLE k b off v).get i = b.get i := by
  induction k generalizing b off v with
  | zero => rfl
  | succ k ih =>
    rw [setLE, ih (b.set off (UInt8.ofNat v)) (off + 1) (v / 256) (by omega)]
    exact get_set_of_ne b _ (by omega)

lemma getLE_setLE (k : ℕ) (b : Bytes n) (off v : ℕ) (h : off + k ≤ n) :
    getLE k (setLE k b off v) off = v % 256 ^ k := by
  induction k generalizing b off v with
  | zero => simp [getLE, Nat.mod_one]
  | succ k ih =>
    rw [getLE, setLE, ih _ (off + 1) (v / 256) (by omega),
      get_setLE_of_disjoint k _ (off + 1) (v / 256) (.inl (by omega)),
      get_set_self b _ (by omega), UInt8.toNat_ofNat', Nat.pow_succ 256 k,
      Nat.mul_comm (256 ^ k) 256, Nat.mod_mul]

lemma getLE_setLE_of_disjoint (k k' : ℕ) (b : Bytes n) (off off' v : ℕ)
    (h : off' + k' ≤ off ∨ off + k ≤ off') : getLE k' (setLE k b off v) off' = getLE k' b off' :=
  getLE_congr k' fun i hi => get_setLE_of_disjoint k b off v (by omega)

def blit (b : Bytes n) (off : ℕ) (l : List UInt8) : Bytes n :=
  fun j => if off ≤ j.val ∧ j.val < off + l.length then l.getD (j.val - off) 0 else b j

lemma get_blit (b : Bytes n) {l : List UInt8} (h : off + l.length ≤ n) (i : ℕ) :
    (b.blit off l).get i =
      if off ≤ i ∧ i < off + l.length then l.getD (i - off) 0 else b.get i := by
  unfold get blit
  by_cases hi : i < n
  · simp [hi]
  · rw [dif_neg hi, dif_neg hi, if_neg (by omega)]

/-- The array with `k` bytes from the offset `off` on replaced by those of a function. -/
def copy (b : Bytes n) (off k : ℕ) (f : ℕ → UInt8) : Bytes n :=
  fun j => if off ≤ j.val ∧ j.val < off + k then f (j.val - off) else b j

lemma get_copy (b : Bytes n) (f : ℕ → UInt8) (h : off + k ≤ n) (i : ℕ) :
    (b.copy off k f).get i = if off ≤ i ∧ i < off + k then f (i - off) else b.get i := by
  unfold get copy
  by_cases hi : i < n
  · simp [hi]
  · rw [dif_neg hi, dif_neg hi, if_neg (by omega)]

/-! ## Parts of an array -/

def slice (k : ℕ) (b : Bytes n) (off : ℕ) : Bytes k := fun i => b.get (off + i.val)

/-- The array with the bytes at the offset `off` replaced by another array. -/
def paste {k : ℕ} (b : Bytes n) (off : ℕ) (c : Bytes k) : Bytes n :=
  fun j => if off ≤ j.val ∧ j.val < off + k then c.get (j.val - off) else b j

lemma ext_get {b c : Bytes n} (h : ∀ i, i < n → b.get i = c.get i) : b = c := by
  funext i
  simpa [get] using h i.val i.isLt

lemma get_slice (b : Bytes n) (off : ℕ) (hi : i < k) : (slice k b off).get i = b.get (off + i) := by
  rw [get, dif_pos hi]
  rfl

lemma getLE_slice (w : ℕ) (b : Bytes n) (off o : ℕ) (h : o + w ≤ k) :
    getLE w (slice k b off) o = getLE w b (off + o) :=
  getLE_congr w fun i hi => by rw [get_slice b off (by omega), Nat.add_assoc]

lemma get_paste (b : Bytes n) (c : Bytes k) (h : off + k ≤ n) (i : ℕ) :
    (b.paste off c).get i = if off ≤ i ∧ i < off + k then c.get (i - off) else b.get i := by
  unfold get paste
  by_cases hi : i < n
  · simp [hi]
    rfl
  · rw [dif_neg hi, dif_neg hi, if_neg (by omega)]

lemma slice_paste_self (b : Bytes n) (c : Bytes k) (h : off + k ≤ n) :
    slice k (b.paste off c) off = c :=
  ext_get fun i hi => by
    rw [get_slice _ _ hi, get_paste b c h, if_pos (by omega), Nat.add_sub_cancel_left]

lemma slice_paste_of_disjoint {k' : ℕ} (b : Bytes n) (c : Bytes k) (h : off + k ≤ n)
    (hd : off' + k' ≤ off ∨ off + k ≤ off') : slice k' (b.paste off c) off' = slice k' b off' :=
  ext_get fun i hi => by
    rw [get_slice _ _ hi, get_slice _ _ hi, get_paste b c h, if_neg (by omega)]

end Bytes

/-! ## The bits of a byte -/

lemma toNat_one_shiftLeft (hc : c < 8) : (1 <<< UInt8.ofNat c : UInt8).toNat = 2 ^ c := by
  interval_cases c <;> rfl

lemma and_bit_ne_zero (hc : c < 8) : x &&& 1 <<< UInt8.ofNat c ≠ 0 ↔ x.toNat.testBit c = true := by
  rw [ne_eq, ← UInt8.toNat_inj, UInt8.toNat_and, toNat_one_shiftLeft hc, Nat.and_two_pow]
  cases x.toNat.testBit c <;> simp

lemma or_bit {a : ℕ} (ha : a < 8) :
    (x ||| 1 <<< UInt8.ofNat a).toNat.testBit c = true ↔ a = c ∨ x.toNat.testBit c = true := by
  rw [UInt8.toNat_or, toNat_one_shiftLeft ha, Nat.testBit_or, Nat.testBit_two_pow, Bool.or_eq_true,
    decide_eq_true_iff, or_comm]

end Xv6
