import Mathlib.Data.Nat.Digits.Lemmas

/-!
# Numbers in `printf`

`printint` and `printptr` of `kernel/printf.c` and of `user/printf.c`, and the two interpreters of
format strings.  An argument of `printf` is a word of 64 bits or a string; `va_arg` takes the part
of the word that its type asks for.
-/

namespace Xv6.Printf

/-- `digits` of the kernel. -/
def kernelDigit (d : ℕ) : UInt8 := UInt8.ofNat (if d < 10 then 48 + d else 87 + d)

/-- `digits` of the library. -/
def userDigit (d : ℕ) : UInt8 := UInt8.ofNat (if d < 10 then 48 + d else 55 + d)

/-- The byte `-`. -/
abbrev minus : UInt8 := 45

/-- The loop that fills `buf` with digits. -/
def putDigits (digit : ℕ → UInt8) (base : ℕ) : ℕ → ℕ → List UInt8
  | 0, _ => []
  | fuel + 1, x =>
    digit (x % base) :: if x / base = 0 then [] else putDigits digit base fuel (x / base)

/-- `printint` from its loop on: `buf` has 16 bytes, and is written backwards. -/
def emit (digit : ℕ → UInt8) (base x : ℕ) (neg : Bool) : Option (List UInt8) :=
  let buf := putDigits digit base 64 x ++ if neg then [minus] else []
  if buf.length ≤ 16 then some buf.reverse else none

/-- `printint`, for a number `xx` of `w` bits. -/
def printint (digit : ℕ → UInt8) (w : ℕ) (xx : ℤ) (base : ℕ) (sign : Bool) : Option (List UInt8) :=
  let neg := sign && xx < 0
  emit digit base ((if neg then -xx else xx) % 2 ^ w).toNat neg

/-- `printint` of the kernel; `xx` is a `long long`. -/
def kernelPrintint : ℤ → ℕ → Bool → Option (List UInt8) := printint kernelDigit 64

/-- `printint` of the library; `xx` is an `int`. -/
def userPrintint : ℤ → ℕ → Bool → Option (List UInt8) := printint userDigit 32

/-- A word as an `int`. -/
def asInt (a : ℕ) : ℤ := if a % 2 ^ 32 < 2 ^ 31 then a % 2 ^ 32 else a % 2 ^ 32 - 2 ^ 32

/-- A word as a `long long`. -/
def asLong (a : ℕ) : ℤ := if a % 2 ^ 64 < 2 ^ 63 then a % 2 ^ 64 else a % 2 ^ 64 - 2 ^ 64

/-- The last character of a directive for a number. -/
inductive Conv where
  | d
  | u
  | x
  deriving DecidableEq

/-- The base of a directive. -/
def Conv.base : Conv → ℕ
  | .x => 16
  | _ => 10

/-- `%d`, `%u`, `%x` of the kernel, and their forms with `l` and `ll`. -/
def kernelInt (c : Conv) (long : Bool) (a : ℕ) : Option (List UInt8) :=
  kernelPrintint (if long then asLong a else asInt a) c.base (c = .d)

/-- The same of the library, whose `printint` takes an `int`. -/
def userInt (c : Conv) (a : ℕ) : Option (List UInt8) :=
  userPrintint (asInt a) c.base (c = .d)

/-! ## Numerals -/

/-- The numeral of a natural number. -/
def natNumeral (digit : ℕ → UInt8) (base x : ℕ) : List UInt8 :=
  if x = 0 then [digit 0] else ((Nat.digits base x).map digit).reverse

/-- The numeral of a number. -/
def numeral (digit : ℕ → UInt8) (base : ℕ) (v : ℤ) : List UInt8 :=
  (if v < 0 then [minus] else []) ++ natNumeral digit base v.natAbs

/-- The value of a digit. -/
def digitValue (c : UInt8) : ℕ :=
  if c.toNat < 58 then c.toNat - 48 else if c.toNat < 91 then c.toNat - 55 else c.toNat - 87

/-- The number that the digits stand for. -/
def readDigits (base : ℕ) (l : List UInt8) : ℕ := l.foldl (fun n c => n * base + digitValue c) 0

/-- The number that a numeral stands for. -/
def readNumeral (base : ℕ) (l : List UInt8) : ℤ :=
  if l.head? = some minus then -readDigits base l.tail else readDigits base l

variable {base x : ℕ} {digit : ℕ → UInt8}

lemma map_digits_of_lt (hb : 1 < base) (hdiv : x / base = 0) :
    [digit (x % base)] = if x = 0 then [digit 0] else (Nat.digits base x).map digit := by
  split
  · rename_i h0
    rw [h0, Nat.zero_mod]
  · rename_i h0
    rw [Nat.digits_def' hb (Nat.pos_of_ne_zero h0), hdiv, Nat.digits_zero]
    rfl

lemma putDigits_eq (hb : 1 < base) (fuel : ℕ) (hx : x < base ^ (fuel + 1)) :
    putDigits digit base (fuel + 1) x =
      if x = 0 then [digit 0] else (Nat.digits base x).map digit := by
  induction fuel generalizing x with
  | zero =>
    have hdiv : x / base = 0 := Nat.div_eq_of_lt (by simpa using hx)
    rw [putDigits, if_pos hdiv, map_digits_of_lt hb hdiv]
  | succ fuel ih =>
    rw [putDigits]
    by_cases hdiv : x / base = 0
    · rw [if_pos hdiv, map_digits_of_lt hb hdiv]
    · have h0 : x ≠ 0 := fun h => hdiv (by rw [h, Nat.zero_div])
      rw [if_neg hdiv, if_neg h0, ih (Nat.div_lt_of_lt_mul (by rwa [pow_succ'] at hx)),
        if_neg hdiv, Nat.digits_def' hb (Nat.pos_of_ne_zero h0), List.map_cons]

lemma length_natNumeral (hb : 1 < base) (k : ℕ) :
    (natNumeral digit base x).length ≤ k + 1 ↔ x < base ^ (k + 1) := by
  unfold natNumeral
  split
  · rename_i h0
    simp [h0, Nat.pow_pos (Nat.zero_lt_of_lt hb)]
  · rw [List.length_reverse, List.length_map, Nat.digits_length_le_iff hb]

/-- `printint` writes the numeral if it has at most 16 bytes. -/
lemma emit_eq (hb : 1 < base) (hx : x < 2 ^ 64) (neg : Bool) :
    emit digit base x neg =
      if x < base ^ (if neg then 15 else 16) then
        some ((if neg then [minus] else []) ++ natNumeral digit base x)
      else none := by
  have hput : (putDigits digit base 64 x).reverse = natNumeral digit base x := by
    rw [putDigits_eq hb 63 (hx.trans_le (Nat.pow_le_pow_left hb 64)), natNumeral]
    split <;> rfl
  have hlen : (putDigits digit base 64 x).length = (natNumeral digit base x).length := by
    rw [← hput, List.length_reverse]
  simp only [emit, List.length_append, List.reverse_append, hput, hlen]
  cases neg with
  | false => simp only [Bool.false_eq_true, if_false, List.length_nil, Nat.add_zero,
      length_natNumeral hb 15, List.reverse_nil]
  | true =>
    simp only [if_true, List.length_singleton, Nat.add_le_add_iff_right (n := 1) (k := 15),
      length_natNumeral hb 14, List.reverse_singleton]

/-- A table of digits that can be read back. -/
def Table (digit : ℕ → UInt8) : Prop := ∀ d < 16, digitValue (digit d) = d ∧ digit d ≠ minus

lemma table_kernel : Table kernelDigit := by
  unfold Table
  decide

lemma table_user : Table userDigit := by
  unfold Table
  decide

lemma readDigits_natNumeral (hb : 1 < base) (h16 : base ≤ 16) (ht : Table digit) :
    readDigits base (natNumeral digit base x) = x := by
  have hfold : ∀ ds : List ℕ, (∀ d ∈ ds, d < base) →
      (ds.map digit).foldr (fun c n => n * base + digitValue c) 0 = Nat.ofDigits base ds := by
    intro ds hds
    induction ds with
    | nil => rfl
    | cons d ds ih =>
      rw [List.map_cons, List.foldr_cons, ih fun d hd => hds d (List.mem_cons_of_mem _ hd),
        (ht d ((hds d List.mem_cons_self).trans_le h16)).1, Nat.ofDigits_cons,
        Nat.mul_comm, Nat.add_comm]
  unfold readDigits natNumeral
  split
  · rename_i h0
    rw [h0, List.foldl_cons, List.foldl_nil, (ht 0 (by decide)).1, Nat.zero_mul]
  · rw [List.foldl_reverse, hfold _ fun d hd => Nat.digits_lt_base hb hd, Nat.ofDigits_digits]

lemma head_natNumeral (hb : 1 < base) (h16 : base ≤ 16) (ht : Table digit) :
    (natNumeral digit base x).head? ≠ some minus := by
  intro h
  have hmem : minus ∈ natNumeral digit base x := List.mem_of_mem_head? h
  unfold natNumeral at hmem
  split at hmem
  · exact (ht 0 (by decide)).2 (List.mem_singleton.mp hmem).symm
  · obtain ⟨d, hd, heq⟩ := List.mem_map.mp (List.mem_reverse.mp hmem)
    exact (ht d ((Nat.digits_lt_base hb hd).trans_le h16)).2 heq

/-- A numeral can be read back. -/
lemma readNumeral_numeral (hb : 1 < base) (h16 : base ≤ 16) (ht : Table digit) (v : ℤ) :
    readNumeral base (numeral digit base v) = v := by
  unfold readNumeral numeral
  by_cases hv : v < 0
  · rw [if_pos hv, List.singleton_append, List.head?_cons, if_pos rfl, List.tail_cons,
      readDigits_natNumeral hb h16 ht]
    omega
  · rw [if_neg hv, List.nil_append, if_neg (head_natNumeral hb h16 ht),
      readDigits_natNumeral hb h16 ht]
    omega

/-! ## What `printint` writes -/

lemma Conv.one_lt_base (c : Conv) : 1 < c.base := by cases c <;> decide

lemma Conv.base_le (c : Conv) : c.base ≤ 16 := by cases c <;> decide

/-- The numeral fits into the buffer of `printint`. -/
abbrev InBuf (base : ℕ) (v : ℤ) : Prop := v.natAbs < base ^ (if v < 0 then 15 else 16)

variable {w : ℕ}

lemma printint_signed (hb : 1 < base) (hw : w ≤ 64) {v : ℤ} (hv : v.natAbs < 2 ^ w) :
    printint digit w v base true =
      if InBuf base v then some (numeral digit base v) else none := by
  have hlt : v.natAbs < 2 ^ 64 := hv.trans_le (Nat.pow_le_pow_right (by decide) hw)
  have hv' : (v.natAbs : ℤ) < 2 ^ w := by exact_mod_cast hv
  by_cases hneg : v < 0
  · have hx : (-v % 2 ^ w).toNat = v.natAbs := by
      rw [Int.emod_eq_of_lt (by omega) (by omega)]
      omega
    simp only [printint, numeral, InBuf, hneg, decide_true, Bool.and_self, if_true, hx]
    exact emit_eq hb hlt true
  have hx : (v % 2 ^ w).toNat = v.natAbs := by
    rw [Int.emod_eq_of_lt (by omega) (by omega)]
    omega
  simp only [printint, numeral, InBuf, hneg, decide_false, Bool.and_false, Bool.false_eq_true,
    if_false, hx]
  exact emit_eq hb hlt false

lemma printint_unsigned (hb : 1 < base) (hw : w ≤ 64) {v : ℤ} {n : ℕ} (hn : v % 2 ^ w = n)
    (hlt : n < 2 ^ w) :
    printint digit w v base false =
      if InBuf base n then some (numeral digit base n) else none := by
  have hnot : ¬(n : ℤ) < 0 := Int.not_lt.mpr (Int.natCast_nonneg n)
  simp only [printint, Bool.false_and, Bool.false_eq_true, if_false, numeral, Int.natAbs_natCast,
    if_neg hnot, hn, Int.toNat_natCast]
  rw [emit_eq hb (hlt.trans_le (Nat.pow_le_pow_right (by decide) hw))]
  rfl

/-- The argument of a directive, taken at its type. -/
def valueOf (c : Conv) (long : Bool) (a : ℕ) : ℤ :=
  if c = .d then if long then asLong a else asInt a
  else if long then ((a % 2 ^ 64 : ℕ) : ℤ) else ((a % 2 ^ 32 : ℕ) : ℤ)

/-- The arguments for which the numeral of the argument is written. -/
def Fits (a : ℕ) : Conv → Bool → Prop
  | .d, false => True
  | .d, true => -10 ^ 15 < asLong a ∧ asLong a < 10 ^ 16
  | .u, false => a % 2 ^ 32 < 2 ^ 31
  | .u, true => a % 2 ^ 64 < 10 ^ 16
  | .x, false => a % 2 ^ 32 < 2 ^ 31
  | .x, true => True

/-- The number whose numeral the kernel writes. -/
def shown (c : Conv) (long : Bool) (a : ℕ) : ℤ :=
  if c = .d ∨ long then valueOf c long a
  else if a % 2 ^ 32 < 2 ^ 31 then ((a % 2 ^ 32 : ℕ) : ℤ)
  else ((a % 2 ^ 32 + (2 ^ 64 - 2 ^ 32) : ℕ) : ℤ)

lemma asInt_natAbs (a : ℕ) : (asInt a).natAbs ≤ 2 ^ 31 := by
  unfold asInt
  split <;> omega

lemma asLong_natAbs (a : ℕ) : (asLong a).natAbs ≤ 2 ^ 63 := by
  unfold asLong
  split <;> omega

lemma asLong_emod (a : ℕ) : asLong a % 2 ^ 64 = ((a % 2 ^ 64 : ℕ) : ℤ) := by
  unfold asLong
  split <;> omega

lemma asInt_emod (a : ℕ) : asInt a % 2 ^ 64 = shown .u false a := by
  simp only [shown, reduceCtorEq, Bool.false_eq_true, or_self, if_false]
  unfold asInt
  split <;> omega

lemma kernelInt_eq (c : Conv) (long : Bool) (a : ℕ) :
    kernelInt c long a =
      if InBuf c.base (shown c long a) then some (numeral kernelDigit c.base (shown c long a))
      else none := by
  have hint := asInt_natAbs a
  have hlong := asLong_natAbs a
  have hb := c.one_lt_base
  have hunsigned : printint kernelDigit 64 (asInt a) c.base false =
      if InBuf c.base (shown .u false a) then some (numeral kernelDigit c.base (shown .u false a))
      else none := by
    have hmod := asInt_emod a
    simp only [shown, reduceCtorEq, Bool.false_eq_true, or_self, if_false] at hmod ⊢
    split at hmod
    · rename_i h
      rw [if_pos h]
      exact printint_unsigned hb le_rfl hmod (by omega)
    · rename_i h
      rw [if_neg h]
      exact printint_unsigned hb le_rfl hmod (by omega)
  cases long with
  | true =>
    cases c with
    | d => exact printint_signed hb le_rfl (by omega)
    | _ => exact printint_unsigned hb le_rfl (asLong_emod a) (by omega)
  | false =>
    cases c with
    | d => exact printint_signed hb le_rfl (by omega)
    | _ => exact hunsigned

lemma userInt_eq (c : Conv) (a : ℕ) :
    userInt c a = some (numeral userDigit c.base (valueOf c false a)) := by
  have hint := asInt_natAbs a
  have hmod : asInt a % 2 ^ 32 = ((a % 2 ^ 32 : ℕ) : ℤ) := by
    unfold asInt
    split <;> omega
  have hin : InBuf c.base (valueOf c false a) := by
    cases c <;>
      simp only [InBuf, valueOf, Conv.base, reduceCtorEq, Bool.false_eq_true, if_true, if_false]
    · split <;> omega
    · split <;> omega
    · split <;> omega
  rw [← if_pos (t := some _) (e := none) hin]
  cases c with
  | d => exact printint_signed (by decide) (by decide) (by omega)
  | _ => exact printint_unsigned (by decide) (by decide) hmod (by omega)

lemma some_numeral_iff {P : Prop} [Decidable P] {v w : ℤ} (hb : 1 < base) (h16 : base ≤ 16) :
    (if P then some (numeral kernelDigit base v) else none) = some (numeral kernelDigit base w) ↔
      P ∧ v = w := by
  constructor
  · intro h
    split at h
    · rename_i hP
      have hread := congrArg (readNumeral base) (Option.some.inj h)
      rw [readNumeral_numeral hb h16 table_kernel, readNumeral_numeral hb h16 table_kernel] at hread
      exact ⟨hP, hread⟩
    · cases h
  · rintro ⟨hP, rfl⟩
    exact if_pos hP

/-- The kernel writes the numeral of the argument taken at its type, from which the argument can be
read back, if and only if the argument fits. -/
theorem printint_writes_iff (c : Conv) (long : Bool) (a : ℕ) :
    readNumeral c.base (numeral kernelDigit c.base (valueOf c long a)) = valueOf c long a ∧
    (kernelInt c long a = some (numeral kernelDigit c.base (valueOf c long a)) ↔
      Fits a c long) := by
  refine ⟨readNumeral_numeral c.one_lt_base c.base_le table_kernel _, ?_⟩
  rw [kernelInt_eq, some_numeral_iff c.one_lt_base c.base_le]
  have hint := asInt_natAbs a
  have hlong := asLong_natAbs a
  cases c <;> cases long <;>
    simp only [InBuf, shown, valueOf, Conv.base, Fits, if_true, if_false, reduceCtorEq,
      Bool.false_eq_true, or_self, or_true, true_or, and_true, iff_true] <;>
    repeat' split
  all_goals omega

/-- `%d` of 7. -/
theorem printint_writes_iff_seven :
    kernelInt .d false 7 = some (numeral kernelDigit 10 (valueOf .d false 7)) :=
  (printint_writes_iff .d false 7).2.mpr trivial

/-- `%u` and `%x` for the largest `unsigned int`: the one leaves the buffer, the other writes 16
digits. -/
theorem printint_sign_extends :
    kernelInt .u false (2 ^ 32 - 1) = none ∧
    kernelInt .x false (2 ^ 32 - 1) = some (List.replicate 16 102) ∧
    numeral kernelDigit 16 (valueOf .x false (2 ^ 32 - 1)) = List.replicate 8 102 := by
  decide +kernel

end Xv6.Printf
