import Xv6Kernel.Lib.Printf

/-!
# Format strings

`printf` of `kernel/printf.c` and `vprintf` of `user/printf.c`.  The kernel looks ahead from the
`%`; the library keeps in `state` that it has seen one.
-/

namespace Xv6.Printf

/-- A part of a format string: bytes, or a directive that takes an argument. -/
inductive Item where
  | lit (l : List UInt8)
  | int (c : Conv) (long : Bool)
  | ptr
  | str
  deriving DecidableEq

/-- The byte `%`. -/
abbrev percent : UInt8 := 37

/-- The byte `l`. -/
abbrev ell : UInt8 := 108

/-- The directive with the characters `c0`, `c1`, `c2`, and how many of them follow `c0`. -/
def directive (c0 c1 c2 : UInt8) : Item × ℕ :=
  if c0 = 100 then (.int .d false, 0)
  else if c0 = ell ∧ c1 = 100 then (.int .d true, 1)
  else if c0 = ell ∧ c1 = ell ∧ c2 = 100 then (.int .d true, 2)
  else if c0 = 117 then (.int .u false, 0)
  else if c0 = ell ∧ c1 = 117 then (.int .u true, 1)
  else if c0 = ell ∧ c1 = ell ∧ c2 = 117 then (.int .u true, 2)
  else if c0 = 120 then (.int .x false, 0)
  else if c0 = ell ∧ c1 = 120 then (.int .x true, 1)
  else if c0 = ell ∧ c1 = ell ∧ c2 = 120 then (.int .x true, 2)
  else if c0 = 112 then (.ptr, 0)
  else if c0 = 115 then (.str, 0)
  else if c0 = percent then (.lit [percent], 0)
  else (.lit [percent, c0], 0)

/-- The loop of `printf` of the kernel, with a number of characters that it leaves out. -/
def kernelItems : ℕ → List UInt8 → List Item
  | _, [] => []
  | k + 1, _ :: fmt => kernelItems k fmt
  | 0, c :: fmt =>
    if c ≠ percent then .lit [c] :: kernelItems 0 fmt
    else match fmt with
      | [] => []
      | c0 :: rest =>
        let r := directive c0 (rest.headD 0) (rest.tail.headD 0)
        r.1 :: kernelItems (r.2 + 1) (c0 :: rest)

/-- The loop of `vprintf`; `seen` says that `state` is `%`. -/
def userItems : Bool → ℕ → List UInt8 → List Item
  | _, _, [] => []
  | seen, k + 1, _ :: fmt => userItems seen k fmt
  | false, 0, c0 :: fmt =>
    if c0 = percent then userItems true 0 fmt else .lit [c0] :: userItems false 0 fmt
  | true, 0, c0 :: fmt =>
    let r := directive c0 (fmt.headD 0) (fmt.tail.headD 0)
    r.1 :: userItems false r.2 fmt

/-- The loop of `printptr`. -/
def putPtr (digit : ℕ → UInt8) : ℕ → ℕ → List UInt8
  | 0, _ => []
  | n + 1, x => digit (x / 2 ^ 60) :: putPtr digit n (x * 2 ^ 4 % 2 ^ 64)

/-- An argument: a word, or a string, which may be `0`. -/
inductive Arg where
  | word (a : ℕ)
  | string (s : Option (List UInt8))

/-- What the items write for their arguments; the mark says that it is in hexadecimal. -/
def write (int : Conv → Bool → ℕ → Option (List UInt8)) (digit : ℕ → UInt8) :
    List Item → List Arg → Option (List (Bool × List UInt8))
  | [], _ => some []
  | .lit l :: items, args => (write int digit items args).map ((false, l) :: ·)
  | .int c long :: items, .word a :: args =>
    (int c long a).bind fun l => (write int digit items args).map ((c = .x, l) :: ·)
  | .ptr :: items, .word a :: args =>
    (write int digit items args).map
      ((false, [48, 120]) :: (true, putPtr digit 16 (a % 2 ^ 64)) :: ·)
  | .str :: items, .string s :: args =>
    (write int digit items args).map ((false, s.getD [40, 110, 117, 108, 108, 41]) :: ·)
  | _, _ => none

/-- `printf` of the kernel. -/
def kernelPrintf (fmt : List UInt8) (args : List Arg) : Option (List (Bool × List UInt8)) :=
  write kernelInt kernelDigit (kernelItems 0 fmt) args

def vprintf (fmt : List UInt8) (args : List Arg) : Option (List (Bool × List UInt8)) :=
  write (fun c _ a => userInt c a) userDigit (userItems false 0 fmt) args

/-! ## The two interpreters -/

lemma items_eq (k : ℕ) (fmt : List UInt8) : kernelItems k fmt = userItems false k fmt := by
  induction fmt generalizing k with
  | nil => cases k <;> rfl
  | cons c fmt ih =>
    cases k with
    | succ k => exact ih k
    | zero =>
      by_cases hc : c = percent
      · cases fmt with
        | nil => simp [kernelItems, userItems, hc]
        | cons c0 rest =>
          have hrest := ih ((directive c0 (rest.headD 0) (rest.tail.headD 0)).2 + 1)
          simp only [kernelItems, userItems, hc, ne_eq, not_true_eq_false, if_false, if_true]
            at hrest ⊢
          rw [hrest]
      · have hk : kernelItems 0 (c :: fmt) = .lit [c] :: kernelItems 0 fmt := by
          cases fmt <;> simp [kernelItems, hc]
        rw [hk, ih 0, userItems, if_neg hc]

/-- A letter in upper case. -/
def upper (c : UInt8) : UInt8 := if 97 ≤ c ∧ c ≤ 122 then c - 32 else c

/-- Hexadecimal digits in upper case. -/
def capital (p : Bool × List UInt8) : Bool × List UInt8 :=
  (p.1, p.2.map (if p.1 then upper else id))

lemma numeral_map {base : ℕ} {digit digit' : ℕ → UInt8} {f : UInt8 → UInt8} (hb : 1 < base)
    (hf : ∀ d < base, digit' d = f (digit d)) (hminus : f minus = minus) (v : ℤ) :
    numeral digit' base v = (numeral digit base v).map f := by
  have hnat : natNumeral digit' base v.natAbs = (natNumeral digit base v.natAbs).map f := by
    unfold natNumeral
    split
    · rw [List.map_singleton, hf 0 (by omega)]
    · rw [List.map_reverse, List.map_map]
      exact congrArg List.reverse (List.map_congr_left fun d hd => hf d (Nat.digits_lt_base hb hd))
  rw [numeral, numeral, List.map_append, hnat]
  split
  · rw [List.map_singleton, hminus]
  · rfl

lemma numeral_user (c : Conv) (v : ℤ) :
    numeral userDigit c.base v =
      (numeral kernelDigit c.base v).map (if (c = .x : Bool) then upper else id) := by
  cases c with
  | x => exact numeral_map (by decide) (by decide) (by decide) v
  | _ => exact numeral_map (by decide) (by decide) (by decide) v

/-- The arguments that a directive for a number writes in the same way. -/
def Agrees (a : ℕ) : Conv → Bool → Prop
  | .d, false => True
  | .d, true => asLong a = asInt a
  | _, false => a % 2 ^ 32 < 2 ^ 31
  | _, true => a % 2 ^ 64 < 2 ^ 32

lemma int_agrees_iff (c : Conv) (long : Bool) (a : ℕ) :
    (∃ l, kernelInt c long a = some l ∧
      userInt c a = some (l.map (if (c = .x : Bool) then upper else id))) ↔ Agrees a c long := by
  have hsame : (∃ l, kernelInt c long a = some l ∧
      userInt c a = some (l.map (if (c = .x : Bool) then upper else id))) ↔
      InBuf c.base (shown c long a) ∧ shown c long a = valueOf c false a := by
    rw [kernelInt_eq, userInt_eq]
    constructor
    · rintro ⟨l, hk, hu⟩
      split at hk
      · rename_i hin
        rw [← Option.some.inj hk, ← numeral_user] at hu
        have hread := congrArg (readNumeral c.base) (Option.some.inj hu)
        rw [readNumeral_numeral c.one_lt_base c.base_le table_user,
          readNumeral_numeral c.one_lt_base c.base_le table_user] at hread
        exact ⟨hin, hread.symm⟩
      · cases hk
    · rintro ⟨hin, heq⟩
      exact ⟨_, if_pos hin, by rw [heq, numeral_user]⟩
  rw [hsame]
  have hint := asInt_natAbs a
  have hlong := asLong_natAbs a
  cases c <;> cases long <;>
    simp only [InBuf, shown, valueOf, Conv.base, Agrees, if_true, if_false, reduceCtorEq,
      Bool.false_eq_true, or_self, or_true, true_or, and_true, iff_true] <;>
    repeat' split
  all_goals omega

/-- The arguments have the types that the items call for, and the numbers agree. -/
def Plain : List Item → List Arg → Prop
  | [], _ => True
  | .lit _ :: items, args => Plain items args
  | .int c long :: items, .word a :: args => Agrees a c long ∧ Plain items args
  | .ptr :: items, .word _ :: args => Plain items args
  | .str :: items, .string _ :: args => Plain items args
  | _, _ => False

lemma putPtr_map (n x : ℕ) (hx : x < 2 ^ 64) :
    putPtr userDigit n x = (putPtr kernelDigit n x).map upper := by
  have hdigit : ∀ d < 16, userDigit d = upper (kernelDigit d) := by decide
  induction n generalizing x with
  | zero => rfl
  | succ n ih =>
    rw [putPtr, putPtr, List.map_cons, hdigit _ (by omega), ih _ (Nat.mod_lt _ (by decide))]

lemma agree_cons_iff {k u : Option (List (Bool × List UInt8))} {x y : Bool × List UInt8} :
    (∃ out, k.map (x :: ·) = some out ∧ u.map (y :: ·) = some (out.map capital)) ↔
      y = capital x ∧ ∃ out, k = some out ∧ u = some (out.map capital) := by
  cases k with
  | none => simp
  | some k => cases u <;> simp

lemma agree_bind_iff {k u : Option (List (Bool × List UInt8))} {x y : Option (List UInt8)}
    {hex : Bool} :
    (∃ out, (x.bind fun l => k.map ((hex, l) :: ·)) = some out ∧
      (y.bind fun l => u.map ((hex, l) :: ·)) = some (out.map capital)) ↔
      (∃ l, x = some l ∧ y = some (l.map (if hex then upper else id))) ∧
        ∃ out, k = some out ∧ u = some (out.map capital) := by
  cases x with
  | none => simp
  | some l =>
    cases y with
    | none => simp
    | some l' => simp only [Option.bind_some, agree_cons_iff, capital, Prod.mk.injEq, true_and,
        Option.some.injEq, exists_eq_left']

/-- What the items write agrees if and only if every number does. -/
lemma write_agree_iff (items : List Item) (args : List Arg) :
    (∃ out, write kernelInt kernelDigit items args = some out ∧
      write (fun c _ a => userInt c a) userDigit items args = some (out.map capital)) ↔
      Plain items args := by
  induction items generalizing args with
  | nil => exact iff_of_true ⟨[], rfl, rfl⟩ trivial
  | cons item items ih =>
    cases item with
    | lit l => simp only [write, Plain, agree_cons_iff, ih, capital, Bool.false_eq_true, if_false,
        List.map_id, true_and]
    | int c long =>
      obtain _ | ⟨_ | _, args⟩ := args
      · simp [write, Plain]
      · simp only [write, Plain, agree_bind_iff, int_agrees_iff, ih]
      · simp [write, Plain]
    | ptr =>
      obtain _ | ⟨a | _, args⟩ := args
      · simp [write, Plain]
      · have hptr := putPtr_map 16 _ (Nat.mod_lt a (Nat.two_pow_pos 64))
        have hcons (x y : Bool × List UInt8) (o : Option (List (Bool × List UInt8))) :
            o.map (x :: y :: ·) = (o.map (y :: ·)).map (x :: ·) := (Option.map_map ..).symm
        simp only [write, Plain, hcons, agree_cons_iff, ih, capital, hptr, Bool.false_eq_true,
          if_false, if_true, List.map_id, true_and]
      · simp [write, Plain]
    | str =>
      obtain _ | ⟨_ | s, args⟩ := args
      · simp [write, Plain]
      · simp [write, Plain]
      · simp only [write, Plain, agree_cons_iff, ih, capital, Bool.false_eq_true, if_false,
          List.map_id, true_and]

/-- The two write the same, up to the case of hexadecimal digits, if and only if the arguments have
the types that the format string calls for and its numbers agree; a directive for a number writes
the same if and only if its argument agrees. -/
theorem printf_agree_iff (fmt : List UInt8) (args : List Arg) :
    ((∃ out, kernelPrintf fmt args = some out ∧ vprintf fmt args = some (out.map capital)) ↔
      Plain (kernelItems 0 fmt) args) ∧
    ∀ (c : Conv) (long : Bool) (a : ℕ), (∃ l, kernelInt c long a = some l ∧
      userInt c a = some (l.map (if (c = .x : Bool) then upper else id))) ↔ Agrees a c long := by
  refine ⟨?_, int_agrees_iff⟩
  rw [← write_agree_iff, kernelPrintf, vprintf, ← items_eq]

/-- The format `%d%%%`. -/
theorem printf_agree_iff_int : Plain (kernelItems 0 [37, 100, 37, 37, 37]) [.word 7] ∧
    ∃ out, kernelPrintf [37, 100, 37, 37, 37] [.word 7] = some out ∧
      vprintf [37, 100, 37, 37, 37] [.word 7] = some (out.map capital) :=
  ⟨⟨trivial, trivial⟩, (printf_agree_iff _ _).1.mpr ⟨trivial, trivial⟩⟩

/-- `%lx` of 2 ^ 32: the library takes the lower half only. -/
theorem printf_lx_differs :
    kernelPrintf [37, 108, 120] [.word (2 ^ 32)] = some [(true, 49 :: List.replicate 8 48)] ∧
      vprintf [37, 108, 120] [.word (2 ^ 32)] = some [(true, [48])] := by
  decide +kernel

end Xv6.Printf
