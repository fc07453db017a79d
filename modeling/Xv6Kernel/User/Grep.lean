import Mathlib.Data.List.Basic

/-!
# `grep`

The matcher of `user/grep.c` and the loop that feeds it with lines.  A string is the list of its
bytes without the zero byte at its end.
-/

namespace Xv6.Grep

/-- The byte `^`. -/
abbrev caret : UInt8 := 94

/-- The byte `$`. -/
abbrev dollar : UInt8 := 36

/-- The byte `*`. -/
abbrev star : UInt8 := 42

/-- The byte `.`. -/
abbrev dot : UInt8 := 46

/-- `matchstar(c, re, text)`; `here` is `matchhere` for the pattern `re`. -/
def matchstar (here : List UInt8 → Bool) (c : UInt8) : List UInt8 → Bool
  | [] => here []
  | t :: text => here (t :: text) || ((t = c || c = dot) && matchstar here c text)

def matchhere : List UInt8 → List UInt8 → Bool
  | [], _ => true
  | [c], text =>
    if c = dollar then text.isEmpty
    else match text with
      | [] => false
      | t :: _ => c = dot || c = t
  | c :: c' :: re, text =>
    if c' = star then matchstar (matchhere re) c text
    else match text with
      | [] => false
      | t :: text => (c = dot || c = t) && matchhere (c' :: re) text

def matchFrom (re : List UInt8) : List UInt8 → Bool
  | [] => matchhere re []
  | t :: text => matchhere re (t :: text) || matchFrom re text

def matchRe (re text : List UInt8) : Bool :=
  if re.head? = some caret then matchhere re.tail text else matchFrom re text

/-! ## The language of a pattern -/

/-- An element `c` or `c*` of a pattern. -/
inductive Elem where
  | one (c : UInt8)
  | many (c : UInt8)
  deriving DecidableEq

/-- The elements of a pattern, read from left to right. -/
def elems : List UInt8 → List Elem
  | [] => []
  | [c] => [.one c]
  | c :: c' :: re => if c' = star then .many c :: elems re else .one c :: elems (c' :: re)

/-- The character of a pattern stands for a byte. -/
def Stands (c a : UInt8) : Prop := c = dot ∨ c = a

/-- The strings of a sequence of elements. -/
def Lang : List Elem → List UInt8 → Prop
  | [], w => w = []
  | .one c :: es, w => ∃ a v, w = a :: v ∧ Stands c a ∧ Lang es v
  | .many c :: es, w => ∃ u v, w = u ++ v ∧ (∀ a ∈ u, Stands c a) ∧ Lang es v

/-- The last element is a `$` without a star. -/
def Ends (es : List Elem) : Prop := es.getLast? = some (.one dollar)

instance (es : List Elem) : Decidable (Ends es) := inferInstanceAs (Decidable (_ = _))

/-- The elements without the `$` at the end. -/
def body (es : List Elem) : List Elem := if Ends es then es.dropLast else es

/-- A string begins with one of the language, and ends with it if the pattern says so. -/
def Begins (es : List Elem) (text : List UInt8) : Prop :=
  ∃ w rest, text = w ++ rest ∧ (Ends es → rest = []) ∧ Lang (body es) w

lemma begins_nil (text : List UInt8) : Begins [] text :=
  ⟨[], text, rfl, fun h => absurd h (by decide), rfl⟩

lemma ends_cons {e : Elem} {es : List Elem} (h : es ≠ []) : Ends (e :: es) ↔ Ends es := by
  obtain ⟨e', es, rfl⟩ := List.exists_cons_of_ne_nil h
  rw [Ends, Ends, List.getLast?_cons_cons]

lemma body_cons {e : Elem} {es : List Elem} (h : ¬(es = [] ∧ e = .one dollar)) :
    body (e :: es) = e :: body es := by
  unfold body
  cases es with
  | nil =>
    have hend : ¬Ends [e] := fun hend => h ⟨rfl, Option.some.inj hend⟩
    rw [if_neg hend]
    rfl
  | cons e' es =>
    by_cases hend : Ends (e' :: es)
    · rw [if_pos hend, if_pos ((ends_cons (List.cons_ne_nil e' es)).mpr hend),
        List.dropLast_cons_cons]
    · rw [if_neg hend, if_neg fun h => hend ((ends_cons (List.cons_ne_nil e' es)).mp h)]

lemma ends_cons_iff {e : Elem} {es : List Elem} (h : ¬(es = [] ∧ e = .one dollar)) :
    Ends (e :: es) ↔ Ends es := by
  cases es with
  | nil => exact ⟨fun hend => absurd ⟨rfl, Option.some.inj hend⟩ h, fun hend => by cases hend⟩
  | cons e' es => exact ends_cons (List.cons_ne_nil e' es)

/-- A string of an element `c` first. -/
lemma begins_one {c : UInt8} {es : List Elem} (h : ¬(es = [] ∧ c = dollar))
    (text : List UInt8) :
    Begins (.one c :: es) text ↔ ∃ a v, text = a :: v ∧ Stands c a ∧ Begins es v := by
  have h' : ¬(es = [] ∧ Elem.one c = .one dollar) := fun hx => h ⟨hx.1, Elem.one.inj hx.2⟩
  unfold Begins
  rw [body_cons h', ends_cons_iff h']
  constructor
  · rintro ⟨w, rest, rfl, hend, a, v, rfl, hc, hl⟩
    exact ⟨a, v ++ rest, rfl, hc, v, rest, rfl, hend, hl⟩
  · rintro ⟨a, -, rfl, hc, v, rest, rfl, hend, hl⟩
    exact ⟨a :: v, rest, rfl, hend, a, v, rfl, hc, hl⟩

/-- A string of an element `c*` first. -/
lemma begins_many {c : UInt8} {es : List Elem} (text : List UInt8) :
    Begins (.many c :: es) text ↔
      ∃ u v, text = u ++ v ∧ (∀ a ∈ u, Stands c a) ∧ Begins es v := by
  have h' : ¬(es = [] ∧ Elem.many c = .one dollar) := fun hx => by cases hx.2
  unfold Begins
  rw [body_cons h', ends_cons_iff h']
  constructor
  · rintro ⟨w, rest, rfl, hend, u, v, rfl, hc, hl⟩
    exact ⟨u, v ++ rest, List.append_assoc u v rest, hc, v, rest, rfl, hend, hl⟩
  · rintro ⟨u, -, rfl, hc, v, rest, rfl, hend, hl⟩
    exact ⟨u ++ v, rest, (List.append_assoc u v rest).symm, hend, u, v, rfl, hc, hl⟩

lemma begins_dollar (text : List UInt8) : Begins [.one dollar] text ↔ text = [] := by
  constructor
  · rintro ⟨w, rest, rfl, hend, rfl⟩
    exact hend rfl
  · rintro rfl
    exact ⟨[], [], rfl, fun _ => rfl, rfl⟩

/-! ## The matcher -/

lemma stands_iff {c t : UInt8} : (decide (c = dot) || decide (c = t)) = true ↔ Stands c t := by
  rw [Bool.or_eq_true, decide_eq_true_iff, decide_eq_true_iff, Stands]

lemma stands_comm {c t : UInt8} : (decide (t = c) || decide (c = dot)) = true ↔ Stands c t := by
  rw [← stands_iff, Bool.or_comm, decide_eq_decide.mpr (eq_comm (a := t))]

/-- `matchstar` tries every number of repetitions, the smallest first. -/
lemma matchstar_iff {here : List UInt8 → Bool} {c : UInt8} (text : List UInt8) :
    matchstar here c text = true ↔
      ∃ u v, text = u ++ v ∧ (∀ a ∈ u, Stands c a) ∧ here v = true := by
  induction text with
  | nil =>
    constructor
    · exact fun h => ⟨[], [], rfl, by simp, h⟩
    · rintro ⟨u, v, huv, -, h⟩
      obtain ⟨rfl, rfl⟩ := List.append_eq_nil_iff.mp huv.symm
      exact h
  | cons t text ih =>
    rw [matchstar, Bool.or_eq_true, Bool.and_eq_true, ih]
    constructor
    · rintro (h | ⟨hc, u, v, rfl, hu, h⟩)
      · exact ⟨[], _, rfl, by simp, h⟩
      · refine ⟨t :: u, v, rfl, fun a ha => ?_, h⟩
        rcases List.mem_cons.mp ha with rfl | ha
        · exact stands_comm.mp hc
        · exact hu a ha
    · rintro ⟨u, v, huv, hu, h⟩
      cases u with
      | nil =>
        rw [huv]
        exact .inl h
      | cons a u =>
        obtain ⟨rfl, rfl⟩ := List.cons_eq_cons.mp huv
        have ht := hu t (by simp)
        refine .inr ⟨?_, u, v, rfl, fun a ha => hu a (List.mem_cons_of_mem _ ha), h⟩
        exact stands_comm.mpr ht

lemma elems_ne_nil (c : UInt8) (re : List UInt8) : elems (c :: re) ≠ [] := by
  cases re with
  | nil => exact List.cons_ne_nil _ _
  | cons c' re =>
    rw [elems]
    split <;> exact List.cons_ne_nil _ _

lemma matchhere_star (c : UInt8) (re text : List UInt8) :
    matchhere (c :: star :: re) text = matchstar (matchhere re) c text := by
  cases text <;> rfl

/-- `matchhere` finds the pattern at the beginning of the text. -/
lemma matchhere_iff : ∀ re text : List UInt8,
    matchhere re text = true ↔ Begins (elems re) text
  | [], text => ⟨fun _ => begins_nil text, fun _ => rfl⟩
  | [c], text => by
    by_cases hc : c = dollar
    · subst hc
      rw [elems, begins_dollar, ← List.isEmpty_iff]
      cases text <;> exact Iff.rfl
    rw [elems, begins_one fun h => hc h.2]
    cases text with
    | nil => simp [matchhere, hc]
    | cons t text =>
      simp only [matchhere, if_neg hc, stands_iff]
      constructor
      · exact fun h => ⟨t, text, rfl, h, begins_nil text⟩
      · rintro ⟨a, v, hav, h, -⟩
        rwa [(List.cons_eq_cons.mp hav).1]
  | c :: c' :: re, text => by
    by_cases hs : c' = star
    · subst hs
      rw [elems, if_pos rfl, begins_many, matchhere_star, matchstar_iff]
      simp only [matchhere_iff re]
    rw [elems, if_neg hs, begins_one fun h => elems_ne_nil c' re h.1]
    cases text with
    | nil => simp [matchhere, hs]
    | cons t text =>
      simp only [matchhere, if_neg hs, Bool.and_eq_true, stands_iff, matchhere_iff (c' :: re)]
      constructor
      · exact fun h => ⟨t, text, rfl, h⟩
      · rintro ⟨a, v, hav, h⟩
        obtain ⟨rfl, rfl⟩ := List.cons_eq_cons.mp hav
        exact h

/-- The loop of `match` tries every suffix of the text. -/
lemma matchFrom_iff (re text : List UInt8) :
    matchFrom re text = true ↔ ∃ pre v, text = pre ++ v ∧ Begins (elems re) v := by
  induction text with
  | nil =>
    rw [matchFrom, matchhere_iff]
    constructor
    · exact fun h => ⟨[], [], rfl, h⟩
    · rintro ⟨pre, v, hv, h⟩
      rwa [(List.append_eq_nil_iff.mp hv.symm).2] at h
  | cons t text ih =>
    rw [matchFrom, Bool.or_eq_true, matchhere_iff, ih]
    constructor
    · rintro (h | ⟨pre, v, rfl, h⟩)
      · exact ⟨[], _, rfl, h⟩
      · exact ⟨t :: pre, v, rfl, h⟩
    · rintro ⟨pre, v, hv, h⟩
      cases pre with
      | nil => exact .inl (hv ▸ h)
      | cons a pre => exact .inr ⟨pre, v, (List.cons_eq_cons.mp hv).2, h⟩

/-- `match` returns 1 if and only if a part of the text is in the language of the pattern; the part
is at the beginning of the text if the pattern starts with `^`, and at its end if the last element
is a `$` without a star. -/
theorem match_iff (re text : List UInt8) :
    matchRe re text = true ↔ ∃ pre w post, text = pre ++ (w ++ post) ∧
      (re.head? = some caret → pre = []) ∧
      (Ends (elems (if re.head? = some caret then re.tail else re)) → post = []) ∧
      Lang (body (elems (if re.head? = some caret then re.tail else re))) w := by
  by_cases hc : re.head? = some caret
  · simp only [matchRe, if_pos hc, matchhere_iff]
    constructor
    · rintro ⟨w, rest, rfl, hend, hl⟩
      exact ⟨[], w, rest, rfl, fun _ => rfl, hend, hl⟩
    · rintro ⟨pre, w, post, htext, hpre, hend, hl⟩
      rw [hpre hc, List.nil_append] at htext
      exact ⟨w, post, htext, hend, hl⟩
  · simp only [matchRe, if_neg hc, matchFrom_iff]
    constructor
    · rintro ⟨pre, -, rfl, w, rest, rfl, hend, hl⟩
      exact ⟨pre, w, rest, rfl, fun h => absurd h hc, hend, hl⟩
    · rintro ⟨pre, w, post, rfl, -, hend, hl⟩
      exact ⟨pre, _, rfl, w, post, rfl, hend, hl⟩

example : matchRe [caret, 97, dot, star, dollar] [97, 98] = true := by decide

/-! ## The loop over the input -/

/-- The byte `\n`. -/
abbrev newline : UInt8 := 10

/-- `strchr(s, c)`: what stands before the first `c`, and what follows it. -/
def strchr (c : UInt8) : List UInt8 → Option (List UInt8 × List UInt8)
  | [] => none
  | a :: s => if a = c then some ([], s) else (strchr c s).map fun r => (a :: r.1, r.2)

/-- The lines for which `match` returns 1, as `grep` writes them. -/
def wanted (pattern : List UInt8) (ls : List (List UInt8)) : List UInt8 :=
  (ls.filter (matchRe pattern)).flatMap (· ++ [newline])

/-- The inner loop of `grep` from `p` on: what is written, and `p` at the end. -/
def scanLines (pattern : List UInt8) : ℕ → List UInt8 → List UInt8 × List UInt8
  | 0, p => ([], p)
  | fuel + 1, p =>
    match strchr newline p with
    | none => ([], p)
    | some (line, p) =>
      let r := scanLines pattern fuel p
      (if matchRe pattern line then line ++ [newline] ++ r.1 else r.1, r.2)

/-- The runs of the outer loop: the `m` bytes in the buffer, the rest of the input and what is
written.  `read` returns a part of the input that fits into the buffer with its zero byte, and
nothing at the end of the input or if there is no room. -/
inductive Run (pattern : List UInt8) : List UInt8 → List UInt8 → List UInt8 → Prop where
  | stop {buf input : List UInt8} (h : input = [] ∨ buf.length = 1023) : Run pattern buf input []
  | read {buf piece input out : List UInt8} (hne : piece ≠ [])
      (hroom : piece.length ≤ 1024 - buf.length - 1)
      (h : Run pattern (scanLines pattern (buf ++ piece).length (buf ++ piece)).2 input out) :
      Run pattern buf (piece ++ input)
        ((scanLines pattern (buf ++ piece).length (buf ++ piece)).1 ++ out)

/-- The lines of a stream that end with a newline. -/
def linesOf (input : List UInt8) : List (List UInt8) := (input.splitOn newline).dropLast

variable {pattern : List UInt8}

lemma linesOf_cons {l : List UInt8} (hl : newline ∉ l) (input : List UInt8) :
    linesOf (l ++ newline :: input) = l :: linesOf input := by
  rw [linesOf, List.splitOn_append_cons_self_of_not_mem hl,
    List.dropLast_cons_of_ne_nil (List.splitOn_ne_nil _ _)]
  rfl

lemma linesOf_nil {l : List UInt8} (hl : newline ∉ l) : linesOf l = [] := by
  rw [linesOf, List.splitOn_eq_singleton hl]
  rfl

lemma strchr_some {s line p : List UInt8} (h : strchr newline s = some (line, p)) :
    newline ∉ line ∧ s = line ++ newline :: p := by
  induction s generalizing line with
  | nil => cases h
  | cons a s ih =>
    rw [strchr] at h
    split at h
    · rename_i ha
      cases h
      exact ⟨by simp, by rw [ha]; rfl⟩
    rename_i ha
    obtain ⟨⟨l, p'⟩, hr, heq⟩ := Option.map_eq_some_iff.mp h
    cases heq
    obtain ⟨hnot, rfl⟩ := ih hr
    exact ⟨fun hmem => (List.mem_cons.mp hmem).elim (fun hx => ha hx.symm) hnot, rfl⟩

lemma strchr_none {s : List UInt8} (h : strchr newline s = none) : newline ∉ s := by
  induction s with
  | nil => simp
  | cons a s ih =>
    rw [strchr] at h
    split at h
    · cases h
    · rename_i ha
      have hs := ih (Option.map_eq_none_iff.mp h)
      exact fun hmem => (List.mem_cons.mp hmem).elim (fun hx => ha hx.symm) hs

/-- The inner loop writes the wanted lines that end in the buffer. -/
lemma scanLines_spec (pattern : List UInt8) (fuel : ℕ) (p : List UInt8) (hfuel : p.length ≤ fuel) :
    ∃ ls, (scanLines pattern fuel p).1 = wanted pattern ls ∧
      newline ∉ (scanLines pattern fuel p).2 ∧
      (scanLines pattern fuel p).2.length ≤ p.length ∧ (∀ l ∈ ls, l.length < p.length) ∧
      ∀ input, linesOf (p ++ input) = ls ++ linesOf ((scanLines pattern fuel p).2 ++ input) := by
  induction fuel generalizing p with
  | zero =>
    rw [List.length_eq_zero_iff.mp (Nat.le_zero.mp hfuel)]
    exact ⟨[], rfl, by simp [scanLines], (Nat.le_refl _), by simp, fun _ => rfl⟩
  | succ fuel ih =>
    rw [scanLines]
    rcases hs : strchr newline p with _ | ⟨line, p'⟩
    · exact ⟨[], rfl, strchr_none hs, (Nat.le_refl _), by simp, fun _ => rfl⟩
    obtain ⟨hline, rfl⟩ := strchr_some hs
    rw [List.length_append, List.length_cons] at hfuel
    obtain ⟨ls, hout, htail, hlen, hshort, hlines⟩ := ih p' (by omega)
    refine ⟨line :: ls, ?_, htail, ?_, fun l hl => ?_, fun input => ?_⟩
    · dsimp only
      rw [hout]
      unfold wanted
      by_cases hm : matchRe pattern line = true
      · rw [if_pos hm, List.filter_cons_of_pos hm, List.flatMap_cons]
      · rw [if_neg hm, List.filter_cons_of_neg hm]
    · dsimp only
      rw [List.length_append, List.length_cons]
      omega
    · rw [List.length_append, List.length_cons]
      rcases List.mem_cons.mp hl with rfl | hl
      · omega
      · have := hshort l hl
        omega
    · rw [List.append_assoc, List.cons_append, linesOf_cons hline, hlines]
      rfl

/-- A line that fits into the buffer with its newline. -/
def Short (l : List UInt8) : Bool := l.length < 1023

/-- What a run writes: the wanted lines in front of the first one that does not fit. -/
lemma Run.out_eq {buf input out : List UInt8} (h : Run pattern buf input out)
    (hbuf : newline ∉ buf) (hlen : buf.length ≤ 1023) :
    out = wanted pattern ((linesOf (buf ++ input)).takeWhile Short) := by
  induction h with
  | @stop buf input h =>
    rcases hs : strchr newline input with _ | ⟨line, p⟩
    · rw [linesOf_nil fun hmem => (List.mem_append.mp hmem).elim hbuf (strchr_none hs)]
      rfl
    obtain ⟨hline, rfl⟩ := strchr_some hs
    have hfull : buf.length = 1023 := h.resolve_left (by simp)
    have hlong : Short (buf ++ line) = false := decide_eq_false (by simp [hfull])
    rw [← List.append_assoc,
      linesOf_cons fun hmem => (List.mem_append.mp hmem).elim hbuf hline,
      List.takeWhile_cons_of_neg (by simp [hlong])]
    rfl
  | @read buf piece input out hne hroom h ih =>
    have hroom' : (buf ++ piece).length ≤ 1023 := by
      rw [List.length_append]
      omega
    obtain ⟨ls, hout, htail, hle, hshort, hlines⟩ :=
      scanLines_spec pattern (buf ++ piece).length (buf ++ piece) (Nat.le_refl _)
    have hall : ∀ l ∈ ls, Short l = true := fun l hl =>
      decide_eq_true (Nat.lt_of_lt_of_le (hshort l hl) hroom')
    rw [← List.append_assoc, hlines, List.takeWhile_append_of_pos hall,
      ih htail (Nat.le_trans hle hroom'), hout, wanted, wanted, wanted, List.filter_append,
      List.flatMap_append]

lemma exists_run (input : List UInt8) {buf : List UInt8} (hlen : buf.length ≤ 1023) :
    ∃ out, Run pattern buf input out := by
  induction input generalizing buf with
  | nil => exact ⟨[], .stop (.inl rfl)⟩
  | cons a input ih =>
    by_cases hfull : buf.length = 1023
    · exact ⟨[], .stop (.inr hfull)⟩
    obtain ⟨ls, -, -, hle, -⟩ :=
      scanLines_spec pattern (buf ++ [a]).length (buf ++ [a]) (Nat.le_refl _)
    have hroom : (buf ++ [a]).length ≤ 1023 := by
      rw [List.length_append, List.length_singleton]
      omega
    obtain ⟨out, hrun⟩ := ih (Nat.le_trans hle hroom)
    exact ⟨_, @Run.read _ _ [a] _ _ (by simp) (by rw [List.length_singleton]; omega) hrun⟩

lemma wanted_eq_nil {ls : List (List UInt8)} :
    wanted pattern ls = [] ↔ ∀ l ∈ ls, matchRe pattern l = false := by
  simp [wanted, List.flatMap_eq_nil_iff]

/-- `grep` writes the wanted lines of its input, however it is split by `read`, if and only if none
of them is, or follows, a line that does not fit into the buffer. -/
theorem grep_writes_iff (pattern input : List UInt8) :
    (∃ out, Run pattern [] input out) ∧ ∀ out, Run pattern [] input out →
      (out = wanted pattern (linesOf input) ↔
        ∀ l ∈ (linesOf input).dropWhile Short, matchRe pattern l = false) := by
  refine ⟨exists_run input (Nat.zero_le _), fun out hrun => ?_⟩
  have hout := hrun.out_eq (by simp) (Nat.zero_le _)
  have hall : wanted pattern (linesOf input) =
      out ++ wanted pattern ((linesOf input).dropWhile Short) := by
    conv_lhs => rw [← List.takeWhile_append_dropWhile (p := Short) (l := linesOf input)]
    rw [hout, wanted, List.filter_append, List.flatMap_append]
    rfl
  rw [hall, ← wanted_eq_nil]
  exact List.self_eq_append_right

/-- Two lines, one of which is wanted. -/
theorem grep_writes_iff_two :
    Run [97] [] [97, 10, 98, 10] [97, 10] ∧
      ∀ l ∈ (linesOf [97, 10, 98, 10]).dropWhile Short, matchRe [97] l = false := by
  have hrun : Run [97] [] [97, 10, 98, 10] [97, 10] :=
    @Run.read _ _ [97, 10, 98, 10] _ _ (by decide) (by decide) (.stop (.inl rfl))
  exact ⟨hrun, ((grep_writes_iff [97] _).2 _ hrun).mp (by decide)⟩

/-- A line of 1023 bytes: the buffer is full, and the loop ends. -/
theorem grep_loses_long_line :
    Run [97] [] (List.replicate 1023 97 ++ [newline]) [] ∧
      wanted [97] (linesOf (List.replicate 1023 97 ++ [newline])) ≠ [] := by
  have hnot : newline ∉ List.replicate 1023 97 := fun h =>
    absurd (List.eq_of_mem_replicate h) (by decide)
  have hlines : linesOf (List.replicate 1023 97 ++ [newline]) = [List.replicate 1023 97] := by
    rw [linesOf_cons hnot, linesOf_nil (by simp)]
  have hlong : ¬Short (List.replicate 1023 97) = true := by
    rw [Short, List.length_replicate]
    decide
  obtain ⟨out, hrun⟩ := @exists_run [97] (List.replicate 1023 97 ++ [newline]) [] (Nat.zero_le _)
  have hout := hrun.out_eq (by simp) (Nat.zero_le _)
  rw [List.nil_append, hlines, List.takeWhile_cons_of_neg hlong] at hout
  have hnil : out = [] := hout
  subst hnil
  rw [hlines]
  refine ⟨hrun, fun h => ?_⟩
  have hmatch := wanted_eq_nil.mp h _ (List.mem_singleton.mpr rfl)
  rw [List.replicate_succ] at hmatch
  cases hmatch

end Xv6.Grep
