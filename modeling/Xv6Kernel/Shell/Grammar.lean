import Xv6Kernel.Shell.Model
import Mathlib.Data.List.TakeWhile

/-!
# The grammar of the shell

The tokens of a line and the grammar of commands, with the command that belongs to a derivation, and
what `gettoken` and `peek` have to do with the tokens.
-/

namespace Xv6

variable {s w : List UInt8} {c : UInt8}

namespace Shell

inductive Tok where
  | word (w : List UInt8)
  | lt
  | gt
  | gtgt
  | bar
  | amp
  | semi
  | lpar
  | rpar
  deriving DecidableEq

/-- The symbols of one byte that are never part of a longer one. -/
def symTok (c : UInt8) : Option Tok :=
  if c = bar then some .bar
  else if c = lpar then some .lpar
  else if c = rpar then some .rpar
  else if c = semi then some .semi
  else if c = amp then some .amp
  else if c = lt then some .lt
  else none

def addChar (c : UInt8) (s : List UInt8) (ts : List Tok) : List Tok :=
  match ts with
  | .word w :: ts' => if s.head?.any isWordChar then .word (c :: w) :: ts' else .word [c] :: ts
  | _ => .word [c] :: ts

def tokens : List UInt8 → List Tok
  | [] => []
  | [c] =>
    if isWhitespace c then []
    else
      match symTok c with
      | some t => [t]
      | none => if c = gt then [.gt] else [.word [c]]
  | c :: d :: s =>
    if isWhitespace c then tokens (d :: s)
    else
      match symTok c with
      | some t => t :: tokens (d :: s)
      | none =>
        if c = gt then
          if d = gt then .gtgt :: tokens s else .gt :: tokens (d :: s)
        else addChar c (d :: s) (tokens (d :: s))

/-! ## The grammar -/

def redirMode : Tok → Option (ℕ × ℕ)
  | .lt => some (O_RDONLY, 0)
  | .gt => some (O_WRONLY ||| O_CREATE ||| O_TRUNC, 1)
  | .gtgt => some (O_WRONLY ||| O_CREATE, 1)
  | _ => none

inductive Redirs : List Tok → List (Redir (List UInt8)) → Prop
  | nil : Redirs [] []
  | cons {t : Tok} {mode fd : ℕ} {ts : List Tok} {rs : List (Redir (List UInt8))}
      (w : List UInt8) (ht : redirMode t = some (mode, fd)) (hts : Redirs ts rs) :
      Redirs (t :: .word w :: ts) (⟨w, mode, fd⟩ :: rs)

inductive Args : List Tok → List (List UInt8) → List (Redir (List UInt8)) → Prop
  | nil : Args [] [] []
  | cons {ts us : List Tok} {rs rs' : List (Redir (List UInt8))} {argv : List (List UInt8)}
      (w : List UInt8) (hts : Redirs ts rs) (hus : Args us argv rs') :
      Args (.word w :: (ts ++ us)) (w :: argv) (rs ++ rs')

/-- `BACK` once for every `&`. -/
def backs : ℕ → Cmd (List UInt8) → Cmd (List UInt8)
  | 0, c => c
  | n + 1, c => backs n (.back c)

mutual

inductive Line : List Tok → Cmd (List UInt8) → Prop
  | pipe {ts : List Tok} {c : Cmd (List UInt8)} (n : ℕ) (hts : Pipe ts c) :
      Line (ts ++ List.replicate n .amp) (backs n c)
  | list {ts us : List Tok} {c d : Cmd (List UInt8)} (n : ℕ) (hts : Pipe ts c)
      (hus : Line us d) :
      Line (ts ++ List.replicate n .amp ++ .semi :: us) (.list (backs n c) d)

inductive Pipe : List Tok → Cmd (List UInt8) → Prop
  | exec {ts : List Tok} {c : Cmd (List UInt8)} (hts : Exec ts c) : Pipe ts c
  | pipe {ts us : List Tok} {c d : Cmd (List UInt8)} (hts : Exec ts c) (hus : Pipe us d) :
      Pipe (ts ++ .bar :: us) (.pipe c d)

inductive Exec : List Tok → Cmd (List UInt8) → Prop
  | block {ts us : List Tok} {c : Cmd (List UInt8)} {rs : List (Redir (List UInt8))}
      (hts : Line ts c) (hus : Redirs us rs) : Exec (.lpar :: (ts ++ .rpar :: us)) (c.wrap rs)
  | simple {ts us : List Tok} {rs rs' : List (Redir (List UInt8))} {argv : List (List UInt8)}
      (hts : Redirs ts rs) (hus : Args us argv rs') (hargc : argv.length < MAXARGS) :
      Exec (ts ++ us) ((Cmd.exec argv).wrap (rs ++ rs'))

end

/-! ## Tokens and bytes -/

lemma tokens_whitespace (hc : isWhitespace c = true) (s : List UInt8) :
    tokens (c :: s) = tokens s := by
  cases s <;> simp [tokens, hc]

lemma tokens_skipWhitespace (s : List UInt8) : tokens (skipWhitespace s) = tokens s := by
  induction s with
  | nil => rfl
  | cons c s ih =>
    by_cases hc : isWhitespace c = true
    · rw [tokens_whitespace hc, ← ih, skipWhitespace, List.dropWhile_cons_of_pos hc]
      rfl
    · rw [skipWhitespace, List.dropWhile_cons_of_neg hc]

lemma tokens_symbol {t : Tok} (hc : isWhitespace c = false) (ht : symTok c = some t)
    (s : List UInt8) : tokens (c :: s) = t :: tokens s := by
  cases s <;> simp [tokens, hc, ht]

lemma tokens_gt (s : List UInt8) :
    tokens (gt :: s) = if s.head? = some gt then .gtgt :: tokens s.tail else .gt :: tokens s := by
  have hw : isWhitespace gt = false := by decide
  have hs : symTok gt = none := by decide
  cases s with
  | nil => simp [tokens, hw, hs]
  | cons d s => by_cases hd : d = gt <;> simp [tokens, hw, hs, hd]

lemma isWordChar_iff : isWordChar c = true ↔ isWhitespace c = false ∧ symTok c = none ∧ c ≠ gt := by
  have hsym : isSymbol c = false ↔ symTok c = none ∧ c ≠ gt := by
    unfold isSymbol symTok
    constructor
    · intro h
      simp only [decide_eq_false_iff_not, not_or] at h
      obtain ⟨h1, h2, h3, h4, h5, h6, h7⟩ := h
      simp [h1, h2, h3, h4, h5, h6, h7]
    · rintro ⟨h, hgt⟩
      simp only [decide_eq_false_iff_not, not_or]
      refine ⟨?_, ?_, hgt, ?_, ?_, ?_, ?_⟩ <;> rintro rfl <;> exact absurd h (by decide)
  rw [isWordChar, Bool.and_eq_true, Bool.not_eq_true', Bool.not_eq_true', hsym]

lemma tokens_char (hc : isWordChar c = true) (s : List UInt8) :
    tokens (c :: s) = addChar c s (tokens s) := by
  obtain ⟨h1, h2, h3⟩ := isWordChar_iff.mp hc
  cases s with
  | nil => simp [tokens, h1, h2, h3, addChar]
  | cons d s => simp [tokens, h1, h2, h3]

lemma addChar_word {ts : List Tok} (hs : s.head?.any isWordChar = true) :
    addChar c s (.word w :: ts) = .word (c :: w) :: ts := if_pos hs

lemma addChar_single {ts : List Tok}
    (hs : s.head?.any isWordChar = false) : addChar c s ts = .word [c] :: ts := by
  unfold addChar
  split
  · rw [if_neg (by rw [hs]; exact Bool.false_ne_true)]
  · rfl

lemma tokens_word (hne : w ≠ []) (hw : ∀ c ∈ w, isWordChar c = true) {e : List UInt8}
    (he : e.head?.any isWordChar = false) : tokens (w ++ e) = .word w :: tokens e := by
  induction w with
  | nil => exact absurd rfl hne
  | cons c w ih =>
    rw [List.cons_append, tokens_char (hw c List.mem_cons_self)]
    by_cases hnil : w = []
    · subst hnil
      exact addChar_single he
    · rw [ih hnil fun d hd => hw d (List.mem_cons_of_mem c hd)]
      obtain ⟨d, w', rfl⟩ := List.exists_cons_of_ne_nil hnil
      exact addChar_word (by simpa using hw d (by simp))

lemma length_addChar_le (c : UInt8) (s : List UInt8) (ts : List Tok) :
    (addChar c s ts).length ≤ ts.length + 1 := by
  unfold addChar
  split
  · split <;> simp
  · simp

lemma length_tokens_le (s : List UInt8) : (tokens s).length ≤ s.length := by
  induction hn : s.length using Nat.strong_induction_on generalizing s with
  | _ n ih =>
    rcases s with _ | ⟨c, s⟩
    · simp [tokens]
    rw [List.length_cons] at hn
    have hs := ih s.length (by omega) s rfl
    by_cases hw : isWhitespace c = true
    · rw [tokens_whitespace hw]
      omega
    have hw : isWhitespace c = false := by simpa using hw
    cases ht : symTok c with
    | some t =>
      rw [tokens_symbol hw ht, List.length_cons]
      omega
    | none =>
      by_cases hg : c = gt
      · subst hg
        have htail := ih s.tail.length (by rw [List.length_tail]; omega) s.tail rfl
        rw [List.length_tail] at htail
        rw [tokens_gt]
        split
        · rw [List.length_cons]
          omega
        · rw [List.length_cons]
          omega
      · rw [tokens_char (isWordChar_iff.mpr ⟨hw, ht, hg⟩)]
        have hadd := length_addChar_le c s (tokens s)
        omega

/-! ## `gettoken` and `peek` -/

def Tok.code : Tok → UInt8
  | .word _ => wordTok
  | .lt => Shell.lt
  | .gt => Shell.gt
  | .gtgt => appendTok
  | .bar => Shell.bar
  | .amp => Shell.amp
  | .semi => Shell.semi
  | .lpar => Shell.lpar
  | .rpar => Shell.rpar

def Tok.first : Tok → Option UInt8
  | .word _ => none
  | .gtgt => some Shell.gt
  | t => some t.code

structure WordAt (s : Ptr) (p : Word) : Prop where
  suffix : p.1 <:+ s
  word : ∃ w, w ≠ [] ∧ (∀ c ∈ w, isWordChar c = true) ∧ p.1 = w ++ p.2
  stop : p.2.head?.any isWordChar = false

def text (p : Word) : List UInt8 := p.1.take (p.1.length - p.2.length)

lemma text_append (w e : List UInt8) : text (w ++ e, e) = w := by
  rw [text]
  simp

lemma WordAt.mono {s s' : Ptr} {p : Word} (h : WordAt s' p) (hs : s' <:+ s) : WordAt s p :=
  ⟨h.suffix.trans hs, h.word, h.stop⟩

lemma skipWhitespace_suffix (s : Ptr) : skipWhitespace s <:+ s := List.dropWhile_suffix _

lemma head_skipWhitespace (s : Ptr) : ∀ c ∈ (skipWhitespace s).head?, isWhitespace c = false := by
  intro c hc
  have hhd := List.head?_dropWhile_not isWhitespace s
  rw [← skipWhitespace, Option.mem_def.mp hc] at hhd
  simpa using hhd

lemma symTok_cases {t : Tok} (ht : symTok c = some t) :
    (c = bar ∨ c = lpar ∨ c = rpar ∨ c = semi ∨ c = amp ∨ c = lt) ∧ t.code = c ∧
      t.first = some c ∧ ∀ w, t ≠ .word w := by
  unfold symTok at ht
  split at ht
  · cases ht; simp_all [Tok.code, Tok.first]
  split at ht
  · cases ht; simp_all [Tok.code, Tok.first]
  split at ht
  · cases ht; simp_all [Tok.code, Tok.first]
  split at ht
  · cases ht; simp_all [Tok.code, Tok.first]
  split at ht
  · cases ht; simp_all [Tok.code, Tok.first]
  · split at ht
    · cases ht; simp_all [Tok.code, Tok.first]
    · cases ht

lemma gettoken_spec (ps : Ptr) : (tokens ps = [] ∧ gettoken ps = (0, [], [], [])) ∨
    ∃ t q e rest, gettoken ps = (t.code, q, e, rest) ∧ tokens ps = t :: tokens rest ∧
      rest <:+ ps ∧ ∀ w, t = .word w → WordAt ps (q, e) ∧ text (q, e) = w := by
  obtain ⟨s, hs⟩ : ∃ s, s = skipWhitespace ps := ⟨_, rfl⟩
  have htok : tokens ps = tokens s := by rw [hs, tokens_skipWhitespace]
  have hsuf : s <:+ ps := hs ▸ skipWhitespace_suffix ps
  have hhead := hs ▸ head_skipWhitespace ps
  have hget : gettoken ps = ((scan s).1, s, (scan s).2, skipWhitespace (scan s).2) := by
    rw [gettoken, ← hs]
  rcases s with _ | ⟨c, s⟩
  · exact .inl ⟨htok.trans rfl, hget.trans rfl⟩
  right
  have hw : isWhitespace c = false := hhead c rfl
  have hsub : s <:+ ps := (List.suffix_cons c s).trans hsuf
  cases ht : symTok c with
  | some t =>
    obtain ⟨hc, hcode, -, hnot⟩ := symTok_cases ht
    have hscan : scan (c :: s) = (c, s) := if_pos hc
    rw [hscan] at hget
    refine ⟨t, _, _, _, by rw [hcode]; exact hget, ?_,
      (skipWhitespace_suffix s).trans hsub, fun w hx => absurd hx (hnot w)⟩
    rw [htok, tokens_symbol hw ht, tokens_skipWhitespace]
  | none =>
    have hc : ¬(c = bar ∨ c = lpar ∨ c = rpar ∨ c = semi ∨ c = amp ∨ c = lt) := by
      rintro (rfl | rfl | rfl | rfl | rfl | rfl) <;> exact absurd ht (by decide)
    by_cases hg : c = gt
    · subst hg
      have hscan : scan (gt :: s) =
          if s.head? = some gt then (appendTok, s.tail) else (gt, s) := by
        rw [scan, if_neg hc, if_pos rfl]
      rw [hscan] at hget
      by_cases hd : s.head? = some gt
      · rw [if_pos hd] at hget
        refine ⟨.gtgt, _, _, _, hget, ?_,
          (skipWhitespace_suffix _).trans ((List.tail_suffix s).trans hsub),
          fun w hx => by cases hx⟩
        rw [htok, tokens_gt, if_pos hd, tokens_skipWhitespace]
      rw [if_neg hd] at hget
      refine ⟨.gt, _, _, _, hget, ?_, (skipWhitespace_suffix _).trans hsub,
        fun w hx => by cases hx⟩
      rw [htok, tokens_gt, if_neg hd, tokens_skipWhitespace]
    · -- a word
      have hchar := isWordChar_iff.mpr ⟨hw, ht, hg⟩
      have hscan : scan (c :: s) = (wordTok, (c :: s).dropWhile isWordChar) := by
        rw [scan, if_neg hc, if_neg hg]
      rw [hscan] at hget
      obtain ⟨w, hwd⟩ : ∃ w, w = (c :: s).takeWhile isWordChar := ⟨_, rfl⟩
      obtain ⟨e, hed⟩ : ∃ e, e = (c :: s).dropWhile isWordChar := ⟨_, rfl⟩
      have hsplit : c :: s = w ++ e := by
        rw [hwd, hed]
        exact List.takeWhile_append_dropWhile.symm
      have hne : w ≠ [] := by
        rw [hwd, List.takeWhile_cons_of_pos hchar]
        exact List.cons_ne_nil _ _
      have hall : ∀ d ∈ w, isWordChar d = true := fun d hd =>
        List.mem_takeWhile_imp (hwd ▸ hd)
      have hstop : e.head?.any isWordChar = false := by
        have hhd := List.head?_dropWhile_not isWordChar (c :: s)
        rw [← hed] at hhd
        cases hx : e.head? with
        | none => rfl
        | some d =>
          rw [hx] at hhd
          simpa using hhd
      have hesuf : e <:+ ps := (hed ▸ List.dropWhile_suffix _).trans hsuf
      rw [← hed] at hget
      refine ⟨.word w, _, _, _, hget, ?_, (skipWhitespace_suffix e).trans hesuf,
        fun w' hx => ?_⟩
      · rw [htok, hsplit, tokens_word hne hall hstop, tokens_skipWhitespace]
      · cases hx
        refine ⟨⟨hsuf, ⟨w, hne, hall, hsplit⟩, hstop⟩, ?_⟩
        rw [hsplit, text_append]

lemma peek_spec (ps : Ptr) (toks : List UInt8) (htoks : toks.all isSymbol = true) :
    ∃ ps' b, peek ps toks = (ps', b) ∧ tokens ps' = tokens ps ∧ ps' <:+ ps ∧
      (b = true ↔ ∃ t ts c, tokens ps = t :: ts ∧ t.first = some c ∧ c ∈ toks) := by
  refine ⟨skipWhitespace ps, _, rfl, tokens_skipWhitespace ps, skipWhitespace_suffix ps, ?_⟩
  rw [← tokens_skipWhitespace ps]
  have hhead := head_skipWhitespace ps
  rcases hs : skipWhitespace ps with _ | ⟨c, s⟩
  · simp [tokens]
  rw [hs] at hhead
  have hw : isWhitespace c = false := hhead c rfl
  rw [List.head?_cons, Option.any_some, decide_eq_true_iff]
  cases ht : symTok c with
  | some t =>
    obtain ⟨-, -, hfirst, -⟩ := symTok_cases ht
    rw [tokens_symbol hw ht]
    constructor
    · exact fun hc => ⟨t, _, c, rfl, hfirst, hc⟩
    · rintro ⟨t', ts, c', heq, hf, hc⟩
      cases heq
      rw [hfirst] at hf
      cases hf
      exact hc
  | none =>
    by_cases hg : c = gt
    · subst hg
      obtain ⟨t, ts, heq, hf⟩ : ∃ t ts, tokens (gt :: s) = t :: ts ∧ t.first = some gt := by
        rw [tokens_gt]
        split
        · exact ⟨_, _, rfl, rfl⟩
        · exact ⟨_, _, rfl, rfl⟩
      rw [heq]
      constructor
      · exact fun hc => ⟨t, ts, gt, rfl, hf, hc⟩
      · rintro ⟨t', ts', c', heq', hf', hc⟩
        cases heq'
        rw [hf] at hf'
        cases hf'
        exact hc
    · have hchar := isWordChar_iff.mpr ⟨hw, ht, hg⟩
      have hnot : c ∉ toks := fun hc => by
        have hsym := List.all_eq_true.mp htoks c hc
        rw [isWordChar, hsym] at hchar
        simp at hchar
      obtain ⟨w, ts, heq⟩ : ∃ w ts, tokens (c :: s) = .word w :: ts := by
        rw [tokens_char hchar]
        unfold addChar
        split
        · split
          · exact ⟨_, _, rfl⟩
          · exact ⟨_, _, rfl⟩
        · exact ⟨_, _, rfl⟩
      rw [heq]
      refine ⟨fun hc => absurd hc hnot, ?_⟩
      rintro ⟨t', ts', c', heq', hf', hc⟩
      cases heq'
      cases hf'

end Shell

end Xv6
