import Xv6Kernel.Shell.Parser

/-!
# The parser finds every derivation

If the tokens in front of a function of the parser begin with a derivation, and what follows cannot
be taken for a part of it, the function returns the command of the derivation.
-/

namespace Xv6.Shell

variable {argv : List (List UInt8)} {rs : List (Redir (List UInt8))} {us ts : List Tok} {ps : Ptr}
  {fuel : ℕ}

def NotNext (bad : Tok → Bool) (us : List Tok) : Prop := ∀ t ∈ us.head?, bad t = false

def startsRedir (t : Tok) : Bool := (redirMode t).isSome

def startsArg : Tok → Bool
  | .bar => false
  | .rpar => false
  | .amp => false
  | .semi => false
  | _ => true

def startsPipe (t : Tok) : Bool := startsArg t || t = .bar

def startsLine (t : Tok) : Bool := t ≠ .rpar

def Finds {α β : Type} (f : α → β) (a : β) (us : List Tok) (out : Except String (α × Ptr)) : Prop :=
  ∃ a' ps', out = .ok (a', ps') ∧ tokens ps' = us ∧ f a' = a

lemma first_of_redirMode {t : Tok} {m : ℕ × ℕ} (ht : redirMode t = some m) :
    ∃ c, t.first = some c ∧ c ∈ [lt, gt] := by
  cases t with
  | lt => exact ⟨_, rfl, by decide⟩
  | gt => exact ⟨_, rfl, by decide⟩
  | gtgt => exact ⟨_, rfl, by decide⟩
  | _ => cases ht

lemma parseredirs_complete (h : Redirs ts rs) (hus : NotNext startsRedir us)
    (hfuel : ts.length < fuel) (hps : tokens ps = ts ++ us) :
    Finds (List.map Redir.text) rs us (parseredirs fuel ps) := by
  induction h generalizing fuel ps with
  | nil =>
    obtain ⟨fuel, rfl⟩ := Nat.exists_eq_succ_of_ne_zero (Nat.ne_zero_of_lt hfuel)
    obtain ⟨ps1, b, hpeek, htok1, hsuf1, hb⟩ := peek_spec ps [lt, gt] rfl
    rw [parseredirs, hpeek]
    cases b with
    | false => exact ⟨_, _, rfl, htok1.trans hps, rfl⟩
    | true =>
      obtain ⟨t, ts, c, htok, hfirst, hc⟩ := hb.mp rfl
      obtain ⟨mode, fd, hmode, -⟩ := redirMode_of_first hfirst hc
      have hbad := hus t (by rw [← List.nil_append us, ← hps, htok]; rfl)
      rw [startsRedir, hmode] at hbad
      cases hbad
  | @cons t mode fd ts rs w ht hts ih =>
    obtain ⟨fuel, rfl⟩ := Nat.exists_eq_succ_of_ne_zero (Nat.ne_zero_of_lt hfuel)
    obtain ⟨ps1, b, hpeek, htok1, hsuf1, hb⟩ := peek_spec ps [lt, gt] rfl
    obtain ⟨c, hfirst, hc⟩ := first_of_redirMode ht
    have hbt : b = true := hb.mpr ⟨t, _, c, hps, hfirst, hc⟩
    subst hbt
    rw [parseredirs, hpeek]
    simp only [if_true]
    rcases gettoken_spec ps1 with ⟨hnil, -⟩ | ⟨t', q, e, ps2, hget, htok2, -, -⟩
    · rw [htok1, hps] at hnil
      cases hnil
    rw [htok1, hps] at htok2
    obtain ⟨rfl, htail⟩ := List.cons.inj htok2
    have htail : .word w :: (ts ++ us) = tokens ps2 := htail
    rw [hget]
    dsimp only
    rcases gettoken_spec ps2 with ⟨hnil, -⟩ | ⟨u, q', e', ps3, hget2, htok3, -, hword⟩
    · rw [← htail] at hnil
      cases hnil
    rw [← htail] at htok3
    obtain ⟨rfl, htail'⟩ := List.cons.inj htok3
    obtain ⟨-, htext⟩ := hword w rfl
    rw [hget2]
    dsimp only
    rw [if_neg fun hx => hx rfl]
    rw [List.length_cons, List.length_cons] at hfuel
    obtain ⟨rs', ps4, hout, htok4, hrs⟩ := ih (show _ < fuel by omega) htail'.symm
    obtain ⟨mode', fd', hmode, hredir⟩ := redirMode_of_first hfirst hc
    rw [ht] at hmode
    cases hmode
    rw [hout]
    refine ⟨_, _, rfl, htok4, ?_⟩
    rw [List.map_cons, hrs, hredir, Redir.text, htext]

lemma notNext_redir_append {vs : List Tok} (h : Args us argv rs) (hvs : NotNext startsArg vs) :
    NotNext startsRedir (us ++ vs) := by
  cases h with
  | nil =>
    intro t ht
    have hbad := hvs t ht
    cases t with
    | bar => rfl
    | rpar => rfl
    | amp => rfl
    | semi => rfl
    | _ => cases hbad
  | cons w hts hus =>
    intro t ht
    cases ht
    rfl

lemma parseargs_complete (h : Args ts argv rs) (hus : NotNext startsArg us) {argc : ℕ}
    (hargc : argc + argv.length < MAXARGS) (hfuel : ts.length + 1 < fuel)
    (hps : tokens ps = ts ++ us) :
    Finds (fun a : List Word × List (Redir Word) => (a.1.map text, a.2.map Redir.text)) (argv, rs)
      us
      (match parseargs fuel argc ps with
        | .error msg => .error msg
        | .ok (argv, rs, ps) => .ok ((argv, rs), ps)) := by
  induction h generalizing argc fuel ps with
  | nil =>
    obtain ⟨fuel, rfl⟩ := Nat.exists_eq_succ_of_ne_zero (Nat.ne_zero_of_lt hfuel)
    obtain ⟨ps1, b, hpeek, htok1, hsuf1, hb⟩ :=
      peek_spec ps [bar, rpar, amp, semi] rfl
    rw [parseargs, hpeek]
    cases b with
    | true => exact ⟨_, _, rfl, htok1.trans hps, rfl⟩
    | false =>
      simp only [Bool.false_eq_true, if_false]
      rcases gettoken_spec ps1 with ⟨hnil, hget⟩ | ⟨t, q, e, ps2, hget, htok2, -, -⟩
      · rw [hget]
        refine ⟨_, _, rfl, ?_, rfl⟩
        rw [← List.nil_append us, ← hps, ← htok1, hnil]
        rfl
      · -- what follows ends the command, so `peek` has found it
        rw [htok1] at htok2
        have hbad := hus t (by rw [← List.nil_append us, ← hps, htok2]; rfl)
        have hfirst : ∃ c, t.first = some c ∧ c ∈ [bar, rpar, amp, semi] := by
          cases t with
          | bar => exact ⟨_, rfl, by decide⟩
          | rpar => exact ⟨_, rfl, by decide⟩
          | amp => exact ⟨_, rfl, by decide⟩
          | semi => exact ⟨_, rfl, by decide⟩
          | _ => cases hbad
        obtain ⟨c, hfirst, hc⟩ := hfirst
        exact absurd (hb.mpr ⟨t, _, c, htok2, hfirst, hc⟩) Bool.false_ne_true
  | @cons ts us' rs rs' argv w hts hus' ih =>
    obtain ⟨fuel, rfl⟩ := Nat.exists_eq_succ_of_ne_zero (Nat.ne_zero_of_lt hfuel)
    obtain ⟨ps1, b, hpeek, htok1, hsuf1, hb⟩ :=
      peek_spec ps [bar, rpar, amp, semi] rfl
    have hbf : b = false := by
      rw [Bool.eq_false_iff]
      intro hx
      obtain ⟨t, ts', c, htok, hfirst, -⟩ := hb.mp hx
      rw [hps] at htok
      cases htok
      cases hfirst
    subst hbf
    rw [parseargs, hpeek]
    simp only [Bool.false_eq_true, if_false]
    rcases gettoken_spec ps1 with ⟨hnil, -⟩ | ⟨t, q, e, ps2, hget, htok2, -, hword⟩
    · rw [htok1, hps] at hnil
      cases hnil
    rw [htok1, hps] at htok2
    obtain ⟨rfl, htail⟩ := List.cons.inj htok2
    have htail : ts ++ us' ++ us = tokens ps2 := htail
    obtain ⟨-, htext⟩ := hword w rfl
    rw [List.length_cons] at hargc
    rw [List.length_cons, List.length_append] at hfuel
    rw [hget]
    dsimp only
    rw [if_neg (code_ne_zero _), if_neg fun hx => hx rfl, if_neg (by omega)]
    rw [List.append_assoc] at htail
    obtain ⟨rs1, ps3, hout, htok3, hrs1⟩ := parseredirs_complete hts
      (notNext_redir_append hus' hus) (show _ < fuel by omega) htail.symm
    rw [hout]
    dsimp only
    obtain ⟨a, ps4, hout', htok4, ha⟩ := ih
      (show argc + 1 + _ < MAXARGS by omega) (show _ < fuel by omega) htok3
    rcases hr : parseargs fuel (argc + 1) ps3 with msg | ⟨argv2, rs2, ps5⟩
    · rw [hr] at hout'
      cases hout'
    rw [hr] at hout'
    cases hout'
    refine ⟨_, _, rfl, htok4, ?_⟩
    obtain ⟨h1, h2⟩ := Prod.mk.inj ha
    simp only [List.map_cons, List.map_append, htext, hrs1, h1, h2]

lemma parseback_complete (n : ℕ) (hus : us.head? ≠ some .amp) (hfuel : n < fuel) (cmd : Cmd Word)
    (hps : tokens ps = List.replicate n .amp ++ us) :
    Finds (Cmd.map text) (backs n (cmd.map text)) us (parseback fuel cmd ps) := by
  induction n generalizing fuel cmd ps with
  | zero =>
    obtain ⟨fuel, rfl⟩ := Nat.exists_eq_succ_of_ne_zero (Nat.ne_zero_of_lt hfuel)
    obtain ⟨ps1, b, hpeek, htok1, -, htrue, -⟩ :=
      peek_symbol ps (show symTok amp = some .amp from rfl)
    rw [parseback, hpeek]
    cases b with
    | false => exact ⟨_, _, rfl, htok1.trans hps, rfl⟩
    | true =>
      obtain ⟨r, q, e, ps2, -, htok, -⟩ := htrue rfl
      have hps : tokens ps = us := hps
      rw [← hps, htok] at hus
      exact absurd rfl hus
  | succ n ih =>
    obtain ⟨fuel, rfl⟩ := Nat.exists_eq_succ_of_ne_zero (Nat.ne_zero_of_lt hfuel)
    obtain ⟨ps1, b, hpeek, htok1, -, htrue, hfalse⟩ :=
      peek_symbol ps (show symTok amp = some .amp from rfl)
    rw [parseback, hpeek]
    rcases b with _ | _
    · have hx := hfalse rfl
      rw [hps] at hx
      exact absurd rfl hx
    obtain ⟨r, q, e, ps2, hget, htok, -⟩ := htrue rfl
    simp only [if_true, hget]
    rw [hps] at htok
    obtain ⟨-, htok⟩ := List.cons.inj htok
    exact ih (by omega) (.back cmd) htok.symm

/-- A function of the parser finds what is derived, given enough rounds, if none of `bad`
follows. -/
def Completes (P : List Tok → Cmd (List UInt8) → Prop) (bad : Tok → Bool) (k : ℕ)
    (parse : ℕ → Ptr → Except String (Cmd Word × Ptr)) (fuel : ℕ) : Prop :=
  ∀ {ts us : List Tok} {c : Cmd (List UInt8)} {ps : Ptr}, P ts c → NotNext bad us →
    5 * ts.length + k ≤ fuel → tokens ps = ts ++ us → Finds (Cmd.map text) c us (parse fuel ps)

lemma parseline_complete (ihline : Completes Line startsLine 5 parseline fuel)
    (ihpipe : Completes Pipe startsPipe 4 parsepipe fuel) :
    Completes Line startsLine 5 parseline (fuel + 1) := by
  intro ts us c ps h hus hfuel hps
  rw [parseline]
  cases h with
  | @pipe ts c n hts =>
    rw [List.length_append, List.length_replicate] at hfuel
    rw [List.append_assoc] at hps
    have hend : us.head? ≠ some .amp ∧ us.head? ≠ some .semi ∧ us.head? ≠ some .bar := by
      refine ⟨fun hx => ?_, fun hx => ?_, fun hx => ?_⟩ <;>
        exact absurd (hus _ hx) (by decide)
    have hpipe : NotNext startsPipe (List.replicate n .amp ++ us) := by
      cases n with
      | zero =>
        intro t ht
        have hbad := hus t ht
        have ht' : t = .rpar := by simpa [startsLine] using hbad
        subst ht'
        rfl
      | succ n =>
        intro t ht
        cases ht
        rfl
    obtain ⟨c1, ps1, hout1, htok1, hc1⟩ := ihpipe hts hpipe (by omega) hps
    rw [hout1]
    dsimp only
    obtain ⟨c2, ps2, hout2, htok2, hc2⟩ :=
      parseback_complete n hend.1 (show n < fuel by omega) c1 htok1
    rw [hout2]
    dsimp only
    obtain ⟨ps3, b, hpeek, htok3, -, htrue, -⟩ :=
      peek_symbol ps2 (show symTok semi = some .semi from rfl)
    rw [hpeek]
    cases b with
    | false => exact ⟨_, _, rfl, htok3.trans htok2, by rw [hc2, hc1]⟩
    | true =>
      obtain ⟨r, q, e, ps4, -, htok, -⟩ := htrue rfl
      rw [htok2] at htok
      exact absurd (by rw [htok]; rfl) hend.2.1
  | @list ts us' c d n hts hus' =>
    rw [List.length_append, List.length_append, List.length_replicate, List.length_cons] at hfuel
    rw [List.append_assoc, List.append_assoc] at hps
    have hpipe : NotNext startsPipe (List.replicate n .amp ++ (.semi :: us' ++ us)) := by
      intro t ht
      cases n with
      | zero => cases ht; rfl
      | succ n => cases ht; rfl
    obtain ⟨c1, ps1, hout1, htok1, hc1⟩ := ihpipe hts hpipe (by omega) hps
    rw [hout1]
    dsimp only
    obtain ⟨c2, ps2, hout2, htok2, hc2⟩ := parseback_complete n
      (show (Tok.semi :: us' ++ us).head? ≠ some .amp from fun hx => by cases hx)
      (show n < fuel by omega) c1 htok1
    rw [hout2]
    dsimp only
    obtain ⟨ps3, b, hpeek, htok3, -, htrue, hfalse⟩ :=
      peek_symbol ps2 (show symTok semi = some .semi from rfl)
    rw [hpeek]
    rcases b with _ | _
    · have hx := hfalse rfl
      rw [htok2] at hx
      exact absurd rfl hx
    obtain ⟨r, q, e, ps4, hget, htok, -⟩ := htrue rfl
    rw [htok2] at htok
    obtain ⟨-, htok⟩ := List.cons.inj htok
    simp only [if_true, hget]
    obtain ⟨d1, ps5, hout3, htok5, hd1⟩ := ihline hus' hus (by omega) htok.symm
    rw [hout3]
    exact ⟨_, _, rfl, htok5, by rw [Cmd.map, hc2, hc1, hd1]⟩

lemma parsepipe_complete (ihpipe : Completes Pipe startsPipe 4 parsepipe fuel)
    (ihexec : Completes Exec startsArg 3 parseexec fuel) :
    Completes Pipe startsPipe 4 parsepipe (fuel + 1) := by
  intro ts us c ps h hus hfuel hps
  rw [parsepipe]
  cases h with
  | exec hts =>
    have harg : NotNext startsArg us := fun t ht =>
      (Bool.or_eq_false_iff.mp (hus t ht)).1
    obtain ⟨c1, ps1, hout1, htok1, hc1⟩ := ihexec hts harg (by omega) hps
    rw [hout1]
    dsimp only
    obtain ⟨ps2, b, hpeek, htok2, -, htrue, -⟩ :=
      peek_symbol ps1 (show symTok bar = some .bar from rfl)
    rw [hpeek]
    cases b with
    | false => exact ⟨_, _, rfl, htok2.trans htok1, hc1⟩
    | true =>
      obtain ⟨r, q, e, ps3, -, htok, -⟩ := htrue rfl
      rw [htok1] at htok
      exact absurd (hus .bar (by rw [htok]; rfl)) (by decide)
  | @pipe ts us' c d hts hus' =>
    rw [List.length_append, List.length_cons] at hfuel
    rw [List.append_assoc] at hps
    have harg : NotNext startsArg (.bar :: us' ++ us) := by
      intro t ht
      cases ht
      rfl
    obtain ⟨c1, ps1, hout1, htok1, hc1⟩ := ihexec hts harg (by omega) hps
    rw [hout1]
    dsimp only
    obtain ⟨ps2, b, hpeek, htok2, -, htrue, hfalse⟩ :=
      peek_symbol ps1 (show symTok bar = some .bar from rfl)
    rw [hpeek]
    rcases b with _ | _
    · have hx := hfalse rfl
      rw [htok1] at hx
      exact absurd rfl hx
    obtain ⟨r, q, e, ps3, hget, htok, -⟩ := htrue rfl
    rw [htok1] at htok
    obtain ⟨-, htok⟩ := List.cons.inj htok
    simp only [if_true, hget]
    obtain ⟨d1, ps4, hout2, htok4, hd1⟩ := ihpipe hus' hus (by omega) htok.symm
    rw [hout2]
    exact ⟨_, _, rfl, htok4, by rw [Cmd.map, hc1, hd1]⟩

lemma parseexec_complete (ihline : ∀ k < fuel, Completes Line startsLine 5 parseline k) :
    Completes Exec startsArg 3 parseexec (fuel + 1) := by
  intro ts us c ps h hus hfuel hps
  obtain ⟨ps1, b, hpeek, htok1, -, htrue, hfalse⟩ :=
    peek_symbol ps (show symTok lpar = some .lpar from rfl)
  rw [parseexec, hpeek]
  have hredir : ∀ vs, NotNext startsArg vs → NotNext startsRedir vs := fun vs hvs =>
    notNext_redir_append .nil hvs
  cases h with
  | @block ts us' c rs hts hus' =>
    rw [List.length_cons, List.length_append, List.length_cons] at hfuel
    have hbt : b = true := by
      by_contra hx
      have hx := hfalse (by simpa using hx)
      rw [hps] at hx
      exact hx rfl
    subst hbt
    simp only [if_true]
    obtain ⟨fuel, rfl⟩ := Nat.exists_eq_succ_of_ne_zero (show fuel ≠ 0 by omega)
    have ihline := @ihline fuel (Nat.lt_succ_self _)
    obtain ⟨ps2, b, hpeek2, htok2, -, htrue2, hfalse2⟩ :=
      peek_symbol ps1 (show symTok lpar = some .lpar from rfl)
    have htoks : tokens ps1 = .lpar :: (ts ++ .rpar :: (us' ++ us)) := by
      rw [htok1, hps]
      simp
    rw [parseblock, hpeek2]
    rcases b with _ | _
    · have hx := hfalse2 rfl
      rw [htoks] at hx
      exact absurd rfl hx
    obtain ⟨r, q, e, ps3, hget, htok, -⟩ := htrue2 rfl
    rw [htoks] at htok
    obtain ⟨-, htok⟩ := List.cons.inj htok
    simp only [Bool.true_eq_false, if_false, hget]
    have hline : NotNext startsLine (.rpar :: (us' ++ us)) := by
      intro t ht
      cases ht
      rfl
    obtain ⟨c1, ps4, hout1, htok4, hc1⟩ := ihline hts hline (by omega) htok.symm
    rw [hout1]
    dsimp only
    obtain ⟨ps5, b, hpeek5, htok5, -, htrue5, hfalse5⟩ :=
      peek_symbol ps4 (show symTok rpar = some .rpar from rfl)
    rw [hpeek5]
    rcases b with _ | _
    · have hx := hfalse5 rfl
      rw [htok4] at hx
      exact absurd rfl hx
    obtain ⟨r', q', e', ps6, hget', htok', -⟩ := htrue5 rfl
    rw [htok4] at htok'
    obtain ⟨-, htok'⟩ := List.cons.inj htok'
    simp only [Bool.true_eq_false, if_false, hget']
    obtain ⟨rs1, ps7, hout2, htok7, hrs1⟩ := parseredirs_complete hus' (hredir us hus)
      (show _ < fuel by omega) htok'.symm
    rw [hout2]
    refine ⟨_, _, rfl, htok7, ?_⟩
    rw [map_wrap, hc1, hrs1]
  | @simple ts us' rs rs' argv hts hus' hargc =>
    rw [List.length_append] at hfuel
    rw [List.append_assoc] at hps
    have hbf : b = false := by
      rw [Bool.eq_false_iff]
      intro hx
      obtain ⟨r, q, e, ps2, -, htok, -⟩ := htrue hx
      rw [hps] at htok
      cases hts with
      | nil =>
        cases hus' with
        | nil => exact absurd (hus .lpar (by rw [show us = _ from htok]; rfl)) (by decide)
        | cons w h1 h2 => cases htok
      | cons w ht h1 =>
        obtain ⟨rfl, -⟩ := List.cons.inj htok
        cases ht
    subst hbf
    simp only [Bool.false_eq_true, if_false]
    obtain ⟨rs1, ps2, hout1, htok2, hrs1⟩ := parseredirs_complete hts
      (notNext_redir_append hus' hus) (show _ < fuel by omega) (htok1.trans hps)
    rw [hout1]
    dsimp only
    obtain ⟨a, ps3, hout2, htok3, ha⟩ := parseargs_complete hus' hus
      (show 0 + _ < MAXARGS by omega) (show _ < fuel by omega) htok2
    rcases hr : parseargs fuel 0 ps2 with msg | ⟨argv2, rs2, ps4⟩
    · rw [hr] at hout2
      cases hout2
    rw [hr] at hout2
    cases hout2
    obtain ⟨h1, h2⟩ := Prod.mk.inj ha
    refine ⟨_, _, rfl, htok3, ?_⟩
    rw [map_wrap, List.map_append, hrs1, h2, Cmd.map, h1]

/-- What the grammar derives is accepted, with enough fuel. -/
lemma parser_complete (fuel : ℕ) :
    Completes Line startsLine 5 parseline fuel ∧ Completes Pipe startsPipe 4 parsepipe fuel ∧
      Completes Exec startsArg 3 parseexec fuel := by
  induction fuel using Nat.strong_induction_on with
  | _ fuel ih =>
  cases fuel with
  | zero => refine ⟨?_, ?_, ?_⟩ <;> exact fun _ _ hfuel => absurd hfuel (by omega)
  | succ fuel =>
    obtain ⟨ihline, ihpipe, ihexec⟩ := ih fuel (Nat.lt_succ_self _)
    exact ⟨parseline_complete ihline ihpipe, parsepipe_complete ihpipe ihexec,
      parseexec_complete fun k hk => (ih k (by omega)).1⟩

/-! ## The strings of the command -/

lemma getElem?_foldl_set (f : Word → ℕ) (ws : List Word) (buf : List UInt8) (k : ℕ) :
    (ws.foldl (fun buf w => buf.set (f w) 0) buf)[k]? =
      if k < buf.length ∧ ∃ w ∈ ws, f w = k then some 0 else buf[k]? := by
  induction ws generalizing buf with
  | nil => simp
  | cons w ws ih =>
    rw [List.foldl_cons, ih, List.length_set, List.getElem?_set]
    by_cases hk : k < buf.length
    · by_cases hw : f w = k
      · simp [hk, hw]
      have hmem : (∃ v ∈ w :: ws, f v = k) ↔ ∃ v ∈ ws, f v = k := by
        rw [List.exists_mem_cons_iff]
        exact or_iff_right hw
      simp only [hmem, if_neg hw]
    have hnot : ∀ P : Prop, ¬(k < buf.length ∧ P) := fun P hx => hk hx.1
    rw [if_neg (hnot _), if_neg (hnot (∃ v ∈ w :: ws, f v = k))]
    by_cases hw : f w = k
    · rw [if_pos hw, if_neg (by omega), List.getElem?_eq_none (by omega)]
    · rw [if_neg hw]

lemma takeWhile_eq {l w : List UInt8} (hw : 0 ∉ w) (hlt : ∀ k < w.length, l[k]? = w[k]?)
    (hend : l[w.length]? = some 0) : l.takeWhile (· ≠ 0) = w := by
  have htake : l.take w.length = w := by
    refine List.ext_getElem? fun k => ?_
    rw [List.getElem?_take]
    split
    · exact hlt k (by assumption)
    · exact (List.getElem?_eq_none (by omega)).symm
  have hlen : w.length < l.length := (List.getElem?_eq_some_iff.mp hend).1
  have hdrop : l.drop w.length = 0 :: l.drop (w.length + 1) := by
    rw [List.drop_eq_getElem_cons hlen]
    congr 1
    exact (List.getElem?_eq_some_iff.mp hend).2
  rw [← List.take_append_drop w.length l, htake, hdrop, List.takeWhile_append_of_pos]
  · simp
  · intro a ha
    have hne : a ≠ 0 := fun hx => hw (hx ▸ ha)
    simpa using hne

lemma cstring_nulterminate {s : List UInt8} (h0 : 0 ∉ s) {c : Cmd Word} (hc : WordsAt s c)
    {p : Word} (hp : p ∈ c.words) :
    cstring s.length (nulterminate s.length c (s ++ [0])) p = text p := by
  obtain ⟨q, e⟩ := p
  obtain ⟨⟨t, hts⟩, ⟨w, hne, hw, hq⟩, hstop⟩ := hc _ hp
  have hq : q = w ++ e := hq
  subst hq
  have hts : t ++ (w ++ e) = s := hts
  have hlen : s.length = t.length + (w.length + e.length) := by
    rw [← hts, List.length_append, List.length_append]
  rw [text_append, cstring]
  have hplace : place s.length (w ++ e) = t.length := by
    rw [place, List.length_append]
    omega
  have hw0 : 0 ∉ w := fun hx => h0 (by rw [← hts]; simp [hx])
  have hget : ∀ k, k ≤ w.length + e.length →
      ((nulterminate s.length c (s ++ [0])).drop t.length)[k]? =
        if ∃ w' ∈ c.words, place s.length w'.2 = t.length + k then some 0
        else (s ++ [0])[t.length + k]? := by
    intro k hk
    rw [List.getElem?_drop, nulterminate, getElem?_foldl_set]
    have hlt : t.length + k < (s ++ [0]).length := by
      rw [List.length_append, List.length_singleton]
      omega
    simp only [hlt, true_and]
  rw [hplace]
  refine takeWhile_eq hw0 (fun k hk => ?_) ?_
  · rw [hget k (by omega), if_neg]
    · rw [List.getElem?_append_left (by omega), ← hts, List.getElem?_append_right (by omega),
        List.getElem?_append_left (by omega)]
      congr 1
      omega
    · -- the end of a word is not inside a word
      rintro ⟨⟨q', e'⟩, hp', hpl⟩
      obtain ⟨⟨t', ht'⟩, ⟨w', -, -, hq'⟩, hstop'⟩ := hc _ hp'
      have hq' : q' = w' ++ e' := hq'
      have ht' : t' ++ q' = s := ht'
      have hstop' : e'.head?.any isWordChar = false := hstop'
      rw [hq', ← List.append_assoc] at ht'
      have hlen' : s.length = (t' ++ w').length + e'.length := by
        rw [← ht', List.length_append]
      have hpl : s.length - e'.length = t.length + k := hpl
      have hidx : (t' ++ w').length = t.length + k := by omega
      have hchar : s[t.length + k]? = e'.head? := by
        rw [← hidx, ← ht', List.getElem?_append_right le_rfl, Nat.sub_self, List.head?_eq_getElem?]
      have hchar' : s[t.length + k]? = some w[k] := by
        rw [← hts, List.getElem?_append_right (by omega), List.getElem?_append_left (by omega),
          ← List.getElem?_eq_getElem]
        congr 1
        omega
      rw [← hchar, hchar', Option.any_some, hw _ (List.getElem_mem hk)] at hstop'
      cases hstop'
  · rw [hget _ (by omega), if_pos]
    refine ⟨(w ++ e, e), hp, ?_⟩
    change s.length - e.length = t.length + w.length
    omega

lemma Cmd.map_congr {W V : Type} {f g : W → V} {c : Cmd W} (h : ∀ w ∈ c.words, f w = g w) :
    c.map f = c.map g := by
  induction c with
  | exec argv => exact congrArg Cmd.exec (List.map_congr_left h)
  | redir c file mode fd ih =>
    rw [Cmd.map, Cmd.map, ih fun w hw => h w (List.mem_append_left _ hw),
      h file (List.mem_append_right _ (List.mem_singleton_self file))]
  | pipe c d ihc ihd =>
    rw [Cmd.map, Cmd.map, ihc fun w hw => h w (List.mem_append_left _ hw),
      ihd fun w hw => h w (List.mem_append_right _ hw)]
  | list c d ihc ihd =>
    rw [Cmd.map, Cmd.map, ihc fun w hw => h w (List.mem_append_left _ hw),
      ihd fun w hw => h w (List.mem_append_right _ hw)]
  | back c ih => rw [Cmd.map, Cmd.map, ih h]

lemma skipWhitespace_eq_nil (h : tokens ps = []) : skipWhitespace ps = [] := by
  rcases gettoken_spec ps with ⟨-, hget⟩ | ⟨t, q, e, rest, -, htok, -⟩
  · exact congrArg (fun g => g.2.1) hget
  · rw [h] at htok
    cases htok

lemma parsecmd_ok {s buf : List UInt8} {c : Cmd Word} (h : parsecmd s = .ok (c, buf)) :
    ∃ ps, parseline (5 * s.length + 5) s = .ok (c, ps) ∧ skipWhitespace ps = [] ∧
      buf = nulterminate s.length c (s ++ [0]) := by
  rw [parsecmd] at h
  rcases hout : parseline (5 * s.length + 5) s with msg | ⟨c', ps⟩
  · rw [hout] at h
    cases h
  rw [hout] at h
  dsimp only at h
  split at h
  · cases h
  · rename_i hend
    cases h
    exact ⟨ps, rfl, not_not.mp hend, rfl⟩

/-- The parser of the shell: for every line, `parsecmd` ends, and it returns a command if and only
if the tokens of the line are derived by the grammar, and then the command of the derivation. -/
theorem parsecmd_accepts_grammar {s : List UInt8} (h0 : 0 ∉ s) : parsecmd s ≠ .error "rounds" ∧
    ∀ t, (∃ c buf, parsecmd s = .ok (c, buf) ∧ c.map (cstring s.length buf) = t) ↔
      Line (tokens s) t := by
  obtain ⟨hround, hres⟩ := (parser_sound (5 * s.length + 5)).1 s
  have hneed : 5 * (tokens s).length + 5 ≤ 5 * s.length + 5 := by
    have hle := length_tokens_le s
    omega
  rw [parsecmd]
  refine ⟨?_, fun t => ⟨?_, fun ht => ?_⟩⟩
  · rcases hout : parseline (5 * s.length + 5) s with msg | a
    · intro hx
      cases hx
      exact hround hneed hout
    dsimp only
    split
    · decide
    · exact fun hx => (nomatch hx)
  · rintro ⟨c, buf, hparse, rfl⟩
    obtain ⟨ps, hout, hps, rfl⟩ := parsecmd_ok (s := s) hparse
    obtain ⟨-, ts, htok, hL, hat⟩ := hres _ _ hout
    have hnil : tokens ps = [] := by
      rw [← tokens_skipWhitespace, hps]
      rfl
    rw [htok, hnil, List.append_nil, Cmd.map_congr fun p hp => cstring_nulterminate h0 hat hp]
    exact hL
  · obtain ⟨c, ps, hout, htok, hc⟩ := (parser_complete (5 * s.length + 5)).1 ht
      (show NotNext startsLine [] from fun t ht => (nomatch ht)) hneed (List.append_nil _).symm
    obtain ⟨-, ts, -, -, hat⟩ := hres _ _ hout
    rw [hout]
    dsimp only
    have hps : (peek ps []).1 = [] := skipWhitespace_eq_nil htok
    rw [if_neg (fun hx => hx hps)]
    refine ⟨_, _, rfl, ?_⟩
    rw [Cmd.map_congr fun p hp => cstring_nulterminate h0 hat hp]
    exact hc

/-- The line `a|b&`. -/
theorem parsecmd_accepts_grammar_pipe :
    Line (tokens [97, 124, 98, 38]) (.back (.pipe (.exec [[97]]) (.exec [[98]]))) ∧
    ∃ c buf, parsecmd [97, 124, 98, 38] = .ok (c, buf) ∧
      c.map (cstring 4 buf) = .back (.pipe (.exec [[97]]) (.exec [[98]])) := by
  have hword : ∀ w, Exec [.word w] (.exec [w]) := fun w =>
    .simple .nil (.cons w .nil .nil) (Nat.lt_of_sub_eq_succ rfl)
  have hline : Line (tokens [97, 124, 98, 38]) (.back (.pipe (.exec [[97]]) (.exec [[98]]))) :=
    .pipe 1 (.pipe (hword [97]) (.exec (hword [98])))
  exact ⟨hline, ((parsecmd_accepts_grammar (by decide)).2 _).mpr hline⟩

/-- Every word of a command is a word of the line, and `nulterminate` leaves in the buffer exactly
its text. -/
theorem nulterminate_keeps_words {s buf : List UInt8} {c : Cmd Word} (h0 : 0 ∉ s)
    (h : parsecmd s = .ok (c, buf)) :
    ∀ w ∈ c.words, WordAt s w ∧ cstring s.length buf w = text w := by
  obtain ⟨ps, hout, -, rfl⟩ := parsecmd_ok h
  obtain ⟨-, ts, -, -, hat⟩ := ((parser_sound (5 * s.length + 5)).1 s).2 _ _ hout
  exact fun w hw => ⟨hat w hw, cstring_nulterminate h0 hat hw⟩

/-- The line `a>b`, where the end of the first word is the place of the symbol. -/
theorem nulterminate_keeps_words_gt :
    ∃ c buf, parsecmd [97, 62, 98] = .ok (c, buf) ∧ buf = [97, 0, 98, 0] ∧
      ∀ w ∈ c.words, WordAt [97, 62, 98] w ∧ cstring 3 buf w = text w :=
  ⟨.redir (.exec [([97, 62, 98], [62, 98])]) ([98], []) (O_WRONLY ||| O_CREATE ||| O_TRUNC) 1,
    [97, 0, 98, 0], rfl, rfl, nulterminate_keeps_words (by decide) rfl⟩

end Xv6.Shell
