import Xv6Kernel.Shell.Grammar

/-!
# The parser accepts its grammar

What a function of the parser returns is derived by the grammar from the tokens that it takes, and a
derivation is found if what follows it cannot be taken for a part of it.
-/

namespace Xv6

variable {ps : Ptr} {t : Tok} {c : UInt8} {fuel : ℕ}
variable {ps' : Ptr} {need : ℕ}

namespace Shell

/-! ## What is accepted is derived -/

def Redir.text (r : Redir Word) : Redir (List UInt8) := ⟨Shell.text r.file, r.mode, r.fd⟩

def WordsAt (s : Ptr) (c : Cmd Word) : Prop := ∀ p ∈ c.words, WordAt s p

lemma words_wrap (c : Cmd Word) (rs : List (Redir Word)) :
    (c.wrap rs).words = c.words ++ rs.map Redir.file := by
  induction rs generalizing c with
  | nil => simp [Cmd.wrap]
  | cons r rs ih =>
    have hstep : c.wrap (r :: rs) = (redircmd c r).wrap rs := rfl
    rw [hstep, ih]
    simp [redircmd, Cmd.words]

lemma map_wrap (c : Cmd Word) (rs : List (Redir Word)) :
    (c.wrap rs).map text = (c.map text).wrap (rs.map Redir.text) := by
  induction rs generalizing c with
  | nil => rfl
  | cons r rs ih =>
    have hstep : c.wrap (r :: rs) = (redircmd c r).wrap rs := rfl
    rw [hstep, ih]
    rfl

lemma WordsAt.mono {s s' : Ptr} {c : Cmd Word} (h : WordsAt s' c) (hs : s' <:+ s) : WordsAt s c :=
  fun p hp => (h p hp).mono hs

/-- What is expected of a function of the parser: its result is derived from the tokens it takes,
and it does not run out of rounds if there are at least `need`. -/
def Sound {α : Type} (need fuel : ℕ) (ps : Ptr) (P : List Tok → α → Prop)
    (out : Except String (α × Ptr)) : Prop :=
  (need ≤ fuel → out ≠ .error "rounds") ∧
  ∀ a ps', out = .ok (a, ps') → ps' <:+ ps ∧ ∃ ts, tokens ps = ts ++ tokens ps' ∧ P ts a

lemma sound_error {α : Type} {P : List Tok → α → Prop} {msg : String}
    (hmsg : need ≤ fuel → msg ≠ "rounds") :
    Sound need fuel ps P (.error msg : Except String (α × Ptr)) :=
  ⟨fun hn hx => hmsg hn (by cases hx; rfl), fun _ _ hx => by cases hx⟩

lemma sound_ok {α : Type} {P : List Tok → α → Prop} {a : α} (ts : List Tok) (hsuf : ps' <:+ ps)
    (htok : tokens ps = ts ++ tokens ps') (hP : P ts a) : Sound need fuel ps P (.ok (a, ps')) :=
  ⟨fun _ hx => (nomatch hx), fun _ _ hx => by cases hx; exact ⟨hsuf, ts, htok, hP⟩⟩

lemma length_le_of_append {ts : List Tok} (h : tokens ps = ts ++ tokens ps') :
    (tokens ps).length = ts.length + (tokens ps').length := by
  rw [h, List.length_append]

lemma redirMode_of_first (hf : t.first = some c) (hc : c ∈ [lt, gt]) :
    ∃ mode fd, redirMode t = some (mode, fd) ∧ ∀ w, redirection t.code w = ⟨w, mode, fd⟩ := by
  cases t with
  | word w => cases hf
  | lt => exact ⟨_, _, rfl, fun _ => rfl⟩
  | gt => exact ⟨_, _, rfl, fun _ => rfl⟩
  | gtgt => exact ⟨_, _, rfl, fun _ => rfl⟩
  | bar => cases hf; exact absurd hc (by decide)
  | amp => cases hf; exact absurd hc (by decide)
  | semi => cases hf; exact absurd hc (by decide)
  | lpar => cases hf; exact absurd hc (by decide)
  | rpar => cases hf; exact absurd hc (by decide)

lemma code_eq_wordTok (h : t.code = wordTok) : ∃ w, t = .word w := by
  cases t with
  | word w => exact ⟨w, rfl⟩
  | _ => exact absurd h (by decide)

lemma code_ne_zero (t : Tok) : t.code ≠ 0 := by
  cases t with
  | word w => exact (by decide : wordTok ≠ 0)
  | _ => decide

lemma first_eq_iff (hc : symTok c = some t) (t' : Tok) : t'.first = some c ↔ t' = t := by
  constructor
  · intro hf
    cases t' with
    | word w => cases hf
    | gt =>
      cases hf
      rw [show symTok Tok.gt.code = none from rfl] at hc
      cases hc
    | gtgt =>
      cases hf
      rw [show symTok Shell.gt = none from rfl] at hc
      cases hc
    | _ =>
      cases hf
      exact Option.some.inj hc
  · rintro rfl
    exact (symTok_cases hc).2.2.1

lemma peek_symbol (ps : Ptr) (hc : symTok c = some t) :
    ∃ ps1 b, peek ps [c] = (ps1, b) ∧ tokens ps1 = tokens ps ∧ ps1 <:+ ps ∧
      (b = true → ∃ r q e ps2, gettoken ps1 = (r, q, e, ps2) ∧ tokens ps = t :: tokens ps2 ∧
        ps2 <:+ ps) ∧ (b = false → (tokens ps).head? ≠ some t) := by
  have ht := first_eq_iff hc
  have hsym : isSymbol c = true := by
    rcases (symTok_cases hc).1 with rfl | rfl | rfl | rfl | rfl | rfl <;> decide
  obtain ⟨ps1, b, hpeek, htok1, hsuf1, hb⟩ := peek_spec ps [c] (by simpa using hsym)
  refine ⟨ps1, b, hpeek, htok1, hsuf1, fun htrue => ?_, fun hfalse hhead => ?_⟩
  · obtain ⟨t', ts, c', htok, hfirst, hc'⟩ := hb.mp htrue
    rw [List.mem_singleton.mp hc', ht] at hfirst
    subst hfirst
    rcases gettoken_spec ps1 with ⟨hnil, -⟩ | ⟨t, q, e, ps2, hget, htok2, hsuf2, -⟩
    · rw [htok1, htok] at hnil
      cases hnil
    · rw [htok1, htok] at htok2
      cases htok2
      exact ⟨_, q, e, ps2, hget, htok, hsuf2.trans hsuf1⟩
  · rw [hfalse] at hb
    obtain ⟨ts, hts⟩ := List.head?_eq_some_iff.mp hhead
    exact absurd (hb.mpr ⟨t, ts, c, hts, (ht t).mpr rfl, List.mem_singleton_self c⟩)
      Bool.false_ne_true

lemma parseredirs_sound (fuel : ℕ) (ps : Ptr) : Sound ((tokens ps).length + 1) fuel ps
      (fun ts rs => Redirs ts (rs.map Redir.text) ∧ ∀ r ∈ rs, WordAt ps r.file)
      (parseredirs fuel ps) := by
  induction fuel generalizing ps with
  | zero => exact sound_error fun hx => by omega
  | succ fuel ih =>
    obtain ⟨ps1, b, hpeek, htok1, hsuf1, hb⟩ := peek_spec ps [lt, gt] rfl
    rcases b with _ | _
    · rw [parseredirs, hpeek]
      exact sound_ok [] hsuf1 (by rw [htok1]; rfl) ⟨.nil, fun r hr => by cases hr⟩
    obtain ⟨t, ts, c, htok, hfirst, hc⟩ := hb.mp rfl
    rw [parseredirs, hpeek]
    simp only [if_true]
    rcases gettoken_spec ps1 with ⟨hnil, -⟩ | ⟨t', q, e, ps2, hget, htok2, hsuf2, -⟩
    · rw [htok1, htok] at hnil
      cases hnil
    have ht' : t' = t ∧ tokens ps2 = ts := by
      rw [htok1, htok] at htok2
      cases htok2
      exact ⟨rfl, rfl⟩
    obtain ⟨rfl, rfl⟩ := ht'
    rw [hget]
    dsimp only
    rcases gettoken_spec ps2 with ⟨-, hget2⟩ | ⟨u, q', e', ps3, hget2, htok3, hsuf3, hword⟩
    · rw [hget2]
      exact sound_error fun _ => by decide
    rw [hget2]
    dsimp only
    by_cases hu : u.code = wordTok
    · obtain ⟨w, rfl⟩ := code_eq_wordTok hu
      obtain ⟨hat, htext⟩ := hword w rfl
      rw [if_neg fun hx => hx hu]
      obtain ⟨hround, hres⟩ := ih ps3
      have hlen : (tokens ps).length = (tokens ps3).length + 2 := by
        rw [htok, htok3]
        rfl
      split
      · rename_i msg hout
        refine sound_error fun hn hx => hround (by omega) ?_
        rw [hout, hx]
      rename_i rs ps4 hout
      obtain ⟨hsuf4, ts, htok4, hP, hat'⟩ := hres _ _ hout
      obtain ⟨mode, fd, hmode, hredir⟩ := redirMode_of_first hfirst hc
      rw [hredir]
      have hsuf13 : ps3 <:+ ps := hsuf3.trans (hsuf2.trans hsuf1)
      refine sound_ok (t' :: .word w :: ts) (hsuf4.trans hsuf13) ?_ ⟨?_, ?_⟩
      · rw [htok, htok3, htok4]
        rfl
      · have hr : Redir.text ⟨(q', e'), mode, fd⟩ = ⟨w, mode, fd⟩ := by
          rw [Redir.text, htext]
        rw [List.map_cons, hr]
        exact .cons w hmode hP
      · intro r hr
        rcases List.mem_cons.mp hr with rfl | hr
        · exact hat.mono (hsuf2.trans hsuf1)
        · exact (hat' r hr).mono hsuf13
    · rw [if_pos hu]
      exact sound_error fun _ => by decide

lemma parseargs_sound (fuel argc : ℕ) (ps : Ptr) :
    Sound ((tokens ps).length + 2) fuel ps
      (fun ts (a : List Word × List (Redir Word)) =>
        Args ts (a.1.map text) (a.2.map Redir.text) ∧ (∀ p ∈ a.1, WordAt ps p) ∧
          (∀ r ∈ a.2, WordAt ps r.file) ∧ (a.1 ≠ [] → argc + a.1.length < MAXARGS))
      (match parseargs fuel argc ps with
        | .error msg => .error msg
        | .ok (argv, rs, ps) => .ok ((argv, rs), ps)) := by
  induction fuel generalizing argc ps with
  | zero => exact sound_error fun hx => by omega
  | succ fuel ih =>
    obtain ⟨ps1, b, hpeek, htok1, hsuf1, hb⟩ :=
      peek_spec ps [bar, rpar, amp, semi] rfl
    have hnone : ∀ ps', ps' <:+ ps → tokens ps = tokens ps' →
        Sound ((tokens ps).length + 2) (fuel + 1) ps
        (fun ts (a : List Word × List (Redir Word)) =>
          Args ts (a.1.map text) (a.2.map Redir.text) ∧ (∀ p ∈ a.1, WordAt ps p) ∧
            (∀ r ∈ a.2, WordAt ps r.file) ∧ (a.1 ≠ [] → argc + a.1.length < MAXARGS))
        (.ok (([], []), ps')) := fun ps' hsuf htok =>
      sound_ok [] hsuf htok
        ⟨.nil, fun p hp => (nomatch hp), fun r hr => (nomatch hr), fun hx => absurd rfl hx⟩
    rw [parseargs, hpeek]
    cases b with
    | true => exact hnone ps1 hsuf1 htok1.symm
    | false =>
      simp only [Bool.false_eq_true, if_false]
      rcases gettoken_spec ps1 with ⟨hnil, hget⟩ | ⟨t, q, e, ps2, hget, htok2, hsuf2, hword⟩
      · rw [hget]
        exact hnone [] (List.nil_suffix) (by rw [← htok1, hnil]; rfl)
      rw [hget]
      dsimp only
      rw [if_neg (code_ne_zero t)]
      by_cases ht : t.code = wordTok
      · obtain ⟨w, rfl⟩ := code_eq_wordTok ht
        obtain ⟨hat, htext⟩ := hword w rfl
        rw [if_neg fun hx => hx ht]
        by_cases hargc : argc + 1 ≥ MAXARGS
        · rw [if_pos hargc]
          exact sound_error fun _ => by decide
        rw [if_neg hargc]
        obtain ⟨hround, hres⟩ := parseredirs_sound fuel ps2
        have hlen : (tokens ps).length = (tokens ps2).length + 1 := by
          rw [← htok1, htok2]
          rfl
        have hsuf2' : ps2 <:+ ps := hsuf2.trans hsuf1
        rcases hr : parseredirs fuel ps2 with msg | ⟨rs, ps3⟩
        · refine sound_error fun hn hx => hround (by omega) ?_
          rw [hr, hx]
        obtain ⟨hsuf3, ts, htok3, hP, hat3⟩ := hres _ _ hr
        have hlen3 := length_le_of_append htok3
        obtain ⟨hround', hres'⟩ := ih (argc + 1) ps3
        dsimp only
        rcases hr' : parseargs fuel (argc + 1) ps3 with msg | ⟨argv, rs', ps4⟩
        · refine sound_error fun hn hx => hround' (by omega) ?_
          rw [hr', hx]
        obtain ⟨hsuf4, us, htok4, hA, hat4, hat4', hargv⟩ :=
          hres' (argv, rs') ps4 (by rw [hr'])
        refine sound_ok (.word w :: (ts ++ us))
          (hsuf4.trans (hsuf3.trans hsuf2')) ?_ ⟨?_, ?_, ?_, ?_⟩
        · rw [← htok1, htok2, htok3, htok4]
          simp
        · rw [List.map_cons, htext, List.map_append]
          exact .cons w hP hA
        · intro p hp
          rcases List.mem_cons.mp hp with rfl | hp
          · exact hat.mono hsuf1
          · exact (hat4 p hp).mono (hsuf3.trans hsuf2')
        · intro r hr
          rcases List.mem_append.mp hr with hr | hr
          · exact (hat3 r hr).mono hsuf2'
          · exact (hat4' r hr).mono (hsuf3.trans hsuf2')
        · intro _
          rw [List.length_cons]
          by_cases hnil : argv = []
          · rw [hnil, List.length_nil]
            omega
          · have hlt : argc + 1 + argv.length < MAXARGS := hargv hnil
            omega
      · rw [if_pos ht]
        exact sound_error fun _ => by decide

lemma parseback_sound (fuel : ℕ) (cmd : Cmd Word) (ps : Ptr) :
    Sound ((tokens ps).length + 1) fuel ps
      (fun ts c => ∃ n, ts = List.replicate n .amp ∧ c.map text = backs n (cmd.map text) ∧
        c.words = cmd.words) (parseback fuel cmd ps) := by
  induction fuel generalizing cmd ps with
  | zero => exact sound_error fun hx => by omega
  | succ fuel ih =>
    obtain ⟨ps1, b, hpeek, htok1, hsuf1, htrue, -⟩ :=
      peek_symbol ps (show symTok amp = some .amp from rfl)
    rw [parseback, hpeek]
    rcases b with _ | _
    · exact sound_ok [] hsuf1 (by rw [htok1]; rfl) ⟨0, rfl, rfl, rfl⟩
    obtain ⟨r, q, e, ps2, hget, htok, hsuf2⟩ := htrue rfl
    simp only [if_true, hget]
    obtain ⟨hround, hres⟩ := ih (.back cmd) ps2
    refine ⟨fun hn => hround ?_, fun a ps' hout => ?_⟩
    · rw [htok, List.length_cons] at hn
      omega
    · obtain ⟨hsuf, us, htok3, n, rfl, hmap, hwords⟩ := hres a ps' hout
      refine ⟨hsuf.trans hsuf2, _, ?_, n + 1, rfl, hmap, hwords⟩
      rw [htok, htok3]
      rfl

/-- What a function of the parser returns: a command derived from the tokens, over words of the
line. -/
def Derived (P : List Tok → Cmd (List UInt8) → Prop) (ps : Ptr) (ts : List Tok) (c : Cmd Word) :
    Prop := P ts (c.map text) ∧ WordsAt ps c

lemma parseblock_sound (hline : ∀ ps, Sound (5 * (tokens ps).length + 5) fuel ps (Derived Line ps)
      (parseline fuel ps)) (ps : Ptr) :
    Sound (5 * (tokens ps).length + 2) (fuel + 1) ps (Derived Exec ps) (parseblock (fuel + 1) ps) := by
  obtain ⟨ps1, b, hpeek, htok1, hsuf1, htrue, -⟩ :=
    peek_symbol ps (show symTok lpar = some .lpar from rfl)
  rw [parseblock, hpeek]
  rcases b with _ | _
  · exact sound_error fun _ => by decide
  obtain ⟨r, q, e, ps2, hget, htok, hsuf2⟩ := htrue rfl
  have hlen : (tokens ps).length = (tokens ps2).length + 1 := by
    rw [htok]
    rfl
  simp only [Bool.true_eq_false, if_false, hget]
  obtain ⟨hround, hres⟩ := hline ps2
  rcases hout : parseline fuel ps2 with msg | ⟨c, ps3⟩
  · refine sound_error fun hn hx => hround (by omega) ?_
    rw [hout, hx]
  obtain ⟨hsuf3, ts, htok3, hP, hat3⟩ := hres _ _ hout
  have hlen3 := length_le_of_append htok3
  obtain ⟨ps4, b, hpeek', htok4, hsuf4, htrue', -⟩ :=
    peek_symbol ps3 (show symTok rpar = some .rpar from rfl)
  dsimp only
  rw [hpeek']
  rcases b with _ | _
  · exact sound_error fun _ => by decide
  obtain ⟨r', q', e', ps5, hget', htok5, hsuf5⟩ := htrue' rfl
  have hlen5 : (tokens ps3).length = (tokens ps5).length + 1 := by
    rw [htok5]
    rfl
  simp only [Bool.true_eq_false, if_false, hget']
  obtain ⟨hround', hres'⟩ := parseredirs_sound fuel ps5
  rcases hout' : parseredirs fuel ps5 with msg | ⟨rs, ps6⟩
  · refine sound_error fun hn hx => hround' (by omega) ?_
    rw [hout', hx]
  obtain ⟨hsuf6, us, htok6, hR, hat6⟩ := hres' _ _ hout'
  have hsuf : ps5 <:+ ps := hsuf5.trans (hsuf3.trans hsuf2)
  refine sound_ok (.lpar :: (ts ++ .rpar :: us)) (hsuf6.trans hsuf) ?_ ⟨?_, ?_⟩
  · rw [htok, htok3, htok5, htok6]
    simp
  · rw [map_wrap]
    exact .block hP hR
  · intro p hp
    rw [words_wrap] at hp
    rcases List.mem_append.mp hp with hp | hp
    · exact (hat3 p hp).mono hsuf2
    · obtain ⟨r, hr, rfl⟩ := List.mem_map.mp hp
      exact (hat6 r hr).mono hsuf

lemma parseline_sound (ihline : ∀ ps, Sound (5 * (tokens ps).length + 5) fuel ps (Derived Line ps)
      (parseline fuel ps))
    (ihpipe : ∀ ps, Sound (5 * (tokens ps).length + 4) fuel ps (Derived Pipe ps)
      (parsepipe fuel ps)) (ps : Ptr)
    : Sound (5 * (tokens ps).length + 5) (fuel + 1) ps (Derived Line ps)
      (parseline (fuel + 1) ps) := by
  obtain ⟨hround, hres⟩ := ihpipe ps
  rw [parseline]
  rcases hout : parsepipe fuel ps with msg | ⟨c, ps1⟩
  · refine sound_error fun hn hx => hround (by omega) ?_
    rw [hout, hx]
  obtain ⟨hsuf1, ts, htok1, hP, hat1⟩ := hres _ _ hout
  have hlen1 := length_le_of_append htok1
  obtain ⟨hround', hres'⟩ := parseback_sound fuel c ps1
  dsimp only
  rcases hout' : parseback fuel c ps1 with msg | ⟨c', ps2⟩
  · refine sound_error fun hn hx => hround' (by omega) ?_
    rw [hout', hx]
  obtain ⟨hsuf2, amps, htok2, n, rfl, hmap, hwords⟩ := hres' _ _ hout'
  have hlen2 := length_le_of_append htok2
  have hat2 : WordsAt ps c' := fun p hp => hat1 p (hwords ▸ hp)
  obtain ⟨ps3, b, hpeek, htok3, hsuf3, htrue, -⟩ :=
    peek_symbol ps2 (show symTok semi = some .semi from rfl)
  dsimp only
  rw [hpeek]
  cases b with
  | false =>
    refine sound_ok (ts ++ List.replicate n .amp)
      (hsuf3.trans (hsuf2.trans hsuf1)) ?_ ⟨?_, hat2⟩
    · rw [htok1, htok2, htok3, List.append_assoc]
    · rw [hmap]
      exact .pipe n hP
  | true =>
    obtain ⟨r, q, e, ps4, hget, htok4, hsuf4⟩ := htrue rfl
    have hlen4 : (tokens ps2).length = (tokens ps4).length + 1 := by
      rw [htok4]
      rfl
    simp only [if_true, hget]
    obtain ⟨hround'', hres''⟩ := ihline ps4
    rcases hout'' : parseline fuel ps4 with msg | ⟨d, ps5⟩
    · refine sound_error fun hn hx => hround'' (by omega) ?_
      rw [hout'', hx]
    obtain ⟨hsuf5, us, htok5, hL, hat5⟩ := hres'' _ _ hout''
    have hsuf : ps4 <:+ ps := hsuf4.trans (hsuf2.trans hsuf1)
    refine sound_ok (ts ++ List.replicate n .amp ++ .semi :: us)
      (hsuf5.trans hsuf) ?_ ⟨?_, ?_⟩
    · rw [htok1, htok2, htok4, htok5]
      simp
    · rw [Cmd.map, hmap]
      exact .list n hP hL
    · intro p hp
      rcases List.mem_append.mp hp with hp | hp
      · exact hat2 p hp
      · exact (hat5 p hp).mono hsuf

lemma parsepipe_sound (ihpipe : ∀ ps, Sound (5 * (tokens ps).length + 4) fuel ps (Derived Pipe ps)
      (parsepipe fuel ps))
    (ihexec : ∀ ps, Sound (5 * (tokens ps).length + 3) fuel ps (Derived Exec ps)
      (parseexec fuel ps)) (ps : Ptr)
    : Sound (5 * (tokens ps).length + 4) (fuel + 1) ps (Derived Pipe ps)
      (parsepipe (fuel + 1) ps) := by
  obtain ⟨hround, hres⟩ := ihexec ps
  rw [parsepipe]
  rcases hout : parseexec fuel ps with msg | ⟨c, ps1⟩
  · refine sound_error fun hn hx => hround (by omega) ?_
    rw [hout, hx]
  obtain ⟨hsuf1, ts, htok1, hP, hat1⟩ := hres _ _ hout
  have hlen1 := length_le_of_append htok1
  obtain ⟨ps2, b, hpeek, htok2, hsuf2, htrue, -⟩ :=
    peek_symbol ps1 (show symTok bar = some .bar from rfl)
  dsimp only
  rw [hpeek]
  rcases b with _ | _
  · exact sound_ok ts (hsuf2.trans hsuf1) (by rw [htok1, htok2]) ⟨.exec hP, hat1⟩
  obtain ⟨r, q, e, ps3, hget, htok3, hsuf3⟩ := htrue rfl
  have hlen3 : (tokens ps1).length = (tokens ps3).length + 1 := by
    rw [htok3]
    rfl
  simp only [if_true, hget]
  obtain ⟨hround', hres'⟩ := ihpipe ps3
  rcases hout' : parsepipe fuel ps3 with msg | ⟨d, ps4⟩
  · refine sound_error fun hn hx => hround' (by omega) ?_
    rw [hout', hx]
  obtain ⟨hsuf4, us, htok4, hQ, hat4⟩ := hres' _ _ hout'
  have hsuf : ps3 <:+ ps := hsuf3.trans hsuf1
  refine sound_ok (ts ++ .bar :: us) (hsuf4.trans hsuf) ?_ ⟨.pipe hP hQ, ?_⟩
  · rw [htok1, htok3, htok4]
    simp
  · intro p hp
    rcases List.mem_append.mp hp with hp | hp
    · exact hat1 p hp
    · exact (hat4 p hp).mono hsuf

lemma parseexec_sound
    (ihblock : ∀ ps, Sound (5 * (tokens ps).length + 2) fuel ps (Derived Exec ps)
      (parseblock fuel ps)) (ps : Ptr)
    : Sound (5 * (tokens ps).length + 3) (fuel + 1) ps (Derived Exec ps)
      (parseexec (fuel + 1) ps) := by
  obtain ⟨ps1, b, hpeek, htok1, hsuf1, -, -⟩ :=
    peek_symbol ps (show symTok lpar = some .lpar from rfl)
  rw [parseexec, hpeek]
  cases b with
  | true =>
    obtain ⟨hround, hres⟩ := ihblock ps1
    rw [htok1] at hround hres
    refine ⟨fun hn => hround (by omega), fun c ps' hout => ?_⟩
    obtain ⟨hsuf, ts, htok, hP, hat⟩ := hres c ps' hout
    exact ⟨hsuf.trans hsuf1, ts, htok, hP, hat.mono hsuf1⟩
  | false =>
    simp only [Bool.false_eq_true, if_false]
    obtain ⟨hround, hres⟩ := parseredirs_sound fuel ps1
    rw [htok1] at hround hres
    rcases hout : parseredirs fuel ps1 with msg | ⟨rs, ps2⟩
    · refine sound_error fun hn hx => hround (by omega) ?_
      rw [hout, hx]
    obtain ⟨hsuf2, ts, htok2, hR, hat2⟩ := hres _ _ hout
    have hlen2 := length_le_of_append htok2
    obtain ⟨hround', hres'⟩ := parseargs_sound fuel 0 ps2
    dsimp only
    rcases hout' : parseargs fuel 0 ps2 with msg | ⟨argv, rs', ps3⟩
    · refine sound_error fun hn hx => hround' (by omega) ?_
      rw [hout', hx]
    obtain ⟨hsuf3, us, htok3, hA, hat3, hat3', hargc⟩ :=
      hres' (argv, rs') ps3 (by rw [hout'])
    have hsuf : ps2 <:+ ps := hsuf2.trans hsuf1
    refine sound_ok (ts ++ us) (hsuf3.trans hsuf) ?_ ⟨?_, ?_⟩
    · rw [htok2, htok3, List.append_assoc]
    · rw [map_wrap, List.map_append]
      refine .simple hR hA ?_
      rw [List.length_map]
      by_cases hnil : argv = []
      · rw [hnil]
        decide
      · have hlt : 0 + argv.length < MAXARGS := hargc hnil
        omega
    · intro p hp
      rw [words_wrap, List.map_append] at hp
      rcases List.mem_append.mp hp with hp | hp
      · exact (hat3 p hp).mono hsuf
      rcases List.mem_append.mp hp with hp | hp
      · obtain ⟨r, hr, rfl⟩ := List.mem_map.mp hp
        exact (hat2 r hr).mono hsuf1
      · obtain ⟨r, hr, rfl⟩ := List.mem_map.mp hp
        exact (hat3' r hr).mono hsuf

/-- What the parser accepts is derived by the grammar. -/
lemma parser_sound (fuel : ℕ) :
    (∀ ps, Sound (5 * (tokens ps).length + 5) fuel ps (Derived Line ps) (parseline fuel ps)) ∧
    (∀ ps, Sound (5 * (tokens ps).length + 4) fuel ps (Derived Pipe ps) (parsepipe fuel ps)) ∧
    (∀ ps, Sound (5 * (tokens ps).length + 3) fuel ps (Derived Exec ps) (parseexec fuel ps)) ∧
    ∀ ps, Sound (5 * (tokens ps).length + 2) fuel ps (Derived Exec ps) (parseblock fuel ps) := by
  induction fuel with
  | zero =>
    refine ⟨fun ps => ?_, fun ps => ?_, fun ps => ?_, fun ps => ?_⟩ <;>
      exact sound_error fun hx => by omega
  | succ fuel ih =>
    obtain ⟨ihline, ihpipe, ihexec, ihblock⟩ := ih
    exact ⟨parseline_sound ihline ihpipe, parsepipe_sound ihpipe ihexec, parseexec_sound ihblock,
      parseblock_sound ihline⟩

end Shell

end Xv6
