import Xv6Kernel.Param
import Xv6Kernel.Shell.Grammar

/-!
# Running redirections

The case `REDIR` of `runcmd`: it closes the descriptor and opens the file, which gets the lowest
free descriptor, and goes on with the command inside.  All files can be opened.  The parser wraps
the redirections around the command from left to right, so they are performed from right to left.
-/

namespace Xv6.Shell

open Function

/-- What a descriptor refers to: a file of a redirection, or what it did at the start. -/
inductive Ref (W : Type) where
  | inherited (n : ℕ)
  | file (w : W)
  deriving DecidableEq

variable {W : Type}

/-- `fdalloc`: the lowest free descriptor refers to `f`. -/
def fdalloc (ofile : ℕ → Option (Ref W)) (f : Ref W) : Option (ℕ → Option (Ref W)) :=
  ((List.range NOFILE).find? fun fd => ofile fd = none).map fun fd => update ofile fd (some f)

/-- The case `REDIR` of `runcmd`: the command inside, and the descriptors. -/
def runRedir : Cmd W × (ℕ → Option (Ref W)) → Option (Cmd W × (ℕ → Option (Ref W)))
  | (.redir cmd file _ fd, ofile) =>
    (fdalloc (update ofile fd none) (.file file)).map fun ofile => (cmd, ofile)
  | _ => none

/-- `runcmd` on `n` redirections. -/
def runRedirs : ℕ → Cmd W × (ℕ → Option (Ref W)) → Option (Cmd W × (ℕ → Option (Ref W)))
  | 0, x => some x
  | n + 1, x => (runRedirs n x).bind runRedir

/-- The simple commands and blocks: the tokens, the command without its redirections, and the
redirections in the order of the text. -/
inductive Redirected : List Tok → Cmd (List UInt8) → List (Redir (List UInt8)) → Prop
  | block {ts us : List Tok} {c : Cmd (List UInt8)} {rs : List (Redir (List UInt8))}
      (hts : Line ts c) (hus : Redirs us rs) : Redirected (.lpar :: (ts ++ .rpar :: us)) c rs
  | simple {ts us : List Tok} {rs rs' : List (Redir (List UInt8))} {argv : List (List UInt8)}
      (hts : Redirs ts rs) (hus : Args us argv rs') (hargc : argv.length < MAXARGS) :
      Redirected (ts ++ us) (.exec argv) (rs ++ rs')

/-- The redirections of a descriptor. -/
def redirsOf (fd : ℕ) (rs : List (Redir W)) : List (Redir W) := rs.filter fun r => r.fd = fd

/-- What a descriptor refers to after a redirection, if there is one. -/
def bound (ofile : ℕ → Option (Ref W)) (fd : ℕ) : Option (Redir W) → Option (Ref W)
  | none => ofile fd
  | some r => some (.file r.file)

lemma Redirs.fd_lt {ts : List Tok} {rs : List (Redir (List UInt8))} (h : Redirs ts rs) :
    ∀ r ∈ rs, r.fd < 2 := by
  induction h with
  | nil => simp
  | @cons t mode fd _ _ w ht _ ih =>
    have hfd : fd < 2 := by cases t <;> cases ht <;> decide
    exact List.forall_mem_cons.mpr ⟨hfd, ih⟩

lemma Args.fd_lt {ts : List Tok} {argv : List (List UInt8)} {rs : List (Redir (List UInt8))}
    (h : Args ts argv rs) : ∀ r ∈ rs, r.fd < 2 := by
  induction h with
  | nil => simp
  | cons w hts _ ih =>
    exact List.forall_mem_append.mpr ⟨hts.fd_lt, ih⟩

lemma Redirected.fd_lt {ts : List Tok} {c : Cmd (List UInt8)} {rs : List (Redir (List UInt8))}
    (h : Redirected ts c rs) : ∀ r ∈ rs, r.fd < 2 := by
  cases h with
  | block _ hus => exact hus.fd_lt
  | simple hts hus _ => exact List.forall_mem_append.mpr ⟨hts.fd_lt, hus.fd_lt⟩

lemma Redirected.exec {ts : List Tok} {c : Cmd (List UInt8)} {rs : List (Redir (List UInt8))}
    (h : Redirected ts c rs) : Exec ts (c.wrap rs) := by
  cases h with
  | block hts hus => exact .block hts hus
  | simple hts hus hargc => exact .simple hts hus hargc

lemma runRedir_redircmd {cmd : Cmd W} {r : Redir W} {ofile : ℕ → Option (Ref W)}
    (hfd : r.fd < 2) (hopen : ∀ fd < 3, ofile fd ≠ none) :
    runRedir (redircmd cmd r, ofile) = some (cmd, update ofile r.fd (some (.file r.file))) := by
  have hfind : (List.range NOFILE).find? (fun fd => update ofile r.fd none fd = none) =
      some r.fd := by
    rw [List.find?_range_eq_some]
    refine ⟨by simp, List.mem_range.mpr (by change _ < 16; omega), fun fd hlt => ?_⟩
    simpa [update_of_ne (Nat.ne_of_lt hlt)] using hopen fd (by omega)
  rw [redircmd, runRedir, fdalloc, hfind, Option.map_some, Option.map_some, update_idem]

/-- The descriptors after the redirections: the first one of the text counts, which is performed
last. -/
lemma runRedirs_wrap {rs : List (Redir W)} (hfd : ∀ r ∈ rs, r.fd < 2)
    {ofile : ℕ → Option (Ref W)} (hopen : ∀ fd < 3, ofile fd ≠ none) (cmd : Cmd W) :
    ∃ ofile', runRedirs rs.length (cmd.wrap rs, ofile) = some (cmd, ofile') ∧
      ∀ fd, ofile' fd = bound ofile fd (redirsOf fd rs).head? := by
  induction rs generalizing cmd with
  | nil => exact ⟨ofile, rfl, fun fd => rfl⟩
  | cons r rs ih =>
    obtain ⟨hr, hrs⟩ := List.forall_mem_cons.mp hfd
    obtain ⟨ofile', hrun, hval⟩ := ih hrs (redircmd cmd r)
    have hopen' : ∀ fd < 3, ofile' fd ≠ none := by
      intro fd hlt
      rw [hval]
      cases (redirsOf fd rs).head? with
      | none => exact hopen fd hlt
      | some r => exact Option.some_ne_none _
    refine ⟨update ofile' r.fd (some (.file r.file)), ?_, fun fd => ?_⟩
    · have hwrap : cmd.wrap (r :: rs) = (redircmd cmd r).wrap rs := rfl
      rw [List.length_cons, runRedirs, hwrap, hrun, Option.bind_some, runRedir_redircmd hr hopen']
    · by_cases heq : r.fd = fd
      · subst heq
        simp [redirsOf, bound]
      · rw [update_of_ne (Ne.symm heq), hval, redirsOf, redirsOf,
          List.filter_cons_of_neg (by simpa using heq)]

lemma bound_eq_iff (ofile : ℕ → Option (Ref W)) (fd : ℕ) (rs : List (Redir W)) :
    bound ofile fd rs.head? = bound ofile fd rs.getLast? ↔
      rs.head?.map Redir.file = rs.getLast?.map Redir.file := by
  cases rs with
  | nil => simp
  | cons r rs => simp [bound, List.getLast?_cons]

/-- When `runcmd` reaches the command inside the redirections, the descriptors refer to the files of
the last ones in the text if and only if, for each descriptor, these are the files of the first. -/
theorem runcmd_last_redirection_iff {ts : List Tok} {c : Cmd (List UInt8)}
    {rs : List (Redir (List UInt8))} (h : Redirected ts c rs)
    {ofile : ℕ → Option (Ref (List UInt8))} (hopen : ∀ fd < 3, ofile fd ≠ none) :
    Exec ts (c.wrap rs) ∧
    ∃ ofile', runRedirs rs.length (c.wrap rs, ofile) = some (c, ofile') ∧
      ((∀ fd < 2, ofile' fd = bound ofile fd (redirsOf fd rs).getLast?) ↔
        ∀ fd < 2, (redirsOf fd rs).head?.map Redir.file =
          (redirsOf fd rs).getLast?.map Redir.file) := by
  obtain ⟨ofile', hrun, hval⟩ := runRedirs_wrap h.fd_lt hopen c
  refine ⟨h.exec, ofile', hrun, forall₂_congr fun fd _ => ?_⟩
  rw [hval, bound_eq_iff]

/-- The descriptors 0, 1 and 2 are open. -/
def console (fd : ℕ) : Option (Ref (List UInt8)) := if fd < 3 then some (.inherited fd) else none

/-- The line `a<b>c`. -/
theorem runcmd_last_redirection_iff_two :
    ∃ ofile', runRedirs 2 ((Cmd.exec [[97]]).wrap
        [⟨[98], O_RDONLY, 0⟩, ⟨[99], O_WRONLY ||| O_CREATE ||| O_TRUNC, 1⟩], console) =
      some (.exec [[97]], ofile') ∧ ofile' 0 = some (.file [98]) ∧
      ofile' 1 = some (.file [99]) := by
  have hts : Redirected [.word [97], .lt, .word [98], .gt, .word [99]] (.exec [[97]])
      [⟨[98], O_RDONLY, 0⟩, ⟨[99], O_WRONLY ||| O_CREATE ||| O_TRUNC, 1⟩] :=
    .simple .nil (.cons [97] (.cons [98] rfl (.cons [99] rfl .nil)) .nil) (by decide)
  obtain ⟨-, ofile', hrun, hiff⟩ := runcmd_last_redirection_iff hts
    (show ∀ fd < 3, console fd ≠ none by decide)
  have hlast := hiff.mpr (by decide)
  exact ⟨ofile', hrun, hlast 0 (by decide), hlast 1 (by decide)⟩

/-- In the line `a<b<c` the first redirection counts. -/
theorem runcmd_first_redirection :
    ∃ c buf ofile', parsecmd [97, 60, 98, 60, 99] = .ok (c, buf) ∧
      runRedirs 2 (c.map (cstring 5 buf), console) = some (.exec [[97]], ofile') ∧
      ofile' 0 = some (.file [98]) :=
  ⟨_, _, _, rfl, rfl, rfl⟩

end Xv6.Shell
