import Mathlib.Data.List.Basic

/-!
# The parser of the shell

The parser of `user/sh.c`.  A pointer into the line is the list of the bytes from it on, up to the
zero byte at the end.  A command is built over pointers to the beginning and the end of its words;
`nulterminate` then writes zero bytes at the ends.
-/

namespace Xv6.Shell

abbrev MAXARGS : ℕ := 10

abbrev O_RDONLY : ℕ := 0x000

abbrev O_WRONLY : ℕ := 0x001

abbrev O_CREATE : ℕ := 0x200

abbrev O_TRUNC : ℕ := 0x400

abbrev Ptr : Type := List UInt8

inductive Cmd (W : Type) where
  | exec (argv : List W)
  | redir (cmd : Cmd W) (file : W) (mode fd : ℕ)
  | pipe (left right : Cmd W)
  | list (left right : Cmd W)
  | back (cmd : Cmd W)
  deriving DecidableEq

structure Redir (W : Type) where
  file : W
  mode : ℕ
  fd : ℕ
  deriving DecidableEq

variable {W V : Type}

def redircmd (cmd : Cmd W) (r : Redir W) : Cmd W := .redir cmd r.file r.mode r.fd

def Cmd.wrap (cmd : Cmd W) (rs : List (Redir W)) : Cmd W := rs.foldl redircmd cmd

def Cmd.map (f : W → V) : Cmd W → Cmd V
  | .exec argv => .exec (argv.map f)
  | .redir cmd file mode fd => .redir (cmd.map f) (f file) mode fd
  | .pipe left right => .pipe (left.map f) (right.map f)
  | .list left right => .list (left.map f) (right.map f)
  | .back cmd => .back (cmd.map f)

def Cmd.words : Cmd W → List W
  | .exec argv => argv
  | .redir cmd file _ _ => cmd.words ++ [file]
  | .pipe left right => left.words ++ right.words
  | .list left right => left.words ++ right.words
  | .back cmd => cmd.words

/-- `strchr(whitespace, c)`. -/
def isWhitespace (c : UInt8) : Bool := c = 32 ∨ c = 9 ∨ c = 13 ∨ c = 10 ∨ c = 11

/-- The byte `<`. -/
abbrev lt : UInt8 := 60

/-- The byte `|`. -/
abbrev bar : UInt8 := 124

/-- The byte `>`. -/
abbrev gt : UInt8 := 62

/-- The byte `&`. -/
abbrev amp : UInt8 := 38

/-- The byte `;`. -/
abbrev semi : UInt8 := 59

/-- The byte `(`. -/
abbrev lpar : UInt8 := 40

/-- The byte `)`. -/
abbrev rpar : UInt8 := 41

abbrev wordTok : UInt8 := 97

abbrev appendTok : UInt8 := 43

/-- `strchr(symbols, c)`. -/
def isSymbol (c : UInt8) : Bool :=
  c = lt ∨ c = bar ∨ c = gt ∨ c = amp ∨ c = semi ∨ c = lpar ∨ c = rpar

def isWordChar (c : UInt8) : Bool := !isWhitespace c && !isSymbol c

def skipWhitespace (s : Ptr) : Ptr := s.dropWhile isWhitespace

/-- The `switch` of `gettoken`: the result, and the end of the token. -/
def scan : Ptr → UInt8 × Ptr
  | [] => (0, [])
  | c :: s =>
    if c = bar ∨ c = lpar ∨ c = rpar ∨ c = semi ∨ c = amp ∨ c = lt then (c, s)
    else if c = gt then
      if s.head? = some gt then (appendTok, s.tail) else (gt, s)
    else (wordTok, (c :: s).dropWhile isWordChar)

def gettoken (ps : Ptr) : UInt8 × Ptr × Ptr × Ptr :=
  let q := skipWhitespace ps
  let (ret, eq) := scan q
  (ret, q, eq, skipWhitespace eq)

def peek (ps : Ptr) (toks : List UInt8) : Ptr × Bool :=
  let s := skipWhitespace ps
  (s, s.head?.any (· ∈ toks))

abbrev Word : Type := Ptr × Ptr

/-- The `switch` of `parseredirs`. -/
def redirection (tok : UInt8) (file : Word) : Redir Word :=
  if tok = lt then ⟨file, O_RDONLY, 0⟩
  else if tok = gt then ⟨file, O_WRONLY ||| O_CREATE ||| O_TRUNC, 1⟩
  else ⟨file, O_WRONLY ||| O_CREATE, 1⟩

def parseredirs : ℕ → Ptr → Except String (List (Redir Word) × Ptr)
  | 0, _ => .error "rounds"
  | fuel + 1, ps =>
    let (ps, more) := peek ps [lt, gt]
    if more then
      let (tok, _, _, ps) := gettoken ps
      let (tok', q, eq, ps) := gettoken ps
      if tok' ≠ wordTok then .error "missing file for redirection"
      else
        match parseredirs fuel ps with
        | .error msg => .error msg
        | .ok (rs, ps) => .ok (redirection tok (q, eq) :: rs, ps)
    else .ok ([], ps)

/-- The loop of `parseexec` when there are `argc` arguments: the arguments and redirections that
follow. -/
def parseargs : ℕ → ℕ → Ptr → Except String (List Word × List (Redir Word) × Ptr)
  | 0, _, _ => .error "rounds"
  | fuel + 1, argc, ps =>
    let (ps, stop) := peek ps [bar, rpar, amp, semi]
    if stop then .ok ([], [], ps)
    else
      let (tok, q, eq, ps) := gettoken ps
      if tok = 0 then .ok ([], [], ps)
      else if tok ≠ wordTok then .error "syntax"
      else if argc + 1 ≥ MAXARGS then .error "too many args"
      else
        match parseredirs fuel ps with
        | .error msg => .error msg
        | .ok (rs, ps) =>
          match parseargs fuel (argc + 1) ps with
          | .error msg => .error msg
          | .ok (argv, rs', ps) => .ok ((q, eq) :: argv, rs ++ rs', ps)

def parseback : ℕ → Cmd Word → Ptr → Except String (Cmd Word × Ptr)
  | 0, _, _ => .error "rounds"
  | fuel + 1, cmd, ps =>
    let (ps, more) := peek ps [amp]
    if more then
      let (_, _, _, ps) := gettoken ps
      parseback fuel (.back cmd) ps
    else .ok (cmd, ps)

mutual

def parseline : ℕ → Ptr → Except String (Cmd Word × Ptr)
  | 0, _ => .error "rounds"
  | fuel + 1, ps =>
    match parsepipe fuel ps with
    | .error msg => .error msg
    | .ok (cmd, ps) =>
      match parseback fuel cmd ps with
      | .error msg => .error msg
      | .ok (cmd, ps) =>
        let (ps, more) := peek ps [semi]
        if more then
          let (_, _, _, ps) := gettoken ps
          match parseline fuel ps with
          | .error msg => .error msg
          | .ok (right, ps) => .ok (.list cmd right, ps)
        else .ok (cmd, ps)

def parsepipe : ℕ → Ptr → Except String (Cmd Word × Ptr)
  | 0, _ => .error "rounds"
  | fuel + 1, ps =>
    match parseexec fuel ps with
    | .error msg => .error msg
    | .ok (cmd, ps) =>
      let (ps, more) := peek ps [bar]
      if more then
        let (_, _, _, ps) := gettoken ps
        match parsepipe fuel ps with
        | .error msg => .error msg
        | .ok (right, ps) => .ok (.pipe cmd right, ps)
      else .ok (cmd, ps)

def parseblock : ℕ → Ptr → Except String (Cmd Word × Ptr)
  | 0, _ => .error "rounds"
  | fuel + 1, ps =>
    let (ps, open') := peek ps [lpar]
    if open' = false then .error "parseblock"
    else
      let (_, _, _, ps) := gettoken ps
      match parseline fuel ps with
      | .error msg => .error msg
      | .ok (cmd, ps) =>
        let (ps, close) := peek ps [rpar]
        if close = false then .error "syntax - missing )"
        else
          let (_, _, _, ps) := gettoken ps
          match parseredirs fuel ps with
          | .error msg => .error msg
          | .ok (rs, ps) => .ok (cmd.wrap rs, ps)

def parseexec : ℕ → Ptr → Except String (Cmd Word × Ptr)
  | 0, _ => .error "rounds"
  | fuel + 1, ps =>
    let (ps, block) := peek ps [lpar]
    if block then parseblock fuel ps
    else
      match parseredirs fuel ps with
      | .error msg => .error msg
      | .ok (rs, ps) =>
        match parseargs fuel 0 ps with
        | .error msg => .error msg
        | .ok (argv, rs', ps) => .ok ((Cmd.exec argv).wrap (rs ++ rs'), ps)

end

def place (n : ℕ) (p : Ptr) : ℕ := n - p.length

/-- `nulterminate`: a zero byte at the end of every word. -/
def nulterminate (n : ℕ) (cmd : Cmd Word) (buf : List UInt8) : List UInt8 :=
  cmd.words.foldl (fun buf w => buf.set (place n w.2) 0) buf

/-- `parsecmd`: the command and the buffer. -/
def parsecmd (s : List UInt8) : Except String (Cmd Word × List UInt8) :=
  match parseline (5 * s.length + 5) s with
  | .error msg => .error msg
  | .ok (cmd, ps) =>
    let (ps, _) := peek ps []
    if ps ≠ [] then .error "syntax"
    else .ok (cmd, nulterminate s.length cmd (s ++ [0]))

def cstring (n : ℕ) (buf : List UInt8) (w : Word) : List UInt8 :=
  (buf.drop (place n w.1)).takeWhile (· ≠ 0)

end Xv6.Shell
