import Xv6Kernel.Pipe.Model

/-!
# The console

The input half of `kernel/console.c`: `consoleintr`, which edits the line that is being typed, and
`consoleread`, which takes lines out of the buffer.  Both work under `cons.lock`, so that what
happens between taking the lock and giving it back, or going to sleep, is one action.
-/

namespace Xv6

abbrev INPUT_BUF_SIZE : ℕ := 128

/-- `C('D')`, the end of the file. -/
def ctrlD : UInt8 := 4

/-- `C('H')`, backspace. -/
def ctrlH : UInt8 := 8

def ctrlP : UInt8 := 16

/-- `C('U')`, which kills the line. -/
def ctrlU : UInt8 := 21

def deleteKey : UInt8 := 0x7f

/-- `'\n'`. -/
def newline : UInt8 := 10

/-- `'\r'`. -/
def carriageReturn : UInt8 := 13

/-- `struct cons` without its lock. -/
structure Cons where
  buf : ℕ → UInt8
  r : ℕ
  w : ℕ
  e : ℕ

namespace Cons

def sub (a b : ℕ) : ℕ := u32 (a + 2 ^ 32 - b)

def killLineFrom : ℕ → Cons → Cons
  | 0, s => s
  | k + 1, s =>
    if s.e ≠ s.w ∧ s.buf (sub s.e 1 % INPUT_BUF_SIZE) ≠ newline then
      killLineFrom k { s with e := sub s.e 1 }
    else s

/-- The case of `C('U')`: the loop ends when `e` has come down to `w`. -/
def killLine (s : Cons) : Cons := killLineFrom (sub s.e s.w) s

def backspace (s : Cons) : Cons := if s.e ≠ s.w then { s with e := sub s.e 1 } else s

def store (s : Cons) (c : UInt8) : Cons :=
  { s with buf := Function.update s.buf (s.e % INPUT_BUF_SIZE) c, e := u32 (s.e + 1) }

def commit (s : Cons) (c : UInt8) : Cons :=
  if c = newline ∨ c = ctrlD ∨ sub s.e s.r = INPUT_BUF_SIZE then { s with w := s.e } else s

def insert (s : Cons) (c : UInt8) : Cons :=
  if c ≠ 0 ∧ sub s.e s.r < INPUT_BUF_SIZE then
    let c := if c = carriageReturn then newline else c
    (s.store c).commit c
  else s

/-- `consoleintr(c)`. -/
def intr (s : Cons) (c : UInt8) : Cons :=
  if c = ctrlP then s
  else if c = ctrlU then s.killLine
  else if c = ctrlH ∨ c = deleteKey then s.backspace
  else s.insert c

/-- The loop of `consoleread` with `n` bytes left of `target`, up to its end or to the next `sleep`;
it returns the number of bytes left when it sleeps.  `valid` says at which offsets `either_copyout`
succeeds. -/
def readFrom (valid : ℕ → Bool) (target : ℕ) : ℕ → Cons → Option ℕ × Cons
  | 0, s => (none, s)
  | n + 1, s =>
    if s.r = s.w then (some (n + 1), s)
    else
      let c := s.buf (s.r % INPUT_BUF_SIZE)
      let s := { s with r := u32 (s.r + 1) }
      if c = ctrlD then (none, if n + 1 < target then { s with r := sub s.r 1 } else s)
      else if valid (target - (n + 1)) = false then (none, s)
      else if c = newline then (none, s)
      else readFrom valid target n s

end Cons

inductive ConsAct where
  | intr (c : UInt8)
  /-- A section of `consoleread` with `n` bytes left of `target`. -/
  | read (valid : ℕ → Bool) (target n : ℕ)

abbrev ConsProg := Prog Cons ConsAct

def consoleintr (c : UInt8) : ConsProg Unit :=
  .atomic (.intr c) fun s => .done () (s.intr c)

/-- One section of `consoleread`. -/
def readSection (valid : ℕ → Bool) (target n : ℕ) : ConsProg (Option ℕ) :=
  .atomic (.read valid target n) fun s =>
    .done (s.readFrom valid target n).1 (s.readFrom valid target n).2

/-- The loop of `consoleread` over its sections; the environment says whether the process has been
killed when it would sleep. -/
def consolereadLoop (valid : ℕ → Bool) (target : ℕ) : ℕ → ℕ → ConsProg Unit
  | 0, _ => pure ()
  | rounds + 1, n => do
    match ← readSection valid target n with
    | none => pure ()
    | some n =>
      if ← Prog.pickBool then pure ()
      else consolereadLoop valid target rounds n

inductive ConsCall where
  | intr (c : UInt8)
  | read (valid : ℕ → Bool) (n : ℤ) (rounds : ℕ)

def consMachine (ι : Type) : Machine Cons ConsAct ι where
  Call := ConsCall
  body _
    | .intr c => consoleintr c
    | .read valid n rounds => consolereadLoop valid n.toNat rounds n.toNat
  ready _ _ _ := True

def Cons.init : Cons := ⟨fun _ => 0, 0, 0, 0⟩

end Xv6
