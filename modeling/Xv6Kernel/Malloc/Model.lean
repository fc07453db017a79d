import Mathlib.Algebra.Group.Nat.Defs
import Mathlib.Logic.Function.Basic

/-!
# The allocator of user programs

`free`, `morecore` and `malloc` of `user/umalloc.c`.  A header is 16 bytes long, and every address
that the allocator uses but that of `base` is a multiple of 16, so that the memory of the heap is
one header after another; the payload of a block is the part behind its header.  The field `size` is
32 bits wide and counts headers.
-/

namespace Xv6.Malloc

/-- A `union header`. -/
structure Header where
  ptr : ℕ
  size : ℕ
  deriving DecidableEq

structure State where
  mem : ℕ → Header
  freep : ℕ
  brk : ℕ

namespace State

/-- `p->s.ptr`. -/
def ptr (s : State) (p : ℕ) : ℕ := (s.mem p).ptr

/-- `p->s.size`. -/
def size (s : State) (p : ℕ) : ℕ := (s.mem p).size

def set (s : State) (p : ℕ) (h : Header) : State := { s with mem := Function.update s.mem p h }

end State

/-- Arithmetic of `uint`. -/
def u32 (n : ℕ) : ℕ := n % 2 ^ 32

/-- The loop of `free`. -/
def freeSearch (s : State) (bp : ℕ) : ℕ → ℕ → Option ℕ
  | 0, _ => none
  | fuel + 1, p =>
    if p < bp ∧ bp < s.ptr p then some p
    else if s.ptr p ≤ p ∧ (p < bp ∨ bp < s.ptr p) then some p
    else freeSearch s bp fuel (s.ptr p)

/-- The block `bp` is linked to the block behind it, or joined with it. -/
def joinNext (s : State) (bp q : ℕ) : State :=
  if bp + 16 * s.size bp = q then s.set bp ⟨s.ptr q, u32 (s.size bp + s.size q)⟩
  else s.set bp ⟨q, s.size bp⟩

def joinPrev (s : State) (p bp : ℕ) : State :=
  if p + 16 * s.size p = bp then s.set p ⟨s.ptr bp, u32 (s.size p + s.size bp)⟩
  else s.set p ⟨bp, s.size p⟩

def free (s : State) (ap : ℕ) : Option State :=
  let bp := ap - 16
  (freeSearch s bp (2 * s.brk + 4) s.freep).map fun p =>
    { joinPrev (joinNext s bp (s.ptr p)) p bp with freep := p }

/-- `sbrk`: whether it succeeds for a number of bytes at a break. -/
abbrev Sbrk : Type := ℕ → ℕ → Bool

def morecore (sbrk : Sbrk) (s : State) (nu : ℕ) : Option (ℕ × State) :=
  let nu := if nu < 4096 then 4096 else nu
  if sbrk s.brk (16 * nu) then
    let hp := s.brk
    let s := { s with brk := s.brk + 16 * nu }
    let s := s.set hp ⟨s.ptr hp, nu⟩
    (free s (hp + 16)).map fun s => (s.freep, s)
  else some (0, s)

/-- The block `p` of the list, behind `prevp`, is allocated. -/
def take (s : State) (nunits prevp p : ℕ) : ℕ × State :=
  if s.size p = nunits then
    (p + 16, { s.set prevp ⟨s.ptr p, s.size prevp⟩ with freep := prevp })
  else
    let s := s.set p ⟨s.ptr p, s.size p - nunits⟩
    let p := p + 16 * s.size p
    let s := s.set p ⟨s.ptr p, nunits⟩
    (p + 16, { s with freep := prevp })

def mallocLoop (sbrk : Sbrk) (nunits : ℕ) : ℕ → State → ℕ → ℕ → Option (ℕ × State)
  | 0, _, _, _ => none
  | fuel + 1, s, prevp, p =>
    if nunits ≤ s.size p then some (take s nunits prevp p)
    else if p = s.freep then
      match morecore sbrk s nunits with
      | none => none
      | some (p, s) => if p = 0 then some (0, s) else mallocLoop sbrk nunits fuel s p (s.ptr p)
    else mallocLoop sbrk nunits fuel s p (s.ptr p)

/-- The size of a block with `nbytes` bytes of payload. -/
def units (nbytes : ℕ) : ℕ := (nbytes + 16 - 1) / 16 + 1

def malloc (base : ℕ) (sbrk : Sbrk) (s : State) (nbytes : ℕ) : Option (ℕ × State) :=
  let nunits := units nbytes
  let s := if s.freep = 0 then { s.set base ⟨base, 0⟩ with freep := base } else s
  mallocLoop sbrk nunits (4 * s.brk + 8) s s.freep (s.ptr s.freep)

/-- The runs of a program: the state, and the blocks that `malloc` returned and that are not yet
freed.  The program may write to them.  `P` is what is assumed of `sbrk`. -/
inductive Runs (P : Sbrk → Prop) (base brk₀ : ℕ) : State → List ℕ → Prop where
  | start (s : State) (hfreep : s.freep = 0) (hbrk : s.brk = brk₀) : Runs P base brk₀ s []
  | malloc {s s' : State} {live : List ℕ} {sbrk : Sbrk} {n ap : ℕ} (h : Runs P base brk₀ s live)
      (hsbrk : P sbrk) (hn : 16 * units n < 2 ^ 31)
      (hcall : malloc base sbrk s n = some (ap, s')) :
      Runs P base brk₀ s' (if ap = 0 then live else ap :: live)
  | free {s s' : State} {live : List ℕ} {ap : ℕ} (h : Runs P base brk₀ s live) (hap : ap ∈ live)
      (hcall : free s ap = some s') : Runs P base brk₀ s' (live.erase ap)
  | store {s : State} {live : List ℕ} {ap a : ℕ} {v : Header} (h : Runs P base brk₀ s live)
      (hap : ap ∈ live) (hlo : ap ≤ a) (halign : (a - ap) % 16 = 0)
      (hhi : a < ap - 16 + 16 * s.size (ap - 16)) :
      Runs P base brk₀ (s.set a v) live

end Xv6.Malloc
