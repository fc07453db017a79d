import Xv6Kernel.Console.Model
import Xv6Kernel.Content.Array

/-!
# The readers behind `read`

`fileread` of `kernel/file.c` with its three readers: `piperead`, `consoleread` and `readi`.  A
reader that finds nothing sleeps, and what it finds when it wakes up is up to the other processes: a
call gets a list of its wake-ups, each with the buffer as it then is, or with the news that the
process has been killed.
-/

namespace Xv6.Read

open Content (Memory Inode Superblock Fs)

/-- `either_copyout(user_dst, dst, &c, 1)`; the result tells whether it succeeded. -/
def copyoutByte (mem : Memory) (user : Bool) (dst : ℕ) (c : UInt8) : Memory × Bool :=
  Content.eitherCopyout mem user dst ((Bytes.zero BSIZE).set 0 c) 0 1

/-! ## Waiting -/

/-- How a loop that waits ends. -/
inductive Wait (σ : Type) where
  | asleep
  | killed (s : σ)
  | ready (wakes : List (Option σ)) (s : σ)

/-- The loop `while(test) { if(killed(p)) return -1; sleep(chan, lk); }`. -/
def await {σ : Type} (test : σ → Bool) : List (Option σ) → σ → Wait σ
  | [], s => if test s then .asleep else .ready [] s
  | w :: wakes, s =>
    if test s then
      match w with
      | none => .killed s
      | some s' => await test wakes s'
    else .ready (w :: wakes) s

/-- What a reader leaves behind. -/
structure Result (σ : Type) where
  ret : ℤ
  taken : List UInt8
  buffer : σ
  mem : Memory

/-! ## Pipes -/

/-- The loop of `piperead` that copies, with `k` bytes left to do after `i` bytes. -/
def pipereadCopy (addr : ℕ) : ℕ → ℕ → Pipe → Memory → List UInt8 → Result Pipe
  | 0, i, pi, mem, taken => ⟨i, taken, pi, mem⟩
  | k + 1, i, pi, mem, taken =>
    if pi.empty then ⟨i, taken, pi, mem⟩
    else
      let ch := UInt8.ofNat pi.head
      let r := copyoutByte mem true (addr + i) ch
      if r.2 then pipereadCopy addr k (i + 1) pi.remove r.1 (taken ++ [ch])
      else ⟨i, taken ++ [ch], pi.remove, r.1⟩

def piperead (wakes : List (Option Pipe)) (pi : Pipe) (addr : ℕ) (n : ℤ) (mem : Memory) :
    Option (Result Pipe) :=
  match await (fun pi => pi.empty && pi.writeopen) wakes pi with
  | .asleep => none
  | .killed pi => some ⟨-1, [], pi, mem⟩
  | .ready _ pi => some (pipereadCopy addr n.toNat 0 pi mem [])

/-! ## The console -/

def consolereadFrom (user : Bool) (target : ℕ) :
    ℕ → List (Option Cons) → Cons → ℕ → Memory → List UInt8 → Option (Result Cons)
  | 0, _, s, _, mem, taken => some ⟨target, taken, s, mem⟩
  | n + 1, wakes, s, dst, mem, taken =>
    match await (fun s => s.r == s.w) wakes s with
    | .asleep => none
    | .killed s => some ⟨-1, taken, s, mem⟩
    | .ready wakes s =>
      let c := s.buf (s.r % INPUT_BUF_SIZE)
      let s := { s with r := u32 (s.r + 1) }
      if c = ctrlD then
        -- the byte is put back if there are others to return first
        if n + 1 < target then
          some ⟨target - (n + 1), taken, { s with r := Cons.sub s.r 1 }, mem⟩
        else some ⟨target - (n + 1), taken ++ [c], s, mem⟩
      else
        let r := copyoutByte mem user dst c
        if r.2 then
          if c = newline then some ⟨target - n, taken ++ [c], s, r.1⟩
          else consolereadFrom user target n wakes s (dst + 1) r.1 (taken ++ [c])
        else some ⟨target - (n + 1), taken ++ [c], s, r.1⟩

def consoleread (wakes : List (Option Cons)) (s : Cons) (user : Bool) (dst : ℕ) (n : ℤ)
    (mem : Memory) : Option (Result Cons) :=
  consolereadFrom user n.toNat n.toNat wakes s dst mem []

/-! ## Files -/

def CONSOLE : ℤ := 1

/-- What an open file refers to. -/
inductive Kind where
  | pipe (wakes : List (Option Pipe)) (pi : Pipe)
  | device (major : ℤ) (wakes : List (Option Cons)) (s : Cons)
  | inode (ip : Inode)
  | other

structure File where
  readable : Bool
  kind : Kind
  off : UInt32

/-- `fileread(f, addr, n)`: the value, the new `f->off` and the memory; `none` if the call still
sleeps or panics. -/
def fileread (sb : Superblock) (fs : Fs) (f : File) (addr : ℕ) (n : Int32) (mem : Memory) :
    Option (ℤ × UInt32 × Memory) :=
  if f.readable = false then some (-1, f.off, mem)
  else
    match f.kind with
    | .pipe wakes pi => (piperead wakes pi addr n.toInt mem).map fun r => (r.ret, f.off, r.mem)
    | .device major wakes s =>
      if major = CONSOLE then
        (consoleread wakes s true addr n.toInt mem).map fun r => (r.ret, f.off, r.mem)
      else some (-1, f.off, mem)
    | .inode ip =>
      (Content.readi sb fs ip mem true addr f.off n.toUInt32).map fun r =>
        (r.1, if 0 < r.1 then f.off + UInt32.ofNat r.1.toNat else f.off, r.2.1)
    | .other => none

end Xv6.Read
