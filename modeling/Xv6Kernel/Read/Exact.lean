import Xv6Kernel.Read.Model

/-!
# A read that faults loses a byte

`piperead` and `consoleread` take a byte out of the buffer before they copy it to the user.  If the
copy fails the byte is neither delivered nor put back.
-/

namespace Xv6

variable {taken : List UInt8} {pi : Pipe}

namespace Read

open Content (Memory Stored)

/-! ## Copying one byte -/

def Holds (mem : Memory) (user : Bool) (dst : ℕ) (bytes : List UInt8) (mem' : Memory) : Prop :=
  Stored mem user dst bytes.length (fun k => bytes.getD k 0) mem'

variable {mem mem' : Memory} {user : Bool} {dst : ℕ} {c : UInt8} {bytes : List UInt8}

lemma Holds.nil (mem : Memory) (user : Bool) (dst : ℕ) : Holds mem user dst [] mem :=
  Stored.nil _ _ _ _

lemma source_get (c : UInt8) : ((Bytes.zero BSIZE).set 0 c).get 0 = c :=
  Bytes.get_set_self _ _ (by decide)

lemma copyoutByte_of_writes (hw : mem.Writes user dst) (c : UInt8) :
    (copyoutByte mem user dst c).2 = true ∧ Holds mem user dst [c] (copyoutByte mem user dst c).1 := by
  obtain ⟨hok, hst⟩ := @Content.eitherCopyout_spec mem user dst 1
    ((Bytes.zero BSIZE).set 0 c) 0 fun k hk => by
      obtain rfl : k = 0 := by omega
      exact hw
  refine ⟨hok, fun k hk => ?_, hst.old, hst.writes⟩
  obtain rfl : k = 0 := Nat.lt_one_iff.mp hk
  refine (hst.new 0 Nat.one_pos).trans (congrArg some ?_)
  rw [Nat.add_zero, source_get]
  rfl

lemma copyoutByte_of_not_writes (hw : ¬mem.Writes user dst) (c : UInt8) :
    copyoutByte mem user dst c = (mem, false) := by
  cases user with
  | false => exact absurd (fun hu => absurd hu Bool.false_ne_true) hw
  | true =>
    unfold copyoutByte Content.eitherCopyout
    rw [if_pos rfl, Content.copyout, if_pos Nat.one_pos]
    split
    · rename_i p hp hwr
      exact absurd (fun _ => ⟨by rw [hp]; rfl, hwr⟩) hw
    · rfl

lemma Holds.snoc (h : Holds mem user dst bytes mem')
    (hw : mem.Writes user (dst + bytes.length)) (c : UInt8) :
    (copyoutByte mem' user (dst + bytes.length) c).2 = true ∧ Holds mem user dst (bytes ++ [c])
        (copyoutByte mem' user (dst + bytes.length) c).1 := by
  obtain ⟨hok, hst⟩ := copyoutByte_of_writes ((h.writes _ _).mpr hw) c
  refine ⟨hok, ?_⟩
  have hfirst : Stored mem user dst bytes.length (fun k => (bytes ++ [c]).getD k 0) mem' :=
    ⟨fun k hk => by rw [h.new k hk, List.getD_append _ _ _ _ hk], h.old, h.writes⟩
  have hlast : Stored mem' user (dst + bytes.length) 1
      (fun k => (bytes ++ [c]).getD (bytes.length + k) 0) _ :=
    ⟨fun k hk => by
      rw [hst.new k hk]
      obtain rfl : k = 0 := Nat.lt_one_iff.mp hk
      simp, hst.old, hst.writes⟩
  rw [Holds, List.length_append]
  exact hfirst.trans hlast

/-- The first `n` bytes behind `dst` can be written. -/
def Reaches (mem : Memory) (user : Bool) (dst n : ℕ) : Prop := ∀ j < n, mem.Writes user (dst + j)

lemma reaches_zero : Reaches mem user dst 0 := fun j hj => absurd hj (Nat.not_lt_zero j)

lemma Reaches.succ {n : ℕ} (h : Reaches mem user dst n) (hw : mem.Writes user (dst + n)) :
    Reaches mem user dst (n + 1) := fun j hj => by
  rcases Nat.lt_succ_iff_lt_or_eq.mp hj with hj | rfl
  · exact h j hj
  · exact hw

/-! ## Pipes -/

/-- The `j`-th byte of the pipe. -/
def pipeByte (pi : Pipe) (j : ℕ) : UInt8 := UInt8.ofNat (pi.data (u32 (pi.nread + j) % PIPESIZE))

structure Left (pi : Pipe) (taken : List UInt8) (pi' : Pipe) : Prop where
  nread : u32 pi'.nread = u32 (pi.nread + taken.length)
  bytes : ∀ j < taken.length, taken.getD j 0 = pipeByte pi j
  data : pi'.data = pi.data

lemma Left.nil (pi : Pipe) : Left pi [] pi :=
  ⟨rfl, fun j hj => absurd hj (by simp), rfl⟩

lemma Left.snoc {pi' : Pipe} (h : Left pi taken pi') :
    Left pi (taken ++ [UInt8.ofNat pi'.head]) pi'.remove where
  nread := by
    have hn := h.nread
    change u32 (u32 (pi'.nread + 1)) = _
    rw [List.length_append, List.length_singleton]
    unfold u32 at *
    omega
  bytes j hj := by
    rw [List.length_append, List.length_singleton] at hj
    rcases Nat.lt_succ_iff_lt_or_eq.mp hj with hj | rfl
    · rw [List.getD_append _ _ _ _ hj, h.bytes j hj]
    have hn := h.nread
    have hidx : pi'.nread % PIPESIZE = u32 (pi.nread + taken.length) % PIPESIZE := by
      change pi'.nread % 512 = u32 (pi.nread + taken.length) % 512
      unfold u32 at *
      omega
    rw [Pipe.head, h.data, hidx]
    simp [pipeByte]
  data := h.data

/-- The bytes taken are those returned, and they are stored at `dst`. -/
def Delivered {σ : Type} (mem : Memory) (user : Bool) (dst : ℕ) (res : Result σ) : Prop :=
  res.ret = res.taken.length ∧ Holds mem user dst res.taken res.mem

/-- The number of bytes in the pipe. -/
def inPipe (pi : Pipe) : ℕ := u32 (pi.nwrite + 2 ^ 32 - pi.nread)

/-- The counters are numbers of 32 bits. -/
def Counters (pi : Pipe) : Prop := pi.nread < 2 ^ 32 ∧ pi.nwrite < 2 ^ 32

lemma inPipe_of_empty (h : pi.empty = true) : inPipe pi = 0 := by
  have heq : pi.nread = pi.nwrite := of_decide_eq_true h
  simp [inPipe, u32, heq]

lemma Counters.inPipe_remove (hpi : Counters pi) (h : ¬pi.empty = true) :
    Counters pi.remove ∧ inPipe pi = inPipe pi.remove + 1 := by
  have hne : pi.nread ≠ pi.nwrite := fun he => h (decide_eq_true he)
  obtain ⟨hr, hw⟩ := hpi
  simp only [Counters, inPipe, u32, Pipe.remove]
  omega

lemma pipereadCopy_spec {addr k i : ℕ} {pi0 : Pipe} (hleft : Left pi0 taken pi)
    (hi : i = taken.length) (hst : Holds mem true addr taken mem') (hpi : Counters pi)
    (hr : Reaches mem true addr taken.length) :
    Left pi0 (pipereadCopy addr k i pi mem' taken).taken
        (pipereadCopy addr k i pi mem' taken).buffer ∧
      (Delivered mem true addr (pipereadCopy addr k i pi mem' taken) ↔
        Reaches mem true addr (taken.length + min k (inPipe pi))) := by
  induction k generalizing i pi mem' taken with
  | zero =>
    rw [Nat.zero_min]
    exact ⟨hleft, iff_of_true ⟨by rw [hi]; rfl, hst⟩ hr⟩
  | succ k ih =>
    unfold pipereadCopy
    by_cases hempty : pi.empty = true
    · rw [if_pos hempty, inPipe_of_empty hempty, Nat.min_zero]
      exact ⟨hleft, iff_of_true ⟨by rw [hi], hst⟩ hr⟩
    obtain ⟨hpi', hcount⟩ := hpi.inPipe_remove hempty
    rw [if_neg hempty, hcount, Nat.add_min_add_right]
    by_cases hw : mem.Writes true (addr + taken.length)
    · obtain ⟨hok, hst'⟩ := hst.snoc hw (UInt8.ofNat pi.head)
      rw [← hi] at hok hst'
      simp only [hok, if_true]
      have hrest := ih (i := i + 1) hleft.snoc (by simp [hi]) hst' hpi' (by simpa using hr.succ hw)
      rwa [List.length_append, List.length_singleton, Nat.add_assoc, Nat.add_comm 1] at hrest
    · -- the byte has left the pipe, but the number returned does not count it
      have hw' : ¬mem'.Writes true (addr + i) := by
        rw [hst.writes, hi]
        exact hw
      simp only [copyoutByte_of_not_writes hw', Bool.false_eq_true, if_false]
      refine ⟨hleft.snoc, iff_of_false (fun hd => ?_) fun hr' => hw (hr' _ (by omega))⟩
      have hlen := hd.1
      simp only [List.length_append, List.length_singleton, hi] at hlen
      omega

/-! ## The console -/

/-- Delivered, or nothing was stored and only a `^D` was taken. -/
def ConsDelivered (mem : Memory) (user : Bool) (dst : ℕ) (res : Result Cons) : Prop :=
  Delivered mem user dst res ∨
    (res.ret = 0 ∧ res.taken = [ctrlD] ∧ Holds mem user dst [] res.mem)

/-- The bytes that a call finds and is to store: at most `n`, up to the end of a line or a `^D`. -/
def line : ℕ → List (Option Cons) → Cons → List UInt8
  | 0, _, _ => []
  | n + 1, wakes, s =>
    match await (fun s => s.r == s.w) wakes s with
    | .ready wakes s =>
      let c := s.buf (s.r % INPUT_BUF_SIZE)
      if c = ctrlD then []
      else if c = newline then [c]
      else c :: line n wakes { s with r := u32 (s.r + 1) }
    | _ => []

/-- The bytes that leave the buffer, each at the index `r` of the buffer as it is found then, which
moves on by one; at the end a `^D` may have been put back. -/
inductive ConsLeft : List (Option Cons) → Cons → List UInt8 → Cons → Prop
  | nil (wakes s) : ConsLeft wakes s [] s
  | back {wakes wakes' s s' r} (h : await (fun s => s.r == s.w) wakes s = .ready wakes' s')
      (hr : u32 r = u32 s'.r) : ConsLeft wakes s [] { s' with r := r }
  | take {wakes wakes' s s' l t} (h : await (fun s => s.r == s.w) wakes s = .ready wakes' s')
      (hl : ConsLeft wakes' { s' with r := u32 (s'.r + 1) } l t) :
      ConsLeft wakes s (s'.buf (s'.r % INPUT_BUF_SIZE) :: l) t

lemma u32_sub_add (r : ℕ) : u32 (Cons.sub (u32 (r + 1)) 1) = u32 r := by
  unfold Cons.sub u32
  omega

lemma consolereadFrom_spec {target n : ℕ} {wakes : List (Option Cons)} {s : Cons} {a : ℕ}
    {res : Result Cons} (hn : taken.length + n = target) (ha : a = dst + taken.length)
    (hst : Holds mem user dst taken mem') (hr : Reaches mem user dst taken.length)
    (hres : consolereadFrom user target n wakes s a mem' taken = some res) (hret : 0 ≤ res.ret) :
    (∃ l, res.taken = taken ++ l ∧ ConsLeft wakes s l res.buffer) ∧
      (ConsDelivered mem user dst res ↔
        Reaches mem user dst (taken.length + (line n wakes s).length)) := by
  induction n generalizing wakes s a mem' taken with
  | zero =>
    cases hres
    exact ⟨⟨[], by simp, .nil _ _⟩, iff_of_true (.inl ⟨by simp [← hn], hst⟩) hr⟩
  | succ n ih =>
    unfold consolereadFrom at hres
    unfold line
    split at hres
    · cases hres
    · cases hres
      exact absurd hret (by norm_num)
    rename_i wakes' s' hready
    rw [hready]
    dsimp only at hres ⊢
    have hcount : (target : ℤ) - (n + 1) = taken.length := by omega
    by_cases hD : s'.buf (s'.r % INPUT_BUF_SIZE) = ctrlD
    · rw [if_pos hD] at hres ⊢
      by_cases hlt : n + 1 < target
      · rw [if_pos hlt] at hres
        cases hres
        exact ⟨⟨[], by simp, .back hready (u32_sub_add _)⟩,
          iff_of_true (.inl ⟨hcount, hst⟩) hr⟩
      rw [if_neg hlt] at hres
      obtain rfl : taken = [] := List.length_eq_zero_iff.mp (by omega)
      cases hres
      refine ⟨⟨_, rfl, .take hready (.nil _ _)⟩, iff_of_true (.inr ⟨hcount, ?_, hst⟩) hr⟩
      rw [hD]
      rfl
    rw [if_neg hD] at hres ⊢
    by_cases hw : mem.Writes user (dst + taken.length)
    · obtain ⟨hok, hst'⟩ := hst.snoc hw (s'.buf (s'.r % INPUT_BUF_SIZE))
      rw [← ha] at hok hst'
      rw [if_pos hok] at hres
      split at hres <;> rename_i hnl
      · cases hres
        rw [if_pos hnl]
        refine ⟨⟨_, rfl, .take hready (.nil _ _)⟩, iff_of_true (.inl ⟨?_, hst'⟩) (hr.succ hw)⟩
        simp only [List.length_append, List.length_singleton]
        omega
      · rw [if_neg hnl]
        obtain ⟨⟨l, htaken, hl⟩, hiff⟩ := ih (by simp; omega) (by simp [ha]; omega) hst'
          (by simpa using hr.succ hw) hres
        rw [List.length_append, List.length_singleton, Nat.add_assoc, Nat.add_comm 1] at hiff
        exact ⟨⟨_, by rw [htaken, List.append_assoc]; rfl, .take hready hl⟩, hiff⟩
    · have hw' : ¬mem'.Writes user a := by
        rw [hst.writes, ha]
        exact hw
      simp only [copyoutByte_of_not_writes hw', Bool.false_eq_true, if_false] at hres
      cases hres
      refine ⟨⟨_, rfl, .take hready (.nil _ _)⟩, iff_of_false (fun hd => ?_) fun hr' => hw (hr' _ ?_)⟩
      · rcases hd with ⟨hlen, -⟩ | ⟨-, htaken, -⟩
        · simp only [List.length_append, List.length_singleton] at hlen
          omega
        refine hD (List.singleton_inj.mp ?_)
        have hnil : taken = [] := by
          have := congrArg List.length htaken
          simpa using this
        rwa [hnil] at htaken
      · split <;> simp

/-! ## What a read consumes -/

/-- A read that returns a number of bytes takes bytes out of the buffer from its front; they are
exactly the bytes returned, stored at its destination (from the console possibly a single `^D`
instead), if and only if there is room in the memory of the process for the bytes in front of it: as
many as are in the pipe, or up to the end of the line, and at most `n`. -/
theorem reads_consume_iff (addr : ℕ) (n : ℤ) (mem : Memory) :
    (∀ (wakes : List (Option Pipe)) (pi : Pipe) (res : Result Pipe),
      piperead wakes pi addr n mem = some res → 0 ≤ res.ret →
      ∃ wakes' pi₁, await (fun pi => pi.empty && pi.writeopen) wakes pi = .ready wakes' pi₁ ∧
        (Counters pi₁ → Left pi₁ res.taken res.buffer ∧
          (Delivered mem true addr res ↔ Reaches mem true addr (min n.toNat (inPipe pi₁))))) ∧
    ∀ (wakes : List (Option Cons)) (s : Cons) (user : Bool) (res : Result Cons),
      consoleread wakes s user addr n mem = some res → 0 ≤ res.ret →
      ConsLeft wakes s res.taken res.buffer ∧
        (ConsDelivered mem user addr res ↔
          Reaches mem user addr (line n.toNat wakes s).length) := by
  constructor
  · intro wakes pi res hres hret
    unfold piperead at hres
    split at hres
    · cases hres
    · cases hres
      exact absurd hret (by norm_num)
    rename_i wakes' pi₁ hready
    cases hres
    refine ⟨wakes', pi₁, hready, fun hpi => ?_⟩
    have hspec := pipereadCopy_spec (k := n.toNat) (Left.nil pi₁) rfl (Holds.nil mem true addr) hpi
      reaches_zero
    rwa [List.length_nil, Nat.zero_add] at hspec
  · intro wakes s user res hres hret
    obtain ⟨⟨l, htaken, hl⟩, hiff⟩ := consolereadFrom_spec (Nat.zero_add _) rfl (.nil _ _ _)
      reaches_zero hres hret
    rw [List.nil_append] at htaken
    rw [List.length_nil, Nat.zero_add] at hiff
    exact ⟨htaken ▸ hl, hiff⟩

/-- A pipe that holds one byte. -/
def onePipe : Pipe := ⟨fun _ => 7, 0, 1, true, true⟩

def oneLine : Cons := ⟨fun _ => newline, 0, 1, 1⟩

def onePage : Memory := ⟨fun _ => 0, fun v => if v = 0 then some fun _ => 0 else none, fun _ => true⟩

/-- The bytes are delivered to a page that is mapped. -/
theorem reads_consume_iff_one_page :
    (∃ res, piperead [] onePipe 0 5 onePage = some res ∧ res.ret = 1 ∧ res.buffer.nread = 1 ∧
      Delivered onePage true 0 res) ∧
    ∃ res, consoleread [] oneLine true 0 5 onePage = some res ∧ res.ret = 1 ∧ res.buffer.r = 1 ∧
      ConsDelivered onePage true 0 res := by
  have hw : Reaches onePage true 0 1 := fun j hj _ => by
    obtain rfl : j = 0 := by omega
    exact ⟨rfl, rfl⟩
  have hin : min (5 : ℤ).toNat (inPipe onePipe) = 1 := by
    simp [inPipe, onePipe, u32]
  obtain ⟨wakes, pi, hready, hpipe⟩ := (reads_consume_iff 0 5 onePage).1 [] onePipe _ rfl (by decide)
  obtain rfl : pi = onePipe := by
    cases hready
    rfl
  rw [hin] at hpipe
  exact ⟨⟨_, rfl, rfl, rfl, (hpipe ⟨by decide, by decide⟩).2.mpr hw⟩,
    ⟨_, rfl, rfl, rfl, ((reads_consume_iff 0 5 onePage).2 [] oneLine true _ rfl (by decide)).2.mpr hw⟩⟩

/-- The address 4096 is not mapped: the byte leaves the pipe, or the console, and 0 is returned. -/
theorem reads_lose_byte :
    (∃ res, piperead [] onePipe 4096 1 onePage = some res ∧ res.ret = 0 ∧ res.taken = [7] ∧
      res.buffer.nread = 1 ∧ ¬Delivered onePage true 4096 res) ∧
    ∃ res, consoleread [] oneLine true 4096 1 onePage = some res ∧ res.ret = 0 ∧
      res.taken = [newline] ∧ res.buffer.r = 1 ∧ ¬ConsDelivered onePage true 4096 res := by
  refine ⟨⟨_, rfl, rfl, rfl, rfl, fun h => ?_⟩, ⟨_, rfl, rfl, rfl, rfl, fun h => ?_⟩⟩
  · exact absurd h.1 (by decide)
  · rcases h with h | h
    · exact absurd h.1 (by decide)
    · exact absurd h.2.1 (by decide)

end Read

end Xv6
