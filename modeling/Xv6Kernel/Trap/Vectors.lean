import Xv6Kernel.Foundation.Registers
import Xv6Kernel.Memory.Layout

/-!
# Traps and context switches

The assembly code of `kernel/swtch.S`, `kernel/kernelvec.S` and `kernel/trampoline.S`, with the
changes that `kernel/trap.c` and `kernel/syscall.c` make to the trap frame.  What else the kernel
does while it handles a trap is arbitrary, as long as it leaves the saved registers alone: it may
change all registers and the rest of the memory, and go on on another processor.
-/

namespace Xv6.Trap

open Function Words

inductive Reg where
  | ra | sp | gp | tp | t0 | t1 | t2 | s0 | s1 | a0 | a1 | a2 | a3 | a4 | a5 | a6 | a7
  | s2 | s3 | s4 | s5 | s6 | s7 | s8 | s9 | s10 | s11 | t3 | t4 | t5 | t6
  deriving DecidableEq

open Reg

/-- A processor with the memory.  The page of the trap frame is addressed as in user space. -/
structure Hart extends Words Reg where
  pc : UInt64
  sepc : UInt64
  sscratch : UInt64
  satp : UInt64

def Hart.set (r : Reg) (v : UInt64) (h : Hart) : Hart := { h with reg := update h.reg r v }

@[simp] lemma Hart.set_reg (h : Hart) (r : Reg) (v : UInt64) :
    (h.set r v).reg = update h.reg r v := rfl

/-- What a trap does to the program counter. -/
def Hart.trap (h : Hart) : Hart := { h with sepc := h.pc }

/-! ## `swtch` -/

/-- `struct context`. -/
def context : List (Reg × UInt64) :=
  [(ra, 0), (sp, 8), (s0, 16), (s1, 24), (s2, 32), (s3, 40), (s4, 48), (s5, 56), (s6, 64), (s7, 72),
    (s8, 80), (s9, 88), (s10, 96), (s11, 104)]

def swtch (h : Hart) : Hart :=
  let w := loads a1 context (stores a0 context h.toWords)
  { h with toWords := w, pc := w.reg ra }

/-- A context that was saved by `swtch`, and not changed since, is the one that is resumed: the
processor returns from that call, with the registers that a function has to keep. -/
theorem swtch_resumes (h k : Hart) (hk : k.reg a1 = h.reg a0)
    (hkeep : ∀ s ∈ context, k.mem (h.reg a0 + s.2) = (swtch h).mem (h.reg a0 + s.2))
    (hne : ∀ s ∈ context, ∀ t ∈ context, k.reg a1 + s.2 ≠ k.reg a0 + t.2) :
    (swtch k).pc = h.reg ra ∧
      ∀ r, (swtch k).reg r = if r ∈ context.map Prod.fst then h.reg r else k.reg r := by
  have hreg : ∀ r ∈ context.map Prod.fst, (swtch k).reg r = h.reg r := by
    intro r hr
    obtain ⟨⟨r, o⟩, hs, rfl⟩ := List.mem_map.mp hr
    refine loads_stores (w := h.toWords) (v := stores a0 context k.toWords) (b := a0) (by simpa)
      (by decide) (by decide) (fun _ => id) (fun s hs => ?_) (fun h => absurd h (by decide)) hs
    rw [← hk, stores_mem_of_ne (hne s hs), hk, hkeep s hs, swtch, loads_mem]
  refine ⟨hreg ra (by decide), fun r => ?_⟩
  split
  · exact hreg r ‹_›
  · exact (loads_reg_of_notMem ‹_›).trans (by rw [stores_reg])

/-- Two switches between the contexts at 0 and at 512. -/
theorem swtch_resumes_back : ∃ h k : Hart, k.reg a1 = h.reg a0 ∧ h.reg ra ≠ k.reg ra ∧
    (swtch k).pc = h.reg ra ∧
      ∀ r, (swtch k).reg r = if r ∈ context.map Prod.fst then h.reg r else k.reg r := by
  let h : Hart := ⟨⟨fun r => if r = a1 then 512 else 0, fun _ => 0⟩, 0, 0, 0, 0⟩
  let k : Hart := ⟨⟨fun r => if r = a1 then 0 else 512, (swtch h).mem⟩, 0, 0, 0, 0⟩
  exact ⟨h, k, rfl, by decide, swtch_resumes h k rfl (fun _ _ => rfl) (by decide)⟩

/-! ## `kernelvec` -/

def frame : List (Reg × UInt64) :=
  [(ra, 0), (sp, 8), (gp, 16), (tp, 24), (t0, 32), (t1, 40), (t2, 48), (a0, 72), (a1, 80), (a2, 88),
    (a3, 96), (a4, 104), (a5, 112), (a6, 120), (a7, 128), (t3, 216), (t4, 224), (t5, 232),
    (t6, 240)]

/-- The registers that a C function has to keep. -/
def calleeSaved : List Reg := [sp, s0, s1, s2, s3, s4, s5, s6, s7, s8, s9, s10, s11]

/-- A C function that keeps its registers and the stack of its caller. -/
structure Callee where
  run : Hart → Hart
  reg_eq : ∀ h, ∀ r ∈ calleeSaved, (run h).reg r = h.reg r
  mem_eq : ∀ h, ∀ o < 256, (run h).mem (h.reg sp + o) = h.mem (h.reg sp + o)

/-- `kerneltrap` restores `sepc`, which traps during a `yield` may change. -/
def kerneltrap (body : Callee) (h : Hart) : Hart := { body.run h with sepc := h.sepc }

/-- `kernelvec` up to the call, which leaves its return address in `ra`. -/
def kernelvecCall (link : UInt64) (h : Hart) : Hart :=
  let h := h.set sp (h.reg sp - 256)
  { h with toWords := stores sp frame h.toWords }.set ra link

/-- The registers that are loaded again: `tp` is not. -/
def restored : List (Reg × UInt64) := frame.filter (·.1 ≠ tp)

/-- `kernelvec` after the call. -/
def kernelvecRet (h : Hart) : Hart :=
  let h := { h with toWords := loads sp restored h.toWords }
  { h.set sp (h.reg sp + 256) with pc := h.sepc }

def kernelvec (body : Callee) (link : UInt64) (h : Hart) : Hart :=
  kernelvecRet (kerneltrap body (kernelvecCall link h))

lemma kernelvecCall_reg (link : UInt64) (h : Hart) :
    (kernelvecCall link h).reg = update (update h.reg sp (h.reg sp - 256)) ra link := by
  simp [kernelvecCall]

lemma kernelvecRet_reg {h k : Hart} {link : UInt64}
    (hreg : ∀ r ∈ calleeSaved, k.reg r = (kernelvecCall link h).reg r)
    (hmem : ∀ o < 256, k.mem (h.reg sp - 256 + o) = (kernelvecCall link h).mem (h.reg sp - 256 + o))
    (r : Reg) : (kernelvecRet k).reg r = if r = tp then k.reg tp else h.reg r := by
  rw [kernelvecCall_reg] at hreg
  have hsp : k.reg sp = h.reg sp - 256 := hreg sp (by decide)
  have hsaved : ∀ r ∈ restored.map Prod.fst,
      (loads sp restored k.toWords).reg r = update h.reg sp (h.reg sp - 256) r := by
    intro r hr
    obtain ⟨⟨r, o⟩, hs, rfl⟩ := List.mem_map.mp hr
    refine loads_stores (w := (h.set sp (h.reg sp - 256)).toWords) (b := sp) (l := frame) hsp
      (by decide) (by decide) (fun s hs => (List.mem_filter.mp hs).1) (fun s hs => ?_)
      (fun _ => rfl) hs
    exact hmem s.2 ((by decide : ∀ s ∈ restored, s.2 < 256) s hs)
  rw [kernelvecRet, Hart.set_reg]
  by_cases hr : r = sp
  · rw [hr, update_self, hsaved sp (by decide), update_self, UInt64.sub_add_cancel]
    rfl
  rw [update_of_ne hr]
  by_cases ht : r = tp
  · rw [if_pos ht, ht]
    exact loads_reg_of_notMem (by decide)
  rw [if_neg ht]
  by_cases hl : r ∈ restored.map Prod.fst
  · rw [hsaved r hl, update_of_ne hr]
  -- the handler keeps the registers that are not saved
  have hkept : r ∈ calleeSaved ∧ r ≠ ra := by
    cases r <;> revert hr ht hl <;> decide
  rw [loads_reg_of_notMem hl, hreg r hkept.1, update_of_ne hkept.2, update_of_ne hr]

/-- An interrupt is not noticed by the kernel code that it interrupts, but for `tp`, which is that
of the processor on which the handler returns. -/
theorem kernelvec_transparent (body : Callee) (link : UInt64) (h : Hart) :
    (kernelvec body link h.trap).pc = h.pc ∧ ∀ r, (kernelvec body link h.trap).reg r =
      if r = tp then (body.run (kernelvecCall link h.trap)).reg tp else h.reg r := by
  have hsp : (kernelvecCall link h.trap).reg sp = h.reg sp - 256 := by
    rw [kernelvecCall_reg]
    rfl
  refine ⟨rfl, kernelvecRet_reg (h := h.trap) (body.reg_eq _) fun o ho => ?_⟩
  have := body.mem_eq (kernelvecCall link h.trap) o ho
  rwa [hsp] at this

/-- A handler that overwrites all it may: the registers that it need not keep, and the memory outside
the frame of `kernelvec`. -/
def overwrite (v : UInt64) : Callee where
  run h := { h with
    reg := fun r => if r ∈ calleeSaved then h.reg r else v
    mem := fun a => if a - h.reg sp < 256 then h.mem a else v
    sepc := v }
  reg_eq _ _ hr := if_pos hr
  mem_eq h o ho := if_pos (by rwa [UInt64.add_comm, UInt64.add_sub_cancel])

/-- A processor at address 80 whose stack ends at 4096. -/
def hart : Hart := ⟨⟨fun r => if r = sp then 4096 else 0, fun _ => 0⟩, 80, 0, 0, 0⟩

/-- The handler overwrites `a0` and the memory below the stack, and returns with another `tp`. -/
theorem kernelvec_transparent_overwrite :
    ((overwrite 7).run (kernelvecCall 4 hart.trap)).reg a0 = 7 ∧
    ((overwrite 7).run (kernelvecCall 4 hart.trap)).mem 0 = 7 ∧
    (kernelvec (overwrite 7) 4 hart.trap).pc = 80 ∧
    ∀ r, (kernelvec (overwrite 7) 4 hart.trap).reg r = if r = tp then 7 else hart.reg r :=
  ⟨rfl, by decide +kernel, (kernelvec_transparent (overwrite 7) 4 hart).1,
    (kernelvec_transparent (overwrite 7) 4 hart).2⟩

/-! ## `uservec` and `userret` -/

/-- The places of the registers in `struct trapframe`. -/
def off : Reg → UInt64
  | ra => 40 | sp => 48 | gp => 56 | tp => 64 | t0 => 72 | t1 => 80 | t2 => 88 | s0 => 96
  | s1 => 104 | a0 => 112 | a1 => 120 | a2 => 128 | a3 => 136 | a4 => 144 | a5 => 152 | a6 => 160
  | a7 => 168 | s2 => 176 | s3 => 184 | s4 => 192 | s5 => 200 | s6 => 208 | s7 => 216 | s8 => 224
  | s9 => 232 | s10 => 240 | s11 => 248 | t3 => 256 | t4 => 264 | t5 => 272 | t6 => 280

/-- What `uservec` stores and `userret` loads, but for `a0`. -/
def trapframe : List (Reg × UInt64) :=
  [ra, sp, gp, tp, t0, t1, t2, s0, s1, a1, a2, a3, a4, a5, a6, a7, s2, s3, s4, s5, s6, s7, s8, s9,
    s10, s11, t3, t4, t5, t6].map fun r => (r, off r)

/-- What `uservec` loads, with `kernel_trap` in `t0` and `kernel_satp` in `t1`. -/
def kernelWords : List (Reg × UInt64) := [(sp, 8), (tp, 32), (t0, 16), (t1, 0)]

@[irreducible] def tf : UInt64 := .ofNat TRAPFRAME

def uservec (h : Hart) : Hart :=
  let h := { h with sscratch := h.reg a0 }.set a0 tf
  let w := stores a0 trapframe h.toWords
  let w := sd a0 (t0, 112) { w with reg := update w.reg t0 h.sscratch }
  let w := loads a0 kernelWords w
  { h with toWords := w, satp := w.reg t1, pc := w.reg t0 }

def userret (h : Hart) : Hart :=
  let w := loads a0 trapframe (h.set a0 tf).toWords
  { h with toWords := ld a0 (a0, 112) w, satp := h.reg a0, pc := h.sepc }

def Hart.put (o v : UInt64) (h : Hart) : Hart := { h with mem := update h.mem (tf + o) v }

/-- What happens between, in the kernel or in user space, keeps the trap frame. -/
structure Activity where
  run : Hart → Hart
  mem_eq : ∀ h, ∀ o < 288, (run h).mem (tf + o) = h.mem (tf + o)

/-- Everything but the trap frame is overwritten. -/
def Activity.overwrite (v : UInt64) : Activity where
  run h := ⟨⟨fun _ => v, fun a => if a - tf < 288 then h.mem a else v⟩, v, v, v, v⟩
  mem_eq h o ho := if_pos (by rwa [UInt64.add_comm, UInt64.add_sub_cancel])

lemma overwrite_mem {v o : UInt64} {h : Hart} (ho : ¬o < 288) :
    ((Activity.overwrite v).run h).mem (tf + o) = v :=
  if_neg (by rwa [UInt64.add_comm, UInt64.add_sub_cancel])

/-- `usertrap`, for an interrupt or for a system call that returns a value. -/
def usertrap (k : Activity) (ret : Option UInt64) (h : Hart) : Hart :=
  let h := h.put 24 h.sepc
  match ret with
  | none => k.run h
  | some v => (k.run (h.put 24 (h.mem (tf + 24) + 4))).put (off a0) v

/-- A process: its page table, its kernel stack, and the address of `usertrap`. -/
structure Proc where
  satp : UInt64
  kstack : UInt64
  usertrap : UInt64

def usertrapret (p : Proc) (h : Hart) : Hart :=
  let h := (((h.put 0 h.satp).put 8 (p.kstack + 4096)).put 16 p.usertrap).put 32 (h.reg tp)
  { h with sepc := h.mem (tf + 24) }.set a0 p.satp

/-- The registers in the trap frame. -/
def Hart.frame (h : Hart) (r : Reg) : UInt64 := h.mem (tf + off r)

lemma off_lt (r : Reg) : 32 < off r ∧ off r < 288 := by cases r <;> decide

lemma off_inj {r q : Reg} (h : off r = off q) : r = q := by
  cases r <;> cases q <;> first | rfl | exact absurd h (by decide)

lemma mem_trapframe {r : Reg} (h : r ≠ a0) : (r, off r) ∈ trapframe := by
  cases r <;> first | decide | contradiction

section

variable {h : Hart} {o v : UInt64} {p : Proc}

lemma Hart.put_mem (x : UInt64) :
    (h.put x v).mem (tf + o) = if o = x then v else h.mem (tf + o) := by
  simp only [put, update_apply, UInt64.add_right_inj]

lemma frame_put (ho : o ≤ 32) : (h.put o v).frame = h.frame := by
  funext r
  rw [Hart.frame, Hart.put_mem, if_neg fun he => ?_, Hart.frame]
  exact UInt64.not_lt.mpr ho (he ▸ (off_lt r).1)

lemma frame_put_off (r : Reg) : (h.put (off r) v).frame = update h.frame r v := by
  funext q
  rw [Hart.frame, Hart.put_mem, update_apply]
  exact if_congr ⟨off_inj, congrArg off⟩ rfl rfl

lemma Activity.frame_eq (k : Activity) : (k.run h).frame = h.frame :=
  funext fun r => k.mem_eq h _ (off_lt r).2

lemma uservec_mem {w : Words Reg} (hw : w = (h.set a0 tf).toWords) : (uservec h).mem =
    update (stores a0 trapframe w).mem (tf + 112) (h.reg a0) := by
  simp [uservec, sd, hw, Hart.set]

lemma uservec_frame : (uservec h).frame = h.reg := by
  obtain ⟨w, hw⟩ : ∃ w : Words Reg, w = (h.set a0 tf).toWords := ⟨_, rfl⟩
  have hbase : w.reg a0 = tf := by rw [hw, Hart.set_reg, update_self]
  funext r
  rw [Hart.frame, uservec_mem hw]
  by_cases hr : r = a0
  · rw [hr]
    exact update_self _ _ _
  · have hne : off r ≠ 112 := fun he => hr (off_inj he)
    rw [update_of_ne (by simpa [UInt64.add_right_inj] using hne), ← hbase,
      stores_mem (by decide) (mem_trapframe hr), hw, Hart.set_reg, update_of_ne hr]

lemma uservec_reg {r : Reg} (hs : (r, o) ∈ kernelWords) :
    (uservec h).reg r = h.mem (tf + o) := by
  obtain ⟨w, hw⟩ : ∃ w : Words Reg, w = (h.set a0 tf).toWords := ⟨_, rfl⟩
  have hbase : w.reg a0 = tf := by rw [hw, Hart.set_reg, update_self]
  obtain ⟨hne, hslots⟩ := (by decide : ∀ s ∈ kernelWords,
    s.2 ≠ 112 ∧ ∀ t ∈ trapframe, s.2 ≠ t.2) _ hs
  have hload : (uservec h).reg r = (uservec h).mem (tf + o) := by
    simp only [uservec, loads_mem]
    rw [loads_reg (fun o ho => absurd ho (by simp [kernelWords])) (by decide) hs]
    simp [sd]
  rw [hload, uservec_mem hw, update_of_ne (by simpa [UInt64.add_right_inj] using hne),
    stores_mem_of_ne fun t ht he => hslots t ht ?_, hw, Hart.set]
  rwa [hbase, UInt64.add_right_inj] at he

lemma userret_reg : (userret h).reg = h.frame := by
  obtain ⟨w, hw⟩ : ∃ w : Words Reg, w = (h.set a0 tf).toWords := ⟨_, rfl⟩
  have hbase : w.reg a0 = tf := by rw [hw, Hart.set_reg, update_self]
  have hmem : w.mem = h.mem := by rw [hw, Hart.set]
  have hreg : (userret h).reg = update (loads a0 trapframe w).reg a0
      (w.mem ((loads a0 trapframe w).reg a0 + 112)) := by
    simp only [userret, ld, loads_mem, hw]
  funext r
  rw [hreg, Hart.frame]
  by_cases hr : r = a0
  · rw [hr, update_self, loads_reg_of_notMem (by decide), hbase, hmem]
    rfl
  · have hne : ∀ o, (a0, o) ∉ trapframe := fun o ho =>
      absurd rfl ((by decide : ∀ s ∈ trapframe, s.1 ≠ a0) _ ho)
    rw [update_of_ne hr, loads_reg (fun o ho => absurd ho (hne o)) (by decide) (mem_trapframe hr),
      hbase, hmem]

end

/-! ## The user's view -/

/-- What a user program sees of the processor. -/
structure User where
  reg : Reg → UInt64
  pc : UInt64

/-- User code, which does not reach the trap frame, or a trap. -/
inductive Event where
  | user (f : User → User) (k : Activity)
  | trap (p : Proc) (ret : Option UInt64) (k : Activity)

def User.step (u : User) : Event → User
  | .user f _ => f u
  | .trap _ none _ => u
  | .trap _ (some v) _ => ⟨update u.reg a0 v, u.pc + 4⟩

def Hart.user (h : Hart) : User := ⟨h.reg, h.pc⟩

def Hart.step (h : Hart) : Event → Hart
  | .user f k => { k.run h with reg := (f h.user).reg, pc := (f h.user).pc }
  | .trap p ret k => userret (usertrapret p (usertrap k ret (uservec h.trap)))

lemma usertrapret_user (p : Proc) (h : Hart) :
    (userret (usertrapret p h)).user = ⟨h.frame, h.mem (tf + 24)⟩ := by
  have hframe : (usertrapret p h).frame = h.frame := by
    refine Eq.trans (b := Hart.frame _) rfl ((frame_put (by decide)).trans ?_)
    rw [frame_put (by decide), frame_put (by decide), frame_put (by decide)]
  have hpc : (userret (usertrapret p h)).pc = h.mem (tf + 24) := by
    simp only [userret, usertrapret, Hart.set, Hart.put_mem]
    rfl
  rw [Hart.user, userret_reg, hframe, hpc]

lemma Hart.step_user (h : Hart) (e : Event) : (h.step e).user = h.user.step e := by
  cases e with
  | user f k => rfl
  | trap p ret k =>
    have hsave : (uservec h.trap).frame = h.reg := uservec_frame
    rw [Hart.step, usertrapret_user]
    cases ret with
    | none =>
      rw [usertrap, k.frame_eq, frame_put (by decide), hsave, k.mem_eq _ _ (by decide), put_mem,
        if_pos rfl]
      rfl
    | some v =>
      rw [usertrap, frame_put_off, k.frame_eq, frame_put (by decide), frame_put (by decide), hsave,
        put_mem, if_neg (by decide), k.mem_eq _ _ (by decide), put_mem, if_pos rfl, put_mem,
        if_pos rfl]
      rfl

/-- Traps are transparent: whatever the kernel does meanwhile, a user program sees its registers and
its program counter as if there were no interrupts, and of a system call only that `a0` is the value
it returns and that the program goes on behind the `ecall`. -/
theorem traps_transparent (es : List Event) (h : Hart) :
    (es.foldl Hart.step h).user = es.foldl User.step h.user := by
  induction es generalizing h with
  | nil => rfl
  | cons e es ih => rw [List.foldl_cons, List.foldl_cons, ih, Hart.step_user]

/-- An instruction, an interrupt and a system call that returns 9, while all registers and the memory
behind the trap frame are overwritten each time. -/
theorem traps_transparent_syscall :
    let k := Activity.overwrite 7
    let es : List Event := [.user (fun u => ⟨u.reg, u.pc + 4⟩) k, .trap ⟨1, 8192, 96⟩ none k,
      .trap ⟨1, 8192, 96⟩ (some 9) k]
    (∀ h : Hart, (k.run h).reg a0 = 7 ∧ (k.run h).mem (tf + 288) = 7) ∧
      (es.foldl Hart.step hart).user = ⟨update hart.reg a0 9, 88⟩ := by
  intro k es
  exact ⟨fun h => ⟨rfl, overwrite_mem (by decide)⟩, (traps_transparent es hart).trans rfl⟩

/-- A process that has returned to user space enters the kernel again with the page table and on the
processor from which it has returned, at `usertrap` and at the top of its kernel stack. -/
theorem uservec_enters_kernel (p : Proc) (k : Activity) (u : User) (h : Hart) :
    let g := uservec { k.run (userret (usertrapret p h)) with reg := u.reg }
    g.pc = p.usertrap ∧ g.satp = h.satp ∧ g.reg sp = p.kstack + 4096 ∧ g.reg tp = h.reg tp := by
  intro g
  have hword : ∀ s ∈ kernelWords, g.reg s.1 = (usertrapret p h).mem (tf + s.2) := fun s hs => by
    refine (uservec_reg hs).trans ?_
    rw [k.mem_eq _ _ ((by decide : ∀ s ∈ kernelWords, s.2 < 288) s hs), userret]
    simp [ld, Hart.set]
  simp only [usertrapret, Hart.set, Hart.put_mem] at hword
  exact ⟨hword (t0, 16) (by decide), hword (t1, 0) (by decide), hword (sp, 8) (by decide),
    hword (tp, 32) (by decide)⟩

/-- On the way user code has overwritten all registers. -/
theorem uservec_enters_kernel_overwrite :
    let p : Proc := ⟨1, 8192, 96⟩
    let g := uservec { (Activity.overwrite 7).run (userret (usertrapret p hart)) with
      reg := fun _ => 7 }
    g.pc = 96 ∧ g.satp = 0 ∧ g.reg sp = 12288 ∧ g.reg tp = 0 :=
  uservec_enters_kernel ⟨1, 8192, 96⟩ (.overwrite 7) ⟨fun _ => 7, 7⟩ hart

end Xv6.Trap
