import Xv6Kernel.Foundation.Monitor
import Xv6Kernel.Memory.Layout

/-!
# The transmit buffer of the UART

`uartputc`, `uartstart` and `uartintr` of `kernel/uart.c` with `uart_tx_lock`.  The buffer is a ring
of 32 bytes with two indices of 64 bits.  A writer that finds it full sleeps on `&uart_tx_r`;
`uartstart`, which a writer calls as well as the interrupt, sends bytes as long as the device is
ready and wakes the writers after each of them.

Whether the device is ready is up to the environment.
-/

namespace Xv6

open Function

variable {k : ℕ × ℕ}

namespace Uart

open Protocol

abbrev UART_TX_BUF_SIZE : ℕ := 32

/-- The transmit buffer, and `panicked` of `printf.c`. -/
structure Tx where
  buf : ℕ → UInt8
  w : ℕ
  r : ℕ
  panicked : Bool

namespace Tx

def full (u : Tx) : Bool := u.w == u64 (u.r + UART_TX_BUF_SIZE)

def empty (u : Tx) : Bool := u.w == u.r

def put (u : Tx) (c : UInt8) : Tx :=
  { u with buf := update u.buf (u.w % UART_TX_BUF_SIZE) c, w := u64 (u.w + 1) }

def head (u : Tx) : UInt8 := u.buf (u.r % UART_TX_BUF_SIZE)

/-- `uart_tx_r += 1`. -/
def take (u : Tx) : Tx := { u with r := u64 (u.r + 1) }

/-- `uart_tx_w - uart_tx_r`. -/
def count (u : Tx) : ℕ := u64 (u.w + 2 ^ 64 - u.r)

def contents (u : Tx) : List UInt8 :=
  (List.range u.count).map fun j => u.buf ((u.r + j) % UART_TX_BUF_SIZE)

end Tx

/-- The actions on the buffer. -/
inductive TxAct where
  | look
  | put (c : UInt8)
  | take
  | thr (c : UInt8)
  | panic
  deriving DecidableEq

/-- Programs on the buffer and its lock; the only channel is `&uart_tx_r`. -/
abbrev TxProg (N : ℕ) (α : Type) : Type 1 := MonProg N Tx TxAct Unit α

section Programs

variable {N : ℕ}

/-- The loop of `uartstart`; the environment says whether `LSR_TX_IDLE` is set. -/
def uartstartLoop (p : Fin N) : ℕ → TxProg N Unit
  | 0 => Monitor.act .look fun _ => .panic "uartstart: rounds"
  | rounds + 1 => do
    if ← Monitor.act .look fun u => .done u.empty u then pure ()
    else if ← Prog.pickBool then
      let c ← Monitor.act .take fun u => .done u.head u.take
      Monitor.wakeup p ()
      Monitor.act (.thr c) fun u => .done () u
      uartstartLoop p rounds
    else pure ()

def uartstart (p : Fin N) : TxProg N Unit := uartstartLoop p (UART_TX_BUF_SIZE + 1)

/-- The loop of `uartputc` that waits for space, and the rest of the function. -/
def uartputcLoop (p : Fin N) (c : UInt8) : ℕ → TxProg N Unit
  | 0 => Monitor.halt
  | rounds + 1 => do
    if ← Monitor.act .look fun u => .done u.full u then
      Monitor.sleep p ()
      uartputcLoop p c rounds
    else
      Monitor.act (.put c) fun u => .done () (u.put c)
      uartstart p
      Monitor.release

def uartputc (p : Fin N) (c : UInt8) (rounds : ℕ) : TxProg N Unit := do
  Monitor.acquire p
  if ← Monitor.act .look fun u => .done u.panicked u then Monitor.halt
  else uartputcLoop p c rounds

def uartintr (p : Fin N) : TxProg N Unit := do
  Monitor.acquire p
  uartstart p
  Monitor.release

end Programs

/-- The calls: those of the source, a `kill` of a process, which wakes it up if it sleeps, and a
`panic` of the kernel. -/
inductive TxCall (N : ℕ) where
  | putc (c : UInt8) (rounds : ℕ)
  | intr
  | kill (q : Fin N)
  | panic

def txMachine (N : ℕ) : Machine (Monitor N Tx Unit) (MonAct N TxAct Unit) (Fin N) where
  Call := TxCall N
  body p
    | .putc c rounds => uartputc p c rounds
    | .intr => uartintr p
    | .kill q => Monitor.wakeupFrom p () [q]
    | .panic => Monitor.act .panic fun u => .done () { u with panicked := true }
  ready _ _ _ := True

instance (N : ℕ) (s : Monitor N Tx Unit) (p : Fin N) (x : (txMachine N).Call) :
    Decidable ((txMachine N).ready s p x) :=
  inferInstanceAs (Decidable True)

/-- The buffer at the start. -/
def Tx.started (N : ℕ) : Monitor N Tx Unit := Monitor.init ⟨fun _ => 0, 0, 0, false⟩

/-! ## The ring -/

namespace Tx

variable {u : Tx} {c : UInt8}

/-- The indices are numbers of 64 bits, and the buffer holds at most 32 bytes. -/
structure Ok (u : Tx) : Prop where
  w_lt : u.w < 2 ^ 64
  r_lt : u.r < 2 ^ 64
  count_le : u.count ≤ 32

lemma Ok.w_eq (h : u.Ok) : u.w = u64 (u.r + u.count) := by
  have hw := h.w_lt
  have hr := h.r_lt
  unfold count u64
  omega

lemma Ok.full_iff (h : u.Ok) : u.full = true ↔ u.count = 32 := by
  have hw := h.w_lt
  have hr := h.r_lt
  rw [full, beq_iff_eq]
  change u.w = u64 (u.r + 32) ↔ _
  unfold count u64
  omega

lemma Ok.empty_iff (h : u.Ok) : u.empty = true ↔ u.count = 0 := by
  have hw := h.w_lt
  have hr := h.r_lt
  rw [empty, beq_iff_eq]
  unfold count u64
  omega

lemma Ok.put (h : u.Ok) (hfull : u.count ≠ 32) (c : UInt8) :
    (u.put c).Ok ∧ (u.put c).count = u.count + 1 ∧ (u.put c).contents = u.contents ++ [c] := by
  have hw := h.w_lt
  have hr := h.r_lt
  have hle := h.count_le
  have hweq := h.w_eq
  have hcount : (u.put c).count = u.count + 1 := by
    change u64 (u64 (u.w + 1) + 2 ^ 64 - u.r) = u64 (u.w + 2 ^ 64 - u.r) + 1
    unfold count u64 at *
    omega
  refine ⟨⟨Nat.mod_lt _ (by decide), hr, by omega⟩, hcount, ?_⟩
  unfold contents
  rw [hcount, List.range_succ, List.map_append, List.map_singleton]
  congr 1
  · refine List.map_congr_left fun j hj => ?_
    rw [List.mem_range] at hj
    refine update_of_ne ?_ _ _
    change (u.r + j) % 32 ≠ u.w % 32
    rw [hweq]
    unfold u64
    omega
  · refine congrArg (fun x => [x]) ?_
    have hidx : (u.r + u.count) % UART_TX_BUF_SIZE = u.w % UART_TX_BUF_SIZE := by
      change (u.r + u.count) % 32 = u.w % 32
      rw [hweq]
      unfold u64
      omega
    change update u.buf (u.w % UART_TX_BUF_SIZE) c ((u.r + u.count) % _) = c
    rw [hidx, update_self]

lemma Ok.take (h : u.Ok) (hempty : u.count ≠ 0) :
    u.take.Ok ∧ u.take.count + 1 = u.count ∧ u.contents = u.head :: u.take.contents := by
  have hw := h.w_lt
  have hr := h.r_lt
  have hle := h.count_le
  have hcount : u.take.count + 1 = u.count := by
    change u64 (u.w + 2 ^ 64 - u64 (u.r + 1)) + 1 = u64 (u.w + 2 ^ 64 - u.r)
    unfold count u64 at *
    omega
  refine ⟨⟨hw, Nat.mod_lt _ (by decide), by omega⟩, hcount, ?_⟩
  unfold contents
  rw [← hcount, List.range_succ_eq_map, List.map_cons, List.map_map]
  refine congrArg₂ List.cons rfl (List.map_congr_left fun j _ => ?_)
  have hidx : (u.r + (j + 1)) % 32 = (u64 (u.r + 1) + j) % 32 := by
    unfold u64
    omega
  exact congrArg u.buf hidx

end Tx

/-! ## The invariant -/

structure TxHist where
  /-- The bytes that `uartputc` has stored, in their order. -/
  accepted : List UInt8
  /-- The bytes that `uartstart` has written to `THR`, in their order. -/
  sent : List UInt8

def TxHist.upd {N : ℕ} (η : TxHist) (_ : Fin N) : TxAct → TxHist
  | .put c => { η with accepted := η.accepted ++ [c] }
  | .thr c => { η with sent := η.sent ++ [c] }
  | _ => η

variable {N : ℕ}

/-- The invariant of the buffer; a process that has taken a byte out owns it. -/
structure TxInv (u : Tx) (η : TxHist) (γ : Fin N → Option UInt8) : Prop where
  ok : u.Ok
  bytes : ∃ way, η.accepted = η.sent ++ way ++ u.contents ∧ (∀ p c, γ p = some c → way = [c]) ∧
    ((∀ p, γ p = none) → way = [])

def txSpec (N : ℕ) : MonSpec N Tx TxAct Unit (ℕ × ℕ) (Option UInt8) TxHist where
  view u := (u.w, u.r)
  waits _ k := k.1 = u64 (k.2 + UART_TX_BUF_SIZE)
  inv := TxInv
  upd := TxHist.upd
  guar _ _ _ _ := True
  tol _ := False
  sleeps g := g = none
  quiet g := g = none
  idle := none

namespace TxInv

variable {u : Tx} {η : TxHist} {γ : Fin N → Option UInt8} {p : Fin N} {c : UInt8}

lemma accepted_eq (h : TxInv u η γ) (hγ : ∀ p, γ p = none) : η.accepted = η.sent ++ u.contents := by
  obtain ⟨way, hbytes, -, hnil⟩ := h.bytes
  rw [hbytes, hnil hγ, List.append_nil]

lemma all_none (hp : γ p = none) (hq : ∀ q, q ≠ p → γ q = none) (q : Fin N) : γ q = none := by
  by_cases hqp : q = p
  · exact hqp ▸ hp
  · exact hq q hqp

lemma put (h : TxInv u η γ) (hγ : ∀ p, γ p = none) (hfull : u.count ≠ 32) (c : UInt8) :
    TxInv (u.put c) (η.upd p (.put c)) γ := by
  obtain ⟨hok, -, hcont⟩ := h.ok.put hfull c
  refine ⟨hok, [], ?_, fun q x hx => by simp [hγ q] at hx, fun _ => rfl⟩
  change η.accepted ++ [c] = η.sent ++ [] ++ (u.put c).contents
  rw [h.accepted_eq hγ, hcont]
  simp

lemma take (h : TxInv u η γ) (hγ : ∀ p, γ p = none) (hempty : u.count ≠ 0) :
    TxInv u.take (η.upd p .take) (update γ p (some u.head)) := by
  obtain ⟨hok, -, hcont⟩ := h.ok.take hempty
  refine ⟨hok, [u.head], ?_, fun q x hx => ?_, fun hall => ?_⟩
  · change η.accepted = η.sent ++ [u.head] ++ u.take.contents
    rw [h.accepted_eq hγ, hcont]
    simp
  · by_cases hqp : q = p
    · subst hqp
      rw [update_self] at hx
      rw [Option.some.inj hx]
    · rw [update_of_ne hqp, hγ q] at hx
      cases hx
  · have := hall p
    rw [update_self] at this
    cases this

lemma thr (h : TxInv u η γ) (hp : γ p = some c) (hq : ∀ q, q ≠ p → γ q = none) :
    TxInv u (η.upd p (.thr c)) (update γ p none) := by
  obtain ⟨way, hbytes, hway, -⟩ := h.bytes
  refine ⟨h.ok, [], ?_, fun q x hx => ?_, fun _ => rfl⟩
  · change η.accepted = η.sent ++ [c] ++ [] ++ u.contents
    rw [hbytes, hway p c hp]
    simp
  · by_cases hqp : q = p
    · subst hqp
      rw [update_self] at hx
      cases hx
    · rw [update_of_ne hqp, hq q hqp] at hx
      cases hx

end TxInv

def free : MonGhost N Unit (ℕ × ℕ) (Option UInt8) := ⟨none, fun _ => ∅, .run, none⟩

/-- What the holder of the lock knows and owns: the indices, and nobody is owed a wakeup. -/
def holding (k : ℕ × ℕ) (owe : Unit → Set (Fin N)) : MonGhost N Unit (ℕ × ℕ) (Option UInt8) :=
  ⟨some k, owe, .run, none⟩

variable {p : Fin N}

lemma safe_look {β : Type} {f : Tx → β} {Q : β → MonGhost N Unit (ℕ × ℕ) (Option UInt8) → Prop}
    {owe : Unit → Set (Fin N)} (hQ : ∀ u : Tx, u.Ok → (u.w, u.r) = k → Q (f u) (holding k owe)) :
    (monProtocol (txSpec N)).Safe p Q (Monitor.act .look fun u => .done (f u) u) (holding k owe) := by
  refine safe_locked (fun d η γ msg _ _ _ hf => by cases hf) fun d η γ b d' hinv hp _ hk hf => ?_
  cases hf
  refine ⟨trivial, none, owe, ?_, fun q ch hw => ?_, ?_⟩
  · rw [← hp, update_eq_self]
    exact hinv
  · rw [← hk] at hw
    exact hw
  · have hd : (d.w, d.r) = k := hk
    change Q (f d) ⟨some (d.w, d.r), owe, .run, none⟩
    rw [hd]
    exact hQ d (TxInv.ok hinv) hd

lemma safe_uartstartLoop (rounds : ℕ) (k : ℕ × ℕ) (owe : Unit → Set (Fin N))
    (howe : owe () ⊆ {p}) (hrounds : ∀ u : Tx, u.Ok → (u.w, u.r) = k → u.count < rounds) :
    (monProtocol (txSpec N)).Safe p (fun _ g => ∃ k owe, g = holding k owe ∧ owe () ⊆ {p})
      (uartstartLoop p rounds) (holding k owe) := by
  induction rounds generalizing k owe with
  | zero =>
    refine safe_locked (fun d η γ msg hinv _ hk _ => ?_) fun d η γ b d' _ _ _ _ hf => by cases hf
    exact absurd (hrounds d (TxInv.ok hinv) hk) (Nat.not_lt_zero _)
  | succ rounds ih =>
    refine Safe.bind (safe_look fun u hok hk => ?_)
    by_cases hempty : u.empty = true
    · rw [if_pos hempty]
      exact safe_ret ⟨k, owe, rfl, howe⟩
    rw [if_neg hempty]
    refine Safe.bind (safe_pickBool trivial fun ready => ?_)
    rcases ready with _ | _
    · exact safe_ret ⟨k, owe, rfl, howe⟩
    rw [if_pos rfl]
    refine Safe.bind (safe_locked (fun d η γ msg _ _ _ hf => by cases hf)
      fun d η γ b d' hinv hp hq hkd hf => ?_)
    cases hf
    have hkd : (d.w, d.r) = k := hkd
    have hempty' : d.count ≠ 0 := by
      rw [Ne, ← (TxInv.ok hinv).empty_iff, Tx.empty]
      rw [← hk, Prod.mk.injEq] at hkd
      rw [hkd.1, hkd.2]
      exact hempty
    have hlt := hrounds d (TxInv.ok hinv) hkd
    obtain ⟨-, hcount, -⟩ := (TxInv.ok hinv).take hempty'
    -- the writers are owed a wakeup now
    refine ⟨trivial, some d.head, fun _ => Set.univ,
      TxInv.take hinv (TxInv.all_none hp hq) hempty', fun q ch _ => .inr (Set.mem_univ q), ?_⟩
    refine Safe.bind (safe_wakeup fun owe' _ howe' => Safe.bind (safe_locked
      (fun e η γ msg _ _ _ hf => by cases hf) fun e η γ b e' hinv hp hq hke hf => ?_))
    cases hf
    refine ⟨trivial, none, owe', TxInv.thr hinv hp hq, fun q ch hw => ?_, ?_⟩
    · rw [← hke] at hw
      exact hw
    · refine ih _ owe' howe' fun v hv hkv => ?_
      have hke : (e.w, e.r) = (d.take.w, d.take.r) := hke
      have hkv : (v.w, v.r) = (e.w, e.r) := hkv
      have hcnt : v.count = d.take.count := by
        rw [hke, Prod.mk.injEq] at hkv
        rw [Tx.count, Tx.count, hkv.1, hkv.2]
      omega

lemma safe_uartstart {owe : Unit → Set (Fin N)} (howe : owe () ⊆ {p}) :
    (monProtocol (txSpec N)).Safe p (fun _ g => g = free) (do uartstart p; Monitor.release)
      (holding k owe) := by
  refine Safe.bind ((safe_uartstartLoop _ k owe howe fun u hok _ => ?_).mono ?_)
  · exact Nat.lt_succ_of_le hok.count_le
  · rintro - g ⟨k', owe', rfl, howe'⟩
    exact safe_release (fun _ => howe') rfl rfl

lemma safe_uartputcLoop (c : UInt8) (rounds : ℕ) (k : ℕ × ℕ) :
    (monProtocol (txSpec N)).Safe p (fun _ g => g = free) (uartputcLoop p c rounds)
      (holding k fun _ => ∅) := by
  induction rounds generalizing k with
  | zero => exact safe_halt
  | succ rounds ih =>
    refine Safe.bind (safe_look fun u hok hk => ?_)
    by_cases hfull : u.full = true
    · rw [if_pos hfull]
      refine Safe.bind (safe_sleep (fun _ => Set.empty_subset _) ?_ rfl rfl fun k' => ih k')
      rw [← hk]
      exact beq_iff_eq.mp hfull
    rw [if_neg hfull]
    refine Safe.bind (safe_locked (fun d η γ msg _ _ _ hf => by cases hf)
      fun d η γ b d' hinv hp hq hkd hf => ?_)
    cases hf
    have hkd : (d.w, d.r) = k := hkd
    have hnot : d.full ≠ true := by
      rw [← hk, Prod.mk.injEq] at hkd
      rw [Tx.full, hkd.1, hkd.2]
      exact hfull
    have hfull' : d.count ≠ 32 := fun h => hnot ((TxInv.ok hinv).full_iff.mpr h)
    have hput := TxInv.put (p := p) hinv (TxInv.all_none hp hq) hfull' c
    refine ⟨trivial, none, fun _ => ∅, ?_, fun q ch hw => ?_,
      safe_uartstart (Set.empty_subset _)⟩
    · rw [← hp, update_eq_self]
      exact hput
    · -- nobody sleeps while the buffer is not full
      rcases hw with hw | hw
      · exact absurd (by rw [← hkd] at hw; exact beq_iff_eq.mpr hw) hnot
      · exact absurd hw (Set.notMem_empty q)

lemma txMachine_verified : (monProtocol (txSpec N)).Verified (txMachine N) := by
  refine monProtocol_verified fun p x => ?_
  have hfin : ∀ (_ : Unit) (g : MonGhost N Unit (ℕ × ℕ) (Option UInt8)), g = free →
      (monProtocol (txSpec N)).fin g := by
    rintro - g rfl
    exact ⟨rfl, rfl, rfl⟩
  cases x with
  | putc c rounds =>
    refine Safe.mono (Q := fun _ g => g = free) ?_ hfin
    refine Safe.bind (safe_acquire fun k => Safe.bind (safe_look fun u _ _ => ?_))
    split
    · exact safe_halt
    · exact safe_uartputcLoop c rounds k
  | intr =>
    refine Safe.mono (Q := fun _ g => g = free) ?_ hfin
    exact Safe.bind (safe_acquire fun k => safe_uartstart (Set.empty_subset _))
  | kill q => exact safe_wakeupFrom_mon fun owe _ _ => ⟨rfl, rfl, rfl⟩
  | panic =>
    change (monProtocol (txSpec N)).Safe p _
      (Monitor.act .panic fun u => .done () { u with panicked := true }) _
    refine safe_unlocked rfl (fun d η γ msg _ _ hf => by cases hf) fun d η γ b d' hinv hp hf => ?_
    cases hf
    refine ⟨trivial, rfl, none, ?_, fun _ => rfl, ⟨rfl, rfl, rfl⟩⟩
    have hp : γ p = none := hp
    rw [← hp, update_eq_self]
    obtain ⟨hok, hbytes⟩ := hinv
    exact ⟨⟨hok.w_lt, hok.r_lt, hok.count_le⟩, hbytes⟩

/-! ## Runs -/

/-- The bytes that `uartputc` has stored in a run. -/
def accepted (tr : List (Fin N × MonAct N TxAct Unit)) : List UInt8 :=
  tr.filterMap fun e => match e.2 with
    | .act (.put c) => some c
    | _ => none

/-- The bytes that `uartstart` has written to `THR` in a run. -/
def sent (tr : List (Fin N × MonAct N TxAct Unit)) : List UInt8 :=
  tr.filterMap fun e => match e.2 with
    | .act (.thr c) => some c
    | _ => none

lemma hist_eq (tr : List (Fin N × MonAct N TxAct Unit)) (η : TxHist) :
    tr.foldl (fun η e => (txSpec N).hist η e.1 e.2) η =
      ⟨η.accepted ++ accepted tr, η.sent ++ sent tr⟩ := by
  induction tr generalizing η with
  | nil => simp [accepted, sent]
  | cons e tr ih =>
    obtain ⟨q, l⟩ := e
    rw [List.foldl_cons, ih]
    cases l with
    | act a => cases a <;> simp [MonSpec.hist, txSpec, TxHist.upd, accepted, sent]
    | _ => simp [MonSpec.hist, accepted, sent]

/-- The transmit buffer.  In every run of `uartputc` and `uartintr` by any number of processes and
with any readiness of the device: there is no panic; the buffer holds at most 32 bytes; the bytes
written to `THR` are the first of those that `uartputc` has stored, and the others are, in their
order, the bytes of the buffer, but for one that a process which holds the lock has taken out and
not yet written; and while the lock is free a process sleeps only if the buffer is full. -/
theorem uart_transmits {tr : List (Fin N × MonAct N TxAct Unit)}
    {c : Config (Monitor N Tx Unit) (MonAct N TxAct Unit) (Fin N)}
    (h : Exec (txMachine N) anyAction (.idle (Tx.started N)) tr c) : c.panicked = none ∧
      (c.st.data.count ≤ UART_TX_BUF_SIZE ∧ c.st.data.w = u64 (c.st.data.r + c.st.data.count)) ∧
      (∃ way, accepted tr = sent tr ++ way ++ c.st.data.contents ∧ way.length ≤ 1 ∧
        (c.st.lock = none → way = [])) ∧
      (c.st.lock = none → ∀ q, c.st.asleep q = some () → c.st.data.count = UART_TX_BUF_SIZE) := by
  have hinit : TxInv (N := N) ⟨fun _ => 0, 0, 0, false⟩ ⟨[], []⟩ fun _ => none := by
    refine ⟨⟨by decide, by decide, by decide⟩, [], ?_, fun _ _ hx => (by cases hx), fun _ => rfl⟩
    have hcount : (⟨fun _ => 0, 0, 0, false⟩ : Tx).count = 0 := by decide
    simp [Tx.contents, hcount]
  have hstart := Protocol.Holds.idle (P := monProtocol (txSpec N)) (MonInv.init rfl hinit)
  have hholds := txMachine_verified.exec hstart h
  obtain ⟨γ, hinv, -⟩ := hholds.ghost
  have hmon : MonInv (txSpec N) c.st ⟨accepted tr, sent tr⟩ γ := by
    have hη := hist_eq tr ⟨[], []⟩
    simp only [List.nil_append] at hη
    rw [← hη]
    exact hinv
  have htx : TxInv c.st.data ⟨accepted tr, sent tr⟩ fun p => (γ p).own := hmon.client
  refine ⟨?_, ⟨htx.ok.count_le, htx.ok.w_eq⟩, ?_, fun hlock q hq => ?_⟩
  · rw [Option.eq_none_iff_forall_ne_some]
    exact fun msg hmsg => hholds.panicked msg hmsg
  · obtain ⟨way, hbytes, hone, hnil⟩ := htx.bytes
    refine ⟨way, hbytes, ?_, fun hlock => hnil fun q => ?_⟩
    · by_cases hall : ∀ q, (γ q).own = none
      · rw [hnil hall]
        exact Nat.zero_le 1
      rw [not_forall] at hall
      obtain ⟨q, hq⟩ := hall
      obtain ⟨x, hx⟩ := Option.ne_none_iff_exists'.mp hq
      rw [hone q x hx]
      exact le_rfl
    · refine hmon.quiet q ?_
      rw [Option.eq_none_iff_forall_ne_some]
      intro k hk
      have hheld := (hmon.holds q k hk).1
      rw [hlock] at hheld
      cases hheld
  · have hwait := hmon.waits_of_free hlock hq
    exact htx.ok.full_iff.mp (beq_iff_eq.mpr hwait)

/-- A process sends a byte, fills the buffer while the device is not ready, and falls asleep. -/
theorem uart_transmits_sent : ∃ (tr : List (Fin 15 × MonAct 15 TxAct Unit))
      (c : Config (Monitor 15 Tx Unit) (MonAct 15 TxAct Unit) (Fin 15)),
      (c.st.lock = none ∧ c.st.asleep 0 = some () ∧ (accepted tr).length = 33 ∧ sent tr = [5]) ∧
      c.panicked = none ∧ (c.st.data.count ≤ UART_TX_BUF_SIZE ∧
        c.st.data.w = u64 (c.st.data.r + c.st.data.count)) ∧
      (∃ way, accepted tr = sent tr ++ way ++ c.st.data.contents ∧ way.length ≤ 1 ∧
        (c.st.lock = none → way = [])) ∧
      (c.st.lock = none → ∀ q, c.st.asleep q = some () → c.st.data.count = UART_TX_BUF_SIZE) := by
  have hplay : (Config.idle (Tx.started 15)).playTest (txMachine 15)
      (Move.start (0 : Fin 15) (TxCall.putc 5 1) ::
        -- the device is ready
        (List.replicate 5 (.go 0 0) ++ .go 0 1 :: List.replicate 19 (.go 0 0)) ++
        (List.replicate 32 (Move.start 0 (TxCall.putc 7 1) ::
          List.replicate 8 (.go 0 0))).flatten ++
        .start 0 (TxCall.putc 7 1) :: List.replicate 5 (.go 0 0))
      (fun tr c => decide (c.st.lock = none ∧ c.st.asleep 0 = some () ∧
        (accepted tr).length = 33 ∧ sent tr = [5])) = true := by
    decide +kernel
  obtain ⟨tr, c, hexec, htest⟩ := Config.exists_of_playTest hplay
  exact ⟨tr, c, of_decide_eq_true htest, uart_transmits hexec⟩

end Uart

end Xv6
