import Xv6Kernel.Console.Model

/-!
# The console is a line editor

The reference editor holds two lists: the committed bytes that have not been read, and the pending
line.  `Editor.Shown` says that the ring buffer shows the state of the editor: `w - r` and `e - r`
are the lengths of the committed bytes and of all bytes held, and the slots from `r` on hold these
bytes.
-/

namespace Xv6

open Function

open Protocol

variable {l : List UInt8} {c : UInt8} {b : ℕ}

structure Editor where
  consumed : List UInt8
  committed : List UInt8
  pending : List UInt8

namespace Editor

def init : Editor := ⟨[], [], []⟩

def held (d : Editor) : List UInt8 := d.committed ++ d.pending

def type (d : Editor) (c : UInt8) : Editor :=
  if c = newline ∨ c = ctrlD ∨ d.held.length + 1 = INPUT_BUF_SIZE then
    { d with committed := d.committed ++ (d.pending ++ [c]), pending := [] }
  else { d with pending := d.pending ++ [c] }

def intr (d : Editor) (c : UInt8) : Editor :=
  if c = ctrlP then d
  else if c = ctrlU then { d with pending := [] }
  else if c = ctrlH ∨ c = deleteKey then { d with pending := d.pending.dropLast }
  else if c ≠ 0 ∧ d.held.length < INPUT_BUF_SIZE then
    d.type (if c = carriageReturn then newline else c)
  else d

/-- Reading at most `n` bytes of `target`: up to the end of a line, to a `C('D')`, which is left for
the next call when this one has bytes to return, or to a byte that cannot be delivered. -/
def read (valid : ℕ → Bool) (target : ℕ) : ℕ → Editor → Editor
  | 0, d => d
  | n + 1, d =>
    match d.committed with
    | [] => d
    | c :: cs =>
      let d' : Editor := ⟨d.consumed ++ [c], cs, d.pending⟩
      if c = ctrlD then (if n + 1 < target then d else d')
      else if valid (target - (n + 1)) = false ∨ c = newline then d'
      else read valid target n d'

def act (d : Editor) : ConsAct → Editor
  | .intr c => d.intr c
  | .read valid target n => d.read valid target n

def run {ι : Type} (tr : List (ι × ConsAct)) : Editor := tr.foldl (fun d e => d.act e.2) init

structure Shown (s : Cons) (d : Editor) : Prop where
  committed : Cons.sub s.w s.r = d.committed.length
  held : Cons.sub s.e s.r = d.committed.length + d.pending.length
  size : Cons.sub s.e s.r ≤ INPUT_BUF_SIZE
  read : ∀ i, i < d.committed.length →
    d.committed[i]? = some (s.buf (u32 (s.r + i) % INPUT_BUF_SIZE))
  edit : ∀ i, i < d.pending.length →
    d.pending[i]? = some (s.buf (u32 (s.w + i) % INPUT_BUF_SIZE))
  full : Cons.sub s.e s.r = INPUT_BUF_SIZE → d.pending = []

/-- The same with a count `k` of the bytes read that does not wrap. -/
structure ShownAt (s : Cons) (d : Editor) (k : ℕ) : Prop where
  r : s.r = u32 k
  w : s.w = u32 (k + d.committed.length)
  e : s.e = u32 (k + d.held.length)
  buf : ∀ i, i < d.held.length → d.held[i]? = some (s.buf ((k + i) % INPUT_BUF_SIZE))
  size : d.held.length ≤ INPUT_BUF_SIZE
  full : d.held.length = INPUT_BUF_SIZE → d.pending = []
  pending : newline ∉ d.pending

lemma length_held (d : Editor) : d.held.length = d.committed.length + d.pending.length :=
  List.length_append

/-! ## The indices -/

lemma u32_mod_size (m : ℕ) : u32 m % INPUT_BUF_SIZE = m % INPUT_BUF_SIZE :=
  Nat.mod_mod_of_dvd m (by decide)

lemma u32_add_mod_size (a i : ℕ) : u32 (u32 a + i) % INPUT_BUF_SIZE = (a + i) % INPUT_BUF_SIZE := by
  rw [u32_mod_size, Nat.add_mod, u32_mod_size, ← Nat.add_mod]

lemma sub_u32 (a : ℕ) (hb : b ≤ INPUT_BUF_SIZE) : Cons.sub (u32 (a + b)) (u32 a) = b := by
  have hb' : b ≤ 128 := hb
  unfold Cons.sub u32
  omega

lemma u32_add_eq_iff (a : ℕ) (hb : b ≤ INPUT_BUF_SIZE) : u32 (a + b) = u32 a ↔ b = 0 := by
  have hb' : b ≤ 128 := hb
  unfold u32
  omega

lemma sub_one (a : ℕ) : Cons.sub (u32 (a + 1)) 1 = u32 a := by
  unfold Cons.sub u32
  omega

lemma u32_succ (a : ℕ) : u32 (u32 a + 1) = u32 (a + 1) := by
  unfold u32
  omega

lemma slot_ne {a i n : ℕ} (hi : i < n) (hn : n < INPUT_BUF_SIZE) :
    (a + i) % INPUT_BUF_SIZE ≠ (a + n) % INPUT_BUF_SIZE := by
  have hn' : n < 128 := hn
  show (a + i) % 128 ≠ (a + n) % 128
  omega

namespace ShownAt

variable {s : Cons} {d : Editor} {k : ℕ}

section

variable (h : ShownAt s d k)
include h

lemma committed_le : d.committed.length ≤ INPUT_BUF_SIZE :=
  le_trans (by rw [length_held]; omega) h.size

lemma pending_le : d.pending.length ≤ INPUT_BUF_SIZE :=
  le_trans (by rw [length_held]; omega) h.size

lemma sub_e_r : Cons.sub s.e s.r = d.held.length := by
  rw [h.e, h.r]
  exact sub_u32 k h.size

lemma sub_w_r : Cons.sub s.w s.r = d.committed.length := by
  rw [h.w, h.r]
  exact sub_u32 k h.committed_le

lemma sub_e_w : Cons.sub s.e s.w = d.pending.length := by
  rw [h.e, h.w, length_held, ← Nat.add_assoc]
  exact sub_u32 _ h.pending_le

lemma e_eq_w_iff : s.e = s.w ↔ d.pending = [] := by
  rw [h.e, h.w, length_held, ← Nat.add_assoc, u32_add_eq_iff _ h.pending_le,
    List.length_eq_zero_iff]

lemma r_eq_w_iff : s.r = s.w ↔ d.committed = [] := by
  rw [h.r, h.w, eq_comm, u32_add_eq_iff _ h.committed_le, List.length_eq_zero_iff]

lemma shown : Shown s d where
  committed := h.sub_w_r
  held := h.sub_e_r.trans d.length_held
  size := h.sub_e_r.trans_le h.size
  read i hi := by
    have hbuf := h.buf i (by rw [length_held]; omega)
    rw [held, List.getElem?_append_left hi] at hbuf
    rw [hbuf, h.r, u32_add_mod_size]
  edit i hi := by
    have hbuf := h.buf (d.committed.length + i) (by rw [length_held]; omega)
    rw [held, List.getElem?_append_right (by omega), Nat.add_sub_cancel_left] at hbuf
    rw [hbuf, h.w, u32_add_mod_size, Nat.add_assoc]
  full hfull := h.full (h.sub_e_r.symm.trans hfull)

end

/-! ## The interrupt handler -/

section

variable (h : ShownAt s d k)
include h

lemma erase (hl : d.pending = l ++ [c]) :
    ShownAt { s with e := Cons.sub s.e 1 } { d with pending := l } k := by
  have hheld : d.held = d.committed ++ l ++ [c] := by rw [held, hl, List.append_assoc]
  have hlen : d.held.length = (d.committed ++ l).length + 1 := by
    rw [hheld, List.length_append]
    rfl
  have hsize := h.size
  refine ⟨h.r, h.w, ?_, fun i hi => ?_, ?_, fun hfull => ?_, fun hmem => ?_⟩
  · show Cons.sub s.e 1 = u32 (k + (d.committed ++ l).length)
    rw [h.e, hlen, ← Nat.add_assoc, sub_one]
  · have hi' : i < (d.committed ++ l).length := hi
    have hbuf := h.buf i (by omega)
    rwa [hheld, List.getElem?_append_left hi'] at hbuf
  · show (d.committed ++ l).length ≤ INPUT_BUF_SIZE
    omega
  · have hfull' : (d.committed ++ l).length = INPUT_BUF_SIZE := hfull
    omega
  · exact h.pending (hl ▸ List.mem_append_left _ hmem)

lemma backspace :
    ShownAt s.backspace { d with pending := d.pending.dropLast } k := by
  unfold Cons.backspace
  split
  · rename_i hne
    have hpend : d.pending ≠ [] := fun hp => hne (h.e_eq_w_iff.mpr hp)
    exact h.erase (List.dropLast_append_getLast hpend).symm
  rename_i heq
  have hpend : d.pending = [] := h.e_eq_w_iff.mp (not_not.mp heq)
  rw [hpend, List.dropLast_nil, ← hpend]
  exact h

lemma buf_last (hl : d.pending = l ++ [c]) : s.buf (Cons.sub s.e 1 % INPUT_BUF_SIZE) = c := by
  have hheld : d.held = d.committed ++ l ++ [c] := by rw [held, hl, List.append_assoc]
  have hlen : d.held.length = (d.committed ++ l).length + 1 := by
    rw [hheld, List.length_append]
    rfl
  have hbuf := h.buf (d.committed ++ l).length (by omega)
  rw [hheld, List.getElem?_concat_length] at hbuf
  rw [h.e, hlen, ← Nat.add_assoc, sub_one, u32_mod_size]
  exact (Option.some.inj hbuf).symm

lemma killLineFrom :
    ShownAt (Cons.killLineFrom d.pending.length s) { d with pending := [] } k := by
  obtain ⟨consumed, committed, pending⟩ := d
  induction pending using List.reverseRecOn generalizing s with
  | nil => exact h
  | append_singleton l c ih =>
    have hc : c ≠ newline := by
      rintro rfl
      exact h.pending (List.mem_append_right _ List.mem_cons_self)
    have hne : s.e ≠ s.w := fun he => by simpa using h.e_eq_w_iff.mp he
    rw [List.length_append, List.length_singleton, Cons.killLineFrom,
      if_pos ⟨hne, by rw [h.buf_last rfl]; exact hc⟩]
    exact ih (h.erase rfl)

lemma store (hroom : d.held.length < INPUT_BUF_SIZE) (c : UInt8) :
    (s.store c).r = u32 k ∧ (s.store c).w = u32 (k + d.committed.length) ∧
      (s.store c).e = u32 (k + (d.held ++ [c]).length) ∧ ∀ i, i < (d.held ++ [c]).length →
        (d.held ++ [c])[i]? = some ((s.store c).buf ((k + i) % INPUT_BUF_SIZE)) := by
  refine ⟨h.r, h.w, ?_, fun i hi => ?_⟩
  · show u32 (s.e + 1) = _
    rw [h.e, u32_succ, List.length_append]
    rfl
  · show _ = some (update s.buf (s.e % INPUT_BUF_SIZE) c ((k + i) % INPUT_BUF_SIZE))
    rw [h.e, u32_mod_size]
    rw [List.length_append, List.length_singleton] at hi
    by_cases hlast : i = d.held.length
    · rw [hlast, List.getElem?_concat_length, update_self]
    · have hi' : i < d.held.length := by omega
      rw [List.getElem?_append_left hi', update_of_ne (slot_ne hi' hroom)]
      exact h.buf i hi'

lemma type (hroom : d.held.length < INPUT_BUF_SIZE) (c : UInt8) :
    ShownAt ((s.store c).commit c) (d.type c) k := by
  obtain ⟨hr, hw, he, hbuf⟩ := h.store hroom c
  have hlen : (d.held ++ [c]).length = d.held.length + 1 := by rw [List.length_append]; rfl
  have hheld : d.committed ++ (d.pending ++ [c]) = d.held ++ [c] := (List.append_assoc ..).symm
  have hsub : Cons.sub (s.store c).e (s.store c).r = d.held.length + 1 := by
    rw [he, hr, ← hlen]
    exact sub_u32 k (by omega)
  unfold Cons.commit Editor.type
  rw [hsub]
  split
  · -- the line is committed
    have hheld' : (⟨d.consumed, d.committed ++ (d.pending ++ [c]), []⟩ : Editor).held =
        d.held ++ [c] := by
      rw [held, List.append_nil, hheld]
    refine ⟨hr, ?_, ?_, ?_, ?_, fun _ => rfl, List.not_mem_nil⟩
    · rw [hheld]
      exact he
    · rw [hheld']
      exact he
    · rw [hheld']
      exact hbuf
    · rw [hheld']
      omega
  · rename_i hno
    have hheld' : (⟨d.consumed, d.committed, d.pending ++ [c]⟩ : Editor).held = d.held ++ [c] :=
      hheld
    refine ⟨hr, hw, ?_, ?_, ?_, fun hfull => ?_, fun hmem => ?_⟩
    · rw [hheld']
      exact he
    · rw [hheld']
      exact hbuf
    · rw [hheld']
      omega
    · rw [hheld', hlen] at hfull
      exact absurd (.inr (.inr hfull)) hno
    · rcases List.mem_append.mp hmem with hmem | hmem
      · exact h.pending hmem
      · exact hno (.inl (List.mem_singleton.mp hmem).symm)

lemma intr (c : UInt8) : ShownAt (s.intr c) (d.intr c) k := by
  unfold Cons.intr Editor.intr
  split
  · exact h
  split
  · rw [Cons.killLine, h.sub_e_w]
    exact h.killLineFrom
  split
  · exact h.backspace
  unfold Cons.insert
  rw [h.sub_e_r]
  split
  · rename_i hroom
    exact h.type hroom.2 _
  · exact h

end

/-! ## The readers -/

lemma consume (h : ShownAt s d k) {cs : List UInt8} (hc : d.committed = c :: cs) :
    s.buf (s.r % INPUT_BUF_SIZE) = c ∧
      ShownAt { s with r := u32 (s.r + 1) } ⟨d.consumed ++ [c], cs, d.pending⟩ (k + 1) := by
  have hheld : d.held = c :: (cs ++ d.pending) := by rw [held, hc]; rfl
  have hlen : d.held.length = (cs ++ d.pending).length + 1 := by rw [hheld]; rfl
  have hsize := h.size
  have hfirst := h.buf 0 (by omega)
  rw [hheld, List.getElem?_cons_zero] at hfirst
  refine ⟨?_, ?_, ?_, ?_, fun i hi => ?_, ?_, fun hfull => ?_, h.pending⟩
  · rw [h.r, u32_mod_size]
    exact (Option.some.inj hfirst).symm
  · show u32 (s.r + 1) = _
    rw [h.r, u32_succ]
  · show s.w = u32 (k + 1 + cs.length)
    rw [h.w, hc, List.length_cons, Nat.add_assoc, Nat.add_comm 1]
  · show s.e = u32 (k + 1 + (cs ++ d.pending).length)
    rw [h.e, hlen, Nat.add_assoc, Nat.add_comm 1]
  · have hi' : i < (cs ++ d.pending).length := hi
    have hbuf := h.buf (i + 1) (by omega)
    rw [hheld, List.getElem?_cons_succ] at hbuf
    show (cs ++ d.pending)[i]? = some (s.buf ((k + 1 + i) % INPUT_BUF_SIZE))
    rw [hbuf, Nat.add_assoc, Nat.add_comm 1]
  · show (cs ++ d.pending).length ≤ INPUT_BUF_SIZE
    omega
  · have hfull' : (cs ++ d.pending).length = INPUT_BUF_SIZE := hfull
    omega

lemma step_back (h : ShownAt s d k) : { s with r := Cons.sub (u32 (s.r + 1)) 1 } = s := by
  have hr : Cons.sub (u32 (s.r + 1)) 1 = s.r := by
    rw [sub_one, h.r, u32, u32, Nat.mod_mod]
  rw [hr]

lemma readFrom (h : ShownAt s d k) (valid : ℕ → Bool) (target n : ℕ) :
    ∃ k', ShownAt (s.readFrom valid target n).2 (d.read valid target n) k' := by
  induction n generalizing s d k with
  | zero => exact ⟨k, h⟩
  | succ n ih =>
    unfold Cons.readFrom Editor.read
    rcases hc : d.committed with _ | ⟨c, cs⟩
    · rw [if_pos (h.r_eq_w_iff.mpr hc)]
      exact ⟨k, h⟩
    obtain ⟨hbyte, hnext⟩ := h.consume hc
    have hne : s.r ≠ s.w := fun he => by
      rw [h.r_eq_w_iff.mp he] at hc
      cases hc
    rw [if_neg hne]
    simp only [hbyte]
    by_cases hd : c = ctrlD
    · rw [if_pos hd, if_pos hd]
      split
      · -- the end of the file is left for the next call
        rw [h.step_back]
        exact ⟨k, h⟩
      · exact ⟨k + 1, hnext⟩
    rw [if_neg hd, if_neg hd]
    by_cases hv : valid (target - (n + 1)) = false
    · rw [if_pos hv, if_pos (.inl hv)]
      exact ⟨k + 1, hnext⟩
    rw [if_neg hv]
    by_cases hnl : c = newline
    · rw [if_pos hnl, if_pos (.inr hnl)]
      exact ⟨k + 1, hnext⟩
    · rw [if_neg hnl, if_neg (not_or.mpr ⟨hv, hnl⟩)]
      exact ih hnext

end ShownAt

end Editor

/-! ## Runs -/

def consProtocol (ι : Type) : Protocol Cons ConsAct ι Unit Editor where
  inv s d _ := ∃ k, Editor.ShownAt s d k
  upd d _ l := d.act l
  ok _ _ _ := True
  guar _ _ _ _ _ := True
  view _ _ := True
  rest _ := True
  tol _ := False
  idle := ()
  fin _ := True

section Runs

variable {ι : Type} [DecidableEq ι]

lemma safe_consolereadLoop {p : ι} {valid : ℕ → Bool} {target : ℕ} (rounds n : ℕ) :
    (consProtocol ι).Safe p (fun _ _ => True) (consolereadLoop valid target rounds n) () := by
  induction rounds generalizing n with
  | zero => exact safe_ret trivial
  | succ rounds ih =>
    refine Safe.bind (safe_update trivial fun s d γ hinv _ _ => ?_)
    obtain ⟨k, hk⟩ := hinv
    refine ⟨trivial, (), hk.readFrom valid target n, ?_⟩
    cases (s.readFrom valid target n).1 with
    | none => exact safe_ret trivial
    | some m =>
      refine Safe.bind (safe_pickBool trivial fun killed => ?_)
      cases killed with
      | true => exact safe_ret trivial
      | false => exact ih m

lemma consMachine_verified : (consProtocol ι).Verified (consMachine ι) where
  start s d γ p x hinv _ _ := by
    refine ⟨(), hinv, ?_⟩
    cases x with
    | intr c =>
      refine safe_update trivial fun s d γ hinv _ _ => ?_
      obtain ⟨k, hk⟩ := hinv
      exact ⟨trivial, (), ⟨k, hk.intr c⟩, trivial⟩
    | read valid n rounds => exact safe_consolereadLoop rounds n.toNat
  finish _ _ _ _ hinv _ := hinv

/-- Console line editing refines the editor: in every run of interrupts and of calls of
`consoleread`, the ring buffer shows the state of the editor. -/
theorem console_refines_editor {tr : List (ι × ConsAct)} {c : Config Cons ConsAct ι}
    (hex : Exec (consMachine ι) anyAction (.idle .init) tr c) : Editor.Shown c.st (Editor.run tr) := by
  have hinit : Editor.ShownAt Cons.init Editor.init 0 :=
    ⟨rfl, rfl, rfl, fun i hi => absurd hi (Nat.not_lt_zero i), Nat.zero_le _, fun _ => rfl,
      List.not_mem_nil⟩
  have hH := consMachine_verified.exec (P := consProtocol ι) (.idle ⟨0, hinit⟩) hex
  obtain ⟨γ, ⟨k, hk⟩, -⟩ := hH.ghost
  exact hk.shown

end Runs

instance (ι : Type) (s : Cons) (p : ι) (x : (consMachine ι).Call) :
    Decidable ((consMachine ι).ready s p x) := inferInstanceAs (Decidable True)

def keyboard : Fin 9 := 0

def lineReader : Fin 9 := 1

/-- `x`, a backspace, `a` and the end of the line are typed, and three bytes are read: the reader
gets the edited line. -/
theorem console_refines_editor_line : ∃ tr c,
    Exec (consMachine (Fin 9)) anyAction (.idle .init) tr c ∧
      (Editor.run tr).consumed = [97, 10] ∧ Editor.Shown c.st (Editor.run tr) := by
  have hplay : (Config.idle Cons.init).playTest (consMachine (Fin 9))
      [.start keyboard (.intr 120), .go keyboard 0, .go keyboard 0,
        .start keyboard (.intr 8), .go keyboard 0, .go keyboard 0,
        .start keyboard (.intr 97), .go keyboard 0, .go keyboard 0,
        .start keyboard (.intr 13), .go keyboard 0, .go keyboard 0,
        .start lineReader (.read (fun _ => true) 3 1), .go lineReader 0, .go lineReader 0]
      (fun tr _ => (Editor.run tr).consumed == [97, 10]) = true := by
    decide +kernel
  obtain ⟨tr, c, hex, htest⟩ := Config.exists_of_playTest hplay
  exact ⟨tr, c, hex, beq_iff_eq.mp htest, console_refines_editor hex⟩

end Xv6
