import Xv6Kernel.Foundation.Ownership
import Xv6Kernel.Log.Journal
import Mathlib.Algebra.Order.BigOperators.Group.Finset

/-!
# Space in the log

`begin_op` admits an operation when the log has `MAXOPBLOCKS` free blocks for it and for each
outstanding operation.  It counts `LOGSIZE` blocks, but of the `sb.nlog = LOGSIZE` blocks that
`mkfs` lays out the first one is the header: there is room for `LOGSIZE - 1`, and `log_write` panics
once these are used up.  The reservation is enough for operations of less than `MAXOPBLOCKS` blocks.
-/

namespace Xv6

open Finset Function

variable {D : Finset ℕ} {l' : Log}

inductive SpaceAct where
  | beginOp
  | logWrite (n : ℕ)
  | endOp
  | clear
  | endCommit
  deriving DecidableEq

abbrev SpaceProg : Type → Type 1 := Prog Log SpaceAct

def logWrites : List ℕ → SpaceProg Unit
  | [] => return
  | n :: ns => do
    let _ ← .atomic (.logWrite n) fun l => l.logWrite n
    logWrites ns

def operation (ns : List ℕ) : SpaceProg Unit := do
  .atomic .beginOp Log.beginOp
  logWrites ns
  let doCommit ← .atomic .endOp Log.endOp
  if doCommit then
    .atomic .clear fun l => .done () { l with lh := [] }
    .atomic .endCommit fun l => .done () l.endCommit

/-- The machine whose processes run operations of at most `max` distinct blocks. -/
def spaceMachine (ι : Type) (max : ℕ) : Machine Log SpaceAct ι where
  Call := List ℕ
  body _ := operation
  ready _ _ ns := ns.toFinset.card ≤ max

instance (ι : Type) (max : ℕ) (l : Log) (p : ι) (ns : (spaceMachine ι max).Call) :
    Decidable ((spaceMachine ι max).ready l p ns) :=
  inferInstanceAs (Decidable ((List.toFinset (ns : List ℕ)).card ≤ max))

def Log.mkfs : Log := ⟨LOGSIZE, 0, false, []⟩

/-- The blocks given to `log_write` since the last commit and the number of operations begun since
then. -/
structure LogGroup where
  blocks : List ℕ
  ops : ℕ

def LogGroup.upd (η : LogGroup) : SpaceAct → LogGroup
  | .beginOp => { η with ops := η.ops + 1 }
  | .logWrite n => { η with blocks := if n ∈ η.blocks then η.blocks else η.blocks ++ [n] }
  | .clear => ⟨[], 0⟩
  | .endOp | .endCommit => η

def LogGroup.run {ι : Type} (tr : List (ι × SpaceAct)) : LogGroup :=
  tr.foldl (fun η e => η.upd e.2) ⟨[], 0⟩

/-! ## The invariant -/

/-- What a process owns: the blocks its operation has logged so far, and the job of committing, with
whether the log has been cleared. -/
structure SpaceGhost where
  op : Option (Finset ℕ)
  job : Option Bool

/-- One less than what `begin_op` reserves for an operation. -/
abbrev opMax : ℕ := MAXOPBLOCKS - 1

/-- The number of further blocks that an operation may log. -/
def SpaceGhost.room (x : SpaceGhost) : ℕ := (x.op.map fun D => opMax - D.card).getD 0

variable {ι : Type} [Fintype ι]

structure SpaceInv (l : Log) (η : LogGroup) (γ : ι → SpaceGhost) : Prop where
  size : l.size = LOGSIZE
  blocks : l.lh = η.blocks
  nodup : l.lh.Nodup
  out : l.outstanding = ∑ p, (γ p).op.isSome.toNat
  logged : ∀ p D, (γ p).op = some D → ∀ n ∈ D, n ∈ l.lh
  room : l.lh.length + ∑ p, (γ p).room ≤ opMax * η.ops
  /-- The blocks that may still be logged leave a slot free, so that `log_write` never panics. -/
  space : l.lh.length + ∑ p, (γ p).room < LOGSIZE - 1
  commit : ∀ p, (γ p).job ≠ none → l.committing = true
  uniq : ∀ p q, (γ p).job ≠ none → (γ q).job ≠ none → p = q
  commitOut : l.committing = true → l.outstanding = 0
  flushed : l.outstanding = 0 → l.lh ≠ [] → ∃ p, (γ p).job = some false

def spaceProtocol (ι : Type) [Fintype ι] : Protocol Log SpaceAct ι SpaceGhost LogGroup where
  inv := SpaceInv
  upd η _ a := η.upd a
  ok := anyAction
  guar _ _ _ _ _ := True
  view _ _ := True
  rest _ := True
  tol _ := False
  idle := ⟨none, none⟩
  fin x := x = ⟨none, none⟩

variable [DecidableEq ι] {l : Log} {η : LogGroup} {γ : ι → SpaceGhost} {p : ι}

omit [DecidableEq ι] in
lemma SpaceInv.outstanding_pos (h : SpaceInv l η γ) (hp : (γ p).op = some D) :
    0 < l.outstanding ∧ l.committing = false := by
  have hpos : 0 < l.outstanding := by
    rw [h.out]
    refine lt_of_lt_of_le Nat.zero_lt_one ?_
    have := single_le_sum (f := fun q => (γ q).op.isSome.toNat) (fun _ _ => Nat.zero_le _)
      (mem_univ p)
    simpa [hp] using this
  refine ⟨hpos, ?_⟩
  by_contra hc
  have := h.commitOut (by simpa using hc)
  omega

lemma outstanding_update (γ : ι → SpaceGhost) (p : ι) (x : SpaceGhost) :
    ∑ q, (update γ p x q).op.isSome.toNat + (γ p).op.isSome.toNat =
      ∑ q, (γ q).op.isSome.toNat + x.op.isSome.toNat :=
  sum_update_add (fun y : SpaceGhost => y.op.isSome.toNat) γ p x

lemma room_update (γ : ι → SpaceGhost) (p : ι) (x : SpaceGhost) :
    ∑ q, (update γ p x q).room + (γ p).room = ∑ q, (γ q).room + x.room :=
  sum_update_add SpaceGhost.room γ p x

omit [Fintype ι] in
lemma update_forall {P : ι → SpaceGhost → Prop} {x : SpaceGhost} (hx : P p x)
    (h : ∀ q, q ≠ p → P q (γ q)) : ∀ q, P q (update γ p x q) := by
  intro q
  by_cases hq : q = p
  · subst hq
    rwa [update_self]
  · rw [update_of_ne hq]
    exact h q hq

lemma SpaceInv.uniq_update (h : SpaceInv l η γ) {x : SpaceGhost}
    (hx : x.job ≠ none → ∀ q, q ≠ p → (γ q).job = none) :
    ∀ q r, (update γ p x q).job ≠ none → (update γ p x r).job ≠ none → q = r := by
  intro q r hq hr
  by_cases hqp : q = p <;> by_cases hrp : r = p
  · rw [hqp, hrp]
  · subst hqp
    rw [update_self] at hq
    rw [update_of_ne hrp] at hr
    exact absurd (hx hq r hrp) hr
  · subst hrp
    rw [update_self] at hr
    rw [update_of_ne hqp] at hq
    exact absurd (hx hr q hqp) hq
  · rw [update_of_ne hqp] at hq
    rw [update_of_ne hrp] at hr
    exact h.uniq q r hq hr

lemma SpaceInv.logged_update (h : SpaceInv l η γ) {x : SpaceGhost}
    (hx : ∀ D, x.op = some D → ∀ n ∈ D, n ∈ l.lh) :
    ∀ q D, (update γ p x q).op = some D → ∀ n ∈ D, n ∈ l.lh :=
  update_forall (P := fun _ x => ∀ D, x.op = some D → ∀ n ∈ D, n ∈ l.lh) hx fun q _ => h.logged q

lemma SpaceInv.commit_update (h : SpaceInv l η γ) {x : SpaceGhost} (hx : x.job = none) :
    ∀ q, (update γ p x q).job ≠ none → l.committing = true :=
  update_forall (P := fun _ x => x.job ≠ none → _) (absurd hx) fun q _ => h.commit q

omit [DecidableEq ι] in
lemma SpaceInv.job_eq_none (h : SpaceInv l η γ) (hc : l.committing = false) (q : ι) :
    (γ q).job = none := by
  by_contra hq
  exact absurd (h.commit q hq) (by simp [hc])

omit [DecidableEq ι] in
lemma SpaceInv.room_le (h : SpaceInv l η γ) : ∑ q, (γ q).room ≤ opMax * l.outstanding := by
  rw [h.out, mul_sum]
  refine sum_le_sum fun q _ => ?_
  unfold SpaceGhost.room
  cases (γ q).op with
  | none => exact Nat.zero_le _
  | some D => exact Nat.sub_le _ _

lemma SpaceInv.beginOp (h : SpaceInv l η γ) (hp : γ p = ⟨none, none⟩)
    (hf : l.beginOp = .done () l') : SpaceInv l' (η.upd .beginOp) (update γ p ⟨some ∅, none⟩) := by
  simp only [Log.beginOp] at hf
  split at hf <;> cases hf
  rename_i hadm
  simp only [Log.admits, Bool.and_eq_true, Bool.not_eq_true', decide_eq_true_eq] at hadm
  have hout := outstanding_update γ p ⟨some ∅, none⟩
  have hroom := room_update γ p ⟨some ∅, none⟩
  have h0 : (γ p).room = 0 := by rw [hp]; rfl
  have h1 : SpaceGhost.room ⟨some ∅, none⟩ = opMax := rfl
  rw [h0, h1] at hroom
  refine ⟨h.size, h.blocks, h.nodup, ?_, h.logged_update (by rintro D ⟨⟩; simp), ?_, ?_,
    h.commit_update rfl, h.uniq_update fun hj => absurd rfl hj, fun hc => ?_,
    fun h0 => absurd h0 (Nat.succ_ne_zero _)⟩
  · have := h.out
    simp only [hp, Option.isSome_none, Bool.toNat_false, Option.isSome_some, Bool.toNat_true]
      at hout
    dsimp only
    omega
  · have := h.room
    simp only [LogGroup.upd, Nat.mul_succ]
    omega
  · -- what was reserved beyond the need of the operations makes up for the header
    have hle := h.room_le
    have hempty : l.outstanding = 0 → l.lh = [] := fun h0 => by
      by_contra hlh
      obtain ⟨q, hq⟩ := h.flushed h0 hlh
      rw [h.job_eq_none hadm.1 q] at hq
      cases hq
    unfold opMax MAXOPBLOCKS LOGSIZE at *
    dsimp only
    obtain hz | hpos := Nat.eq_zero_or_pos l.outstanding
    · rw [hempty hz, List.length_nil]
      rw [hz] at hle
      omega
    · omega
  · rw [hadm.1] at hc
    cases hc

lemma SpaceInv.logWrite (h : SpaceInv l η γ) (hp : γ p = ⟨some D, none⟩) {n : ℕ}
    (hD : (insert n D).card ≤ opMax) {new : Bool} (hf : l.logWrite n = .done new l') :
    SpaceInv l' (η.upd (.logWrite n)) (update γ p ⟨some (insert n D), none⟩) := by
  have hcases : l' = { l with lh := if n ∈ l.lh then l.lh else l.lh ++ [n] } := by
    simp only [Log.logWrite] at hf
    split_ifs at hf with h1 h2 h3 <;> cases hf
    · rw [if_pos h3]
    · rw [if_neg h3]
  subst hcases
  have hpos := (h.outstanding_pos (p := p) (D := D) (by rw [hp])).1
  have hout := outstanding_update γ p ⟨some (insert n D), none⟩
  have hroom := room_update γ p ⟨some (insert n D), none⟩
  have h0 : (γ p).room = opMax - D.card := by rw [hp]; rfl
  have h1 : SpaceGhost.room ⟨some (insert n D), none⟩ = opMax - (insert n D).card := rfl
  have hmem : ∀ m, m ∈ l.lh → m ∈ (if n ∈ l.lh then l.lh else l.lh ++ [n]) := by
    intro m hm
    split
    · exact hm
    · exact List.mem_append_left _ hm
  have hnew : n ∈ (if n ∈ l.lh then l.lh else l.lh ++ [n]) := by
    split
    · assumption
    · simp
  have hle : (if n ∈ l.lh then l.lh else l.lh ++ [n]).length +
      ∑ q, (update γ p ⟨some (insert n D), none⟩ q).room ≤ l.lh.length + ∑ q, (γ q).room := by
    -- a block new to the header is new to the operation
    rw [h0, h1] at hroom
    by_cases hn : n ∈ l.lh
    · have := card_le_card (subset_insert n D)
      rw [if_pos hn]
      omega
    have hnD : n ∉ D := fun hD => hn (h.logged p D (by rw [hp]) n hD)
    rw [card_insert_of_notMem hnD] at hroom hD
    rw [if_neg hn, List.length_append, List.length_singleton]
    omega
  refine ⟨h.size, ?_, ?_, ?_, ?_, hle.trans h.room, hle.trans_lt h.space, h.commit_update rfl,
    h.uniq_update (by simp), h.commitOut, fun hz => absurd hz hpos.ne'⟩
  · dsimp only [LogGroup.upd]
    rw [h.blocks]
  · dsimp only
    split
    · exact h.nodup
    · rename_i hn
      exact h.nodup.append (List.nodup_singleton n) (by simpa using hn)
  · have := h.out
    simp only [hp, Option.isSome_some, Bool.toNat_true] at hout
    dsimp only
    omega
  · refine update_forall (P := fun _ x => ∀ D, x.op = some D → ∀ m ∈ D, m ∈ _) ?_
      fun q _ D' hD' m hm => hmem m (h.logged q D' hD' m hm)
    rintro D' ⟨⟩ m hm
    rcases Finset.mem_insert.mp hm with rfl | hm
    · exact hnew
    · exact hmem m (h.logged p D (by rw [hp]) m hm)

/-- The job that `end_op` leaves to its process. -/
def jobOf (doCommit : Bool) : Option Bool := if doCommit then some false else none

lemma SpaceInv.endOp (h : SpaceInv l η γ) (hp : γ p = ⟨some D, none⟩) {c : Bool}
    (hf : l.endOp = .done c l') : SpaceInv l' (η.upd .endOp) (update γ p ⟨none, jobOf c⟩) := by
  have hpos := h.outstanding_pos (p := p) (D := D) (by rw [hp])
  have hcases : l' = { l with outstanding := l.outstanding - 1, committing := c } ∧
      (c = true ↔ l.outstanding - 1 = 0) := by
    simp only [Log.endOp, hpos.2, Bool.false_eq_true, if_false] at hf
    split_ifs at hf with h1 <;> cases hf
    · exact ⟨rfl, iff_of_true rfl h1⟩
    · exact ⟨by rw [← hpos.2], iff_of_false Bool.false_ne_true h1⟩
  obtain ⟨rfl, hc⟩ := hcases
  have hout := outstanding_update γ p ⟨none, jobOf c⟩
  have hroom := room_update γ p ⟨none, jobOf c⟩
  have h1 : SpaceGhost.room ⟨none, jobOf c⟩ = 0 := rfl
  rw [h1] at hroom
  have hnojob := h.job_eq_none hpos.2
  have hr := h.room
  have hs := h.space
  refine ⟨h.size, h.blocks, h.nodup, ?_, h.logged_update (by simp), ?_, ?_, ?_,
    h.uniq_update fun _ q _ => hnojob q, hc.mp, fun hz _ => ⟨p, ?_⟩⟩
  · have := h.out
    simp only [hp, Option.isSome_none, Bool.toNat_false, Option.isSome_some, Bool.toNat_true]
      at hout
    dsimp only
    omega
  · dsimp only [LogGroup.upd]
    omega
  · dsimp only
    omega
  · refine update_forall (P := fun _ x => x.job ≠ none → c = true) ?_
      fun q _ hq => absurd (hnojob q) hq
    cases c <;> simp [jobOf]
  · rw [update_self, hc.mpr hz]
    rfl

lemma SpaceInv.clear (h : SpaceInv l η γ) (hp : γ p = ⟨none, some false⟩) :
    SpaceInv { l with lh := [] } (η.upd .clear) (update γ p ⟨none, some true⟩) := by
  have hjob : (γ p).job ≠ none := by simp [hp]
  have hcommit := h.commit p hjob
  have hzero : ∑ q, (γ q).op.isSome.toNat = 0 := by
    rw [← h.out]
    exact h.commitOut hcommit
  have hnone : ∀ q, (update γ p ⟨none, some true⟩ q).op = none := by
    refine update_forall (P := fun _ x => x.op = none) rfl fun q _ => ?_
    have := (sum_eq_zero_iff.mp hzero) q (mem_univ q)
    cases hop : (γ q).op with
    | none => rfl
    | some D => simp [hop] at this
  have hroom : ∑ q, (update γ p ⟨none, some true⟩ q).room = 0 :=
    sum_eq_zero fun q _ => by rw [SpaceGhost.room, hnone q]; rfl
  refine ⟨h.size, rfl, List.nodup_nil, ?_, ?_, ?_, ?_, fun _ _ => hcommit,
    h.uniq_update fun _ q hq => ?_, h.commitOut, fun _ hne => absurd rfl hne⟩
  · simp only [hnone]
    rw [h.out, hzero]
    simp
  · intro q D hq
    rw [hnone q] at hq
    cases hq
  · rw [hroom]
    exact Nat.zero_le _
  · rw [hroom]
    exact (by decide : 0 < LOGSIZE - 1)
  · by_contra hne
    exact hq (h.uniq q p hne hjob)

lemma SpaceInv.endCommit (h : SpaceInv l η γ) (hp : γ p = ⟨none, some true⟩) :
    SpaceInv l.endCommit (η.upd .endCommit) (update γ p ⟨none, none⟩) := by
  have hjob : (γ p).job ≠ none := by simp [hp]
  have hout := outstanding_update γ p ⟨none, none⟩
  have hroom := room_update γ p ⟨none, none⟩
  have h0 : (γ p).room = 0 := by rw [hp]; rfl
  rw [h0, show SpaceGhost.room ⟨none, none⟩ = 0 from rfl] at hroom
  have hr := h.room
  have hs := h.space
  refine ⟨h.size, h.blocks, h.nodup, ?_, h.logged_update (by simp), ?_, ?_, ?_,
    h.uniq_update (by simp), by simp [Log.endCommit], fun hz hne => ?_⟩
  · have := h.out
    simp only [hp] at hout
    dsimp only [Log.endCommit]
    omega
  · dsimp only [LogGroup.upd, Log.endCommit]
    omega
  · dsimp only [Log.endCommit]
    omega
  · refine update_forall (P := fun _ x => x.job ≠ none → _) (by simp) fun q hq hj => ?_
    exact absurd (h.uniq q p hj hjob) hq
  · -- the only job is that of `p`, which has cleared the log
    obtain ⟨q, hq⟩ := h.flushed hz hne
    obtain rfl := h.uniq q p (by simp [hq]) hjob
    rw [hp] at hq
    cases hq

lemma safe_space {β : Type} {Q : β → SpaceGhost → Prop} {a : SpaceAct}
    {f : Log → Outcome Log β} {x : SpaceGhost}
    (hpanic : ∀ l η γ msg, SpaceInv l η γ → γ p = x → f l ≠ .panic msg)
    (hdone : ∀ l η γ b l', SpaceInv l η γ → γ p = x → f l = .done b l' →
      ∃ y, SpaceInv l' (η.upd a) (update γ p y) ∧ Q b y) :
    (spaceProtocol ι).Safe p Q (.atomic a f) x :=
  Protocol.safe_atomic trivial
    (fun l η γ msg hinv hg _ hf => hpanic l η γ msg hinv hg hf)
    fun l η γ b l' hinv hg _ hf => ⟨trivial, hdone l η γ b l' hinv hg hf⟩

lemma safe_logWrites (ns : List ℕ) (D : Finset ℕ) (hD : (D ∪ ns.toFinset).card ≤ opMax) :
    (spaceProtocol ι).Safe p (fun _ y => ∃ D, y = ⟨some D, none⟩) (logWrites ns) ⟨some D, none⟩ := by
  induction ns generalizing D with
  | nil => exact Protocol.safe_ret ⟨D, rfl⟩
  | cons n ns ih =>
    have hunion : insert n D ∪ ns.toFinset = D ∪ (n :: ns).toFinset := by
      rw [List.toFinset_cons, insert_union, union_insert]
    have hcard : (insert n D).card ≤ opMax :=
      (card_le_card subset_union_left).trans (hunion ▸ hD)
    refine Protocol.Safe.seq (R := fun _ y => y = ⟨some (insert n D), none⟩)
      (safe_space ?_ ?_) ?_
    · intro l η γ msg hinv hg hf
      have hspace := hinv.space
      have hpos := (hinv.outstanding_pos (p := p) (D := D) (by rw [hg])).1
      have hsize := hinv.size
      simp only [Log.logWrite] at hf
      split_ifs at hf <;> omega
    · intro l η γ new l' hinv hg hf
      exact ⟨_, hinv.logWrite hg hcard hf, rfl⟩
    · rintro new y rfl
      exact ih (insert n D) (hunion ▸ hD)

lemma safe_operation (ns : List ℕ) (hns : ns.toFinset.card ≤ opMax) :
    (spaceProtocol ι).Safe p (fun _ y => y = ⟨none, none⟩) (operation ns) ⟨none, none⟩ := by
  refine Protocol.Safe.seq (R := fun _ y => y = ⟨some ∅, none⟩) (safe_space ?_ ?_) ?_
  · intro l η γ msg _ _ hf
    simp only [Log.beginOp] at hf
    split at hf <;> cases hf
  · intro l η γ _ l' hinv hg hf
    exact ⟨_, hinv.beginOp hg hf, rfl⟩
  rintro _ y rfl
  refine (safe_logWrites ns ∅ (by simpa using hns)).seq ?_
  rintro _ y ⟨D, rfl⟩
  refine Protocol.Safe.seq (R := fun c y => y = ⟨none, jobOf c⟩) (safe_space ?_ ?_) ?_
  · intro l η γ msg hinv hg hf
    have hpos := (hinv.outstanding_pos (p := p) (D := D) (by rw [hg])).2
    simp only [Log.endOp, hpos, Bool.false_eq_true, if_false] at hf
    split_ifs at hf
  · intro l η γ c l' hinv hg hf
    exact ⟨_, hinv.endOp hg hf, rfl⟩
  rintro c y rfl
  rcases c with _ | _
  · exact Protocol.safe_ret rfl
  refine Protocol.Safe.seq (R := fun _ y => y = ⟨none, some true⟩) (safe_space (by simp) ?_) ?_
  · intro l η γ _ l' hinv hg hf
    cases hf
    exact ⟨_, hinv.clear hg, rfl⟩
  · rintro _ y rfl
    refine safe_space (by simp) fun l η γ _ l' hinv hg hf => ?_
    cases hf
    exact ⟨_, hinv.endCommit hg, rfl⟩

/-- Every operation within its bound keeps the reservation. -/
lemma spaceMachine_verified : (spaceProtocol ι).Verified (spaceMachine ι opMax) where
  start l η γ p ns hinv hg hready :=
    ⟨⟨none, none⟩, by
      rw [show (⟨none, none⟩ : SpaceGhost) = γ p from hg.symm, update_eq_self]
      exact hinv, safe_operation ns hready⟩
  finish l η γ p hinv hfin := by
    rw [show (spaceProtocol ι).idle = γ p from (show γ p = _ from hfin).symm,
      update_eq_self]
    exact hinv

/-- Space in the log.  In every run of operations of less than `MAXOPBLOCKS` distinct blocks each,
there is no panic, the in-memory header lists the distinct blocks logged since the last commit,
these are at most `MAXOPBLOCKS - 1` for each operation begun since then, and they fit into the
on-disk log. -/
theorem log_space {tr : List (ι × SpaceAct)} {c : Config Log SpaceAct ι}
    (h : Exec (spaceMachine ι (MAXOPBLOCKS - 1)) anyAction (.idle Log.mkfs) tr c) :
    c.panicked = none ∧ c.st.lh.length ≤ c.st.size - 1 ∧ c.st.lh = (LogGroup.run tr).blocks ∧
      c.st.lh.Nodup ∧ c.st.lh.length ≤ (MAXOPBLOCKS - 1) * (LogGroup.run tr).ops := by
  have hinit : SpaceInv (ι := ι) Log.mkfs ⟨[], 0⟩ fun _ => ⟨none, none⟩ := by
    refine ⟨rfl, rfl, List.nodup_nil, ?_, by simp, ?_, ?_, by simp, by simp, by simp [Log.mkfs],
      fun _ hne => absurd rfl hne⟩
    · simp [Log.mkfs]
    · simp [SpaceGhost.room, Log.mkfs]
    · simp [SpaceGhost.room, Log.mkfs, LOGSIZE, MAXOPBLOCKS]
  obtain ⟨⟨γ, hinv, -⟩, hpanic⟩ :=
    spaceMachine_verified.exec (Protocol.Holds.idle (P := spaceProtocol ι) hinit) h
  have hinv : SpaceInv c.st (LogGroup.run tr) γ := hinv
  have hroom := hinv.room
  have hspace := hinv.space
  refine ⟨?_, by rw [hinv.size]; omega, hinv.blocks, hinv.nodup, by unfold opMax at hroom; omega⟩
  cases hp : c.panicked with
  | none => rfl
  | some msg => exact (hpanic msg hp).elim

def operations (b : ℕ) : List (Move (Fin 3) (List ℕ)) :=
  ([0, 1, 2] : List (Fin 3)).flatMap (fun p =>
    [.start p ((List.range b).map (b * p.val + ·)), .go p 0]) ++
  ([0, 1, 2] : List (Fin 3)).flatMap fun p => List.replicate b (.go p 0)

/-- Three operations of nine blocks each. -/
theorem log_space_nine_blocks : ∃ (tr : List (Fin 3 × SpaceAct)) (c : Config Log SpaceAct (Fin 3)),
      (LogGroup.run tr).blocks = List.range 27 ∧
      c.panicked = none ∧ c.st.lh.length ≤ c.st.size - 1 ∧ c.st.lh = (LogGroup.run tr).blocks ∧
      c.st.lh.Nodup ∧ c.st.lh.length ≤ (MAXOPBLOCKS - 1) * (LogGroup.run tr).ops := by
  have hplay : (Config.idle Log.mkfs).playTest (spaceMachine (Fin 3) (MAXOPBLOCKS - 1))
      (operations 9) (fun tr _ => decide ((LogGroup.run tr).blocks = List.range 27)) = true := by
    decide +kernel
  obtain ⟨tr, c, hexec, htest⟩ := Config.exists_of_playTest hplay
  exact ⟨tr, c, of_decide_eq_true htest, log_space hexec⟩

/-- Three operations of ten blocks each, all admitted by `begin_op`, make `log_write` panic. -/
theorem log_space_three_operations :
    ∃ (tr : List (Fin 3 × SpaceAct)) (c : Config Log SpaceAct (Fin 3)),
      Exec (spaceMachine (Fin 3) MAXOPBLOCKS) anyAction (.idle Log.mkfs) tr c ∧
      c.panicked = some "too big a transaction" := by
  have hplay : (Config.idle Log.mkfs).playTest (spaceMachine (Fin 3) MAXOPBLOCKS) (operations 10)
      (fun _ c => decide (c.panicked = some "too big a transaction")) = true := by
    decide +kernel
  obtain ⟨tr, c, hexec, htest⟩ := Config.exists_of_playTest hplay
  exact ⟨tr, c, hexec, of_decide_eq_true htest⟩

end Xv6
