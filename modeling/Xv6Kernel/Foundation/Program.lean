import Mathlib.Data.List.Basic

/-!
# Concurrent programs as trees of atomic actions

A kernel thread is a tree `Prog σ ℓ α`: it returns, performs one atomic action on the shared state
`σ`, or takes an arbitrary number from its environment.  An action either is blocked (the thread
spins or sleeps), panics, or yields a value and a new shared state; it carries a label `ℓ` by which
statements about runs refer to it.  Sequencing is the monad structure of `Prog`, so a function of
the source is a `do` block whose lines are the atomic sections of that function.

A `Machine` says which calls a thread may make and what the body of each call is.  `Step` is the
interleaving semantics: any thread that is inside a call takes its next action, any idle thread
starts a call.  `Exec` is its reflexive and transitive closure and records the trace of the actions
that were performed.
-/

namespace Xv6

/-- The outcome of one atomic action on the shared state `σ` with a result of type `β`. -/
inductive Outcome (σ β : Type) where
  /-- The action is not enabled: the thread spins on a lock or sleeps. -/
  | blocked : Outcome σ β
  | panic (msg : String) : Outcome σ β
  /-- The action yields `b` and changes the state to `s`. -/
  | done (b : β) (s : σ) : Outcome σ β

/-- Programs over the shared state `σ` with action labels `ℓ` and results in `α`. -/
inductive Prog (σ ℓ α : Type) : Type 1 where
  | ret (a : α) : Prog σ ℓ α
  /-- Perform an atomic action and continue with its result. -/
  | act {β : Type} (l : ℓ) (f : σ → Outcome σ β) (k : β → Prog σ ℓ α) : Prog σ ℓ α
  | pick (k : ℕ → Prog σ ℓ α) : Prog σ ℓ α

namespace Prog

variable {σ ℓ α β γ : Type}

def bind : Prog σ ℓ α → (α → Prog σ ℓ β) → Prog σ ℓ β
  | ret a, k => k a
  | act l f m, k => act l f fun b => (m b).bind k
  | pick m, k => pick fun n => (m n).bind k

instance : Monad (Prog σ ℓ) where
  pure := ret
  bind := bind

@[simp] lemma pure_def (a : α) : (Pure.pure a : Prog σ ℓ α) = ret a := rfl

@[simp] lemma ret_bind (a : α) (k : α → Prog σ ℓ β) : (ret a >>= k) = k a := rfl

@[simp] lemma act_bind {δ : Type} (l : ℓ) (f : σ → Outcome σ δ) (m : δ → Prog σ ℓ α)
    (k : α → Prog σ ℓ β) : (act l f m >>= k) = act l f fun b => m b >>= k := rfl

@[simp] lemma pick_bind (m : ℕ → Prog σ ℓ α) (k : α → Prog σ ℓ β) :
    (pick m >>= k) = pick fun n => m n >>= k := rfl

def atomic (l : ℓ) (f : σ → Outcome σ β) : Prog σ ℓ β := act l f ret

/-- The program that takes an arbitrary truth value from the environment. -/
def pickBool : Prog σ ℓ Bool := pick fun n => ret (n != 0)

def label? : Prog σ ℓ α → Option ℓ
  | act l _ _ => some l
  | _ => none

end Prog

/-! ## Machines and their executions -/

/-- The calls of a kernel: which of them an idle thread may make in a given state, and the program
each of them runs. -/
structure Machine (σ ℓ ι : Type) where
  Call : Type
  body : ι → Call → Prog σ ℓ Unit
  ready : σ → ι → Call → Prop

/-- A configuration: the shared state, what every thread is still to run (`none` for a thread
outside any call), and the panic message once the kernel has panicked. -/
structure Config (σ ℓ ι : Type) where
  st : σ
  run : ι → Option (Prog σ ℓ Unit)
  panicked : Option String

section Semantics

variable {σ ℓ ι : Type} [DecidableEq ι]

def Config.idle (s : σ) : Config σ ℓ ι := ⟨s, fun _ => none, none⟩

def Config.Quiescent (c : Config σ ℓ ι) : Prop := ∀ p, c.run p = none

def Config.setRun (c : Config σ ℓ ι) (p : ι) (m : Option (Prog σ ℓ Unit)) : Config σ ℓ ι :=
  { c with run := Function.update c.run p m }

@[simp] lemma Config.setRun_st (c : Config σ ℓ ι) (p : ι) (m : Option (Prog σ ℓ Unit)) :
    (c.setRun p m).st = c.st := rfl

@[simp] lemma Config.setRun_panicked (c : Config σ ℓ ι) (p : ι)
    (m : Option (Prog σ ℓ Unit)) : (c.setRun p m).panicked = c.panicked := rfl

@[simp] lemma Config.setRun_run (c : Config σ ℓ ι) (p : ι) (m : Option (Prog σ ℓ Unit)) :
    (c.setRun p m).run = Function.update c.run p m := rfl

/-- One step of the machine.  The second argument lists the labelled action the step performs; the
steps that touch no shared state (starting and leaving a call, taking a number from the
environment) and the panics perform none.  An action is only performed when `ok` holds of the
state, the thread and the label, which is how statements restrict the runs they are about. -/
inductive Step (M : Machine σ ℓ ι) (ok : σ → ι → ℓ → Prop) :
    Config σ ℓ ι → List (ι × ℓ) → Config σ ℓ ι → Prop where
  | start {c : Config σ ℓ ι} (p : ι) (x : M.Call) (hrun : c.run p = none)
      (hready : M.ready c.st p x) (hp : c.panicked = none) :
      Step M ok c [] (c.setRun p (some (M.body p x)))
  | finish {c : Config σ ℓ ι} (p : ι) (hrun : c.run p = some (.ret ()))
      (hp : c.panicked = none) : Step M ok c [] (c.setRun p none)
  | pick {c : Config σ ℓ ι} (p : ι) (k : ℕ → Prog σ ℓ Unit) (n : ℕ)
      (hrun : c.run p = some (.pick k)) (hp : c.panicked = none) :
      Step M ok c [] (c.setRun p (some (k n)))
  | act {c : Config σ ℓ ι} (p : ι) {β : Type} (l : ℓ) (f : σ → Outcome σ β)
      (k : β → Prog σ ℓ Unit) (b : β) (s : σ) (hrun : c.run p = some (.act l f k))
      (hf : f c.st = .done b s) (hok : ok c.st p l) (hp : c.panicked = none) :
      Step M ok c [(p, l)] { c.setRun p (some (k b)) with st := s }
  | panic {c : Config σ ℓ ι} (p : ι) {β : Type} (l : ℓ) (f : σ → Outcome σ β)
      (k : β → Prog σ ℓ Unit) (msg : String) (hrun : c.run p = some (.act l f k))
      (hf : f c.st = .panic msg) (hok : ok c.st p l) (hp : c.panicked = none) :
      Step M ok c [] { c with panicked := some msg }

def anyAction : σ → ι → ℓ → Prop := fun _ _ _ => True

inductive Exec (M : Machine σ ℓ ι) (ok : σ → ι → ℓ → Prop) :
    Config σ ℓ ι → List (ι × ℓ) → Config σ ℓ ι → Prop where
  | refl (c : Config σ ℓ ι) : Exec M ok c [] c
  | snoc {c d e : Config σ ℓ ι} {tr t : List (ι × ℓ)} (h : Exec M ok c tr d)
      (hs : Step M ok d t e) : Exec M ok c (tr ++ t) e

variable {M : Machine σ ℓ ι} {ok : σ → ι → ℓ → Prop}

lemma Exec.trans {c d e : Config σ ℓ ι} {tr tr' : List (ι × ℓ)} (h : Exec M ok c tr d)
    (h' : Exec M ok d tr' e) : Exec M ok c (tr ++ tr') e := by
  induction h' with
  | refl => simpa using h
  | snoc _ hs ih => rw [← List.append_assoc]; exact .snoc ih hs

section

variable {c d : Config σ ℓ ι} {t : List (ι × ℓ)} (h : Step M ok c t d)
include h

lemma Step.exec : Exec M ok c t d := by
  simpa using Exec.snoc (.refl c) h

lemma Step.trace_cases :
    (t = [] ∧ d.st = c.st) ∨ ∃ p l, t = [(p, l)] := by
  cases h with
  | act p l => exact .inr ⟨p, l, rfl⟩
  | _ => exact .inl ⟨rfl, rfl⟩

end

section

variable {ok' : σ → ι → ℓ → Prop} {c d : Config σ ℓ ι}

lemma Step.restrict {t : List (ι × ℓ)}
    (h : Step M ok c t d) (hd : d.panicked = none) (hok : ∀ e ∈ t, ok' c.st e.1 e.2) :
    Step M ok' c t d := by
  cases h with
  | start p x hrun hready hp => exact .start p x hrun hready hp
  | finish p hrun hp => exact .finish p hrun hp
  | pick p k n hrun hp => exact .pick p k n hrun hp
  | act p l f k b s hrun hf _ hp =>
    exact .act p l f k b s hrun hf (hok (p, l) List.mem_cons_self) hp
  | panic p l f k msg hrun hf _ hp => cases hd

lemma Exec.restrict {tr : List (ι × ℓ)} (h : Exec M ok c tr d) (hd : d.panicked = none)
    (hok : ∀ e ∈ tr, ∀ s, ok' s e.1 e.2) : Exec M ok' c tr d := by
  induction h with
  | refl => exact .refl c
  | snoc _ hs ih =>
    refine .snoc (ih ?_ fun e he => hok e (List.mem_append_left _ he))
      (hs.restrict hd fun e he => hok e (List.mem_append_right _ he) _)
    cases hs <;> assumption

/-- An execution under a restriction that implies another one in every configuration reached is an
execution under the other one. -/
lemma Exec.strengthen {tr : List (ι × ℓ)} (h : Exec M ok c tr d)
    (hok : ∀ tr e p l, Exec M ok c tr e → ok e.st p l → ok' e.st p l) : Exec M ok' c tr d := by
  induction h with
  | refl => exact .refl c
  | snoc h hs ih =>
    refine .snoc ih ?_
    cases hs with
    | start p x hrun hready hp => exact .start p x hrun hready hp
    | finish p hrun hp => exact .finish p hrun hp
    | pick p k n hrun hp => exact .pick p k n hrun hp
    | act p l f k b s hrun hf ho hp => exact .act p l f k b s hrun hf (hok _ _ p l h ho) hp
    | panic p l f k msg hrun hf ho hp => exact .panic p l f k msg hrun hf (hok _ _ p l h ho) hp

end

/-! ### Explicit schedules -/

inductive Move (ι κ : Type) where
  | start (p : ι) (x : κ)
  /-- The thread `p` makes its next step; `n` answers a request for a number. -/
  | go (p : ι) (n : ℕ)

def Config.move (M : Machine σ ℓ ι) [∀ s p x, Decidable (M.ready s p x)] (c : Config σ ℓ ι) :
    Move ι M.Call → Option (List (ι × ℓ) × Config σ ℓ ι)
  | .start p x =>
    match c.panicked, c.run p with
    | none, none => if M.ready c.st p x then some ([], c.setRun p (some (M.body p x))) else none
    | _, _ => none
  | .go p n =>
    match c.panicked, c.run p with
    | none, some (.ret ()) => some ([], c.setRun p none)
    | none, some (.pick k) => some ([], c.setRun p (some (k n)))
    | none, some (.act l f k) =>
      match f c.st with
      | .blocked => none
      | .panic msg => some ([], { c with panicked := some msg })
      | .done b s => some ([(p, l)], { c.setRun p (some (k b)) with st := s })
    | _, _ => none

def Config.play (M : Machine σ ℓ ι) [∀ s p x, Decidable (M.ready s p x)] :
    Config σ ℓ ι → List (Move ι M.Call) → Option (List (ι × ℓ) × Config σ ℓ ι)
  | c, [] => some ([], c)
  | c, m :: ms =>
    match c.move M m with
    | none => none
    | some (t, d) =>
      match d.play M ms with
      | none => none
      | some (tr, e) => some (t ++ tr, e)

variable [∀ s p x, Decidable (M.ready s p x)]

lemma Step.of_move {c d : Config σ ℓ ι} {m : Move ι M.Call} {t : List (ι × ℓ)}
    (h : c.move M m = some (t, d)) : Step M anyAction c t d := by
  cases m with
  | start p x =>
    simp only [Config.move] at h
    split at h
    · rename_i hp hrun
      split at h
      · rename_i hready
        cases h
        exact .start p x hrun hready hp
      · cases h
    · cases h
  | go p n =>
    simp only [Config.move] at h
    split at h
    · rename_i hp hrun
      cases h
      exact .finish p hrun hp
    · rename_i k hp hrun
      cases h
      exact .pick p k n hrun hp
    · rename_i l f k hp hrun
      split at h
      · cases h
      · rename_i msg hf
        cases h
        exact .panic p l f k msg hrun hf trivial hp
      · rename_i b s hf
        cases h
        exact .act p l f k b s hrun hf trivial hp
    · cases h

lemma Exec.of_play {c e : Config σ ℓ ι} {ms : List (Move ι M.Call)} {tr : List (ι × ℓ)}
    (h : c.play M ms = some (tr, e)) : Exec M anyAction c tr e := by
  induction ms generalizing c tr with
  | nil =>
    simp only [Config.play, Option.some.injEq, Prod.mk.injEq] at h
    obtain ⟨rfl, rfl⟩ := h
    exact .refl c
  | cons m ms ih =>
    simp only [Config.play] at h
    split at h
    · cases h
    rename_i t d hm
    split at h
    · cases h
    · rename_i tr' e' hd
      cases h
      exact (Step.of_move hm).exec.trans (ih hd)

def Config.playTest (M : Machine σ ℓ ι) [∀ s p x, Decidable (M.ready s p x)] (c : Config σ ℓ ι)
    (ms : List (Move ι M.Call)) (test : List (ι × ℓ) → Config σ ℓ ι → Bool) : Bool :=
  match c.play M ms with
  | some (tr, d) => test tr d
  | none => false

lemma Config.exists_of_playTest {c : Config σ ℓ ι} {ms : List (Move ι M.Call)}
    {test : List (ι × ℓ) → Config σ ℓ ι → Bool} (h : c.playTest M ms test = true) :
    ∃ tr d, Exec M anyAction c tr d ∧ test tr d = true := by
  unfold Config.playTest at h
  split at h
  · rename_i tr d hplay
    exact ⟨tr, d, Exec.of_play hplay, h⟩
  · cases h

/-- The configuration after a schedule and the trace of its actions, if every move is possible,
none of them panics and every action passes the test `ok`. -/
def Config.playOk (M : Machine σ ℓ ι) [∀ s p x, Decidable (M.ready s p x)] (ok : σ → ι → ℓ → Bool) :
    Config σ ℓ ι → List (Move ι M.Call) → Option (List (ι × ℓ) × Config σ ℓ ι)
  | c, [] => some ([], c)
  | c, m :: ms =>
    match c.move M m with
    | none => none
    | some (t, d) =>
      if d.panicked.isNone && t.all fun e => ok c.st e.1 e.2 then
        match d.playOk M ok ms with
        | none => none
        | some (tr, e) => some (t ++ tr, e)
      else none

/-- A schedule whose moves are all possible and pass a test is an execution under every restriction
that the test implies. -/
lemma Exec.of_playOk {ok : σ → ι → ℓ → Prop} {okb : σ → ι → ℓ → Bool}
    (hok : ∀ s p l, okb s p l = true → ok s p l) {c e : Config σ ℓ ι} {ms : List (Move ι M.Call)}
    {tr : List (ι × ℓ)} (h : c.playOk M okb ms = some (tr, e)) : Exec M ok c tr e := by
  induction ms generalizing c tr with
  | nil =>
    simp only [Config.playOk, Option.some.injEq, Prod.mk.injEq] at h
    obtain ⟨rfl, rfl⟩ := h
    exact .refl c
  | cons m ms ih =>
    simp only [Config.playOk] at h
    split at h
    · cases h
    rename_i t d hm
    split at h
    · rename_i htest
      rw [Bool.and_eq_true, Option.isNone_iff_eq_none, List.all_eq_true] at htest
      split at h
      · cases h
      rename_i tr' e' hd
      cases h
      exact ((Step.of_move hm).restrict htest.1 fun x hx => hok _ _ _ (htest.2 x hx)).exec.trans
        (ih hd)
    · cases h

/-- Run a schedule with a test of its actions, and test the trace and the configuration it leads
to. -/
def Config.playOkTest (M : Machine σ ℓ ι) [∀ s p x, Decidable (M.ready s p x)]
    (ok : σ → ι → ℓ → Bool) (c : Config σ ℓ ι) (ms : List (Move ι M.Call))
    (test : List (ι × ℓ) → Config σ ℓ ι → Bool) : Bool :=
  match c.playOk M ok ms with
  | some (tr, d) => test tr d
  | none => false

lemma Config.exists_of_playOkTest {ok : σ → ι → ℓ → Prop} {okb : σ → ι → ℓ → Bool}
    (hok : ∀ s p l, okb s p l = true → ok s p l) {c : Config σ ℓ ι} {ms : List (Move ι M.Call)}
    {test : List (ι × ℓ) → Config σ ℓ ι → Bool}
    (h : c.playOkTest M okb ms test = true) : ∃ tr d, Exec M ok c tr d ∧ test tr d = true := by
  unfold Config.playOkTest at h
  split at h
  · rename_i tr d hplay
    exact ⟨tr, d, Exec.of_playOk hok hplay, h⟩
  · cases h

end Semantics

end Xv6
