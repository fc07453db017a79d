import Xv6Kernel.Foundation.Program
import Mathlib.Algebra.BigOperators.Fin

/-!
# Proving invariants of concurrent programs

A `Protocol` describes why the threads of a machine do not disturb each other.  Every thread owns a
ghost value `G` (what it holds: locks, references, pages), and an invariant relates the shared
state, the history of the run and the ghost values of all threads.  The history is a fold of the
trace of actions, so it is not part of the program.

`Protocol.Safe p Q m g` says that the program `m`, run by the thread `p` that owns `g`, keeps the
invariant at each of its actions whatever the other threads do in between, changes only its own
ghost value, and ends with a result and a ghost value related by `Q`.  The rules `Safe.bind`,
`Safe.mono` and the rules for single actions make it a program logic; `Protocol.Verified` collects
the obligations for the calls of a machine, and `Verified.exec` concludes that the invariant holds
in every configuration of every execution.
-/

namespace Xv6

open Function

/-- The data of an invariance proof: the invariant over the shared state `σ`, the history `H` and
the ghost values of all threads, and what may be assumed of the actions performed. -/
structure Protocol (σ ℓ ι G H : Type) where
  inv : σ → H → (ι → G) → Prop
  upd : H → ι → ℓ → H
  ok : σ → ι → ℓ → Prop
  guar : σ → H → ι → ℓ → σ → Prop
  /-- What a thread owns when it stands at an action with the given label. -/
  view : ℓ → G → Prop
  /-- What a thread owns when it waits for a number from the environment. -/
  rest : G → Prop
  tol : String → Prop
  idle : G
  fin : G → Prop

namespace Protocol

variable {σ ℓ ι G H : Type}

def hist (P : Protocol σ ℓ ι G H) (η : H) (tr : List (ι × ℓ)) : H :=
  tr.foldl (fun η e => P.upd η e.1 e.2) η

@[simp] lemma hist_nil (P : Protocol σ ℓ ι G H) (η : H) : P.hist η [] = η := rfl

@[simp] lemma hist_append (P : Protocol σ ℓ ι G H) (η : H) (tr tr' : List (ι × ℓ)) :
    P.hist η (tr ++ tr') = P.hist (P.hist η tr) tr' := List.foldl_append

@[simp] lemma hist_singleton (P : Protocol σ ℓ ι G H) (η : H) (p : ι) (l : ℓ) :
    P.hist η [(p, l)] = P.upd η p l := rfl

variable [DecidableEq ι]

/-- The program `m` of the thread `p` keeps the invariant when it owns `g`, and `Q` holds of its
result and of what it owns at its end. -/
def Safe {α : Type} (P : Protocol σ ℓ ι G H) (p : ι) (Q : α → G → Prop) : Prog σ ℓ α → G → Prop
  | .ret a, g => Q a g
  | .act l f k, g => P.view l g ∧
      ∀ s η γ, P.inv s η γ → γ p = g → P.ok s p l →
        match f s with
        | .blocked => True
        | .panic msg => P.tol msg
        | .done b s' => P.guar s η p l s' ∧
            ∃ g', P.inv s' (P.upd η p l) (update γ p g') ∧ P.Safe p Q (k b) g'
  | .pick k, g => P.rest g ∧ ∀ n, P.Safe p Q (k n) g

variable {P : Protocol σ ℓ ι G H} {p : ι} {α β : Type}

lemma safe_ret {Q : α → G → Prop} {a : α} {g : G} (h : Q a g) : P.Safe p Q (.ret a) g := h

lemma Safe.mono {Q Q' : α → G → Prop} {m : Prog σ ℓ α} {g : G} (h : P.Safe p Q m g)
    (hQ : ∀ a g', Q a g' → Q' a g') : P.Safe p Q' m g := by
  induction m generalizing g with
  | ret a => exact hQ a g h
  | act l f k ih =>
    refine ⟨h.1, fun s η γ hinv hg hok => ?_⟩
    have hs := h.2 s η γ hinv hg hok
    cases hf : f s with
    | blocked => trivial
    | panic msg => rw [hf] at hs; exact hs
    | done b s' =>
      rw [hf] at hs
      obtain ⟨hguar, g', hinv', hk⟩ := hs
      exact ⟨hguar, g', hinv', ih b hk⟩
  | pick k ih => exact ⟨h.1, fun n => ih n (h.2 n)⟩

section

variable {Q : β → G → Prop}

lemma Safe.bind {m : Prog σ ℓ α} {k : α → Prog σ ℓ β} {g : G}
    (h : P.Safe p (fun a g' => P.Safe p Q (k a) g') m g) : P.Safe p Q (m >>= k) g := by
  induction m generalizing g with
  | ret a => exact h
  | act l f k' ih =>
    refine ⟨h.1, fun s η γ hinv hg hok => ?_⟩
    have hs := h.2 s η γ hinv hg hok
    cases hf : f s with
    | blocked => trivial
    | panic msg => rw [hf] at hs; exact hs
    | done b s' =>
      rw [hf] at hs
      obtain ⟨hguar, g', hinv', hk⟩ := hs
      exact ⟨hguar, g', hinv', ih b hk⟩
  | pick k' ih => exact ⟨h.1, fun n => ih n (h.2 n)⟩

lemma Safe.seq {R : α → G → Prop} {m : Prog σ ℓ α} {k : α → Prog σ ℓ β}
    {g : G} (h : P.Safe p R m g) (hk : ∀ a g', R a g' → P.Safe p Q (k a) g') :
    P.Safe p Q (m >>= k) g :=
  Safe.bind (h.mono hk)

/-- Safety of a single action: it is enough to treat the case in which the action is performed, and
to say which panics it can raise. -/
lemma safe_atomic {l : ℓ} {f : σ → Outcome σ β} {g : G} (hview : P.view l g)
    (hpanic : ∀ s η γ msg, P.inv s η γ → γ p = g → P.ok s p l → f s = .panic msg → P.tol msg)
    (hdone : ∀ s η γ b s', P.inv s η γ → γ p = g → P.ok s p l → f s = .done b s' →
      P.guar s η p l s' ∧ ∃ g', P.inv s' (P.upd η p l) (update γ p g') ∧ Q b g') :
    P.Safe p Q (.atomic l f) g := by
  refine ⟨hview, fun s η γ hinv hg hok => ?_⟩
  cases hf : f s with
  | blocked => trivial
  | panic msg => exact hpanic s η γ msg hinv hg hok hf
  | done b s' => exact hdone s η γ b s' hinv hg hok hf

lemma safe_update {l : ℓ} {v : σ → β} {u : σ → σ} {g : G}
    (hview : P.view l g) (hdone : ∀ s η γ, P.inv s η γ → γ p = g → P.ok s p l →
      P.guar s η p l (u s) ∧ ∃ g', P.inv (u s) (P.upd η p l) (update γ p g') ∧ Q (v s) g') :
    P.Safe p Q (.atomic l fun s => .done (v s) (u s)) g :=
  safe_atomic hview (fun _ _ _ _ _ _ _ hf => by cases hf) fun s η γ _ _ hinv hg hok hf => by
    cases hf
    exact hdone s η γ hinv hg hok

end

lemma safe_pickBool {Q : Bool → G → Prop} {g : G} (hrest : P.rest g) (h : ∀ b, Q b g) :
    P.Safe p Q Prog.pickBool g := ⟨hrest, fun n => h (n != 0)⟩

lemma safe_pickNat {Q : ℕ → G → Prop} {g : G} (hrest : P.rest g) (h : ∀ n, Q n g) :
    P.Safe p Q (.pick .ret) g := ⟨hrest, h⟩

/-- Every call is safe when it starts, and gives back what it owns. -/
structure Verified (P : Protocol σ ℓ ι G H) (M : Machine σ ℓ ι) : Prop where
  /-- A thread that starts a call can acquire what the body of the call needs. -/
  start : ∀ s η γ p x, P.inv s η γ → γ p = P.idle → M.ready s p x →
    ∃ g, P.inv s η (update γ p g) ∧ P.Safe p (fun _ g' => P.fin g') (M.body p x) g
  /-- What a thread owns at the end of a call can be given up. -/
  finish : ∀ s η γ p, P.inv s η γ → P.fin (γ p) → P.inv s η (update γ p P.idle)

def Threads (P : Protocol σ ℓ ι G H) (c : Config σ ℓ ι) (γ : ι → G) : Prop :=
  ∀ p, match c.run p with
    | none => γ p = P.idle
    | some m => P.Safe p (fun _ g' => P.fin g') m (γ p)

/-- The invariant holds, and every running thread is safe. -/
structure Holds (P : Protocol σ ℓ ι G H) (c : Config σ ℓ ι) (η : H) : Prop where
  ghost : ∃ γ, P.inv c.st η γ ∧ P.Threads c γ
  panicked : ∀ msg, c.panicked = some msg → P.tol msg

lemma Holds.idle {s : σ} {η : H} (h : P.inv s η fun _ => P.idle) : P.Holds (.idle s) η :=
  ⟨⟨fun _ => P.idle, h, fun _ => rfl⟩, by intro msg hmsg; cases hmsg⟩

lemma Threads.setRun {c : Config σ ℓ ι} {γ : ι → G} (h : P.Threads c γ) {p : ι}
    {m : Option (Prog σ ℓ Unit)} {g : G}
    (hm : match m with
      | none => g = P.idle
      | some m => P.Safe p (fun _ g' => P.fin g') m g) :
    P.Threads (c.setRun p m) (update γ p g) := by
  intro q
  by_cases hq : q = p
  · subst hq
    simpa using hm
  · simpa [hq] using h q

lemma Holds.step {M : Machine σ ℓ ι} (hM : P.Verified M) {c d : Config σ ℓ ι} {η : H}
    {t : List (ι × ℓ)} (h : P.Holds c η) (hs : Step M P.ok c t d) : P.Holds d (P.hist η t) := by
  obtain ⟨⟨γ, hinv, hth⟩, hpan⟩ := h
  cases hs with
  | start p x hrun hready hp =>
    have hg : γ p = P.idle := by simpa [hrun] using hth p
    obtain ⟨g, hinv', hsafe⟩ := hM.start c.st η γ p x hinv hg hready
    exact ⟨⟨_, hinv', hth.setRun hsafe⟩, by simp [hp]⟩
  | finish p hrun hp =>
    have hsafe := hth p
    rw [hrun] at hsafe
    exact ⟨⟨_, hM.finish c.st η γ p hinv hsafe, hth.setRun rfl⟩, by simp [hp]⟩
  | pick p k n hrun hp =>
    have hsafe := hth p
    rw [hrun] at hsafe
    have hth' : P.Threads (c.setRun p (some (k n))) (update γ p (γ p)) :=
      hth.setRun (hsafe.2 n)
    rw [update_eq_self] at hth'
    exact ⟨⟨γ, hinv, hth'⟩, by simp [hp]⟩
  | act p l f k b s hrun hf hok hp =>
    have hsafe := hth p
    rw [hrun] at hsafe
    have hstep := hsafe.2 c.st η γ hinv rfl hok
    rw [hf] at hstep
    obtain ⟨-, g', hinv', hk⟩ := hstep
    exact ⟨⟨_, hinv', hth.setRun hk⟩, by simp [hp]⟩
  | panic p l f k msg hrun hf hok hp =>
    have hsafe := hth p
    rw [hrun] at hsafe
    have hstep := hsafe.2 c.st η γ hinv rfl hok
    rw [hf] at hstep
    refine ⟨⟨γ, hinv, hth⟩, fun msg' hmsg => ?_⟩
    cases hmsg
    exact hstep

/-- What is known of an action that is performed in a configuration that satisfies the invariant:
the guarantee, and what the acting thread owns. -/
lemma Holds.action {M : Machine σ ℓ ι} {c d : Config σ ℓ ι} {η : H} {p : ι} {l : ℓ}
    (h : P.Holds c η) (hs : Step M P.ok c [(p, l)] d) :
    P.guar c.st η p l d.st ∧ ∃ γ, P.inv c.st η γ ∧ P.view l (γ p) := by
  obtain ⟨⟨γ, hinv, hth⟩, hpan⟩ := h
  cases hs with
  | act p l f k b s hrun hf hok hp =>
    have hsafe := hth p
    rw [hrun] at hsafe
    have hstep := hsafe.2 c.st η γ hinv rfl hok
    rw [hf] at hstep
    exact ⟨hstep.1, γ, hinv, hsafe.1⟩

/-- A verified machine keeps its invariant over every run. -/
lemma Verified.exec {M : Machine σ ℓ ι} (hM : P.Verified M) {c d : Config σ ℓ ι} {η : H}
    {tr : List (ι × ℓ)} (h : P.Holds c η) (hex : Exec M P.ok c tr d) : P.Holds d (P.hist η tr) := by
  induction hex with
  | refl => exact h
  | snoc _ hs ih =>
    rw [hist_append]
    exact ih.step hM hs

end Protocol

/-! ## Counting over the threads -/

lemma sum_update_add {ι β : Type} [Fintype ι] [DecidableEq ι] (F : β → ℕ) (f : ι → β) (p : ι)
    (x : β) : (∑ q, F (update f p x q)) + F (f p) = (∑ q, F (f q)) + F x := by
  have hrest : ∑ q ∈ Finset.univ.erase p, F (update f p x q) =
      ∑ q ∈ Finset.univ.erase p, F (f q) :=
    Finset.sum_congr rfl fun q hq => by rw [update_of_ne (Finset.ne_of_mem_erase hq)]
  rw [← Finset.add_sum_erase _ (fun q => F (update f p x q)) (Finset.mem_univ p),
    ← Finset.add_sum_erase _ (fun q => F (f q)) (Finset.mem_univ p), hrest,
    update_self]
  omega

end Xv6
