import Xv6Kernel.Foundation.Ownership

/-!
# Monitors: sleeping and waking under a lock

A monitor is data of type `D` under a lock, with channels of type `C` on which processes sleep until
somebody who holds the lock wakes them.  `sleep` releases the lock and falls asleep in two actions;
in between the process is dozing, and a `wakeup` waits until it is asleep, so that no wakeup is
lost.

A `MonSpec` says what a client proves: a condition `waits` for every channel on which a process may
sleep, an invariant of the data with ghost values of its own, and a view of the data which only the
holder of the lock changes.  `monProtocol` makes a protocol of it.  Its invariant adds that whoever
is asleep, or about to be, is so for a reason, or is owed a wakeup by the holder of the lock.
-/

namespace Xv6

open Function

/-- Data under a lock, with processes that sleep on channels. -/
structure Monitor (N : ℕ) (D C : Type) where
  data : D
  lock : Option (Fin N)
  asleep : Fin N → Option C
  /-- The process has released the lock and is about to sleep. -/
  dozing : Fin N → Bool

/-- The actions on a monitor, with labels `A` for those on the data. -/
inductive MonAct (N : ℕ) (A C : Type) where
  | acquire
  | release
  | act (a : A)
  | doze (ch : C)
  | sleep (ch : C)
  | resume
  | wake (q : Fin N) (ch : C)
  | halt
  deriving DecidableEq

abbrev MonProg (N : ℕ) (D A C α : Type) : Type 1 := Prog (Monitor N D C) (MonAct N A C) α

namespace Monitor

variable {N : ℕ} {D A C : Type}

def acquire (p : Fin N) : MonProg N D A C Unit :=
  .atomic .acquire fun s => if s.lock = none then .done () { s with lock := some p } else .blocked

def release : MonProg N D A C Unit := .atomic .release fun s => .done () { s with lock := none }

def act {β : Type} (a : A) (f : D → Outcome D β) : MonProg N D A C β :=
  .atomic (.act a) fun s =>
    match f s.data with
    | .blocked => .blocked
    | .panic msg => .panic msg
    | .done b d => .done b { s with data := d }

def halt {β : Type} : MonProg N D A C β := .atomic .halt fun _ => .blocked

def sleep (p : Fin N) (ch : C) : MonProg N D A C Unit := do
  .atomic (.doze ch) fun s =>
    .done () { s with lock := none, dozing := update s.dozing p true }
  .atomic (.sleep ch) fun s =>
    .done () { s with
      asleep := update s.asleep p (some ch)
      dozing := update s.dozing p false }
  .atomic .resume fun s => if s.asleep p = none then .done () s else .blocked
  acquire p

/-- The loop of `wakeup(ch)` by the process `p` over a part of the process table. -/
def wakeupFrom [DecidableEq C] (p : Fin N) (ch : C) : List (Fin N) → MonProg N D A C Unit
  | [] => pure ()
  | q :: l => do
    if q ≠ p then
      .atomic (.wake q ch) fun s =>
        if s.dozing q then .blocked
        else if s.asleep q = some ch then
          .done () { s with asleep := update s.asleep q none }
        else .done () s
    wakeupFrom p ch l

def wakeup [DecidableEq C] (p : Fin N) (ch : C) : MonProg N D A C Unit :=
  wakeupFrom p ch (List.finRange N)

def init (d : D) : Monitor N D C := ⟨d, none, fun _ => none, fun _ => false⟩

end Monitor

/-- What a client proves of its data: when a sleeper waits, and an invariant. -/
structure MonSpec (N : ℕ) (D A C K G H : Type) where
  /-- The part of the data that only the holder of the lock changes. -/
  view : D → K
  waits : C → K → Prop
  inv : D → H → (Fin N → G) → Prop
  upd : H → Fin N → A → H
  guar : D → H → Fin N → A → Prop
  tol : String → Prop
  sleeps : G → Prop
  /-- What a process may own while it does not hold the lock. -/
  quiet : G → Prop
  idle : G

inductive MonPhase (C : Type) where
  | run
  | doze (ch : C)
  | asleep (ch : C)

/-- What a process knows: the view of the data under the lock, and whom it owes a wakeup. -/
structure MonGhost (N : ℕ) (C K G : Type) where
  hold : Option K
  owe : C → Set (Fin N)
  phase : MonPhase C
  own : G

variable {N : ℕ} {D A C K G H : Type}

def Monitor.Committed (s : Monitor N D C) (γ : Fin N → MonGhost N C K G) (q : Fin N) (ch : C) :
    Prop :=
  (γ q).phase = .doze ch ∨ s.asleep q = some ch

/-- A sleeper waits for its condition, or the holder of the lock owes it a wakeup. -/
structure MonInv (S : MonSpec N D A C K G H) (s : Monitor N D C) (η : H)
    (γ : Fin N → MonGhost N C K G) : Prop where
  holds : ∀ p k, (γ p).hold = some k → s.lock = some p ∧ S.view s.data = k
  held : ∀ p, s.lock = some p → (γ p).hold ≠ none
  dozing : ∀ p, s.dozing p = true ↔ ∃ ch, (γ p).phase = .doze ch
  asleep : ∀ p ch, s.asleep p = some ch → (γ p).phase = .asleep ch
  reason : ∀ q ch, s.Committed γ q ch →
    S.waits ch (S.view s.data) ∨ ∃ p, s.lock = some p ∧ q ∈ (γ p).owe ch
  sleeps : ∀ p, (γ p).phase ≠ .run → S.sleeps (γ p).own
  quiet : ∀ p, (γ p).hold = none → S.quiet (γ p).own
  client : S.inv s.data η fun p => (γ p).own

def MonSpec.hist (S : MonSpec N D A C K G H) (η : H) (p : Fin N) : MonAct N A C → H
  | .act a => S.upd η p a
  | _ => η

def MonSpec.guarAct (S : MonSpec N D A C K G H) (s : Monitor N D C) (η : H) (p : Fin N) :
    MonAct N A C → Prop
  | .act a => S.guar s.data η p a
  | _ => True

def monProtocol (S : MonSpec N D A C K G H) :
    Protocol (Monitor N D C) (MonAct N A C) (Fin N) (MonGhost N C K G) H where
  inv := MonInv S
  upd := S.hist
  ok _ _ _ := True
  guar s η p l _ := S.guarAct s η p l
  view _ _ := True
  rest _ := True
  tol := S.tol
  idle := ⟨none, fun _ => ∅, .run, S.idle⟩
  fin g := g.hold = none ∧ g.phase = .run ∧ g.own = S.idle

section Steps

variable {S : MonSpec N D A C K G H} {s : Monitor N D C} {η : H} {γ : Fin N → MonGhost N C K G}
  {p q : Fin N}

lemma own_update (γ : Fin N → MonGhost N C K G) (p : Fin N) (g : MonGhost N C K G) :
    (fun q => (update γ p g q).own) = update (fun q => (γ q).own) p g.own := by
  funext q
  by_cases hq : q = p
  · subst hq
    simp
  · simp [hq]

namespace MonInv

section

variable (h : MonInv S s η γ)
include h

lemma not_committed (hp : (γ p).phase = .run) (ch : C) : ¬s.Committed γ p ch := by
  rintro (hd | hch)
  · rw [hp] at hd
    cases hd
  · have hph := h.asleep p ch hch
    rw [hp] at hph
    cases hph

lemma change {s' : Monitor N D C} {η' : H} {g : MonGhost N C K G}
    (has : s'.asleep = s.asleep) (hdz : s'.dozing = s.dozing) (hph : g.phase = (γ p).phase)
    (hsl : g.phase ≠ .run → S.sleeps g.own) (hqu : g.hold = none → S.quiet g.own)
    (hown : ∀ k, g.hold = some k → s'.lock = some p ∧ S.view s'.data = k)
    (hheld : s'.lock = some p → g.hold ≠ none)
    (hrest : ∀ r, r ≠ p → s.lock = some r → s'.lock = some r ∧ S.view s'.data = S.view s.data)
    (hback : ∀ r, r ≠ p → s'.lock = some r → s.lock = some r)
    (hreason : ∀ q ch, s.Committed γ q ch → S.waits ch (S.view s'.data) ∨
      ∃ p', s'.lock = some p' ∧ q ∈ (update γ p g p').owe ch)
    (hclient : S.inv s'.data η' (update (fun q => (γ q).own) p g.own)) :
    MonInv S s' η' (update γ p g) := by
  have hphase : ∀ r, (update γ p g r).phase = (γ r).phase := by
    intro r
    by_cases hrp : r = p
    · subst hrp
      simpa using hph
    · simp [hrp]
  refine ⟨fun r k hr => ?_, fun r hr => ?_, fun r => ?_, fun r ch hch => ?_,
    fun r ch hc => hreason r ch ?_, fun r hr => ?_, fun r hr => ?_, ?_⟩
  · by_cases hrp : r = p
    · subst hrp
      exact hown k (by simpa using hr)
    · obtain ⟨h1, h2⟩ := h.holds r k (by simpa [hrp] using hr)
      obtain ⟨h3, h4⟩ := hrest r hrp h1
      exact ⟨h3, h4.trans h2⟩
  · by_cases hrp : r = p
    · subst hrp
      simpa using hheld hr
    · simpa [hrp] using h.held r (hback r hrp hr)
  · rw [hdz, hphase]
    exact h.dozing r
  · rw [hphase]
    exact h.asleep r ch (has ▸ hch)
  · unfold Monitor.Committed at *
    rwa [hphase, has] at hc
  · by_cases hrp : r = p
    · subst hrp
      simp only [update_self] at hr ⊢
      exact hsl hr
    · simp only [ne_eq, hrp, not_false_eq_true, update_of_ne] at hr ⊢
      exact h.sleeps r hr
  · by_cases hrp : r = p
    · subst hrp
      simp only [update_self] at hr ⊢
      exact hqu hr
    · simp only [ne_eq, hrp, not_false_eq_true, update_of_ne] at hr ⊢
      exact h.quiet r hr
  · rw [own_update]
    exact hclient

section

variable {k : K} (hp : (γ p).hold = some k)
include hp

lemma reason_of_hold {ch : C}
    (hc : s.Committed γ q ch) : S.waits ch k ∨ q ∈ (γ p).owe ch := by
  obtain ⟨hlock, rfl⟩ := h.holds p k hp
  refine (h.reason q ch hc).imp id ?_
  rintro ⟨p', hp', hq⟩
  obtain rfl : p = p' := by simpa [hlock] using hp'
  exact hq

lemma waits_of_hold (hrun : (γ p).phase = .run) (howe : ∀ ch, (γ p).owe ch ⊆ {p}) {ch : C}
    (hc : s.Committed γ q ch) : S.waits ch (S.view s.data) := by
  rw [(h.holds p k hp).2]
  refine (h.reason_of_hold hp hc).resolve_right fun hq => ?_
  obtain rfl : q = p := howe ch hq
  exact h.not_committed hrun ch hc

lemma only_holder {r : Fin N}
    (hrp : r ≠ p) : s.lock ≠ some r := fun hr =>
  hrp (Option.some.inj (hr.symm.trans (h.holds p k hp).1))

lemma hold_of_other (hq : q ≠ p) : (γ q).hold = none := by
  by_contra hne
  obtain ⟨k', hk'⟩ := Option.ne_none_iff_exists'.mp hne
  exact h.only_holder hp hq (h.holds q k' hk').1

end

lemma changeSleep {a : Option C} {b : Bool} {φ : MonPhase C}
    (hhold : (γ p).hold = none) (hb : b = true ↔ ∃ ch, φ = .doze ch)
    (ha : ∀ ch, a = some ch → φ = .asleep ch)
    (hsl : φ ≠ .run → S.sleeps (γ p).own)
    (hreason : ∀ ch, φ = .doze ch ∨ a = some ch → s.Committed γ p ch) :
    MonInv S { s with
        asleep := update s.asleep p a
        dozing := update s.dozing p b } η
      (update γ p { γ p with phase := φ }) := by
  have hhold' : ∀ r, (update γ p { γ p with phase := φ } r).hold = (γ r).hold := by
    intro r
    by_cases hrp : r = p
    · subst hrp
      simp
    · simp [hrp]
  have howe' : ∀ r, (update γ p { γ p with phase := φ } r).owe = (γ r).owe := by
    intro r
    by_cases hrp : r = p
    · subst hrp
      simp
    · simp [hrp]
  refine ⟨fun r k hr => h.holds r k (hhold' r ▸ hr), fun r hr => hhold' r ▸ h.held r hr,
    fun r => ?_, fun r ch hch => ?_, fun r ch hc => ?_, fun r hr => ?_, fun r hr => ?_, ?_⟩
  · by_cases hrp : r = p
    · subst hrp
      simpa using hb
    · simpa [hrp] using h.dozing r
  · by_cases hrp : r = p
    · subst hrp
      simpa using ha ch (by simpa using hch)
    · simpa [hrp] using h.asleep r ch (by simpa [hrp] using hch)
  · have hc' : s.Committed γ r ch := by
      by_cases hrp : r = p
      · subst hrp
        exact hreason ch (by simpa [Monitor.Committed] using hc)
      · simpa [Monitor.Committed, hrp] using hc
    refine (h.reason r ch hc').imp id ?_
    rintro ⟨p', hp', hr⟩
    exact ⟨p', hp', by rwa [howe' p']⟩
  · by_cases hrp : r = p
    · subst hrp
      simp only [update_self] at hr ⊢
      exact hsl hr
    · simp only [ne_eq, hrp, not_false_eq_true, update_of_ne] at hr ⊢
      exact h.sleeps r hr
  · have hquiet := h.quiet r (hhold' r ▸ hr)
    by_cases hrp : r = p
    · subst hrp
      simpa using hquiet
    · simpa [hrp] using hquiet
  · rw [own_update, update_eq_self]
    exact h.client

lemma awaken (q : Fin N) :
    MonInv S { s with asleep := update s.asleep q none } η γ := by
  have hsub : ∀ r ch, update s.asleep q none r = some ch → s.asleep r = some ch := by
    intro r ch hr
    by_cases hrq : r = q
    · subst hrq
      simp at hr
    · simpa [hrq] using hr
  exact ⟨h.holds, h.held, h.dozing, fun r ch hr => h.asleep r ch (hsub r ch hr),
    fun r ch hc => h.reason r ch (hc.imp id (hsub r ch)), h.sleeps, h.quiet, h.client⟩

end

lemma passed [DecidableEq C] (h : MonInv S s η γ) {ch : C} (hq : ¬s.Committed γ q ch) :
    MonInv S s η (update γ p { γ p with
      owe := update (γ p).owe ch ((γ p).owe ch \ {q}) }) := by
  refine h.change rfl rfl rfl (h.sleeps p) (h.quiet p) (h.holds p) (h.held p)
    (fun r _ hr => ⟨hr, rfl⟩) (fun r _ hr => hr) (fun r c hc => (h.reason r c hc).imp id ?_) ?_
  · rintro ⟨p', hp', hr⟩
    refine ⟨p', hp', ?_⟩
    by_cases hpp : p' = p
    · subst hpp
      rw [update_self]
      by_cases hcc : c = ch
      · subst hcc
        have hrq : r ≠ q := fun hrq => hq (hrq ▸ hc)
        simpa [hrq] using hr
      · simpa [hcc] using hr
    · simpa [hpp] using hr
  · rw [update_eq_self]
    exact h.client

lemma forget (h : MonInv S s η γ) (hhold : (γ p).hold = none) :
    MonInv S s η (update γ p ⟨(γ p).hold, fun _ => ∅, (γ p).phase, (γ p).own⟩) := by
  refine h.change rfl rfl rfl (h.sleeps p) (h.quiet p) (h.holds p) (h.held p)
    (fun r _ hr => ⟨hr, rfl⟩) (fun r _ hr => hr) (fun r c hc => (h.reason r c hc).imp id ?_) ?_
  · rintro ⟨p', hp', hr⟩
    have hpp : p' ≠ p := fun hpp => h.held p (hpp ▸ hp') hhold
    exact ⟨p', hp', by simpa [hpp] using hr⟩
  · rw [update_eq_self]
    exact h.client

lemma waits_of_free (h : MonInv S s η γ) (hlock : s.lock = none) {ch : C}
    (hq : s.asleep q = some ch) : S.waits ch (S.view s.data) := by
  refine (h.reason q ch (.inr hq)).resolve_right ?_
  rintro ⟨p', hp', -⟩
  rw [hlock] at hp'
  cases hp'

lemma sleeps_of_asleep (h : MonInv S s η γ) {ch : C} (hq : s.asleep q = some ch) :
    S.sleeps (γ q).own :=
  h.sleeps q (by rw [h.asleep q ch hq]; simp)

lemma init {d : D} (hquiet : S.quiet S.idle) (h : S.inv d η fun _ => S.idle) :
    MonInv S (Monitor.init d) η fun _ => (monProtocol S).idle := by
  refine ⟨fun p k hk => ?_, fun p hp => ?_, fun p => ?_, fun p ch hp => ?_, fun q ch hc => ?_,
    fun p hp => absurd rfl hp, fun _ _ => hquiet, h⟩
  · cases hk
  · cases hp
  · simp [Monitor.init, monProtocol]
  · cases hp
  · rcases hc with hc | hc <;> cases hc

end MonInv

end Steps

/-! ## The rules -/

section Rules

open Protocol

variable {S : MonSpec N D A C K G H} {p : Fin N} {g : MonGhost N C K G} {own : G}

lemma safe_halt {β : Type} {Q : β → MonGhost N C K G → Prop} :
    (monProtocol S).Safe p Q Monitor.halt g :=
  safe_atomic trivial (fun s η γ msg _ _ _ hf => by cases hf) fun s η γ b s' _ _ _ hf => by cases hf

lemma safe_acquire {Q : Unit → MonGhost N C K G → Prop} {owe : C → Set (Fin N)}
    (hQ : ∀ k, Q () ⟨some k, fun _ => ∅, .run, own⟩) :
    (monProtocol S).Safe p Q (Monitor.acquire p) ⟨none, owe, .run, own⟩ := by
  refine safe_atomic trivial (fun s η γ msg _ _ _ hf => ?_) fun s η γ b s' hinv hg _ hf => ?_
  · split at hf <;> cases hf
  split at hf
  · rename_i hlock
    cases hf
    refine ⟨trivial, _, ?_, hQ (S.view s.data)⟩
    refine MonInv.change hinv rfl rfl (by rw [hg]) (absurd rfl) (fun hk => by cases hk)
      (fun k hk => ⟨rfl, Option.some.inj hk⟩) (fun _ => by simp)
      (fun r _ hr => by simp [hlock] at hr)
      (fun r hrp hr => absurd (by simpa using hr.symm) hrp)
      (fun q ch hc => .inl ((MonInv.reason hinv q ch hc).resolve_right ?_)) ?_
    · rintro ⟨p', hp', -⟩
      simp [hlock] at hp'
    · have hclient := MonInv.client hinv
      have hown : (γ p).own = own := by rw [hg]
      rwa [← hown, update_eq_self]
  · cases hf

lemma safe_release {Q : Unit → MonGhost N C K G → Prop} {k : K} {owe : C → Set (Fin N)}
    (howe : ∀ ch, owe ch ⊆ {p}) (hquiet : S.quiet own) (hQ : Q () ⟨none, fun _ => ∅, .run, own⟩) :
    (monProtocol S).Safe p Q Monitor.release ⟨some k, owe, .run, own⟩ := by
  refine safe_update trivial fun s η γ hinv hg _ => ?_
  have hhold : (γ p).hold = some k := by rw [hg]
  have hrun : (γ p).phase = .run := by rw [hg]
  refine ⟨trivial, _, ?_, hQ⟩
  refine MonInv.change hinv rfl rfl hrun.symm (absurd rfl) (fun _ => hquiet)
    (fun _ hk => by cases hk) (fun hl => by cases hl)
    (fun r hrp hr => absurd hr (MonInv.only_holder hinv hhold hrp))
    (fun r _ hr => by cases hr)
    (fun q ch hc => .inl (MonInv.waits_of_hold hinv hhold hrun (by rw [hg]; exact howe) hc)) ?_
  have hown : (γ p).own = own := by rw [hg]
  have hclient : S.inv s.data η fun q => (γ q).own := MonInv.client hinv
  rwa [← hown, update_eq_self]

section

variable {β : Type} {a : A} {f : D → Outcome D β} {Q : β → MonGhost N C K G → Prop}

lemma safe_locked {k : K} {owe : C → Set (Fin N)}
    (hpanic : ∀ d η γ msg, S.inv d η γ → γ p = own → S.view d = k → f d = .panic msg → S.tol msg)
    (hdone : ∀ d η γ b d', S.inv d η γ → γ p = own → (∀ q, q ≠ p → S.quiet (γ q)) → S.view d = k →
      f d = .done b d' → S.guar d η p a ∧ ∃ own' owe', S.inv d' (S.upd η p a) (update γ p own') ∧
        (∀ q ch, S.waits ch k ∨ q ∈ owe ch → S.waits ch (S.view d') ∨ q ∈ owe' ch) ∧
        Q b ⟨some (S.view d'), owe', .run, own'⟩) :
    (monProtocol S).Safe p Q (Monitor.act a f) ⟨some k, owe, .run, own⟩ := by
  refine safe_atomic trivial (fun s η γ msg hinv hg _ hf => ?_) fun s η γ b s' hinv hg _ hf => ?_
  all_goals
    have hhold : (γ p).hold = some k := by rw [hg]
    have hown : (γ p).own = own := by rw [hg]
    obtain ⟨hlock, hview⟩ := MonInv.holds hinv p k hhold
  · split at hf
    · cases hf
    · rename_i hfd
      cases hf
      exact hpanic _ η _ msg (MonInv.client hinv) hown hview hfd
    · cases hf
  · split at hf
    · cases hf
    · cases hf
    · rename_i b' d' hfd
      cases hf
      obtain ⟨hguar, own', owe', hinv', howe, hQ⟩ :=
        hdone _ η _ b d' (MonInv.client hinv) hown
          (fun q hq => MonInv.quiet hinv q (MonInv.hold_of_other hinv hhold hq)) hview hfd
      refine ⟨hguar, _, ?_, hQ⟩
      refine MonInv.change hinv rfl rfl (by rw [hg]) (absurd rfl) (fun hk => by cases hk)
        (fun _ hk => ⟨hlock, Option.some.inj hk⟩) (fun _ => by simp)
        (fun r hrp hr => absurd hr (MonInv.only_holder hinv hhold hrp))
        (fun r _ hr => hr) (fun q ch hc => ?_) hinv'
      have hreason := MonInv.reason_of_hold hinv hhold hc
      rw [hg] at hreason
      exact (howe q ch hreason).imp id fun hq => ⟨p, hlock, by simpa using hq⟩

lemma safe_unlocked (hrun : g.phase = .run)
    (hpanic : ∀ d η γ msg, S.inv d η γ → γ p = g.own → f d = .panic msg → S.tol msg)
    (hdone : ∀ d η γ b d', S.inv d η γ → γ p = g.own → f d = .done b d' →
      S.guar d η p a ∧ S.view d' = S.view d ∧
        ∃ own', S.inv d' (S.upd η p a) (update γ p own') ∧
          (g.hold = none → S.quiet own') ∧ Q b { g with own := own' }) :
    (monProtocol S).Safe p Q (Monitor.act a f) g := by
  refine safe_atomic trivial (fun s η γ msg hinv hg _ hf => ?_) fun s η γ b s' hinv hg _ hf => ?_
  all_goals have hown : (γ p).own = g.own := by rw [hg]
  · split at hf
    · cases hf
    · rename_i hfd
      cases hf
      exact hpanic _ η _ msg (MonInv.client hinv) hown hfd
    · cases hf
  · split at hf
    · cases hf
    · cases hf
    · rename_i b' d' hfd
      cases hf
      obtain ⟨hguar, hview, own', hinv', hquiet, hQ⟩ :=
        hdone _ η _ b d' (MonInv.client hinv) hown hfd
      refine ⟨hguar, _, ?_, hQ⟩
      subst hg
      refine MonInv.change hinv rfl rfl rfl (absurd hrun) hquiet (fun k hk => ?_)
        (MonInv.held hinv p)
        (fun r _ hr => ⟨hr, hview⟩) (fun r _ hr => hr) (fun q ch hc => ?_) hinv'
      · rw [show S.view d' = S.view s.data from hview]
        exact MonInv.holds hinv p k hk
      · refine (MonInv.reason hinv q ch hc).imp (fun hw => ?_) ?_
        · rw [show S.view d' = S.view s.data from hview]
          exact hw
        · rintro ⟨p', hp', hq⟩
          refine ⟨p', hp', ?_⟩
          by_cases hpp : p' = p
          · subst hpp
            simpa using hq
          · simpa [hpp] using hq

end

lemma safe_sleep {Q : Unit → MonGhost N C K G → Prop} {ch : C} {k : K} {owe : C → Set (Fin N)}
    (howe : ∀ ch, owe ch ⊆ {p}) (hw : S.waits ch k) (hsl : S.sleeps own) (hquiet : S.quiet own)
    (hQ : ∀ k, Q () ⟨some k, fun _ => ∅, .run, own⟩) :
    (monProtocol S).Safe p Q (Monitor.sleep p ch) ⟨some k, owe, .run, own⟩ := by
  refine Safe.seq (R := fun _ g' => g' = ⟨none, fun _ => ∅, .doze ch, own⟩) ?_ ?_
  · refine safe_update trivial fun s η γ hinv hg _ => ?_
    have hhold : (γ p).hold = some k := by rw [hg]
    have hrun : (γ p).phase = .run := by rw [hg]
    have hown : (γ p).own = own := by rw [hg]
    have hclient : S.inv s.data η fun q => (γ q).own := MonInv.client hinv
    have hwait : S.waits ch (S.view s.data) := by
      rw [(MonInv.holds hinv p k hhold).2]
      exact hw
    -- the lock is given up first, then the process dozes
    have hrel : MonInv S { s with lock := none } η
        (update γ p ⟨none, fun _ => ∅, .run, own⟩) := by
      refine MonInv.change hinv rfl rfl hrun.symm (absurd rfl) (fun _ => hquiet)
        (fun _ hk => by cases hk) (fun hl => by cases hl)
        (fun r hrp hr => absurd hr (MonInv.only_holder hinv hhold hrp)) (fun r _ hr => by cases hr)
        (fun q c hc => .inl (MonInv.waits_of_hold hinv hhold hrun (by rw [hg]; exact howe) hc))
        ?_
      rwa [← hown, update_eq_self]
    refine ⟨trivial, _, ?_, rfl⟩
    have hnone : s.asleep p = none := by
      by_contra hne
      obtain ⟨c, hc⟩ := Option.ne_none_iff_exists'.mp hne
      have hph := MonInv.asleep hinv p c hc
      rw [hrun] at hph
      cases hph
    refine ⟨fun r k' hr => ?_, fun r hr => (by cases hr), fun r => ?_, fun r c hr => ?_,
      fun r c hc => .inl ?_, fun r hr => ?_, fun r hr => ?_, ?_⟩
    · by_cases hrp : r = p
      · subst hrp
        simp at hr
      · exact hrel.holds r k' (by simpa [hrp] using hr)
    · by_cases hrp : r = p
      · subst hrp
        simp
      · simpa [hrp] using MonInv.dozing hinv r
    · by_cases hrp : r = p
      · subst hrp
        rw [hnone] at hr
        cases hr
      · simpa [hrp] using MonInv.asleep hinv r c hr
    · by_cases hrp : r = p
      · subst hrp
        rcases hc with hd | hc
        · have hcc : ch = c := by simpa using hd
          exact hcc ▸ hwait
        · rw [hnone] at hc
          cases hc
      · refine (hrel.reason r c ?_).resolve_right (by simp)
        simpa [Monitor.Committed, hrp] using hc
    · by_cases hrp : r = p
      · subst hrp
        simpa using hsl
      · simp only [ne_eq, hrp, not_false_eq_true, update_of_ne] at hr ⊢
        exact MonInv.sleeps hinv r hr
    · by_cases hrp : r = p
      · subst hrp
        simpa using hquiet
      · simp only [ne_eq, hrp, not_false_eq_true, update_of_ne] at hr ⊢
        exact MonInv.quiet hinv r hr
    · rw [own_update]
      rwa [← hown, update_eq_self]
  rintro - g' rfl
  refine Safe.seq (R := fun _ g' => g' = ⟨none, fun _ => ∅, .asleep ch, own⟩) ?_ ?_
  · refine safe_update trivial fun s η γ hinv hg _ => ?_
    have hI := MonInv.changeSleep hinv (p := p) (a := some ch) (b := false) (φ := .asleep ch)
      (by rw [hg]) (by simp) (fun c hc => by rw [Option.some.inj hc])
      (fun _ => by rw [hg]; exact hsl) (fun c hc => .inl ?_)
    · rw [hg] at hI
      exact ⟨trivial, _, hI, rfl⟩
    · rw [hg]
      rcases hc with hc | hc
      · cases hc
      · rw [Option.some.inj hc]
  rintro - g' rfl
  refine Safe.seq (R := fun _ g' => g' = ⟨none, fun _ => ∅, .run, own⟩) ?_ ?_
  · refine safe_atomic trivial (fun s η γ msg _ _ _ hf => ?_) fun s η γ b s' hinv hg _ hf => ?_
    · split at hf <;> cases hf
    split at hf
    · rename_i hst
      cases hf
      have hdz : s.dozing p = false := by
        rw [Bool.eq_false_iff]
        intro hd
        obtain ⟨c, hc⟩ := (MonInv.dozing hinv p).mp hd
        rw [hg] at hc
        cases hc
      have hI := MonInv.changeSleep hinv (p := p) (a := none) (b := false) (φ := .run)
        (by rw [hg]) (by simp) (by simp) (absurd rfl) (by simp)
      have heta : { s with
          asleep := update s.asleep p none
          dozing := update s.dozing p false } = s := by
        rw [← hst, update_eq_self, ← hdz, update_eq_self]
      rw [heta, hg] at hI
      exact ⟨trivial, _, hI, rfl⟩
    · cases hf
  rintro - g' rfl
  exact safe_acquire hQ

/-- A machine of monitor programs is verified if its calls are safe. -/
lemma monProtocol_verified {M : Machine (Monitor N D C) (MonAct N A C) (Fin N)}
    (h : ∀ p x, (monProtocol S).Safe p (fun _ g => (monProtocol S).fin g) (M.body p x)
      (monProtocol S).idle) : (monProtocol S).Verified M where
  start s η γ p x hinv hg _ :=
    ⟨(monProtocol S).idle, by
      rw [← hg, update_eq_self]
      exact hinv, h p x⟩
  finish s η γ p hinv hfin := by
    obtain ⟨hhold, hrun, hown⟩ := hfin
    have hI := MonInv.forget hinv hhold
    rw [hhold, hrun, hown] at hI
    exact hI

variable [DecidableEq C]

lemma safe_wakeupFrom_mon {Q : Unit → MonGhost N C K G → Prop} {ch : C} {l : List (Fin N)}
    (hQ : ∀ owe : C → Set (Fin N), (∀ c, owe c ⊆ g.owe c) →
      (∀ q ∈ l, q ≠ p → q ∉ owe ch) → Q () { g with owe := owe }) :
    (monProtocol S).Safe p Q (Monitor.wakeupFrom p ch l) g := by
  induction l generalizing g with
  | nil => exact hQ g.owe (fun _ => subset_rfl) (by simp)
  | cons q l ih =>
    by_cases hq : q = p
    · rw [Monitor.wakeupFrom, if_neg (not_not.mpr hq)]
      refine ih fun owe hsub hpass => hQ owe hsub fun r hr hrp => ?_
      obtain rfl | hr := List.mem_cons.mp hr
      · exact absurd hq hrp
      · exact hpass r hr hrp
    rw [Monitor.wakeupFrom, if_pos hq]
    refine Safe.bind (safe_atomic trivial (fun s η γ msg _ _ _ hf => ?_)
      fun s η γ b s' hinv hg _ hf => ?_)
    · split at hf
      · cases hf
      · split at hf <;> cases hf
    subst hg
    have hnext : (monProtocol S).Safe p Q (Monitor.wakeupFrom p ch l)
        { γ p with owe := update (γ p).owe ch ((γ p).owe ch \ {q}) } := by
      refine ih fun owe hsub hpass => hQ owe (fun c x hx => ?_) fun r hr hrp hro => ?_
      · have hx' := hsub c hx
        by_cases hc : c = ch
        · subst hc
          simp only [update_self] at hx'
          exact hx'.1
        · simpa [hc] using hx'
      · obtain rfl | hr := List.mem_cons.mp hr
        · have hx' := hsub ch hro
          simp at hx'
        · exact hpass r hr hrp hro
    split at hf
    · cases hf
    rename_i hdz
    have hnd : (γ q).phase ≠ .doze ch := fun hd =>
      hdz ((MonInv.dozing hinv q).mpr ⟨ch, hd⟩)
    split at hf
    · cases hf
      refine ⟨trivial, _, (MonInv.awaken hinv q).passed ?_, hnext⟩
      rintro (hd | hc)
      · exact hnd hd
      · simp at hc
    rename_i hst
    cases hf
    refine ⟨trivial, _, MonInv.passed hinv ?_, hnext⟩
    rintro (hd | hc)
    · exact hnd hd
    · exact hst hc

lemma safe_wakeup {Q : Unit → MonGhost N C K G → Prop} {ch : C}
    (hQ : ∀ owe : C → Set (Fin N), (∀ c, owe c ⊆ g.owe c) → owe ch ⊆ {p} →
      Q () { g with owe := owe }) :
    (monProtocol S).Safe p Q (Monitor.wakeup p ch) g := by
  refine safe_wakeupFrom_mon fun owe hsub hpass => hQ owe hsub fun q hq => ?_
  by_contra hne
  exact hpass q (List.mem_finRange q) hne hq

end Rules

end Xv6
