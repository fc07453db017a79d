import Xv6Kernel.Process.Interrupt

/-!
# A killed process does not stay asleep

Between the test `killed(p)` in one of the loops and the moment at which the process is `SLEEPING`
there is a window: a `kill` in it marks the process but does not wake it, since the process does not
sleep yet, and the process then goes to sleep (`killed_reader_asleep`).
-/

namespace Xv6

open Protocol Function

variable {N : ℕ}
variable {ch : IntrChan N} {lk : IntrLock} {Q : Unit → Bool → Prop} {rounds : ℕ}
variable {f : IntrData → IntrData} {tr : List (Fin N × IntrAct N)} {k : ℕ}

/-- Whether a process is in its window after an action of its own, if `b` says whether it was before. -/
def IntrAct.window (b : Bool) : IntrAct N → Bool
  | .killed => true
  | .look => b
  | .wake _ => b
  | .doze => b
  | .kill _ => b
  | _ => false

structure IntrHist (N : ℕ) where
  /-- The process has tested for a kill and does not sleep yet. -/
  window : Fin N → Bool
  bad : Bool

def IntrHist.upd (η : IntrHist N) (p : Fin N) (l : IntrAct N) : IntrHist N where
  window := Function.update η.window p (l.window (η.window p))
  bad := match l with
    | .kill q => η.bad || η.window q
    | _ => η.bad

/-- The invariant; the ghost value of a process says that it has found itself not marked. -/
structure IntrInv (s : IntrSys N) (η : IntrHist N) (γ : Fin N → Bool) : Prop where
  clean : η.bad = false → ∀ p, γ p = true → η.window p = true ∧ s.killed p = false
  asleep : η.bad = false → ∀ p, s.state p = .SLEEPING → s.killed p = false

def intrProtocol (N : ℕ) : Protocol (IntrSys N) (IntrAct N) (Fin N) Bool (IntrHist N) where
  inv := IntrInv
  upd := IntrHist.upd
  ok _ _ _ := True
  guar _ _ _ _ _ := True
  view _ _ := True
  rest _ := True
  tol _ := False
  idle := false
  fin _ := True

section Rules

variable {p : Fin N} {g : Bool}

lemma safe_neutralIntr {β : Type} {Q : β → Bool → Prop} {l : IntrAct N}
    {f : IntrSys N → Outcome (IntrSys N) β} (g' : Bool) (hpanic : ∀ s msg, f s ≠ .panic msg)
    (hl : ∀ q, l ≠ .kill q) (hg' : g' = true → g = true ∧ l.window true = true)
    (hf : ∀ s b s', f s = .done b s' → s'.killed = s.killed ∧
      ∀ q, s'.state q = .SLEEPING → s.state q = .SLEEPING) (hQ : ∀ b, Q b g') :
    (intrProtocol N).Safe p Q (.atomic l f) g := by
  refine safe_atomic trivial (fun s η γ msg _ _ _ h => hpanic s msg h)
    fun s η γ b s' hinv hg _ h => ⟨trivial, g', ⟨fun hb q hq => ?_, fun hb q hq => ?_⟩, hQ b⟩
  all_goals
    have hbad : η.bad = false := by
      cases l with
      | kill q => exact absurd rfl (hl q)
      | _ => exact hb
  · rw [(hf s b s' h).1]
    by_cases hqp : q = p
    · subst hqp
      simp only [update_self] at hq
      obtain ⟨hgt, hw⟩ := hg' hq
      obtain ⟨h1, h2⟩ := hinv.clean hbad q (by rw [hg, hgt])
      refine ⟨?_, h2⟩
      show update η.window q _ q = true
      rw [update_self, h1, hw]
    · rw [update_of_ne hqp] at hq
      obtain ⟨h1, h2⟩ := hinv.clean hbad q hq
      refine ⟨?_, h2⟩
      show update η.window p _ q = true
      rw [update_of_ne hqp, h1]
  · rw [(hf s b s' h).1]
    exact hinv.asleep hbad q ((hf s b s' h).2 q hq)

lemma safe_haltIntr : (intrProtocol N).Safe p Q haltIntr g :=
  safe_atomic trivial (fun s η γ msg _ _ _ hf => by cases hf) fun s η γ b s' _ _ _ hf => by cases hf

lemma safe_acquireIntr (hQ : Q () false) : (intrProtocol N).Safe p Q (acquireIntr p lk) g := by
  refine safe_neutralIntr false (fun s msg h => ?_) (by simp) (by simp) (fun s b s' h => ?_) fun _ => hQ
  · split at h <;> cases h
  · split at h
    · cases h
      exact ⟨rfl, fun _ hq => hq⟩
    · cases h

lemma safe_releaseIntr (hQ : Q () false) : (intrProtocol N).Safe p Q (releaseIntr lk) g := by
  refine safe_neutralIntr false (fun s msg h => by cases h) (by simp) (by simp) (fun s b s' h => ?_)
    fun _ => hQ
  cases h
  exact ⟨rfl, fun _ hq => hq⟩

lemma safe_lookIntr {β : Type} {Q : β → Bool → Prop} {f : IntrData → β} (hQ : ∀ b, Q b g) :
    (intrProtocol N).Safe p Q (lookIntr f) g := by
  refine safe_neutralIntr g (fun s msg h => by cases h) (by simp) (fun hg => ⟨hg, rfl⟩)
    (fun s b s' h => ?_) hQ
  cases h
  exact ⟨rfl, fun _ hq => hq⟩

lemma safe_editIntr (hQ : Q () false) : (intrProtocol N).Safe p Q (editIntr f) g := by
  refine safe_neutralIntr false (fun s msg h => by cases h) (by simp) (by simp) (fun s b s' h => ?_)
    fun _ => hQ
  cases h
  exact ⟨rfl, fun _ hq => hq⟩

lemma safe_wakeupIntrFrom {l : List (Fin N)}
    (hQ : Q () g) : (intrProtocol N).Safe p Q (wakeupIntrFrom p ch l) g := by
  induction l with
  | nil => exact hQ
  | cons q l ih =>
    by_cases hq : q = p
    · rw [wakeupIntrFrom, if_neg (not_not.mpr hq)]
      exact ih
    rw [wakeupIntrFrom, if_pos hq]
    refine Safe.bind (safe_neutralIntr g (fun s msg h => ?_) (by simp) (fun hg => ⟨hg, rfl⟩)
      (fun s b s' h => ?_) fun _ => ih)
    · split at h
      · cases h
      · split at h <;> cases h
    · split at h
      · cases h
      split at h
      · cases h
        refine ⟨rfl, fun r hr => ?_⟩
        by_cases hrq : r = q
        · subst hrq
          simp at hr
        · simpa [hrq] using hr
      · cases h
        exact ⟨rfl, fun _ hr => hr⟩

lemma safe_killedIntr {Q : Bool → Bool → Prop} (htrue : Q true false) (hfalse : Q false true) :
    (intrProtocol N).Safe p Q (killedIntr p) g := by
  refine safe_atomic trivial (fun s η γ msg _ _ _ hf => ?_) fun s η γ b s' hinv hg _ hf => ?_
  · split at hf <;> cases hf
  split at hf
  · cases hf
  cases hf
  refine ⟨trivial, !s.killed p, ⟨fun hb q hq => ?_, fun hb => IntrInv.asleep hinv hb⟩, ?_⟩
  · show update η.window p true q = true ∧ _
    by_cases hqp : q = p
    · subst hqp
      simpa using hq
    · rw [update_of_ne hqp] at hq ⊢
      exact IntrInv.clean hinv hb q hq
  · cases s.killed p with
    | true => exact htrue
    | false => exact hfalse

lemma safe_sleepIntr (hQ : Q () false) : (intrProtocol N).Safe p Q (sleepIntr p ch lk) true := by
  refine Safe.seq (R := fun _ g => g = true) ?_ ?_
  · refine safe_neutralIntr true (fun s msg h => by cases h) (by simp) (fun hg => ⟨hg, rfl⟩)
      (fun s b s' h => ?_) fun _ => rfl
    cases h
    exact ⟨rfl, fun _ hq => hq⟩
  rintro - g rfl
  refine Safe.seq (R := fun _ g => g = false) ?_ ?_
  · refine safe_atomic trivial (fun s η γ msg _ _ _ hf => by cases hf)
      fun s η γ b s' hinv hg _ hf => ⟨trivial, false, ?_, rfl⟩
    cases hf
    -- the process falls asleep, and the invariant of its window says that it is not marked
    refine ⟨fun hb q hq => ?_, fun hb q hq => ?_⟩
    · have hqp : q ≠ p := by
        rintro rfl
        simp at hq
      rw [update_of_ne hqp] at hq
      obtain ⟨h1, h2⟩ := IntrInv.clean hinv hb q hq
      refine ⟨?_, h2⟩
      show update η.window p _ q = true
      rw [update_of_ne hqp, h1]
    · by_cases hqp : q = p
      · subst hqp
        exact (IntrInv.clean hinv hb q hg).2
      · exact IntrInv.asleep hinv hb q (by simpa [hqp] using hq)
  rintro - g rfl
  refine Safe.seq (R := fun _ g => g = false) ?_ ?_
  · refine safe_neutralIntr false (fun s msg h => ?_) (by simp) (by simp) (fun s b s' h => ?_) fun _ => rfl
    · split at h <;> cases h
    · split at h
      · cases h
        refine ⟨rfl, fun q hq => ?_⟩
        by_cases hqp : q = p
        · subst hqp
          simp at hq
        · simpa [hqp] using hq
      · cases h
  rintro - g rfl
  exact safe_acquireIntr hQ

lemma safe_killIntr {q : Fin N} (hQ : Q () false) :
    (intrProtocol N).Safe p Q (killIntr q) false := by
  refine safe_atomic trivial (fun s η γ msg _ _ _ hf => ?_) fun s η γ b s' hinv hg _ hf => ?_
  · split at hf <;> cases hf
  split at hf
  · cases hf
  cases hf
  refine ⟨trivial, false, ⟨fun hb r hr => ?_, fun hb r hr => ?_⟩, hQ⟩
  all_goals
    have hb' : (η.bad || η.window q) = false := hb
    rw [Bool.or_eq_false_iff] at hb'
  · have hrp : r ≠ p := by
      rintro rfl
      simp at hr
    rw [update_of_ne hrp] at hr
    obtain ⟨h1, h2⟩ := IntrInv.clean hinv hb'.1 r hr
    have hrq : r ≠ q := by
      rintro rfl
      rw [h1] at hb'
      exact absurd hb'.2 (by simp)
    constructor
    · show update η.window p _ r = true
      rw [update_of_ne hrp, h1]
    · show update s.killed q true r = false
      rw [update_of_ne hrq, h2]
  · have hrq : r ≠ q := by
      rintro rfl
      simp only at hr
      split at hr
      · simp at hr
      · rename_i hst
        exact hst hr
    have hr' : s.state r = .SLEEPING := by
      simp only at hr
      split at hr
      · rwa [update_of_ne hrq] at hr
      · exact hr
    show update s.killed q true r = false
    rw [update_of_ne hrq]
    exact IntrInv.asleep hinv hb'.1 r hr'

end Rules

/-! ## The loops -/

section Loops

variable {p : Fin N} {g : Bool}

abbrev IntrDone : Unit → Bool → Prop := fun _ _ => True

lemma safe_sleepLoop {cond : IntrData → Bool} {after : IntrProg N Unit}
    (hafter : ∀ g, (intrProtocol N).Safe p IntrDone after g) :
    (intrProtocol N).Safe p IntrDone (sleepLoop p ch lk cond after rounds) g := by
  induction rounds generalizing g with
  | zero => exact safe_haltIntr
  | succ rounds ih =>
    refine Safe.bind (safe_lookIntr fun b => ?_)
    cases b with
    | true =>
      refine Safe.bind (safe_killedIntr ?_ ?_)
      · exact safe_releaseIntr trivial
      · exact Safe.bind (safe_sleepIntr ih)
    | false => exact hafter g

lemma safe_wakeupRelease :
    (intrProtocol N).Safe p IntrDone (do wakeupIntr p ch; releaseIntr lk) g :=
  Safe.bind (safe_wakeupIntrFrom (safe_releaseIntr trivial))

lemma safe_readCopyIntr : (intrProtocol N).Safe p IntrDone (readCopyIntr p k) g := by
  induction k generalizing g with
  | zero => exact safe_wakeupRelease
  | succ k ih =>
    refine Safe.bind (safe_lookIntr fun b => ?_)
    cases b with
    | true => exact safe_wakeupRelease
    | false =>
      refine Safe.bind (safe_editIntr (Safe.bind (safe_pickBool trivial fun b => ?_)))
      cases b with
      | true => exact ih
      | false => exact safe_wakeupRelease

lemma safe_pipewriteIntrFrom :
    (intrProtocol N).Safe p IntrDone (pipewriteIntrFrom p rounds k) g := by
  induction rounds generalizing g k with
  | zero => exact safe_haltIntr
  | succ rounds ih =>
    rcases k with _ | k
    · exact safe_wakeupRelease
    refine Safe.bind (safe_lookIntr fun gone => ?_)
    cases gone with
    | true => exact safe_releaseIntr trivial
    | false =>
      refine Safe.bind (safe_killedIntr (safe_releaseIntr trivial) ?_)
      refine Safe.bind (safe_lookIntr fun full => ?_)
      cases full with
      | true => exact Safe.bind (safe_wakeupIntrFrom (Safe.bind (safe_sleepIntr ih)))
      | false =>
        refine Safe.bind (safe_pickBool trivial fun valid => ?_)
        cases valid with
        | true => exact Safe.bind ⟨trivial, fun ch => safe_ret (Safe.bind (safe_editIntr ih))⟩
        | false => exact safe_wakeupRelease

lemma safe_waitIntrFrom : (intrProtocol N).Safe p IntrDone (waitIntrFrom p rounds) g := by
  induction rounds generalizing g with
  | zero => exact safe_haltIntr
  | succ rounds ih =>
    refine Safe.bind (safe_pickBool trivial fun kids => ?_)
    cases kids with
    | true => exact Safe.bind (safe_killedIntr (safe_releaseIntr trivial)
        (Safe.bind (safe_sleepIntr ih)))
    | false => exact safe_releaseIntr trivial

lemma safe_consolereadFrom {n : ℕ} :
    (intrProtocol N).Safe p IntrDone (consolereadFrom p rounds n) g := by
  induction n generalizing g with
  | zero => exact safe_releaseIntr trivial
  | succ n ih =>
    refine safe_sleepLoop fun g => Safe.bind (safe_editIntr (Safe.bind (safe_pickBool trivial
      fun more => ?_)))
    cases more with
    | true => exact ih
    | false =>
      refine Safe.bind (safe_pickBool trivial fun back => ?_)
      cases back with
      | true => exact Safe.bind (safe_editIntr (safe_releaseIntr trivial))
      | false => exact safe_releaseIntr trivial

lemma safe_announce : (intrProtocol N).Safe p IntrDone (announce p lk f ch) g :=
  Safe.bind (safe_acquireIntr (Safe.bind (safe_editIntr safe_wakeupRelease)))

end Loops

lemma intrMachine_verified (N : ℕ) : (intrProtocol N).Verified (intrMachine N) where
  start s η γ p x hinv hidle _ := by
    refine ⟨false, by rwa [← (show γ p = false from hidle), update_eq_self], ?_⟩
    cases x with
    | piperead n rounds =>
      exact Safe.bind (safe_acquireIntr (safe_sleepLoop fun g => safe_readCopyIntr))
    | pipewrite n rounds => exact Safe.bind (safe_acquireIntr safe_pipewriteIntrFrom)
    | wait rounds => exact Safe.bind (safe_acquireIntr safe_waitIntrFrom)
    | consoleread n rounds => exact Safe.bind (safe_acquireIntr safe_consolereadFrom)
    | sleep n rounds =>
      exact Safe.bind (safe_acquireIntr (Safe.bind (safe_lookIntr fun ticks0 =>
        safe_sleepLoop fun g => safe_releaseIntr trivial)))
    | pipeclose writable => exact safe_announce
    | exit q => exact safe_announce
    | consoleintr w => exact safe_announce
    | clockintr => exact safe_announce
    | kill q => exact safe_killIntr trivial
  finish s η γ p hinv _ := by
    refine ⟨fun hb q hq => ?_, IntrInv.asleep hinv⟩
    have hqp : q ≠ p := by
      rintro rfl
      simp [intrProtocol] at hq
    rw [update_of_ne hqp] at hq
    exact IntrInv.clean hinv hb q hq

/-! ## Runs -/

/-- After the run the process `p` has tested for a kill and does not sleep yet. -/
def inWindow (p : Fin N) (tr : List (Fin N × IntrAct N)) : Bool :=
  tr.foldl (fun b e => if e.1 = p then e.2.window b else b) false

lemma intr_hist (h : ∀ t k q u, tr = t ++ (k, IntrAct.kill q) :: u → inWindow q t = false) :
    (intrProtocol N).hist ⟨fun _ => false, false⟩ tr = ⟨fun p => inWindow p tr, false⟩ := by
  induction tr using List.reverseRecOn with
  | nil => rfl
  | append_singleton tr e ih =>
    obtain ⟨p, l⟩ := e
    rw [hist_append, ih fun t k q u ht => h t k q (u ++ [(p, l)]) (by simp [ht]), hist_singleton]
    have hwin : update (fun q => inWindow q tr) p (l.window (inWindow p tr)) =
        fun q => inWindow q (tr ++ [(p, l)]) := by
      funext q
      rw [update_apply]
      by_cases hq : q = p
      · subst hq
        simp [inWindow]
      · simp [inWindow, hq, Ne.symm hq]
    refine congrArg₂ IntrHist.mk hwin ?_
    cases l with
    | kill q =>
      show (false || inWindow q tr) = false
      rw [h tr p q [] rfl, Bool.false_or]
    | _ => rfl

/-- A killed process is not asleep in a loop that tests for a kill: in every run in which no `kill` hits
a process between the test in its loop and the moment at which it is `SLEEPING`, no process is marked and
asleep. -/
theorem killed_not_asleep {data : IntrData} {killed : Fin N → Bool}
    {tr : List (Fin N × IntrAct N)} {c : Config (IntrSys N) (IntrAct N) (Fin N)}
    (hex : Exec (intrMachine N) anyAction (.idle (.init data killed)) tr c)
    (hkill : ∀ t k q u, tr = t ++ (k, IntrAct.kill q) :: u → inWindow q t = false) (p : Fin N) :
    ¬(c.st.killed p = true ∧ c.st.state p = .SLEEPING) := by
  have hinit : IntrInv (IntrSys.init data killed) ⟨fun _ => false, false⟩ fun _ => false :=
    ⟨fun _ _ hq => Bool.noConfusion hq, fun _ _ hq => ProcState.noConfusion hq⟩
  have hH := (intrMachine_verified N).exec (.idle hinit) hex
  rw [intr_hist hkill] at hH
  obtain ⟨γ, hinv, -⟩ := hH.ghost
  rintro ⟨hk, hst⟩
  rw [hinv.asleep rfl p hst] at hk
  cases hk

instance (s : IntrSys N) (p : Fin N) (x : (intrMachine N).Call) :
    Decidable ((intrMachine N).ready s p x) := inferInstanceAs (Decidable True)

/-- The test that no `kill` of the run hits a process in its window. -/
def killsOutside (tr : List (Fin N × IntrAct N)) : Bool :=
  (List.range tr.length).all fun i => match tr[i]? with
    | some (_, .kill q) => !inWindow q (tr.take i)
    | _ => true

lemma inWindow_of_killsOutside (h : killsOutside tr = true) :
    ∀ t k q u, tr = t ++ (k, IntrAct.kill q) :: u → inWindow q t = false := by
  rintro t k q u rfl
  rw [killsOutside, List.all_eq_true] at h
  simpa using h t.length (by simp)

def sleeper : Fin 6 := 0

def slayer : Fin 6 := 1

def IntrData.init : IntrData := ⟨.new fun _ => 0, 0, 0, 0⟩

/-- A reader sleeps on an empty pipe and is killed: it is woken. -/
theorem killed_not_asleep_reader : ∃ tr c,
    Exec (intrMachine 6) anyAction (.idle (.init .init fun _ => false)) tr c ∧
      c.st.killed sleeper = true ∧ ¬(c.st.killed sleeper = true ∧ c.st.state sleeper = .SLEEPING) := by
  have hplay : (Config.idle (IntrSys.init .init fun _ => false)).playTest (intrMachine 6)
      ((.start sleeper (.piperead 1 1) :: List.replicate 5 (.go sleeper 0)) ++
        [.start slayer (.kill sleeper), .go slayer 0])
      (fun tr d => d.st.killed sleeper && killsOutside tr) = true := by
    decide +kernel
  obtain ⟨tr, c, hex, htest⟩ := Config.exists_of_playTest hplay
  rw [Bool.and_eq_true] at htest
  exact ⟨tr, c, hex, htest.1, killed_not_asleep hex (inWindow_of_killsOutside htest.2) sleeper⟩

/-- A reader finds the pipe empty and itself not killed.  Before it sleeps, it is killed, and the `kill`
is over: the reader is `RUNNING` and is not woken.  Then it goes to sleep on `&pi->nread`. -/
theorem killed_reader_asleep : ∃ tr c,
    Exec (intrMachine 6) anyAction (.idle (.init .init fun _ => false)) tr c ∧
      c.run slayer = none ∧ c.st.killed sleeper = true ∧ c.st.state sleeper = .SLEEPING ∧
      c.st.chan sleeper = some .nread := by
  have hplay : (Config.idle (IntrSys.init .init fun _ => false)).playTest (intrMachine 6)
      ([.start sleeper (.piperead 1 1), .go sleeper 0, .go sleeper 0, .go sleeper 0,
        .start slayer (.kill sleeper), .go slayer 0, .go slayer 0, .go sleeper 0, .go sleeper 0])
      (fun _ d => (d.run slayer).isNone && d.st.killed sleeper && d.st.state sleeper == .SLEEPING &&
        d.st.chan sleeper == some .nread) = true := by
    decide +kernel
  obtain ⟨tr, c, hex, htest⟩ := Config.exists_of_playTest hplay
  simp only [Bool.and_eq_true, Option.isNone_iff_eq_none, beq_iff_eq] at htest
  obtain ⟨⟨⟨hrun, hk⟩, hst⟩, hch⟩ := htest
  exact ⟨tr, c, hex, hrun, hk, hst, hch⟩

end Xv6
