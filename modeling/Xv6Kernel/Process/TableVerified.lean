import Xv6Kernel.Process.TableSteps

/-!
# The programs on the process table are safe

What a process learns under `wait_lock`, the rules of the program logic for the actions on the
process table, and with them the safety of `fork`, `exit`, `wait`, `kill` and `setkilled`.
-/

namespace Xv6

open Protocol Function

variable {N : ℕ} {initproc p i : Fin N}
variable {l : List (Fin N)} {Q : Unit → TableGhost N → Prop}
variable {fault : Bool} {status pid : ℤ}

namespace TableInv

variable {s : ProcTable N} {η : TableHist N} {γ : Fin N → TableGhost N} {r : ProcSlot N}

section

variable (h : TableInv initproc s η γ)
include h

lemma learn {g : TableGhost N} (hlk : g.lk = (γ p).lk)
    (hwait : g.wait = (γ p).wait) (hact : g.act = (γ p).act) (hfork : g.fork = (γ p).fork)
    (hph : g.phase = (γ p).phase) (hpass : g.passed = (γ p).passed)
    (horph : ∀ i, i ∈ g.orphaned → p ≠ initproc ∧ s.parent i ≠ some p)
    (hkid : ∀ i, g.kid = some i → g.wait = true ∧ s.parent i = some p)
    (hpar : ∀ x, g.par = some x → g.wait = true ∧ g.act = true ∧ s.parent p = x)
    (hseen : ∀ i, i ∈ g.seen → g.wait = true ∧ ¬(s.parent i = some p ∧ (s.slot i).state = .ZOMBIE))
    (hclear : ∀ i, i ∈ g.clear → g.wait = true ∧ ¬s.Committed γ i)
    (hdead : ∀ i, g.dead = some i → g.wait = true ∧ (s.slot i).state = .ZOMBIE)
    (howe : g.owe = (γ p).owe ∨ ¬s.Committed γ initproc) : TableInv initproc s η (update γ p g) := by
  obtain ⟨⟨l1, l2, l3, l4⟩, ⟨t1, t2, t3, t4, t5, t6, t7, t8, t9, t10⟩, ⟨s1, s2, s3, s4, s5⟩, hd⟩ := h
  have hp : ∀ {β : Type} (f : TableGhost N → β), f g = f (γ p) →
      ∀ r, f (update γ p g r) = f (γ r) := by
    intro β f hf r
    by_cases hr : r = p
    · subst hr
      simpa using hf
    · simp [hr]
  have hlk' := hp TableGhost.lk hlk
  have hwait' := hp TableGhost.wait hwait
  have hact' := hp TableGhost.act hact
  have hfork' := hp TableGhost.fork hfork
  have hph' := hp TableGhost.phase hph
  have hcom : ∀ q, s.Committed (update γ p g) q ↔ s.Committed γ q := by
    intro q
    unfold ProcTable.Committed
    rw [hph']
  have hcase : ∀ {P : Fin N → TableGhost N → Prop}, P p g → (∀ r, P r (γ r)) →
      ∀ r, P r (update γ p g r) := by
    intro P hPp hP r
    by_cases hr : r = p
    · subst hr
      simpa using hPp
    · simpa [hr] using hP r
  refine ⟨⟨?_, ?_, ?_, ?_⟩, ⟨t1, t2, t3, t4, ?_, ?_, ?_, ?_, ?_, ?_⟩, ⟨?_, ?_, ?_, ?_, ?_⟩,
    hd.keep rfl rfl hpass⟩
  · simpa only [hlk'] using l1
  · simpa only [hlk'] using l2
  · simpa only [hwait'] using l3
  · simpa only [hph', hlk'] using l4
  · simpa only [hact'] using t5
  · simpa only [hfork'] using t6
  · simpa only [hfork'] using t7
  · exact hcase (P := fun r g => ∀ i, i ∈ g.orphaned → r ≠ initproc ∧ s.parent i ≠ some r) horph t8
  · exact hcase (P := fun r g => ∀ i, g.kid = some i → g.wait = true ∧ s.parent i = some r) hkid t9
  · exact hcase (P := fun r g => ∀ x, g.par = some x →
      g.wait = true ∧ g.act = true ∧ s.parent r = x) hpar t10
  · simpa only [hph'] using s1
  · exact hcase (P := fun r g => ∀ i, i ∈ g.seen →
      g.wait = true ∧ ¬(s.parent i = some r ∧ (s.slot i).state = .ZOMBIE)) hseen s2
  · simp only [hcom]
    exact hcase (P := fun r g => ∀ i, i ∈ g.clear → g.wait = true ∧ ¬s.Committed γ i) hclear s3
  · exact hcase (P := fun r g => ∀ i, g.dead = some i →
      g.wait = true ∧ (s.slot i).state = .ZOMBIE) hdead s4
  · intro q i hc hpi hst
    rw [hcom] at hc
    obtain ⟨rfl, hw, ho⟩ := s5 q i hc hpi hst
    obtain howe | hn := howe
    · refine ⟨rfl, hw, ?_⟩
      simpa only [hp TableGhost.owe howe] using ho
    · exact absurd hc hn

lemma not_committed {q : Fin N} (hlk : (γ p).lk = some (q, r))
    (hst : r.state ≠ .SLEEPING) (hne : q ≠ p) : ¬s.Committed γ q := by
  rintro (hd | hs)
  · obtain ⟨r', hr'⟩ := h.lock.doze q hd
    exact hne (h.lock.uniq q p q r' r hr' hlk)
  · rw [(h.lock.snap p q r hlk).2] at hs
    exact hst hs

lemma learnOrphan (hne : p ≠ initproc) (hi : s.parent i ≠ some p) :
    TableInv initproc s η
      (update γ p { γ p with orphaned := insert i (γ p).orphaned }) := by
  refine h.learn rfl rfl rfl rfl rfl rfl (fun x hx => ?_) (h.tree.kid p) (h.tree.par p)
    (h.sleep.seen p) (h.sleep.clear p) (h.sleep.dead p) (.inl rfl)
  obtain rfl | hx := Set.mem_insert_iff.mp hx
  · exact ⟨hne, hi⟩
  · exact h.tree.orphaned p x hx

section

variable (hw : (γ p).wait = true)
include hw

lemma learnKid (hi : s.parent i = some p) :
    TableInv initproc s η (update γ p { γ p with kid := some i }) := by
  refine h.learn rfl rfl rfl rfl rfl rfl (h.tree.orphaned p) (fun x hx => ?_) (h.tree.par p)
    (h.sleep.seen p) (h.sleep.clear p) (h.sleep.dead p) (.inl rfl)
  rw [← Option.some.inj hx]
  exact ⟨hw, hi⟩

lemma learnParent (hact : (γ p).act = true) :
    TableInv initproc s η (update γ p { γ p with par := some (s.parent p) }) :=
  h.learn rfl rfl rfl rfl rfl rfl (h.tree.orphaned p) (h.tree.kid p)
    (fun _ hx => ⟨hw, hact, Option.some.inj hx⟩) (h.sleep.seen p) (h.sleep.clear p) (h.sleep.dead p)
    (.inl rfl)

lemma learnSeen (hi : ¬(s.parent i = some p ∧ (s.slot i).state = .ZOMBIE)) :
    TableInv initproc s η
      (update γ p { γ p with seen := insert i (γ p).seen, kid := none }) := by
  refine h.learn rfl rfl rfl rfl rfl rfl (h.tree.orphaned p) (fun x hx => by cases hx) (h.tree.par p)
    (fun x hx => ?_) (h.sleep.clear p) (h.sleep.dead p) (.inl rfl)
  obtain rfl | hx := Set.mem_insert_iff.mp hx
  · exact ⟨hw, hi⟩
  · exact h.sleep.seen p x hx

lemma learnClear (hlk : (γ p).lk = some (i, r)) (hst : r.state ≠ .SLEEPING) (hne : i ≠ p) :
    TableInv initproc s η (update γ p { γ p with
      clear := insert i (γ p).clear, owe := if i = initproc then false else (γ p).owe }) := by
  have hnc := h.not_committed hlk hst hne
  refine h.learn rfl rfl rfl rfl rfl rfl (h.tree.orphaned p) (h.tree.kid p) (h.tree.par p)
    (h.sleep.seen p) (fun x hx => ?_) (h.sleep.dead p) ?_
  · obtain rfl | hx := Set.mem_insert_iff.mp hx
    · exact ⟨hw, hnc⟩
    · exact h.sleep.clear p x hx
  · by_cases hi : i = initproc
    · exact .inr (hi ▸ hnc)
    · exact .inl (if_neg hi)

lemma learnDead (hlk : (γ p).lk = some (i, r)) (hst : r.state = .ZOMBIE) :
    TableInv initproc s η (update γ p { γ p with dead := some i }) := by
  refine h.learn rfl rfl rfl rfl rfl rfl (h.tree.orphaned p) (h.tree.kid p) (h.tree.par p)
    (h.sleep.seen p) (h.sleep.clear p) (fun x hx => ⟨hw, ?_⟩) (.inl rfl)
  rw [← Option.some.inj hx, (h.lock.snap p i r hlk).2, hst]

end

lemma start (hst : (s.slot p).state.Alive) :
    TableInv initproc s η (update γ p { γ p with act := true }) := by
  obtain ⟨⟨l1, l2, l3, l4⟩, ⟨t1, t2, t3, t4, t5, t6, t7, t8, t9, t10⟩, ⟨s1, s2, s3, s4, s5⟩, hd⟩ := h
  refine ⟨⟨?_, ?_, ?_, ?_⟩, ⟨t1, t2, t3, t4, ?_, ?_, ?_, ?_, ?_, ?_⟩, ⟨?_, ?_, ?_, ?_, ?_⟩,
    hd.keep rfl rfl rfl⟩ <;>
    simp only [update_apply, ProcTable.Committed] at * <;> grind

lemma finish (hw : (γ p).wait = false)
    (hph : (γ p).phase = .run) : TableInv initproc s η (update γ p .idle) := by
  obtain ⟨⟨l1, l2, l3, l4⟩, ⟨t1, t2, t3, t4, t5, t6, t7, t8, t9, t10⟩, ⟨s1, s2, s3, s4, s5⟩, hd⟩ := h
  refine ⟨⟨?_, ?_, ?_, ?_⟩, ⟨t1, t2, t3, t4, ?_, ?_, ?_, ?_, ?_, ?_⟩, ⟨?_, ?_, ?_, ?_, ?_⟩,
    ⟨hd.zombie, hd.pids, fun q l hl => hd.passed q l ?_⟩⟩ <;>
    simp only [update_apply, ProcTable.Committed] at * <;> grind [TableGhost.idle]

lemma setPassed {l : List (ℤ × Fin N)} :
    TableInv initproc s { η with passed := update η.passed p l }
      (update γ p { γ p with passed := some l }) := by
  obtain ⟨⟨l1, l2, l3, l4⟩, ⟨t1, t2, t3, t4, t5, t6, t7, t8, t9, t10⟩, ⟨s1, s2, s3, s4, s5⟩, hd⟩ := h
  refine ⟨⟨?_, ?_, ?_, ?_⟩, ⟨t1, t2, t3, t4, ?_, ?_, ?_, ?_, ?_, ?_⟩, ⟨?_, ?_, ?_, ?_, ?_⟩,
    ⟨hd.zombie, fun hz hb => ⟨(hd.pids hz hb).next, (hd.pids hz hb).unused, (hd.pids hz hb).pos,
      (hd.pids hz hb).inj, (hd.pids hz hb).signalled⟩, fun q l' hl => ?_⟩⟩
  case refine_16 =>
    have hq := hd.passed q l'
    show update η.passed p l q = l'
    rw [update_apply] at hl ⊢
    grind
  all_goals
    simp only [update_apply, ProcTable.Committed] at *
    grind

end

end TableInv

def tableProtocol (initproc : Fin N) :
    Protocol (ProcTable N) (TableAct N) (Fin N) (TableGhost N) (TableHist N) where
  inv := TableInv initproc
  upd := TableHist.upd
  ok _ _ _ := True
  guar s η p l s' := TableGuar s η p l s'
  view _ _ := True
  rest _ := True
  tol msg := msg = "init exiting"
  idle := .idle
  fin g := g.lk = none ∧ g.wait = false ∧ g.phase = .run

/-! ## Rules for the actions -/

section Rules

variable {g : TableGhost N} {r : ProcSlot N}

lemma safe_lockProc {Q : ProcSlot N → TableGhost N → Prop} (hlk : g.lk = none)
    (hQ : ∀ r : ProcSlot N, (r.state = .SLEEPING → r.chan = some i) →
      Q r { g with lk := some (i, r) }) :
    (tableProtocol initproc).Safe p Q (lockProc i) g := by
  refine safe_atomic trivial (fun s η γ msg _ _ _ hf => ?_) fun s η γ b s' hinv hg _ hf => ?_
  · split at hf <;> cases hf
  · split at hf
    · cases hf
    rename_i hpl
    cases hf
    subst hg
    exact ⟨trivial, _, TableInv.lockProc hinv hlk (by simpa using hpl),
      hQ _ fun hst => ((TableInv.sleep hinv).asleep i hst).2⟩

lemma safe_unlockProc (hlk : g.lk = some (i, r))
    (hph : g.phase ≠ .doze) (hQ : Q () { g with lk := none }) :
    (tableProtocol initproc).Safe p Q (unlockProc (.unlock i) i) g := by
  refine safe_update trivial fun s η γ hinv hg _ => ?_
  subst hg
  exact ⟨trivial, _, TableInv.unlockProc hinv hlk hph, hQ⟩

lemma safe_setProc {l : TableAct N} {f : ProcSlot N → ProcSlot N} (g' : TableGhost N)
    (hlk : g.lk = some (i, r))
    (hstep : ∀ s η γ, TableInv initproc s η γ → γ p = g → TableInv initproc
      { s with slot := update s.slot i (f r) } (η.upd p l) (update γ p g'))
    (hguar : ∀ s η, s.slot i = r →
      TableGuar s η p l { s with slot := update s.slot i (f r) })
    (hQ : Q () g') : (tableProtocol initproc).Safe p Q (setProc l i f) g := by
  refine safe_atomic trivial (fun s η γ msg _ _ _ hf => by cases hf) fun s η γ b s' hinv hg _ hf => ?_
  have hr : s.slot i = r := ((TableInv.lock hinv).snap p i r (by rw [hg, hlk])).2
  cases hf
  rw [hr]
  exact ⟨hguar s η hr, g', hstep s η γ hinv hg, hQ⟩

lemma safe_acquireWait (hQ : Q () { g with wait := true }) :
    (tableProtocol initproc).Safe p Q (acquireWait p) g := by
  refine safe_atomic trivial (fun s η γ msg _ _ _ hf => ?_) fun s η γ b s' hinv hg _ hf => ?_
  · split at hf <;> cases hf
  · split at hf
    · rename_i hw
      cases hf
      subst hg
      exact ⟨trivial, _, TableInv.acquireWait hinv hw, hQ⟩
    · cases hf

/-- What is left to a process that has released `wait_lock`. -/
def TableGhost.unwait (g : TableGhost N) : TableGhost N :=
  { g with wait := false, kid := none, par := none, seen := ∅, clear := ∅, dead := none }

lemma safe_releaseWait (hw : g.wait = true) (howe : g.owe = false) (hQ : Q () g.unwait) :
    (tableProtocol initproc).Safe p Q (releaseWait .waitRelease) g := by
  refine safe_update trivial fun s η γ hinv hg _ => ?_
  subst hg
  exact ⟨trivial, _, TableInv.releaseWait hinv hw howe, hQ⟩

lemma safe_waitFault (hw : g.wait = true) (howe : g.owe = false) (hdead : g.dead = some i)
    (hQ : Q () g.unwait) : (tableProtocol initproc).Safe p Q (releaseWait (.waitFault i)) g := by
  refine safe_update trivial fun s η γ hinv hg _ => ?_
  subst hg
  exact ⟨((TableInv.sleep hinv).dead p i hdead).2, _, TableInv.releaseWait hinv hw howe, hQ⟩

lemma safe_lookParent {Q : Option (Fin N) → TableGhost N → Prop}
    (hQ : ∀ s η γ, TableInv initproc s η γ → γ p = g →
      ∃ g', TableInv initproc s η (update γ p g') ∧ Q (s.parent i) g') :
    (tableProtocol initproc).Safe p Q (lookParent i) g := by
  refine safe_update trivial fun s η γ hinv hg _ => ?_
  exact ⟨trivial, hQ s η γ hinv hg⟩

lemma safe_learn {α : Type} {Q : α → TableGhost N → Prop} {l : TableAct N} {β : Type}
    {f : ProcTable N → Outcome (ProcTable N) β} {k : β → TableProg N α} (g' : TableGhost N)
    (hlearn : ∀ s η γ, TableInv initproc s η γ → γ p = g → TableInv initproc s η (update γ p g'))
    (h : (tableProtocol initproc).Safe p Q (.act l f k) g') :
    (tableProtocol initproc).Safe p Q (.act l f k) g := by
  refine ⟨trivial, fun s η γ hinv hg hok => ?_⟩
  have hs := h.2 s η _ (hlearn s η γ hinv hg) (update_self ..) hok
  simpa only [update_idem] using hs

end Rules

section Functions

variable {g : TableGhost N}

lemma safe_haltTable : (tableProtocol initproc).Safe p Q (.atomic .halt fun _ => .blocked) g :=
  safe_atomic trivial (fun s η γ msg _ _ _ hf => by cases hf) fun s η γ b s' _ _ _ hf => by cases hf

/-- The loop of `wakeup` under `wait_lock`: nobody whose channel it was and whom it has passed sleeps
in `wait`. -/
lemma safe_wakeupProcs {ch : Option (Fin N)} (hlk : g.lk = none) (hw : g.wait = true)
    (hph : g.phase = .run)
    (hQ : ∀ (c : Set (Fin N)) (o : Bool), g.clear ⊆ c → (∀ q ∈ l, q ≠ p → ch = some q → q ∈ c) →
      (g.owe = false → o = false) → (initproc ∈ l → initproc ≠ p → ch = some initproc → o = false) →
      Q () { g with lk := none, clear := c, owe := o }) :
    (tableProtocol initproc).Safe p Q (wakeupProcs p ch l) g := by
  induction l generalizing g with
  | nil =>
    have hg := hQ g.clear g.owe subset_rfl (by simp) id (by simp)
    rwa [← hlk] at hg
  | cons q l ih =>
    by_cases hq : q = p
    · rw [wakeupProcs, if_neg (not_not.mpr hq)]
      refine ih hlk hw hph fun c o h1 h2 h3 h4 => hQ c o h1 (fun x hx hxp => ?_) h3 fun hx hxp => ?_
      · exact h2 x ((List.mem_cons.mp hx).resolve_left (hq ▸ hxp)) hxp
      · exact h4 ((List.mem_cons.mp hx).resolve_left (hq ▸ hxp)) hxp
    rw [wakeupProcs, if_pos hq]
    refine Safe.bind (safe_lockProc hlk fun r hchan => ?_)
    -- what is left to do once it is known that `q` does not sleep on this channel
    have hnext : ∀ r : ProcSlot N, (ch = some q → r.state ≠ .SLEEPING) →
        (tableProtocol initproc).Safe p Q (unlockProc (.unlock q) q >>= fun _ => wakeupProcs p ch l)
          { g with lk := some (q, r) } := by
      intro r hr
      by_cases hch : ch = some q
      · refine Safe.bind (safe_learn { g with
            lk := some (q, r), clear := insert q g.clear,
            owe := if q = initproc then false else g.owe } (fun s η γ hinv hg => ?_)
          (safe_unlockProc rfl (by simp [hph]) ?_))
        · have hI := hinv.learnClear (p := p) (i := q) (r := r) (by rw [hg]; exact hw) (by rw [hg])
            (hr hch) hq
          rwa [hg] at hI
        · refine ih rfl hw hph fun c o h1 h2 h3 h4 => hQ c o (fun x hx => h1 (.inr hx))
            (fun x hx hxp hxc => ?_) (fun ho => h3 (by simp [ho])) fun hx hxp hxc => ?_
          · obtain rfl | hx := List.mem_cons.mp hx
            · exact h1 (.inl rfl)
            · exact h2 x hx hxp hxc
          · have hqi : q = initproc := Option.some.inj (hch.symm.trans hxc)
            exact h3 (by simp [hqi])
      · refine Safe.bind (safe_unlockProc rfl (by simp [hph]) ?_)
        refine ih rfl hw hph fun c o h1 h2 h3 h4 => hQ c o h1 (fun x hx hxp hxc => ?_) h3
          fun hx hxp hxc => ?_
        · obtain rfl | hx := List.mem_cons.mp hx
          · exact absurd hxc hch
          · exact h2 x hx hxp hxc
        · obtain rfl | hx := List.mem_cons.mp hx
          · exact absurd hxc hch
          · exact h4 hx hxp hxc
    split
    · rename_i hst
      refine Safe.bind (safe_setProc { g with lk := some (q, { r with state := .RUNNABLE }) } rfl
        (fun s η γ hinv hg => ?_) (fun s η _ => trivial) (hnext _ (by simp)))
      have hI := hinv.wake (p := p) (i := q) (r := r) (by rw [hg]) hst.1
      rwa [hg] at hI
    · rename_i hst
      exact hnext r fun hch hs => hst ⟨hs, hch ▸ hchan hs⟩

lemma safe_reparentFrom (hne : p ≠ initproc) (hlk : g.lk = none) (hw : g.wait = true)
    (hph : g.phase = .run) (hkid : g.kid = none) (hpar : g.par = none) (hseen : g.seen = ∅)
    (howe : g.owe = false)
    (hQ : ∀ o c : Set (Fin N), g.orphaned ⊆ o → (∀ i ∈ l, i ∈ o) →
      Q () { g with lk := none, kid := none, owe := false, orphaned := o, clear := c }) :
    (tableProtocol initproc).Safe p Q (reparentFrom initproc p l) g := by
  induction l generalizing g with
  | nil =>
    have hg := hQ g.orphaned g.clear subset_rfl (by simp)
    rw [← howe] at hg
    obtain ⟨lk, w, a, f, o, k, x, v, c, d, e, φ, m⟩ := g
    simp only at hlk hkid
    subst hlk hkid
    exact hg
  | cons i l ih =>
    refine Safe.bind (safe_lookParent fun s η γ hinv hg => ?_)
    by_cases hi : s.parent i = some p
    · refine ⟨{ g with kid := some i }, ?_, ?_⟩
      · subst hg
        exact hinv.learnKid hw hi
      · rw [if_pos hi]
        refine Safe.bind (safe_update trivial fun s η γ hinv hg _ => ?_)
        have hI := TableInv.reparent hinv (p := p) (i := i) (by rw [hg]) hne (by rw [hg]; exact hpar)
          (by rw [hg]; exact hseen)
        rw [hg] at hI
        refine ⟨trivial, _, hI, Safe.bind (safe_wakeupProcs hlk hw hph fun c o _ _ _ ho => ?_)⟩
        have ho' := ho (List.mem_finRange _) hne.symm rfl
        subst ho'
        refine ih rfl hw hph rfl hpar hseen rfl fun o c hsub hall => hQ o c
          (fun x hx => hsub (.inr hx)) fun x hx => ?_
        obtain rfl | hx := List.mem_cons.mp hx
        · exact hsub (.inl rfl)
        · exact hall x hx
    · refine ⟨{ g with orphaned := insert i g.orphaned }, ?_, ?_⟩
      · subst hg
        exact hinv.learnOrphan hne hi
      · rw [if_neg hi]
        refine ih hlk hw hph hkid hpar hseen howe fun o c hsub hall => hQ o c
          (fun x hx => hsub (.inr hx)) fun x hx => ?_
        obtain rfl | hx := List.mem_cons.mp hx
        · exact hsub (.inl rfl)
        · exact hall x hx

lemma safe_zombie {x : Option (Fin N)} {r : ProcSlot N} (hlk : g.lk = some (p, r))
    (hw : g.wait = true) (hact : g.act = true) (ho : ∀ i, i ∈ g.orphaned) (hpar : g.par = some x)
    (hx : ∀ q, x = some q → q = p ∨ q ∈ g.clear) (hph : g.phase = .run) (hf : g.fork = none)
    (hseen : g.seen = ∅)
    (hQ : Q () { g with
      lk := some (p, { r with xstate := status, state := .ZOMBIE }), act := false, par := none }) :
    (tableProtocol initproc).Safe p Q
      (setProc (.zombie status) p fun r => { r with xstate := status, state := .ZOMBIE }) g := by
  refine safe_setProc _ hlk (fun s η γ hinv hg => ?_) (fun s η _ => trivial) hQ
  subst hg
  exact hinv.zombie hlk hw hact ho hpar hx hph hf hseen

lemma safe_readyProc {r : ProcSlot N} (hlk : g.lk = some (i, r)) (hf : g.fork = some (i, true))
    (hQ : Q () { g with lk := some (i, { r with state := .RUNNABLE }), fork := none }) :
    (tableProtocol initproc).Safe p Q
      (setProc (.ready i) i fun r => { r with state := .RUNNABLE }) g := by
  refine safe_setProc _ hlk (fun s η γ hinv hg => ?_) (fun s η _ => trivial) hQ
  subst hg
  exact hinv.ready hlk hf

lemma safe_exit (hact : g.act = true) (hlk : g.lk = none) (hph : g.phase = .run)
    (hkid : g.kid = none) (hpar : g.par = none) (hseen : g.seen = ∅) (howe : g.owe = false)
    (hfork : g.fork = none) :
    (tableProtocol initproc).Safe p (fun _ g' => (tableProtocol initproc).fin g')
      (exit initproc p status) g := by
  refine Safe.seq (R := fun _ g' => p ≠ initproc ∧ g' = g) ?_ ?_
  · refine safe_atomic trivial (fun s η γ msg _ _ _ hf => ?_) fun s η γ b s' hinv hg _ hf => ?_
    · split at hf
      · cases hf
        rfl
      · cases hf
    · split at hf
      · cases hf
      · rename_i hne
        cases hf
        exact ⟨trivial, γ p, by rwa [update_eq_self], hne, hg⟩
  rintro - g' ⟨hne, rfl⟩
  refine Safe.bind (safe_acquireWait (Safe.bind (safe_reparentFrom hne hlk rfl hph hkid hpar hseen howe
    fun o c _ ho => ?_)))
  refine Safe.bind (safe_lookParent fun s η γ hinv hg => ⟨_, hinv.learnParent (by rw [hg])
    (by rw [hg]; exact hact), ?_⟩)
  rw [hg]
  refine Safe.bind (safe_wakeupProcs rfl rfl hph fun c' o' _ hc ho' _ => ?_)
  have ho'' := ho' rfl
  subst ho''
  refine Safe.bind (safe_lockProc rfl fun r _ => ?_)
  refine Safe.bind (safe_zombie rfl rfl hact (fun i => ho i (List.mem_finRange i)) rfl
    (fun q hq => or_iff_not_imp_left.mpr fun hqp => hc q (List.mem_finRange q) hqp hq) hph hfork hseen
    ?_)
  refine Safe.bind (safe_releaseWait rfl rfl ?_)
  exact safe_unlockProc rfl (by simp [TableGhost.unwait, hph]) ⟨rfl, rfl, hph⟩

lemma safe_allocprocFrom {Q : Option (Fin N) → TableGhost N → Prop} (hlk : g.lk = none)
    (hph : g.phase = .run) (hnone : Q none g)
    (hsome : ∀ i r, Q (some i) { g with lk := some (i, r), fork := some (i, false) }) :
    (tableProtocol initproc).Safe p Q (allocprocFrom l) g := by
  induction l with
  | nil => exact hnone
  | cons i l ih =>
    refine Safe.bind (safe_lockProc hlk fun r _ => ?_)
    split
    · rename_i hst
      refine Safe.bind (safe_atomic trivial (fun s η γ msg _ _ _ hf => by cases hf)
        fun s η γ b s' hinv hg _ hf => ?_)
      have hr : s.slot i = r := ((TableInv.lock hinv).snap p i r (by rw [hg])).2
      cases hf
      have hI := TableInv.alloc hinv (p := p) (i := i) (r := r) (by rw [hg]) hst
      rw [hg] at hI
      rw [hr]
      refine ⟨⟨by rw [hr]; exact hst, by simp [hr]⟩, _, hI, hsome i _⟩
    · refine Safe.bind (safe_unlockProc rfl (by simp [hph]) ?_)
      rw [← hlk]
      exact ih

lemma safe_fork (hact : g.act = true) (hlk : g.lk = none) (hw : g.wait = false)
    (hph : g.phase = .run) (hpar : g.par = none) (howe : g.owe = false) (horph : g.orphaned = ∅) :
    (tableProtocol initproc).Safe p (fun _ g' => (tableProtocol initproc).fin g') (fork p) g := by
  refine Safe.bind (safe_allocprocFrom hlk hph ⟨hlk, hw, hph⟩ fun i r => ?_)
  refine Safe.bind (safe_pickBool trivial fun ok => ?_)
  cases ok with
  | true =>
    refine Safe.bind (safe_unlockProc rfl (by simp [hph]) ?_)
    refine Safe.bind (safe_acquireWait ?_)
    refine Safe.seq (R := fun _ g' => g' = { g with lk := none, wait := true, fork := some (i, true) })
      ?_ ?_
    · refine safe_update trivial fun s η γ hinv hg _ => ?_
      have hI := TableInv.adopt hinv (p := p) (i := i) (by rw [hg]) (by rw [hg]) (by rw [hg]; exact hact)
        (by rw [hg]; exact horph) (by rw [hg]; exact hpar)
      rw [hg] at hI
      exact ⟨trivial, _, hI, rfl⟩
    rintro - g' rfl
    refine Safe.bind (safe_releaseWait rfl howe ?_)
    refine Safe.bind (safe_lockProc rfl fun r _ => ?_)
    refine Safe.bind (safe_readyProc rfl rfl ?_)
    exact safe_unlockProc rfl (by simp [TableGhost.unwait, hph]) ⟨rfl, rfl, hph⟩
  | false =>
    refine Safe.seq (R := fun _ g' => g' = { g with lk := some (i, .free), fork := none }) ?_ ?_
    · refine safe_update trivial fun s η γ hinv hg _ => ?_
      have hI := TableInv.free hinv (p := p) (i := i) (r := r) (by rw [hg]) (by rw [hg])
        (by rw [hg]; exact hact)
      rw [hg] at hI
      exact ⟨trivial, _, hI, rfl⟩
    rintro - g' rfl
    exact safe_unlockProc rfl (by simp [hph]) ⟨rfl, hw, hph⟩

lemma safe_killedProc {Q : Bool → TableGhost N → Prop} (hlk : g.lk = none) (hph : g.phase = .run)
    (hQ : ∀ b, Q b g) : (tableProtocol initproc).Safe p Q (killedProc p) g := by
  refine Safe.bind (safe_lockProc hlk fun r _ => Safe.bind (safe_unlockProc rfl (by simp [hph]) ?_))
  rw [← hlk]
  exact hQ _

lemma safe_sleepWait (hact : g.act = true) (hlk : g.lk = none) (hw : g.wait = true)
    (hph : g.phase = .run) (howe : g.owe = false) (hseen : ∀ i, i ∈ g.seen)
    (hQ : Q () { g.unwait with lk := none, wait := true, phase := .run }) :
    (tableProtocol initproc).Safe p Q (sleepWait p) g := by
  refine Safe.bind (safe_lockProc hlk fun r _ => ?_)
  refine Safe.seq (R := fun _ g' => g' = { g.unwait with lk := some (p, r), phase := .doze }) ?_ ?_
  · refine safe_update trivial fun s η γ hinv hg _ => ?_
    have hI := TableInv.doze hinv (p := p) (r := r) (by rw [hg]; exact hw) (by rw [hg]; exact howe)
      (by rw [hg]) (by rw [hg]; exact hseen) (by rw [hg]; exact hph)
    rw [hg] at hI
    exact ⟨trivial, _, hI, rfl⟩
  rintro - g' rfl
  refine Safe.bind (safe_setProc { g.unwait with
    lk := some (p, { r with chan := some p, state := .SLEEPING }), phase := .asleep } rfl
    (fun s η γ hinv hg => ?_) (fun s η _ => trivial) ?_)
  · have hI := TableInv.sleepProc hinv (p := p) (r := r) (by rw [hg]) (by rw [hg])
      (by rw [hg]; exact hact)
    rwa [hg] at hI
  refine Safe.bind (safe_unlockProc rfl (by simp) ?_)
  refine Safe.seq (R := fun _ g' => g' = { g.unwait with lk := none, phase := .run }) ?_ ?_
  · refine safe_atomic trivial (fun s η γ msg _ _ _ hf => ?_) fun s η γ b s' hinv hg _ hf => ?_
    · split at hf <;> cases hf
    · split at hf
      · rename_i hst
        cases hf
        have hI := TableInv.resume hinv (p := p) (by rw [hg]) hst.1 hst.2
        rw [hg] at hI
        exact ⟨trivial, _, hI, rfl⟩
      · cases hf
  rintro - g' rfl
  exact safe_acquireWait hQ

lemma safe_waitScan {Q : Option Bool → TableGhost N → Prop} {havekids : Bool} (hlk : g.lk = none)
    (hw : g.wait = true) (hph : g.phase = .run) (hkid : g.kid = none) (hdead : g.dead = none)
    (howe : g.owe = false) (hover : ∀ g', (tableProtocol initproc).fin g' → Q none g')
    (hQ : ∀ b (v : Set (Fin N)), g.seen ⊆ v → (∀ i ∈ l, i ∈ v) →
      Q (some b) { g with lk := none, kid := none, seen := v }) :
    (tableProtocol initproc).Safe p Q (waitScan p fault havekids l) g := by
  induction l generalizing g havekids with
  | nil =>
    have hg := hQ havekids g.seen subset_rfl (by simp)
    obtain ⟨lk, w, a, f, o, k, x, v, c, d, e, φ, m⟩ := g
    simp only at hlk hkid
    subst hlk hkid
    exact hg
  | cons i l ih =>
    have hcons : ∀ b (v : Set (Fin N)), insert i g.seen ⊆ v → (∀ j ∈ l, j ∈ v) →
        Q (some b) { g with lk := none, kid := none, seen := v } := by
      refine fun b v hsub hall => hQ b v (fun x hx => hsub (.inr hx)) fun x hx => ?_
      obtain rfl | hx := List.mem_cons.mp hx
      · exact hsub (.inl rfl)
      · exact hall x hx
    refine Safe.bind (safe_lookParent fun s η γ hinv hg => ?_)
    by_cases hi : s.parent i = some p
    swap
    · refine ⟨{ g with seen := insert i g.seen, kid := none }, ?_, ?_⟩
      · subst hg
        exact hinv.learnSeen hw fun h => hi h.1
      · rw [if_neg hi]
        exact ih hlk hw hph rfl hdead howe hcons
    refine ⟨{ g with kid := some i }, ?_, ?_⟩
    · subst hg
      exact hinv.learnKid hw hi
    rw [if_pos hi]
    refine Safe.bind (safe_lockProc hlk fun r _ => ?_)
    split
    · rename_i hst
      split
      · refine Safe.bind (safe_learn { g with kid := some i, lk := some (i, r), dead := some i }
          (fun s η γ hinv hg => ?_) (safe_unlockProc rfl (by simp [hph]) ?_))
        · have hI := hinv.learnDead (p := p) (i := i) (r := r) (by rw [hg]; exact hw) (by rw [hg]) hst
          rwa [hg] at hI
        · exact Safe.bind (safe_waitFault hw howe rfl (hover _ ⟨rfl, rfl, hph⟩))
      refine Safe.seq (R := fun _ g' => g' = { g with lk := some (i, .free), kid := none, par := none })
        ?_ ?_
      · refine safe_update trivial fun s η γ hinv hg _ => ?_
        have hr : s.slot i = r := ((TableInv.lock hinv).snap p i r (by rw [hg])).2
        have hI := TableInv.reap hinv r.pid r.xstate (p := p) (i := i) (r := r)
          (by rw [hg]) hst (by rw [hg]; exact hw) (by rw [hg]; exact hdead) (by rw [hg])
        rw [hg] at hI
        refine ⟨⟨((TableInv.tree hinv).kid p i (by rw [hg])).2, by rw [hr, hst], by rw [hr], ?_⟩, _, hI,
          rfl⟩
        rw [← hr]
        exact (TableInv.pid hinv).zombie i (by rw [hr, hst])
      rintro - g' rfl
      refine Safe.bind (safe_unlockProc rfl (by simp [hph]) ?_)
      exact Safe.bind (safe_releaseWait hw howe (hover _ ⟨rfl, rfl, hph⟩))
    · rename_i hst
      refine Safe.bind (safe_learn { g with
          kid := none, lk := some (i, r), seen := insert i g.seen }
        (fun s η γ hinv hg => ?_) (safe_unlockProc rfl (by simp [hph]) ?_))
      · have hr : s.slot i = r := (hinv.lock.snap p i r (by rw [hg])).2
        have hI := hinv.learnSeen (p := p) (i := i) (by rw [hg]; exact hw)
          fun h => hst (by rw [← hr]; exact h.2)
        rwa [hg] at hI
      · exact ih rfl hw hph rfl hdead howe hcons

lemma safe_waitFrom {rounds : ℕ} (hact : g.act = true) (hlk : g.lk = none) (hw : g.wait = true)
    (hph : g.phase = .run) (hkid : g.kid = none) (hdead : g.dead = none) (howe : g.owe = false) :
    (tableProtocol initproc).Safe p (fun _ g' => (tableProtocol initproc).fin g')
      (waitFrom p fault rounds) g := by
  induction rounds generalizing g with
  | zero => exact safe_haltTable
  | succ rounds ih =>
    refine Safe.bind (safe_waitScan hlk hw hph hkid hdead howe (fun g' hg' => hg') fun b v _ hv => ?_)
    have hstop : (tableProtocol initproc).Safe p (fun _ g' => (tableProtocol initproc).fin g')
        (releaseWait .waitRelease) { g with lk := none, kid := none, seen := v } :=
      safe_releaseWait hw howe ⟨rfl, rfl, hph⟩
    cases b with
    | false => exact hstop
    | true =>
      refine Safe.bind (safe_killedProc rfl hph fun k => ?_)
      cases k with
      | true => exact hstop
      | false =>
        exact Safe.bind (safe_sleepWait hact rfl hw hph howe (fun i => hv i (List.mem_finRange i))
          (ih hact rfl rfl rfl rfl rfl howe))

lemma safe_killFrom {m : List (ℤ × Fin N)} (hlk : g.lk = none) (hw : g.wait = false)
    (hph : g.phase = .run) (hpass : g.passed = some m)
    (hm : m ++ l.map (fun i => (pid, i)) = (List.finRange N).map fun i => (pid, i)) :
    (tableProtocol initproc).Safe p (fun _ g' => (tableProtocol initproc).fin g')
      (killFrom pid l) g := by
  induction l generalizing g m with
  | nil =>
    refine safe_update trivial fun s η γ hinv hg _ => ?_
    refine ⟨?_, γ p, by rwa [update_eq_self], by rw [hg]; exact ⟨hlk, hw, hph⟩⟩
    show η.passed p = _
    rw [(TableInv.pid hinv).passed p m (by rw [hg]; exact hpass), ← hm, List.map_nil, List.append_nil]
  | cons i l ih =>
    refine Safe.bind (safe_lockProc hlk fun r _ => ?_)
    split
    · rename_i hpid
      refine Safe.bind (safe_setProc { g with lk := some (i, { r with
        killed := true, state := if r.state = .SLEEPING then .RUNNABLE else r.state }) } rfl
        (fun s η γ hinv hg => ?_) (fun s η hr => ?_) ?_)
      · have hI := hinv.kill (p := p) (i := i) (r := r) (by rw [hg]) hpid
        rwa [hg] at hI
      · refine ⟨by rw [hr]; exact hpid, by simp, fun j hj => by simp [hj]⟩
      · exact safe_unlockProc rfl (by simp [hph]) ⟨rfl, hw, hph⟩
    · rename_i hpid
      refine Safe.seq (R := fun _ g' => g' = { g with lk := none, passed := some (m ++ [(pid, i)]) }) ?_ ?_
      · refine safe_update trivial fun s η γ hinv hg _ => ?_
        have hr : s.slot i = r := ((TableInv.lock hinv).snap p i r (by rw [hg])).2
        have hη : η.passed p = m := (TableInv.pid hinv).passed p m (by rw [hg]; exact hpass)
        have hI := (TableInv.unlockProc hinv (p := p) (i := i) (r := r) (by rw [hg])
          (by simp [hg, hph])).setPassed (p := p) (l := η.passed p ++ [(pid, i)])
        rw [update_idem, update_self, hg] at hI
        exact ⟨by rw [← hr] at hpid; exact hpid, _, hI, by rw [hη]⟩
      rintro - g' rfl
      exact ih rfl hw hph rfl (by simpa using hm)

lemma safe_kill (hlk : g.lk = none) (hw : g.wait = false) (hph : g.phase = .run) :
    (tableProtocol initproc).Safe p (fun _ g' => (tableProtocol initproc).fin g') (kill pid) g := by
  refine Safe.bind (safe_update trivial fun s η γ hinv hg _ => ?_)
  have hI := TableInv.setPassed hinv (p := p) (l := [])
  rw [hg] at hI
  exact ⟨trivial, _, hI, safe_killFrom hlk hw hph rfl rfl⟩

lemma safe_setkilled (hact : g.act = true) (hlk : g.lk = none) (hw : g.wait = false)
    (hph : g.phase = .run) :
    (tableProtocol initproc).Safe p (fun _ g' => (tableProtocol initproc).fin g') (setkilled p) g := by
  refine Safe.bind (safe_lockProc hlk fun r _ => ?_)
  refine Safe.bind (safe_setProc { g with lk := some (p, { r with killed := true }) } rfl
    (fun s η γ hinv hg => ?_) (fun s η hr => trivial) ?_)
  · have hI := hinv.setkilled (p := p) (r := r) (by rw [hg]) (by rw [hg]; exact hact)
    rwa [hg] at hI
  · exact safe_unlockProc rfl (by simp [hph]) ⟨rfl, hw, hph⟩

end Functions

/-- Every call on the process table keeps the invariant. -/
lemma tableMachine_verified (initproc : Fin N) :
    (tableProtocol initproc).Verified (tableMachine initproc) where
  start s η γ p x hinv hidle hready := by
    have hI := TableInv.start hinv hready
    rw [hidle] at hI
    refine ⟨_, hI, ?_⟩
    cases x with
    | fork => exact safe_fork rfl rfl rfl rfl rfl rfl rfl
    | exit status => exact safe_exit rfl rfl rfl rfl rfl rfl rfl rfl
    | wait fault rounds => exact Safe.bind (safe_acquireWait (safe_waitFrom rfl rfl rfl rfl rfl rfl rfl))
    | kill pid => exact safe_kill rfl rfl rfl
    | setkilled => exact safe_setkilled rfl rfl rfl rfl
  finish s η γ p hinv hfin := TableInv.finish hinv hfin.2.1 hfin.2.2

end Xv6
