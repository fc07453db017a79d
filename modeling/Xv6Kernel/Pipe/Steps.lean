import Xv6Kernel.Pipe.Invariant

/-!
# The actions on a pipe keep its invariant

One lemma for each kind of action, about the state and the ghost value of the acting process; the
rules of the program logic follow from them.
-/

namespace Xv6

open Protocol Function

variable {N : ℕ} {s : PipeSys N} {η : PipeHist N} {γ : Fin N → PipeGhost N} {p q : Fin N}
variable {pi : Pipe} {ch : PipeChan} {η' : PipeHist N}
variable {cur : Option PipeLocal} {g : PipeGhost N}

namespace PipeInv

section

variable (hI : PipeInv s η γ)
include hI

lemma not_committed (hp : (γ p).phase = .run) (ch : PipeChan) : ¬s.Committed γ p ch := by
  rintro (hd | ⟨hst, hch⟩)
  · simp [hp] at hd
  · have := hI.asleep p ch hst hch
    simp [hp] at this

/-- An action of the process `p` that does not touch the sleeping processes: what has to be said of
the lock, the pipe and the history. -/
lemma change {s' : PipeSys N} (hst : s'.state = s.state) (hch : s'.chan = s.chan)
    (hpl : s'.plock = s.plock) (hph : g.phase = (γ p).phase)
    (hown : ∀ pi, g.hold = some pi → s'.lock = some p ∧ s'.pipe = pi)
    (hheld : s'.lock = some p → g.hold ≠ none)
    (hrest : ∀ r, r ≠ p → s.lock = some r → s'.lock = some r ∧ s'.pipe = s.pipe)
    (hback : ∀ r, r ≠ p → s'.lock = some r → s.lock = some r)
    (hreason : η'.lost = false → ∀ q ch, s.Committed γ q ch →
      ch.Waits s'.pipe ∨ ∃ p', s'.lock = some p' ∧ q ∈ (update γ p g p').owe ch) (hok : s'.pipe.Ok)
    (hfifo : η'.sent = η'.got ++ s'.pipe.buffered) (hcur : ∀ l, g.cur = some l → η'.cur p = l)
    (hcur' : ∀ r, r ≠ p → η'.cur r = η.cur r) : PipeInv s' η' (update γ p g) := by
  have hphase : ∀ r, (update γ p g r).phase = (γ r).phase := by
    intro r
    by_cases hrp : r = p
    · subst hrp
      simpa using hph
    · simp [hrp]
  refine ⟨fun r pi hr => ?_, fun r hr => ?_, fun r => ?_, fun r ch hst' hch' => ?_,
    fun hl r ch hc => hreason hl r ch ?_, hok, hfifo, fun r l hl => ?_⟩
  · by_cases hrp : r = p
    · subst hrp
      exact hown pi (by simpa using hr)
    · obtain ⟨h1, h2⟩ := hI.holds r pi (by simpa [hrp] using hr)
      obtain ⟨h3, h4⟩ := hrest r hrp h1
      exact ⟨h3, h4.trans h2⟩
  · by_cases hrp : r = p
    · subst hrp
      simpa using hheld hr
    · simpa [hrp] using hI.held r (hback r hrp hr)
  · rw [hpl, hphase]
    exact hI.plock r
  · rw [hphase]
    exact hI.asleep r ch (by rw [← hst]; exact hst') (by rw [← hch]; exact hch')
  · unfold PipeSys.Committed at *
    rwa [hphase, hst, hch] at hc
  · by_cases hrp : r = p
    · subst hrp
      exact hcur l (by simpa using hl)
    · rw [hcur' r hrp]
      exact hI.cur r l (by simpa [hrp] using hl)

lemma acquire (hlock : s.lock = none) : PipeInv { s with lock := some p } η
    (update γ p ⟨some s.pipe, fun _ => ∅, (γ p).phase, (γ p).cur⟩) := by
  refine hI.change rfl rfl rfl rfl (fun pi hpi => ⟨rfl, by simpa using hpi⟩) (fun _ => by simp)
    (fun r _ hr => by simp [hlock] at hr) (fun r hrp hr => absurd (by simpa using hr.symm) hrp)
    (fun hl q ch hc => .inl ((hI.reason hl q ch hc).resolve_right ?_)) hI.ok hI.fifo (hI.cur p)
    fun _ _ => rfl
  rintro ⟨p', hp', -⟩
  simp [hlock] at hp'

lemma reason_of_hold (hl : η.lost = false) (hp : (γ p).hold = some pi)
    (hc : s.Committed γ q ch) : ch.Waits pi ∨ q ∈ (γ p).owe ch := by
  obtain ⟨hlock, rfl⟩ := hI.holds p pi hp
  refine (hI.reason hl q ch hc).imp id ?_
  rintro ⟨p', hp', hq⟩
  obtain rfl : p = p' := by simpa [hlock] using hp'
  exact hq

lemma waits_of_hold (hl : η.lost = false) (hp : (γ p).hold = some pi)
    (hrun : (γ p).phase = .run) (howe : ∀ ch, (γ p).owe ch ⊆ {p})
    (hc : s.Committed γ q ch) : ch.Waits s.pipe := by
  rw [(hI.holds p pi hp).2]
  refine (hI.reason_of_hold hl hp hc).resolve_right fun hq => ?_
  obtain rfl : q = p := howe ch hq
  exact hI.not_committed hrun ch hc

lemma release (hp : (γ p).hold = some pi) (hrun : (γ p).phase = .run)
    {lost : Bool} (hlost : lost = false → η.lost = false)
    (howe : lost = false → ∀ ch, (γ p).owe ch ⊆ {p}) :
    PipeInv { s with lock := none } { η with lost := lost }
      (update γ p { γ p with hold := none }) := by
  have hlock := (hI.holds p pi hp).1
  exact hI.change rfl rfl rfl rfl (fun _ hpi => by simp at hpi) (fun h => by simp at h)
    (fun r hrp hr => absurd (Option.some.inj (hlock.symm.trans hr)).symm hrp)
    (fun r _ hr => by simp at hr)
    (fun hl q ch hc => .inl (hI.waits_of_hold (hlost hl) hp hrun (howe hl) hc)) hI.ok hI.fifo
    (fun l hl => hI.cur p l hl) fun _ _ => rfl

lemma edit {pi' : Pipe} (hp : (γ p).hold = some pi) {owe : PipeChan → Set (Fin N)}
    (howe : ∀ q ch, ch.Waits pi ∨ q ∈ (γ p).owe ch → ch.Waits pi' ∨ q ∈ owe ch) (hok : pi'.Ok)
    (hfifo : η'.sent = η'.got ++ pi'.buffered) (hcur : ∀ l, cur = some l → η'.cur p = l)
    (hcur' : ∀ r, r ≠ p → η'.cur r = η.cur r) (hlost : η'.lost = η.lost) :
    PipeInv { s with pipe := pi' } η' (update γ p ⟨some pi', owe, (γ p).phase, cur⟩) := by
  have hlock := (hI.holds p pi hp).1
  refine hI.change rfl rfl rfl rfl (fun _ h => ⟨hlock, by simpa using h⟩) (fun _ => by simp)
    (fun r hrp hr => absurd (Option.some.inj (hlock.symm.trans hr)).symm hrp)
    (fun r _ hr => hr) (fun hl q ch hc => ?_) hok hfifo hcur hcur'
  exact (howe q ch (hI.reason_of_hold (hlost ▸ hl) hp hc)).imp id fun hq => ⟨p, hlock, by simpa using hq⟩

lemma forget (hhold : g.hold = (γ p).hold) (hph : g.phase = (γ p).phase)
    (howe : ∀ ch, (γ p).hold ≠ none → (γ p).owe ch ⊆ g.owe ch)
    (hcur : g.cur = (γ p).cur ∨ g.cur = none) : PipeInv s η (update γ p g) := by
  refine hI.change rfl rfl rfl hph (fun pi hpi => hI.holds p pi (hhold ▸ hpi))
    (fun hl => hhold ▸ hI.held p hl) (fun r _ hr => ⟨hr, rfl⟩) (fun r _ hr => hr)
    (fun hl q ch hc => (hI.reason hl q ch hc).imp id ?_) hI.ok hI.fifo (fun l hl => ?_) fun _ _ => rfl
  · rintro ⟨p', hp', hq⟩
    refine ⟨p', hp', ?_⟩
    by_cases hpp : p' = p
    · subst hpp
      simpa using howe ch (hI.held p' hp') hq
    · simpa [hpp] using hq
  · obtain hc | hc := hcur
    · exact hI.cur p l (hc ▸ hl)
    · rw [hc] at hl
      cases hl

lemma record {x : PipeLocal} (hcur : ∀ c, cur = some c → x = c) :
    PipeInv s { η with cur := update η.cur p x } (update γ p { γ p with cur := cur }) := by
  refine hI.change rfl rfl rfl rfl (hI.holds p) (hI.held p) (fun r _ hr => ⟨hr, rfl⟩)
    (fun r _ hr => hr) (fun hl q ch hc => (hI.reason hl q ch hc).imp id ?_) hI.ok hI.fifo
    (fun c hc => (update_self p x η.cur).trans (hcur c hc)) fun r hr => update_of_ne hr _ _
  rintro ⟨p', hp', hq⟩
  refine ⟨p', hp', ?_⟩
  by_cases hpp : p' = p
  · subst hpp
    simpa using hq
  · simpa [hpp] using hq

lemma doze (hp : (γ p).hold = some pi) (hrun : (γ p).phase = .run)
    (howe : ∀ ch, (γ p).owe ch ⊆ {p}) (hw : ch.Waits pi) :
    PipeInv { s with lock := none, plock := update s.plock p true } η
      (update γ p ⟨none, fun _ => ∅, .doze ch, (γ p).cur⟩) := by
  obtain ⟨hlock, hpi⟩ := hI.holds p pi hp
  refine ⟨fun r pi' hr => ?_, fun r hr => by simp at hr, fun r => ?_, fun r ch' hst hch => ?_,
    fun hl r ch' hc => .inl ?_, hI.ok, hI.fifo, fun r l hl => ?_⟩
  · by_cases hrp : r = p
    · subst hrp
      simp at hr
    · have := (hI.holds r pi' (by simpa [hrp] using hr)).1
      exact absurd (Option.some.inj (hlock.symm.trans this)).symm hrp
  · by_cases hrp : r = p
    · subst hrp
      simp
    · simpa [hrp] using hI.plock r
  · by_cases hrp : r = p
    · subst hrp
      have := hI.asleep r ch' hst hch
      simp [hrun] at this
    · simpa [hrp] using hI.asleep r ch' hst hch
  · by_cases hrp : r = p
    · subst hrp
      obtain hd | ⟨hst, hch⟩ := hc
      · obtain rfl : ch = ch' := by simpa using hd
        exact hpi ▸ hw
      · have := hI.asleep r ch' hst hch
        simp [hrun] at this
    · refine hI.waits_of_hold hl hp hrun howe (q := r) ?_
      simpa [PipeSys.Committed, hrp] using hc
  · by_cases hrp : r = p
    · subst hrp
      exact hI.cur r l (by simpa using hl)
    · exact hI.cur r l (by simpa [hrp] using hl)

lemma changeSleep {x : ProcState} {c : Option PipeChan} {b : Bool}
    {φ : PipePhase} (hhold : (γ p).hold = none) (hb : b = true ↔ ∃ ch, φ = .doze ch)
    (hasl : ∀ ch, x = .SLEEPING → c = some ch → φ = .asleep ch)
    (hcomm : ∀ ch, φ = .doze ch ∨ (x = .SLEEPING ∧ c = some ch) → s.Committed γ p ch) :
    PipeInv { s with state := update s.state p x, chan := update s.chan p c,
                     plock := update s.plock p b } η
      (update γ p { γ p with phase := φ }) := by
  refine ⟨fun r pi hr => ?_, fun r hr => ?_, fun r => ?_, fun r ch hst hch => ?_,
    fun hl r ch hc => ?_, hI.ok, hI.fifo, fun r l hl => ?_⟩
  · by_cases hrp : r = p
    · subst hrp
      simp [hhold] at hr
    · exact hI.holds r pi (by simpa [hrp] using hr)
  · by_cases hrp : r = p
    · subst hrp
      exact absurd hhold (hI.held r hr)
    · simpa [hrp] using hI.held r hr
  · by_cases hrp : r = p
    · subst hrp
      simpa using hb
    · simpa [hrp] using hI.plock r
  · by_cases hrp : r = p
    · subst hrp
      simpa using hasl ch (by simpa using hst) (by simpa using hch)
    · simpa [hrp] using hI.asleep r ch (by simpa [hrp] using hst) (by simpa [hrp] using hch)
  · have hc' : s.Committed γ r ch := by
      by_cases hrp : r = p
      · subst hrp
        exact hcomm ch (by simpa [PipeSys.Committed] using hc)
      · simpa [PipeSys.Committed, hrp] using hc
    refine (hI.reason hl r ch hc').imp id ?_
    rintro ⟨p', hp', hq⟩
    have hpp : p' ≠ p := by
      rintro rfl
      exact hI.held p' hp' hhold
    exact ⟨p', hp', by simpa [hpp] using hq⟩
  · by_cases hrp : r = p
    · subst hrp
      exact hI.cur r l (by simpa using hl)
    · exact hI.cur r l (by simpa [hrp] using hl)

lemma awaken (q : Fin N) :
    PipeInv { s with state := update s.state q .RUNNABLE } η γ := by
  have hsleep : ∀ r, update s.state q .RUNNABLE r = .SLEEPING → s.state r = .SLEEPING := by
    intro r hr
    by_cases hrq : r = q
    · subst hrq
      simp at hr
    · simpa [hrq] using hr
  refine ⟨hI.holds, hI.held, hI.plock, fun r ch hst hch => hI.asleep r ch (hsleep r hst) hch,
    fun hl r ch hc => hI.reason hl r ch ?_, hI.ok, hI.fifo, hI.cur⟩
  exact hc.imp id fun hc => ⟨hsleep r hc.1, hc.2⟩

lemma setKilled (k : Fin N → Bool) : PipeInv { s with killed := k } η γ :=
  ⟨hI.holds, hI.held, hI.plock, hI.asleep, hI.reason, hI.ok, hI.fifo, hI.cur⟩

lemma passed {q : Fin N} (hq : ¬s.Committed γ q ch) :
    PipeInv s η (update γ p
      { γ p with owe := update (γ p).owe ch ((γ p).owe ch \ {q}) }) := by
  refine hI.change rfl rfl rfl rfl (hI.holds p) (hI.held p) (fun r _ hr => ⟨hr, rfl⟩)
    (fun r _ hr => hr) (fun hl r ch' hc => (hI.reason hl r ch' hc).imp id ?_) hI.ok hI.fifo
    (fun l hl => hI.cur p l hl) fun _ _ => rfl
  rintro ⟨p', hp', hr⟩
  refine ⟨p', hp', ?_⟩
  by_cases hpp : p' = p
  · subst hpp
    by_cases hch : ch' = ch
    · subst hch
      have hrq : r ≠ q := by
        rintro rfl
        exact hq hc
      simp [hr, hrq]
    · simpa [hch] using hr
  · simpa [hpp] using hr

end

end PipeInv

end Xv6
