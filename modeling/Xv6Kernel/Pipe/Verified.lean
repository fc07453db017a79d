import Xv6Kernel.Pipe.Steps

/-!
# The programs on a pipe are safe

The rules of the program logic for the actions on a pipe, and with them the safety of `pipewrite`,
`piperead`, `pipeclose` and `kill`.
-/

namespace Xv6

open Protocol Function

variable {N : ℕ} {p : Fin N} {g : PipeGhost N}
variable {pi : Pipe} {l : PipeAct N} {ch : PipeChan} {Q : Unit → PipeGhost N → Prop} {i : ℕ}
  {valid : ℕ → Bool} {n : ℤ}
variable {rounds : ℕ} {buf : ℕ → Option ℕ} {x : PipeLocal}

lemma PipeInv.keep {s : PipeSys N} {η : PipeHist N} {γ : Fin N → PipeGhost N}
    (hI : PipeInv s η γ) (hg : γ p = g) : PipeInv s η (update γ p g) := by
  rwa [← hg, update_eq_self]

lemma safe_acquirePipe (hph : g.phase = .run)
    (hQ : ∀ pi, Q () ⟨some pi, fun _ => ∅, .run, g.cur⟩) :
    (pipeProtocol N).Safe p Q (acquirePipe .acquire p) g := by
  refine safe_atomic trivial (fun s η γ msg _ _ _ hf => ?_) fun s η γ b s' hinv hg _ hf => ?_
  · split at hf <;> cases hf
  · split at hf
    · rename_i hlock
      cases hf
      have hI : PipeInv _ η (update γ p ⟨some s.pipe, fun _ => ∅, (γ p).phase, (γ p).cur⟩) :=
        PipeInv.acquire hinv hlock
      rw [hg, hph] at hI
      exact ⟨trivial, _, hI, hQ s.pipe⟩
    · cases hf

/-- A step that only shows in the trace; `f` is what it does to the record of the process. -/
lemma safe_notePipe (f : PipeLocal → PipeLocal) (cur : Option PipeLocal)
    (hupd : ∀ η : PipeHist N, η.upd p l = { η with cur := update η.cur p (f (η.cur p)) })
    (hcur : ∀ x, (∀ c, g.cur = some c → x = c) → ∀ c, cur = some c → f x = c)
    (hguar : ∀ s η, (∀ pi, g.hold = some pi → s.pipe = pi) →
      (∀ c, g.cur = some c → η.cur p = c) → PipeGuar s η p l)
    (hQ : Q () { g with cur := cur }) : (pipeProtocol N).Safe p Q (notePipe l) g := by
  refine safe_update trivial fun s η γ hinv hg _ => ?_
  subst hg
  refine ⟨hguar s η (fun pi h => (PipeInv.holds hinv p pi h).2) (PipeInv.cur hinv p), _, ?_, hQ⟩
  show PipeInv s (η.upd p l) _
  rw [hupd η]
  exact PipeInv.record hinv (hcur _ (PipeInv.cur hinv p))

lemma safe_callPipe (hQ : Q () { g with cur := some ⟨[], [], none⟩ }) :
    (pipeProtocol N).Safe p Q (notePipe .call) g :=
  safe_notePipe (fun _ => ⟨[], [], none⟩) _ (fun _ => rfl) (fun _ _ _ => Option.some.inj)
    (fun _ _ _ _ => trivial) hQ

/-- The return of a call, at which its promise is made. -/
lemma safe_returnPipe (hcur : g.cur = some x) (hupd : ∀ η : PipeHist N, η.upd p l = η)
    (hguar : ∀ s η, η.cur p = x → PipeGuar s η p l) (hQ : Q () g) :
    (pipeProtocol N).Safe p Q (notePipe l) g := by
  refine safe_notePipe id g.cur (fun η => ?_) (fun y hy c hc => hy c hc)
    (fun s η _ hc => hguar s η (hc x hcur)) hQ
  rw [hupd η, id, update_eq_self]

lemma safe_releasePipe (lost : Bool) (hhold : g.hold = some pi) (hph : g.phase = .run)
    (hupd : ∀ η : PipeHist N, η.upd p l = { η with lost := η.lost || lost })
    (howe : lost = false → ∀ ch, g.owe ch ⊆ {p})
    (hguar : ∀ s η, PipeGuar s η p l) (hQ : Q () { g with hold := none }) :
    (pipeProtocol N).Safe p Q (releasePipe l) g := by
  refine safe_update trivial fun s η γ hinv hg _ => ?_
  subst hg
  refine ⟨hguar s η, _, ?_, hQ⟩
  show PipeInv _ (η.upd p l) _
  rw [hupd η]
  refine PipeInv.release hinv hhold hph (fun hl => ?_) fun hl => howe ?_
  · exact (Bool.or_eq_false_iff.mp hl).1
  · exact (Bool.or_eq_false_iff.mp hl).2

lemma safe_releasePaid (hhold : g.hold = some pi) (hph : g.phase = .run)
    (howe : ∀ ch, g.owe ch ⊆ {p}) (hQ : Q () { g with hold := none }) :
    (pipeProtocol N).Safe p Q (releasePipe .release) g :=
  safe_releasePipe false hhold hph (fun η => by simp [PipeHist.upd]) (fun _ => howe)
    (fun _ _ => trivial) hQ

lemma safe_lookPipe {β : Type} {f : Pipe → β} {Q : β → PipeGhost N → Prop}
    (hhold : g.hold = some pi) (hQ : Q (f pi) g) : (pipeProtocol N).Safe p Q (lookPipe f) g := by
  refine safe_update trivial fun s η γ hinv hg _ => ?_
  refine ⟨trivial, g, PipeInv.keep hinv hg, ?_⟩
  rwa [(PipeInv.holds hinv p pi (hg ▸ hhold)).2]

lemma safe_editPipe {f : Pipe → Pipe} (owe : PipeChan → Set (Fin N)) (cur : Option PipeLocal)
    (hhold : g.hold = some pi)
    (howe : ∀ q ch, ch.Waits pi ∨ q ∈ g.owe ch → ch.Waits (f pi) ∨ q ∈ owe ch)
    (hok : pi.Ok → (f pi).Ok) (hfifo : ∀ η : PipeHist N, pi.Ok → η.sent = η.got ++ pi.buffered →
      (η.upd p l).sent = (η.upd p l).got ++ (f pi).buffered)
    (hcur : ∀ η : PipeHist N, (∀ c, g.cur = some c → η.cur p = c) →
      ∀ c, cur = some c → (η.upd p l).cur p = c)
    (hcur' : ∀ η : PipeHist N, ∀ r, r ≠ p → (η.upd p l).cur r = η.cur r)
    (hlost : ∀ η : PipeHist N, (η.upd p l).lost = η.lost)
    (hguar : ∀ s η, (∀ c, g.cur = some c → η.cur p = c) → PipeGuar s η p l)
    (hQ : Q () ⟨some (f pi), owe, g.phase, cur⟩) : (pipeProtocol N).Safe p Q (editPipe l f) g := by
  refine safe_update trivial fun s η γ hinv hg _ => ?_
  subst hg
  have hpi := (PipeInv.holds hinv p pi hhold).2
  have hpok : pi.Ok := hpi ▸ PipeInv.ok hinv
  have hpf := PipeInv.fifo hinv
  rw [hpi] at hpf ⊢
  exact ⟨hguar s η (PipeInv.cur hinv p), _, PipeInv.edit hinv hhold howe (hok hpok)
    (hfifo η hpok hpf) (hcur η (PipeInv.cur hinv p)) (hcur' η) (hlost η), hQ⟩

lemma safe_killedPipe {Q : Bool → PipeGhost N → Prop} (hQ : ∀ b, Q b g) :
    (pipeProtocol N).Safe p Q (killedPipe p) g := by
  refine safe_atomic trivial (fun s η γ msg _ _ _ hf => ?_) fun s η γ b s' hinv hg _ hf => ?_
  · split at hf <;> cases hf
  · split at hf
    · cases hf
    · cases hf
      exact ⟨trivial, g, PipeInv.keep hinv hg, hQ _⟩

lemma safe_haltPipe {Q : ℤ → PipeGhost N → Prop} : (pipeProtocol N).Safe p Q haltPipe g :=
  safe_atomic trivial (fun s η γ msg _ _ _ hf => by cases hf) fun s η γ b s' _ _ _ hf => by cases hf

lemma safe_killPipe {q : Fin N} (hQ : Q () g) : (pipeProtocol N).Safe p Q (killPipe q) g := by
  refine safe_atomic trivial (fun s η γ msg _ _ _ hf => ?_) fun s η γ b s' hinv hg _ hf => ?_
  · split at hf <;> cases hf
  · split at hf
    · cases hf
    cases hf
    refine ⟨trivial, g, PipeInv.keep ?_ hg, hQ⟩
    split
    · exact (PipeInv.awaken hinv q).setKilled _
    · exact PipeInv.setKilled hinv _

lemma safe_wakeupFrom {l : List (Fin N)}
    (hQ : ∀ owe : PipeChan → Set (Fin N), (∀ c, owe c ⊆ g.owe c) →
      (∀ q ∈ l, q ≠ p → q ∉ owe ch) → Q () { g with owe := owe }) :
    (pipeProtocol N).Safe p Q (wakeupFrom p ch l) g := by
  induction l generalizing g with
  | nil => exact hQ g.owe (fun _ => subset_rfl) (by simp)
  | cons q l ih =>
    by_cases hq : q = p
    · rw [wakeupFrom, if_neg (not_not.mpr hq)]
      refine ih fun owe hsub hpass => hQ owe hsub fun r hr hrp => ?_
      obtain rfl | hr := List.mem_cons.mp hr
      · exact absurd hq hrp
      · exact hpass r hr hrp
    rw [wakeupFrom, if_pos hq]
    refine Safe.bind (safe_atomic trivial (fun s η γ msg _ _ _ hf => ?_)
      fun s η γ b s' hinv hg _ hf => ?_)
    · split at hf
      · cases hf
      · split at hf <;> cases hf
    subst hg
    have hnext : (pipeProtocol N).Safe p Q (wakeupFrom p ch l)
        { γ p with owe := update (γ p).owe ch ((γ p).owe ch \ {q}) } := by
      refine ih fun owe hsub hpass => hQ owe (fun c x hx => ?_) fun r hr hrp hro => ?_
      · have hx' := hsub c hx
        by_cases hc : c = ch
        · subst hc
          simp only [update_self] at hx'
          exact hx'.1
        · simpa [hc] using hx'
      · obtain rfl | hr := List.mem_cons.mp hr
        · have := hsub ch hro
          simp at this
        · exact hpass r hr hrp hro
    split at hf
    · cases hf
    rename_i hpl
    have hnd : ¬∃ c, (γ q).phase = .doze c := fun hd => hpl ((PipeInv.plock hinv q).mpr hd)
    split at hf
    · cases hf
      refine ⟨trivial, _, (PipeInv.awaken hinv q).passed ?_, hnext⟩
      rintro (hd | ⟨hst, -⟩)
      · exact hnd ⟨ch, hd⟩
      · simp at hst
    rename_i hst
    cases hf
    refine ⟨trivial, _, PipeInv.passed hinv ?_, hnext⟩
    rintro (hd | hc)
    · exact hnd ⟨ch, hd⟩
    · exact hst hc

lemma safe_wakeupPipe
    (hQ : ∀ owe : PipeChan → Set (Fin N), (∀ c, owe c ⊆ g.owe c) → owe ch ⊆ {p} →
      Q () { g with owe := owe }) :
    (pipeProtocol N).Safe p Q (wakeupPipe p ch) g := by
  refine safe_wakeupFrom fun owe hsub hpass => hQ owe hsub fun q hq => ?_
  by_contra hne
  exact hpass q (List.mem_finRange q) hne hq

lemma safe_sleepPipe (hhold : g.hold = some pi) (hph : g.phase = .run)
    (howe : ∀ ch, g.owe ch ⊆ {p}) (hw : ch.Waits pi)
    (hQ : ∀ pi, Q () ⟨some pi, fun _ => ∅, .run, g.cur⟩) :
    (pipeProtocol N).Safe p Q (sleepPipe p ch) g := by
  refine Safe.seq (R := fun _ g' => g' = ⟨none, fun _ => ∅, .doze ch, g.cur⟩) ?_ ?_
  · refine safe_update trivial fun s η γ hinv hg _ => ?_
    subst hg
    exact ⟨trivial, _, PipeInv.doze hinv hhold hph howe hw, rfl⟩
  rintro - g' rfl
  refine Safe.seq (R := fun _ g' => g' = ⟨none, fun _ => ∅, .asleep ch, g.cur⟩) ?_ ?_
  · refine safe_update trivial fun s η γ hinv hg _ => ?_
    refine ⟨trivial, _, PipeInv.changeSleep hinv (φ := .asleep ch) (by rw [hg]) (by simp)
      (fun c _ hc => by rw [Option.some.inj hc]) (fun c hc => .inl ?_), by rw [hg]⟩
    rw [hg]
    obtain hc | ⟨-, hc⟩ := hc
    · cases hc
    · rw [Option.some.inj hc]
  rintro - g' rfl
  refine Safe.seq (R := fun _ g' => g' = ⟨none, fun _ => ∅, .run, g.cur⟩) ?_ ?_
  · refine safe_atomic trivial (fun s η γ msg _ _ _ hf => ?_) fun s η γ b s' hinv hg _ hf => ?_
    · split at hf <;> cases hf
    · split at hf
      · rename_i hst
        cases hf
        have hpl : update s.plock p false = s.plock := by
          rw [← hst.2, update_eq_self]
        have hI := PipeInv.changeSleep hinv (p := p) (x := .RUNNING) (c := none) (b := false)
          (φ := .run) (by rw [hg]) (by simp) (by simp) (by simp)
        rw [hpl, hg] at hI
        exact ⟨trivial, _, hI, rfl⟩
      · cases hf
  rintro - g' rfl
  exact safe_acquirePipe rfl hQ

def PipeDone (_ : Unit) (g : PipeGhost N) : Prop := (pipeProtocol N).fin g

/-- A call has ended with the result `r`, and its record is as `R` says. -/
def PipeEnded (R : ℤ → PipeLocal → Prop) (r : ℤ) (g : PipeGhost N) : Prop :=
  (pipeProtocol N).fin g ∧ ∃ x, g.cur = some x ∧ R r x

lemma safe_pipewriteEnd (hhold : g.hold = some pi) (hph : g.phase = .run)
    (howe : g.owe .nwrite ⊆ {p}) (hcur : g.cur = some x)
    (hx : x.wrote.map some = (List.range i).map buf) (hlast : i < n → buf i = none) :
    (pipeProtocol N).Safe p (PipeEnded (WriteResult buf n)) (pipewriteEnd p i) g := by
  refine Safe.bind (safe_wakeupPipe fun owe hsub hnread => ?_)
  refine Safe.bind (safe_releasePaid hhold hph (fun ch => ?_) ?_)
  · cases ch with
    | nread => exact hnread
    | nwrite => exact (hsub .nwrite).trans howe
  · exact safe_ret ⟨⟨rfl, hph⟩, x, hcur, i, hx, .inr ⟨rfl, hlast⟩⟩

lemma safe_pipewriteFrom {w : ℕ} (hhold : g.hold = some pi) (hph : g.phase = .run)
    (howe : g.owe .nwrite ⊆ {p}) (hw : i = w → g.owe .nread ⊆ {p}) (hwi : w ≤ i)
    (hcur : g.cur = some x) (hx : x.wrote.map some = (List.range i).map buf) :
    (pipeProtocol N).Safe p (PipeEnded (WriteResult buf n)) (pipewriteFrom p buf n rounds i w) g := by
  induction rounds generalizing g i w pi x with
  | zero => exact safe_haltPipe
  | succ rounds ih =>
    unfold pipewriteFrom
    split
    swap
    · exact safe_pipewriteEnd hhold hph howe hcur hx fun h => absurd h ‹_›
    refine Safe.bind (safe_lookPipe hhold ?_)
    -- the exit that fails
    have hfail : (pipeProtocol N).Safe p (PipeEnded (WriteResult buf n))
        (releasePipe (.writeFail i w) >>= fun _ => pure (-1)) g := by
      refine Safe.bind (safe_releasePipe (i != w) hhold hph (fun η => rfl) (fun hl ch => ?_)
        (fun s η => trivial) ?_)
      · cases ch with
        | nread => exact hw (by simpa using hl)
        | nwrite => exact howe
      · exact safe_ret ⟨⟨rfl, hph⟩, x, hcur, i, hx, .inl rfl⟩
    rcases hopen : pi.readopen with _ | _
    · exact hfail
    refine Safe.bind (safe_killedPipe fun b => ?_)
    cases b with
    | true => exact hfail
    | false =>
      -- the rest of the round, when the read end is open
      simp only [Bool.false_eq_true, if_false]
      refine Safe.bind (safe_lookPipe hhold ?_)
      split
      · rename_i hfull
        refine Safe.bind (safe_wakeupPipe fun owe hsub hnread => ?_)
        refine Safe.bind (safe_sleepPipe hhold hph (fun ch => ?_) ?_ fun pi' => ?_)
        · cases ch with
          | nread => exact hnread
          | nwrite => exact (hsub .nwrite).trans howe
        · exact ⟨by simpa [Pipe.full] using hfull, hopen⟩
        · exact ih rfl rfl (Set.empty_subset _) (fun _ => Set.empty_subset _) le_rfl hcur hx
      · rename_i hfull
        have hfull' : pi.full = false := by simpa using hfull
        have hnot : pi.nwrite ≠ u32 (pi.nread + PIPESIZE) := by simpa [Pipe.full] using hfull
        have hlen : x.wrote.length = i := by
          have := congrArg List.length hx
          simpa using this
        rcases hbuf : buf i with _ | ch
        · exact safe_pipewriteEnd hhold hph howe hcur hx fun _ => hbuf
        refine Safe.bind (safe_editPipe (update g.owe .nread Set.univ)
          (some (x.upd (.append (N := N) buf ch))) hhold ?_ ?_ ?_ ?_ ?_ ?_ ?_ ?_)
        · rintro q (_ | _) (hq | hq)
          · exact .inr (Set.mem_univ q)
          · exact .inr (Set.mem_univ q)
          · exact absurd hq.1 hnot
          · exact .inr hq
        · exact fun hok => (hok.append hfull' ch).1
        · intro η hok hfifo
          rw [(hok.append hfull' ch).2]
          simp [PipeHist.upd, PipeHist.note, hfifo]
        · intro η hc c hcc
          rw [← Option.some.inj hcc, ← hc x hcur]
          exact update_self ..
        · exact fun η r hr => update_of_ne hr _ _
        · exact fun η => rfl
        · intro s η hc
          show buf (η.cur p).wrote.length = some ch
          rw [hc x hcur, hlen, hbuf]
        · refine ih rfl hph howe (fun he => absurd he (by omega)) (by omega) rfl ?_
          simp [PipeLocal.upd, List.range_succ, hx, hbuf]

lemma safe_pipereadEnd (hhold : g.hold = some pi) (hph : g.phase = .run)
    (howe : g.owe .nread ⊆ {p}) (hcur : g.cur = some x) (hi : i ≤ n.toNat)
    (hvalid : ∀ j < i, valid j = true)
    (hx : x.read.length = i ∨ (x.read.length = i + 1 ∧ valid i = false))
    (heof : i = 0 → 0 < n → valid 0 = true → pi.nread = pi.nwrite ∧ pi.writeopen = false) :
    (pipeProtocol N).Safe p (PipeEnded (ReadResult valid n)) (pipereadEnd p valid n i) g := by
  refine Safe.bind (safe_wakeupPipe fun owe hsub hnwrite => ?_)
  refine Safe.bind (safe_notePipe (fun x => { x with ended := some i })
    (some { x with ended := some i }) (fun η => rfl) (fun y hy c hc => ?_) (fun s η hs _ => ?_) ?_)
  · rw [hy x hcur]
    exact Option.some.inj hc
  · show i = 0 → 0 < n → valid 0 = true → _
    rw [hs pi hhold]
    exact heof
  refine Safe.bind (safe_releasePaid hhold hph (fun ch => ?_) ?_)
  · cases ch with
    | nread => exact (hsub .nread).trans howe
    | nwrite => exact hnwrite
  · exact safe_ret ⟨⟨rfl, hph⟩, _, rfl, .inr ⟨i, rfl, rfl, hi, hvalid, hx⟩⟩

lemma safe_pipereadCopy {k : ℕ} (hhold : g.hold = some pi) (hph : g.phase = .run)
    (howe : g.owe .nread ⊆ {p}) (hcur : g.cur = some x) (hk : k + i = n.toNat)
    (hvalid : ∀ j < i, valid j = true) (hx : x.read.length = i)
    (heof : i = 0 → pi.nread = pi.nwrite → pi.writeopen = false) :
    (pipeProtocol N).Safe p (PipeEnded (ReadResult valid n)) (pipereadCopy p valid n k i) g := by
  induction k generalizing g i pi x with
  | zero =>
    refine safe_pipereadEnd hhold hph howe hcur (by omega) hvalid (.inl hx) fun hi hn _ => ?_
    omega
  | succ k ih =>
    refine Safe.bind (safe_lookPipe hhold ?_)
    split
    · rename_i hempty
      have heq : pi.nread = pi.nwrite := by simpa [Pipe.empty] using hempty
      exact safe_pipereadEnd hhold hph howe hcur (by omega) hvalid (.inl hx)
        fun hi _ _ => ⟨heq, heof hi heq⟩
    rename_i hempty
    have hempty' : pi.empty = false := by simpa using hempty
    have hnot : pi.nread ≠ pi.nwrite := by simpa [Pipe.empty] using hempty
    refine Safe.bind (safe_lookPipe hhold ?_)
    refine Safe.bind (safe_editPipe (update g.owe .nwrite Set.univ)
      (some (x.upd (.remove (N := N) pi.head))) hhold ?_ ?_ ?_ ?_ ?_ ?_ ?_ ?_)
    · rintro q (_ | _) (hq | hq)
      · exact absurd hq.1 hnot
      · exact .inr hq
      · exact .inr (Set.mem_univ q)
      · exact .inr (Set.mem_univ q)
    · exact fun hok => (hok.remove hempty').1
    · intro η hok hfifo
      rw [(hok.remove hempty').2] at hfifo
      simp [PipeHist.upd, PipeHist.note, hfifo]
    · intro η hc c hcc
      rw [← Option.some.inj hcc, ← hc x hcur]
      exact update_self ..
    · exact fun η r hr => update_of_ne hr _ _
    · exact fun η => rfl
    · exact fun s η _ => trivial
    have hread : (x.upd (.remove (N := N) pi.head)).read.length = i + 1 := by
      simp [PipeLocal.upd, hx]
    split
    · rename_i hv
      refine ih rfl hph howe rfl (by omega) (fun j hj => ?_) hread (by omega)
      obtain hj | rfl := Nat.lt_succ_iff_lt_or_eq.mp hj
      · exact hvalid j hj
      · exact hv
    · rename_i hv
      refine safe_pipereadEnd rfl hph howe rfl (by omega) hvalid
        (.inr ⟨hread, by simpa using hv⟩) fun hi _ hv0 => ?_
      rw [hi] at hv
      exact absurd hv0 hv

lemma safe_pipereadFrom (hhold : g.hold = some pi) (hph : g.phase = .run)
    (howe : ∀ ch, g.owe ch ⊆ {p}) (hcur : g.cur = some x) (hx : x.read = []) :
    (pipeProtocol N).Safe p (PipeEnded (ReadResult valid n)) (pipereadFrom p valid n rounds) g := by
  induction rounds generalizing g pi with
  | zero => exact safe_haltPipe
  | succ rounds ih =>
    refine Safe.bind (safe_lookPipe hhold ?_)
    split
    · rename_i hwait
      rw [Bool.and_eq_true] at hwait
      refine Safe.bind (safe_killedPipe fun b => ?_)
      cases b with
      | true =>
        exact Safe.bind (safe_releasePaid hhold hph howe
          (safe_ret ⟨⟨rfl, hph⟩, x, hcur, .inl ⟨rfl, hx⟩⟩))
      | false =>
        refine Safe.bind (safe_sleepPipe hhold hph howe ⟨?_, hwait.2⟩ fun pi' => ?_)
        · simpa [Pipe.empty] using hwait.1
        · exact ih rfl rfl (fun _ => Set.empty_subset _) hcur
    · rename_i hwait
      refine safe_pipereadCopy hhold hph (howe .nread) hcur (Nat.add_zero _) (by simp) (by simp [hx])
        fun _ heq => ?_
      simpa [Pipe.empty, heq] using hwait

lemma safe_pipeclose {writable : Bool} (hph : g.phase = .run) :
    (pipeProtocol N).Safe p PipeDone (pipeclose p writable) g := by
  refine Safe.bind (safe_acquirePipe hph fun pi => ?_)
  refine Safe.bind (safe_editPipe
    (fun c => if c = (if writable then .nread else .nwrite) then Set.univ else ∅) g.cur rfl
    ?_ ?_ ?_ ?_ ?_ ?_ ?_ ?_)
  · cases writable <;> rintro q (_ | _) (hq | hq) <;>
      simp_all [PipeChan.Waits, Pipe.close]
  · cases writable <;> exact fun hok => ⟨hok.nread_lt, hok.nwrite_lt, hok.count_le⟩
  · cases writable <;> exact fun η _ hfifo => hfifo
  · exact fun η hc c hcc => hc c hcc
  · exact fun η r _ => rfl
  · exact fun η => rfl
  · exact fun s η _ => trivial
  refine Safe.bind (safe_wakeupPipe fun owe hsub hch => ?_)
  refine safe_releasePaid rfl rfl (fun c => ?_) ⟨rfl, rfl⟩
  by_cases hc : c = (if writable then .nread else .nwrite)
  · rw [hc]
    exact hch
  · refine (hsub c).trans ?_
    simp [hc]

/-- Every call on a pipe keeps the invariant. -/
lemma pipeMachine_verified (N : ℕ) : (pipeProtocol N).Verified (pipeMachine N) where
  start s η γ p x hinv hidle _ := by
    refine ⟨.idle, PipeInv.keep hinv hidle, ?_⟩
    cases x with
    | write buf n rounds =>
      refine Safe.bind (safe_callPipe ?_)
      refine Safe.seq (Safe.bind (safe_acquirePipe rfl fun pi => safe_pipewriteFrom rfl rfl
        (Set.empty_subset _) (fun _ => Set.empty_subset _) le_rfl rfl rfl)) ?_
      rintro r g ⟨hfin, x, hcur, hres⟩
      refine safe_returnPipe hcur (fun _ => rfl) (fun s η hx => ?_) hfin
      show WriteResult buf n r (η.cur p)
      rwa [hx]
    | read valid n rounds =>
      refine Safe.bind (safe_callPipe ?_)
      refine Safe.seq (Safe.bind (safe_acquirePipe rfl fun pi => safe_pipereadFrom rfl rfl
        (fun _ => Set.empty_subset _) rfl rfl)) ?_
      rintro r g ⟨hfin, x, hcur, hres⟩
      refine safe_returnPipe hcur (fun _ => rfl) (fun s η hx => ?_) hfin
      show ReadResult valid n r (η.cur p)
      rwa [hx]
    | close writable => exact safe_pipeclose rfl
    | kill q => exact safe_killPipe ⟨rfl, rfl⟩
  finish s η γ p hinv hfin :=
    PipeInv.forget hinv hfin.1.symm hfin.2.symm (fun ch hne => absurd hfin.1 hne) (.inr rfl)

end Xv6
