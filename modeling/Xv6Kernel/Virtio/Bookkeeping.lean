import Xv6Kernel.Virtio.Steps

/-!
# The bookkeeping of the virtio disk driver

The programs of the driver and of the device keep the invariant.
-/

namespace Xv6

open Protocol Function

variable {N : ℕ} {B : Type} [DecidableEq B]
variable {l : List ℕ} {a : VdiskAct B} {i : ℕ}

def VdiskHist.Guar (η : VdiskHist N B) (d : Vdisk N B) (p : Fin N) : VdiskAct B → Prop
  -- a process frees only descriptors that it has
  | .free i => i ∈ η.held p
  -- the slot that is written is none of those that the device has not read
  | .ring _ => ∀ k, k < u16 (d.avail.idx + 2 ^ 16 - d.lastAvail) →
    (d.lastAvail + k) % NUM ≠ d.avail.idx % NUM
  -- the buffer that is cleared is that of the request with the completed head
  | .clear i b => ∃ q, η.sent q = some (i, b) ∧
    ∀ r b', η.sent r = some (i, b') → r = q ∧ b' = b
  -- the device reads the head of a published request
  | .devFetch => ∃ q b, η.sent q = some (d.avail.ring (d.lastAvail % NUM), b)
  | _ => True

def vdiskSpec (N : ℕ) (B : Type) [DecidableEq B] :
    MonSpec N (Vdisk N B) (VdiskAct B) (Option B) Unit (VdiskStage B) (VdiskHist N B) where
  view _ := ()
  waits _ _ := True
  inv := VdiskInv
  upd := VdiskHist.upd
  guar d η p a := η.Guar d p a
  tol _ := False
  sleeps _ := True
  quiet := VdiskStage.Quiet
  idle := .out

namespace VdiskStage

/-- What a thread owns while it holds `vdisk_lock`. -/
def held (x : VdiskStage B) : MonGhost N (Option B) Unit (VdiskStage B) :=
  ⟨some (), fun _ => ∅, .run, x⟩

/-- What a thread owns while it does not hold `vdisk_lock`. -/
def free (x : VdiskStage B) : MonGhost N (Option B) Unit (VdiskStage B) :=
  ⟨none, fun _ => ∅, .run, x⟩

def got (b : B) (l : List ℕ) : Option ℕ → VdiskStage B
  | none => .alloc b l
  | some i => .alloc b (l ++ [i])

end VdiskStage

namespace VdiskProg

variable {p : Fin N} {b : B} {x : VdiskStage B}

lemma safe_act {β : Type} {f : Vdisk N B → Outcome (Vdisk N B) β}
    {Q : β → MonGhost N (Option B) Unit (VdiskStage B) → Prop}
    (hpanic : ∀ d η γ msg, VdiskInv d η γ → γ p = x → f d ≠ .panic msg)
    (hdone : ∀ d η γ r d', VdiskInv d η γ → γ p = x → (∀ q, q ≠ p → (γ q).Quiet) →
      f d = .done r d' → η.Guar d p a ∧ ∃ y : VdiskStage B,
        VdiskInv d' (η.upd p a) (update γ p y) ∧ Q r y.held) :
    (monProtocol (vdiskSpec N B)).Safe p Q (Monitor.act a f) x.held := by
  refine safe_locked (fun d η γ msg hinv hp _ hf => absurd hf (hpanic d η γ msg hinv hp))
    fun d η γ r d' hinv hp hquiet _ hf => ?_
  obtain ⟨hguar, y, hinv', hQ⟩ := hdone d η γ r d' hinv hp hquiet hf
  exact ⟨hguar, y, fun _ => ∅, hinv', fun _ _ _ => .inl trivial, hQ⟩

lemma safe_do {β : Type} {v : Vdisk N B → β} {u : Vdisk N B → Vdisk N B}
    {Q : β → MonGhost N (Option B) Unit (VdiskStage B) → Prop}
    (hdone : ∀ d η γ, VdiskInv d η γ → γ p = x → (∀ q, q ≠ p → (γ q).Quiet) →
      η.Guar d p a ∧ ∃ y : VdiskStage B,
        VdiskInv (u d) (η.upd p a) (update γ p y) ∧ Q (v d) y.held) :
    (monProtocol (vdiskSpec N B)).Safe p Q (Monitor.act a fun d => .done (v d) (u d)) x.held :=
  safe_act (fun _ _ _ _ _ _ hf => by cases hf) fun d η γ _ _ hinv hp hquiet hf => by
    cases hf
    exact hdone d η γ hinv hp hquiet

lemma safe_wake {ch : Option B} {Q : Unit → MonGhost N (Option B) Unit (VdiskStage B) → Prop}
    (hQ : Q () x.held) : (monProtocol (vdiskSpec N B)).Safe p Q (Monitor.wakeup p ch) x.held := by
  refine safe_wakeup fun owe hsub _ => ?_
  have howe : owe = fun _ => ∅ := funext fun c => Set.subset_empty_iff.mp (hsub c)
  rw [howe]
  exact hQ

lemma safe_allocDesc (l : List ℕ) :
    (monProtocol (vdiskSpec N B)).Safe p (fun r g => g = (VdiskStage.got b l r).held) allocDesc
      (VdiskStage.alloc b l).held := by
  refine Safe.bind (safe_do fun d η γ hinv hp hquiet => ?_)
  rcases hscan : (List.range NUM).find? d.free with _ | i
  · refine ⟨trivial, .alloc b l, ?_, safe_ret rfl⟩
    rw [← hp, update_eq_self]
    exact hinv
  have hlt : i < NUM := List.mem_range.mp (List.mem_of_find?_eq_some hscan)
  refine ⟨trivial, .scanned b l i, ?_, ?_⟩
  · exact hinv.restage hquiet (by rw [hp]; rfl) (fun b' hb' => by rw [hp]; exact hb')
      (by rw [hp]; rfl) (fun b' _ hb' => by rw [hp] at hb'; cases hb') (by rw [hp]; rfl)
      fun _ _ _ _ => ⟨hlt, List.find?_some hscan⟩
  · refine Safe.bind (safe_do fun d η γ hinv hp hquiet => ?_)
    exact ⟨trivial, .alloc b (l ++ [i]), hinv.alloc hquiet hp, safe_ret rfl⟩

lemma safe_freeDesc {y : VdiskStage B} (hx : x.descs = i :: l) (hy : y.descs = l)
    (hbuf : ∀ b, y.buf = some b → x.buf = some b) (hbusy : x.busy = none ∧ y.busy = none)
    (hleft : x.left = none ∧ y.left = none)
    (hgood : ∀ (d : Vdisk N B) us, (i :: l).Nodup → x.Good d us → y.Good { d with
      desc := update d.desc i ⟨.null, 0, false, false, 0⟩
      free := update d.free i true } us) :
    (monProtocol (vdiskSpec N B)).Safe p (fun _ g => g = y.held) (freeDesc p i) x.held := by
  have hmem : i ∈ x.descs := by rw [hx]; exact List.mem_cons_self
  refine Safe.bind (safe_act (fun d η γ msg hinv hp hf => ?_)
    fun d η γ r d' hinv hp hquiet hf => ?_)
  all_goals rw [hinv.freeDesc_eq (p := p) (by rw [hp]; exact hmem)] at hf
  · cases hf
  · cases hf
    have hnodup := hinv.descs.nodup p
    rw [hinv.held p, hp, hx] at hnodup
    refine ⟨?_, y, ?_, safe_wake rfl⟩
    · change i ∈ η.held p
      rw [hinv.held p, hp]
      exact hmem
    · refine hinv.free hquiet (by rw [hp]; exact hx) hy (fun b hb => by rw [hp]; exact hbuf b hb)
        (by rw [hp]; exact hbusy) (by rw [hp]; exact hleft) fun us hold => ?_
      rw [hp] at hold
      exact hgood d us hnodup hold

lemma safe_freeDescs (l : List ℕ) :
    (monProtocol (vdiskSpec N B)).Safe p (fun _ g => g = (VdiskStage.alloc b []).held)
      (freeDescs p l) (VdiskStage.alloc b l).held := by
  induction l with
  | nil => exact safe_ret rfl
  | cons i l ih =>
    refine Safe.bind ((safe_freeDesc (x := .alloc b (i :: l)) (y := .alloc b l) rfl rfl
      (fun _ hb => hb) ⟨rfl, rfl⟩ ⟨rfl, rfl⟩ fun _ _ _ _ => trivial).mono ?_)
    rintro - g rfl
    exact ih

lemma safe_allocLoop (n : ℕ) (l : List ℕ) :
    (monProtocol (vdiskSpec N B)).Safe p (fun r g => r = none ∧ g = (VdiskStage.alloc b []).held ∨
        ∃ idx, r = some idx ∧ idx.length = l.length + n ∧ g = (VdiskStage.alloc b idx).held)
      (allocLoop p n l) (VdiskStage.alloc b l).held := by
  induction n generalizing l with
  | zero => exact safe_ret (.inr ⟨l, rfl, rfl, rfl⟩)
  | succ n ih =>
    refine Safe.bind ((safe_allocDesc l).mono ?_)
    rintro (_ | i) g rfl
    · refine Safe.bind ((safe_freeDescs l).mono ?_)
      rintro - g rfl
      exact safe_ret (.inl ⟨rfl, rfl⟩)
    · refine (ih (l ++ [i])).mono ?_
      rintro r g (hr | ⟨idx, hr, hlen, hg⟩)
      · exact .inl hr
      · refine .inr ⟨idx, hr, ?_, hg⟩
        rw [hlen, List.length_append, List.length_singleton]
        omega

lemma safe_allocWait (rounds : ℕ) : (monProtocol (vdiskSpec N B)).Safe p
      (fun idx g => idx.length = 3 ∧ g = (VdiskStage.alloc b idx).held)
      (allocWait p rounds) (VdiskStage.alloc b []).held := by
  induction rounds with
  | zero => exact safe_halt
  | succ rounds ih =>
    refine Safe.bind ((safe_allocLoop 3 []).mono ?_)
    rintro r g (⟨rfl, rfl⟩ | ⟨idx, rfl, hlen, rfl⟩)
    · exact Safe.bind (safe_sleep (fun _ => Set.empty_subset _) trivial trivial rfl fun _ => ih)
    · exact safe_ret ⟨hlen, rfl⟩

lemma safe_diskWait (i0 i1 i2 rounds : ℕ) :
    (monProtocol (vdiskSpec N B)).Safe p (fun _ g => g = (VdiskStage.done b i0 i1 i2).held)
      (diskWait p b rounds) (VdiskStage.sent b i0 i1 i2).held := by
  induction rounds with
  | zero => exact safe_halt
  | succ rounds ih =>
    refine Safe.bind (safe_do fun d η γ hinv hp hquiet => ?_)
    cases hb : d.disk b with
    | true =>
      refine ⟨trivial, .sent b i0 i1 i2, ?_, ?_⟩
      · rw [← hp, update_eq_self]
        exact hinv
      · rw [if_pos rfl]
        exact Safe.bind (safe_sleep (fun _ => Set.empty_subset _) trivial trivial trivial
          fun _ => ih)
    | false =>
      refine ⟨trivial, .done b i0 i1 i2, hinv.completed hquiet hp hb, ?_⟩
      rw [if_neg Bool.false_ne_true]
      exact safe_ret rfl

lemma safe_freeChain {n : ℕ} (hn : l.length < n) :
    (monProtocol (vdiskSpec N B)).Safe p (fun _ g => g = (VdiskStage.alloc b []).held)
      (freeChain p n i) (VdiskStage.freeing b (i :: l)).held := by
  induction l generalizing n i with
  | nil =>
    rcases n with _ | n
    · omega
    refine Safe.bind (safe_do fun d η γ hinv hp hquiet => ?_)
    obtain ⟨av, us, -, hgood⟩ := hinv.queue_of_locked hquiet
    have hflag := hgood p
    rw [hp] at hflag
    have hflag : (d.desc i).flagNext = false := hflag
    refine ⟨trivial, .freeing b [i], ?_, ?_⟩
    · rw [← hp, update_eq_self]
      exact hinv
    · refine Safe.bind ((safe_freeDesc (x := .freeing b [i]) (y := .alloc b []) rfl rfl
        (fun _ hb => hb) ⟨rfl, rfl⟩ ⟨rfl, rfl⟩ fun _ _ _ _ => trivial).mono ?_)
      rintro - g rfl
      simp only [hflag]
      exact safe_ret rfl
  | cons j l ih =>
    rcases n with _ | n
    · omega
    refine Safe.bind (safe_do fun d η γ hinv hp hquiet => ?_)
    obtain ⟨av, us, -, hgood⟩ := hinv.queue_of_locked hquiet
    have hchain := hgood p
    rw [hp] at hchain
    obtain ⟨hflag, hnext, -⟩ : d.IsChain (i :: j :: l) := hchain
    refine ⟨trivial, .freeing b (i :: j :: l), ?_, ?_⟩
    · rw [← hp, update_eq_self]
      exact hinv
    · refine Safe.bind ((safe_freeDesc (x := .freeing b (i :: j :: l))
        (y := .freeing b (j :: l)) rfl rfl (fun _ hb => hb) ⟨rfl, rfl⟩ ⟨rfl, rfl⟩
        fun e us hnodup hold => ?_).mono ?_)
      · have hold : e.IsChain (i :: j :: l) := hold
        refine Vdisk.IsChain.congr hold.2.2 fun k hk => ?_
        have hki : k ≠ i := fun he => (List.nodup_cons.mp hnodup).1 (he ▸ hk)
        exact update_of_ne hki _ _
      · rintro - g rfl
        simp only [hflag, hnext]
        exact ih (by rw [List.length_cons] at hn; omega)

lemma safe_virtioDiskRw (write : Bool) (blockno rounds : ℕ) :
    (monProtocol (vdiskSpec N B)).Safe p (fun _ g => g = (VdiskStage.alloc b []).free)
      (virtioDiskRw p b write blockno rounds) (VdiskStage.alloc b []).free := by
  refine Safe.bind (safe_acquire fun _ => Safe.bind ((safe_allocWait rounds).mono ?_))
  rintro idx g ⟨hlen, rfl⟩
  obtain ⟨i0, i1, i2, rfl⟩ := List.length_eq_three.mp hlen
  refine Safe.bind (safe_do fun d η γ hinv hp hquiet => ?_)
  refine ⟨trivial, .formatted b i0 i1 i2, hinv.format hquiet hp, ?_⟩
  refine Safe.bind (safe_do fun d η γ hinv hp hquiet => ?_)
  refine ⟨hinv.ring_slot hp, .ringed b i0 i1 i2, hinv.ring hquiet hp, ?_⟩
  refine Safe.bind (safe_do fun d η γ hinv hp hquiet => ?_)
  refine ⟨trivial, .sent b i0 i1 i2, hinv.publish hquiet hp, ?_⟩
  refine Safe.bind ((safe_diskWait i0 i1 i2 rounds).mono ?_)
  rintro - g rfl
  refine Safe.bind (safe_do fun d η γ hinv hp hquiet => ?_)
  refine ⟨trivial, .freeing b [i0, i1, i2], hinv.clearInfo hquiet hp, ?_⟩
  refine Safe.bind ((safe_freeChain (l := [i1, i2]) (by change 2 < 8; decide)).mono ?_)
  rintro - g rfl
  exact safe_release (fun _ => Set.empty_subset _) rfl rfl

lemma safe_intrLoop (rounds : ℕ) :
    (monProtocol (vdiskSpec N B)).Safe p (fun _ g => g = (VdiskStage.out (B := B)).held)
      (intrLoop p rounds) (VdiskStage.out (B := B)).held := by
  induction rounds with
  | zero => exact safe_halt
  | succ rounds ih =>
    refine Safe.bind (safe_do fun d η γ hinv hp hquiet => ?_)
    by_cases hne : d.usedIdx ≠ d.used.idx
    · refine ⟨trivial, .seen, ?_, ?_⟩
      · refine hinv.restage hquiet (by rw [hp]; rfl) (fun _ hb => by cases hb) (by rw [hp]; rfl)
          (fun b' _ hb' => by rw [hp] at hb'; cases hb') (by rw [hp]; rfl) fun av us hQ _ => ?_
        rw [hp] at hQ
        exact hQ.exists_us hne
      rw [if_pos (decide_eq_true hne)]
      refine Safe.bind (safe_do fun d η γ hinv hp hquiet => ?_)
      refine ⟨trivial, .entry (d.used.ring (d.usedIdx % NUM)), ?_, ?_⟩
      · refine hinv.restage hquiet (by rw [hp]; rfl) (fun _ hb => by cases hb) (by rw [hp]; rfl)
          (fun b' _ hb' => by rw [hp] at hb'; cases hb') (by rw [hp]; rfl) fun av us hQ hold => ?_
        rw [hp] at hQ hold
        cases us with
        | nil => exact absurd rfl hold
        | cons i l => exact congrArg some (hQ.usedRing 0 i rfl).symm
      generalize d.used.ring (d.usedIdx % NUM) = i
      -- the request with the completed head, of which the handler reads the status and the buffer
      have hentry : ∀ (d : Vdisk N B) η γ, VdiskInv d η γ → γ p = .entry i →
          (d.info i).status = 0 ∧ ∃ b, (d.info i).b = some b := by
        intro d η γ hinv hp
        obtain ⟨av, us, c, hQ, hgood, -⟩ := hinv.queue
        have hhead := hgood p
        rw [hp] at hhead
        have hmem : i ∈ us := List.mem_of_mem_head? hhead
        obtain ⟨q, b, i1, i2, -, -, hreq⟩ :=
          hinv.exists_sent hQ hgood (.inr (.inr hmem))
        exact ⟨hQ.status i (.inr hmem), b, hreq.buf⟩
      refine Safe.bind (safe_act (fun d η γ msg hinv hp hf => ?_)
        fun d η γ r d' hinv hp hquiet hf => ?_)
      all_goals
        obtain ⟨hst, b, hb⟩ := hentry d η γ hinv hp
        rw [if_neg (not_not.mpr hst)] at hf
        simp only [hb] at hf
        cases hf
      refine ⟨trivial, .found i r, ?_, ?_⟩
      · refine hinv.restage hquiet (by rw [hp]; rfl) (fun _ hb => by cases hb) (by rw [hp]; rfl)
          (fun b' _ hb' => by rw [hp] at hb'; cases hb') (by rw [hp]; rfl) fun av us _ hold => ?_
        rw [hp] at hold
        exact ⟨hold, hb⟩
      refine Safe.bind (safe_do fun d η γ hinv hp hquiet => ?_)
      obtain ⟨⟨q, hq⟩, hinv'⟩ := hinv.clear hquiet hp
      refine ⟨⟨q, hq, fun r b' hr => hinv.sent_unique hq hr⟩, .cleared i, hinv', ?_⟩
      refine Safe.bind (safe_wake (Safe.bind (safe_do fun d η γ hinv hp hquiet => ?_)))
      exact ⟨trivial, .out, hinv.advance hquiet hp, ih⟩
    · refine ⟨trivial, .out, ?_, ?_⟩
      · rw [← hp, update_eq_self]
        exact hinv
      · rw [if_neg (by simpa using hne)]
        exact safe_ret rfl

lemma safe_device {f : Vdisk N B → Outcome (Vdisk N B) Unit} (hpanic : ∀ d msg, f d ≠ .panic msg)
    (hupd : ∀ η : VdiskHist N B, η.upd p a = η)
    (hdone : ∀ d η γ r d', VdiskInv d η γ → f d = .done r d' → η.Guar d p a ∧ VdiskInv d' η γ) :
    (monProtocol (vdiskSpec N B)).Safe p (fun _ g => g = (VdiskStage.out (B := B)).free)
      (Monitor.act a f) (VdiskStage.out (B := B)).free := by
  refine safe_unlocked rfl (fun d η γ msg _ _ hf => absurd hf (hpanic d msg))
    fun d η γ r d' hinv hp hf => ?_
  obtain ⟨hguar, hinv'⟩ := hdone d η γ r d' hinv hf
  have hp : γ p = .out := hp
  refine ⟨hguar, rfl, .out, ?_, fun _ => trivial, rfl⟩
  have hη : (vdiskSpec N B).upd η p a = η := hupd η
  rw [← hp, update_eq_self, hη]
  exact hinv'

lemma safe_devFetch : (monProtocol (vdiskSpec N B)).Safe p
    (fun _ g => g = (VdiskStage.out (B := B)).free) devFetch (VdiskStage.out (B := B)).free := by
  refine safe_device (fun d msg hf => ?_) (fun _ => rfl) fun d η γ r d' hinv hf => ?_
  · split at hf <;> cases hf
  · split at hf
    · cases hf
    · rename_i hne
      cases hf
      exact hinv.fetch hne

lemma safe_devStatus (i : ℕ) :
    (monProtocol (vdiskSpec N B)).Safe p (fun _ g => g = (VdiskStage.out (B := B)).free)
      (devStatus i) (VdiskStage.out (B := B)).free := by
  refine safe_device (fun d msg hf => ?_) (fun _ => rfl) fun d η γ r d' hinv hf => ?_
  · split at hf <;> cases hf
  · split at hf
    · rename_i hi
      cases hf
      exact ⟨trivial, hinv.writeStatus hi⟩
    · cases hf

lemma safe_devUsed (i : ℕ) :
    (monProtocol (vdiskSpec N B)).Safe p (fun _ g => g = (VdiskStage.out (B := B)).free)
      (devUsed i) (VdiskStage.out (B := B)).free := by
  refine safe_device (fun d msg hf => ?_) (fun _ => rfl) fun d η γ r d' hinv hf => ?_
  · split at hf <;> cases hf
  · split at hf
    · rename_i hi
      cases hf
      exact ⟨trivial, hinv.complete hi⟩
    · cases hf

end VdiskProg

open VdiskProg in
lemma vdiskMachine_verified : (monProtocol (vdiskSpec N B)).Verified (vdiskMachine N B) := by
  refine monProtocol_verified fun p x => ?_
  have hfin : ∀ g : MonGhost N (Option B) Unit (VdiskStage B), g = VdiskStage.out.free →
      (monProtocol (vdiskSpec N B)).fin g := by
    rintro g rfl
    exact ⟨rfl, rfl, rfl⟩
  cases x with
  | rw b write blockno rounds =>
    refine Safe.bind (safe_unlocked rfl (fun d η γ msg _ _ hf => ?_)
      fun d η γ r d' hinv hp hf => ?_)
    · split at hf <;> cases hf
    split at hf
    · rename_i hlock
      cases hf
      refine ⟨trivial, rfl, .alloc b [], VdiskInv.lockBuf hinv hp hlock, fun _ => rfl, ?_⟩
      refine Safe.bind ((safe_virtioDiskRw write blockno rounds).mono ?_)
      rintro - g rfl
      refine safe_unlocked rfl (fun d η γ msg _ _ hf => by cases hf) fun d η γ r d' hinv hp hf => ?_
      cases hf
      exact ⟨trivial, rfl, .out, VdiskInv.unlockBuf hinv hp, fun _ => trivial, hfin _ rfl⟩
    · cases hf
  | intr rounds =>
    refine Safe.bind (safe_acquire fun _ => Safe.bind ((safe_intrLoop rounds).mono ?_))
    rintro - g rfl
    exact safe_release (fun _ => Set.empty_subset _) trivial (hfin _ rfl)
  | fetch => exact safe_devFetch.mono fun _ => hfin
  | status i => exact (safe_devStatus i).mono fun _ => hfin
  | used i => exact (safe_devUsed i).mono fun _ => hfin

/-! ## Runs -/

def VdiskHist.run (tr : List (Fin N × MonAct N (VdiskAct B) (Option B))) : VdiskHist N B :=
  tr.foldl (fun η e => (vdiskSpec N B).hist η e.1 e.2) ⟨fun _ => [], fun _ => none⟩

end Xv6
