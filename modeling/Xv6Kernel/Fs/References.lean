import Xv6Kernel.Fs.Disk

/-!
# The holders of references to inodes

What the processes hold in the middle of their system calls: references to inodes, an entry that is
about to be made in `sys_link`, and an inode without entries that the process frees when it gives up
its reference, which is the only one.
-/

namespace Xv6

open Function

variable {t : Entry} {dp : ℕ}

namespace Fs

open Finset Protocol

/-! ## The references -/

structure Own where
  refs : List ℕ
  pend : Option ℕ
  /-- The inode without entries that it is about to free. -/
  dead : Option ℕ
  inOp : Bool

def ind (o : Option ℕ) (i : ℕ) : ℕ := if o = some i then 1 else 0

structure Dead {N K : ℕ} (s : Sys N K) (i : ℕ) : Prop where
  ref : s.ref i = 1
  root : i ≠ ROOTINO
  kind : s.disk.kind i ≠ .free
  nlink : s.disk.nlink i = 0
  ents : ∀ t ∈ s.disk.ents, t.dir ≠ i ∧ t.inum ≠ i

variable {N K : ℕ}

def Owed (γ : Fin N → Own) (i : ℕ) : Prop := ∃ p, (γ p).pend = some i ∨ (γ p).dead = some i

structure FsInv (s : Sys N K) (γ : Fin N → Own) : Prop where
  ref : ∀ i, s.ref i = ∑ p, (γ p).refs.count i + ∑ k, ind (s.slot k) i
  out : ∀ p, s.out p = (γ p).inOp
  /-- Outside of transactions processes are responsible for nothing. -/
  rest : ∀ p, (γ p).inOp = false → (γ p).pend = none ∧ (γ p).dead = none
  disk : DiskInv s.disk (fun i => ∑ p, ind (γ p).pend i) (Owed γ)
  pend : ∀ p i, (γ p).pend = some i → s.disk.kind i = .file ∧ i ∈ (γ p).refs
  dead : ∀ p i, (γ p).dead = some i → Dead s i ∧ i ∈ (γ p).refs
  stable : DiskOk s.stable

namespace FsInv

variable {s s' : Sys N K} {γ : Fin N → Own} {p q : Fin N} {g : Own} {l l' : List ℕ}
  {o dd : Option ℕ} {i e : ℕ}

section

variable (h : FsInv s γ)
include h

lemma two_le_ref (hpq : p ≠ q) (hp : i ∈ (γ p).refs) (hq : i ∈ (γ q).refs) :
    2 ≤ s.ref i := by
  have h1 : 1 ≤ (γ p).refs.count i := List.count_pos_iff.mpr hp
  have h2 : 1 ≤ (γ q).refs.count i := List.count_pos_iff.mpr hq
  have hsum : (γ p).refs.count i + (γ q).refs.count i ≤ ∑ r, (γ r).refs.count i := by
    calc (γ p).refs.count i + (γ q).refs.count i
        = ∑ r ∈ {p, q}, (γ r).refs.count i :=
          (sum_pair (f := fun r => (γ r).refs.count i) hpq).symm
      _ ≤ ∑ r, (γ r).refs.count i := sum_le_sum_of_subset (subset_univ _)
  have href := h.ref i
  omega

lemma two_le_ref_slot {k : Fin K} (hp : i ∈ (γ p).refs)
    (hk : s.slot k = some i) : 2 ≤ s.ref i := by
  have h1 : 1 ≤ (γ p).refs.count i := List.count_pos_iff.mpr hp
  have h2 : (γ p).refs.count i ≤ ∑ r, (γ r).refs.count i :=
    single_le_sum (f := fun r => (γ r).refs.count i) (fun r _ => Nat.zero_le _) (mem_univ p)
  have h3 : ind (s.slot k) i ≤ ∑ k, ind (s.slot k) i :=
    single_le_sum (f := fun k => ind (s.slot k) i) (fun k _ => Nat.zero_le _) (mem_univ k)
  have h4 : ind (s.slot k) i = 1 := by simp [ind, hk]
  have href := h.ref i
  omega

lemma not_dead (hp : i ∈ (γ p).refs) (hd : (γ p).dead ≠ some i) (q : Fin N) :
    (γ q).dead ≠ some i := by
  intro hq
  by_cases hqp : q = p
  · exact hd (hqp ▸ hq)
  obtain ⟨hdead, hmem⟩ := h.dead q i hq
  have htwo := h.two_le_ref hqp hmem hp
  have hone := hdead.ref
  omega

lemma not_dead_slot {k : Fin K} (hk : s.slot k = some i) (q : Fin N) :
    (γ q).dead ≠ some i := by
  intro hq
  obtain ⟨hdead, hmem⟩ := h.dead q i hq
  have htwo := h.two_le_ref_slot hmem hk
  have hone := hdead.ref
  omega

lemma not_dead_entry (ht : t ∈ s.disk.ents) (q : Fin N) :
    (γ q).dead ≠ some t.inum ∧ (γ q).dead ≠ some t.dir :=
  ⟨fun hq => ((h.dead q _ hq).1.ents t ht).2 rfl, fun hq => ((h.dead q _ hq).1.ents t ht).1 rfl⟩

end

lemma sum_pend (γ : Fin N → Own) (p : Fin N) (g : Own) (i : ℕ) :
    ∑ q, ind (update γ p g q).pend i + ind (γ p).pend i = ∑ q, ind (γ q).pend i + ind g.pend i :=
  sum_update_add (fun g : Own => ind g.pend i) γ p g

lemma sum_pend_same (hp : (γ p).pend = g.pend) (i : ℕ) :
    ∑ q, ind (update γ p g q).pend i = ∑ q, ind (γ q).pend i := by
  have hsum := sum_pend γ p g i
  rw [hp] at hsum
  omega

lemma change (h : FsInv s γ)
    (href : ∀ i, s'.ref i + ((γ p).refs.count i + ∑ k, ind (s.slot k) i) =
      s.ref i + (g.refs.count i + ∑ k, ind (s'.slot k) i))
    (hout : s'.out = s.out) (hin : g.inOp = (γ p).inOp)
    (hrest : g.inOp = false → g.pend = none ∧ g.dead = none)
    (hdisk : DiskInv s'.disk (fun i => ∑ q, ind (update γ p g q).pend i) (Owed (update γ p g)))
    (hpend : ∀ i, g.pend = some i → s'.disk.kind i = .file ∧ i ∈ g.refs)
    (hpends : ∀ q i, q ≠ p → (γ q).pend = some i → s.disk.kind i = .file → s'.disk.kind i = .file)
    (hdead : ∀ i, g.dead = some i → Dead s' i ∧ i ∈ g.refs)
    (hdeads : ∀ q i, q ≠ p → (γ q).dead = some i → Dead s i → Dead s' i)
    (hstable : s'.stable = s.stable) : FsInv s' (update γ p g) := by
  refine ⟨fun j => ?_, fun q => ?_, fun q hq => ?_, hdisk, fun q j hq => ?_, fun q j hq => ?_,
    hstable ▸ h.stable⟩
  · have hsum := sum_update_add (fun g : Own => g.refs.count j) γ p g
    have hold := h.ref j
    have hnew := href j
    omega
  · rw [hout, h.out q]
    by_cases hqp : q = p
    · subst hqp
      rw [update_self, hin]
    · rw [update_of_ne hqp]
  · by_cases hqp : q = p
    · subst hqp
      rw [update_self] at hq ⊢
      exact hrest hq
    · rw [update_of_ne hqp] at hq ⊢
      exact h.rest q hq
  · by_cases hqp : q = p
    · subst hqp
      rw [update_self] at hq ⊢
      exact hpend j hq
    · rw [update_of_ne hqp] at hq ⊢
      obtain ⟨h1, h2⟩ := h.pend q j hq
      exact ⟨hpends q j hqp hq h1, h2⟩
  · by_cases hqp : q = p
    · subst hqp
      rw [update_self] at hq ⊢
      exact hdead j hq
    · rw [update_of_ne hqp] at hq ⊢
      obtain ⟨h1, h2⟩ := h.dead q j hq
      exact ⟨hdeads q j hqp hq h1, h2⟩

lemma same (h : FsInv s γ) (hp : γ p = g) : FsInv s (update γ p g) := by
  rw [← hp, update_eq_self]
  exact h

lemma owed_update {j : ℕ} (h : Owed γ j)
    (hp : (γ p).pend = some j ∨ (γ p).dead = some j → g.pend = some j ∨ g.dead = some j) :
    Owed (update γ p g) j := by
  obtain ⟨q, hq⟩ := h
  by_cases hqp : q = p
  · subst hqp
    exact ⟨q, by rw [update_self]; exact hp hq⟩
  · exact ⟨q, by rw [update_of_ne hqp]; exact hq⟩

lemma moveRefs (h : FsInv s γ) (hp : γ p = ⟨l, o, dd, true⟩) (hdisk : s'.disk = s.disk)
    (hout : s'.out = s.out) (hstable : s'.stable = s.stable)
    (href : ∀ i, s'.ref i + (l.count i + ∑ k, ind (s.slot k) i) =
      s.ref i + (l'.count i + ∑ k, ind (s'.slot k) i))
    (hpend : ∀ i, o = some i → i ∈ l') (hdead : ∀ i, dd = some i → i ∈ l')
    (hsame : ∀ q i, (γ q).dead = some i → s'.ref i = s.ref i) :
    FsInv s' (update γ p ⟨l', o, dd, true⟩) := by
  have hkeep : ∀ q i, (γ q).dead = some i → Dead s i → Dead s' i := fun q i hq hd =>
    ⟨(hsame q i hq).trans hd.ref, hd.root, by rw [hdisk]; exact hd.kind, by
      rw [hdisk]
      exact hd.nlink, by rw [hdisk]; exact hd.ents⟩
  refine h.change (by rw [hp]; exact href) hout (by rw [hp]) (fun hx => by cases hx) ?_
    (fun i hi => ⟨?_, hpend i hi⟩) (fun q i _ _ hk => by rw [hdisk]; exact hk)
    (fun i hi => ⟨?_, hdead i hi⟩) (fun q i _ hq => hkeep q i hq) hstable
  · rw [hdisk]
    refine h.disk.mono (fun i => ?_) fun i hi => owed_update hi fun hx => by rw [hp] at hx; exact hx
    exact sum_pend_same (by rw [hp]) i
  · rw [hdisk]
    exact (h.pend p i (by rw [hp]; exact hi)).1
  · have hpi : (γ p).dead = some i := by rw [hp]; exact hi
    exact hkeep p i hpi (h.dead p i hpi).1

lemma ref_get (s : Sys N K) (e i : ℕ) :
    (s.get e).ref i = s.ref i + if e = i then 1 else 0 := by
  change update s.ref e (s.ref e + 1) i = _
  by_cases hie : i = e
  · subst hie
    simp
  · simp [hie, Ne.symm hie]

lemma count_get (s : Sys N K) (l : List ℕ) (e i : ℕ) :
    (s.get e).ref i + (l.count i + ∑ k, ind (s.slot k) i) =
      s.ref i + ((e :: l).count i + ∑ k, ind (s.slot k) i) := by
  rw [ref_get, List.count_cons]
  simp only [beq_iff_eq]
  omega

lemma get (h : FsInv s γ) (hp : γ p = ⟨l, o, none, true⟩) (he : ∀ q, (γ q).dead ≠ some e) :
    FsInv (s.get e) (update γ p ⟨e :: l, o, none, true⟩) := by
  refine h.moveRefs hp rfl rfl rfl (count_get s l e) (fun i hi => ?_) (fun i hi => by cases hi)
    fun q i hq => ?_
  · have hmem := (h.pend p i (by rw [hp]; exact hi)).2
    rw [hp] at hmem
    exact List.mem_cons_of_mem e hmem
  · have hie : i ≠ e := fun hx => he q (hx ▸ hq)
    exact update_of_ne hie _ _

lemma dead_of_nlink (h : FsInv s γ) (hmem : e ∈ (γ p).refs) (hk : s.disk.kind e ≠ .free)
    (hfree : s.ref e = 1 ∧ s.disk.nlink e = 0) : (γ p).dead = some e ∧ ∀ q, (γ q).pend ≠ some e := by
  have hroot : e ≠ ROOTINO := by
    rintro rfl
    have := h.disk.root.2.2
    omega
  have hn : s.disk.nlink e = s.disk.links e + ∑ r, ind (γ r).pend e := h.disk.nlink e hroot hk
  have hpend : ∀ q, (γ q).pend ≠ some e := by
    intro q hpq
    have hle : ind (γ q).pend e ≤ ∑ r, ind (γ r).pend e :=
      single_le_sum (f := fun r => ind (γ r).pend e) (fun r _ => Nat.zero_le _) (mem_univ q)
    have hone : ind (γ q).pend e = 1 := by simp [ind, hpq]
    omega
  refine ⟨?_, hpend⟩
  by_contra hne
  obtain ⟨q, hq⟩ := h.disk.named e hroot hk (by omega)
  exact h.not_dead hmem hne q (hq.resolve_left (hpend q))

lemma free (h : FsInv s γ) (hp : γ p = ⟨l, o, dd, true⟩) (hel : e ∈ l)
    (hfree : s.ref e = 1 ∧ s.disk.nlink e = 0) :
    FsInv { s with disk := s.disk.release e }
      (update γ p ⟨l, o, if dd = some e then none else dd, true⟩) := by
  have hmem : e ∈ (γ p).refs := by
    rw [hp]
    exact hel
  by_cases hk : s.disk.kind e = .free
  · -- the inode is free already
    have hdde : dd ≠ some e := fun hx => (h.dead p e (by rw [hp]; exact hx)).1.kind hk
    rw [if_neg hdde, ← hp, update_eq_self, h.disk.release_free hk]
    exact h
  obtain ⟨hdd, hpend⟩ := h.dead_of_nlink hmem hk hfree
  have hdead := (h.dead p e hdd).1
  have hdde : dd = some e := by
    rw [hp] at hdd
    exact hdd
  rw [if_pos hdde]
  have hkind : ∀ i, i ≠ e → (s.disk.release e).kind i = s.disk.kind i := fun i hie =>
    update_of_ne hie _ _
  have hfile : ∀ q i, (γ q).pend = some i → (s.disk.release e).kind i = .file := by
    intro q i hq
    rw [hkind i fun hx => hpend q (hx ▸ hq)]
    exact (h.pend q i hq).1
  refine h.change (fun i => by rw [hp]) rfl (by rw [hp]) (fun hx => by cases hx) ?_
    (fun i hi => ?_) (fun q i _ hq _ => hfile q i hq) (fun i hi => by cases hi)
    (fun q i hqp hq hd => ?_) rfl
  · refine (h.disk.release hdead.root hdead.ents fun j hj hjo =>
      owed_update hjo fun hx => ?_).mono (fun i => ?_) fun _ hx => hx
    · rw [hp] at hx
      rcases hx with hx | hx
      · exact .inl hx
      have hx : dd = some j := hx
      rw [hdde] at hx
      cases hx
      exact absurd rfl hj
    · exact sum_pend_same (by rw [hp]) i
  · have hpi : (γ p).pend = some i := by rw [hp]; exact hi
    have hil := (h.pend p i hpi).2
    rw [hp] at hil
    exact ⟨hfile p i hpi, hil⟩
  · have hie : i ≠ e := by
      rintro rfl
      have htwo := h.two_le_ref hqp (h.dead q i hq).2 hmem
      omega
    refine ⟨hd.ref, hd.root, ?_, hd.nlink, fun t ht => hd.ents t (List.mem_of_mem_filter ht)⟩
    change (s.disk.release e).kind i ≠ .free
    rw [hkind i hie]
    exact hd.kind

lemma drop (h : FsInv s γ) (hp : γ p = ⟨l, o, dd, true⟩) (hl : l.Perm (e :: l'))
    (ho : ∀ i, o = some i → i ∈ l') (hdde : dd ≠ some e) :
    FsInv (s.drop e) (update γ p ⟨l', o, dd, true⟩) := by
  have hmem : e ∈ (γ p).refs := by
    rw [hp]
    exact hl.mem_iff.mpr List.mem_cons_self
  have hdead : ∀ q, (γ q).dead ≠ some e := h.not_dead hmem (by rw [hp]; exact hdde)
  have hpos : 1 ≤ s.ref e := by
    have h1 : 1 ≤ (γ p).refs.count e := List.count_pos_iff.mpr hmem
    have h2 : (γ p).refs.count e ≤ ∑ r, (γ r).refs.count e :=
      single_le_sum (f := fun r => (γ r).refs.count e) (fun r _ => Nat.zero_le _) (mem_univ p)
    have h3 := h.ref e
    omega
  refine h.moveRefs hp rfl rfl rfl (fun i => ?_) ho (fun i hi => ?_) fun q i hq => ?_
  · have hi : l.count i = l'.count i + if e = i then 1 else 0 := by
      rw [hl.count_eq i, List.count_cons]
      simp
    change update s.ref e (s.ref e - 1) i + _ = _ + (_ + ∑ k, ind (s.slot k) i)
    by_cases hie : i = e
    · subst hie
      rw [update_self]
      rw [if_pos rfl] at hi
      omega
    · rw [update_of_ne hie]
      rw [if_neg (Ne.symm hie)] at hi
      omega
  · have hil := (h.dead p i (by rw [hp]; exact hi)).2
    rw [hp] at hil
    exact (List.mem_cons.mp (hl.mem_iff.mp hil)).resolve_left fun hx => hdde (hx ▸ hi)
  · have hie : i ≠ e := fun hx => hdead q (hx ▸ hq)
    exact update_of_ne hie _ _

lemma sum_slot (f : Fin K → Option ℕ) (k : Fin K) (o : Option ℕ) (i : ℕ) :
    (∑ j, ind (update f k o j) i) + ind (f k) i = (∑ j, ind (f j) i) + ind o i :=
  sum_update_add (fun o => ind o i) f k o

lemma count_toList (o : Option ℕ) (l : List ℕ) (i : ℕ) :
    (o.toList ++ l).count i = ind o i + l.count i := by
  cases o with
  | none => simp [ind]
  | some j =>
    rw [List.count_append]
    simp [ind, List.count_singleton]

lemma exchange (h : FsInv s γ) {r : Option ℕ} (hp : γ p = ⟨r.toList ++ l, none, none, true⟩)
    (k : Fin K) :
    FsInv { s with slot := update s.slot k r }
      (update γ p ⟨(s.slot k).toList ++ l, none, none, true⟩) := by
  refine h.moveRefs hp rfl rfl rfl (fun i => ?_) (fun i hi => by cases hi)
    (fun i hi => by cases hi) fun _ _ _ => rfl
  have hsum := sum_slot s.slot k r i
  rw [count_toList, count_toList]
  change s.ref i + _ = s.ref i + (_ + ∑ j, ind (update s.slot k r j) i)
  omega

lemma fork (h : FsInv s γ) {k k' : Fin K} (hp : γ p = ⟨[], none, none, false⟩)
    (hdone : s.fork k k' = .done () s') : FsInv s' (update γ p ⟨[], none, none, false⟩) := by
  rw [Sys.fork] at hdone
  split at hdone
  · rename_i i hk hk'
    cases hdone
    have hkeep : ∀ q j, (γ q).dead = some j → Dead s j →
        Dead { s.get i with slot := update s.slot k' (some i) } j := by
      intro q j hq hd
      have hji : j ≠ i := fun hx => h.not_dead_slot hk q (hx ▸ hq)
      exact ⟨(update_of_ne hji _ _).trans hd.ref, hd.root, hd.kind, hd.nlink, hd.ents⟩
    refine h.change (fun j => ?_) rfl (by rw [hp]) (fun _ => ⟨rfl, rfl⟩) ?_
      (fun j hj => by cases hj) (fun _ _ _ _ hx => hx) (fun j hj => by cases hj)
      (fun q j _ hq => hkeep q j hq) rfl
    · have hsum := sum_slot s.slot k' (some i) j
      rw [hk'] at hsum
      rw [hp]
      change update s.ref i (s.ref i + 1) j + (0 + ∑ k, ind (s.slot k) j) =
        s.ref j + (0 + ∑ x, ind (update s.slot k' (some i) x) j)
      have hnone : ind none j = 0 := by simp [ind]
      by_cases hji : j = i
      · subst hji
        have hone : ind (some j) j = 1 := by simp [ind]
        rw [update_self]
        omega
      · have hzero : ind (some i) j = 0 := by simp [ind, Ne.symm hji]
        rw [update_of_ne hji]
        omega
    · rw [← hp, update_eq_self]
      exact h.disk
  · cases hdone
    exact h.same hp

lemma setOp (h : FsInv s γ) {b c : Bool} (hp : γ p = ⟨[], none, none, b⟩) {stable : Disk}
    (hstable : DiskOk stable) :
    FsInv { s with stable := stable, out := update s.out p c }
      (update γ p ⟨[], none, none, c⟩) := by
  have hsame : ∀ q, (update γ p ⟨[], none, none, c⟩ q).refs = (γ q).refs ∧
      (update γ p ⟨[], none, none, c⟩ q).pend = (γ q).pend ∧
      (update γ p ⟨[], none, none, c⟩ q).dead = (γ q).dead := by
    intro q
    by_cases hqp : q = p
    · subst hqp
      rw [update_self, hp]
      exact ⟨rfl, rfl, rfl⟩
    · rw [update_of_ne hqp]
      exact ⟨rfl, rfl, rfl⟩
  refine ⟨fun i => ?_, fun q => ?_, fun q hq => ?_, ?_, fun q i hq => ?_, fun q i hq => ?_, hstable⟩
  · simp only [(hsame _).1]
    exact h.ref i
  · by_cases hqp : q = p
    · subst hqp
      simp
    · simpa [hqp] using h.out q
  · by_cases hqp : q = p
    · subst hqp
      rw [update_self]
      exact ⟨rfl, rfl⟩
    · rw [update_of_ne hqp] at hq ⊢
      exact h.rest q hq
  · refine h.disk.mono (fun i => ?_) fun i ⟨q, hq⟩ => ⟨q, ?_⟩
    · simp only [(hsame _).2.1]
    · rwa [(hsame q).2.1, (hsame q).2.2]
  · rw [(hsame q).1]
    rw [(hsame q).2.1] at hq
    exact h.pend q i hq
  · rw [(hsame q).1]
    rw [(hsame q).2.2] at hq
    obtain ⟨hd, hmem⟩ := h.dead q i hq
    exact ⟨⟨hd.ref, hd.root, hd.kind, hd.nlink, hd.ents⟩, hmem⟩

lemma diskOk (h : FsInv s γ) (hp : γ p = ⟨[], none, none, true⟩)
    (hout : ∀ q, q ≠ p → s.out q = false) : DiskOk s.disk := by
  have hnone : ∀ q, (γ q).pend = none ∧ (γ q).dead = none := by
    intro q
    by_cases hqp : q = p
    · subst hqp
      rw [hp]
      exact ⟨rfl, rfl⟩
    · exact h.rest q (by rw [← h.out q]; exact hout q hqp)
  refine h.disk.mono (fun i => (sum_eq_zero fun q _ => ?_).symm) ?_
  · simp [ind, (hnone q).1]
  · rintro i ⟨q, hq⟩
    rw [(hnone q).1, (hnone q).2] at hq
    rcases hq with hq | hq <;> cases hq

lemma exists_pend (hpend : ∑ q, ind (γ q).pend i ≠ 0) : ∃ q, (γ q).pend = some i := by
  obtain ⟨q, -, hq⟩ := exists_ne_zero_of_sum_ne_zero hpend
  refine ⟨q, ?_⟩
  by_contra hne
  exact hq (by simp [ind, hne])

section

variable (h : FsInv s γ)
include h

lemma sum_pend_free (hfree : s.disk.kind i = .free) : ∑ q, ind (γ q).pend i = 0 := by
  by_contra hne
  obtain ⟨q, hq⟩ := exists_pend hne
  rw [(h.pend q i hq).1] at hfree
  cases hfree

section

variable (hp : γ p = ⟨l, none, none, true⟩)
include hp

lemma create {dp n : ℕ} {k : Kind}
    (hdp : dp ∈ l) (hdir : s.disk.kind dp = .dir) (hfree : s.disk.kind i = .free)
    (hk : k ≠ .free) :
    FsInv { s.get i with disk := s.disk.create dp n i k }
      (update γ p ⟨i :: l, none, none, true⟩) := by
  have hkind : ∀ j, s.disk.kind j ≠ .free → (s.disk.create dp n i k).kind j = s.disk.kind j := by
    intro j hj
    have hji : j ≠ i := fun hx => hj (hx ▸ hfree)
    exact update_of_ne hji _ _
  refine h.change (fun j => ?_) rfl (by rw [hp]) (fun hx => by cases hx) ?_
    (fun j hj => by cases hj) (fun q j _ _ hj => ?_) (fun j hj => by cases hj)
    (fun q j hqp hq hd => ?_) rfl
  · rw [hp]
    exact count_get s l i j
  · refine (h.disk.create hdir hfree (h.sum_pend_free hfree) hk).mono (fun j => ?_)
      fun j hj => owed_update hj fun hx => ?_
    · exact sum_pend_same (by rw [hp]) j
    · rw [hp] at hx
      exact hx
  · exact (hkind j (by rw [hj]; simp)).trans hj
  · have hji : j ≠ i := fun hx => hd.kind (hx ▸ hfree)
    have hjdp : dp ≠ j := fun hx =>
      h.not_dead (p := p) (i := dp) (by rw [hp]; exact hdp) (by rw [hp]; simp) q (hx ▸ hq)
    refine ⟨?_, hd.root, ?_, ?_, fun t ht => ?_⟩
    · change (s.get i).ref j = 1
      rw [ref_get, if_neg (Ne.symm hji)]
      exact hd.ref
    · change (s.disk.create dp n i k).kind j ≠ .free
      rw [hkind j hd.kind]
      exact hd.kind
    · change update s.disk.nlink i 1 j = 0
      rw [update_of_ne hji]
      exact hd.nlink
    · rcases List.mem_cons.mp ht with rfl | ht
      · exact ⟨hjdp, Ne.symm hji⟩
      · exact hd.ents t ht

lemma ialloc {k : Kind} (hfree : s.disk.kind i = .free)
    (hk : k ≠ .free) (hone : s.ref i = 0) :
    FsInv { s.get i with disk := s.disk.ialloc dp i k }
      (update γ p ⟨i :: l, none, some i, true⟩) := by
  have hkind : ∀ j, s.disk.kind j ≠ .free → (s.disk.ialloc dp i k).kind j = s.disk.kind j := by
    intro j hj
    have hji : j ≠ i := fun hx => hj (hx ▸ hfree)
    exact update_of_ne hji _ _
  have hroot : i ≠ ROOTINO := h.disk.ne_root (by rw [hfree]; simp)
  refine h.change (fun j => ?_) rfl (by rw [hp]) (fun hx => by cases hx) ?_
    (fun j hj => by cases hj) (fun q j _ _ hj => ?_) (fun j hj => ?_) (fun q j hqp hq hd => ?_) rfl
  · rw [hp]
    exact count_get s l i j
  · refine (h.disk.ialloc hfree (h.sum_pend_free hfree) (fun j hj => owed_update hj fun hx => ?_)
      ⟨p, by rw [update_self]; exact .inr rfl⟩).mono (fun j => ?_) fun _ hj => hj
    · rw [hp] at hx
      rcases hx with hx | hx <;> cases hx
    · exact sum_pend_same (by rw [hp]) j
  · exact (hkind j (by rw [hj]; simp)).trans hj
  · cases hj
    refine ⟨⟨?_, hroot, ?_, update_self _ _ _, h.disk.ents_free hfree⟩,
      List.mem_cons_self⟩
    · change (s.get i).ref i = 1
      rw [ref_get, hone, if_pos rfl]
    · change update s.disk.kind i k i ≠ .free
      rw [update_self]
      exact hk
  · have hji : j ≠ i := fun hx => hd.kind (hx ▸ hfree)
    refine ⟨?_, hd.root, ?_, (update_of_ne hji _ _).trans hd.nlink, hd.ents⟩
    · change (s.get i).ref j = 1
      rw [ref_get, if_neg (Ne.symm hji)]
      exact hd.ref
    · change (s.disk.ialloc dp i k).kind j ≠ .free
      rw [hkind j hd.kind]
      exact hd.kind

lemma nlinkUp (hi : i ∈ l)
    (hk : s.disk.kind i = .file) :
    FsInv { s with disk := s.disk.setNlink i (s.disk.nlink i + 1) }
      (update γ p ⟨l, some i, none, true⟩) := by
  have hroot : i ≠ ROOTINO := h.disk.ne_root (by rw [hk]; simp)
  have hsum : ∀ j, ∑ q, ind (update γ p ⟨l, some i, none, true⟩ q).pend j =
      ∑ q, ind (γ q).pend j + if i = j then 1 else 0 := by
    intro j
    have hj := sum_pend γ p ⟨l, some i, none, true⟩ j
    rw [hp] at hj
    change _ + ind none j = _ + ind (some i) j at hj
    have h0 : ind none j = 0 := by simp [ind]
    have h1 : ind (some i) j = if i = j then 1 else 0 := by simp [ind]
    omega
  refine h.change (fun j => ?_) rfl (by rw [hp]) (fun hx => by cases hx) ?_
    (fun j hj => ?_) (fun _ _ _ _ hx => hx) (fun j hj => by cases hj)
    (fun q j hqp hq hd => ?_) rfl
  · rw [hp]
  · refine h.disk.setNlink hroot (fun hki => ?_) (fun j hj => ?_)
      (fun j _ hj => owed_update hj fun hx => ?_)
      fun _ _ => ⟨p, by rw [update_self]; exact .inl rfl⟩
    · have hn : s.disk.nlink i = s.disk.links i + ∑ q, ind (γ q).pend i := h.disk.nlink i hroot hki
      have hs := hsum i
      rw [if_pos rfl] at hs
      omega
    · rw [hsum j, if_neg (Ne.symm hj)]
      rfl
    · rw [hp] at hx
      rcases hx with hx | hx <;> cases hx
  · cases hj
    exact ⟨hk, hi⟩
  · have hji : j ≠ i := fun hx =>
      h.not_dead (p := p) (i := i) (by rw [hp]; exact hi) (by rw [hp]; simp) q (hx ▸ hq)
    exact ⟨hd.ref, hd.root, hd.kind, (update_of_ne hji _ _).trans hd.nlink, hd.ents⟩

end

section

variable (hp : γ p = ⟨l, some i, none, true⟩)
include hp

lemma of_pend (l' : List ℕ)
    (dd : Option ℕ) :
    s.disk.kind i = .file ∧ i ∈ l ∧ i ≠ ROOTINO ∧
      (∀ j, ∑ q, ind (update γ p ⟨l', none, dd, true⟩ q).pend j +
        (if i = j then 1 else 0) = ∑ q, ind (γ q).pend j) ∧
      s.disk.nlink i = s.disk.links i + ∑ q, ind (γ q).pend i := by
  obtain ⟨hk, hi⟩ := h.pend p i (by rw [hp])
  rw [hp] at hi
  have hroot : i ≠ ROOTINO := h.disk.ne_root (by rw [hk]; simp)
  refine ⟨hk, hi, hroot, fun j => ?_, h.disk.nlink i hroot (by rw [hk]; simp)⟩
  have hj := sum_pend γ p ⟨l', none, dd, true⟩ j
  rw [hp] at hj
  change _ + ind (some i) j = _ + ind none j at hj
  have h0 : ind none j = 0 := by simp [ind]
  have h1 : ind (some i) j = if i = j then 1 else 0 := by simp [ind]
  omega

lemma dirlink {n : ℕ} (hdp : dp ∈ l)
    (hdir : s.disk.kind dp = .dir) :
    FsInv { s with disk := s.disk.dirlink dp n i }
      (update γ p ⟨l, none, none, true⟩) := by
  obtain ⟨hk, hi, -, hsum, -⟩ := h.of_pend hp l none
  refine h.change (fun j => ?_) rfl (by rw [hp]) (fun hx => by cases hx) ?_
    (fun j hj => by cases hj) (fun _ _ _ _ hx => hx) (fun j hj => by cases hj)
    (fun q j hqp hq hd => ?_) rfl
  · rw [hp]
  · refine h.disk.dirlink hdir hk (fun j => (hsum j).symm)
      fun j hj hjo => owed_update hjo fun hx => ?_
    rw [hp] at hx
    rcases hx with hx | hx
    · cases hx
      exact absurd rfl hj
    · cases hx
  · have hdpj : dp ≠ j := fun hx =>
      h.not_dead (p := p) (i := dp) (by rw [hp]; exact hdp) (by rw [hp]; simp) q (hx ▸ hq)
    have hij : i ≠ j := fun hx =>
      h.not_dead (p := p) (i := i) (by rw [hp]; exact hi) (by rw [hp]; simp) q (hx ▸ hq)
    refine ⟨hd.ref, hd.root, hd.kind, hd.nlink, fun t ht => ?_⟩
    rcases List.mem_cons.mp ht with rfl | ht
    · exact ⟨hdpj, hij⟩
    · exact hd.ents t ht

lemma nlinkDown (halone : s.disk.nlink i = 1 → s.ref i = 1) :
    FsInv (s.nlinkDown i)
      (update γ p ⟨l, none, if s.disk.nlink i = 1 then some i else none, true⟩) := by
  obtain ⟨hk, hi, hroot, hsum, hn⟩ :=
    h.of_pend hp l (if s.disk.nlink i = 1 then some i else none)
  have hsi := hsum i
  rw [if_pos rfl] at hsi
  refine h.change (fun j => ?_) rfl (by rw [hp]) (fun hx => by cases hx) ?_
    (fun j hj => by cases hj) (fun _ _ _ _ hx => hx) (fun j hj => ?_)
    (fun q j hqp hq hd => ?_) rfl
  · rw [hp]
    rfl
  · refine h.disk.setNlink hroot (fun _ => by omega) (fun j hj => ?_)
      (fun j hj hjo => owed_update hjo fun hx => ?_) fun _ hl => ?_
    · have hj' := hsum j
      rw [if_neg (Ne.symm hj)] at hj'
      exact hj'
    · rw [hp] at hx
      rcases hx with hx | hx
      · cases hx
        exact absurd rfl hj
      · cases hx
    · by_cases hone : s.disk.nlink i = 1
      · exact ⟨p, by rw [update_self]; exact .inr (if_pos hone)⟩
      · obtain ⟨q, hq⟩ := exists_pend (γ := update γ p
          ⟨l, none, if s.disk.nlink i = 1 then some i else none, true⟩) (i := i) (by omega)
        exact ⟨q, .inl hq⟩
  · have hj : (if s.disk.nlink i = 1 then some i else none) = some j := hj
    split at hj
    · rename_i hone
      cases hj
      refine ⟨⟨halone hone, hroot, ?_, ?_, fun t ht => ⟨fun hx => ?_, fun hx => ?_⟩⟩, hi⟩
      · change s.disk.kind i ≠ .free
        rw [hk]
        simp
      · change update s.disk.nlink i (s.disk.nlink i - 1) i = 0
        rw [update_self]
        omega
      · have hdir := (h.disk.ents t ht).1
        rw [hx, hk] at hdir
        cases hdir
      · have hpos : 0 < s.disk.links t.inum := DiskInv.links_pos ht
        rw [hx] at hpos
        omega
    · cases hj
  · have hji : j ≠ i := fun hx =>
      h.not_dead (p := p) (i := i) (by rw [hp]; exact hi) (by rw [hp]; simp) q (hx ▸ hq)
    exact ⟨hd.ref, hd.root, hd.kind, (update_of_ne hji _ _).trans hd.nlink, hd.ents⟩

end

lemma unlink (hp : γ p = ⟨l, none, none, true⟩) (ht : t ∈ s.disk.ents)
    (hempty : s.disk.kind t.inum = .dir → ∀ u ∈ s.disk.ents, u.dir ≠ t.inum)
    (halone : s.disk.nlink t.inum = 1 → s.ref t.inum = 0) :
    FsInv { s.get t.inum with disk := s.disk.unlink t }
      (update γ p ⟨t.inum :: l, none,
        if s.disk.nlink t.inum = 1 then some t.inum else none, true⟩) := by
  obtain ⟨-, hkt, hroot⟩ := h.disk.ents t ht
  have hn : s.disk.nlink t.inum = s.disk.links t.inum + ∑ q, ind (γ q).pend t.inum :=
    h.disk.nlink t.inum hroot hkt
  have hlinks := DiskInv.links_unlink ht t.inum
  rw [if_pos rfl] at hlinks
  refine h.change (fun j => ?_) rfl (by rw [hp]) (fun hx => by cases hx) ?_
    (fun j hj => by cases hj) (fun _ _ _ _ hx => hx) (fun j hj => ?_)
    (fun q j hqp hq hd => ?_) rfl
  · rw [hp]
    exact count_get s l t.inum j
  · refine h.disk.unlink ht (fun j => ?_) (fun j hj => owed_update hj fun hx => ?_) fun hl => ?_
    · exact sum_pend_same (by rw [hp]) j
    · rw [hp] at hx
      rcases hx with hx | hx <;> cases hx
    · by_cases hone : s.disk.nlink t.inum = 1
      · exact ⟨p, by rw [update_self]; exact .inr (if_pos hone)⟩
      obtain ⟨q, hq⟩ := exists_pend (γ := γ) (i := t.inum) (by omega)
      refine owed_update ⟨q, .inl hq⟩ fun hx => ?_
      rw [hp] at hx
      rcases hx with hx | hx <;> cases hx
  · have hj : (if s.disk.nlink t.inum = 1 then some t.inum else none) = some j := hj
    split at hj
    · rename_i hone
      cases hj
      refine ⟨⟨?_, hroot, hkt, ?_, fun u hu => ⟨fun hx => ?_, fun hx => ?_⟩⟩, List.mem_cons_self⟩
      · change (s.get t.inum).ref t.inum = 1
        rw [ref_get, if_pos rfl, halone hone]
      · change update s.disk.nlink t.inum (s.disk.nlink t.inum - 1) t.inum = 0
        rw [update_self, hone]
      · have hmem : u ∈ s.disk.ents := List.mem_of_mem_erase hu
        have hdir := (h.disk.ents u hmem).1
        rw [hx] at hdir
        exact hempty hdir u hmem hx
      · have hpos := DiskInv.links_pos (d := s.disk.unlink t) hu
        rw [hx] at hpos
        omega
    · cases hj
  · have hjt : j ≠ t.inum := fun hx => (h.not_dead_entry ht q).1 (hx ▸ hq)
    refine ⟨?_, hd.root, hd.kind, (update_of_ne hjt _ _).trans hd.nlink,
      fun u hu => hd.ents u (List.mem_of_mem_erase hu)⟩
    change (s.get t.inum).ref j = 1
    rw [ref_get, if_neg (Ne.symm hjt)]
    exact hd.ref

end

end FsInv

end Fs

end Xv6
