import Xv6Kernel.Fs.References

/-!
# No orphans after a crash

There may be orphans when a file is removed while it is open, and the system crashes before it is
closed.
-/

namespace Xv6

open Function

variable {Q : Unit → Own → Prop} {e : ℕ}

namespace Fs

open Finset Protocol

variable {N K : ℕ}

/-- The last link of an inode is removed only when nobody else has a reference to the inode: in
`sys_unlink`, in a `sys_link` that fails, and in a `create` that fails. -/
def Alone (s : Sys N K) (_ : Fin N) : Act K → Prop
  | .unlink dp n => ∀ t, s.disk.lookup dp n = some t → s.disk.nlink t.inum = 1 → s.ref t.inum = 0
  | .nlinkDown i => s.disk.nlink i = 1 → s.ref i = 1
  | .create dp n fresh full =>
    full = true → s.disk.lookup dp n = none → s.disk.kind fresh = .free → s.ref fresh = 0
  | _ => True

def fsProtocol (N K : ℕ) : Protocol (Sys N K) (Act K) (Fin N) Own Unit where
  inv s _ γ := FsInv s γ
  upd _ _ _ := ()
  ok := Alone
  guar _ _ _ _ _ := True
  view _ _ := True
  rest _ := True
  tol _ := True
  idle := ⟨[], none, none, false⟩
  fin g := g = ⟨[], none, none, false⟩

namespace FsProg

variable {p : Fin N} {l l' : List ℕ} {o dd : Option ℕ}

lemma safe_act {β : Type} {Q : β → Own → Prop} {a : Act K} {f : Sys N K → Outcome (Sys N K) β}
    {g : Own} (hdone : ∀ s γ r s', FsInv s γ → γ p = g → Alone s p a → f s = .done r s' →
      ∃ g', FsInv s' (update γ p g') ∧ Q r g') : (fsProtocol N K).Safe p Q (.atomic a f) g := by
  refine safe_atomic trivial (fun _ _ _ _ _ _ _ _ => trivial) fun s _ γ r s' hinv hp hok hf => ?_
  obtain ⟨g', hinv', hQ⟩ := hdone s γ r s' hinv hp hok hf
  exact ⟨trivial, g', hinv', hQ⟩

lemma safe_iput (hl : l.Perm (e :: l')) (ho : ∀ i, o = some i → i ∈ l')
    (hQ : Q () ⟨l', o, if dd = some e then none else dd, true⟩) :
    (fsProtocol N K).Safe p Q (iput e) ⟨l, o, dd, true⟩ := by
  refine Safe.bind (safe_act fun s γ r s' hinv hp _ hf => ?_)
  rw [Sys.iput] at hf
  split at hf
  · rename_i hfree
    cases hf
    refine ⟨_, hinv.free hp (hl.mem_iff.mpr List.mem_cons_self) hfree, ?_⟩
    rw [if_pos rfl]
    refine safe_act fun s γ r s' hinv hp _ hf => ?_
    cases hf
    refine ⟨_, hinv.drop hp hl ho ?_, hQ⟩
    split
    · simp
    · assumption
  · rename_i hfree
    cases hf
    have hdde : dd ≠ some e := fun hx => by
      have hd := (hinv.dead p e (by rw [hp]; exact hx)).1
      exact hfree ⟨hd.ref, hd.nlink⟩
    rw [if_neg hdde] at hQ
    exact ⟨_, hinv.drop hp hl ho hdde, safe_ret hQ⟩

lemma safe_iput_head (hdd : dd = none ∨ dd = some e) (hQ : Q () ⟨l, none, none, true⟩) :
    (fsProtocol N K).Safe p Q (iput e) ⟨e :: l, none, dd, true⟩ := by
  refine safe_iput (List.Perm.refl _) (fun i hi => by cases hi) ?_
  rcases hdd with rfl | rfl
  · exact hQ
  · rw [if_pos rfl]
    exact hQ

lemma safe_iputAny (r : Option ℕ) (hdd : dd = none ∨ ∃ i, r = some i ∧ dd = some i) :
    (fsProtocol N K).Safe p (fun _ g => g = ⟨[], none, none, true⟩) (iputAny r)
      ⟨r.toList, none, dd, true⟩ := by
  cases r with
  | none =>
    rcases hdd with rfl | ⟨i, hi, -⟩
    · exact safe_ret rfl
    · cases hi
  | some e =>
    refine safe_iput_head (hdd.imp id ?_) rfl
    rintro ⟨i, hi, rfl⟩
    rw [hi]

lemma safe_namexLoop (path : List Name) (ip : ℕ) (ho : ∀ i, o = some i → i ∈ l) :
    (fsProtocol N K).Safe p (fun r g => g = ⟨r.toList ++ l, o, none, true⟩) (namexLoop path ip)
      ⟨ip :: l, o, none, true⟩ := by
  induction path generalizing ip with
  | nil => exact safe_ret rfl
  | cons nm path ih =>
    have hfail : (fsProtocol N K).Safe p (fun r g => g = ⟨r.toList ++ l, o, none, true⟩)
        (do iput ip; return none) ⟨ip :: l, o, none, true⟩ :=
      Safe.bind (safe_iput (List.Perm.refl _) ho (safe_ret rfl))
    have hnext : ∀ next, (fsProtocol N K).Safe p (fun r g => g = ⟨r.toList ++ l, o, none, true⟩)
        (do iput ip; namexLoop path next) ⟨next :: ip :: l, o, none, true⟩ := fun next =>
      Safe.bind (safe_iput (List.Perm.swap ip next l)
        (fun i hi => List.mem_cons_of_mem next (ho i hi)) (ih next))
    refine Safe.bind (safe_act fun s γ r s' hinv hp _ hf => ?_)
    have hself := hinv.same hp
    have hmem : ip ∈ (γ p).refs := by rw [hp]; exact List.mem_cons_self
    have hnd := hinv.not_dead hmem (by rw [hp]; simp)
    unfold Sys.dirlookup at hf
    split at hf
    · rename_i hdir
      cases nm with
      | dot =>
        cases hf
        exact ⟨_, hinv.get hp hnd, hnext ip⟩
      | dotdot =>
        cases hf
        refine ⟨_, hinv.get hp fun q hq => ?_, hnext _⟩
        -- the parent of a directory that is referenced has an entry for it
        by_cases hroot : ip = ROOTINO
        · subst hroot
          rw [hinv.disk.root.2.1] at hq
          exact (hinv.dead q _ hq).1.root rfl
        have hlinks : s.disk.links ip ≠ 0 := by
          intro hzero
          obtain ⟨r, hr | hr⟩ := hinv.disk.named ip hroot (by rw [hdir]; simp) hzero
          · have hfile := (hinv.pend r ip hr).1
            rw [hdir] at hfile
            cases hfile
          · exact hnd r hr
        obtain ⟨t, ht, rfl⟩ := DiskInv.exists_entry hlinks
        rw [hinv.disk.up t ht hdir] at hq
        exact (hinv.not_dead_entry ht q).2 hq
      | name n =>
        simp only at hf
        split at hf
        · rename_i t ht
          cases hf
          have hmem : t ∈ s.disk.ents := List.mem_of_find?_eq_some ht
          exact ⟨_, hinv.get hp fun q => (hinv.not_dead_entry hmem q).1, hnext _⟩
        · cases hf
          exact ⟨_, hself, hfail⟩
    · cases hf
      exact ⟨_, hself, hfail⟩

lemma safe_namex (path : Path K) (ho : ∀ i, o = some i → i ∈ l) :
    (fsProtocol N K).Safe p (fun r g => g = ⟨r.toList ++ l, o, none, true⟩) (namex path)
      ⟨l, o, none, true⟩ := by
  rw [namex]
  split
  · refine Safe.bind (safe_act fun s γ r s' hinv hp _ hf => ?_)
    cases hf
    exact ⟨_, hinv.get hp fun q hq => (hinv.dead q _ hq).1.root rfl,
      safe_namexLoop path.names _ ho⟩
  refine Safe.bind (safe_act fun s γ r s' hinv hp _ hf => ?_)
  rw [Sys.idup] at hf
  split at hf
  · rename_i i hk
    cases hf
    exact ⟨_, hinv.get hp (hinv.not_dead_slot hk), safe_namexLoop path.names _ ho⟩
  · cases hf

lemma safe_create (path : Path K) (n fresh : ℕ) (isDir full : Bool) :
    (fsProtocol N K).Safe p (fun r g => g = ⟨r.toList, none, none, true⟩)
      (create path n fresh isDir full) ⟨[], none, none, true⟩ := by
  refine Safe.bind ((safe_namex (l := []) path fun i hi => by cases hi).mono ?_)
  rintro (_ | dp) g rfl
  · exact safe_ret rfl
  change (fsProtocol N K).Safe p _ _ ⟨[dp], none, none, true⟩
  have hdp : ∀ (i : ℕ) {Q : Unit → Own → Prop}, Q () ⟨[i], none, none, true⟩ →
      (fsProtocol N K).Safe p Q (iput dp) ⟨[i, dp], none, none, true⟩ := fun i _ hQ =>
    safe_iput (List.Perm.swap dp i []) (fun i hi => by cases hi) hQ
  have hkind : (if isDir then Kind.dir else Kind.file) ≠ .free := by split <;> simp
  refine Safe.bind (safe_act fun s γ r s' hinv hp hok hf => ?_)
  have hself := hinv.same hp
  rw [Sys.create] at hf
  split at hf
  · rename_i hdir
    split at hf
    · -- the entry is there
      rename_i t ht
      cases hf
      have hmem : t ∈ s.disk.ents := List.mem_of_find?_eq_some ht
      refine ⟨_, hinv.get hp fun q => (hinv.not_dead_entry hmem q).1, Safe.bind (hdp _ ?_)⟩
      refine Safe.bind (safe_act fun s γ r s' hinv hp _ hf => ?_)
      cases hf
      refine ⟨_, hinv.same hp, ?_⟩
      split
      · exact safe_ret rfl
      · exact Safe.bind (safe_iput_head (.inl rfl) (safe_ret rfl))
    · rename_i hnone
      split at hf
      · rename_i hfree
        split at hf
        · -- there is no space for the entries
          rename_i hfull
          cases hf
          exact ⟨_, hinv.ialloc hp hfree hkind (hok hfull hnone hfree),
            Safe.bind (safe_iput_head (.inr rfl)
              (Safe.bind (safe_iput_head (.inl rfl) (safe_ret rfl))))⟩
        · cases hf
          exact ⟨_, hinv.create hp List.mem_cons_self hdir hfree hkind,
            Safe.bind (hdp _ (safe_ret rfl))⟩
      · cases hf
        exact ⟨_, hself, Safe.bind (safe_iput_head (.inl rfl) (safe_ret rfl))⟩
  · cases hf
    exact ⟨_, hself, Safe.bind (safe_iput_head (.inl rfl) (safe_ret rfl))⟩

lemma safe_keepAny (k : Fin K) (r : Option ℕ) :
    (fsProtocol N K).Safe p (fun _ g => g = ⟨[], none, none, true⟩) (keepAny k r)
      ⟨r.toList, none, none, true⟩ := by
  rcases r with _ | i
  · exact safe_ret rfl
  refine Safe.bind (safe_act fun s γ r s' hinv hp _ hf => ?_)
  rw [Sys.keep] at hf
  split at hf
  · rename_i hk
    cases hf
    have hinv' := hinv.exchange (r := some i) (l := []) hp k
    rw [hk] at hinv'
    exact ⟨_, hinv', safe_ret rfl⟩
  · cases hf
    exact ⟨_, hinv.same hp, safe_iput_head (.inl rfl) rfl⟩

lemma safe_linkBad (ip : ℕ) :
    (fsProtocol N K).Safe p (fun _ g => g = ⟨[], none, none, true⟩)
      (do .atomic (.nlinkDown ip) fun s => .done () (s.nlinkDown ip); iput ip)
      ⟨[ip], some ip, none, true⟩ := by
  refine Safe.bind (safe_act fun s γ r s' hinv hp hok hf => ?_)
  cases hf
  refine ⟨_, hinv.nlinkDown hp hok, safe_iput_head ?_ rfl⟩
  split
  · exact .inr rfl
  · exact .inl rfl

lemma safe_sysLink (old new : Path K) (n : ℕ) (full : Bool) :
    (fsProtocol N K).Safe p (fun _ g => g = ⟨[], none, none, true⟩) (sysLink old new n full)
      ⟨[], none, none, true⟩ := by
  refine Safe.bind ((safe_namex (l := []) old fun i hi => by cases hi).mono ?_)
  rintro (_ | ip) g rfl
  · exact safe_ret rfl
  change (fsProtocol N K).Safe p _ _ ⟨[ip], none, none, true⟩
  refine Safe.bind (safe_act fun s γ r s' hinv hp _ hf => ?_)
  rw [Sys.nlinkUp] at hf
  split at hf
  · rename_i hfile
    cases hf
    refine ⟨_, hinv.nlinkUp hp List.mem_cons_self hfile, ?_⟩
    rw [if_pos rfl]
    have hmem : ∀ i, some ip = some i → i ∈ [ip] := fun i hi => by
      cases hi
      exact List.mem_cons_self
    refine Safe.bind ((safe_namex (l := [ip]) new hmem).mono ?_)
    rintro (_ | dp) g rfl
    · exact safe_linkBad ip
    change (fsProtocol N K).Safe p _ _ ⟨[dp, ip], some ip, none, true⟩
    refine Safe.bind (safe_act fun s γ r s' hinv hp _ hf => ?_)
    rw [Sys.dirlink] at hf
    split at hf
    · rename_i hdir
      cases hf
      refine ⟨_, hinv.dirlink hp List.mem_cons_self hdir.1, ?_⟩
      rw [if_pos rfl]
      exact Safe.bind (safe_iput_head (.inl rfl) (safe_iput_head (.inl rfl) rfl))
    cases hf
    refine ⟨_, hinv.same hp, ?_⟩
    rw [if_neg Bool.false_ne_true]
    exact Safe.bind (safe_iput (List.Perm.refl _) hmem (safe_linkBad ip))
  · cases hf
    refine ⟨_, hinv.same hp, ?_⟩
    rw [if_neg Bool.false_ne_true]
    exact safe_iput_head (.inl rfl) rfl

lemma safe_sysUnlink (path : Path K) (n : ℕ) :
    (fsProtocol N K).Safe p (fun _ g => g = ⟨[], none, none, true⟩) (sysUnlink path n)
      ⟨[], none, none, true⟩ := by
  refine Safe.bind ((safe_namex (l := []) path fun i hi => by cases hi).mono ?_)
  rintro (_ | dp) g rfl
  · exact safe_ret rfl
  change (fsProtocol N K).Safe p _ _ ⟨[dp], none, none, true⟩
  -- the rest of the call, with what the process is responsible for
  have hrest : ∀ (r dd : Option ℕ), (dd = none ∨ ∃ i, r = some i ∧ dd = some i) →
      (fsProtocol N K).Safe p (fun _ g => g = ⟨[], none, none, true⟩)
        (do iput dp; iputAny r) ⟨r.toList ++ [dp], none, dd, true⟩ := by
    intro r dd hdd
    refine Safe.bind (safe_iput List.perm_append_comm (fun i hi => by cases hi)
      (safe_iputAny r ?_))
    rcases hdd with rfl | ⟨i, hr, rfl⟩
    · exact .inl (by simp)
    · by_cases hi : i = dp
      · exact .inl (by rw [hi, if_pos rfl])
      · exact .inr ⟨i, hr, if_neg fun hx => hi (Option.some.inj hx)⟩
  refine Safe.bind (safe_act fun s γ r s' hinv hp hok hf => ?_)
  have hself := hinv.same hp
  rw [Sys.unlink] at hf
  split at hf
  · split at hf
    · cases hf
      exact ⟨_, hself, hrest none none (.inl rfl)⟩
    rename_i t ht
    have hmem : t ∈ s.disk.ents := List.mem_of_find?_eq_some ht
    split at hf
    · cases hf
    split at hf
    · cases hf
      exact ⟨_, hself, hrest none none (.inl rfl)⟩
    rename_i hfull
    cases hf
    refine ⟨_, hinv.unlink hp hmem (fun hdir u hu => ?_) (hok t ht),
      hrest (some t.inum) _ ?_⟩
    · have hall : s.disk.isdirempty t.inum = true := by
        by_contra hne
        exact hfull ⟨hdir, by simpa using hne⟩
      have hu' := List.all_eq_true.mp hall u hu
      exact of_decide_eq_true hu'
    · split
      · exact .inr ⟨t.inum, rfl, rfl⟩
      · exact .inl rfl
  · cases hf
    exact ⟨_, hself, hrest none none (.inl rfl)⟩

lemma safe_sysChdir (path : Path K) (k : Fin K) :
    (fsProtocol N K).Safe p (fun _ g => g = ⟨[], none, none, true⟩) (sysChdir path k)
      ⟨[], none, none, true⟩ := by
  refine Safe.bind ((safe_namex (l := []) path fun i hi => by cases hi).mono ?_)
  rintro (_ | ip) g rfl
  · exact safe_ret rfl
  change (fsProtocol N K).Safe p _ _ ⟨[ip], none, none, true⟩
  refine Safe.bind (safe_act fun s γ r s' hinv hp _ hf => ?_)
  rw [Sys.swap] at hf
  split at hf
  · cases hf
    have hinv' := hinv.exchange (r := some ip) (l := []) hp k
    rw [List.append_nil] at hinv'
    exact ⟨_, hinv', safe_iputAny _ (.inl rfl)⟩
  · cases hf
    exact ⟨_, hinv.same hp, safe_iputAny (some ip) (.inl rfl)⟩

lemma safe_close (k : Fin K) :
    (fsProtocol N K).Safe p (fun _ g => g = ⟨[], none, none, true⟩)
      (do iputAny (← .atomic (.take k) fun s => s.take k)) ⟨[], none, none, true⟩ := by
  refine Safe.bind (safe_act fun s γ r s' hinv hp _ hf => ?_)
  cases hf
  have hinv' := hinv.exchange (r := none) (l := []) hp k
  rw [List.append_nil] at hinv'
  exact ⟨_, hinv', safe_iputAny _ (.inl rfl)⟩

lemma safe_op {m : FsProg N K Unit}
    (hm : (fsProtocol N K).Safe p (fun _ g => g = ⟨[], none, none, true⟩) m
      ⟨[], none, none, true⟩) :
    (fsProtocol N K).Safe p (fun _ g => g = ⟨[], none, none, false⟩) (op p m)
      ⟨[], none, none, false⟩ := by
  refine Safe.bind (safe_act fun s γ r s' hinv hp _ hf => ?_)
  cases hf
  refine ⟨_, hinv.setOp (c := true) hp hinv.stable, Safe.bind (hm.mono ?_)⟩
  rintro - g rfl
  refine safe_act fun s γ r s' hinv hp _ hf => ?_
  cases hf
  refine ⟨_, hinv.setOp (c := false) hp ?_, rfl⟩
  split
  · rename_i hout
    exact hinv.diskOk hp hout
  · exact hinv.stable

end FsProg

open FsProg in
lemma machine_safe : (fsProtocol N K).Verified (machine N K) where
  start s η γ p x hinv hp _ := by
    refine ⟨⟨[], none, none, false⟩, ?_, ?_⟩
    · rw [show (⟨[], none, none, false⟩ : Own) = γ p from hp.symm, update_eq_self]
      exact hinv
    have hnone : ∀ i, (none : Option ℕ) = some i → i ∈ ([] : List ℕ) := fun i hi => by cases hi
    cases x with
    | sysOpen path k =>
      refine safe_op (Safe.bind ((safe_namex (l := []) path hnone).mono ?_))
      rintro r g rfl
      rw [List.append_nil]
      exact safe_keepAny k r
    | creat path n fresh full k =>
      refine safe_op (Safe.bind ((safe_create path n fresh false full).mono ?_))
      rintro r g rfl
      exact safe_keepAny k r
    | make path n fresh isDir full =>
      refine safe_op (Safe.bind ((safe_create path n fresh isDir full).mono ?_))
      rintro r g rfl
      exact safe_iputAny r (.inl rfl)
    | link old new n full => exact safe_op (safe_sysLink old new n full)
    | unlink path n => exact safe_op (safe_sysUnlink path n)
    | chdir path k => exact safe_op (safe_sysChdir path k)
    | exec path =>
      refine safe_op (Safe.bind ((safe_namex (l := []) path hnone).mono ?_))
      rintro r g rfl
      rw [List.append_nil]
      exact safe_iputAny r (.inl rfl)
    | close k => exact safe_op (safe_close k)
    | fork k k' =>
      refine safe_act fun s γ r s' hinv hp _ hf => ?_
      exact ⟨_, hinv.fork hp hf, rfl⟩
  finish s η γ p hinv hfin := by
    rw [show (fsProtocol N K).idle = γ p from hfin.symm, update_eq_self]
    exact hinv

/-! ## Runs -/

/-- Every inode in use is the root directory or named by an entry of a directory in use. -/
def NoOrphan (d : Disk) : Prop :=
  ∀ i, d.kind i ≠ .free → i = ROOTINO ∨ ∃ t ∈ d.ents, t.inum = i ∧ d.kind t.dir = .dir

lemma DiskOk.noOrphan {d : Disk} (h : DiskOk d) : NoOrphan d := by
  intro i hi
  by_cases hroot : i = ROOTINO
  · exact .inl hroot
  · obtain ⟨t, ht, hti⟩ := DiskInv.exists_entry fun hl => DiskInv.named h i hroot hi hl
    exact .inr ⟨t, ht, hti, (DiskInv.ents h t ht).1⟩

/-- No orphans after a crash.  From a disk without orphans, in every run of system calls in which
the last link of an inode is removed only when nobody else has a reference to it, and for a crash at
any point of the run: the recovered disk has no orphans, and is again one from which to start. -/
theorem crash_leaves_no_orphan {d : Disk} (hd : DiskOk d) {tr : List (Fin N × Act K)}
    {c : Config (Sys N K) (Act K) (Fin N)}
    (h : Exec (machine N K) Alone (.idle (Sys.boot N K d)) tr c) :
    NoOrphan c.st.stable ∧ DiskOk c.st.stable := by
  have hinit : FsInv (Sys.boot N K d) fun _ => ⟨[], none, none, false⟩ := by
    refine ⟨fun i => ?_, fun _ => rfl, fun _ _ => ⟨rfl, rfl⟩,
      DiskInv.mono hd (fun i => sum_eq_zero fun q _ => ?_) fun i hi => hi.elim,
      fun _ _ hp => (by cases hp), fun _ _ hp => (by cases hp), hd⟩
    · have hslot : ∑ k : Fin K, ind ((Sys.boot N K d).slot k) i = 0 :=
        sum_eq_zero fun k _ => by simp [Sys.boot, ind]
      rw [hslot]
      simp [Sys.boot]
    · simp [ind]
  have hholds := machine_safe.exec
    (Protocol.Holds.idle (P := fsProtocol N K) (η := ()) hinit) h
  obtain ⟨γ, hinv, -⟩ := hholds.ghost
  have hok : DiskOk c.st.stable := FsInv.stable hinv
  exact ⟨hok.noOrphan, hok⟩

def rootOnly : Disk where
  kind := update (fun _ => .free) ROOTINO .dir
  nlink := update (fun _ => 0) ROOTINO 1
  up := fun _ => ROOTINO
  ents := []

lemma diskOk_rootOnly : DiskOk rootOnly := by
  have hfree : ∀ i, i ≠ ROOTINO → rootOnly.kind i = .free := by
    intro i hi
    change update (fun _ => Kind.free) ROOTINO Kind.dir i = .free
    rw [update_of_ne hi]
  exact {
    root := ⟨rfl, rfl, le_rfl⟩
    nlink := fun i hi hk => absurd (hfree i hi) hk
    ents := fun t ht => nomatch ht
    up := fun t ht => nomatch ht
    named := fun i hi hk => absurd (hfree i hi) hk }

/-- A test for `Alone`. -/
def aloneTest (s : Sys 14 1) (_ : Fin 14) : Act 1 → Bool
  | .unlink dp n => (s.disk.lookup dp n).all fun t => decide (s.ref t.inum = 0)
  | .nlinkDown _ => false
  | .create _ _ _ full => !full
  | _ => true

lemma alone_of_aloneTest (s : Sys 14 1) (p : Fin 14) (a : Act 1) (h : aloneTest s p a = true) :
    Alone s p a := by
  cases a with
  | unlink dp n =>
    intro t ht _
    rw [aloneTest, ht] at h
    exact of_decide_eq_true h
  | nlinkDown i => cases h
  | create dp n fresh full =>
    intro hfull
    rw [aloneTest, hfull] at h
    cases h
  | _ => trivial

/-- A file is created and removed. -/
theorem crash_leaves_no_orphan_removed : ∃ c : Config (Sys 14 1) (Act 1) (Fin 14),
      (c.st.disk.kind 2 = .free ∧ c.st.stable.kind 2 = .free ∧ c.st.disk.nlink 2 = 0) ∧
      NoOrphan c.st.stable ∧ DiskOk c.st.stable := by
  have hplay : (Config.idle (Sys.boot 14 1 rootOnly)).playOkTest (machine 14 1) aloneTest
      ([.start 0 (.make ⟨none, []⟩ 7 2 false false)] ++ List.replicate 7 (.go 0 0) ++
        [.start 0 (.unlink ⟨none, []⟩ 7)] ++ List.replicate 8 (.go 0 0))
      (fun _ c => decide (c.st.disk.kind 2 = .free ∧ c.st.stable.kind 2 = .free ∧
        c.st.disk.nlink 2 = 0)) = true := by
    decide +kernel
  obtain ⟨tr, c, hexec, htest⟩ := Config.exists_of_playOkTest alone_of_aloneTest hplay
  exact ⟨c, of_decide_eq_true htest, crash_leaves_no_orphan diskOk_rootOnly hexec⟩

/-- A file is created and stays open, and its name is removed.  The recovered disk has an orphan. -/
theorem open_file_leaves_orphan :
    ∃ (tr : List (Fin 14 × Act 1)) (c : Config (Sys 14 1) (Act 1) (Fin 14)), DiskOk rootOnly ∧
      Exec (machine 14 1) anyAction (.idle (Sys.boot 14 1 rootOnly)) tr c ∧
      c.st.stable.kind 2 = .file ∧ c.st.stable.ents = [] ∧ ¬ NoOrphan c.st.stable := by
  have hplay : (Config.idle (Sys.boot 14 1 rootOnly)).playTest (machine 14 1)
      ([.start 0 (.creat ⟨none, []⟩ 7 2 false 0)] ++ List.replicate 7 (.go 0 0) ++
        [.start 0 (.unlink ⟨none, []⟩ 7)] ++ List.replicate 6 (.go 0 0))
      (fun _ c => decide (c.st.stable.kind 2 = .file ∧ c.st.stable.ents = [])) = true := by
    decide +kernel
  obtain ⟨tr, c, hexec, htest⟩ := Config.exists_of_playTest hplay
  obtain ⟨hkind, hents⟩ := of_decide_eq_true htest
  refine ⟨tr, c, diskOk_rootOnly, hexec, hkind, hents, fun hno => ?_⟩
  rcases hno 2 (by rw [hkind]; simp) with hroot | ⟨t, ht, -⟩
  · cases hroot
  · rw [hents] at ht
    cases ht

end Fs

end Xv6
