import Xv6Kernel.Inode.Model
import Mathlib.Algebra.Order.BigOperators.Group.Finset

/-!
# The capacity of the table of inodes

The references to the entries of the table are those of the open files, those of the current
directories, and those that a process holds in a system call, of which there are at most three.
-/

namespace Xv6

open Function

variable {n : Inode} {r : Option (Fin NINODE)} {inum : ℕ}

namespace Itable

open Finset Protocol

variable {N : ℕ}

def ind (o : Option (Fin NINODE)) (e : Fin NINODE) : ℕ := if o = some e then 1 else 0

def one (o : Option (Fin NINODE)) : ℕ := if o = none then 0 else 1

def Sys.files (s : Sys N) : ℕ := ∑ f, one (s.file f).ip

def Sys.dirs (s : Sys N) : ℕ := ∑ p, one (s.cwd p)

def Sys.calls (s : Sys N) : ℕ := ∑ p, if s.busy p then 1 else 0

/-- At `iget` the table is large enough for the open files, the current directories and three
references for every process in a system call. -/
def Roomy (s : Sys N) (_ : Fin N) (l : Act N) : Prop :=
  ∀ inum, l = .iget inum → s.files + s.dirs + 3 * s.calls ≤ NINODE

/-! ## The invariant -/

/-- The references that a process holds in a system call; `none` outside. -/
abbrev Held : Type := Option (List (Fin NINODE))

/-- The references to the entries are those of files, directories and system calls. -/
structure RefInv (s : Sys N) (γ : Fin N → Held) : Prop where
  ref : ∀ e, (s.inode e).ref =
    ∑ p, ((γ p).getD []).count e + ∑ f, ind (s.file f).ip e + ∑ p, ind (s.cwd p) e
  len : ∀ p, ((γ p).getD []).length ≤ 3
  busy : ∀ p, s.busy p = (γ p).isSome
  file : ∀ f, (s.file f).ref = 0 → (s.file f).ip = none

lemma sum_count (l : List (Fin NINODE)) : ∑ e, l.count e = l.length := by
  induction l with
  | nil => simp
  | cons a l ih =>
    simp only [List.count_cons, sum_add_distrib, ih, List.length_cons, beq_iff_eq]
    simp

lemma sum_ind (o : Option (Fin NINODE)) : ∑ e, ind o e = one o := by
  cases o with
  | none => simp [ind, one]
  | some a => simp [ind, one]

namespace RefInv

variable {s s' : Sys N} {γ : Fin N → Held} {p : Fin N} {l l' : List (Fin NINODE)} {e : Fin NINODE}

lemma sum_ref (h : RefInv s γ) :
    ∑ e, (s.inode e).ref = ∑ p, ((γ p).getD []).length + s.files + s.dirs := by
  have hcalls : ∑ e, ∑ p, ((γ p).getD []).count e = ∑ p, ((γ p).getD []).length := by
    rw [sum_comm]
    exact sum_congr rfl fun p _ => sum_count _
  have hfiles : ∑ e, ∑ f, ind (s.file f).ip e = s.files := by
    rw [sum_comm]
    exact sum_congr rfl fun f _ => sum_ind _
  have hdirs : ∑ e, ∑ p, ind (s.cwd p) e = s.dirs := by
    rw [sum_comm]
    exact sum_congr rfl fun p _ => sum_ind _
  rw [← hcalls, ← hfiles, ← hdirs, ← sum_add_distrib, ← sum_add_distrib]
  exact sum_congr rfl fun e _ => h.ref e

lemma length_le (h : RefInv s γ) (q : Fin N) :
    ((γ q).getD []).length ≤ 3 * if s.busy q then 1 else 0 := by
  rw [h.busy q]
  have hlen := h.len q
  cases hq : γ q with
  | none => simp
  | some l =>
    rw [hq] at hlen
    simpa using hlen

lemma sum_ref_le (h : RefInv s γ) : ∑ e, (s.inode e).ref ≤ s.files + s.dirs + 3 * s.calls := by
  have hle : ∑ q, ((γ q).getD []).length ≤ 3 * s.calls := by
    rw [Sys.calls, mul_sum]
    exact sum_le_sum fun q _ => h.length_le q
  rw [h.sum_ref]
  omega

lemma sum_ref_lt (h : RefInv s γ) (hp : γ p = some l) (hl : l.length ≤ 2) :
    ∑ e, (s.inode e).ref < s.files + s.dirs + 3 * s.calls := by
  have hlt : ∑ q, ((γ q).getD []).length < 3 * s.calls := by
    rw [Sys.calls, mul_sum]
    refine sum_lt_sum (fun q _ => h.length_le q) ⟨p, mem_univ p, ?_⟩
    rw [h.busy p, hp]
    simp only [Option.getD_some, Option.isSome_some, if_pos]
    omega
  rw [h.sum_ref]
  omega

lemma iget_ne_panic (hlt : ∑ e, (s.inode e).ref < NINODE) (inum : ℕ) (msg : String) :
    s.iget inum ≠ .panic msg := by
  intro hpanic
  rw [Sys.iget] at hpanic
  split at hpanic
  · cases hpanic
  split at hpanic
  · cases hpanic
  rename_i hempty
  have hall : ∀ e, 1 ≤ (s.inode e).ref := fun e => by
    have hne := List.find?_eq_none.mp hempty e (List.mem_finRange e)
    have hne : (s.inode e).ref ≠ 0 := by simpa using hne
    omega
  have hcard : NINODE ≤ ∑ e, (s.inode e).ref := by
    calc NINODE = ∑ _e : Fin NINODE, 1 := by simp
      _ ≤ ∑ e, (s.inode e).ref := sum_le_sum fun e _ => hall e
  omega

section

variable (h : RefInv s γ) (hp : γ p = some l)
include h hp

lemma change (hlen : l'.length ≤ 3)
    (hbusy : s'.busy = s.busy) (hfile : ∀ f, (s'.file f).ref = 0 → (s'.file f).ip = none)
    (href : ∀ e, (s'.inode e).ref + (l.count e + ∑ f, ind (s.file f).ip e + ∑ q, ind (s.cwd q) e) =
      (s.inode e).ref + (l'.count e + ∑ f, ind (s'.file f).ip e + ∑ q, ind (s'.cwd q) e)) :
    RefInv s' (update γ p (some l')) := by
  refine ⟨fun e => ?_, fun q => ?_, fun q => ?_, hfile⟩
  · have hsum := sum_update_add (fun g : Held => (g.getD []).count e) γ p (some l')
    simp only [hp, Option.getD_some] at hsum
    have hold := h.ref e
    have hnew := href e
    omega
  · by_cases hq : q = p
    · subst hq
      simpa using hlen
    · simpa [hq] using h.len q
  · rw [hbusy, h.busy q]
    by_cases hq : q = p
    · subst hq
      simp [hp]
    · simp [hq]

lemma refStep (hlen : l'.length ≤ 3) (hn : n.ref + l.count e = (s.inode e).ref + l'.count e)
    (hother : ∀ x, x ≠ e → l.count x = l'.count x) :
    RefInv { s with inode := update s.inode e n } (update γ p (some l')) := by
  refine h.change hp hlen rfl h.file fun x => ?_
  by_cases hx : x = e
  · subst hx
    simp only [update_self]
    omega
  · simp only [ne_eq, hx, not_false_eq_true, update_of_ne, hother x hx]

lemma get (hlen : l.length ≤ 2) (hn : n.ref = (s.inode e).ref + 1) :
    RefInv { s with inode := update s.inode e n }
      (update γ p (some (e :: l))) := by
  refine h.refStep hp (by rw [List.length_cons]; omega) ?_ fun x hx => ?_
  · rw [List.count_cons_self]
    omega
  · rw [List.count_cons_of_ne (Ne.symm hx)]

lemma ref_pos (he : e ∈ l) : 1 ≤ (s.inode e).ref := by
  have hcount : 1 ≤ l.count e := List.count_pos_iff.mpr he
  have hle : l.count e ≤ ∑ q, ((γ q).getD []).count e := by
    have hsingle := single_le_sum (f := fun q => ((γ q).getD []).count e)
      (fun q _ => Nat.zero_le _) (mem_univ p)
    simpa [hp] using hsingle
  have href := h.ref e
  omega

lemma iget (hlen : l.length ≤ 2)
    (hdone : s.iget inum = .done e s') : RefInv s' (update γ p (some (e :: l))) := by
  rw [Sys.iget] at hdone
  split at hdone
  · cases hdone
    exact h.get hp hlen rfl
  split at hdone
  · rename_i e' hempty
    cases hdone
    refine h.get hp hlen ?_
    have hzero := List.find?_some hempty
    rw [of_decide_eq_true hzero]
  · cases hdone

lemma iput (hl : l.Perm (e :: l')) :
    RefInv (s.setRef e ((s.inode e).ref - 1)) (update γ p (some l')) := by
  have hcount : ∀ x, l.count x = (e :: l').count x := fun x => hl.count_eq x
  have hlen := hl.length_eq
  have hlen3 := h.len p
  have hpos := h.ref_pos hp (hl.mem_iff.mpr List.mem_cons_self)
  rw [hp, Option.getD_some] at hlen3
  rw [List.length_cons] at hlen
  refine h.refStep hp (by omega) ?_ fun x hx => ?_
  · rw [hcount e, List.count_cons_self]
    simp only
    omega
  · rw [hcount x, List.count_cons_of_ne (Ne.symm hx)]

end

lemma sum_ind_update {ι : Type} [Fintype ι] [DecidableEq ι] (f : ι → Option (Fin NINODE)) (i : ι)
    (o : Option (Fin NINODE)) (e : Fin NINODE) :
    (∑ j, ind (update f i o j) e) + ind (f i) e = (∑ j, ind (f j) e) + ind o e :=
  sum_update_add (fun o => ind o e) f i o

section

variable (h : RefInv s γ)
include h

lemma chdir (hp : γ p = some [e]) (hdone : s.chdir p e = .done () s') :
    RefInv s' (update γ p (some [])) := by
  rw [Sys.chdir] at hdone
  split at hdone
  · rename_i a ha
    cases hdone
    have hpos : 1 ≤ (s.inode a).ref := by
      have hle : ind (s.cwd p) a ≤ ∑ q, ind (s.cwd q) a :=
        single_le_sum (f := fun q => ind (s.cwd q) a) (fun q _ => Nat.zero_le _) (mem_univ p)
      have hone : ind (s.cwd p) a = 1 := by simp [ind, ha]
      have href := h.ref a
      omega
    refine h.change hp (Nat.zero_le 3) rfl h.file fun x => ?_
    have hsum := sum_ind_update s.cwd p (some e) x
    rw [ha] at hsum
    simp only [Sys.setRef, List.count_nil]
    have hcount : [e].count x = ind (some e) x := by simp [ind, List.count_singleton]
    rw [hcount]
    by_cases hx : x = a
    · subst hx
      have hone : ind (some x) x = 1 := by simp [ind]
      simp only [update_self]
      omega
    · have hzero : ind (some a) x = 0 := by simp [ind, Ne.symm hx]
      simp only [ne_eq, hx, not_false_eq_true, update_of_ne]
      omega
  · cases hdone

lemma fdalloc (hp : γ p = some [e]) {r : Bool}
    (hdone : s.fdalloc p e = .done r s') :
    RefInv s' (update γ p (some (if r then [] else [e]))) := by
  rw [Sys.fdalloc] at hdone
  split at hdone
  · rename_i f fd hf hfd
    cases hdone
    have hfound := List.find?_some hf
    have hzero : (s.file f).ref = 0 := of_decide_eq_true hfound
    refine h.change hp (Nat.zero_le 3) rfl (fun g hg => ?_) fun x => ?_
    · by_cases hgf : g = f
      · subst hgf
        simp at hg
      · simp only [ne_eq, hgf, not_false_eq_true, update_of_ne] at hg ⊢
        exact h.file g hg
    · have hsum : (∑ j, ind (update s.file f ⟨1, some e⟩ j).ip x) +
          ind (s.file f).ip x = (∑ j, ind (s.file j).ip x) + ind (some e) x :=
        sum_update_add (fun g : File => ind g.ip x) s.file f ⟨1, some e⟩
      have hnone : ind (s.file f).ip x = 0 := by simp [ind, h.file f hzero]
      have hcount : [e].count x = ind (some e) x := by simp [ind, List.count_singleton]
      simp only [if_pos, List.count_nil]
      rw [hcount]
      omega
  · cases hdone
    simp only [Bool.false_eq_true, if_false]
    rw [← hp, update_eq_self]
    exact h

lemma fork (hp : γ p = some []) {q : Fin N} (hdone : s.fork p q = .done () s') :
    RefInv s' (update γ p (some [])) := by
  rw [Sys.fork] at hdone
  split at hdone
  · rename_i a ha hq
    cases hdone
    refine h.change hp (Nat.zero_le 3) rfl (fun f hf => h.file f ?_) fun x => ?_
    · simp only at hf
      omega
    · have hsum := sum_ind_update s.cwd q (some a) x
      have hnone : ind (s.cwd q) x = 0 := by simp [ind, hq]
      simp only [Sys.setRef]
      by_cases hx : x = a
      · subst hx
        have hone : ind (some x) x = 1 := by simp [ind]
        simp only [update_self]
        omega
      · have hzero : ind (some a) x = 0 := by simp [ind, Ne.symm hx]
        simp only [ne_eq, hx, not_false_eq_true, update_of_ne]
        omega
  · cases hdone
  · cases hdone
    rw [← hp, update_eq_self]
    exact h

lemma argfd (hp : γ p = some l) {fd : Fin NOFILE} {r : Option (Fin NFILE)}
    (hdone : s.argfd p fd = .done r s') : RefInv s' (update γ p (some l)) := by
  cases hdone
  rw [← hp, update_eq_self]
  exact ⟨h.ref, h.len, h.busy, h.file⟩

lemma fileclose (hp : γ p = some []) {f : Fin NFILE} (hdone : s.fileclose f = .done r s') :
    RefInv s' (update γ p (some r.toList)) := by
  have hsum : ∀ (g : File) x, (∑ j, ind (update s.file f g j).ip x) +
      ind (s.file f).ip x = (∑ j, ind (s.file j).ip x) + ind g.ip x := fun g x =>
    sum_update_add (fun g : File => ind g.ip x) s.file f g
  rw [Sys.fileclose] at hdone
  split at hdone
  · cases hdone
  split at hdone
  · rename_i hlast
    cases hdone
    refine h.change hp (Nat.zero_le 3) rfl (fun g hg => ?_) fun x => ?_
    · by_cases hgf : g = f
      · subst hgf
        simp only [update_self] at hg
        omega
      · simp only [ne_eq, hgf, not_false_eq_true, update_of_ne] at hg ⊢
        exact h.file g hg
    · have hx := hsum ⟨(s.file f).ref - 1, (s.file f).ip⟩ x
      simp only [Option.toList_none]
      simp only at hx
      omega
  · cases hdone
    have hcount : ∀ x, (s.file f).ip.toList.count x = ind (s.file f).ip x := by
      intro x
      cases (s.file f).ip <;> simp [ind, List.count_singleton]
    refine h.change hp ?_ rfl (fun g hg => ?_) fun x => ?_
    · cases (s.file f).ip <;> simp
    · by_cases hgf : g = f
      · subst hgf
        simp
      · simp only [ne_eq, hgf, not_false_eq_true, update_of_ne] at hg ⊢
        exact h.file g hg
    · have hx := hsum ⟨0, none⟩ x
      have hnone : ind none x = 0 := by simp [ind]
      rw [hcount x]
      simp only [List.count_nil]
      simp only at hx
      omega

lemma exit (hp : γ p = some [])
    (hdone : s.exit p = .done r s') : RefInv s' (update γ p (some r.toList)) := by
  cases hdone
  have hcount : ∀ x, (s.cwd p).toList.count x = ind (s.cwd p) x := by
    intro x
    cases s.cwd p <;> simp [ind, List.count_singleton]
  refine h.change hp ?_ rfl h.file fun x => ?_
  · cases s.cwd p <;> simp
  · have hx := sum_ind_update s.cwd p none x
    have hnone : ind none x = 0 := by simp [ind]
    rw [hcount x]
    simp only [List.count_nil]
    omega

lemma setBusy {g : Held} (hp : (γ p).getD [] = []) (hg : g.getD [] = []) :
    RefInv { s with busy := update s.busy p g.isSome } (update γ p g) := by
  have hget : ∀ q, (update γ p g q).getD [] = (γ q).getD [] := by
    intro q
    by_cases hq : q = p
    · subst hq
      rw [update_self, hp, hg]
    · rw [update_of_ne hq]
  refine ⟨fun e => ?_, fun q => ?_, fun q => ?_, h.file⟩
  · simp only [hget]
    exact h.ref e
  · rw [hget]
    exact h.len q
  · by_cases hq : q = p
    · subst hq
      simp
    · simpa [hq] using h.busy q

end

end RefInv

def refProtocol (N : ℕ) : Protocol (Sys N) (Act N) (Fin N) Held Unit where
  inv s _ γ := RefInv s γ
  upd _ _ _ := ()
  ok := Roomy
  guar _ _ _ _ _ := True
  view _ _ := True
  rest _ := True
  tol msg := msg ≠ "iget: no inodes"
  idle := none
  fin g := g = none

namespace IProg

variable {p : Fin N} {l l' : List (Fin NINODE)}

lemma safe_act {β : Type} {Q : β → Held → Prop} {a : Act N} {f : Sys N → Outcome (Sys N) β}
    (hpanic : ∀ s msg, f s = .panic msg → msg ≠ "iget: no inodes")
    (hdone : ∀ s γ r s', RefInv s γ → γ p = some l → f s = .done r s' →
      ∃ l', RefInv s' (update γ p (some l')) ∧ Q r (some l')) :
    (refProtocol N).Safe p Q (.atomic a f) (some l) := by
  refine safe_atomic trivial (fun s _ _ msg _ _ _ hf => hpanic s msg hf)
    fun s _ γ r s' hinv hp _ hf => ?_
  obtain ⟨l', hinv', hQ⟩ := hdone s γ r s' hinv hp hf
  exact ⟨trivial, some l', hinv', hQ⟩

lemma safe_iget {Q : Fin NINODE → Held → Prop} (hl : l.length ≤ 2)
    (hQ : ∀ e, Q e (some (e :: l))) : (refProtocol N).Safe p Q (iget inum) (some l) := by
  refine safe_atomic trivial (fun s _ γ msg hinv hp hok hf => ?_)
    fun s _ γ e s' hinv hp _ hf => ⟨trivial, _, RefInv.iget hinv hp hl hf, hQ e⟩
  have hlt := RefInv.sum_ref_lt hinv hp hl
  exact absurd hf (RefInv.iget_ne_panic (hlt.trans_le (hok inum rfl)) inum msg)

section

variable {Q : Unit → Held → Prop}

lemma safe_iput {e : Fin NINODE} (hl : l.Perm (e :: l'))
    (hQ : Q () (some l')) : (refProtocol N).Safe p Q (iput e) (some l) := by
  refine safe_act (fun s msg hf => by cases hf) fun s γ r s' hinv hp hf => ?_
  cases hf
  exact ⟨l', hinv.iput hp hl, hQ⟩

lemma safe_iput_head {e : Fin NINODE} (hQ : Q () (some l)) :
    (refProtocol N).Safe p Q (iput e) (some (e :: l)) :=
  safe_iput (List.Perm.refl _) hQ

lemma safe_iput_second {a e : Fin NINODE} (hQ : Q () (some (a :: l))) :
    (refProtocol N).Safe p Q (iput e) (some (a :: e :: l)) :=
  safe_iput (List.Perm.swap e a l) hQ

end

lemma safe_iputAny (r : Option (Fin NINODE)) :
    (refProtocol N).Safe p (fun _ g => g = some []) (iputAny r) (some r.toList) := by
  cases r with
  | none => exact safe_ret rfl
  | some e => exact safe_iput_head rfl

lemma safe_namexLoop (parent : Bool) (path : List (Option ℕ)) (ip : Fin NINODE)
    (hl : l.length ≤ 1) :
    (refProtocol N).Safe p (fun r g => g = some (r.toList ++ l)) (namexLoop parent path ip)
      (some (ip :: l)) := by
  induction path generalizing ip with
  | nil =>
    rw [namexLoop]
    split
    · exact Safe.bind (safe_iput_head (safe_ret rfl))
    · exact safe_ret rfl
  | cons x path ih =>
    cases x with
    | none => exact Safe.bind (safe_iput_head (safe_ret rfl))
    | some inum =>
      rw [namexLoop]
      split
      · exact safe_ret rfl
      · refine Safe.bind (safe_iget (by rw [List.length_cons]; omega) fun next => ?_)
        exact Safe.bind (safe_iput_second (ih next))

lemma safe_namex (path : Path) (parent : Bool) (hl : l.length ≤ 1) :
    (refProtocol N).Safe p (fun r g => g = some (r.toList ++ l)) (namex p path parent) (some l) := by
  have hloop : ∀ e : Fin NINODE, (refProtocol N).Safe p (fun r g => g = some (r.toList ++ l))
      (namexLoop parent path.elems e) (some (e :: l)) := fun e =>
    safe_namexLoop parent path.elems e hl
  rw [namex]
  split
  · exact Safe.bind (safe_iget (by omega) hloop)
  refine Safe.bind (safe_act (fun s msg hf => ?_) fun s γ e s' hinv hp hf => ?_)
  · rw [Sys.idup] at hf
    split at hf <;> cases hf
    decide
  · rw [Sys.idup] at hf
    split at hf
    · cases hf
      exact ⟨_, hinv.get hp (by omega) rfl, hloop _⟩
    · cases hf

lemma safe_create (path : Path) (found fresh : Option ℕ) (good : Bool) :
    (refProtocol N).Safe p (fun r g => g = some r.toList) (create p path found fresh good)
      (some []) := by
  refine Safe.bind ((safe_namex (l := []) path true (Nat.zero_le 1)).mono ?_)
  rintro (_ | dp) g rfl
  · exact safe_ret rfl
  change (refProtocol N).Safe p _ _ (some [dp])
  cases found with
  | some inum =>
    refine Safe.bind (safe_iget (Nat.le_succ 1) fun ip => Safe.bind (safe_iput_second ?_))
    split
    · exact safe_ret rfl
    · exact Safe.bind (safe_iput_head (safe_ret rfl))
  | none =>
    cases fresh with
    | none => exact Safe.bind (safe_iput_head (safe_ret rfl))
    | some inum =>
      refine Safe.bind (safe_iget (Nat.le_succ 1) fun ip => ?_)
      split
      · exact Safe.bind (safe_iput_second (safe_ret rfl))
      · exact Safe.bind (safe_iput_head (Safe.bind (safe_iput_head (safe_ret rfl))))

lemma safe_openFile (good : Bool) (r : Option (Fin NINODE)) :
    (refProtocol N).Safe p (fun _ g => g = some []) (openFile p good r) (some r.toList) := by
  rcases r with _ | ip
  · exact safe_ret rfl
  rw [openFile]
  split
  · refine Safe.bind (safe_act (fun s msg hf => ?_)
      fun s γ r s' hinv hp hf => ⟨_, hinv.fdalloc hp hf, ?_⟩)
    · rw [Sys.fdalloc] at hf
      split at hf <;> cases hf
    · cases r with
      | true => exact safe_ret rfl
      | false => exact safe_iput_head rfl
  · exact safe_iput_head rfl

lemma safe_sysLink (old new : Path) (isDir : Bool) (hit : Option ℕ) :
    (refProtocol N).Safe p (fun _ g => g = some []) (sysLink p old new isDir hit) (some []) := by
  refine Safe.bind ((safe_namex (l := []) old false (Nat.zero_le 1)).mono ?_)
  rintro (_ | ip) g rfl
  · exact safe_ret rfl
  change (refProtocol N).Safe p _ _ (some [ip])
  dsimp only
  split
  · exact safe_iput_head rfl
  refine Safe.bind ((safe_namex (l := [ip]) new true le_rfl).mono ?_)
  rintro (_ | dp) g rfl
  · exact safe_iput_head rfl
  change (refProtocol N).Safe p _ _ (some [dp, ip])
  cases hit with
  | none => exact Safe.bind (safe_iput_head (safe_iput_head rfl))
  | some inum =>
    refine Safe.bind (safe_iget le_rfl fun other => Safe.bind (safe_iput_head ?_))
    exact Safe.bind (safe_iput_head (safe_iput_head rfl))

lemma safe_sysUnlink (path : Path) (found : Option ℕ) (full : Bool) :
    (refProtocol N).Safe p (fun _ g => g = some []) (sysUnlink p path found full) (some []) := by
  refine Safe.bind ((safe_namex (l := []) path true (Nat.zero_le 1)).mono ?_)
  rintro (_ | dp) g rfl
  · exact safe_ret rfl
  change (refProtocol N).Safe p _ _ (some [dp])
  cases found with
  | none => exact safe_iput_head rfl
  | some inum =>
    refine Safe.bind (safe_iget (Nat.le_succ 1) fun ip => ?_)
    split
    · exact Safe.bind (safe_iput_head (safe_iput_head rfl))
    · exact Safe.bind (safe_iput_second (safe_iput_head rfl))

lemma safe_sysChdir (path : Path) (isDir : Bool) :
    (refProtocol N).Safe p (fun _ g => g = some []) (sysChdir p path isDir) (some []) := by
  refine Safe.bind ((safe_namex (l := []) path false (Nat.zero_le 1)).mono ?_)
  rintro (_ | ip) g rfl
  · exact safe_ret rfl
  change (refProtocol N).Safe p _ _ (some [ip])
  dsimp only
  split
  · refine safe_act (fun s msg hf => ?_) fun s γ r s' hinv hp hf => ⟨_, hinv.chdir hp hf, rfl⟩
    rw [Sys.chdir] at hf
    split at hf <;> cases hf
    decide
  · exact safe_iput_head rfl

lemma safe_sysClose (fd : Fin NOFILE) :
    (refProtocol N).Safe p (fun _ g => g = some []) (sysClose p fd) (some []) := by
  refine Safe.bind (safe_act (fun s msg hf => by cases hf)
    fun s γ r s' hinv hp hf => ⟨_, hinv.argfd hp hf, ?_⟩)
  cases r with
  | none => exact safe_ret rfl
  | some f =>
    refine Safe.bind (safe_act (fun s msg hf => ?_)
      fun s γ r s' hinv hp hf => ⟨_, hinv.fileclose hp hf, safe_iputAny r⟩)
    rw [Sys.fileclose] at hf
    split at hf
    · cases hf
      decide
    · split at hf <;> cases hf

lemma safe_closeAll (fds : List (Fin NOFILE)) :
    (refProtocol N).Safe p (fun _ g => g = some []) (closeAll p fds) (some []) := by
  induction fds with
  | nil => exact safe_ret rfl
  | cons fd fds ih =>
    refine Safe.bind ((safe_sysClose fd).mono ?_)
    rintro - g rfl
    exact ih

lemma safe_exit : (refProtocol N).Safe p (fun _ g => g = some []) (exit p) (some []) := by
  refine Safe.bind ((safe_closeAll _).mono ?_)
  rintro - g rfl
  exact Safe.bind (safe_act (fun s msg hf => by cases hf)
    fun s γ r s' hinv hp hf => ⟨_, hinv.exit hp hf, safe_iputAny r⟩)

lemma safe_fork (q : Fin N) : (refProtocol N).Safe p (fun _ g => g = some [])
      (.atomic (.fork q) fun s => s.fork p q) (some []) := by
  refine safe_act (fun s msg hf => ?_) fun s γ r s' hinv hp hf => ⟨_, hinv.fork hp hf, rfl⟩
  rw [Sys.fork] at hf
  split at hf <;> cases hf
  decide

end IProg

open IProg in
lemma Call.safe (x : Call N) (p : Fin N) :
    (refProtocol N).Safe p (fun _ g => g = some []) (x.body p) (some []) := by
  cases x with
  | sysOpen path good =>
    refine Safe.bind ((safe_namex (l := []) path false (Nat.zero_le 1)).mono ?_)
    rintro r g rfl
    rw [List.append_nil]
    exact safe_openFile good r
  | creat path found fresh linked good =>
    refine Safe.bind ((safe_create path found fresh linked).mono ?_)
    rintro r g rfl
    exact safe_openFile good r
  | mkdir path found fresh linked =>
    refine Safe.bind ((safe_create path found fresh linked).mono ?_)
    rintro r g rfl
    exact safe_iputAny r
  | link old new isDir hit => exact safe_sysLink old new isDir hit
  | unlink path found full => exact safe_sysUnlink path found full
  | chdir path isDir => exact safe_sysChdir path isDir
  | exec path =>
    refine Safe.bind ((safe_namex (l := []) path false (Nat.zero_le 1)).mono ?_)
    rintro r g rfl
    rw [List.append_nil]
    exact safe_iputAny r
  | fork q => exact safe_fork q
  | close fd => exact safe_sysClose fd
  | exit => exact safe_exit

lemma machine_verified : (refProtocol N).Verified (machine N) where
  start s η γ p x hinv hp _ := by
    refine ⟨none, ?_, ?_⟩
    · rw [show (none : Held) = γ p from hp.symm, update_eq_self]
      exact hinv
    refine Safe.bind (safe_update trivial fun s _ γ hinv hp _ => ?_)
    refine ⟨trivial, some [], RefInv.setBusy (g := some []) hinv (by rw [hp]; rfl) rfl, ?_⟩
    refine Safe.bind ((x.safe p).mono ?_)
    rintro - g rfl
    refine safe_update trivial fun s _ γ hinv hp _ => ?_
    exact ⟨trivial, none, RefInv.setBusy (g := none) hinv (by rw [hp]; rfl) rfl, rfl⟩
  finish s η γ p hinv hfin := by
    rw [show (refProtocol N).idle = γ p from hfin.symm, update_eq_self]
    exact hinv

/-! ## Runs -/

/-- The capacity of the table of inodes.  In every run in which at every `iget` the table has room
for the open files, the current directories and three references for every process in a system call,
`iget` does not panic; and in every state the references in the table are at most those. -/
theorem iget_finds_inode {p₀ : Fin N} {tr : List (Fin N × Act N)}
    {c : Config (Sys N) (Act N) (Fin N)} (h : Exec (machine N) Roomy (.idle (Sys.boot p₀)) tr c) :
    c.panicked ≠ some "iget: no inodes" ∧
      ∑ e, (c.st.inode e).ref ≤ c.st.files + c.st.dirs + 3 * c.st.calls := by
  have hinit : RefInv (Sys.boot p₀) fun _ => none := by
    refine ⟨fun e => ?_, fun _ => Nat.zero_le 3, fun _ => rfl, fun _ _ => rfl⟩
    have hsum := RefInv.sum_ind_update (fun _ : Fin N => none) p₀ (some 0) e
    have hfile : ∑ f : Fin NFILE, ind ((Sys.boot p₀).file f).ip e = 0 :=
      sum_eq_zero fun f _ => by simp [Sys.boot, ind]
    have hzero : ∑ _q : Fin N, ind none e = 0 := sum_eq_zero fun q _ => by simp [ind]
    have hnone : ind none e = 0 := by simp [ind]
    have hheld : ∑ _q : Fin N, (((none : Held).getD []).count e) = 0 :=
      sum_eq_zero fun q _ => by simp
    rw [hheld, hfile]
    change (update (fun _ => (⟨0, 0⟩ : Inode)) 0 ⟨ROOTINO, 1⟩ e).ref =
      0 + 0 + ∑ q, ind (update (fun _ => none) p₀ (some 0) q) e
    by_cases he : e = 0
    · subst he
      have hone : ind (some 0) 0 = 1 := by simp [ind]
      rw [update_self]
      simp only
      omega
    have hother : ind (some 0) e = 0 := by simp [ind, Ne.symm he]
    rw [update_of_ne he]
    simp only
    omega
  have hholds := machine_verified.exec
    (Protocol.Holds.idle (P := refProtocol N) (η := ()) hinit) h
  obtain ⟨γ, hinv, -⟩ := hholds.ghost
  exact ⟨fun hpanic => hholds.panicked _ hpanic rfl, RefInv.sum_ref_le hinv⟩

/-- The given number of files with different inodes are opened, sixteen by each process. -/
def opens : ℕ → List (Move (Fin 13) (Call 13))
  | 0 => []
  | k + 1 =>
    opens k ++ .start (Fin.ofNat 13 (k / 16)) (.sysOpen ⟨true, [some (k + 2)]⟩ true) ::
      List.replicate 7 (.go (Fin.ofNat 13 (k / 16)) 0)

def forks : List (Move (Fin 13) (Call 13)) :=
  [1, 2, 3].flatMap fun q => .start 0 (.fork q) :: List.replicate 4 (.go 0 0)

/-- The first process opens a file. -/
theorem iget_finds_inode_open : ∃ c : Config (Sys 13) (Act 13) (Fin 13),
      (c.st.files = 1 ∧ (c.st.inode 1).ref = 1) ∧ c.panicked ≠ some "iget: no inodes" ∧
      ∑ e, (c.st.inode e).ref ≤ c.st.files + c.st.dirs + 3 * c.st.calls := by
  have hplay : (Config.idle (Sys.boot (0 : Fin 13))).playOkTest (machine 13)
      (fun s _ _ => decide (s.files + s.dirs + 3 * s.calls ≤ NINODE)) (opens 1)
      (fun _ c => decide (c.st.files = 1 ∧ (c.st.inode 1).ref = 1)) = true := by
    decide +kernel
  have hok : ∀ (s : Sys 13) (p : Fin 13) (l : Act 13),
      decide (s.files + s.dirs + 3 * s.calls ≤ NINODE) = true → Roomy s p l :=
    fun s p l h _ _ => of_decide_eq_true h
  obtain ⟨tr, c, hexec, htest⟩ := Config.exists_of_playOkTest hok hplay
  exact ⟨c, of_decide_eq_true htest, iget_finds_inode hexec⟩

/-- Four processes, each with at most sixteen descriptors, open fifty files with different inodes.
The fiftieth finds no entry. -/
theorem iget_no_inodes_opens :
    ∃ (tr : List (Fin 13 × Act 13)) (c : Config (Sys 13) (Act 13) (Fin 13)),
      Exec (machine 13) anyAction (.idle (Sys.boot 0)) tr c ∧
        c.panicked = some "iget: no inodes" ∧ c.st.files = 49 := by
  have hplay : (Config.idle (Sys.boot (0 : Fin 13))).playTest (machine 13)
      (forks ++ opens 49 ++
        [.start 3 (.sysOpen ⟨true, [some 51]⟩ true), .go 3 0, .go 3 0, .go 3 0])
      (fun _ c => decide (c.panicked = some "iget: no inodes" ∧ c.st.files = 49)) = true := by
    decide +kernel
  obtain ⟨tr, c, hexec, htest⟩ := Config.exists_of_playTest hplay
  exact ⟨tr, c, hexec, of_decide_eq_true htest⟩

end Itable

end Xv6
