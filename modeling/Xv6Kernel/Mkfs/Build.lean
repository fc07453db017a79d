import Xv6Kernel.Mkfs.Files

/-!
# Building the image

`Contents` says what the inodes of an image hold, and that the blocks in front of the inodes and the
bitmap block are still as in the blank image.
-/

namespace Xv6

open Function

variable {f : Input} {ps : List (List UInt8)} {fs : List Input} {p : List UInt8} {b : ℕ}

namespace Mkfs

structure Contents (s : Image) (ty : Fin NINODES → ℕ) (data : Fin NINODES → List UInt8) :
    Prop where
  files : Files s.disk (fun i => rinode s.disk i) data s.freeblock
  size : ∀ i : Fin NINODES, (rinode s.disk i).size = (data i).length
  type : ∀ i : Fin NINODES, (rinode s.disk i).getLE 2 0 = ty i
  len : ∀ i, (data i).length ≤ MAXFILE * BSIZE
  front : ∀ b, b < inodestart ∨ b = bmapstart → s.disk b = blank.disk b

/-! ## What a step leaves alone -/

lemma winode_of_le (d : Disk) {i : ℕ} (hi : i < NINODES) (din : Dinode)
    (hb : nmeta ≤ b) : winode d i din b = d b := by
  have h1 := iblock_lt hi
  have h1 : iblock i < 45 := h1
  have hb : 46 ≤ b := hb
  exact update_of_ne (by omega) _ _

lemma winode_of_front (d : Disk) {i : ℕ} (hi : i < NINODES) (din : Dinode)
    (hb : b < inodestart ∨ b = bmapstart) : winode d i din b = d b := by
  have h1 : iblock i < 45 := iblock_lt hi
  have h2 : 32 ≤ iblock i := le_iblock i
  have hb : b < 32 ∨ b = 45 := hb
  exact update_of_ne (by omega) _ _

lemma le_iappend {s s' : Image} {i : ℕ} (h : iappend s i p = some s') :
    s.freeblock ≤ s'.freeblock ∧ s'.freeinode = s.freeinode := by
  unfold iappend at h
  simp only at h
  split at h
  · cases h
  · rename_i a off hloop
    cases h
    exact ⟨Append.le_loop hloop, rfl⟩

lemma le_appendPieces {s s' : Image} {i : ℕ} (h : appendPieces s i ps = some s') :
    s.freeblock ≤ s'.freeblock ∧ s'.freeinode = s.freeinode := by
  induction ps generalizing s with
  | nil =>
    cases h
    exact ⟨le_rfl, rfl⟩
  | cons p ps ih =>
    rw [appendPieces] at h
    split at h
    · cases h
    rename_i t ht
    have h1 := le_iappend ht
    have h2 := ih h
    exact ⟨h1.1.trans h2.1, h2.2.trans h1.2⟩

lemma le_addFile {s s' : Image} (h : addFile s f = some s') :
    s.freeblock ≤ s'.freeblock ∧ s'.freeinode = s.freeinode + 1 := by
  rw [addFile] at h
  split at h
  · cases h
  split at h
  · cases h
  simp only at h
  split at h
  · cases h
  rename_i t ht
  have h1 := le_iappend ht
  have h2 := le_appendPieces h
  exact ⟨h1.1.trans h2.1, h2.2.trans h1.2⟩

lemma le_addFiles {s s' : Image} (h : addFiles s fs = some s') :
    s.freeblock ≤ s'.freeblock ∧ s'.freeinode = s.freeinode + fs.length := by
  induction fs generalizing s with
  | nil =>
    cases h
    exact ⟨le_rfl, rfl⟩
  | cons f fs ih =>
    rw [addFiles] at h
    split at h
    · cases h
    rename_i t ht
    have h1 := le_addFile ht
    have h2 := ih h
    refine ⟨h1.1.trans h2.1, ?_⟩
    rw [h2.2, h1.2, List.length_cons]
    omega

namespace Contents

variable {s s' : Image} {ty : Fin NINODES → ℕ} {data : Fin NINODES → List UInt8} {i : Fin NINODES}

section

variable (h : Contents s ty data)
include h

lemma iappend (hs : Mkfs.iappend s i p = some s')
    (hfb : s'.freeblock ≤ FSSIZE) : Contents s' ty (update data i (data i ++ p)) := by
  unfold Mkfs.iappend at hs
  simp only [h.size i] at hs
  split at hs
  · cases hs
  rename_i a off hloop
  cases hs
  obtain ⟨happ, hoff, hmax⟩ := h.files.loop (i := i) le_rfl (h.len i) hloop hfb
  have hmax' : off ≤ 268 * 1024 := hmax
  have hother : ∀ j : Fin NINODES, j ≠ i →
      rinode (winode a.disk i (a.din.setSize off)) j = rinode s.disk j := by
    intro j hji
    rw [rinode_winode_of_ne _ _ fun he => hji (Fin.ext he)]
    exact rinode_congr (happ.front _ ((iblock_lt j.isLt).trans (Nat.lt_succ_self _)))
  refine ⟨happ.files.congr (fun b hb => winode_of_le _ i.isLt _ hb) fun j k _ => ?_, fun j => ?_,
    fun j => ?_, fun j => ?_, fun b hb => ?_⟩
  · by_cases hji : j = i
    · subst hji
      rw [rinode_winode_self, update_self, Dinode.addr_setSize]
    · rw [hother j hji, update_of_ne hji]
  · by_cases hji : j = i
    · subst hji
      rw [rinode_winode_self, Dinode.size_setSize (by omega), update_self,
        List.length_append, hoff]
    · rw [hother j hji, update_of_ne hji]
      exact h.size j
  · by_cases hji : j = i
    · subst hji
      rw [rinode_winode_self]
      have hdis : (a.din.setSize off).getLE 2 0 = a.din.getLE 2 0 :=
        Bytes.getLE_setLE_of_disjoint 4 2 _ _ _ _ (by omega)
      rw [hdis, happ.head 2 0 (by omega)]
      exact h.type j
    · rw [hother j hji]
      exact h.type j
  · by_cases hji : j = i
    · subst hji
      rw [update_self, List.length_append, ← hoff]
      exact hmax
    · rw [update_of_ne hji]
      exact h.len j
  · change winode a.disk i _ b = _
    rw [winode_of_front _ i.isLt _ hb, happ.front b ?_]
    · exact h.front b hb
    · have hb : b < 32 ∨ b = 45 := hb
      change b < 46
      omega

lemma addr_of_nil (hd : data i = []) {k : ℕ} (hk : k ≤ NDIRECT) :
    (rinode s.disk i).addr k = 0 := by
  have hcnt : nblk (data i).length = 0 := by
    rw [hd]
    rfl
  rcases Nat.lt_or_eq_of_le hk with hlt | rfl
  · exact h.files.blocks.direct i k (by rw [hcnt]; exact Nat.zero_le _) hlt
  · exact h.files.blocks.indirect i (by rw [hcnt]; exact Nat.zero_le _)

lemma ialloc (hi : i.val = s.freeinode) (hd : data i = []) {t : ℕ}
    (ht : t < 2 ^ 16) : Contents (Mkfs.ialloc s t).2 (update ty i t) data := by
  unfold Mkfs.ialloc
  simp only [← hi]
  generalize hdin : (((Bytes.zero 64).setLE 2 0 t).setLE 2 6 1).setLE 4 8 0 = din
  have haddr : ∀ k, k ≤ NDIRECT → Dinode.addr din k = 0 := by
    intro k _
    rw [← hdin, Dinode.addr, Bytes.getLE_setLE_of_disjoint _ _ _ _ _ _ (by omega),
      Bytes.getLE_setLE_of_disjoint _ _ _ _ _ _ (by omega),
      Bytes.getLE_setLE_of_disjoint _ _ _ _ _ _ (by omega), Bytes.getLE_zero]
  have hsize : Dinode.size din = 0 := by
    rw [← hdin, Dinode.size, Bytes.getLE_setLE _ _ _ _ (by omega), Nat.zero_mod]
  have htype : Bytes.getLE 2 din 0 = t := by
    rw [← hdin, Bytes.getLE_setLE_of_disjoint _ _ _ _ _ _ (by omega),
      Bytes.getLE_setLE_of_disjoint _ _ _ _ _ _ (by omega), Bytes.getLE_setLE _ _ _ _ (by omega)]
    exact Nat.mod_eq_of_lt (by simpa using ht)
  have hother : ∀ j : Fin NINODES, j ≠ i → rinode (winode s.disk i din) j = rinode s.disk j :=
    fun j hji => rinode_winode_of_ne _ _ fun he => hji (Fin.ext he)
  refine ⟨h.files.congr (fun b hb => winode_of_le _ i.isLt _ hb) fun j k hk => ?_, fun j => ?_,
    fun j => ?_, h.len, fun b hb => ?_⟩
  · by_cases hji : j = i
    · subst hji
      rw [rinode_winode_self, haddr k hk, h.addr_of_nil hd hk]
    · rw [hother j hji]
  · by_cases hji : j = i
    · subst hji
      rw [rinode_winode_self, hsize, hd]
      rfl
    · rw [hother j hji]
      exact h.size j
  · by_cases hji : j = i
    · subst hji
      rw [rinode_winode_self, htype, update_self]
    · rw [hother j hji, update_of_ne hji]
      exact h.type j
  · change winode s.disk i din b = _
    rw [winode_of_front _ i.isLt _ hb]
    exact h.front b hb

lemma appendPieces (hs : Mkfs.appendPieces s i ps = some s')
    (hfb : s'.freeblock ≤ FSSIZE) : Contents s' ty (update data i (data i ++ ps.flatten)) := by
  induction ps generalizing s data with
  | nil =>
    cases hs
    rw [List.flatten_nil, List.append_nil, update_eq_self]
    exact h
  | cons p ps ih =>
    rw [Mkfs.appendPieces] at hs
    split at hs
    · cases hs
    rename_i t ht
    have hrest := ih (h.iappend ht ((le_appendPieces hs).1.trans hfb)) hs
    rwa [update_idem, update_self, List.append_assoc,
      ← List.flatten_cons] at hrest

end

end Contents

/-! ## The input files -/

def rootEntries (fs : List Input) : List (List UInt8) :=
  dirent ROOTINO [46] :: dirent ROOTINO [46, 46] ::
    fs.mapIdx fun j f => dirent (j + 2) f.shortname

structure Built (fs : List Input) (s : Image) (ty : Fin NINODES → ℕ)
    (data : Fin NINODES → List UInt8) : Prop where
  contents : Contents s ty data
  inodes : s.freeinode = fs.length + 2
  root : ∀ i : Fin NINODES, i.val = ROOTINO → data i = (rootEntries fs).flatten ∧ ty i = T_DIR
  file : ∀ (i : Fin NINODES) j f, i.val = j + 2 → fs[j]? = some f →
    data i = f.contents ∧ ty i = T_FILE
  unused : ∀ i : Fin NINODES, fs.length + 2 ≤ i.val → data i = []
  names : ∀ f ∈ fs, f.shortname.length ≤ DIRSIZ ∧ slash ∉ f.shortname

lemma slash_notMem_shortname (h : slash ∉ stripUser f.argv) : slash ∉ f.shortname := by
  unfold Input.shortname stripUnderscore
  split
  · exact fun hm => h (List.mem_of_mem_tail hm)
  · exact h

lemma Built.addFile {s s' : Image} {ty : Fin NINODES → ℕ} {data : Fin NINODES → List UInt8}
    (h : Built fs s ty data) (hs : Mkfs.addFile s f = some s') (hfb : s'.freeblock ≤ FSSIZE)
    (hin : fs.length + 2 < NINODES) : ∃ ty' data', Built (fs ++ [f]) s' ty' data' := by
  have hfree := (le_addFile hs).2
  rw [Mkfs.addFile] at hs
  split at hs
  · cases hs
  rename_i hslash
  split at hs
  · cases hs
  rename_i hlen
  simp only at hs
  split at hs
  · cases hs
  rename_i t ht
  obtain ⟨n, hn⟩ : ∃ n : Fin NINODES, n.val = fs.length + 2 := ⟨⟨_, hin⟩, rfl⟩
  obtain ⟨r, hr⟩ : ∃ r : Fin NINODES, r.val = ROOTINO := ⟨⟨1, by decide⟩, rfl⟩
  have hr1 : r.val = 1 := hr
  have hrn : r ≠ n := fun he => by
    have : r.val = n.val := congrArg Fin.val he
    omega
  have hnil := h.unused n hn.ge
  have hinum : (ialloc s T_FILE).1 = n.val := by
    rw [hn, ← h.inodes]
    rfl
  have hc1 := h.contents.ialloc (i := n) (hn.trans h.inodes.symm) hnil (t := T_FILE) (by decide)
  rw [hinum] at ht hs
  rw [← hr] at ht
  have hc2 := hc1.iappend ht ((le_appendPieces hs).1.trans hfb)
  have hc3 := hc2.appendPieces hs hfb
  rw [update_of_ne hrn.symm, hnil, List.nil_append] at hc3
  refine ⟨_, _, hc3, ?_, fun i hi => ?_, fun i j g hi hg => ?_, fun i hi => ?_, fun g hg => ?_⟩
  · rw [hfree, h.inodes, List.length_append, List.length_singleton]
  · obtain rfl : i = r := Fin.ext (hi.trans hr.symm)
    rw [update_of_ne hrn, update_self, update_of_ne hrn,
      (h.root i hi).1]
    refine ⟨?_, (h.root i hi).2⟩
    rw [rootEntries, rootEntries, List.mapIdx_concat, hn]
    simp
  · by_cases hin' : i = n
    · subst hin'
      have hj : j = fs.length := by omega
      subst hj
      rw [List.getElem?_append_right le_rfl, Nat.sub_self] at hg
      cases hg
      rw [update_self, update_self]
      exact ⟨rfl, rfl⟩
    · have hj : j ≠ fs.length := fun hj => hin' (Fin.ext (by rw [hi, hn, hj]))
      have hjlt : j < fs.length := by
        by_contra hge
        rw [List.getElem?_eq_none (by rw [List.length_append, List.length_singleton]; omega)] at hg
        cases hg
      rw [List.getElem?_append_left hjlt] at hg
      have hir : i ≠ r := fun he => by
        have : i.val = r.val := congrArg Fin.val he
        omega
      rw [update_of_ne hin', update_of_ne hin', update_of_ne hir]
      exact h.file i j g hi hg
  · rw [List.length_append, List.length_singleton] at hi
    have hin' : i ≠ n := fun he => by
      have : i.val = n.val := congrArg Fin.val he
      omega
    have hir : i ≠ r := fun he => by
      have h1 : i.val = r.val := congrArg Fin.val he
      omega
    rw [update_of_ne hin', update_of_ne hir]
    exact h.unused i (by omega)
  · rw [List.mem_append, List.mem_singleton] at hg
    rcases hg with hg | rfl
    · exact h.names g hg
    · exact ⟨by omega, slash_notMem_shortname hslash⟩

lemma Built.addFiles {gs : List Input} {s s' : Image} {ty : Fin NINODES → ℕ}
    {data : Fin NINODES → List UInt8} (h : Built fs s ty data) (hs : Mkfs.addFiles s gs = some s')
    (hfits : s'.Fits) : ∃ ty' data', Built (fs ++ gs) s' ty' data' := by
  induction gs generalizing fs s ty data with
  | nil =>
    cases hs
    rw [List.append_nil]
    exact ⟨ty, data, h⟩
  | cons g gs ih =>
    have hfree := (le_addFiles hs).2
    rw [Mkfs.addFiles] at hs
    split at hs
    · cases hs
    rename_i t ht
    have hle := le_addFiles hs
    obtain ⟨ty', data', hb⟩ := h.addFile ht (hle.1.trans hfits.2) (by
      have h1 := hfits.1
      rw [hfree, h.inodes, List.length_cons] at h1
      omega)
    obtain ⟨ty'', data'', hb'⟩ := ih hb hs
    exact ⟨ty'', data'', by rwa [List.append_assoc] at hb'⟩

lemma contents_blank : Contents blank (fun _ => 0) fun _ => [] := by
  have hzero : ∀ b, b ≠ 1 → blank.disk b = Bytes.zero _ := fun b hb => by
    change update (fun _ => Bytes.zero BSIZE) 1 superblock b = _
    rw [update_of_ne hb]
  have hinode : ∀ i, blank.disk (iblock i) = Bytes.zero _ := fun i => by
    have h2 : 32 ≤ iblock i := le_iblock i
    exact hzero _ (by omega)
  have hget : ∀ i w o, o + w ≤ 64 → (rinode blank.disk i).getLE w o = 0 := by
    intro i w o hw
    rw [rinode, Bytes.getLE_slice _ _ _ _ hw, hinode, Bytes.getLE_zero]
  have hnlive : ∀ o, ¬Live (nblk ([] : List UInt8).length) o := by
    intro o ho
    cases o with
    | none =>
      have ho : 12 < 0 := ho
      omega
    | some k => exact Nat.not_lt_zero k ho
  refine ⟨⟨⟨le_rfl, ⟨fun i o ho => absurd ho (hnlive o), fun i j o o' ho => absurd ho (hnlive o)⟩,
    fun i k _ hk => ?_, fun i _ => ?_, fun i k hk => ?_, fun b hb => ?_⟩, fun i y hy => ?_⟩,
    fun i => ?_, fun i => ?_, fun i => Nat.zero_le _, fun b _ => rfl⟩
  · have hk : k < 12 := hk
    exact hget i 4 _ (by omega)
  · exact hget i 4 _ (by decide)
  · exact absurd hk (by decide)
  · have hb : 46 ≤ b := hb
    exact hzero b (by omega)
  · exact absurd hy (Nat.not_lt_zero y)
  · exact hget i 4 8 (by omega)
  · exact hget i 2 0 (by omega)

lemma mkfs_built {s : Image} (h : mkfs fs = some s) (hfits : s.Fits) :
    ∃ s1 ty data, Built fs s1 ty data ∧ s = { s1 with
      disk := wsect (roundRoot s1 ROOTINO).disk bmapstart (bitmap s1.freeblock) } := by
  obtain ⟨r, hr⟩ : ∃ r : Fin NINODES, r.val = ROOTINO := ⟨⟨1, by decide⟩, rfl⟩
  have hroot : (ialloc blank T_DIR).1 = ROOTINO := rfl
  have hc1 := contents_blank.ialloc (i := r) hr rfl (t := T_DIR) (by decide)
  rw [mkfs] at h
  simp only [hroot, ne_eq, not_true, if_false] at h
  split at h
  · cases h
  rename_i s0 hdots
  split at h
  · cases h
  rename_i s1 hfiles
  rw [balloc] at h
  split at h
  swap
  · cases h
  cases h
  have hle := le_addFiles hfiles
  have hfits1 : s1.Fits := hfits
  rw [addDots] at hdots
  split at hdots
  · cases hdots
  rename_i s2 hdot
  rw [← hr] at hdot hdots
  have hle2 := le_iappend hdots
  have hle1 := le_iappend hdot
  have hc2 := hc1.iappend hdot (hle2.1.trans (hle.1.trans hfits1.2))
  have hc3 := hc2.iappend hdots (hle.1.trans hfits1.2)
  rw [update_idem, update_self, List.nil_append] at hc3
  have hbuilt : Built [] s0 (update (fun _ => 0) r T_DIR)
      (update (fun _ => []) r (dirent r.val [46] ++ dirent r.val [46, 46])) := by
    refine ⟨hc3, ?_, fun i hi => ?_, fun i j f _ hf => ?_, fun i hi => ?_, fun f hf => ?_⟩
    · rw [hle2.2, hle1.2]
      rfl
    · obtain rfl : i = r := Fin.ext (hi.trans hr.symm)
      rw [update_self, update_self, hr]
      exact ⟨by simp [rootEntries], rfl⟩
    · simp at hf
    · refine update_of_ne (fun he => ?_) _ _
      have h1 : i.val = r.val := congrArg Fin.val he
      have hr1 : r.val = 1 := hr
      have hi : 0 + 2 ≤ i.val := hi
      omega
    · simp at hf
  obtain ⟨ty, data, hb⟩ := hbuilt.addFiles hfiles hfits1
  exact ⟨s1, ty, data, hb, rfl⟩

end Mkfs

end Xv6
