import Xv6Kernel.Memory.CopyRange
import Xv6Kernel.Memory.Grow
import Xv6Kernel.Param

/-!
# The arguments of a new program

The part of `exec` after the program has been loaded: the two pages at the end of the address space,
the lower of which becomes inaccessible, and the stack on the upper one with the argument strings
and the array of pointers to them.
-/

namespace Xv6

open HProg Heap Function

variable {K : KernelImage}
variable {s : KMem} {rest : PHeap} {sz sp : ℕ} {mem mem' : ℕ → Page}

def uvmclear (pagetable va : ℕ) : MProg Unit := do
  match ← walk pagetable va false with
  | none => .panic "uvmclear"
  | some (p, i) =>
    let pte ← HProg.load p i
    HProg.store p i (pte - (pte &&& PTE_U))

def stackPages (pagetable sz : ℕ) : MProg (Option ℕ) := do
  let sz := pgroundup sz
  let sz1 ← uvmalloc pagetable sz (u64 (sz + (USERSTACK + 1) * PGSIZE)) PTE_W
  if sz1 = 0 then pure none
  else
    uvmclear pagetable (sz1 - (USERSTACK + 1) * PGSIZE)
    pure (some sz1)

/-- `sp -= n; sp -= sp % 16`. -/
def pushSp (sp n : ℕ) : ℕ := u64 (sp + 2 ^ 64 - n) - u64 (sp + 2 ^ 64 - n) % 16

def srcBytes (l : List UInt8) : ℕ → UInt8 := fun j => l.getD j 0

/-- The loop that pushes the argument strings; `ustack` has the pointers pushed so far.  The result
is the number of arguments, the stack pointer and the pointers. -/
def pushStrings (pagetable stackbase : ℕ) :
    List (List UInt8) → ℕ → ℕ → List ℕ → MProg (Option (ℕ × ℕ × List ℕ))
  | [], argc, sp, ustack => pure (some (argc, sp, ustack))
  | arg :: argv, argc, sp, ustack =>
    if argc ≥ MAXARG then pure none
    else if pushSp sp (arg.length + 1) < stackbase then pure none
    else do
      let r ← copyout pagetable (pushSp sp (arg.length + 1)) (srcBytes (arg ++ [0]))
        (arg.length + 1)
      if r < 0 then pure none
      else
        pushStrings pagetable stackbase argv (argc + 1) (pushSp sp (arg.length + 1))
          (ustack ++ [pushSp sp (arg.length + 1)])

/-- The eight bytes of a `uint64`, the lowest first. -/
def le64 (w : ℕ) : List UInt8 := (List.range 8).map fun i => UInt8.ofNat (w / 256 ^ i)

/-- Push the arguments on the stack that ends at `sz`: the number of arguments and the stack
pointer, which `exec` returns and stores in `a1`; none if they do not fit. -/
def pushArguments (pagetable sz : ℕ) (argv : List (List UInt8)) : MProg (Option (ℕ × ℕ)) := do
  match ← pushStrings pagetable (sz - USERSTACK * PGSIZE) argv 0 sz [] with
  | none => pure none
  | some (argc, sp, ustack) =>
    if pushSp sp ((argc + 1) * 8) < sz - USERSTACK * PGSIZE then pure none
    else
      let r ← copyout pagetable (pushSp sp ((argc + 1) * 8))
        (srcBytes ((ustack ++ [0]).flatMap le64)) ((argc + 1) * 8)
      if r < 0 then pure none else pure (some (argc, pushSp sp ((argc + 1) * 8)))

/-! ## The pages of the stack -/

def NoUserAbove (mem : ℕ → Page) (pt : ℕ) : Prop :=
  ∀ v, TRAPPN ≤ v → v < MAXPN → ¬UserPage mem pt v

lemma HasSpace.separate {pt : ℕ} (hsp : HasSpace K s pt sz rest)
    (hab : NoUserAbove s.mem pt) : Separate s.mem pt := by
  obtain ⟨m, h, hu, h1, h2, L, ho, hs, hU⟩ := hsp
  obtain ⟨F, hF, hFr⟩ := hs.rotate hU.split
  have hlow : ∀ v, WritablePage s.mem pt v → v < pageCount sz ∧ pteOf s.mem pt v = m v := by
    intro v hv
    have hv' := hv.1.1
    have hpte := hU.table.pteOf_eq ho hF hv'
    refine ⟨?_, hpte⟩
    by_contra hge
    by_cases ht : v < TRAPPN
    · have hval := hv.1.2.1
      rw [hpte] at hval
      exact hU.unmapped v (by omega) ht hval
    · exact hab v (by omega) hv' hv.1
  constructor
  · intro v hv hmem
    obtain ⟨hlt, hpte⟩ := hlow v hv
    rw [hpte] at hmem
    -- the pages of the table are owned by the table
    obtain ⟨t, hok, hdom, -⟩ := hU.table
    rw [hok.tablePages fun x pg hx => ho.part hF hx] at hmem
    exact hok.isAt.owned hmem (hU.split.right (hU.owned hlt)).2
  · intro v w hv hw heq
    obtain ⟨hlt, hpte⟩ := hlow v hv
    obtain ⟨hlt', hpte'⟩ := hlow w hw
    rw [hpte, hpte'] at heq
    have hinj := List.inj_on_of_nodup_map hU.pages.nodup
    exact hinj (by simp [hlt]) (by simp [hlt']) heq

lemma flags_clear (f : Fin 1024) : (f.val - (f.val &&& PTE_U)) &&& PTE_U = 0 ∧
    (f.val - (f.val &&& PTE_U)) % 2 = f.val % 2 ∧
    (f.val &&& PTE_W ≠ 0 → f.val - (f.val &&& PTE_U) ≠ PTE_V) := by
  revert f
  decide +kernel

/-- An entry without `PTE_U` is one for the same page. -/
lemma pte_clear (pte : ℕ) : pte2pa (pte - (pte &&& PTE_U)) = pte2pa pte ∧
    pteFlags (pte - (pte &&& PTE_U)) = pteFlags pte - (pteFlags pte &&& PTE_U) := by
  have hand : pte &&& PTE_U = pteFlags pte &&& PTE_U := and_eq_pteFlags_and (by decide) pte
  have hle : pteFlags pte &&& PTE_U ≤ pteFlags pte := Nat.and_le_left
  rw [pte2pa_eq, pte2pa_eq, pteFlags_eq, hand]
  rw [pteFlags_eq] at hle ⊢
  generalize pte % 1024 &&& PTE_U = b at hle
  constructor
  · congr 2
    omega
  · omega

lemma wp_uvmclear {tol : String → Prop} {pt v : ℕ} {m : ℕ → ℕ} {h h1 h2 : PHeap}
    (hs : h.Split h1 h2) (hT : IsTable K pt m h1) (hv : v < MAXPN) (hm : IsValid (m v)) :
    (uvmclear pt (v * PGSIZE)).wp K.Valid tol (fun _ h' => ∃ h1', h'.Split h1' h2 ∧
      IsTable K pt (update m v (m v - (m v &&& PTE_U))) h1') h := by
  refine wp_seq (wp_walk hs hT hv) ?_
  rintro r h' ⟨h1', hs', hT', hr⟩
  cases r with
  | none =>
    rw [(hr rfl).1] at hm
    exact absurd hm not_isValid_zero
  | some r =>
    obtain ⟨⟨pg, hpg, hj, hset⟩, -⟩ := hr
    obtain ⟨hr1, hr2⟩ := hs'.left (a := r.1) (by simp [hpg])
    refine wp_bind.mpr (wp_load (hr1.trans hpg) ?_)
    rw [hj]
    exact wp_store (hr1.trans hpg) ⟨_, hs'.update hr2 _, hset _⟩

lemma uvmclear_always {pt v : ℕ} (hsp : HasSpace K s pt sz rest) (hv : v < pageCount sz)
    (hw : WritablePage s.mem pt v) :
    (uvmclear pt (v * PGSIZE)).Always K s fun r s' => r = .ok () ∧ HasSpace K s' pt sz rest ∧
      ¬UserPage s'.mem pt v ∧ (∀ w, w ≠ v → w < MAXPN → pteOf s'.mem pt w = pteOf s.mem pt w) ∧
      ∀ w, w < pageCount sz →
        s'.mem (pte2pa (pteOf s.mem pt w)) = s.mem (pte2pa (pteOf s.mem pt w)) := by
  obtain ⟨m, h, hu, h1, h2, L, ho, hs, hU⟩ := hsp
  obtain ⟨F, hF, hFr⟩ := hs.rotate hU.split
  have hpte : ∀ w, w < MAXPN → pteOf s.mem pt w = m w := fun w hw => hU.table.pteOf_eq ho hF hw
  have hvm := hw.1.1
  rw [WritablePage, UserPage, hpte v hvm] at hw
  obtain ⟨⟨-, hval, -⟩, hwr⟩ := hw
  obtain ⟨hpa, hfl⟩ := pte_clear (m v)
  have hlt : pteFlags (m v) < 1024 := by
    rw [pteFlags_eq]
    exact Nat.mod_lt _ (by decide)
  obtain ⟨hnou, hmod, hleaf⟩ := flags_clear ⟨_, hlt⟩
  rw [and_eq_pteFlags_and (by decide)] at hwr
  refine .of_wp (wp_uvmclear hF hU.table hvm hval) ho ?_
  rintro r h' L' s' - ⟨h1', hs', hT'⟩ ho' -
  have hpte' : ∀ w, w < MAXPN → pteOf s'.mem pt w = _ := fun w hw => hT'.pteOf_eq ho' hs' hw
  obtain ⟨hu', hur, hus⟩ := hs'.rotate hFr
  refine ⟨rfl, ⟨_, h', hu', h1', h2, L', ho', hur, hus, hT', ?_, fun w hwlt => ?_,
    fun w hge hw => ?_⟩, ?_, fun w hne hwm => ?_, fun w hwlt => ?_⟩
  · have hlist : physPages (update m v (m v - (m v &&& PTE_U))) 0 (pageCount sz) =
        physPages m 0 (pageCount sz) := by
      refine List.map_congr_left fun w _ => ?_
      by_cases hwv : w = v
      · rw [hwv, update_self, hpa]
      · rw [update_of_ne hwv]
    rw [hlist]
    exact hU.pages
  · by_cases hwv : w = v
    · rw [hwv, update_self]
      refine ⟨(isValid_iff _).mpr ?_, ?_⟩
      · rw [hfl, hmod]
        exact (isValid_iff _).mp hval
      · rw [hfl]
        exact hleaf hwr
    · rw [update_of_ne hwv]
      exact hU.leaf w hwlt
  · rw [update_of_ne (by omega)]
    exact hU.unmapped w hge hw
  · intro huser
    have hu' := huser.2.2
    rw [hpte' v hvm, update_self, and_eq_pteFlags_and (by decide), hfl] at hu'
    exact hu' hnou
  · rw [hpte' w hwm, hpte w hwm, update_of_ne hne]
  · exact hU.contents ho ho' hF hF hs' hFr hwlt (hU.owned hwlt)

/-- The stack gets its page, above one out of reach of the user, or memory runs out. -/
lemma stackPages_always {pt : ℕ} (hsp : HasSpace K s pt sz rest)
    (hab : NoUserAbove s.mem pt) : (stackPages pt sz).Always K s fun r s' => r = .ok none ∨
      (r = .ok (some ((pageCount sz + 1 + USERSTACK) * PGSIZE)) ∧
        HasSpace K s' pt ((pageCount sz + 1 + USERSTACK) * PGSIZE) rest ∧ NoUserAbove s'.mem pt ∧
        ¬UserPage s'.mem pt (pageCount sz) ∧
        (∀ v, pageCount sz < v → v < pageCount sz + 1 + USERSTACK → WritablePage s'.mem pt v) ∧
        ∀ v, v < pageCount sz → pteOf s'.mem pt v = pteOf s.mem pt v ∧
          s'.mem (pte2pa (pteOf s.mem pt v)) = s.mem (pte2pa (pteOf s.mem pt v))) := by
  have hsz := hsp.size_le
  have hus : USERSTACK = 1 := rfl
  have htrap : TRAPPN = 2 ^ 26 - 2 := by decide
  have hcount : pageCount sz ≤ 2 ^ 15 := by
    unfold pageCount PGSIZE
    omega
  have hround : pgroundup sz = pageCount sz * PGSIZE := pgroundup_eq_pageCount (by
    have hmax : MAXVA = 2 ^ 38 := by decide
    omega)
  have hnew : u64 (pageCount sz * PGSIZE + (USERSTACK + 1) * PGSIZE) =
      (pageCount sz + 1 + USERSTACK) * PGSIZE := by
    unfold u64 PGSIZE
    omega
  have hguard : (pageCount sz + 1 + USERSTACK) * PGSIZE - (USERSTACK + 1) * PGSIZE =
      pageCount sz * PGSIZE := by
    unfold PGSIZE
    omega
  have hsp' : HasSpace K s pt (pageCount sz * PGSIZE) rest := by
    unfold HasSpace
    rw [pageCount_mul]
    exact hsp
  have hpages := pageCount_mul (pageCount sz + 1 + USERSTACK)
  unfold stackPages
  dsimp only
  rw [hround, hnew]
  refine (uvmalloc_always hsp' (Nat.mul_le_mul_right _ (by omega))
    (by unfold PGSIZE; omega)).seq ?_
  rintro r s1 (⟨rfl, hres, hspace⟩ | ⟨rfl, -, -⟩)
  · refine ⟨_, rfl, ?_⟩
    obtain ⟨hkept, hzero, -, habove⟩ := hres
    simp only [pageCount_mul] at hkept hzero habove
    rw [if_neg (by unfold PGSIZE; omega), hguard]
    refine (uvmclear_always hspace (v := pageCount sz) (by omega)
      (hzero _ le_rfl (by omega)).1).seq ?_
    rintro r s2 ⟨rfl, hspace2, hno, hothers, hcont⟩
    refine ⟨(), rfl, ⟨_, _, rfl, rfl⟩, ?_⟩
    rintro r s' ⟨rfl, rfl⟩
    refine .inr ⟨rfl, hspace2, fun v hv hv' => ?_, hno, fun v hv hv' => ?_, fun v hv => ?_⟩
    · have hsame : pteOf s'.mem pt v = pteOf s.mem pt v :=
        (hothers v (by omega) hv').trans (habove v (by omega) (by omega) hv')
      have hold := hab v hv hv'
      unfold UserPage at hold ⊢
      rwa [hsame]
    · have hwr := (hzero v (by omega) hv').1
      unfold WritablePage UserPage at hwr ⊢
      rwa [hothers v (by omega) (by unfold MAXPN; omega)]
    · obtain ⟨hpte, hpg⟩ := hkept v hv (by omega)
      have hpg2 := hcont v (by omega)
      rw [hpte] at hpg2
      exact ⟨(hothers v (by omega) (by unfold MAXPN; omega)).trans hpte, hpg2.trans hpg⟩
  · refine ⟨0, rfl, ?_⟩
    rw [if_pos rfl]
    refine ⟨⟨_, _, rfl, rfl⟩, ?_⟩
    rintro r s' ⟨rfl, rfl⟩
    exact .inl rfl

/-! ## Writing on the stack -/

section

variable {pt : ℕ}

lemma pteOf_congr (h : ∀ x ∈ tablePages mem 2 pt, mem' x = mem x) :
    pteOf mem' pt = pteOf mem pt := by
  funext v
  exact entryOf_congr _ h

lemma Separate.congr (h : ∀ x ∈ tablePages mem 2 pt, mem' x = mem x)
    (hsep : Separate mem pt) : Separate mem' pt := by
  have hpte := pteOf_congr h
  have htab : tablePages mem' 2 pt = tablePages mem 2 pt := tablePages_congr h
  constructor
  · intro v hv
    unfold WritablePage UserPage at hv
    rw [hpte] at hv ⊢
    rw [htab]
    exact hsep.apart v hv
  · intro v w hv hw
    unfold WritablePage UserPage at hv hw
    rw [hpte] at hv hw ⊢
    exact hsep.inj v w hv hw

lemma Separate.translate_inj (hsep : Separate mem pt) {a b : ℕ}
    (ha : WritablePage mem pt (a / PGSIZE)) (hb : WritablePage mem pt (b / PGSIZE))
    (h : translate mem pt a = translate mem pt b) : a = b := by
  obtain ⟨hpa, hoa⟩ := translate_page mem pt a
  obtain ⟨hpb, hob⟩ := translate_page mem pt b
  rw [h] at hpa hoa
  have hpage := hsep.inj _ _ ha hb (hpa.symm.trans hpb)
  have hoff := hoa.symm.trans hob
  unfold PGSIZE at hpage hoff
  omega

structure StackKept (mem mem' : ℕ → Page) (pt sp top : ℕ) : Prop where
  table : ∀ x ∈ tablePages mem 2 pt, mem' x = mem x
  bytes : ∀ a, sp ≤ a → a < top → userByte mem' pt a = userByte mem pt a

lemma StackKept.refl (mem : ℕ → Page) (pt sp top : ℕ) : StackKept mem mem pt sp top :=
  ⟨fun _ _ => rfl, fun _ _ _ => rfl⟩

lemma StackKept.trans {mem1 : ℕ → Page} {sp' top : ℕ} (h : StackKept mem mem1 pt sp top)
    (h' : StackKept mem1 mem' pt sp' top) (hsp : sp' ≤ sp) : StackKept mem mem' pt sp top := by
  constructor
  · intro x hx
    have hx' : x ∈ tablePages mem1 2 pt := by rwa [tablePages_congr h.table]
    rw [h'.table x hx', h.table x hx]
  · intro a ha hlt
    rw [h'.bytes a (hsp.trans ha) hlt, h.bytes a ha hlt]

lemma copyout_stack {base top va n : ℕ} (hsep : Separate s.mem pt)
    (hstack : ∀ a, base ≤ a → a < top → WritablePage s.mem pt (a / PGSIZE)) (hva : base ≤ va)
    (hn : va + n ≤ sp) (hsp : sp ≤ top) (l : List UInt8) (hl : l.length = n) :
    (copyout pt va (srcBytes l) n).Always K s fun r s' => r = .ok 0 ∧
      StackKept s.mem s'.mem pt sp top ∧ userBytes s'.mem pt va n = l := by
  refine ⟨HProg.Runs.total K _ s, fun r s' hrun => ?_⟩
  obtain ⟨r, k, rfl, hreach, hcopy, -⟩ := copyoutFrom_spec hsep le_rfl hrun
  have hr : r = 0 := hreach.eq_zero_iff.mpr fun j hj => hstack _ (by omega) (by omega)
  obtain rfl : k = n := by
    obtain ⟨-, hk⟩ | ⟨hneg, -⟩ := hreach.ret
    · exact hk
    · omega
  have hpte := pteOf_congr hcopy.table
  have htrans : translate s'.mem pt = translate s.mem pt := by
    funext a
    unfold translate
    rw [hpte]
  refine ⟨by rw [hr], ⟨hcopy.table, fun a ha hlt => ?_⟩, ?_⟩
  · unfold userByte
    rw [htrans]
    refine hcopy.old _ fun j hj heq => ?_
    have := hsep.translate_inj (hstack a (by omega) hlt) (hstack _ (by omega) (by omega)) heq
    omega
  · unfold userBytes
    rw [htrans]
    refine List.ext_getElem (by simp [hl]) fun j hj hj' => ?_
    rw [List.getElem_map, List.getElem_range, hcopy.new j (by omega), srcBytes,
      List.getD_eq_getElem _ _ hj']

end

/-! ## The layout of the arguments -/

def round16 (n : ℕ) : ℕ := (n + 15) / 16 * 16

def strRoom (argv : List (List UInt8)) : ℕ := (argv.map fun a => round16 (a.length + 1)).sum

/-- The bytes that the arguments take on the stack: the strings with their zeros, and the array of
the pointers with its null, each rounded up to 16. -/
def stackRoom (argv : List (List UInt8)) : ℕ := strRoom argv + round16 ((argv.length + 1) * 8)

def argPtrs (sp : ℕ) : List (List UInt8) → List ℕ
  | [] => []
  | a :: argv => (sp - round16 (a.length + 1)) :: argPtrs (sp - round16 (a.length + 1)) argv

lemma pushSp_eq {n : ℕ} (hal : sp % 16 = 0) (hn : n ≤ sp) (hsp : sp < 2 ^ 64) :
    pushSp sp n = sp - round16 n ∧ round16 n ≤ sp ∧ n ≤ round16 n := by
  unfold pushSp u64 round16
  omega

lemma strRoom_cons (a : List UInt8) (argv : List (List UInt8)) :
    strRoom (a :: argv) = round16 (a.length + 1) + strRoom argv := by
  simp [strRoom]

lemma strRoom_aligned (argv : List (List UInt8)) : strRoom argv % 16 = 0 := by
  induction argv with
  | nil => rfl
  | cons a argv ih =>
    rw [strRoom_cons]
    unfold round16
    omega

lemma length_argPtrs (sp : ℕ) (argv : List (List UInt8)) :
    (argPtrs sp argv).length = argv.length := by
  induction argv generalizing sp with
  | nil => rfl
  | cons a argv ih => simp [argPtrs, ih]

lemma argPtrs_layout {sp : ℕ} {argv : List (List UInt8)} (hroom : strRoom argv ≤ sp) :
    (∀ x ∈ argv.zip (argPtrs sp argv), sp - strRoom argv ≤ x.2 ∧ x.2 + (x.1.length + 1) ≤ sp) ∧
      (argv.zip (argPtrs sp argv)).Pairwise fun x y => y.2 + (y.1.length + 1) ≤ x.2 := by
  induction argv generalizing sp with
  | nil => exact ⟨fun x hx => absurd hx List.not_mem_nil, List.Pairwise.nil⟩
  | cons a argv ih =>
    rw [strRoom_cons] at hroom ⊢
    have hle : a.length + 1 ≤ round16 (a.length + 1) := by
      unfold round16
      omega
    obtain ⟨hin, hpair⟩ := @ih (sp - round16 (a.length + 1)) (by omega)
    constructor
    · intro x hx
      obtain rfl | hx := List.mem_cons.mp hx
      · dsimp only
        omega
      · have := hin x hx
        omega
    · exact List.Pairwise.cons (fun y hy => (hin y hy).2) hpair

/-! ## What is pushed -/

section

variable {pt base top : ℕ}

lemma pushStrings_always (hbase : PGSIZE ≤ base) (htop : top < 2 ^ 64)
    (argv : List (List UInt8)) (argc sp : ℕ) (ustack : List ℕ) (s : KMem) (hsep : Separate s.mem pt)
    (hstack : ∀ a, base ≤ a → a < top → WritablePage s.mem pt (a / PGSIZE)) (hle : base ≤ sp)
    (hsp : sp ≤ top) (hal : sp % 16 = 0) (hargc : argc + argv.length ≤ MAXARG)
    (hlen : ∀ a ∈ argv, a.length < PGSIZE) :
    (pushStrings pt base argv argc sp ustack).Always K s fun r s' =>
      StackKept s.mem s'.mem pt sp top ∧ ((sp < base + strRoom argv ∧ r = .ok none) ∨
        (base + strRoom argv ≤ sp ∧
          r = .ok (some (argc + argv.length, sp - strRoom argv, ustack ++ argPtrs sp argv)) ∧
          List.Forall₂ (fun a p => userBytes s'.mem pt p (a.length + 1) = a ++ [0]) argv
            (argPtrs sp argv))) := by
  induction argv generalizing argc sp ustack s with
  | nil =>
    refine ⟨⟨_, _, rfl, rfl⟩, ?_⟩
    rintro r s' ⟨rfl, rfl⟩
    exact ⟨.refl _ _ _ _, .inr ⟨hle, by simp [strRoom, argPtrs], List.Forall₂.nil⟩⟩
  | cons a argv ih =>
    have hn : a.length + 1 ≤ PGSIZE := hlen a List.mem_cons_self
    obtain ⟨hpush, hround, hfit⟩ := pushSp_eq (n := a.length + 1) hal (by omega) (by omega)
    rw [List.length_cons] at hargc
    unfold pushStrings
    rw [if_neg (by omega), hpush, strRoom_cons]
    by_cases hlow : sp - round16 (a.length + 1) < base
    · rw [if_pos hlow]
      refine ⟨⟨_, _, rfl, rfl⟩, ?_⟩
      rintro r s' ⟨rfl, rfl⟩
      exact ⟨.refl _ _ _ _, .inl ⟨by omega, rfl⟩⟩
    rw [if_neg hlow]
    refine (copyout_stack hsep hstack (by omega) (by omega) hsp (a ++ [0]) (by simp)).seq ?_
    rintro r s1 ⟨rfl, hkept, hbytes⟩
    refine ⟨0, rfl, ?_⟩
    rw [if_neg (lt_irrefl 0)]
    have hpte := pteOf_congr hkept.table
    have hnext := ih (argc + 1) (sp - round16 (a.length + 1))
      (ustack ++ [sp - round16 (a.length + 1)]) s1 (hsep.congr hkept.table)
      (fun b hb hb' => by
        have := hstack b hb hb'
        unfold WritablePage UserPage at this ⊢
        rwa [hpte])
      (by omega) (by omega) (by unfold round16; omega) (by omega)
      fun b hb => hlen b (List.mem_cons_of_mem _ hb)
    refine hnext.mono fun r s' hres => ?_
    obtain ⟨hkept', hres⟩ := hres
    refine ⟨hkept.trans hkept' (by omega), hres.imp (fun h => ⟨by omega, h.2⟩) fun h => ?_⟩
    obtain ⟨hroom, rfl, hall⟩ := h
    refine ⟨by omega, ?_, List.Forall₂.cons ?_ hall⟩
    · simp only [argPtrs, List.append_assoc, List.singleton_append, List.length_cons]
      rw [Nat.sub_sub, Nat.add_right_comm argc 1, Nat.add_assoc argc]
    · -- the strings pushed later lie below
      rw [← hbytes]
      refine List.map_congr_left fun j hj => ?_
      rw [List.mem_range] at hj
      exact hkept'.bytes _ (by omega) (by omega)

/-- The arguments are on the stack: pointers to the strings and the array of the pointers. -/
structure Pushed (mem : ℕ → Page) (pt base top : ℕ) (argv : List (List UInt8)) (sp : ℕ)
    (ptrs : List ℕ) : Prop where
  length : ptrs.length = argv.length
  strings : List.Forall₂ (fun a p => userBytes mem pt p (a.length + 1) = a ++ [0]) argv ptrs
  array : userBytes mem pt sp ((argv.length + 1) * 8) = (ptrs ++ [0]).flatMap le64
  aligned : sp % 16 = 0
  above : base ≤ sp ∧ sp + (argv.length + 1) * 8 ≤ top
  inside : ∀ x ∈ argv.zip ptrs, sp + (argv.length + 1) * 8 ≤ x.2 ∧ x.2 + (x.1.length + 1) ≤ top
  apart : (argv.zip ptrs).Pairwise fun x y => y.2 + (y.1.length + 1) ≤ x.2

/-- The arguments are pushed if they fit. -/
lemma pushArguments_always (hbase : PGSIZE ≤ sz - USERSTACK * PGSIZE) (htop : sz < 2 ^ 64)
    (hsz : sz % 16 = 0) (hsep : Separate s.mem pt)
    (hstack : ∀ a, sz - USERSTACK * PGSIZE ≤ a → a < sz → WritablePage s.mem pt (a / PGSIZE))
    (argv : List (List UInt8)) (hargc : argv.length < MAXARG)
    (hlen : ∀ a ∈ argv, a.length < PGSIZE) : (pushArguments pt sz argv).Always K s fun r s' =>
      (∀ x ∈ tablePages s.mem 2 pt, s'.mem x = s.mem x) ∧
      ((USERSTACK * PGSIZE < stackRoom argv ∧ r = .ok none) ∨
        (stackRoom argv ≤ USERSTACK * PGSIZE ∧ ∃ sp ptrs, r = .ok (some (argv.length, sp)) ∧
          Pushed s'.mem pt (sz - USERSTACK * PGSIZE) sz argv sp ptrs)) := by
  obtain ⟨base, hb⟩ : ∃ b, b = sz - USERSTACK * PGSIZE := ⟨_, rfl⟩
  have hroom : sz = base + USERSTACK * PGSIZE := by
    unfold PGSIZE at *
    omega
  unfold pushArguments stackRoom
  rw [← hb] at hbase hstack ⊢
  refine (pushStrings_always hbase htop argv 0 sz [] s hsep hstack (by omega) le_rfl hsz
    (by omega) hlen).seq ?_
  rintro r s1 ⟨hkept, ⟨hbig, rfl⟩ | ⟨hfit, rfl, hall⟩⟩
  · refine ⟨none, rfl, ⟨_, _, rfl, rfl⟩, ?_⟩
    rintro r s' ⟨rfl, rfl⟩
    exact ⟨hkept.table, .inl ⟨by omega, rfl⟩⟩
  · refine ⟨_, rfl, ?_⟩
    have hal : (sz - strRoom argv) % 16 = 0 := by
      have : strRoom argv % 16 = 0 := strRoom_aligned argv
      omega
    have h8 : (argv.length + 1) * 8 ≤ PGSIZE := by
      have hmax : MAXARG = 32 := rfl
      unfold PGSIZE
      omega
    obtain ⟨hpush, hround, hle⟩ := pushSp_eq (n := (argv.length + 1) * 8) hal (by omega) (by omega)
    simp only [Nat.zero_add, List.nil_append]
    rw [hpush]
    by_cases hlow : sz - strRoom argv - round16 ((argv.length + 1) * 8) < base
    · rw [if_pos hlow]
      refine ⟨⟨_, _, rfl, rfl⟩, ?_⟩
      rintro r s' ⟨rfl, rfl⟩
      exact ⟨hkept.table, .inl ⟨by omega, rfl⟩⟩
    rw [if_neg hlow]
    have hpte := pteOf_congr hkept.table
    have hbytes : ((argPtrs sz argv ++ [0]).flatMap le64).length = (argv.length + 1) * 8 := by
      simp only [List.length_flatMap, le64, List.length_map, List.length_range, List.map_const',
        List.sum_replicate_nat, List.length_append, length_argPtrs, List.length_singleton]
    have hstack1 : ∀ a, base ≤ a → a < sz → WritablePage s1.mem pt (a / PGSIZE) := by
      intro a ha ha'
      have := hstack a ha ha'
      unfold WritablePage UserPage at this ⊢
      rwa [hpte]
    refine (copyout_stack (hsep.congr hkept.table) hstack1 (Nat.not_lt.mp hlow)
      (show _ ≤ sz - strRoom argv by omega) (Nat.sub_le _ _) _ hbytes).seq ?_
    rintro r s2 ⟨rfl, hkept2, harray⟩
    refine ⟨0, rfl, ?_⟩
    rw [if_neg (lt_irrefl 0)]
    refine ⟨⟨_, _, rfl, rfl⟩, ?_⟩
    rintro r s' ⟨rfl, rfl⟩
    have hkept' := hkept.trans (hkept2) (Nat.sub_le _ _)
    obtain ⟨hin, hpair⟩ := @argPtrs_layout sz argv (by omega)
    refine ⟨hkept'.table, .inr ⟨by omega, _, _, rfl, length_argPtrs sz argv, ?_, harray,
      ?_, ⟨by omega, by omega⟩, fun x hx => ?_, hpair⟩⟩
    · rw [List.forall₂_iff_zip] at hall ⊢
      refine ⟨hall.1, fun {a p} hmem => ?_⟩
      rw [← hall.2 hmem]
      have hap := hin _ hmem
      refine List.map_congr_left fun j hj => ?_
      rw [List.mem_range] at hj
      exact hkept2.bytes _ (by dsimp only at hap; omega) (by dsimp only at hap; omega)
    · unfold round16
      omega
    · have := hin x hx
      omega

end

/-! ## Runs in which `kalloc` never fails -/

section

variable {α β : Type} {m : MProg α} {Q : α → Prop} {s' : KMem}

/-- The runs of `HProg.Runs` in which every `kalloc` returns a page. -/
inductive HProg.Served (K : KernelImage) : MProg α → KMem → Except String α → KMem → Prop
  | ret {s : KMem} {a : α} : Served K (.ret a) s (.ok a) s
  | read {s s' : KMem} {r : Except String α} {p : ℕ} {k : Page → MProg α}
      (h : Served K (k (s.mem p)) s r s') : Served K (.read p k) s r s'
  | modify {s s' : KMem} {r : Except String α} {p : ℕ} {f : Page → Page} {k : MProg α}
      (h : Served K k (s.setPage p (f (s.mem p))) r s') : Served K (.modify p f k) s r s'
  | alloc {s s₁ s' : KMem} {r : Except String α} {p : ℕ} {k : Option ℕ → MProg α}
      (hp : kalloc s = (some p, s₁)) (h : Served K (k (some p)) s₁ r s') : Served K (.alloc k) s r s'
  | free {s s₁ s' : KMem} {r : Except String α} {p : ℕ} {k : MProg α}
      (hp : kfree K p s = .done () s₁) (h : Served K k s₁ r s') : Served K (.free p k) s r s'
  | freePanic {s : KMem} {p : ℕ} {k : MProg α} {msg : String} (hp : kfree K p s = .panic msg) :
      Served K (.free p k) s (.error msg) s
  | pick {s s' : KMem} {r : Except String α} {n : ℕ} {k : ℕ → MProg α}
      (h : Served K (k n) s r s') : Served K (.pick k) s r s'
  | panic {s : KMem} {msg : String} : Served K (.panic msg) s (.error msg) s

/-- Whatever the memory, the program returns values of `Q` as long as no `kalloc` fails. -/
inductive HProg.Yields (Q : α → Prop) : MProg α → Prop
  | ret {a : α} (h : Q a) : Yields Q (.ret a)
  | read {p : ℕ} {k : Page → MProg α} (h : ∀ pg, Yields Q (k pg)) : Yields Q (.read p k)
  | modify {p : ℕ} {f : Page → Page} {k : MProg α} (h : Yields Q k) : Yields Q (.modify p f k)
  | alloc {k : Option ℕ → MProg α} (h : ∀ p, Yields Q (k (some p))) : Yields Q (.alloc k)
  | free {p : ℕ} {k : MProg α} (h : Yields Q k) : Yields Q (.free p k)
  | pick {k : ℕ → MProg α} (h : ∀ n, Yields Q (k n)) : Yields Q (.pick k)
  | panic {msg : String} : Yields Q (.panic msg)

lemma HProg.Yields.served {r : Except String α} (hrun : m.Served K s r s') (hm : m.Yields Q)
    (a : α) (hr : r = .ok a) : Q a := by
  induction hrun with
  | ret =>
    obtain rfl := Except.ok.inj hr
    cases hm
    assumption
  | read _ ih =>
    cases hm with
    | read h => exact ih (h _) hr
  | modify _ ih =>
    cases hm with
    | modify h => exact ih h hr
  | alloc _ _ ih =>
    cases hm with
    | alloc h => exact ih (h _) hr
  | free _ _ ih =>
    cases hm with
    | free h => exact ih h hr
  | freePanic => cases hr
  | pick _ ih =>
    cases hm with
    | pick h => exact ih (h _) hr
  | panic => cases hr

lemma HProg.Yields.bind {R : β → Prop} {c : α → MProg β} (hm : m.Yields Q)
    (hc : ∀ a, Q a → (c a).Yields R) : (m >>= c).Yields R := by
  induction hm with
  | ret h => exact hc _ h
  | read _ ih => exact .read ih
  | modify _ ih => exact .modify ih
  | alloc _ ih => exact .alloc ih
  | free _ ih => exact .free ih
  | pick _ ih => exact .pick ih
  | panic => exact .panic

lemma HProg.yields_true (m : MProg α) : m.Yields fun _ => True := by
  induction m with
  | ret a => exact .ret trivial
  | read p k ih => exact .read ih
  | modify p f k ih => exact .modify ih
  | alloc k ih => exact .alloc fun p => ih (some p)
  | free p k ih => exact .free ih
  | pick k ih => exact .pick ih
  | panic msg => exact .panic

lemma walkFrom_yields (va : ℕ) (level pt : ℕ) : (walkFrom va true level pt).Yields (· ≠ none) := by
  induction level generalizing pt with
  | zero => exact .ret (Option.some_ne_none _)
  | succ level ih =>
    unfold walkFrom
    refine (yields_true _).bind fun pte _ => ?_
    by_cases hv : IsValid pte
    · rw [if_pos hv]
      exact ih _
    · rw [if_neg hv, if_pos rfl]
      exact .alloc fun child => .modify (.modify (ih child))

lemma mappagesFrom_yields (pt last perm : ℕ) (n a pa : ℕ) :
    (mappagesFrom pt last perm n a pa).Yields (· = 0) := by
  induction n generalizing a pa with
  | zero => exact .panic
  | succ n ih =>
    have hwalk : (walk pt a true).Yields (· ≠ none) := by
      unfold walk
      split
      · exact .panic
      · exact walkFrom_yields a 2 pt
    unfold mappagesFrom
    refine hwalk.bind fun e he => ?_
    obtain _ | ⟨p, i⟩ := e
    · exact absurd rfl he
    refine (yields_true _).bind fun pte _ => ?_
    split
    · exact .panic
    · refine (yields_true _).bind fun _ _ => ?_
      split
      · exact .ret rfl
      · exact ih _ _

lemma uvmallocFrom_yields {pt oldsz newsz xperm : ℕ} (hne : newsz ≠ 0) (n a : ℕ) :
    (uvmallocFrom pt oldsz newsz xperm n a).Yields (· ≠ 0) := by
  induction n generalizing a with
  | zero =>
    unfold uvmallocFrom
    split
    · exact .panic
    · exact .ret hne
  | succ n ih =>
    have hmap (mem perm : ℕ) : (mappages pt a PGSIZE mem perm).Yields (· = 0) := by
      unfold mappages
      split_ifs
      · exact .panic
      · exact .panic
      · exact .panic
      · exact mappagesFrom_yields _ _ _ _ _ _
    unfold uvmallocFrom
    split
    · refine .alloc fun mem => .modify ((hmap mem _).bind fun r hr => ?_)
      rw [if_neg (not_not.mpr hr)]
      exact ih _
    · exact .ret hne

/-- If there is no room for the stack, a `kalloc` has failed. -/
lemma stackPages_served {pt : ℕ} (hsz : sz ≤ 2 ^ 27) :
    ¬(stackPages pt sz).Served K s (.ok none) s' := by
  have hlt : pgroundup sz < u64 (pgroundup sz + (USERSTACK + 1) * PGSIZE) := by
    unfold pgroundup u64 USERSTACK PGSIZE
    omega
  have hyields : (stackPages pt sz).Yields (· ≠ none) := by
    unfold stackPages uvmalloc
    dsimp only
    rw [if_neg (Nat.not_lt.mpr hlt.le)]
    refine (uvmallocFrom_yields (Nat.ne_zero_of_lt hlt) _ _).bind fun sz1 hsz1 => ?_
    rw [if_neg hsz1]
    exact (yields_true _).bind fun _ _ => .ret (Option.some_ne_none _)
  exact fun hrun => HProg.Yields.served hrun hyields _ rfl rfl

end

/-- Argument passing round-trips.  For every address space and every list of fewer than `MAXARG`
strings, each shorter than a page: there are pages for the stack unless a `kalloc` fails, and then
the arguments are pushed if and only if the strings with their zeros and the array of pointers, each
rounded up to 16 bytes, fit on the stack; then the number of arguments is returned, and the array of
pointers to copies of the strings lies at the aligned stack pointer, apart from the strings and
these apart from each other, on the stack, with an inaccessible page below.  No subtraction from the
stack pointer wraps around: it is subtracted only from values that have passed the test. -/
theorem exec_arguments {s : KMem} {pt sz : ℕ} {rest : PHeap} (hsp : HasSpace K s pt sz rest)
    (hab : NoUserAbove s.mem pt) (argv : List (List UInt8)) (hargc : argv.length ≤ MAXARG - 1)
    (hlen : ∀ a ∈ argv, a.length < PGSIZE) :
    (∀ s₁, ¬(stackPages pt sz).Served K s (.ok none) s₁) ∧
    (stackPages pt sz).Always K s fun r s₁ => r = .ok none ∨ ∃ top, r = .ok (some top) ∧
      (∀ sp, top - USERSTACK * PGSIZE ≤ sp →
        (∀ a ∈ argv, a.length + 1 ≤ sp) ∧ (argv.length + 1) * 8 ≤ sp) ∧
      (pushArguments pt top argv).Always K s₁ fun r' s₂ =>
        (r' = .ok none ↔ USERSTACK * PGSIZE < stackRoom argv) ∧
        (stackRoom argv ≤ USERSTACK * PGSIZE → ∃ sp ptrs, r' = .ok (some (argv.length, sp)) ∧
          Pushed s₂.mem pt (top - USERSTACK * PGSIZE) top argv sp ptrs ∧
          ¬UserPage s₂.mem pt ((top - USERSTACK * PGSIZE) / PGSIZE - 1)) := by
  have hsz := hsp.size_le
  have hmax : MAXARG = 32 := rfl
  have hus : USERSTACK = 1 := rfl
  refine ⟨fun s₁ => stackPages_served (by omega),
    (stackPages_always hsp hab).mono fun r s₁ hres => hres.imp_right fun h => ?_⟩
  obtain ⟨rfl, hspace, habove, hguard, hwritable, -⟩ := h
  have hcount : pageCount sz ≤ 2 ^ 15 := by
    unfold pageCount PGSIZE
    omega
  obtain ⟨top, htop⟩ : ∃ t, t = (pageCount sz + 1 + USERSTACK) * PGSIZE := ⟨_, rfl⟩
  have hbase : top - USERSTACK * PGSIZE = (pageCount sz + 1) * PGSIZE := by
    rw [htop]
    unfold PGSIZE
    omega
  rw [← htop] at hspace ⊢
  refine ⟨top, rfl, fun sp hle => ?_, ?_⟩
  · rw [hbase] at hle
    have hpg : PGSIZE ≤ sp := by
      unfold PGSIZE at *
      omega
    refine ⟨fun a ha => (hlen a ha).trans_le hpg, ?_⟩
    unfold PGSIZE at hpg
    omega
  · have hstack : ∀ a, top - USERSTACK * PGSIZE ≤ a → a < top →
        WritablePage s₁.mem pt (a / PGSIZE) := by
      intro a ha ha'
      rw [hbase] at ha
      rw [htop] at ha'
      unfold PGSIZE at ha ha' ⊢
      exact hwritable _ (by omega) (by omega)
    refine (pushArguments_always (by rw [hbase]; unfold PGSIZE; omega)
      (by rw [htop]; unfold PGSIZE; omega) (by rw [htop]; unfold PGSIZE; omega)
      (hspace.separate habove) hstack argv (by omega) hlen).mono ?_
    rintro r s₂ ⟨htab, ⟨hbig, rfl⟩ | ⟨hfit, sp, ptrs, rfl, hpushed⟩⟩
    · exact ⟨iff_of_true rfl hbig, fun h => absurd hbig (Nat.not_lt.mpr h)⟩
    · refine ⟨iff_of_false (by simp) (Nat.not_lt.mpr hfit), fun _ => ⟨sp, ptrs, rfl, hpushed, ?_⟩⟩
      have hpage : (top - USERSTACK * PGSIZE) / PGSIZE - 1 = pageCount sz := by
        rw [hbase, Nat.mul_div_cancel _ (by decide), Nat.add_sub_cancel]
      rw [hpage]
      unfold UserPage at hguard ⊢
      rwa [pteOf_congr htab]

/-- The stack and one argument for a program of size 0: the four free pages are taken. -/
theorem exec_arguments_five_pages :
    HasSpace FivePages.image FivePages.created (FivePages.page 0) 0 Heap.empty ∧
    ∃ s₁, (stackPages (FivePages.page 0) 0).Runs FivePages.image FivePages.created
        (.ok (some (2 * PGSIZE))) s₁ ∧
      (pushArguments (FivePages.page 0) (2 * PGSIZE) [[101]]).Always FivePages.image s₁ fun r s₂ =>
        ∃ sp ptrs, r = .ok (some (1, sp)) ∧
          Pushed s₂.mem (FivePages.page 0) PGSIZE (2 * PGSIZE) [[101]] sp ptrs := by
  have hspace := FivePages.hasSpace_created
  have hab : NoUserAbove FivePages.created.mem (FivePages.page 0) := by
    intro v _ _ huser
    have hvalid := huser.2.1
    rw [pteOf, entryOf_missing rfl] at hvalid
    exact not_isValid_zero hvalid
  obtain ⟨s₁, hrun⟩ : ∃ s₁, (stackPages (FivePages.page 0) 0).Runs FivePages.image
      FivePages.created (.ok (some (2 * PGSIZE))) s₁ :=
    HProg.exists_runs_of_run (by decide +kernel)
  obtain h | ⟨top, htop, -, hpush⟩ :=
    (exec_arguments hspace hab [[101]] (by decide) (by decide)).2.2 _ _ hrun
  · cases h
  obtain rfl : 2 * PGSIZE = top := by simpa using htop
  refine ⟨hspace, s₁, hrun, hpush.mono fun r s₂ h => ?_⟩
  obtain ⟨sp, ptrs, hr, hpushed, -⟩ := h.2 (by decide)
  exact ⟨sp, ptrs, hr, hpushed⟩

end Xv6
