import Serval.Certikos.User
import Serval.Certikos.Quota
import Serval.Lib.Runs

/-!
# UserQuota — the account of the library against the region of the kernel

`lib_setup` opens an account of the pages between the end of the image and the end of the region.  `boot_alloc` takes
pages from it at the bottom, while `sys_spawn` takes pages from the region at the top, and `spawn` does not tell the
account.  So the two agree along a run as long as no spawn takes a page that the account still has: the invariant is
`Balanced`.
-/

namespace Serval
namespace Certikos

open Riscv

variable {quota fileid child : Word} {t : State} {m : Machine} {Q : Word → Process → Prop}

/-! ## The property -/

/-- The address of a page by its number. -/
def pageAddr (L : Layout) (i : Nat) : Word :=
  L.pages + BitVec.ofNat 64 i * SZ_4K

/-- The pages of the process's region that `boot_alloc` has not returned. -/
def freePages (L : Layout) (pid : Word) (s : Process) : Finset Nat :=
  (Finset.Ico (s.machine.procs pid).lower.toNat (s.machine.procs pid).upper.toNat).filter
    (fun i => pageAddr L i ∉ s.handedOut.map Handout.page)

/-- A page lies in the region the process had when the page was returned. -/
def Handout.Inside (L : Layout) (h : Handout) : Prop :=
  pageOffset L h.page = 0 ∧ h.lower ≤ pageIndex L h.page ∧ pageIndex L h.page < h.upper

instance (L : Layout) (h : Handout) : Decidable (h.Inside L) :=
  inferInstanceAs (Decidable (_ ∧ _))

/-- Allocation stays inside the quota of the process. -/
structure WithinQuota (L : Layout) (pid : Word) (s : Process) : Prop where
  inside : ∀ h ∈ s.handedOut, h.Inside L
  fresh : (s.handedOut.map Handout.page).Nodup
  getQuota_le : ∀ q s', getQuota s = .ret q s' → q.toNat ≤ (freePages L pid s).card

/-- The pid that `spawn` asks for. -/
def Process.childPid (s : Process) : Word :=
  if s.nextPid.slt 0 then s.machine.currentPid * NR_CHILDREN else s.nextPid

/-- The checks of `sys_spawn`. -/
def Machine.acceptsSpawn (m : Machine) (quota pid : Word) : Prop :=
  quota ≤ m.current.upper - m.current.lower ∧ isPidValid pid ∧ (m.procs pid).owner = m.currentPid ∧
    (m.procs pid).state = ProcState.free.val

instance (m : Machine) (quota pid : Word) : Decidable (m.acceptsSpawn quota pid) :=
  inferInstanceAs (Decidable (_ ∧ _))

/-- No spawn takes a page that the account still has. -/
def KeepsAccount (s : Process) : UserEvent → Prop
  | .spawn _ quota => quota = 0 ∨ s.availQuota = 0 ∨ ¬ s.machine.acceptsSpawn quota s.childPid
  | .trap _ _ => True
  | .yield => True
  | .machine _ => True

instance (s : Process) : (e : UserEvent) → Decidable (KeepsAccount s e)
  | .spawn _ _ => inferInstanceAs (Decidable (_ ∨ _ ∨ _))
  | .trap _ _ => inferInstanceAs (Decidable True)
  | .yield => inferInstanceAs (Decidable True)
  | .machine _ => inferInstanceAs (Decidable True)

/-! ## Addresses of pages -/

section Addresses

variable {L : Layout} {i j : Nat}

theorem pageAddr_sub (hi : i ≤ 256) : (pageAddr L i - L.pages).toNat = i * 4096 := by
  have hcancel : pageAddr L i - L.pages = BitVec.ofNat 64 i * SZ_4K := by
    rw [pageAddr, BitVec.add_comm, BitVec.add_sub_cancel]
  rw [hcancel, BitVec.toNat_mul, BitVec.toNat_ofNat, SZ_4K]
  show i % 2 ^ 64 * 4096 % 2 ^ 64 = i * 4096
  omega

theorem pageIndex_pageAddr (hi : i ≤ 256) : pageIndex L (pageAddr L i) = BitVec.ofNat 64 i := by
  apply BitVec.eq_of_toNat_eq
  rw [pageIndex, BitVec.toNat_udiv, pageAddr_sub hi, BitVec.toNat_ofNat, SZ_4K]
  show i * 4096 / 4096 = i % 2 ^ 64
  omega

theorem pageOffset_pageAddr (hi : i ≤ 256) : pageOffset L (pageAddr L i) = 0 := by
  apply BitVec.eq_of_toNat_eq
  rw [pageOffset, BitVec.toNat_umod, pageAddr_sub hi, SZ_4K]
  show i * 4096 % 4096 = 0
  omega

theorem pageAddr_injective (hi : i ≤ 256) (hj : j ≤ 256) (h : pageAddr L i = pageAddr L j) : i = j := by
  have hsub : i * 4096 = j * 4096 := by
    rw [← pageAddr_sub (L := L) hi, h, pageAddr_sub hj]
  omega

theorem pageAddr_succ : pageAddr L i + SZ_4K = pageAddr L (i + 1) := by
  have hsucc : BitVec.ofNat 64 (i + 1) = BitVec.ofNat 64 i + 1#64 := BitVec.ofNat_add i 1
  rw [pageAddr, pageAddr, hsucc, BitVec.add_mul, BitVec.one_mul, BitVec.add_assoc]

end Addresses

/-! ## The region in the kernel -/

/-- The process runs, and its region is `[lower, upper)`. -/
structure Granted (pid lower upper : Word) (m : Machine) : Prop where
  mregions : MregionsInvariants m
  valid : pidValid pid
  running : pidRun m pid
  lower_eq : (m.procs pid).lower = lower
  upper_eq : (m.procs pid).upper = upper

section Kernel

variable {L : Layout} {pid lower upper : Word} {m m' : Machine} {po po' : Word → Word}

theorem Granted.of_procs (h : Granted pid lower upper m) (hprocs : m'.procs = m.procs)
    (hcur : m'.currentPid = m.currentPid) : Granted pid lower upper m' := by
  rcases h with ⟨⟨hvalid, hrun, howner, hbound, hnext, hfree, hmask⟩, hpid, hprun, hlower, hupper⟩
  have htable : MregionsInvariants m' := by
    constructor <;> simp only [pidRun, hprocs, hcur] <;> assumption
  refine ⟨htable, hpid, ?_, ?_, ?_⟩
  · simpa only [pidRun, hprocs] using hprun
  · rw [hprocs, hlower]
  · rw [hprocs, hupper]

/-- What the entry of the process is after a step is read off the specification. -/
theorem Granted.of_abs (h : Granted pid lower upper m) (hinv : MregionsInvariants m') (habs : absFunction po' m' = t)
    (hstate : t.procState pid = (m.procs pid).state) (hlower : t.procLower pid = (m.procs pid).lower)
    (hupper : t.procUpper pid = (m.procs pid).upper) :
    Granted pid lower upper m' := by
  subst habs
  exact ⟨hinv, h.valid, hstate.trans h.running, hlower.trans h.lower_eq, hupper.trans h.upper_eq⟩

theorem Granted.of_sameTable (h : Granted pid lower upper m) (hinv : MregionsInvariants m')
    (hsame : SameTable (absFunction po m) (absFunction po' m')) : Granted pid lower upper m' :=
  h.of_abs hinv rfl (congrFun hsame.procState pid) (congrFun hsame.procLower pid) (congrFun hsame.procUpper pid)

theorem acceptsSpawn_of_sameTable (hsame : SameTable (absFunction po m) (absFunction po' m')) (quota child : Word) :
    m'.acceptsSpawn quota child ↔ m.acceptsSpawn quota child := by
  show SpawnOk (absFunction po' m') quota child ↔ SpawnOk (absFunction po m) quota child
  simp only [SpawnOk, hsame.currentPid, hsame.procState, hsame.procOwner, hsame.procLower, hsame.procUpper]

/-- A child that is accepted is not a process that runs. -/
theorem Granted.ne_child (h : Granted pid lower upper m) (hok : m.acceptsSpawn quota child) : pid ≠ child := by
  rintro rfl
  exact absurd (hok.2.2.2.symm.trans h.running) (by decide)

/-- Whatever other processes do, and whatever the process itself computes, its region stays. -/
theorem Granted.step {e : Event} (h : Granted pid lower upper m) (hstep : m.step L e = some m')
    (hother : ¬ (m.currentPid = pid ∧ e.isEcall)) : Granted pid lower upper m' := by
  rcases step_simulates L h.mregions (fun _ => PID_IDLE) e with ⟨m₁, po', hm₁, hinv', habs⟩
  obtain rfl : m₁ = m' := Option.some.inj (hm₁.symm.trans hstep)
  cases e with
  | run gpr csr => exact h.of_abs hinv' habs rfl rfl rfl
  | store page off value =>
      have hsame : SameTable (absFunction (fun _ => PID_IDLE) m) (absFunction po' m₁) := by
        rw [habs]
        exact specWrite_sameTable _ _ _ _
      exact h.of_sameTable hinv' hsame
  | ecall =>
      have hcur : m.currentPid ≠ pid := fun heq => hother ⟨heq, rfl⟩
      have htrap : absFunction po' m₁ = specStepTrap L (absFunction (fun _ => PID_IDLE) m) := habs
      rcases specStepTrap_cases L (absFunction (fun _ => PID_IDLE) m) with
        ⟨regs, heq⟩ | ⟨_, heq⟩ | ⟨fileid, quota, child, hok, heq⟩
      · exact h.of_abs hinv' (htrap.trans heq) rfl rfl rfl
      · -- a yield changes who runs, and no entry
        exact h.of_abs hinv' (htrap.trans heq) rfl rfl rfl
      · -- the parent is another process, and the child was free
        have haccepts : m.acceptsSpawn quota child := hok
        have hchild : pid ≠ child := h.ne_child haccepts
        refine h.of_abs hinv' (htrap.trans heq) ?_ ?_ ?_
        · exact Function.update_of_ne hchild _ _
        · exact Function.update_of_ne hchild _ _
        · exact (Function.update_of_ne hcur.symm _ _).trans (Function.update_of_ne hchild _ _)

end Kernel

/-! ## System calls of the library -/

section Calls

variable {L : Layout} {s : Process} {E : Empty → Process → Prop}

/-- A call never fails, and one step of the specification describes it. -/
theorem wp_ecall {set : PtRegs → PtRegs} (hinv : MregionsInvariants s.machine)
    (hpost : ∀ m' po', MregionsInvariants m' → absFunction po' m' =
      specStepTrap L (absFunction (fun _ => PID_IDLE) { s.machine with regs := set s.machine.regs }) →
      Q (m'.regs .a0) { s with machine := m' }) : Ctl.wp (ecall L set) Q E s := by
  have hinv₁ : MregionsInvariants { s.machine with regs := set s.machine.regs } := by
    rcases hinv with ⟨hvalid, hrun, howner, hbound, hnext, hfree, hmask⟩
    exact ⟨hvalid, hrun, howner, hbound, hnext, hfree, hmask⟩
  rcases trapEcallS_implements L (fun _ => PID_IDLE) hinv₁ with ⟨m', hm', hinv', _, po', habs⟩
  simp only [Ctl.wp, ecall, hm']
  exact hpost m' po' hinv' habs

theorem wp_userSysGetpid (hinv : MregionsInvariants s.machine)
    (hpost : ∀ m' po', MregionsInvariants m' →
      SameTable (absFunction (fun _ => PID_IDLE) s.machine) (absFunction po' m') →
      Q s.machine.currentPid { s with machine := m' }) : Ctl.wp (userSysGetpid L) Q E s := by
  refine wp_ecall hinv (fun m' po' hinv' habs => ?_)
  have hgetpid : absFunction po' m' = specSysGetpid (advanceMepc (absFunction (fun _ => PID_IDLE)
      { s.machine with regs := Function.update s.machine.regs .a7 NR_getpid })) := by
    rw [habs]
    rfl
  have hret : m'.regs .a0 = s.machine.currentPid :=
    congrArg (fun t => t.regs.gpr .a0) hgetpid
  rw [hret]
  refine hpost m' po' hinv' ?_
  rw [hgetpid]
  exact ⟨rfl, rfl, rfl, rfl, rfl, rfl, rfl⟩

theorem SameTable.specSpawnChild {t' : State} (h : SameTable t t') (fileid quota child : Word) :
    SameTable (specSpawnChild L t fileid quota child) (specSpawnChild L t' fileid quota child) := by
  rcases h with ⟨hcur, hstate, hnext, howner, hlower, hupper, hpage⟩
  constructor <;> simp only [Certikos.specSpawnChild, hcur, hstate, hnext, howner, hlower, hupper, hpage]

theorem SameTable.trans {t' t'' : State} (h : SameTable t t') (h' : SameTable t' t'') : SameTable t t'' :=
  ⟨h'.currentPid.trans h.currentPid, h'.procState.trans h.procState, h'.procNext.trans h.procNext,
    h'.procOwner.trans h.procOwner, h'.procLower.trans h.procLower, h'.procUpper.trans h.procUpper,
    h'.pageOwner.trans h.pageOwner⟩

/-- What `sys_spawn` returns, and the process table after it. -/
def SpawnEffect (L : Layout) (m : Machine) (fileid quota child r : Word) (t : State) : Prop :=
  if m.acceptsSpawn quota child then
    r = 0 ∧ SameTable (specSpawnChild L (absFunction (fun _ => PID_IDLE) m) fileid quota child) t
  else
    r = -EINVAL ∧ SameTable (absFunction (fun _ => PID_IDLE) m) t

theorem wp_userSysSpawn (hinv : MregionsInvariants s.machine)
    (hpost : ∀ r m' po', MregionsInvariants m' → SpawnEffect L s.machine fileid quota child r (absFunction po' m') →
      Q r { s with machine := m' }) :
    Ctl.wp (userSysSpawn L fileid quota child) Q E s := by
  refine wp_ecall hinv (fun m' po' hinv' habs => ?_)
  refine hpost _ m' po' hinv' ?_
  let t : State := advanceMepc (absFunction (fun _ => PID_IDLE) { s.machine with
    regs := Function.update (Function.update (Function.update (Function.update s.machine.regs .a0 fileid) .a1
      quota) .a2 child) .a7 NR_spawn })
  have hsame : SameTable (absFunction (fun _ => PID_IDLE) s.machine) t := ⟨rfl, rfl, rfl, rfl, rfl, rfl, rfl⟩
  have hspawn : absFunction po' m' = specSysSpawn L t fileid quota child := by
    rw [habs]
    rfl
  by_cases hok : s.machine.acceptsSpawn quota child
  · have hdone := hspawn.trans (specSysSpawn_of_ok (s := t) hok)
    rw [SpawnEffect, if_pos hok]
    refine ⟨congrArg (fun t => t.regs.gpr .a0) hdone, ?_⟩
    rw [hdone]
    exact (hsame.specSpawnChild fileid quota child).trans (specReturn_sameTable _ _)
  · have hdone := hspawn.trans (specSysSpawn_of_not_ok (s := t) hok)
    rw [SpawnEffect, if_neg hok]
    refine ⟨congrArg (fun t => t.regs.gpr .a0) hdone, ?_⟩
    rw [hdone]
    exact hsame.trans (specReturn_sameTable _ _)

theorem SpawnEffect.of_sameTable {m₁ : Machine} {po₁ : Word → Word} {r : Word}
    (hsame : SameTable (absFunction (fun _ => PID_IDLE) m) (absFunction po₁ m₁))
    (h : SpawnEffect L m₁ fileid quota child r t) : SpawnEffect L m fileid quota child r t := by
  have hsame₁ : SameTable (absFunction (fun _ => PID_IDLE) m) (absFunction (fun _ => PID_IDLE) m₁) :=
    ⟨hsame.currentPid, hsame.procState, hsame.procNext, hsame.procOwner, hsame.procLower, hsame.procUpper, rfl⟩
  by_cases hok : m.acceptsSpawn quota child
  · rw [SpawnEffect, if_pos ((acceptsSpawn_of_sameTable hsame quota child).mpr hok)] at h
    rw [SpawnEffect, if_pos hok]
    exact ⟨h.1, (hsame₁.specSpawnChild fileid quota child).trans h.2⟩
  · rw [SpawnEffect, if_neg (fun h₁ => hok ((acceptsSpawn_of_sameTable hsame quota child).mp h₁))] at h
    rw [SpawnEffect, if_neg hok]
    exact ⟨h.1, hsame₁.trans h.2⟩

/-- `spawn` counts its calls and leaves the account alone, whatever the kernel answers. -/
theorem wp_spawn (hinv : MregionsInvariants s.machine)
    (hpost : ∀ r m' po', MregionsInvariants m' →
      SpawnEffect L s.machine fileid quota s.childPid r (absFunction po' m') →
      Q (if r.slt 0 then r else s.childPid) { s with machine := m', nextPid := s.childPid + 1 }) :
    Ctl.wp (spawn L fileid quota) Q E s := by
  simp only [spawn, Ctl.wp_bind, Ctl.wp_gets, Ctl.wp_ite]
  by_cases hfirst : s.nextPid.slt 0 = true
  · have hchild : s.childPid = s.machine.currentPid * NR_CHILDREN := if_pos hfirst
    rw [if_pos hfirst]
    refine wp_userSysGetpid hinv (fun m₁ po₁ hinv₁ hsame => ?_)
    simp only [Ctl.wp_modify]
    refine wp_userSysSpawn hinv₁ (fun r m' po' hinv' heffect => ?_)
    rw [← hchild] at heffect ⊢
    exact hpost r m' po' hinv' (heffect.of_sameTable hsame)
  · have hchild : s.childPid = s.nextPid := if_neg hfirst
    rw [if_neg hfirst]
    simp only [Ctl.wp_modify]
    refine wp_userSysSpawn hinv (fun r m' po' hinv' heffect => ?_)
    rw [← hchild] at heffect ⊢
    exact hpost r m' po' hinv' heffect

/-- A yield changes who runs, and nobody's region. -/
theorem wp_yield {Q : Unit → Process → Prop} (hinv : MregionsInvariants s.machine)
    (hpost : ∀ m', (∀ {pid lower upper}, Granted pid lower upper s.machine → Granted pid lower upper m') →
      Q () { s with machine := m' }) : Ctl.wp (yield L) Q E s := by
  simp only [yield, Ctl.wp_bind, Ctl.wp_pure]
  refine wp_ecall hinv (fun m' po' hinv' habs => hpost m' (fun hgrant => ?_))
  have hyield : absFunction po' m' = specSysYield (advanceMepc (absFunction (fun _ => PID_IDLE)
      { s.machine with regs := Function.update s.machine.regs .a7 NR_yield })) := by
    rw [habs]
    rfl
  exact hgrant.of_abs hinv' hyield rfl rfl rfl

end Calls

/-! ## The account -/

/-- The account after `n` allocations: the pages from `base` to `top` were free at the start, the first `n` of them
are handed out, and the region still goes up to `top` unless nothing is left. -/
structure Balanced (L : Layout) (pid : Word) (lo base top n : Nat) (s : Process) : Prop where
  lo_le : lo ≤ base
  used_le : base + n ≤ top
  top_le : top ≤ 256
  availQuota : s.availQuota = BitVec.ofNat 64 (top - (base + n))
  allocNext : s.allocNext = pageAddr L (base + n)
  handedOut : s.handedOut = ((List.range n).map
    (fun i => (⟨pageAddr L (base + i), BitVec.ofNat 64 lo, BitVec.ofNat 64 top⟩ : Handout))).reverse
  granted : ∃ upper, Granted pid (BitVec.ofNat 64 lo) upper s.machine ∧
    (base + n = top ∨ upper = BitVec.ofNat 64 top)

section Account

variable {L : Layout} {pid : Word} {lo base top n : Nat} {s s' : Process}

section Balance

variable (h : Balanced L pid lo base top n s)

include h

/-- An account depends on nothing else. -/
theorem Balanced.congr (havail : s'.availQuota = s.availQuota) (hnext : s'.allocNext = s.allocNext)
    (hlog : s'.handedOut = s.handedOut) (hgrant : ∀ upper, Granted pid (BitVec.ofNat 64 lo) upper s.machine →
      Granted pid (BitVec.ofNat 64 lo) upper s'.machine) : Balanced L pid lo base top n s' := by
  rcases h with ⟨hlo, hused, htop, havail₀, hnext₀, hlog₀, upper, hupper, hleft⟩
  exact ⟨hlo, hused, htop, havail.trans havail₀, hnext.trans hnext₀, hlog.trans hlog₀, upper,
    hgrant upper hupper, hleft⟩

theorem Balanced.availQuota_eq_zero_iff : s.availQuota = 0 ↔ base + n = top := by
  have hused := h.used_le
  have htop := h.top_le
  rw [h.availQuota, ← BitVec.toNat_inj, BitVec.toNat_ofNat]
  show (top - (base + n)) % 2 ^ 64 = 0 ↔ base + n = top
  omega

/-- As long as something is left, the region goes up to `top`. -/
theorem Balanced.granted_top (havail : s.availQuota ≠ 0) :
    base + n < top ∧ Granted pid (BitVec.ofNat 64 lo) (BitVec.ofNat 64 top) s.machine := by
  rcases h.granted with ⟨upper, hgrant, hfull | rfl⟩
  · exact absurd (h.availQuota_eq_zero_iff.mpr hfull) havail
  · have hleft : base + n ≠ top := fun heq => havail (h.availQuota_eq_zero_iff.mpr heq)
    exact ⟨Nat.lt_of_le_of_ne h.used_le hleft, hgrant⟩

theorem Balanced.availQuota_sub_one (havail : s.availQuota ≠ 0) :
    s.availQuota - 1 = BitVec.ofNat 64 (top - (base + (n + 1))) := by
  have hlt := (h.granted_top havail).1
  have hsplit : top - (base + n) = top - (base + (n + 1)) + 1 := by omega
  rw [h.availQuota, hsplit, BitVec.ofNat_add]
  exact BitVec.add_sub_cancel _ _

/-- Every page that is handed out has its number between `base` and `base + n`. -/
theorem Balanced.mem_handedOut {x : Handout} :
    x ∈ s.handedOut ↔
      ∃ i, i < n ∧ (⟨pageAddr L (base + i), BitVec.ofNat 64 lo, BitVec.ofNat 64 top⟩ : Handout) = x := by
  simp [h.handedOut]

theorem Balanced.inside : ∀ x ∈ s.handedOut, x.Inside L := by
  intro x hx
  rcases h.mem_handedOut.mp hx with ⟨i, hi, rfl⟩
  have hlo := h.lo_le
  have hused := h.used_le
  have htop := h.top_le
  have hbound : base + i ≤ 256 := by omega
  refine ⟨pageOffset_pageAddr hbound, ?_, ?_⟩
  · show BitVec.ofNat 64 lo ≤ pageIndex L (pageAddr L (base + i))
    rw [pageIndex_pageAddr hbound, BitVec.le_def, BitVec.toNat_ofNat, BitVec.toNat_ofNat]
    omega
  · show pageIndex L (pageAddr L (base + i)) < BitVec.ofNat 64 top
    rw [pageIndex_pageAddr hbound, BitVec.lt_def, BitVec.toNat_ofNat, BitVec.toNat_ofNat]
    omega

theorem Balanced.fresh : (s.handedOut.map Handout.page).Nodup := by
  have hused := h.used_le
  have htop := h.top_le
  rw [h.handedOut, List.map_reverse, List.nodup_reverse, List.map_map]
  refine List.Nodup.map_on (fun i hi j hj heq => ?_) List.nodup_range
  rw [List.mem_range] at hi hj
  have haddr : base + i = base + j := pageAddr_injective (L := L) (by omega) (by omega) heq
  omega

/-- The pages that the account has left are free in the kernel's region. -/
theorem Balanced.Ico_subset_freePages (hupper : (s.machine.procs pid).upper = BitVec.ofNat 64 top) :
    Finset.Ico (base + n) top ⊆ freePages L pid s := by
  rcases h.granted with ⟨upper, hgrant, _⟩
  have hlo := h.lo_le
  have htop := h.top_le
  intro i hi
  rw [Finset.mem_Ico] at hi
  refine Finset.mem_filter.mpr ⟨?_, ?_⟩
  · rw [Finset.mem_Ico, hgrant.lower_eq, hupper, BitVec.toNat_ofNat, BitVec.toNat_ofNat]
    omega
  · intro hmem
    rcases List.mem_map.mp hmem with ⟨x, hx, hpage⟩
    rcases h.mem_handedOut.mp hx with ⟨j, hj, rfl⟩
    have haddr : base + j = i := pageAddr_injective (L := L) (by omega) (by omega) hpage
    omega

theorem Balanced.getQuota_le : s.availQuota.toNat ≤ (freePages L pid s).card := by
  have htop := h.top_le
  have havail : s.availQuota.toNat = top - (base + n) := by
    rw [h.availQuota, BitVec.toNat_ofNat]
    omega
  rcases h.granted with ⟨upper, hgrant, hfull | hupper⟩
  · omega
  · calc
      s.availQuota.toNat
        = (Finset.Ico (base + n) top).card := by
          rw [havail, Nat.card_Ico]
      _ ≤ (freePages L pid s).card :=
          Finset.card_le_card (h.Ico_subset_freePages (hgrant.upper_eq.trans hupper))

theorem Balanced.withinQuota : WithinQuota L pid s where
  inside := h.inside
  fresh := h.fresh
  getQuota_le := by
    intro q s' hret
    have hq : Ctl.wlp getQuota (fun q _ => q = s.availQuota) s := by
      simp [getQuota, assert]
    rw [hq q s' hret]
    exact h.getQuota_le

end Balance

/-! ## Code of the library that makes no system call -/

/-- The process runs, with a balanced account. -/
def InBalance (L : Layout) (pid : Word) (lo base top : Nat) (s : Process) : Prop :=
  s.machine.currentPid = pid ∧ ∃ n, Balanced L pid lo base top n s

/-- The last page goes to `result`, and the account has one less. -/
theorem Balanced.alloc (h : Balanced L pid lo base top n s) (hcur : s.machine.currentPid = pid)
    (havail : s.availQuota ≠ 0) :
    Balanced L pid lo base top (n + 1)
      { s with
        allocNext := s.allocNext + SZ_4K
        availQuota := s.availQuota - 1
        handedOut := ⟨s.allocNext, s.machine.current.lower, s.machine.current.upper⟩ :: s.handedOut } := by
  rcases h.granted_top havail with ⟨hlt, hgrant⟩
  have hlower : s.machine.current.lower = BitVec.ofNat 64 lo := by
    rw [Machine.current, hcur, hgrant.lower_eq]
  have hupper : s.machine.current.upper = BitVec.ofNat 64 top := by
    rw [Machine.current, hcur, hgrant.upper_eq]
  refine ⟨h.lo_le, hlt, h.top_le, h.availQuota_sub_one havail, ?_, ?_, _, hgrant, Or.inr rfl⟩
  · show s.allocNext + SZ_4K = _
    rw [h.allocNext, pageAddr_succ, Nat.add_assoc]
  · -- the log grows at its head, which is the end of the range
    show _ :: s.handedOut = _
    rw [List.range_succ, List.map_append, List.reverse_append, h.handedOut, h.allocNext, hlower, hupper]
    rfl

theorem bootAlloc_preserves : Ctl.Preserves (InBalance L pid lo base top) bootAlloc := by
  rintro s ⟨hcur, n, h⟩
  simp only [bootAlloc, assert, Ctl.wlp_bind, Ctl.wlp_get, Ctl.wlp_bugOn, Ctl.wlp_modify, Ctl.wlp_pure, not_not]
  intro hpos
  have havail : s.availQuota ≠ 0 := by
    intro hzero
    rw [hzero] at hpos
    exact absurd hpos (by decide)
  exact ⟨hcur, n + 1, h.alloc hcur havail⟩

/-- Code that changes memory or CSRs, and neither the process table nor the account. -/
theorem InBalance.setMachine (h : InBalance L pid lo base top s) (hprocs : m.procs = s.machine.procs)
    (hcur : m.currentPid = s.machine.currentPid) : InBalance L pid lo base top { s with machine := m } := by
  rcases h with ⟨hpid, n, h⟩
  exact ⟨hcur.trans hpid, n, h.congr rfl rfl rfl (fun _ hgrant => hgrant.of_procs hprocs hcur)⟩

theorem modifyMachine_preserves {f : Machine → Machine} (hprocs : ∀ m, (f m).procs = m.procs)
    (hcur : ∀ m, (f m).currentPid = m.currentPid) :
    Ctl.Preserves (InBalance L pid lo base top) (modifyMachine f) :=
  .modify (fun s h => h.setMachine (hprocs s.machine) (hcur s.machine))

theorem loadWord_preserves (a : Word) : Ctl.Preserves (InBalance L pid lo base top) (loadWord L a) :=
  .bind (.gets _) fun _ => .bind (.bugOn _) fun _ => .pure _

theorem storeWord_preserves (a value : Word) : Ctl.Preserves (InBalance L pid lo base top) (storeWord L a value) :=
  .bind (.gets _) fun _ => .bind (.bugOn _) fun _ => modifyMachine_preserves (fun _ => rfl) (fun _ => rfl)

theorem nextTable_preserves (slot : Word) : Ctl.Preserves (InBalance L pid lo base top) (nextTable L slot) := by
  refine .bind (loadWord_preserves slot) fun entry => ?_
  refine .ite _ ?_ (.pure _)
  exact .bind bootAlloc_preserves fun table => .bind (storeWord_preserves _ _) fun _ => .pure _

theorem vmMap_preserves (pgd va pa : Word) : Ctl.Preserves (InBalance L pid lo base top) (vmMap L pgd va pa) := by
  refine .bind (.bugOn _) fun _ => .bind (.bugOn _) fun _ => ?_
  refine .bind (nextTable_preserves _) fun pmd => .bind (nextTable_preserves _) fun pte => ?_
  exact .bind (loadWord_preserves _) fun entry => .bind (.bugOn _) fun _ => storeWord_preserves _ _

theorem vmMapRange_preserves (pgd : Word) :
    ∀ (count : Nat) (va pa : Word), Ctl.Preserves (InBalance L pid lo base top) (vmMapRange L pgd va pa count) := by
  intro count
  induction count with
  | zero =>
      intro va pa
      exact .pure ()
  | succ count ih =>
      intro va pa
      exact .bind (vmMap_preserves pgd va pa) fun _ => ih _ _

theorem doPageFault_preserves : Ctl.Preserves (InBalance L pid lo base top) (doPageFault L) :=
  .bind (.gets _) fun _ => .bind bootAlloc_preserves fun _ => vmMap_preserves _ _ _

theorem doSupervisorTrap_preserves : Ctl.Preserves (InBalance L pid lo base top) (doSupervisorTrap L) := by
  have hflag : ∀ flag : Word, Ctl.Preserves (InBalance L pid lo base top)
      (Ctl.modify (fun s => { s with inprogress := flag }) : User Unit) := by
    refine fun flag => .modify ?_
    rintro s ⟨hcur, n, h⟩
    exact ⟨hcur, n, h.congr rfl rfl rfl (fun _ hgrant => hgrant)⟩
  refine .bind (.gets _) fun _ => .bind (.bugOn _) fun _ => .bind (hflag 0) fun _ => .bind (.gets _) fun _ => ?_
  exact .ite _ (.bind doPageFault_preserves fun _ => hflag 1) (.bind (.bugOn _) fun _ => hflag 1)

/-! ## The start -/

/-- A multiple of the page size between two page addresses is a page address, also where addresses wrap around. -/
theorem exists_page_between {start l u x : Nat} (hle : l ≤ u) (hu : u ≤ 256) (hx : x % 4096 = 0)
    (haligned : (start + l * 4096) % 2 ^ 64 % 4096 = 0) (hlow : (start + l * 4096) % 2 ^ 64 ≤ x)
    (hhigh : x ≤ (start + u * 4096) % 2 ^ 64) :
    ∃ base, l ≤ base ∧ base ≤ u ∧ (start + base * 4096) % 2 ^ 64 = x ∧
      ((start + u * 4096) % 2 ^ 64 - x) / 4096 = u - base := by
  refine ⟨l + (x - (start + l * 4096) % 2 ^ 64) / 4096, ?_, ?_, ?_, ?_⟩ <;> omega

theorem toNat_pages_add {x : Word} : (L.pages + x * SZ_4K).toNat = (L.pages.toNat + x.toNat * 4096) % 2 ^ 64 := by
  rw [BitVec.toNat_add, BitVec.toNat_mul]
  exact Nat.add_mod_mod _ _ _

/-- The asserts of `lib_setup` put the end of the image on a page boundary of the region, wherever `pages` lies. -/
theorem exists_pageAddr {lower upper mid : Word} (hle : lower ≤ upper) (hupper : upper ≤ NR_PAGES)
    (hstart : (L.pages + lower * SZ_4K) % SZ_4K = 0) (hmid : mid % SZ_4K = 0)
    (hlow : L.pages + lower * SZ_4K ≤ mid) (hhigh : mid ≤ L.pages + upper * SZ_4K) :
    ∃ base, lower.toNat ≤ base ∧ base ≤ upper.toNat ∧ mid = pageAddr L base ∧
      (L.pages + upper * SZ_4K - mid) / SZ_4K = BitVec.ofNat 64 (upper.toNat - base) := by
  have hsub := BitVec.toNat_sub_of_le hhigh
  have hbound : upper.toNat ≤ 256 := hupper
  have haligned := congrArg BitVec.toNat hstart
  have hmultiple : mid.toNat % 4096 = 0 := congrArg BitVec.toNat hmid
  rw [BitVec.toNat_umod, toNat_pages_add] at haligned
  rw [BitVec.le_def, toNat_pages_add] at hlow hhigh
  rw [toNat_pages_add] at hsub
  rcases exists_page_between hle hbound hmultiple haligned hlow hhigh with ⟨base, hlo, htop, haddr, hleft⟩
  have hbase : base % 2 ^ 64 = base := Nat.mod_eq_of_lt (by omega)
  refine ⟨base, hlo, htop, ?_, ?_⟩
  · apply BitVec.eq_of_toNat_eq
    rw [pageAddr, toNat_pages_add, BitVec.toNat_ofNat, hbase, haddr]
  · apply BitVec.eq_of_toNat_eq
    rw [BitVec.toNat_udiv, hsub, BitVec.toNat_ofNat]
    exact hleft.trans (Nat.mod_eq_of_lt (by omega)).symm

theorem roundup_mod (x : Word) : roundup x SZ_4K % SZ_4K = 0 := by
  apply BitVec.eq_of_toNat_eq
  rw [roundup, BitVec.toNat_umod, BitVec.toNat_mul]
  show _ * 4096 % 2 ^ 64 % 4096 = 0
  omega

/-- Code of the process that returns ends in a state that meets its postcondition. -/
theorem of_run_eq_some {α : Type} {c : User α} {P : Process → Prop} (h : Ctl.wlp c (fun _ s' => P s') s)
    (hrun : c.run s = some s') : P s' := by
  rw [User.run] at hrun
  cases hc : c s with
  | ret a s₁ =>
      rw [hc] at hrun
      cases hrun
      exact h a _ hc
  | leave r s₁ => exact r.elim
  | bug =>
      rw [hc] at hrun
      cases hrun

/-- `lib_setup` opens a balanced account. -/
theorem setUp_balanced {physMid : Word} (hinv : MregionsInvariants m) (h : Process.setUp L m physMid = some s) :
    ∃ lo base top n, Balanced L m.currentPid lo base top n s := by
  have hbounds := hinv.bounded _ hinv.currentValid
  have hwlp : Ctl.wlp
      (libSetup L (L.pages + m.current.lower * SZ_4K) physMid (L.pages + m.current.upper * SZ_4K))
      (fun _ s' => ∃ lo base top, InBalance L m.currentPid lo base top s') (.loaded m) := by
    simp only [libSetup, assert, Ctl.wlp_bind, Ctl.wlp_bugOn, Ctl.wlp_modify, not_not]
    intro hstart _ hlow hhigh
    rcases exists_pageAddr hbounds.2 hbounds.1 hstart (roundup_mod physMid) hlow hhigh with
      ⟨base, hlo, htop, hmid, havail⟩
    let opened : Process :=
      { Process.loaded m with
        availQuota := (L.pages + m.current.upper * SZ_4K - roundup physMid SZ_4K) / SZ_4K
        allocNext := roundup physMid SZ_4K }
    have hgrant : Granted m.currentPid (BitVec.ofNat 64 m.current.lower.toNat) m.current.upper m :=
      ⟨hinv, hinv.currentValid, hinv.currentRun, by simp [Machine.current], rfl⟩
    have hopen : InBalance L m.currentPid m.current.lower.toNat base m.current.upper.toNat opened :=
      ⟨rfl, 0, hlo, htop, hbounds.1, havail, hmid, rfl, _, hgrant, Or.inr (by simp)⟩
    refine Ctl.wlp_mono (fun pgd s₁ h₁ => ?_) (bootAlloc_preserves opened hopen)
    refine Ctl.wlp_mono (fun _ s₂ h₂ => ?_) (vmMapRange_preserves pgd _ _ _ s₁ h₁)
    refine Ctl.wlp_mono (fun _ s₃ h₃ => ?_) (vmMapRange_preserves pgd _ _ _ s₂ h₂)
    simp only [modifyMachine, Ctl.wlp_modify]
    exact ⟨_, _, _, h₃.setMachine rfl rfl⟩
  rcases of_run_eq_some hwlp h with ⟨lo, base, top, _, n, hbal⟩
  exact ⟨lo, base, top, n, hbal⟩

/-! ## Runs -/

/-- A spawn that is accepted takes its quota off the top of the caller's region. -/
theorem Granted.spawned {lower upper : Word} {m' : Machine} {po' : Word → Word} (h : Granted pid lower upper m)
    (hcur : m.currentPid = pid) (hok : m.acceptsSpawn quota child) (hinv : MregionsInvariants m')
    (hsame : SameTable (specSpawnChild L (absFunction (fun _ => PID_IDLE) m) fileid quota child) (absFunction po' m')) :
    Granted pid lower (upper - quota) m' := by
  have hchild : pid ≠ child := h.ne_child hok
  subst hcur
  refine ⟨hinv, h.valid, ?_, ?_, ?_⟩
  · exact (congrFun hsame.procState _).trans ((Function.update_of_ne hchild _ _).trans h.running)
  · exact (congrFun hsame.procLower _).trans ((Function.update_of_ne hchild _ _).trans h.lower_eq)
  · refine (congrFun hsame.procUpper _).trans ((Function.update_self _ _ _).trans ?_)
    exact congrArg (· - quota) h.upper_eq

/-- A spawn keeps the balance when it takes nothing, when nothing is left, or when it is refused. -/
theorem wp_spawn_balanced (h : Balanced L pid lo base top n s) (hcur : s.machine.currentPid = pid)
    (hkeep : KeepsAccount s (.spawn fileid quota)) :
    Ctl.wp (spawn L fileid quota) (fun _ s' => Balanced L pid lo base top n s') (fun _ _ => False) s := by
  rcases h.granted with ⟨upper, hgrant, hleft⟩
  refine wp_spawn hgrant.mregions (fun r m' po' hinv' heffect => ?_)
  by_cases hok : s.machine.acceptsSpawn quota s.childPid
  · rw [SpawnEffect, if_pos hok] at heffect
    have hgrant' := hgrant.spawned hcur hok hinv' heffect.2
    refine ⟨h.lo_le, h.used_le, h.top_le, h.availQuota, h.allocNext, h.handedOut, upper - quota, hgrant', ?_⟩
    rcases hkeep with hzero | hempty | hrefused
    · rw [hzero]
      exact hleft.imp_right (fun hupper => (BitVec.sub_zero upper).trans hupper)
    · exact Or.inl (h.availQuota_eq_zero_iff.mp hempty)
    · exact absurd hok hrefused
  · rw [SpawnEffect, if_neg hok] at heffect
    exact h.congr rfl rfl rfl (fun _ hgrant => hgrant.of_sameTable hinv' heffect.2)

/-- Every admitted event keeps the account balanced. -/
theorem Balanced.step {e : UserEvent} (hkeep : KeepsAccount s e) (hstep : s.step L pid e = some s')
    (h : ∃ n, Balanced L pid lo base top n s) : ∃ n, Balanced L pid lo base top n s' := by
  rcases h with ⟨n, h⟩
  rcases h.granted with ⟨_, hgrant, _⟩
  cases e with
  | spawn fileid quota =>
      rw [Process.step, Option.ite_none_right_eq_some] at hstep
      rcases hstep with ⟨hcur, hrun⟩
      exact ⟨n, of_run_eq_some (Ctl.wlp_of_wp (wp_spawn_balanced h hcur hkeep)) hrun⟩
  | trap scause stval =>
      rw [Process.step, Option.ite_none_right_eq_some] at hstep
      rcases hstep with ⟨hcur, hrun⟩
      refine (of_run_eq_some (P := InBalance L pid lo base top) ?_ hrun).2
      simp only [modifyMachine, Ctl.wlp_bind, Ctl.wlp_modify]
      exact doSupervisorTrap_preserves _ (InBalance.setMachine ⟨hcur, n, h⟩ rfl rfl)
  | yield =>
      rw [Process.step, Option.ite_none_right_eq_some] at hstep
      rcases hstep with ⟨_, hrun⟩
      have hwp : Ctl.wp (yield L) (fun _ s' => Balanced L pid lo base top n s') (fun _ _ => False) s :=
        wp_yield hgrant.mregions (fun m' hkept => h.congr rfl rfl rfl (fun _ => hkept))
      exact ⟨n, of_run_eq_some (Ctl.wlp_of_wp hwp) hrun⟩
  | machine e =>
      -- the process makes its own calls through the library only
      rw [Process.step, Option.ite_none_left_eq_some, Option.map_eq_some_iff] at hstep
      rcases hstep with ⟨hother, m', hm', rfl⟩
      exact ⟨n, h.congr rfl rfl rfl (fun _ hgrant => hgrant.step hm' hother)⟩

end Account

/-- Allocation within the quota: after any run of the machine the process that runs starts with `lib_setup`, and no
assert fails; as long as no spawn takes a page that the account still has, every page that `boot_alloc` returns lies
in the region and is new, and `get_quota` is covered by the pages that are left. -/
theorem withinQuota_of_keepsAccount (L : Layout) (m₀ m : Machine) (evs : List Event)
    (hboot : runEvents L (booted L m₀) evs = some m) (physMid : Word) (s₁ s : Process)
    (hsetup : Process.setUp L m physMid = some s₁) (es : List UserEvent)
    (hrun : RunIn (Process.step L m.currentPid) KeepsAccount s₁ es s) : WithinQuota L m.currentPid s := by
  have hinv : MregionsInvariants m := by
    rcases runEvents_simulates L evs (booted_mregionsInvariants L m₀) (fun _ => PID_IDLE) with
      ⟨m', _, hm', hinv', _⟩
    exact Option.some.inj (hm'.symm.trans hboot) ▸ hinv'
  rcases setUp_balanced hinv hsetup with ⟨lo, base, top, n, hopen⟩
  have hbalanced : ∃ n, Balanced L m.currentPid lo base top n s :=
    hrun.invariant (I := fun s => ∃ n, Balanced L m.currentPid lo base top n s) Balanced.step ⟨n, hopen⟩
  rcases hbalanced with ⟨n, h⟩
  exact h.withinQuota

/-- Where the image of the monitor lies in the runs below. -/
def imageLayout : Layout :=
  ⟨0x80100000, 0x80200000, 0x80400000, 0x80000100, 0x80010000⟩

/-- The idle process spawns process 4 with eight pages and yields to it. -/
def startChild : List Event :=
  [.run (fun r => if r = .a0 then 1 else if r = .a1 then 8 else if r = .a2 then 4 else NR_spawn) (fun _ => 0),
    .ecall, .run (fun _ => NR_yield) (fun _ => 0), .ecall]

/-- The stack and a small program take the first two of the eight pages. -/
def imageEnd : Word := 0x80100000 + 249 * 4096 + 100

/-- A spawn without pages, one that asks for too much, a page fault that takes the last page, a spawn with a page, and
a yield. -/
theorem withinQuota_of_keepsAccount_child :
    ∃ m s₁ s, runEvents imageLayout (booted imageLayout (resetMachine imageLayout)) startChild = some m ∧
      Process.setUp imageLayout m imageEnd = some s₁ ∧
      RunIn (Process.step imageLayout m.currentPid) KeepsAccount s₁
        [.spawn 2 0, .spawn 2 9, .trap EXC_STORE_PAGE_FAULT (KERNEL_VIRTUAL_START + 0x3008), .spawn 2 1, .yield] s ∧
      s.handedOut.length = 6 ∧ WithinQuota imageLayout m.currentPid s := by
  have hcomputed : ((runEvents imageLayout (booted imageLayout (resetMachine imageLayout)) startChild).bind
      (fun m => (Process.setUp imageLayout m imageEnd).bind (fun s₁ =>
        (runIn (Process.step imageLayout m.currentPid) KeepsAccount s₁
          [.spawn 2 0, .spawn 2 9, .trap EXC_STORE_PAGE_FAULT (KERNEL_VIRTUAL_START + 0x3008), .spawn 2 1,
            .yield]).map (fun s => s.handedOut.length)))) = some 6 := by
    decide +kernel
  rcases Option.bind_eq_some_iff.mp hcomputed with ⟨m, hm, hrest⟩
  rcases Option.bind_eq_some_iff.mp hrest with ⟨s₁, hs₁, hrest⟩
  rcases Option.map_eq_some_iff.mp hrest with ⟨s, hs, hlength⟩
  have hrun := RunIn.of_runIn _ _ hs
  exact ⟨m, s₁, s, hm, hs₁, hrun, hlength,
    withinQuota_of_keepsAccount imageLayout _ m startChild hm imageEnd s₁ s hs₁ _ hrun⟩

/-- The child gives its last page to a child of its own, and then hands out the same page itself at a page fault. -/
theorem not_withinQuota_after_spawn :
    ∃ m s₁ s, runEvents imageLayout (booted imageLayout (resetMachine imageLayout)) startChild = some m ∧
      Process.setUp imageLayout m imageEnd = some s₁ ∧
      RunIn (Process.step imageLayout m.currentPid) (fun _ _ => True) s₁
        [.spawn 2 1, .trap EXC_STORE_PAGE_FAULT (KERNEL_VIRTUAL_START + 0x3008)] s ∧
      s.handedOut.head? = some ⟨0x801ff000, 248, 255⟩ ∧ ¬ WithinQuota imageLayout m.currentPid s := by
  have hcomputed : ((runEvents imageLayout (booted imageLayout (resetMachine imageLayout)) startChild).bind
      (fun m => (Process.setUp imageLayout m imageEnd).bind (fun s₁ =>
        (runIn (Process.step imageLayout m.currentPid) (fun _ _ => True) s₁
          [.spawn 2 1, .trap EXC_STORE_PAGE_FAULT (KERNEL_VIRTUAL_START + 0x3008)]).map
            (fun s => s.handedOut.head?)))) = some (some ⟨0x801ff000, 248, 255⟩) := by
    decide +kernel
  rcases Option.bind_eq_some_iff.mp hcomputed with ⟨m, hm, hrest⟩
  rcases Option.bind_eq_some_iff.mp hrest with ⟨s₁, hs₁, hrest⟩
  rcases Option.map_eq_some_iff.mp hrest with ⟨s, hs, hhead⟩
  refine ⟨m, s₁, s, hm, hs₁, RunIn.of_runIn _ _ hs, hhead, fun h => ?_⟩
  -- the region ends at 255 since the spawn, and page 255 belongs to process 16
  exact absurd (h.inside _ (List.mem_of_mem_head? hhead)) (by decide)

end Certikos
end Serval
