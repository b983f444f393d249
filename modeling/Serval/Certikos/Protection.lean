import Serval.Certikos.Observation
import Serval.Certikos.Runs

/-!
# Protection — what the current process can reach

`pmpaddr0` and `pmpaddr1` are copies of the region of the current process, refreshed by every switch
and by every spawn; the other entries are written once.  Together with the table's invariants, the
manual's rules say for every address what the current process may do with it.
-/

namespace Serval
namespace Certikos

open Riscv

/-- Where the linker puts the pages and the payload. -/
structure Layout.Placed (L : Layout) : Prop where
  pages_aligned : L.pages.toNat % 4 = 0
  start_aligned : L.payloadStart.toNat % 4 = 0
  end_aligned : L.payloadEnd.toNat % 4 = 0
  pages_fit : L.pages.toNat + 256 * 4096 ≤ 2 ^ 64
  disjoint : L.pages.toNat + 256 * 4096 ≤ L.payloadStart.toNat ∨
    L.payloadEnd.toNat ≤ L.pages.toNat

/-- The bytes of the pages `[lower, upper)`. -/
def Layout.inPages (L : Layout) (lower upper a : Word) : Prop :=
  L.pages + lower * 4096 ≤ a ∧ a < L.pages + upper * 4096

def Layout.inPayload (L : Layout) (a : Word) : Prop :=
  L.payloadStart ≤ a ∧ a < L.payloadEnd

instance (L : Layout) (lower upper a : Word) : Decidable (L.inPages lower upper a) :=
  inferInstanceAs (Decidable (_ ∧ _))

instance (L : Layout) (a : Word) : Decidable (L.inPayload a) :=
  inferInstanceAs (Decidable (_ ∧ _))

section Table

variable {L : Layout} {lower upper : Word} {f : CsrFile}

theorem pmpEntry_eq (h : CsrsFor L lower upper f) (i : Fin 16) :
    pmpEntry f i = ⟨certikosPmpcfg i, machineCsr L lower upper (.pmpaddr i)⟩ := by
  have hregs : f (pmpcfgReg i) = if i.val < 8 then initPmpcfg0 else 0 := by
    unfold pmpcfgReg
    split
    · exact h .pmpcfg0 rfl
    · exact h .pmpcfg2 rfl
  have hbytes : ∀ j : Fin 16,
      byteOf (if j.val < 8 then initPmpcfg0 else 0) (j % 8) = certikosPmpcfg j := by
    decide +kernel
  rw [pmpEntry, hregs, hbytes, h (.pmpaddr i) rfl]

theorem page_aligned (hL : L.Placed) (n : Word) : (L.pages + n * 4096).toNat % 4 = 0 := by
  have haligned := hL.pages_aligned
  have hsize : (4096 : Word).toNat = 4096 := rfl
  rw [BitVec.toNat_add, BitVec.toNat_mul, hsize]
  omega

/-- What a process with the region `[lower, upper)` may do with an address. -/
theorem pmpPerm_eq (hL : L.Placed) (h : CsrsFor L lower upper f) (a : Word) :
    pmpPerm f a =
      if L.inPages lower upper a then 7 else if L.inPayload a then 5 else 0 := by
  have hmodes : ∀ i : Fin 16, (i.val % 2 = 0 → pmpMode (certikosPmpcfg i) = .off) ∧
      (pmpMode (certikosPmpcfg i) = .off ∨ pmpMode (certikosPmpcfg i) = .tor) := by
    decide +kernel
  have hmode : ∀ i, (pmpEntry f i).mode = pmpMode (certikosPmpcfg i) := by
    intro i
    rw [pmpEntry_eq h]
    rfl
  rw [pmpPerm_pairs (fun i hi => (hmode i).trans ((hmodes i).1 hi)) (fun i _ => hmode i ▸ (hmodes i).2)]
  -- All pairs but two are switched off.
  have hoff : ∀ lo i : Fin 16, i ≠ 1 → i ≠ 3 → ¬ inPair (pmpEntry f lo) (pmpEntry f i) a := by
    intro lo i h1 h3
    refine not_inPair_of_off ((hmode i).trans ?_) a
    rw [certikosPmpcfg, if_neg h1, if_neg h3]
    rfl
  have hpages : inPair (pmpEntry f 0) (pmpEntry f 1) a ↔ L.inPages lower upper a := by
    rw [pmpEntry_eq h, pmpEntry_eq h]
    simp only [machineCsr, shift_twelve]
    exact inPair_iff (page_aligned hL lower) (page_aligned hL upper) rfl _ a
  have hpayload : inPair (pmpEntry f 2) (pmpEntry f 3) a ↔ L.inPayload a := by
    rw [pmpEntry_eq h, pmpEntry_eq h]
    exact inPair_iff hL.start_aligned hL.end_aligned rfl _ a
  simp only [hoff 4 5 (by decide) (by decide), hoff 6 7 (by decide) (by decide),
    hoff 8 9 (by decide) (by decide), hoff 10 11 (by decide) (by decide),
    hoff 12 13 (by decide) (by decide), hoff 14 15 (by decide) (by decide), hpages, hpayload, if_false]
  have hperms : certikosPmpcfg 1 &&& 7 = 7 ∧ certikosPmpcfg 3 &&& 7 = 5 := by
    decide
  simp only [PmpEntry.perm, pmpEntry_eq h, hperms.1, hperms.2]

/-- A byte of a region that lies in the pages. -/
theorem Layout.inPages.bounds {a : Word} (hin : L.inPages lower upper a) (hL : L.Placed)
    (hlower : lower ≤ upper) (hupper : upper ≤ NR_PAGES) :
    L.pages.toNat + lower.toNat * 4096 ≤ a.toNat ∧ a.toNat < L.pages.toNat + upper.toNat * 4096 := by
  have hfit := hL.pages_fit
  have hle : lower.toNat ≤ upper.toNat := hlower
  have hup : upper.toNat ≤ 256 := hupper
  have hsize : (4096 : Word).toNat = 4096 := rfl
  rcases hin with ⟨hlo, hhi⟩
  rw [BitVec.le_def, BitVec.toNat_add, BitVec.toNat_mul, hsize] at hlo
  rw [BitVec.lt_def, BitVec.toNat_add, BitVec.toNat_mul, hsize] at hhi
  omega

/-- No byte of a region is in the payload. -/
theorem Layout.inPages.not_inPayload {a : Word} (hin : L.inPages lower upper a) (hL : L.Placed)
    (hlower : lower ≤ upper) (hupper : upper ≤ NR_PAGES) : ¬ L.inPayload a := by
  rintro ⟨hstart, hend⟩
  have hup : upper.toNat ≤ 256 := hupper
  have hstart' : L.payloadStart.toNat ≤ a.toNat := hstart
  have hend' : a.toNat < L.payloadEnd.toNat := hend
  rcases hin.bounds hL hlower hupper with ⟨h₁, h₂⟩
  rcases hL.disjoint with hd | hd <;> omega

/-- The number of the page a byte of a region lies in. -/
theorem Layout.inPages.page {a : Word} (hin : L.inPages lower upper a) (hL : L.Placed)
    (hlower : lower ≤ upper) (hupper : upper ≤ NR_PAGES) :
    lower ≤ (a - L.pages) / 4096 ∧ (a - L.pages) / 4096 < upper := by
  have hle : lower.toNat ≤ upper.toNat := hlower
  have hup : upper.toNat ≤ 256 := hupper
  rcases hin.bounds hL hlower hupper with ⟨h₁, h₂⟩
  have hoffset : (a - L.pages).toNat = a.toNat - L.pages.toNat :=
    BitVec.toNat_sub_of_le (show L.pages.toNat ≤ a.toNat by omega)
  have hpage : ((a - L.pages) / 4096).toNat = (a.toNat - L.pages.toNat) / 4096 := by
    rw [BitVec.toNat_udiv, hoffset]
    rfl
  rw [BitVec.le_def, BitVec.lt_def, hpage]
  omega

end Table

/-! ## Runs -/

/-- The machine-level CSRs of a reachable state.  Which trap vector and stack `entry.S` has set up does
not matter here, so the layout may differ from the monitor's in these. -/
def Protected (L : Layout) (m : Machine) : Prop :=
  ∃ K : Layout, K.pages = L.pages ∧ K.payloadStart = L.payloadStart ∧ K.payloadEnd = L.payloadEnd ∧
    CsrInvariants K m

/-- What the current process may do with an address. -/
theorem Protected.pmpPerm_eq {L : Layout} {m : Machine} (h : Protected L m) (hL : L.Placed) (a : Word) :
    pmpPerm m.csrs a =
      if L.inPages (m.procs m.currentPid).lower (m.procs m.currentPid).upper a then 7
      else if L.inPayload a then 5 else 0 := by
  rcases h with ⟨K, hpages, hstart, hend, hcsrs⟩
  have hK : K.Placed := by
    rcases hL with ⟨h₁, h₂, h₃, h₄, h₅⟩
    constructor <;> simpa only [hpages, hstart, hend]
  have hinPages : ∀ x y, K.inPages x y a ↔ L.inPages x y a := by
    intro x y
    rw [Layout.inPages, Layout.inPages, hpages]
  have hinPayload : K.inPayload a ↔ L.inPayload a := by
    rw [Layout.inPayload, Layout.inPayload, hstart, hend]
  simp only [Certikos.pmpPerm_eq hK hcsrs, hinPages, hinPayload]

theorem booted_protected (L : Layout) {m : Machine}
    (hreset : ∀ i : Fin 16, 4 ≤ i → pmpEntry m.csrs i = ⟨0, 0⟩) : Protected L (booted L m) := by
  let K : Layout :=
    { L with machineTrapVector := m.csrs .mtvec, cpuStack := m.csrs .mscratch - 0x7f00 }
  have hcsrs : ResetCsrs K m.csrs := ⟨rfl, (BitVec.sub_add_cancel _ _).symm, hreset⟩
  exact ⟨K, rfl, rfl, rfl, booted_csrInvariants hcsrs⟩

theorem step_protected {L : Layout} {m m' : Machine} (hinv : MregionsInvariants m)
    (h : Protected L m) {e : Event} (hstep : m.step L e = some m') : Protected L m' := by
  rcases h with ⟨K, hpages, hstart, hend, hcsrs⟩
  refine ⟨K, hpages, hstart, hend, ?_⟩
  cases e with
  | run gpr csr =>
      cases hstep
      exact CsrsFor.restoreCsrs hcsrs csrsH csr
  | store page off value =>
      simp only [Machine.step] at hstep
      split at hstep <;> cases hstep <;> exact hcsrs
  | ecall =>
      rcases trapEcallS_implements L (fun _ => 0) hinv with ⟨m₁, hrun, _, hkeeps, _⟩
      cases hrun.symm.trans hstep
      exact hkeeps K hpages hcsrs

theorem runEvents_protected {L : Layout} (evs : List Event) :
    ∀ {m m' : Machine}, MregionsInvariants m → Protected L m → runEvents L m evs = some m' →
      Protected L m' := by
  induction evs with
  | nil =>
      intro m m' _ h hrun
      cases hrun
      exact h
  | cons e evs ih =>
      intro m m' hinv h hrun
      rcases step_simulates L hinv (fun _ => 0) e with ⟨m₁, _, hstep, hinv₁, _⟩
      rw [runEvents, hstep] at hrun
      exact ih hinv₁ (step_protected hinv h hstep) hrun

/-- Physical isolation: in every reachable state the current process can use its own pages in every
way, read and run the payload, and do nothing elsewhere.  In particular it cannot reach the pages of
any other process, such as a child it has just spawned. -/
theorem reachable_regions_protected (L : Layout) (hL : L.Placed) (m₀ : Machine)
    (hreset : ∀ i : Fin 16, 4 ≤ i → pmpEntry m₀.csrs i = ⟨0, 0⟩) (evs : List Event) :
    ∃ m, runEvents L (booted L m₀) evs = some m ∧
      (∀ a, L.inPages (m.procs m.currentPid).lower (m.procs m.currentPid).upper a →
        pmpPerm m.csrs a = 7) ∧
      (∀ a, L.inPayload a → pmpPerm m.csrs a = 5) ∧
      (∀ a, ¬ L.inPages (m.procs m.currentPid).lower (m.procs m.currentPid).upper a →
        ¬ L.inPayload a → pmpPerm m.csrs a = 0) ∧
      ∀ pid, pidValid pid → pid ≠ m.currentPid → ∀ a,
        L.inPages (m.procs pid).lower (m.procs pid).upper a → pmpPerm m.csrs a = 0 := by
  have hboot := booted_mregionsInvariants L m₀
  rcases runEvents_simulates L evs hboot (fun _ => PID_IDLE) with ⟨m, pageOwner, hrun, hinv, habs⟩
  have hspec : SpecInvariants (absFunction pageOwner m) := by
    rw [habs]
    exact specRun_induction (fun s c hs => hs.specStep L c) _ (booted_specInvariants L m₀)
  have hperm := (runEvents_protected evs hboot (booted_protected L hreset) hrun).pmpPerm_eq hL
  have hbounds : ∀ pid, pidValid pid → (m.procs pid).lower ≤ (m.procs pid).upper ∧
      (m.procs pid).upper ≤ NR_PAGES :=
    fun pid hpid => (hinv.bounded pid hpid).symm
  have hcur := hbounds _ hinv.currentValid
  refine ⟨m, hrun, ?_, ?_, ?_, ?_⟩
  · intro a hin
    rw [hperm, if_pos hin]
  · intro a hin
    have hout : ¬ L.inPages (m.procs m.currentPid).lower (m.procs m.currentPid).upper a :=
      fun hown => hown.not_inPayload hL hcur.1 hcur.2 hin
    rw [hperm, if_neg hout, if_pos hin]
  · intro a hout hout'
    rw [hperm, if_neg hout, if_neg hout']
  · intro pid hpid hne a hin
    have hb := hbounds pid hpid
    have hout : ¬ L.inPages (m.procs m.currentPid).lower (m.procs m.currentPid).upper a := by
      intro hown
      -- The byte's page would lie in two regions.
      exact hne (hspec.inRegion_unique hpid hinv.currentValid (hin.page hL hb.1 hb.2)
        (hown.page hL hcur.1 hcur.2))
    rw [hperm, if_neg hout, if_neg (hin.not_inPayload hL hb.1 hb.2)]

/-- The first process has spawned process 4 with the last eight pages: it can still use the first page and run the
payload, and can do nothing with the child's first page. -/
theorem reachable_regions_protected_image :
    ∃ L m, L = ⟨0x80100000, 0x80200000, 0x80400000, 0x80000100, 0x80010000⟩ ∧
      runEvents L (booted L (resetMachine L))
        [.run (fun r => if r = .a1 then 8 else if r = .a2 then 4 else NR_spawn) (fun _ => 0), .ecall] = some m ∧
      m.currentPid = PID_IDLE ∧ (m.procs 4).lower = 248 ∧ pmpPerm m.csrs 0x80200000 = 5 ∧
      pmpPerm m.csrs 0x80100000 = 7 ∧ pmpPerm m.csrs 0x801f8000 = 0 := by
  let L : Layout := ⟨0x80100000, 0x80200000, 0x80400000, 0x80000100, 0x80010000⟩
  let spawn : List Event :=
    [.run (fun r => if r = .a1 then 8 else if r = .a2 then 4 else NR_spawn) (fun _ => 0), .ecall]
  have hplaced : L.Placed := by constructor <;> decide
  rcases reachable_regions_protected L hplaced (resetMachine L)
    (fun i _ => resetMachine_pmpEntry L i) spawn with ⟨m, hrun, hown, hpayload, _, hothers⟩
  have hregions : (runEvents L (booted L (resetMachine L)) spawn).map (fun m =>
      (m.currentPid, (m.procs PID_IDLE).lower, (m.procs PID_IDLE).upper, (m.procs 4).lower, (m.procs 4).upper)) =
      some (PID_IDLE, 0, 248, 248, 256) := by
    decide +kernel
  simp only [hrun, Option.map_some, Option.some.injEq, Prod.mk.injEq] at hregions
  rcases hregions with ⟨hcur, hlower, hupper, hlower₄, hupper₄⟩
  rw [hcur, hlower, hupper] at hown
  refine ⟨L, m, rfl, hrun, hcur, hlower₄, hpayload _ (by decide), hown _ (by decide),
    hothers 4 (by decide) (by rw [hcur]; decide) _ ?_⟩
  rw [hlower₄, hupper₄]
  decide

end Certikos
end Serval
