import Serval.Komodo.Runs
import Serval.Riscv.Pmp

/-!
# Protection — what the host and an enclave can reach

The monitor writes the PMP entries once, at boot, and later switches the permissions of one of them:
the entry for the secure pages is open while an enclave runs.  The invariant ties the permissions, the
trap delegation and `SR_TVM` to `enclave_mode`; the manual's rules, applied to the entries, then say for
every address who may use it.
-/

namespace Serval
namespace Komodo

open Riscv

/-! ## The table of entries -/

section Table

variable {K : Layout} {enclave : Bool} {f : CsrFile}

/-- The configuration of an entry. -/
def komodoPmpcfg (enclave : Bool) (i : Fin 16) : BitVec 8 :=
  if i = 3 then 0xf else if i = 5 then if enclave then 0xf else 8 else 0

theorem pmpEntry_eq (h : CsrInvariants K enclave f) (i : Fin 16) :
    pmpEntry f i = ⟨komodoPmpcfg enclave i, komodoPmpaddr K i⟩ := by
  have hregs : f (pmpcfgReg i) = if i.val < 8 then komodoPmpcfg0 enclave else 0 := by
    unfold pmpcfgReg
    split
    · exact h.machine .pmpcfg0 _ rfl
    · exact h.machine .pmpcfg2 _ rfl
  have hbytes : ∀ (b : Bool) (j : Fin 16),
      byteOf (if j.val < 8 then komodoPmpcfg0 b else 0) (j % 8) = komodoPmpcfg b j := by
    decide +kernel
  rw [pmpEntry, hregs, hbytes, h.machine (.pmpaddr i) _ rfl]

theorem aligned_of_page {x : Word} (hx : x.toNat % 4096 = 0) : x.toNat % 4 = 0 := by
  omega

theorem aligned_add {x size : Word} (hx : x.toNat % 4096 = 0) (hsize : size.toNat % 4 = 0) :
    (x + size).toNat % 4 = 0 := by
  rw [BitVec.toNat_add]
  omega

/-- Who may use which address. -/
theorem pmpPerm_eq (h : CsrInvariants K enclave f) (a : Word) :
    pmpPerm f a =
      if K.payloadStart ≤ a ∧ a < K.payloadStart + KOM_INSECURE_RESERVE then 7
      else if K.securePages ≤ a ∧ a < K.securePages + KOM_SECURE_RESERVE then
        if enclave then 7 else 0
      else 0 := by
  have hmodes : ∀ (b : Bool) (i : Fin 16),
      (i.val % 2 = 0 → pmpMode (komodoPmpcfg b i) = .off) ∧
        (pmpMode (komodoPmpcfg b i) = .off ∨ pmpMode (komodoPmpcfg b i) = .tor) := by
    decide +kernel
  have hmode : ∀ i, (pmpEntry f i).mode = pmpMode (komodoPmpcfg enclave i) := by
    intro i
    rw [pmpEntry_eq h]
    rfl
  rw [pmpPerm_pairs (fun i hi => (hmode i).trans ((hmodes enclave i).1 hi))
    (fun i _ => hmode i ▸ (hmodes enclave i).2)]
  -- All pairs but two are switched off.
  have hoff : ∀ lo i : Fin 16, i ≠ 3 → i ≠ 5 → ¬ inPair (pmpEntry f lo) (pmpEntry f i) a := by
    intro lo i h3 h5
    refine not_inPair_of_off ((hmode i).trans ?_) a
    rw [komodoPmpcfg, if_neg h3, if_neg h5]
    rfl
  have hpayload : inPair (pmpEntry f 2) (pmpEntry f 3) a ↔
      K.payloadStart ≤ a ∧ a < K.payloadStart + KOM_INSECURE_RESERVE := by
    rw [pmpEntry_eq h, pmpEntry_eq h]
    refine inPair_iff (aligned_of_page K.payload_aligned) (aligned_add K.payload_aligned (by decide)) ?_
      _ a
    cases enclave <;> rfl
  have hsecure : inPair (pmpEntry f 4) (pmpEntry f 5) a ↔
      K.securePages ≤ a ∧ a < K.securePages + KOM_SECURE_RESERVE := by
    rw [pmpEntry_eq h, pmpEntry_eq h]
    refine inPair_iff (aligned_of_page K.secure_aligned) (aligned_add K.secure_aligned (by decide)) ?_
      _ a
    cases enclave <;> rfl
  simp only [hoff 0 1 (by decide) (by decide), hoff 6 7 (by decide) (by decide),
    hoff 8 9 (by decide) (by decide), hoff 10 11 (by decide) (by decide),
    hoff 12 13 (by decide) (by decide), hoff 14 15 (by decide) (by decide), hpayload, hsecure, if_false]
  have hperms : ∀ b : Bool, komodoPmpcfg b 3 &&& 7 = 7 ∧
      komodoPmpcfg b 5 &&& 7 = if b then 7 else 0 := by
    decide
  simp only [PmpEntry.perm, pmpEntry_eq h, (hperms enclave).1, (hperms enclave).2]

end Table

/-! ## Runs -/

/-- The machine-level CSRs of a reachable state.  Which trap vector and stack `entry.S` has set up does
not matter here, so the layout may differ from the monitor's in these. -/
structure Protection (L : Layout) (m : Machine) : Prop where
  csrs : ∃ K : Layout, K.securePages = L.securePages ∧ K.payloadStart = L.payloadStart ∧
    CsrInvariants K (m.enclaveMode ≠ 0) m.csrs
  traps : EnclaveTraps m

theorem writeCsrs_of_machineOnly (f : CsrFile) (csr : SavedCsr → Word) {c : Csr}
    (hc : c.machineOnly = true) : writeCsrs f csr c = f c :=
  restoreCsrs_of_ne csrsH f _ (home_ne_of_machineOnly hc)

theorem CsrInvariants.writeCsrs {K : Layout} {enclave : Bool} {f : CsrFile}
    (h : CsrInvariants K enclave f) (csr : SavedCsr → Word) :
    CsrInvariants K enclave (writeCsrs f csr) := by
  constructor
  · intro c v hc
    rw [writeCsrs_of_machineOnly f csr (machineCsr_machineOnly hc)]
    exact h.machine c v hc
  · intro henclave
    rw [writeCsrs_tvm]
    exact h.tvm henclave

theorem booted_protection (L : Layout) (frame : PtRegs) (hartid dtb : Word) {m : Machine}
    (hreset : ∀ i, pmpEntry m.csrs i = ⟨0, 0⟩) : Protection L (booted L frame hartid dtb m) := by
  let K : Layout :=
    { L with machineTrapVector := m.csrs .mtvec, cpuStack := m.csrs .mscratch - 0x7f00 }
  have hcfg : ∀ i : Fin 16, (pmpEntry m.csrs i).cfg = 0 := fun i => congrArg PmpEntry.cfg (hreset i)
  have hzero : ∀ k < 8, byteOf 0 k = 0 := by decide
  have hcsrs : ResetCsrs K m.csrs := by
    refine ⟨rfl, (BitVec.sub_add_cancel _ _).symm, ?_, ?_, fun i => congrArg PmpEntry.addr (hreset i)⟩
    · exact eq_of_byteOf_eq fun k hk => ((byteOf_pmpcfg0 _ hk).trans (hcfg _)).trans (hzero k hk).symm
    · exact eq_of_byteOf_eq fun k hk => ((byteOf_pmpcfg2 _ hk).trans (hcfg _)).trans (hzero k hk).symm
  exact ⟨⟨K, rfl, rfl, booted_csrInvariants hcsrs⟩, fun hmode => absurd rfl hmode⟩

theorem step_protection {L : Layout} {m m' : Machine} (hinv : RunInvariants L m)
    (h : Protection L m) {e : Event} (hstep : m.step L e = some m') : Protection L m' := by
  rcases h.csrs with ⟨K, hsecure, hpayload, hcsrs⟩
  cases e with
  | run gpr csr =>
      cases hstep
      refine ⟨⟨K, hsecure, hpayload, hcsrs.writeCsrs csr⟩, fun hmode => ?_⟩
      exact ⟨(writeCsrs_of_machineOnly _ csr rfl).trans (h.traps hmode).1,
        (writeCsrs_of_machineOnly _ csr rfl).trans (h.traps hmode).2⟩
  | trap cause =>
      rcases hinv.state with ⟨g, _⟩
      rcases trap_implements L g hinv.mregions cause with ⟨m₁, hrun, _, himpl⟩
      cases hrun.symm.trans hstep
      exact ⟨⟨K, hsecure, hpayload, himpl.csrs K hcsrs⟩, himpl.traps h.traps⟩
  | enclaveWrite page off value | insecureWrite page off value =>
      simp only [Machine.step] at hstep
      split at hstep <;> cases hstep
      · exact ⟨⟨K, hsecure, hpayload, hcsrs⟩, h.traps⟩
      · exact h

theorem runEvents_protection {L : Layout} (es : List Event) :
    ∀ {m : Machine}, RunInvariants L m → Protection L m →
      ∃ m', runEvents L m es = some m' ∧ RunInvariants L m' ∧ Protection L m' := by
  induction es with
  | nil =>
      intro m hinv h
      exact ⟨m, rfl, hinv, h⟩
  | cons e es ih =>
      intro m hinv h
      rcases step_runInvariants hinv e with ⟨m₁, hstep, hinv₁⟩
      rcases ih hinv₁ (step_protection hinv h hstep) with ⟨m₂, hruns, hinv₂, h₂⟩
      refine ⟨m₂, ?_, hinv₂, h₂⟩
      rw [runEvents_cons hstep]
      exact hruns

/-- Physical isolation from the operating system: in every reachable state the host can use exactly
the insecure memory, an enclave also the secure pages, and nothing else is open to either.  While an
enclave runs, it can neither change `satp` nor keep a trap from the monitor. -/
theorem reachable_protection (L : Layout) (frame : PtRegs) (hartid dtb : Word) (m₀ : Machine)
    (hreset : ∀ i, pmpEntry m₀.csrs i = ⟨0, 0⟩) (es : List Event) :
    ∃ m, runEvents L (booted L frame hartid dtb m₀) es = some m ∧
      (∀ a, pmpPerm m.csrs a =
        if (L.payloadStart ≤ a ∧ a < L.payloadStart + KOM_INSECURE_RESERVE) ∨
            (m.enclaveMode ≠ 0 ∧ L.securePages ≤ a ∧ a < L.securePages + KOM_SECURE_RESERVE) then 7
        else 0) ∧
      (m.enclaveMode ≠ 0 → SR_TVM &&& m.csrs .mstatus ≠ 0 ∧ m.csrs .mideleg = 0 ∧
        m.csrs .medeleg = 0 ∧
        ∀ csr, csrRead (writeCsrs m.csrs csr) .satp = csrRead m.csrs .satp) := by
  rcases runEvents_protection es (booted_runInvariants L frame hartid dtb m₀)
    (booted_protection L frame hartid dtb hreset) with ⟨m, hrun, hinv, h⟩
  rcases h.csrs with ⟨K, hsecure, hpayload, hcsrs⟩
  refine ⟨m, hrun, fun a => ?_, fun hmode => ?_⟩
  · rw [pmpPerm_eq hcsrs, hsecure, hpayload]
    by_cases hin : L.payloadStart ≤ a ∧ a < L.payloadStart + KOM_INSECURE_RESERVE
    · rw [if_pos hin, if_pos (Or.inl hin)]
    · rw [if_neg hin]
      simp only [hin, false_or, decide_eq_true_eq, ← ite_and, and_comm]
  · have htvm := hinv.tvm hmode
    exact ⟨htvm, (h.traps hmode).1, (h.traps hmode).2, fun csr => writeCsrs_satp htvm csr⟩

/-- After a call on a hart fresh out of reset, the host can use its own first byte and not the
monitor's. -/
theorem reachable_protection_image :
    ∃ m, runEvents imageLayout (booted imageLayout (fun _ => 0) 0 0 (resetMachine imageLayout))
        [.trap EXC_ECALL_S] = some m ∧
      pmpPerm m.csrs 0x80200000 = 7 ∧ pmpPerm m.csrs 0x80000000 = 0 := by
  have hreset : ∀ i, pmpEntry (resetMachine imageLayout).csrs i = ⟨0, 0⟩ := by decide
  rcases reachable_protection imageLayout (fun _ => 0) 0 0 (resetMachine imageLayout) hreset
    [.trap EXC_ECALL_S] with ⟨m, hrun, hperm, _⟩
  refine ⟨m, hrun, ?_, ?_⟩
  · rw [hperm]
    exact if_pos (Or.inl (by decide))
  · rw [hperm]
    refine if_neg (not_or.mpr ⟨by decide, fun hsecure => ?_⟩)
    exact absurd hsecure.2 (by decide)

end Komodo
end Serval
