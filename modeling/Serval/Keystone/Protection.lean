import Serval.Keystone.Invariants
import Serval.Riscv.Pmp

/-!
# Protection — what the operating system and an enclave can reach

Enclave `e` has the entries `2e` and `2e + 1`: a top-of-range pair around its secure region, without
permissions unless it runs.  The last pair is open around the payload, or around the shared region of
the enclave that runs; it comes after all the others, so it never opens a secure region.
-/

namespace Serval
namespace Keystone

open Riscv

/-! ## Addresses -/

/-- The bytes of the payload between two offsets. -/
def Layout.inRange (L : Layout) (lower upper a : Word) : Prop :=
  L.payloadStart.toNat + lower.toNat ≤ a.toNat ∧ a.toNat < L.payloadStart.toNat + upper.toNat

instance (L : Layout) (lower upper a : Word) : Decidable (L.inRange lower upper a) :=
  inferInstanceAs (Decidable (_ ∧ _))

def Enclave.inSecure (L : Layout) (e : Enclave) (a : Word) : Prop :=
  e.status ≠ Status.free.val ∧ L.inRange e.secureLower e.secureUpper a

instance (L : Layout) (e : Enclave) (a : Word) : Decidable (e.inSecure L a) :=
  inferInstanceAs (Decidable (_ ∧ _))

/-- Whether an address belongs to some enclave. -/
def Machine.inSecure (L : Layout) (m : Machine) (a : Word) : Prop :=
  ∃ eid ∈ eids, (m.enclaves eid).inSecure L a

instance (L : Layout) (m : Machine) (a : Word) : Decidable (m.inSecure L a) :=
  List.decidableBEx (fun eid => (m.enclaves eid).inSecure L a) eids

section Addresses

variable {L : Layout} {lower upper a : Word}

theorem offsetToPhys_aligned (L : Layout) {offset : Word} (h : offset % 4 = 0) :
    (offsetToPhys L offset).toNat % 4 = 0 := by
  have hstart := L.aligned
  have hoffset : offset.toNat % 4 = 0 := by
    have := congrArg BitVec.toNat h
    rwa [BitVec.toNat_umod] at this
  rw [offsetToPhys, BitVec.toNat_add]
  omega

/-- Addresses of the payload do not wrap. -/
theorem offsetToPhys_toNat (L : Layout) {offset : Word} (h : offset ≤ MAX_PAYLOAD_SIZE) :
    (offsetToPhys L offset).toNat = L.payloadStart.toNat + offset.toNat := by
  have hfits := L.fits
  have hle : offset.toNat ≤ MAX_PAYLOAD_SIZE.toNat := h
  rw [offsetToPhys, BitVec.toNat_add]
  omega

theorem inRange_iff (hlower : lower ≤ MAX_PAYLOAD_SIZE) (hupper : upper ≤ MAX_PAYLOAD_SIZE) :
    L.inRange lower upper a ↔ offsetToPhys L lower ≤ a ∧ a < offsetToPhys L upper := by
  rw [BitVec.le_def, BitVec.lt_def, offsetToPhys_toNat L hlower, offsetToPhys_toNat L hupper]
  rfl

theorem payload_region : isRegionValid 0 MAX_PAYLOAD_SIZE := by
  decide

/-- The range of a pair that was written for a region. -/
theorem inPair_region (h : isRegionValid lower upper) {cfg : BitVec 8} (hcfg : pmpMode cfg = .tor) :
    inPair ⟨0, offsetToPhys L lower >>> 2⟩ ⟨cfg, offsetToPhys L upper >>> 2⟩ a ↔
      L.inRange lower upper a := by
  rcases h with ⟨hlower, hupper, hlt, hmax⟩
  have hlt' : lower.toNat < upper.toNat := hlt
  have hmax' : upper.toNat ≤ MAX_PAYLOAD_SIZE.toNat := hmax
  have hlowerMax : lower ≤ MAX_PAYLOAD_SIZE := Nat.le_trans (Nat.le_of_lt hlt') hmax'
  rw [inRange_iff hlowerMax hmax]
  exact inPair_iff (offsetToPhys_aligned L hlower) (offsetToPhys_aligned L hupper) hcfg 0 a

/-- No address belongs to two enclaves. -/
theorem not_inSecure_of_apart {e e' : Enclave} (hapart : e.Apart e') (h : e.inSecure L a) :
    ¬ e'.inSecure L a := by
  rintro ⟨_, hlo', hhi'⟩
  rcases h with ⟨_, hlo, hhi⟩
  rcases hapart with hle | hle
  · have hle' : e.secureUpper.toNat ≤ e'.secureLower.toNat := hle
    omega
  · have hle' : e'.secureUpper.toNat ≤ e.secureLower.toNat := hle
    omega

end Addresses

/-! ## Entries -/

def lowerEntry (eid : Word) : Fin 16 := Fin.ofNat 16 (2 * eid.toNat)

def upperEntry (eid : Word) : Fin 16 := Fin.ofNat 16 (2 * eid.toNat + 1)

section Entries

variable {f : CsrFile} {eid : Word}

theorem entry_val (h : eidIsValid eid) :
    (lowerEntry eid).val = 2 * eid.toNat ∧ (upperEntry eid).val = 2 * eid.toNat + 1 ∧
      eid.toNat < 3 := by
  have hlt : eid.toNat < 3 := h
  refine ⟨Nat.mod_eq_of_lt ?_, Nat.mod_eq_of_lt ?_, hlt⟩ <;> omega

theorem pmpEntry_remappedCsrs (f : CsrFile) (eid lower upper : Word) (i : Fin 16) :
    pmpEntry (remappedCsrs f eid lower upper) i =
      if i = upperEntry eid then ⟨(pmpEntry f i).cfg, upper >>> 2⟩
      else if i = lowerEntry eid then ⟨(pmpEntry f i).cfg, lower >>> 2⟩
      else pmpEntry f i := by
  rw [remappedCsrs, pmpEntry_pmpaddrWrite, pmpEntry_pmpaddrWrite]
  change (if i = upperEntry eid then _ else if i = lowerEntry eid then _ else _) = _
  by_cases hlower : i = Fin.ofNat 16 (2 * eid.toNat)
  · rw [if_pos hlower]
  · rw [if_neg hlower]

/-- A configuration byte with permissions. -/
theorem torWord {perm : Word} (hperm : perm.toNat < 8) :
    (PMPCFG_A_TOR ||| perm).toNat < 2 ^ 8 ∧
      (PMPCFG_A_TOR ||| perm).setWidth 8 = 8 ||| perm.setWidth 8 := by
  constructor
  · rw [BitVec.toNat_or]
    exact Nat.or_lt_two_pow (by decide) (by omega)
  · rw [BitVec.setWidth_or]
    rfl

theorem pmpEntry_chmodCsrs (f : CsrFile) (h : eidIsValid eid) {perm : Word} (hperm : perm.toNat < 8)
    (i : Fin 16) :
    pmpEntry (chmodCsrs f eid perm) i =
      if i = upperEntry eid then ⟨8 ||| perm.setWidth 8, (pmpEntry f i).addr⟩ else pmpEntry f i := by
  rcases entry_val h with ⟨_, hupper, hlt⟩
  have hindex : i.val = 2 * eid.toNat + 1 ↔ i = upperEntry eid := by
    rw [Fin.ext_iff, hupper]
  rw [chmodCsrs, pmpEntry_pmpcfgWrite f (by omega) (torWord hperm).1, (torWord hperm).2]
  simp only [hindex]

theorem pmpEntry_lastCsrs (f : CsrFile) (lower upper : Word) {perm : Word} (hperm : perm.toNat < 8)
    (i : Fin 16) :
    pmpEntry (lastCsrs f lower upper perm) i =
      if i = 7 then ⟨8 ||| perm.setWidth 8, upper >>> 2⟩
      else if i = 6 then ⟨(pmpEntry f i).cfg, lower >>> 2⟩
      else pmpEntry f i := by
  have hindex : i.val = 7 ↔ i = 7 := by
    rw [Fin.ext_iff]
    rfl
  rw [lastCsrs, pmpEntry_pmpcfgWrite _ (by decide) (torWord hperm).1, (torWord hperm).2]
  simp only [hindex, pmpEntry_pmpaddrWrite]
  by_cases h7 : i = 7 <;> simp [h7]

theorem pmpEntry_restoreStateCsrs (f : CsrFile) (state : CpuState) (i : Fin 16) :
    pmpEntry (restoreStateCsrs f state) i = pmpEntry f i := by
  have hfold : ∀ (cs : List StateCsr) (g : CsrFile),
      pmpEntry (cs.foldl (fun g c => csrWrite g c.toCsr (state.csr c)) g) i = pmpEntry g i := by
    intro cs
    induction cs with
    | nil =>
        intro g
        rfl
    | cons c cs ih =>
        intro g
        have hc : c.toCsr.home.isPmp = false := by cases c <;> rfl
        rw [List.foldl_cons, ih, pmpEntry_csrWrite g hc]
  exact hfold StateCsr.all f

end Entries

/-- The entries of a slot. -/
structure SlotOk (L : Layout) (f : CsrFile) (eid : Word) (e : Enclave) : Prop where
  lower : (pmpEntry f (lowerEntry eid)).cfg = 0
  upper : (pmpEntry f (upperEntry eid)).mode = .off ∨ (pmpEntry f (upperEntry eid)).mode = .tor
  free : e.status = Status.free.val →
    (pmpEntry f (lowerEntry eid)).addr = (pmpEntry f (upperEntry eid)).addr
  live : e.status ≠ Status.free.val →
    pmpEntry f (lowerEntry eid) = ⟨0, offsetToPhys L e.secureLower >>> 2⟩ ∧
      pmpEntry f (upperEntry eid) =
        ⟨if e.status = Status.running.val then 0xf else 8, offsetToPhys L e.secureUpper >>> 2⟩

/-- The range of the last pair. -/
structure LastOk (L : Layout) (f : CsrFile) (lower upper : Word) (cfg : BitVec 8) : Prop where
  lower : pmpEntry f 6 = ⟨0, offsetToPhys L lower >>> 2⟩
  upper : pmpEntry f 7 = ⟨cfg, offsetToPhys L upper >>> 2⟩

structure PmpInvariants (L : Layout) (m : Machine) : Prop where
  slot : ∀ eid, eidIsValid eid → SlotOk L m.csrs eid (m.enclaves eid)
  host : m.enclaveMode = 0 → LastOk L m.csrs 0 MAX_PAYLOAD_SIZE 0xf
  enclave : m.enclaveMode ≠ 0 →
    LastOk L m.csrs (m.enclaves m.currentEnclave).sharedLower
      (m.enclaves m.currentEnclave).sharedUpper 0xb
  rest : ∀ i : Fin 16, 8 ≤ i → pmpEntry m.csrs i = ⟨0, 0⟩

/-! ## Steps -/

section Indices

variable {i j : Word}

theorem lowerEntry_ne (hi : eidIsValid i) (hj : eidIsValid j) (h : i ≠ j) :
    lowerEntry i ≠ lowerEntry j := by
  intro heq
  have hval := congrArg Fin.val heq
  rw [(entry_val hi).1, (entry_val hj).1] at hval
  exact h (BitVec.eq_of_toNat_eq (by omega))

theorem upperEntry_ne (hi : eidIsValid i) (hj : eidIsValid j) (h : i ≠ j) :
    upperEntry i ≠ upperEntry j := by
  intro heq
  have hval := congrArg Fin.val heq
  rw [(entry_val hi).2.1, (entry_val hj).2.1] at hval
  exact h (BitVec.eq_of_toNat_eq (by omega))

theorem lowerEntry_ne_upperEntry (hi : eidIsValid i) (hj : eidIsValid j) :
    lowerEntry i ≠ upperEntry j := by
  intro heq
  have hval := congrArg Fin.val heq
  rw [(entry_val hi).1, (entry_val hj).2.1] at hval
  omega

/-- The last pair and the unused entries belong to no enclave. -/
theorem ne_entry (hi : eidIsValid i) {k : Fin 16} (hk : 6 ≤ k) :
    k ≠ lowerEntry i ∧ k ≠ upperEntry i := by
  rcases entry_val hi with ⟨hlower, hupper, hlt⟩
  have hk' : 6 ≤ k.val := hk
  constructor
  · intro heq
    rw [heq, hlower] at hk'
    omega
  · intro heq
    rw [heq, hupper] at hk'
    omega

end Indices

section Steps

variable {L : Layout} {f g : CsrFile} {eid : Word} {e : Enclave}

/-- Only the entries of a slot matter to it. -/
theorem SlotOk.congr (h : SlotOk L f eid e)
    (hlower : pmpEntry g (lowerEntry eid) = pmpEntry f (lowerEntry eid))
    (hupper : pmpEntry g (upperEntry eid) = pmpEntry f (upperEntry eid)) : SlotOk L g eid e := by
  constructor
  · rw [hlower]
    exact h.lower
  · rw [hupper]
    exact h.upper
  · rw [hlower, hupper]
    exact h.free
  · rw [hlower, hupper]
    exact h.live

theorem slotOk_of_live (hlive : e.status ≠ Status.free.val)
    (hlower : pmpEntry f (lowerEntry eid) = ⟨0, offsetToPhys L e.secureLower >>> 2⟩)
    (hupper : pmpEntry f (upperEntry eid) =
      ⟨if e.status = Status.running.val then 0xf else 8, offsetToPhys L e.secureUpper >>> 2⟩) :
    SlotOk L f eid e := by
  refine ⟨by rw [hlower], ?_, fun hfree => absurd hfree hlive, fun _ => ⟨hlower, hupper⟩⟩
  rw [hupper]
  refine .inr ?_
  show pmpMode (if e.status = Status.running.val then 0xf else 8) = .tor
  split <;> rfl

theorem LastOk.congr {lower upper : Word} {cfg : BitVec 8} (h : LastOk L f lower upper cfg)
    (h6 : pmpEntry g 6 = pmpEntry f 6) (h7 : pmpEntry g 7 = pmpEntry f 7) :
    LastOk L g lower upper cfg :=
  ⟨h6.trans h.lower, h7.trans h.upper⟩

variable {m : Machine}

/-- A call of the host that changes one slot and its entries. -/
theorem PmpInvariants.setSlot (h : PmpInvariants L m) (hmode : m.enclaveMode = 0)
    (heid : eidIsValid eid) (hslot : SlotOk L g eid e)
    (hframe : ∀ i, i ≠ lowerEntry eid → i ≠ upperEntry eid → pmpEntry g i = pmpEntry m.csrs i)
    (payload : Word → BitVec 8) :
    PmpInvariants L
      { m with enclaves := Function.update m.enclaves eid e, payload := payload, csrs := g } := by
  have hlast : ∀ i : Fin 16, 6 ≤ i → pmpEntry g i = pmpEntry m.csrs i :=
    fun i hi => hframe i (ne_entry heid hi).1 (ne_entry heid hi).2
  refine ⟨fun j hj => ?_, fun _ => ?_, fun hmode' => absurd hmode hmode', fun i hi => ?_⟩
  · by_cases hje : j = eid
    · subst hje
      simpa only [Function.update_self] using hslot
    · simp only [Function.update_of_ne hje]
      refine (h.slot j hj).congr (hframe _ (lowerEntry_ne hj heid hje) ?_)
        (hframe _ ?_ (upperEntry_ne hj heid hje))
      · exact lowerEntry_ne_upperEntry hj heid
      · exact (lowerEntry_ne_upperEntry heid hj).symm
  · exact (h.host hmode).congr (hlast 6 (by decide)) (hlast 7 (by decide))
  · have hi' : 8 ≤ i := hi
    exact (hlast i (by omega)).trans (h.rest i hi)

/-- The CSRs after a switch: the permissions of one enclave and the last pair change. -/
theorem pmpEntry_switch (f : CsrFile) (state : CpuState) (heid : eidIsValid eid) {perm perm' : Word}
    (hperm : perm.toNat < 8) (hperm' : perm'.toNat < 8) (lower upper : Word) (i : Fin 16) :
    pmpEntry (lastCsrs (chmodCsrs (restoreStateCsrs f state) eid perm) lower upper perm') i =
      if i = 7 then ⟨8 ||| perm'.setWidth 8, upper >>> 2⟩
      else if i = 6 then ⟨(pmpEntry f i).cfg, lower >>> 2⟩
      else if i = upperEntry eid then ⟨8 ||| perm.setWidth 8, (pmpEntry f i).addr⟩
      else pmpEntry f i := by
  rw [pmpEntry_lastCsrs _ _ _ hperm', pmpEntry_chmodCsrs _ heid hperm, pmpEntry_restoreStateCsrs]
  by_cases h6 : i = 6
  · have hne : (6 : Fin 16) ≠ upperEntry eid := (ne_entry heid (by decide)).2
    subst h6
    simp only [hne, if_false]
  · simp only [h6, if_false]

/-- What a switch makes of the entries. -/
theorem PmpInvariants.switch (h : PmpInvariants L m) (state : CpuState) (heid : eidIsValid eid)
    (hlive : (m.enclaves eid).status ≠ Status.free.val) (hstatus : e.status ≠ Status.free.val)
    (hlower : e.secureLower = (m.enclaves eid).secureLower)
    (hupper : e.secureUpper = (m.enclaves eid).secureUpper) (perm perm' : Word)
    (hperm : perm.toNat < 8) (hperm' : perm'.toNat < 8)
    (hcfg : 8 ||| perm.setWidth 8 = if e.status = Status.running.val then 0xf else 8)
    (lower upper : Word)
    (hg : g = lastCsrs (chmodCsrs (restoreStateCsrs m.csrs state) eid perm) (offsetToPhys L lower)
      (offsetToPhys L upper) perm') :
    (∀ j, eidIsValid j → SlotOk L g j (Function.update m.enclaves eid e j)) ∧
      LastOk L g lower upper (8 ||| perm'.setWidth 8) ∧
      ∀ i : Fin 16, 8 ≤ i → pmpEntry g i = ⟨0, 0⟩ := by
  have hentry : ∀ i, pmpEntry g i = _ := fun i => hg ▸ pmpEntry_switch m.csrs state heid hperm hperm'
    (offsetToPhys L lower) (offsetToPhys L upper) i
  have hframe : ∀ i : Fin 16, i ≠ 6 → i ≠ 7 → i ≠ upperEntry eid → pmpEntry g i = pmpEntry m.csrs i := by
    intro i h6 h7 hne
    rw [hentry, if_neg h7, if_neg h6, if_neg hne]
  have h67 : ∀ j, eidIsValid j → lowerEntry j ≠ 6 ∧ lowerEntry j ≠ 7 ∧ upperEntry j ≠ 6 ∧
      upperEntry j ≠ 7 := by
    intro j hj
    exact ⟨(ne_entry hj (by decide)).1.symm, (ne_entry hj (by decide)).1.symm,
      (ne_entry hj (by decide)).2.symm, (ne_entry hj (by decide)).2.symm⟩
  refine ⟨fun j hj => ?_, ⟨?_, ?_⟩, fun i hi => ?_⟩
  · rcases h67 j hj with ⟨hl6, hl7, hu6, hu7⟩
    have hlowerFrame := hframe _ hl6 hl7 (lowerEntry_ne_upperEntry hj heid)
    by_cases hje : j = eid
    · subst hje
      rcases (h.slot j hj).live hlive with ⟨hl, hu⟩
      rw [Function.update_self]
      refine slotOk_of_live hstatus ?_ ?_
      · rw [hlowerFrame, hl, hlower]
      · rw [hentry, if_neg hu7, if_neg hu6, if_pos rfl, hcfg, hu, hupper]
    · rw [Function.update_of_ne hje]
      exact (h.slot j hj).congr hlowerFrame (hframe _ hu6 hu7 (upperEntry_ne hj heid hje))
  · have hcfg6 : (pmpEntry m.csrs 6).cfg = 0 := by
      by_cases hmode : m.enclaveMode = 0
      · rw [(h.host hmode).lower]
      · rw [(h.enclave hmode).lower]
    rw [hentry, if_neg (by decide), if_pos rfl, hcfg6]
  · rw [hentry, if_pos rfl]
  · have hi' : 8 ≤ i.val := hi
    rw [hframe i (by omega) (by omega) (ne_entry heid (by omega)).2]
    exact h.rest i hi

/-- An enclave gets its secure region, and the last pair becomes its shared region. -/
theorem PmpInvariants.resumed (h : PmpInvariants L m) (heid : eidIsValid eid)
    (hlive : (m.enclaves eid).status ≠ Status.free.val) (state : CpuState) :
    PmpInvariants L (resumed false L m eid state) := by
  rcases h.switch (e := { m.enclaves eid with status := Status.running.val, enclState := state })
      state heid hlive (Status.val_ne (s := .running) (by decide)) rfl rfl
      (PMPCFG_R ||| PMPCFG_W ||| PMPCFG_X) (PMPCFG_R ||| PMPCFG_W) (by decide) (by decide) rfl
      (m.enclaves eid).sharedLower (m.enclaves eid).sharedUpper rfl with ⟨hslot, hlast, hrest⟩
  have hmode : (1 : BitVec 8) ≠ 0 := by decide
  refine ⟨hslot, fun h => absurd h hmode, fun _ => ?_, hrest⟩
  simp only [Keystone.resumed, Function.update_self]
  exact hlast

/-- The enclave loses its secure region, and the last pair becomes the payload. -/
theorem PmpInvariants.exited (h : PmpInvariants L m) (heid : eidIsValid m.currentEnclave)
    (hlive : (m.enclaves m.currentEnclave).status ≠ Status.free.val) :
    PmpInvariants L (exited false L m) := by
  rcases h.switch (e := { m.enclaves m.currentEnclave with
        status := Status.idle.val
        enclState := saveCpuState m.csrs m.regs (m.enclaves m.currentEnclave).enclState })
      m.hostState heid hlive (Status.val_ne (s := .idle) (by decide)) rfl rfl
      0 (PMPCFG_R ||| PMPCFG_W ||| PMPCFG_X) (by decide) (by decide) rfl
      0 MAX_PAYLOAD_SIZE rfl with ⟨hslot, hlast, hrest⟩
  exact ⟨hslot, fun _ => hlast, fun hmode => absurd rfl hmode, hrest⟩

theorem CallStep.pmpInvariants {m' : Machine} {c : Call} {r : Word}
    (hstep : CallStep false L m c r m') (ht : TableInvariants m) (h : PmpInvariants L m) :
    PmpInvariants L m' := by
  cases hstep with
  | failed => exact h
  | create hmode heid hfree hsecure hshared hoverlap =>
      have hne := lowerEntry_ne_upperEntry heid heid
      refine h.setSlot hmode heid (g := remappedCsrs (chmodCsrs m.csrs _ 0) _ _ _)
        (slotOk_of_live (Status.val_ne (s := .fresh) (by decide)) ?_ ?_) ?_ _
      · rw [pmpEntry_remappedCsrs, if_neg hne, if_pos rfl, pmpEntry_chmodCsrs _ heid (by decide),
          if_neg hne, (h.slot _ heid).lower]
      · rw [pmpEntry_remappedCsrs, if_pos rfl, pmpEntry_chmodCsrs _ heid (by decide), if_pos rfl]
        rfl
      · intro i hl hu
        rw [pmpEntry_remappedCsrs, if_neg hu, if_neg hl, pmpEntry_chmodCsrs _ heid (by decide),
          if_neg hu]
  | destroy hmode heid hstatus =>
      have hne := lowerEntry_ne_upperEntry heid heid
      refine h.setSlot hmode heid (g := remappedCsrs m.csrs _ 0 0)
        ⟨?_, ?_, fun _ => ?_, fun hlive => absurd rfl hlive⟩ ?_ _
      · rw [pmpEntry_remappedCsrs, if_neg hne, if_pos rfl]
        exact (h.slot _ heid).lower
      · rw [pmpEntry_remappedCsrs, if_pos rfl]
        exact (h.slot _ heid).upper
      · rw [pmpEntry_remappedCsrs, pmpEntry_remappedCsrs, if_neg hne, if_pos rfl, if_pos rfl]
      · intro i hl hu
        rw [pmpEntry_remappedCsrs, if_neg hu, if_neg hl]
  | run hmode heid hstatus => exact h.resumed heid (not_free_of_startable hstatus) _
  | resume hmode heid hstatus => exact h.resumed heid (not_free_of_startable (.inl hstatus)) _
  | exit hmode heid =>
      refine h.exited heid ?_
      rw [(ht.running.current hmode).2]
      decide

end Steps

/-! ## Permissions -/

section Permissions

variable {L : Layout} {f : CsrFile} {eid : Word} {e : Enclave} {m : Machine}

theorem eids_valid {eid : Word} (h : eid ∈ eids) : eidIsValid eid := by
  have heids : eids = [0, 1, 2] := rfl
  rw [heids, List.mem_cons, List.mem_cons, List.mem_singleton] at h
  rcases h with rfl | rfl | rfl <;> decide

/-- The pair of a slot is its secure region. -/
theorem SlotOk.inPair_iff (h : SlotOk L f eid e) (he : e.Ok) (a : Word) :
    inPair (pmpEntry f (lowerEntry eid)) (pmpEntry f (upperEntry eid)) a ↔ e.inSecure L a := by
  by_cases hfree : e.status = Status.free.val
  · exact iff_of_false (not_inPair_of_eq (h.free hfree) a) (fun hin => hin.1 hfree)
  · rcases h.live hfree with ⟨hlower, hupper⟩
    rw [hlower, hupper, inPair_region (he.secure hfree)]
    · exact (and_iff_right hfree).symm
    · split <;> rfl

theorem SlotOk.perm (h : SlotOk L f eid e) (hlive : e.status ≠ Status.free.val) :
    (pmpEntry f (upperEntry eid)).perm = if e.status = Status.running.val then 7 else 0 := by
  rw [(h.live hlive).2, PmpEntry.perm_mk]
  split <;> rfl

variable (h : PmpInvariants L m)

include h

theorem PmpInvariants.off_of_even (i : Fin 16) (hi : i.val % 2 = 0) : (pmpEntry m.csrs i).mode = .off := by
  have hcases : ∀ i : Fin 16, i.val % 2 = 0 →
      i = lowerEntry 0 ∨ i = lowerEntry 1 ∨ i = lowerEntry 2 ∨ i = 6 ∨ 8 ≤ i := by
    decide
  have hcfg : (pmpEntry m.csrs i).cfg = 0 := by
    rcases hcases i hi with rfl | rfl | rfl | rfl | hi
    · exact (h.slot 0 (by decide)).lower
    · exact (h.slot 1 (by decide)).lower
    · exact (h.slot 2 (by decide)).lower
    · by_cases hmode : m.enclaveMode = 0
      · rw [(h.host hmode).lower]
      · rw [(h.enclave hmode).lower]
    · rw [h.rest i hi]
  rw [PmpEntry.mode, hcfg]
  rfl

theorem PmpInvariants.off_or_tor_of_odd (i : Fin 16) (hi : i.val % 2 = 1) :
    (pmpEntry m.csrs i).mode = .off ∨ (pmpEntry m.csrs i).mode = .tor := by
  have hcases : ∀ i : Fin 16, i.val % 2 = 1 →
      i = upperEntry 0 ∨ i = upperEntry 1 ∨ i = upperEntry 2 ∨ i = 7 ∨ 8 ≤ i := by
    decide
  rcases hcases i hi with rfl | rfl | rfl | rfl | hi
  · exact (h.slot 0 (by decide)).upper
  · exact (h.slot 1 (by decide)).upper
  · exact (h.slot 2 (by decide)).upper
  · refine .inr ?_
    by_cases hmode : m.enclaveMode = 0
    · rw [(h.host hmode).upper, PmpEntry.mode_mk]
      rfl
    · rw [(h.enclave hmode).upper, PmpEntry.mode_mk]
      rfl
  · rw [h.rest i hi]
    exact .inl rfl

variable (ht : TableInvariants m)

include ht

/-- The secure regions in order, and then the last pair. -/
theorem PmpInvariants.pmpPerm_eq (a : Word) :
    pmpPerm m.csrs a =
      if (m.enclaves 0).inSecure L a then (pmpEntry m.csrs (upperEntry 0)).perm
      else if (m.enclaves 1).inSecure L a then (pmpEntry m.csrs (upperEntry 1)).perm
      else if (m.enclaves 2).inSecure L a then (pmpEntry m.csrs (upperEntry 2)).perm
      else if inPair (pmpEntry m.csrs 6) (pmpEntry m.csrs 7) a then (pmpEntry m.csrs 7).perm
      else 0 := by
  have hslot : ∀ eid, eidIsValid eid →
      (inPair (pmpEntry m.csrs (lowerEntry eid)) (pmpEntry m.csrs (upperEntry eid)) a ↔
        (m.enclaves eid).inSecure L a) :=
    fun eid heid => (h.slot eid heid).inPair_iff (ht.regions.slot eid heid) a
  have h0 : inPair (pmpEntry m.csrs 0) (pmpEntry m.csrs 1) a ↔ _ := hslot 0 (by decide)
  have h1 : inPair (pmpEntry m.csrs 2) (pmpEntry m.csrs 3) a ↔ _ := hslot 1 (by decide)
  have h2 : inPair (pmpEntry m.csrs 4) (pmpEntry m.csrs 5) a ↔ _ := hslot 2 (by decide)
  have hrest : ∀ lo i : Fin 16, 8 ≤ i → ¬ inPair (pmpEntry m.csrs lo) (pmpEntry m.csrs i) a := by
    intro lo i hi
    refine not_inPair_of_off ?_ a
    rw [h.rest i hi]
    rfl
  rw [pmpPerm_pairs h.off_of_even h.off_or_tor_of_odd]
  simp only [h0, h1, h2, hrest 8 9 (by decide), hrest 10 11 (by decide), hrest 12 13 (by decide),
    hrest 14 15 (by decide), if_false]
  rfl

/-- A secure region is open to its enclave. -/
theorem PmpInvariants.pmpPerm_secure (heid : eidIsValid eid) {a : Word} (hin : (m.enclaves eid).inSecure L a) :
    pmpPerm m.csrs a = if (m.enclaves eid).status = Status.running.val then 7 else 0 := by
  have hother : ∀ j, eidIsValid j → eid ≠ j → ¬ (m.enclaves j).inSecure L a :=
    fun j hj hne => not_inSecure_of_apart (ht.regions.apart eid j heid hj hne) hin
  rw [h.pmpPerm_eq ht, ← (h.slot eid heid).perm hin.1]
  rcases eid_cases heid with rfl | rfl | rfl
  · rw [if_pos hin]
  · rw [if_neg (hother 0 (by decide) (by decide)), if_pos hin]
  · rw [if_neg (hother 0 (by decide) (by decide)), if_neg (hother 1 (by decide) (by decide)),
      if_pos hin]

/-- Everything else is up to the last pair. -/
theorem PmpInvariants.pmpPerm_last {a : Word} (hnot : ¬ m.inSecure L a) :
    pmpPerm m.csrs a =
      if inPair (pmpEntry m.csrs 6) (pmpEntry m.csrs 7) a then (pmpEntry m.csrs 7).perm else 0 := by
  have hnone : ∀ eid ∈ eids, ¬ (m.enclaves eid).inSecure L a :=
    fun eid heid hin => hnot ⟨eid, heid, hin⟩
  rw [h.pmpPerm_eq ht, if_neg (hnone 0 (mem_eids (by decide))),
    if_neg (hnone 1 (mem_eids (by decide))), if_neg (hnone 2 (mem_eids (by decide)))]

/-- Outside enclave mode. -/
theorem PmpInvariants.pmpPerm_host (hmode : m.enclaveMode = 0) (a : Word) :
    pmpPerm m.csrs a = if L.inRange 0 MAX_PAYLOAD_SIZE a ∧ ¬ m.inSecure L a then 7 else 0 := by
  by_cases hin : m.inSecure L a
  · rw [if_neg (fun hopen => hopen.2 hin)]
    rcases hin with ⟨eid, hmem, hin⟩
    have heid := eids_valid hmem
    rw [h.pmpPerm_secure ht heid hin]
    exact if_neg (fun hrunning => (ht.running.running eid heid hrunning).1 hmode)
  · have hpair : inPair (pmpEntry m.csrs 6) (pmpEntry m.csrs 7) a ↔ L.inRange 0 MAX_PAYLOAD_SIZE a := by
      rw [(h.host hmode).lower, (h.host hmode).upper]
      exact inPair_region payload_region rfl
    simp only [h.pmpPerm_last ht hin, hpair, hin, not_false_eq_true, and_true]
    rw [(h.host hmode).upper, PmpEntry.perm_mk]
    rfl

/-- In enclave mode. -/
theorem PmpInvariants.pmpPerm_enclave (hmode : m.enclaveMode ≠ 0) (a : Word) :
    pmpPerm m.csrs a =
      if (m.enclaves m.currentEnclave).inSecure L a then 7
      else if L.inRange (m.enclaves m.currentEnclave).sharedLower
          (m.enclaves m.currentEnclave).sharedUpper a ∧ ¬ m.inSecure L a then 3
      else 0 := by
  rcases ht.running.current hmode with ⟨hcur, hrunning⟩
  by_cases hin : m.inSecure L a
  · rcases hin with ⟨eid, hmem, hin⟩
    have heid := eids_valid hmem
    rw [h.pmpPerm_secure ht heid hin]
    by_cases heq : eid = m.currentEnclave
    · rw [heq, if_pos hrunning]
      rw [heq] at hin
      rw [if_pos hin]
    · have hnot := not_inSecure_of_apart (ht.regions.apart _ _ heid hcur heq) hin
      rw [if_neg (fun hrun => heq (ht.running.running eid heid hrun).2), if_neg hnot,
        if_neg (fun hopen => hopen.2 ⟨eid, hmem, hin⟩)]
  · have hshared : isRegionValid _ _ := (ht.regions.slot _ hcur).shared (by rw [hrunning]; decide)
    have hpair : inPair (pmpEntry m.csrs 6) (pmpEntry m.csrs 7) a ↔
        L.inRange (m.enclaves m.currentEnclave).sharedLower
          (m.enclaves m.currentEnclave).sharedUpper a := by
      rw [(h.enclave hmode).lower, (h.enclave hmode).upper]
      exact inPair_region hshared rfl
    rw [h.pmpPerm_last ht hin, if_neg (fun hcurIn => hin ⟨_, mem_eids hcur, hcurIn⟩)]
    simp only [hpair, hin, not_false_eq_true, and_true]
    rw [(h.enclave hmode).upper, PmpEntry.perm_mk]
    rfl

end Permissions

/-! ## Runs -/

/-- The machine after `init_enclave` and `pmp_init`. -/
def booted (L : Layout) (m : Machine) : Machine :=
  { initialised m with
    csrs := lastCsrs m.csrs (offsetToPhys L 0) (offsetToPhys L MAX_PAYLOAD_SIZE)
      (PMPCFG_R ||| PMPCFG_W ||| PMPCFG_X) }

theorem boot_eq (L : Layout) (m : Machine) :
    (do initEnclave; pmpInit false L : Monitor Unit) m = .ret () (booted L m) :=
  rfl

section Runs

variable {L : Layout} {m : Machine}

theorem booted_tableInvariants (L : Layout) (m : Machine) : TableInvariants (booted L m) :=
  ⟨(initialised_tableInvariants m).regions, (initialised_tableInvariants m).running⟩

theorem booted_pmpInvariants (hreset : ∀ i, pmpEntry m.csrs i = ⟨0, 0⟩) :
    PmpInvariants L (booted L m) := by
  have hentry : ∀ i : Fin 16, pmpEntry (booted L m).csrs i =
      if i = 7 then ⟨0xf, offsetToPhys L MAX_PAYLOAD_SIZE >>> 2⟩
      else if i = 6 then ⟨0, offsetToPhys L 0 >>> 2⟩
      else ⟨0, 0⟩ := by
    intro i
    rw [booted, pmpEntry_lastCsrs _ _ _ (by decide), hreset]
    rfl
  refine ⟨fun eid heid => ?_, fun _ => ⟨hentry 6, hentry 7⟩, fun hmode => absurd rfl hmode,
    fun i hi => ?_⟩
  · -- The slots are free, and their entries as they were at reset.
    have hslot : ∀ i : Fin 16, i.val < 6 → pmpEntry (booted L m).csrs i = ⟨0, 0⟩ := by
      intro i hi
      rw [hentry, if_neg (by omega), if_neg (by omega)]
    rcases entry_val heid with ⟨hlower, hupper, hlt⟩
    have hl := hslot (lowerEntry eid) (by omega)
    have hu := hslot (upperEntry eid) (by omega)
    refine ⟨by rw [hl], by rw [hu]; exact .inl rfl, fun _ => by rw [hl, hu], fun hlive => ?_⟩
    exact absurd (congrArg Enclave.status (initialised_enclave m heid)) hlive
  · have hi' : 8 ≤ i.val := hi
    rw [hentry, if_neg (by omega), if_neg (by omega)]

theorem runCalls_pmpInvariants (cs : List Call) :
    ∀ {m : Machine}, TableInvariants m → PmpInvariants L m →
      ∃ m', runCalls false L m cs = some m' ∧ TableInvariants m' ∧ PmpInvariants L m' := by
  induction cs with
  | nil =>
      intro m ht h
      exact ⟨m, rfl, ht, h⟩
  | cons c cs ih =>
      intro m ht h
      rcases exec_cases ht.callSafe false L c with ⟨r, m₁, hexec, hstep⟩
      rcases ih (hstep.tableInvariants ht) (hstep.pmpInvariants ht h) with ⟨m₂, hrun, h₂⟩
      refine ⟨m₂, ?_, h₂⟩
      rw [runCalls, hexec]
      exact hrun

/-- Who may use which byte, in every state that calls can reach.  The operating system has the payload
without the secure regions; an enclave has its secure region, and of its shared region what belongs to
no enclave, without the right to execute it. -/
theorem reachable_regionIsolation (L : Layout) (m₀ : Machine)
    (hreset : ∀ i, pmpEntry m₀.csrs i = ⟨0, 0⟩) (cs : List Call) :
    ∃ m, runCalls false L (booted L m₀) cs = some m ∧
      (m.enclaveMode = 0 → ∀ a, pmpPerm m.csrs a =
        if L.inRange 0 MAX_PAYLOAD_SIZE a ∧ ¬ m.inSecure L a then 7 else 0) ∧
      (m.enclaveMode ≠ 0 → ∀ a, pmpPerm m.csrs a =
        if (m.enclaves m.currentEnclave).inSecure L a then 7
        else if L.inRange (m.enclaves m.currentEnclave).sharedLower
            (m.enclaves m.currentEnclave).sharedUpper a ∧ ¬ m.inSecure L a then 3
        else 0) := by
  rcases runCalls_pmpInvariants cs (booted_tableInvariants L m₀) (booted_pmpInvariants hreset)
    with ⟨m, hrun, ht, h⟩
  exact ⟨m, hrun, h.pmpPerm_host ht, h.pmpPerm_enclave ht⟩

/-- An image that is loaded at `0x80000000`, with the payload behind the monitor. -/
def imageLayout : Layout where
  payloadStart := 0x80200000
  aligned := by decide
  fits := by decide

/-- A hart out of reset with cleared memory. -/
def resetMachine : Machine where
  enclaves := fun _ => zeroEnclave
  enclaveMode := 0
  currentEnclave := 0
  hostState := zeroCpuState
  payload := fun _ => 0
  csrs := fun _ => 0
  regs := fun _ => 0

/-- An enclave that has been created and started can use its own first byte and not the monitor's. -/
theorem reachable_regionIsolation_image :
    ∃ m, runCalls false imageLayout (booted imageLayout resetMachine)
        [.create 0 0x80200000 0 0x1000 0x1000 0x2000, .run 0] = some m ∧
      pmpPerm m.csrs 0x80200000 = 7 ∧ pmpPerm m.csrs 0x80000000 = 0 := by
  have hreset : ∀ i, pmpEntry resetMachine.csrs i = ⟨0, 0⟩ := by decide
  rcases reachable_regionIsolation imageLayout resetMachine hreset
    [.create 0 0x80200000 0 0x1000 0x1000 0x2000, .run 0] with ⟨m, hrun, _, henclave⟩
  have hend : (runCalls false imageLayout (booted imageLayout resetMachine)
      [.create 0 0x80200000 0 0x1000 0x1000 0x2000, .run 0]).map
        (fun m => (m.enclaveMode, m.currentEnclave, (m.enclaves 0).status, (m.enclaves 0).secureLower,
          (m.enclaves 0).secureUpper, (m.enclaves 0).sharedLower, (m.enclaves 0).sharedUpper)) =
      some (1, 0, Status.running.val, 0, 0x1000, 0x1000, 0x2000) := by
    rfl
  rw [hrun, Option.map_some, Option.some.injEq] at hend
  simp only [Prod.mk.injEq] at hend
  rcases hend with ⟨hmode, hcur, hstatus, hsecureLower, hsecureUpper, hsharedLower, hsharedUpper⟩
  have hperm := henclave (by rw [hmode]; decide)
  simp only [hcur, Enclave.inSecure, hstatus, hsecureLower, hsecureUpper, hsharedLower,
    hsharedUpper] at hperm
  refine ⟨m, hrun, ?_, ?_⟩
  · rw [hperm]
    exact if_pos (by decide)
  · rw [hperm, if_neg (by decide)]
    exact if_neg (fun hopen => absurd hopen.1 (by decide))

end Runs

end Keystone
end Serval
