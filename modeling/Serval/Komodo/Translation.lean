import Serval.Komodo.Runs
import Serval.Riscv.Sv39

/-!
# Translation — what an enclave reaches through its page tables

The tables an enclave runs on are words in secure pages, which the hardware walks.  Physical memory
protection lets an enclave reach the secure pages and the insecure ones; what keeps it to its own pages
is what the tables say.  A run with stores through translations is a run with the stores the
specification permits.
-/

namespace Serval
namespace Komodo

open Riscv

variable {p n : Word} {i : Nat} {L : Layout}

/-! ## Physical memory -/

/-- The monitor's memory lies in the 56-bit physical address space of Sv39. -/
structure Layout.Physical (L : Layout) : Prop where
  secure : L.securePages.toNat + 1024 * 4096 ≤ 2 ^ 56
  payload : L.payloadStart.toNat + 256 * 4096 ≤ 2 ^ 56

/-- The page frames that physical memory protection opens to an enclave. -/
inductive Frame
  | secure (pageno : Word)
  | insecure (pageno : Word)
  deriving DecidableEq, Repr

/-- The page a frame number stands for. -/
def Layout.frame (L : Layout) (pfn : Word) : Option Frame :=
  if pageValid (pfn - L.pfnSecurePages) then some (.secure (pfn - L.pfnSecurePages))
  else if insecurePageValid (pfn - L.pfnInsecurePages) then
    some (.insecure (pfn - L.pfnInsecurePages))
  else none

def Machine.readFrame (L : Layout) (m : Machine) (pfn index : Word) : Option Word :=
  match L.frame pfn with
  | some (.secure p) => some (m.securePages p index)
  | some (.insecure n) => some (m.payload n index)
  | none => none

def Machine.translate (L : Layout) (m : Machine) (va : Word) : Option Sv39.Mapping :=
  Sv39.translate (m.readFrame L) (csrRead m.csrs .satp) va

/-- A store of the running enclave.  Where it faults nothing is written. -/
def Machine.store (L : Layout) (m : Machine) (va value : Word) : Machine :=
  if m.enclaveMode ≠ 0 then
    match m.translate L va with
    | some ⟨pfn, true⟩ =>
        match L.frame pfn with
        | some (.secure p) =>
            { m with securePages := updateCell m.securePages p (Sv39.wordIndex va) value }
        | some (.insecure n) =>
            { m with payload := updateCell m.payload n (Sv39.wordIndex va) value }
        | none => m
    | _ => m
  else
    m

/-! ## Frame numbers -/

section Pfn

variable {L : Layout}

theorem pageToPfn_toNat (L : Layout) (hp : pageValid p) :
    (L.pageToPfn p).toNat = p.toNat + L.securePages.toNat / 4096 := by
  have hlt : p.toNat < 1024 := hp
  have hfits := L.secure_fits
  have hbase : L.pfnSecurePages.toNat = L.securePages.toNat / 4096 := BitVec.toNat_udiv
  rw [Layout.pageToPfn, BitVec.toNat_add, hbase]
  exact Nat.mod_eq_of_lt (by omega)

theorem insecurePageToPfn_toNat (L : Layout) (hn : insecurePageValid n) :
    (L.insecurePageToPfn n).toNat = n.toNat + L.payloadStart.toNat / 4096 := by
  have hlt : n.toNat < 256 := hn
  have hfits := L.payload_fits
  have hbase : L.pfnInsecurePages.toNat = L.payloadStart.toNat / 4096 := BitVec.toNat_udiv
  rw [Layout.insecurePageToPfn, BitVec.toNat_add, hbase]
  exact Nat.mod_eq_of_lt (by omega)

theorem frame_pageToPfn (L : Layout) (hp : pageValid p) : L.frame (L.pageToPfn p) = some (.secure p) := by
  have hsub : L.pageToPfn p - L.pfnSecurePages = p := BitVec.add_sub_cancel _ _
  rw [Layout.frame, hsub, if_pos hp]

theorem frame_insecurePageToPfn (L : Layout) (hn : insecurePageValid n) :
    L.frame (L.insecurePageToPfn n) = some (.insecure n) := by
  have hsub : L.insecurePageToPfn n - L.pfnInsecurePages = n := BitVec.add_sub_cancel _ _
  -- the two arrays do not overlap
  have hsecure : ¬ pageValid (L.insecurePageToPfn n - L.pfnSecurePages) := by
    intro hp
    have hp' := pageToPfn_toNat L hp
    have hcancel : L.pageToPfn (L.insecurePageToPfn n - L.pfnSecurePages) = L.insecurePageToPfn n :=
      BitVec.sub_add_cancel _ _
    rw [hcancel, insecurePageToPfn_toNat L hn] at hp'
    have hlt : (L.insecurePageToPfn n - L.pfnSecurePages).toNat < 1024 := hp
    have hn' : n.toNat < 256 := hn
    have hs := L.secure_aligned
    have hi := L.payload_aligned
    have hdisjoint := L.disjoint
    omega
  rw [Layout.frame, if_neg hsecure, hsub, if_pos hn]

theorem pageToPfn_lt (hphys : L.Physical) (hp : pageValid p) : (L.pageToPfn p).toNat < 2 ^ 44 := by
  have hlt : p.toNat < 1024 := hp
  have hfits := hphys.secure
  have haligned := L.secure_aligned
  rw [pageToPfn_toNat L hp]
  omega

theorem insecurePageToPfn_lt (hphys : L.Physical) (hn : insecurePageValid n) :
    (L.insecurePageToPfn n).toNat < 2 ^ 44 := by
  have hlt : n.toNat < 256 := hn
  have hfits := hphys.payload
  have haligned := L.payload_aligned
  rw [insecurePageToPfn_toNat L hn]
  omega

end Pfn

/-! ## Entries -/

section Entries

variable {pfn prot : Word}

theorem getLsbD_of_lt {x : Word} {k : Nat} (h : x.toNat < 2 ^ k) (hi : k ≤ i) : x.getLsbD i = false := by
  have hlt : x.toNat < 2 ^ i := Nat.lt_of_lt_of_le h (Nat.pow_le_pow_right (by decide) hi)
  exact Nat.testBit_lt_two_pow hlt

/-- The mask of the PPN fields. -/
theorem ppnMask_getLsbD (hi : i < 64) : (0xfffffffffff : Word).getLsbD i = decide (i < 44) := by
  have hmask : (0xfffffffffff : Word) = BitVec.ofNat 64 (2 ^ 44 - 1) := rfl
  rw [hmask, BitVec.getLsbD_ofNat, Nat.testBit_two_pow_sub_one]
  simp [hi]

/-- The flags of an entry. -/
theorem pfnToPte_getLsbD (pfn prot : Word) (hi : i < 10) : (pfnToPte pfn prot).getLsbD i = prot.getLsbD i := by
  simp [pfnToPte, BitVec.getLsbD_or, BitVec.getLsbD_shiftLeft, hi]

/-- The frame number of an entry. -/
theorem ppn_pfnToPte (hpfn : pfn.toNat < 2 ^ 44) (hprot : prot.toNat < 2 ^ 10) :
    Sv39.ppn (pfnToPte pfn prot) = pfn := by
  apply BitVec.eq_of_getLsbD_eq
  intro i hi
  have hprot' : prot.getLsbD (10 + i) = false := getLsbD_of_lt hprot (by omega)
  simp only [Sv39.ppn, pfnToPte, BitVec.getLsbD_and, BitVec.getLsbD_ushiftRight, BitVec.getLsbD_or,
    BitVec.getLsbD_shiftLeft, hprot', ppnMask_getLsbD hi]
  by_cases h44 : i < 44
  · simp [h44]
    omega
  · simp [h44, getLsbD_of_lt hpfn (Nat.le_of_not_lt h44)]

/-- The reserved bits of an entry. -/
theorem pfnToPte_reserved (hpfn : pfn.toNat < 2 ^ 44) (hprot : prot.toNat < 2 ^ 10) :
    pfnToPte pfn prot >>> 54 = 0 := by
  apply BitVec.eq_of_getLsbD_eq
  intro i hi
  have hprot' : prot.getLsbD (54 + i) = false := getLsbD_of_lt hprot (by omega)
  have hpfn' : pfn.getLsbD (54 + i - 10) = false := getLsbD_of_lt hpfn (by omega)
  simp [pfnToPte, BitVec.getLsbD_or, BitVec.getLsbD_shiftLeft, hprot', hpfn']

theorem enclaveProt_toNat_lt (mapping : Word) : (enclaveProt mapping).toNat < 2 ^ 10 := by
  have hand : (mapping &&& PAGE_RWX).toNat < 2 ^ 10 := by
    rw [BitVec.toNat_and]
    exact Nat.lt_of_le_of_lt Nat.and_le_right (by decide)
  have hflags : PAGE_ENCLAVE.toNat < 2 ^ 10 := by decide
  rw [enclaveProt, BitVec.toNat_or]
  exact Nat.or_lt_two_pow hand hflags

/-- A `satp` value with its root table. -/
theorem satp_fields (hpfn : pfn.toNat < 2 ^ 44) :
    Sv39.satpMode (SATP_MODE_SV39 ||| pfn) = 8 ∧ Sv39.satpPpn (SATP_MODE_SV39 ||| pfn) = pfn := by
  constructor
  · have hpfn' : pfn >>> 60 = 0 := by
      apply BitVec.eq_of_getLsbD_eq
      intro i hi
      simp [getLsbD_of_lt hpfn (show 44 ≤ 60 + i by omega)]
    rw [Sv39.satpMode, BitVec.ushiftRight_or_distrib, hpfn']
    decide
  · apply BitVec.eq_of_getLsbD_eq
    intro i hi
    have hmode : SATP_MODE_SV39 &&& 0xfffffffffff = 0 := by decide
    have hmode' : (SATP_MODE_SV39.getLsbD i && decide (i < 44)) = false := by
      rw [← ppnMask_getLsbD hi, ← BitVec.getLsbD_and, hmode]
      simp
    rw [Sv39.satpPpn, BitVec.getLsbD_and, BitVec.getLsbD_or, ppnMask_getLsbD hi,
      Bool.and_or_distrib_right, hmode', Bool.false_or]
    by_cases h44 : i < 44
    · simp [h44]
    · simp [h44, getLsbD_of_lt hpfn (Nat.le_of_not_lt h44)]

/-- An entry for a page of the next table. -/
theorem tableEntry_pointer (hpfn : pfn.toNat < 2 ^ 44) :
    Sv39.isFault (pfnToPte pfn PAGE_TABLE) = false ∧ Sv39.isLeaf (pfnToPte pfn PAGE_TABLE) = false ∧
      Sv39.ppn (pfnToPte pfn PAGE_TABLE) = pfn := by
  have hprot : PAGE_TABLE.toNat < 2 ^ 10 := by decide
  refine ⟨?_, ?_, ppn_pfnToPte hpfn hprot⟩
  · rw [Sv39.isFault, Sv39.isValid, Sv39.isReadable, Sv39.isWritable, pfnToPte_reserved hpfn hprot,
      pfnToPte_getLsbD _ _ (by decide), pfnToPte_getLsbD _ _ (by decide),
      pfnToPte_getLsbD _ _ (by decide)]
    decide
  · rw [Sv39.isLeaf, Sv39.isReadable, Sv39.isExecutable, pfnToPte_getLsbD _ _ (by decide),
      pfnToPte_getLsbD _ _ (by decide)]
    decide

end Entries

/-! ## The walk of an enclave -/

section Walk

variable {L : Layout} {m : Machine} {a : Word}

/-- The words of a secure page as the walker reads them. -/
theorem readFrame_secure (m : Machine) (hp : pageValid p) (i : Word) :
    m.readFrame L (L.pageToPfn p) i = some (m.securePages p i) := by
  simp [Machine.readFrame, frame_pageToPfn L hp]

/-- One level of the walk: the table `p`, whose entries point to tables of type `u`. -/
theorem walk_level (hphys : L.Physical) {u : PageType} {vpn : Nat → Word} {level : Nat} (hp : pageValid p)
    (hentry : m.securePages p (vpn (level + 1)) = 0 ∨ ∃ q, implPageTyped m q u ∧ (m.gPagedb q).addrspacePage = a ∧
      m.securePages p (vpn (level + 1)) = pfnToPte (L.pageToPfn q) PAGE_TABLE)
    {mapping : Sv39.Mapping} (hwalk : Sv39.walk (m.readFrame L) vpn (level + 1) (L.pageToPfn p) = some mapping) :
    ∃ q, implPageTyped m q u ∧ (m.gPagedb q).addrspacePage = a ∧
      Sv39.walk (m.readFrame L) vpn level (L.pageToPfn q) = some mapping := by
  have hread := readFrame_secure (L := L) m hp (vpn (level + 1))
  rcases hentry with hzero | ⟨q, hq, howner, hword⟩
  · rw [hzero] at hread
    rw [Sv39.walk_of_fault hread (by decide)] at hwalk
    cases hwalk
  · rw [hword] at hread
    rcases tableEntry_pointer (pageToPfn_lt hphys hq.1) with ⟨hfault, hleaf, hppn⟩
    rw [Sv39.walk_of_pointer hread hfault hleaf, hppn] at hwalk
    exact ⟨q, hq, howner, hwalk⟩

/-- The page tables of the running enclave. -/
structure EnclaveTables (L : Layout) (m : Machine) (a : Word) : Prop where
  root : implPageTyped m (m.securePages a KOM_ADDRSPACE_L1PT_PAGE) .l1ptable ∧
    (m.gPagedb (m.securePages a KOM_ADDRSPACE_L1PT_PAGE)).addrspacePage = a
  satp : csrRead m.csrs .satp
    = SATP_MODE_SV39 ||| L.pageToPfn (m.securePages a KOM_ADDRSPACE_L1PT_PAGE)
  entry : ∀ {p i : Word} {t : PageType}, implPageTyped m p t → (m.gPagedb p).addrspacePage = a →
    pageIndexValid i → t = .l1ptable ∨ t = .l2ptable ∨ t = .l3ptable →
    m.securePages p i = 0 ∨ TableEntry L (absFunction (initGhost 0) m) a t (m.securePages p i)

theorem RunInvariants.enclaveTables (h : RunInvariants L m) (hmode : m.enclaveMode ≠ 0) :
    EnclaveTables L m m.curAddrspace := by
  rcases h.state with ⟨g, hown, hpgtable⟩
  have hmode' : (absFunction g m).enclaveMode = true := decide_eq_true hmode
  rcases hown.enclave hmode' with ⟨hd, hfinal, hcur⟩
  have ha : (absFunction g m).pageTyped m.curAddrspace .addrspace :=
    hown.owner_addrspace (pageNonfree_of_pageTyped hd (by decide))
  have hlive : (absFunction g m).live m.curAddrspace :=
    ⟨ha, fun hstopped => by cases addrspaceIn_unique hfinal hstopped⟩
  have hself : (absFunction g m).pagedbAddrspace m.curAddrspace = m.curAddrspace :=
    hown.self_owned ha
  have hpage := hpgtable.page m.curAddrspace (pageNonfree_of_pageTyped ha (by decide))
    (by rw [hself]; exact hlive)
  refine ⟨hpage.root ha, ?_, ?_⟩
  · have hsatp := hpgtable.running hmode'
    rw [hcur] at hsatp
    exact hsatp
  · intro p i t hp howner hi ht
    have hnonfree : (absFunction g m).pageNonfree p :=
      pageNonfree_of_pageTyped hp (by rcases ht with rfl | rfl | rfl <;> decide)
    have howner' : (absFunction g m).pagedbAddrspace p = m.curAddrspace := howner
    have hok := hpgtable.page p hnonfree (by rw [howner']; exact hlive)
    have hentry := hok.entries t i hp hi ht
    rw [howner'] at hentry
    -- entries do not depend on the ghost state
    exact hentry.imp_right (fun hentry => hentry.mono ⟨fun hq _ ho => ⟨hq, ho⟩, rfl⟩)

/-- Every address of an enclave that is mapped leads to one of its data pages, or to an insecure
page. -/
theorem EnclaveTables.translate (h : EnclaveTables L m a) (hphys : L.Physical) {va : Word}
    {mapping : Sv39.Mapping} (htranslate : m.translate L va = some mapping) :
    (∃ p, L.frame mapping.frame = some (.secure p) ∧ implPageTyped m p .data ∧
      (m.gPagedb p).addrspacePage = a) ∨
    ∃ n, L.frame mapping.frame = some (.insecure n) ∧ insecurePageValid n := by
  rcases h.root with ⟨hroot, howner₁⟩
  rcases satp_fields (pageToPfn_lt hphys hroot.1) with ⟨hmode, hppn⟩
  have hwalk : Sv39.walk (m.readFrame L) (Sv39.vpn va) 2
      (L.pageToPfn (m.securePages a KOM_ADDRSPACE_L1PT_PAGE)) = some mapping := by
    rw [Machine.translate, h.satp, Sv39.translate, hmode, hppn, if_neg (by decide)] at htranslate
    split at htranslate
    · exact htranslate
    · cases htranslate
  have hvpn : ∀ level, pageIndexValid (Sv39.vpn va level) := Sv39.vpn_lt va
  -- two levels of pointers, then a leaf
  rcases walk_level hphys hroot.1 (h.entry hroot howner₁ (hvpn 2) (.inl rfl)) hwalk
    with ⟨p₂, hp₂, howner₂, hwalk₂⟩
  rcases walk_level hphys hp₂.1 (h.entry hp₂ howner₂ (hvpn 1) (.inr (.inl rfl))) hwalk₂
    with ⟨p₃, hp₃, howner₃, hwalk₃⟩
  rcases Sv39.walk_zero (readFrame_secure m hp₃.1 _) hwalk₃ with ⟨hframe, hfault⟩
  rw [hframe]
  rcases h.entry hp₃ howner₃ (hvpn 0) (.inr (.inr rfl)) with hzero | hentry
  · rw [hzero] at hfault
    exact absurd hfault (by decide)
  · rcases hentry with ⟨q, map, hq, howner, hword⟩ | ⟨n, map, hn, hword⟩
    · rw [hword, ppn_pfnToPte (pageToPfn_lt hphys hq.1) (enclaveProt_toNat_lt map)]
      exact .inl ⟨q, frame_pageToPfn L hq.1, hq, howner⟩
    · rw [hword, ppn_pfnToPte (insecurePageToPfn_lt hphys hn) (enclaveProt_toNat_lt map)]
      exact .inr ⟨n, frame_insecurePageToPfn L hn, hn⟩

end Walk

/-! ## Runs with stores through translations -/

inductive HwEvent
  | event (e : Event)
  -- the enclave stores a word at a virtual address
  | store (va value : Word)

def Machine.hwStep (L : Layout) (m : Machine) : HwEvent → Option Machine
  | .event e => m.step L e
  | .store va value => some (m.store L va value)

def runHwEvents (L : Layout) : Machine → List HwEvent → Option Machine
  | m, [] => some m
  | m, e :: es =>
      match m.hwStep L e with
      | some m' => runHwEvents L m' es
      | none => none

/-- A store through a translation is a store the specification permits. -/
theorem store_runInvariants {m : Machine} (hphys : L.Physical) (h : RunInvariants L m) (va value : Word) :
    RunInvariants L (m.store L va value) := by
  have hindex : pageIndexValid (Sv39.wordIndex va) := Sv39.wordIndex_lt va
  -- what is stored is stored by an event
  have hevent : ∀ {e : Event} {m' : Machine}, m.step L e = some m' → RunInvariants L m' := by
    intro e m' he
    rcases step_runInvariants h e with ⟨m₁, hstep, h₁⟩
    exact Option.some.inj (hstep.symm.trans he) ▸ h₁
  by_cases hmode : m.enclaveMode ≠ 0
  · have htables := h.enclaveTables hmode
    rw [Machine.store, if_pos hmode]
    cases htranslate : m.translate L va with
    | none => exact h
    | some mapping =>
        rcases mapping with ⟨pfn, writable⟩
        cases writable with
        | false => exact h
        | true =>
            rcases htables.translate hphys htranslate with ⟨p, hframe, hp, howner⟩ | ⟨n, hframe, hn⟩
            · simp only [hframe]
              have hmay : m.enclaveMay p (Sv39.wordIndex va) := ⟨hmode, hindex, hp, howner⟩
              exact hevent (e := .enclaveWrite p (Sv39.wordIndex va) value) (if_pos hmay)
            · simp only [hframe]
              exact hevent (e := .insecureWrite n (Sv39.wordIndex va) value) (if_pos ⟨hn, hindex⟩)
  · rw [Machine.store, if_neg hmode]
    exact h

theorem runHwEvents_runInvariants (hphys : L.Physical) (es : List HwEvent) :
    ∀ {m : Machine}, RunInvariants L m →
      ∃ m', runHwEvents L m es = some m' ∧ RunInvariants L m' := by
  induction es with
  | nil =>
      intro m h
      exact ⟨m, rfl, h⟩
  | cons e es ih =>
      intro m h
      have hstep : ∃ m₁, m.hwStep L e = some m₁ ∧ RunInvariants L m₁ := by
        cases e with
        | event e => exact step_runInvariants h e
        | store va value => exact ⟨_, rfl, store_runInvariants hphys h va value⟩
      rcases hstep with ⟨m₁, hstep, h₁⟩
      rcases ih h₁ with ⟨m₂, hruns, h₂⟩
      refine ⟨m₂, ?_, h₂⟩
      rw [runHwEvents, hstep]
      exact hruns

/-- What the entries at three indices say in the address space `a`, level by level. -/
def WalkConfined (L : Layout) (m : Machine) (a i j k : Word) : Prop :=
  let root := m.securePages a KOM_ADDRSPACE_L1PT_PAGE
  m.securePages root i ≠ 0 →
    ∃ p₂, implPageTyped m p₂ .l2ptable ∧ (m.gPagedb p₂).addrspacePage = a ∧
      Sv39.ppn (m.securePages root i) = L.pageToPfn p₂ ∧
      (m.securePages p₂ j ≠ 0 →
        ∃ p₃, implPageTyped m p₃ .l3ptable ∧ (m.gPagedb p₃).addrspacePage = a ∧
          Sv39.ppn (m.securePages p₂ j) = L.pageToPfn p₃ ∧
          (m.securePages p₃ k ≠ 0 →
            (∃ q, implPageTyped m q .data ∧ (m.gPagedb q).addrspacePage = a ∧
              Sv39.ppn (m.securePages p₃ k) = L.pageToPfn q) ∨
            ∃ n, insecurePageValid n ∧ Sv39.ppn (m.securePages p₃ k) = L.insecurePageToPfn n))

theorem EnclaveTables.walkConfined {m : Machine} {a : Word} (h : EnclaveTables L m a) (hphys : L.Physical)
    {i j k : Word} (hi : pageIndexValid i) (hj : pageIndexValid j) (hk : pageIndexValid k) :
    WalkConfined L m a i j k := by
  have hpointer : ∀ {q e : Word}, pageValid q → e = pfnToPte (L.pageToPfn q) PAGE_TABLE →
      Sv39.ppn e = L.pageToPfn q := by
    rintro q e hq rfl
    exact (tableEntry_pointer (pageToPfn_lt hphys hq)).2.2
  rcases h.root with ⟨hroot, howner₁⟩
  intro hi₁
  rcases (h.entry hroot howner₁ hi (.inl rfl)).resolve_left hi₁ with ⟨p₂, hp₂, howner₂, hword₂⟩
  refine ⟨p₂, hp₂, howner₂, hpointer hp₂.1 hword₂, fun hj₂ => ?_⟩
  rcases (h.entry hp₂ howner₂ hj (.inr (.inl rfl))).resolve_left hj₂ with
    ⟨p₃, hp₃, howner₃, hword₃⟩
  refine ⟨p₃, hp₃, howner₃, hpointer hp₃.1 hword₃, fun hk₃ => ?_⟩
  rcases (h.entry hp₃ howner₃ hk (.inr (.inr rfl))).resolve_left hk₃ with
    ⟨q, map, hq, howner, hword⟩ | ⟨n, map, hn, hword⟩
  · rw [hword, ppn_pfnToPte (pageToPfn_lt hphys hq.1) (enclaveProt_toNat_lt map)]
    exact .inl ⟨q, hq, howner, rfl⟩
  · rw [hword, ppn_pfnToPte (insecurePageToPfn_lt hphys hn) (enclaveProt_toNat_lt map)]
    exact .inr ⟨n, hn, rfl⟩

/-- Isolation on the real page tables.  Whenever an enclave runs, `satp` holds the root of its address
space, every entry of its tables points to a table or a data page of the same address space, or to an
insecure page, and so does every translation: no address leads to a page table, an address space, a
dispatcher, a page of somebody else, a free page or memory of the monitor. -/
theorem reachable_isolation (L : Layout) (hphys : L.Physical) (frame : PtRegs) (hartid dtb : Word)
    (m₀ : Machine) (es : List HwEvent) :
    ∃ m, runHwEvents L (booted L frame hartid dtb m₀) es = some m ∧
      (m.enclaveMode ≠ 0 →
        let a := m.curAddrspace
        let root := m.securePages a KOM_ADDRSPACE_L1PT_PAGE
        (implPageTyped m root .l1ptable ∧ (m.gPagedb root).addrspacePage = a) ∧
        csrRead m.csrs .satp = SATP_MODE_SV39 ||| L.pageToPfn root ∧
        (∀ i j k, pageIndexValid i → pageIndexValid j → pageIndexValid k →
          WalkConfined L m a i j k) ∧
        ∀ va mapping, m.translate L va = some mapping →
          (∃ p, L.frame mapping.frame = some (.secure p) ∧ implPageTyped m p .data ∧
            (m.gPagedb p).addrspacePage = a) ∨
          ∃ n, L.frame mapping.frame = some (.insecure n) ∧ insecurePageValid n) := by
  rcases runHwEvents_runInvariants hphys es (booted_runInvariants L frame hartid dtb m₀) with
    ⟨m, hrun, h⟩
  refine ⟨m, hrun, fun hmode => ?_⟩
  have htables := h.enclaveTables hmode
  exact ⟨htables.root, htables.satp, fun i j k hi hj hk => htables.walkConfined hphys hi hj hk,
    fun va mapping => htables.translate hphys⟩

/-- The host calls the monitor. -/
def hostCall (a7 a0 a1 a2 a3 : Word) : List HwEvent :=
  [.event (.run (fun r => match r with
      | .a7 => a7
      | .a0 => a0
      | .a1 => a1
      | .a2 => a2
      | .a3 => a3
      | _ => 0) (fun _ => 0)),
    .event (.trap EXC_ECALL_S)]

/-- The host builds an enclave with one data page, enters it, and the enclave stores to that page. -/
theorem reachable_isolation_entered :
    ∃ L : Layout, L.Physical ∧ ∃ m,
      runHwEvents L (booted L (fun _ => 0) 0 0 (resetMachine L))
        (hostCall KOM_SMC_INIT_ADDRSPACE 0 1 0 0 ++ hostCall KOM_SMC_INIT_DISPATCHER 2 0 0x1000 0 ++
          hostCall KOM_SMC_INIT_L2PTABLE 3 1 0 0 ++ hostCall KOM_SMC_INIT_L3PTABLE 4 3 0 0 ++
          hostCall KOM_SMC_MAP_SECURE 5 4 1 PAGE_RWX ++ hostCall KOM_SMC_FINALISE 0 0 0 0 ++
          hostCall KOM_SMC_ENTER 2 7 8 9 ++ [.store 0x1008 0x2a]) = some m ∧
      m.enclaveMode = 1 ∧ m.securePages 5 1 = 0x2a ∧
      csrRead m.csrs .satp =
        SATP_MODE_SV39 ||| L.pageToPfn (m.securePages m.curAddrspace KOM_ADDRSPACE_L1PT_PAGE) := by
  refine ⟨imageLayout, ⟨by decide, by decide⟩, ?_⟩
  rcases reachable_isolation imageLayout ⟨by decide, by decide⟩ (fun _ => 0) 0 0
      (resetMachine imageLayout)
      (hostCall KOM_SMC_INIT_ADDRSPACE 0 1 0 0 ++ hostCall KOM_SMC_INIT_DISPATCHER 2 0 0x1000 0 ++
        hostCall KOM_SMC_INIT_L2PTABLE 3 1 0 0 ++ hostCall KOM_SMC_INIT_L3PTABLE 4 3 0 0 ++
        hostCall KOM_SMC_MAP_SECURE 5 4 1 PAGE_RWX ++ hostCall KOM_SMC_FINALISE 0 0 0 0 ++
        hostCall KOM_SMC_ENTER 2 7 8 9 ++ [.store 0x1008 0x2a]) with ⟨m, hrun, hisolated⟩
  have hstate : some (m.enclaveMode, m.securePages 5 1) = some (1, 0x2a) := by
    refine (congrArg (Option.map fun m => (m.enclaveMode, m.securePages 5 1)) hrun).symm.trans ?_
    decide +kernel
  rcases Prod.mk.inj (Option.some.inj hstate) with ⟨hmode, hword⟩
  exact ⟨m, hrun, hmode, hword, (hisolated (by rw [hmode]; decide)).2.1⟩

end Komodo
end Serval
