import Serval.Certikos.Refinement

/-!
# Runs — the monitor together with its processes

Between two traps the current process computes: it may change all its registers and S-mode CSRs and
store to the pages of its region, as the process table has it.  That physical memory protection lets it
do just this is shown for every reachable machine in `Protection` and `EndToEnd`.  A run is a sequence of
such events and of system calls.  Every run of the machine is a run of the specification, so what holds
of the latter in all reachable states holds of the code.
-/

namespace Serval
namespace Certikos

open Riscv

inductive Event
  -- the process computes, ending with these registers and S-mode CSRs
  | run (gpr : PtRegs) (csr : SavedCsr → Word)
  | store (page off : Word) (value : BitVec 8)
  | ecall

/-- One event; `none` is a bug of the monitor. -/
def Machine.step (L : Layout) (m : Machine) : Event → Option Machine
  | .run gpr csr => some { m with regs := gpr, csrs := restoreCsrs csrsH m.csrs csr }
  | .store page off value =>
      if ((m.procs m.currentPid).lower ≤ page ∧ page < (m.procs m.currentPid).upper) ∧
          poffsetValid off then
        some { m with pages := updateWhere₂ m.pages (fun p => p = page) (fun o => o = off) value }
      else
        -- an access fault, which the process handles itself
        some m
  | .ecall => trapEcallS L m

def runEvents (L : Layout) : Machine → List Event → Option Machine
  | m, [] => some m
  | m, e :: es =>
      match m.step L e with
      | some m' => runEvents L m' es
      | none => none

/-- The specification's name for an event; CSRs keep the bits they can hold. -/
def Event.choice : Event → Choice
  | .run gpr csr => .havocRegs ⟨gpr, fun c => csr c &&& c.toCsr.mask⟩
  | .store page off value => .write page off value
  | .ecall => .syscall

/-- One event of the machine is one step of the specification. -/
theorem step_simulates (L : Layout) {m : Machine} (hinv : MregionsInvariants m)
    (pageOwner : Word → Word) (e : Event) :
    ∃ m' pageOwner', m.step L e = some m' ∧ MregionsInvariants m' ∧
      absFunction pageOwner' m' = specStep L (absFunction pageOwner m) e.choice := by
  cases e with
  | run gpr csr =>
      refine ⟨_, pageOwner, rfl, ?_, ?_⟩
      · exact .of_table ((hinv.table pageOwner).of_sameTable (specWriteRegs_sameTable _ ⟨gpr, _⟩))
          hinv.savedCsrsOk
      · simp only [absFunction, readCsrs_restoreCsrs_mask]
        rfl
  | store page off value =>
      by_cases hok : ((m.procs m.currentPid).lower ≤ page ∧
          page < (m.procs m.currentPid).upper) ∧ poffsetValid off
      · have hspec : specWrite (absFunction pageOwner m) page off value
            = absFunction pageOwner { m with
                pages := updateWhere₂ m.pages (fun p => p = page) (fun o => o = off) value } :=
          if_pos hok
        have htable := (hinv.table pageOwner).of_sameTable (specWrite_sameTable _ page off value)
        rw [hspec] at htable
        exact ⟨_, pageOwner, if_pos hok, .of_table htable hinv.savedCsrsOk, hspec.symm⟩
      · exact ⟨m, pageOwner, if_neg hok, hinv, (if_neg hok).symm⟩
  | ecall =>
      rcases trapEcallS_implements L pageOwner hinv with ⟨m', hrun, hinv', _, pageOwner', habs⟩
      exact ⟨m', pageOwner', hrun, hinv', habs⟩

/-- Every run of the machine goes through and is a run of the specification. -/
theorem runEvents_simulates (L : Layout) (evs : List Event) :
    ∀ {m : Machine}, MregionsInvariants m → ∀ pageOwner : Word → Word,
      ∃ m' pageOwner', runEvents L m evs = some m' ∧ MregionsInvariants m' ∧
        absFunction pageOwner' m' = specRun L (absFunction pageOwner m) (evs.map Event.choice) := by
  induction evs with
  | nil =>
      intro m hinv pageOwner
      exact ⟨m, pageOwner, rfl, hinv, rfl⟩
  | cons e evs ih =>
      intro m hinv pageOwner
      rcases step_simulates L hinv pageOwner e with ⟨m₁, pageOwner₁, hstep, hinv₁, habs₁⟩
      rcases ih hinv₁ pageOwner₁ with ⟨m₂, pageOwner₂, hruns, hinv₂, habs₂⟩
      refine ⟨m₂, pageOwner₂, ?_, hinv₂, ?_⟩
      · rw [runEvents, hstep]
        exact hruns
      · rw [habs₂, habs₁]
        rfl

end Certikos
end Serval
