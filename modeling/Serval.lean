import Serval.Lib.Control
import Serval.Lib.Noninterference
import Serval.Riscv.Platform
import Serval.Certikos.Monitor
import Serval.Certikos.Invariants
import Serval.Certikos.Representation
import Serval.Certikos.Refinement
import Serval.Certikos.Runs
import Serval.Lib.Tiling
import Serval.Lib.RoundRobin
import Serval.Certikos.Quota
import Serval.Certikos.Schedule
import Serval.Certikos.Waiting
import Serval.Certikos.Observation
import Serval.Certikos.NickelNi
import Serval.Certikos.Isolation
import Serval.Certikos.EndToEnd
import Serval.Komodo.Spec
import Serval.Komodo.Monitor
import Serval.Komodo.Calls
import Serval.Komodo.Invariants
import Serval.Komodo.Representation
import Serval.Komodo.Refinement
import Serval.Komodo.Boot
import Serval.Komodo.Ownership
import Serval.Komodo.Footprint
import Serval.Komodo.Observation
import Serval.Komodo.NickelNi
import Serval.Komodo.PageTables
import Serval.Komodo.Runs
import Serval.Komodo.Translation
import Serval.Core.Memory
import Serval.Lib.DoubleWord
import Serval.Lib.Fragment
import Serval.Riscv.Cpu
import Serval.Riscv.Interp
import Serval.Riscv.Isa
import Serval.Riscv.Conformance
import Serval.Riscv.Views
import Serval.Bpf.Interp
import Serval.Bpf.Jit.Common
import Serval.Bpf.Jit.Riscv32
import Serval.Bpf.Jit.Riscv32State
import Serval.Bpf.Jit.Riscv32Alu
import Serval.Bpf.Jit.Riscv32Correct
import Serval.Bpf.Jit.Riscv64
import Serval.Bpf.Jit.Riscv64Correct
import Serval.Bpf.Jit.LinuxRiscv64
import Serval.Bpf.Jit.LinuxRiscv64Constants
import Serval.Bpf.Jit.LinuxRiscv64Alu
import Serval.Bpf.Jit.LinuxRiscv64Correct
import Serval.Riscv.Pmp
import Serval.Riscv.PmpPrivs
import Serval.Komodo.Protection
import Serval.Certikos.Protection
import Serval.Keystone.Monitor
import Serval.Keystone.Calls
import Serval.Keystone.Invariants
import Serval.Keystone.Protection
import Serval.Keystone.Confinement
import Serval.Core.Bits
import Serval.Core.Overflow
import Serval.Lib.PrefixCode
import Serval.X32.Interp
import Serval.X32.Bytes
import Serval.Llvm.Overflow
import Serval.Bpf.Jit.X32
import Serval.Bpf.Jit.X32State
import Serval.Bpf.Jit.X32Correct
import Serval.Keystone.Refinement
import Serval.Keystone.Contexts
import Serval.Certikos.FlowConsistency
import Serval.Komodo.Steps
import Serval.Komodo.Contexts
import Serval.Komodo.Integrity
import Serval.Komodo.Teardown
import Serval.Komodo.Privilege
import Serval.Lib.PostDominance
import Serval.Llvm.Control
import Serval.Lib.ParallelCopy
import Serval.Llvm.Phi
import Serval.Llvm.Merge
import Serval.Core.Layout
import Serval.Core.FlatMemory
import Serval.Core.SubCell
import Serval.Bpf.Program
import Serval.Bpf.Kbpf
import Serval.Bpf.Agreement
import Serval.Riscv.Decoding
import Serval.Lib.Listing
import Serval.Spec.RefcntInvariants
import Serval.Lib.Witnesses
import Serval.Spec.Quantifiers
import Serval.Spec.Skolemize
import Serval.Spec.Prove
import Serval.Lib.Fips180
import Serval.Sha256.Hash
import Serval.Sha256.Fips
import Serval.Lib.Runs
import Serval.Certikos.User
import Serval.Certikos.UserQuota
import Serval.Lib.Loops
import Serval.Sha256.Hacl
import Serval.Sha256.HaclFips
import Serval.Sha256.HaclMessages
