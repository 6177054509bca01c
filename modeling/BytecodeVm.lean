import BytecodeVm.Digest
import BytecodeVm.Registers
import BytecodeVm.CommandLine.Basic
import BytecodeVm.Container
import BytecodeVm.Zstd.Frame
import BytecodeVm.Cpu.Run
import BytecodeVm.Hash.Blake3
import BytecodeVm.Hash.Keccak
import BytecodeVm.Hash.Xxh64
import BytecodeVm.Listing
import BytecodeVm.Machine
import BytecodeVm.Main
import BytecodeVm.Printf.Format
import BytecodeVm.Proofs.ControlFlow
import BytecodeVm.Proofs.ReadIsolation
import BytecodeVm.Proofs.TerminalExit
import BytecodeVm.Proofs.WriteIsolation
import BytecodeVm.Region
import BytecodeVm.Settings.Globals
import BytecodeVm.Settings.Load
import BytecodeVm.Store
import BytecodeVm.Syscall.Registry
import BytecodeVm.Toml.Document
import BytecodeVm.Verifier
import BytecodeVm.Proofs.BranchAccounting
import BytecodeVm.Proofs.ClosedFaults
import BytecodeVm.Proofs.Sessions
import BytecodeVm.Proofs.Preflight
import BytecodeVm.Proofs.Lifecycle
import BytecodeVm.Proofs.BoundedMap
import BytecodeVm.Proofs.Rejection
import BytecodeVm.Proofs.ResultCodes
import BytecodeVm.Proofs.Residue
import BytecodeVm.Proofs.ContainerFormat
import BytecodeVm.Proofs.Durability
import BytecodeVm.Proofs.Compression
import BytecodeVm.Proofs.Numerals
import BytecodeVm.Proofs.ListingLines
import BytecodeVm.Proofs.ListingRuns
import BytecodeVm.Proofs.Grammar
import BytecodeVm.Proofs.Translation
import BytecodeVm.Proofs.BranchLimit
import BytecodeVm.Proofs.Coherence
import BytecodeVm.Proofs.Encoding
import BytecodeVm.Proofs.Provisioning
import BytecodeVm.Proofs.Composition
import BytecodeVm.Proofs.IntegerFields
import BytecodeVm.Proofs.FieldWidth
import BytecodeVm.Proofs.Arithmetic
import BytecodeVm.Proofs.BlockCopy
import BytecodeVm.Proofs.DigestText
import BytecodeVm.Proofs.ListingSlots
import BytecodeVm.Proofs.StringReading
import BytecodeVm.Proofs.LoadedContainer
import BytecodeVm.Proofs.EffectiveSettings
