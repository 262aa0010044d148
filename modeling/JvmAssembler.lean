import JvmAssembler.Main
import JvmAssembler.Workbench
import JvmAssembler.Proofs.Chain.Editing
import JvmAssembler.Proofs.Chain.Walk
import JvmAssembler.Proofs.Code.Listing
import JvmAssembler.Proofs.Code.Layout
import JvmAssembler.Proofs.Code.Refinement
import JvmAssembler.Proofs.Code.Order
import JvmAssembler.Proofs.Code.Positions
import JvmAssembler.Proofs.Code.Registry
import JvmAssembler.Proofs.Code.Holdings
import JvmAssembler.Proofs.Code.Holders
import JvmAssembler.Proofs.Code.Resolution
import JvmAssembler.Proofs.Code.Method
import JvmAssembler.Proofs.Accounts
import JvmAssembler.Proofs.Coverage
import JvmAssembler.Proofs.Text.ModifiedUtf8
import JvmAssembler.Proofs.Text.Groups
import JvmAssembler.Proofs.Decode
import JvmAssembler.Proofs.Descriptor
import JvmAssembler.Proofs.Pool.Layout
import JvmAssembler.Proofs.Pool.RoundTrip
import JvmAssembler.Proofs.Pool.Spelling
import JvmAssembler.Proofs.Pool.Requests
import JvmAssembler.Proofs.Pool.Growth
import JvmAssembler.Proofs.Pool.Loadable
import JvmAssembler.Proofs.Emission
import JvmAssembler.Proofs.WellFormed
import JvmAssembler.Proofs.Code.Roll
import JvmAssembler.Proofs.Code.Identities
import JvmAssembler.Proofs.Tables
import JvmAssembler.Proofs.Pool.Values
import JvmAssembler.Proofs.Repetition
import JvmAssembler.Proofs.Dump
import JvmAssembler.Proofs.Text.Grammar
import JvmAssembler.Proofs.Code.Offsets
import JvmAssembler.Proofs.Rerouting
import JvmAssembler.Proofs.Extents
import JvmAssembler.Proofs.Code.Entries
import JvmAssembler.Proofs.Ranges
import JvmAssembler.Proofs.Residue
import JvmAssembler.Proofs.Room
import JvmAssembler.Proofs.Pool.Truncation
import JvmAssembler.Proofs.Pool.Count
import JvmAssembler.Proofs.Pool.References
import JvmAssembler.Proofs.Pool.TypeNames
import JvmAssembler.Proofs.Scan
import JvmAssembler.Proofs.Pool.Partition
import JvmAssembler.Proofs.Attribute
import JvmAssembler.Proofs.Code.Slots
import JvmAssembler.Proofs.Registrations
