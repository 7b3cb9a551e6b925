import NativeBridge.Command.FileTree
import NativeBridge.Machine
import NativeBridge.Main
import NativeBridge.Proofs.Balance
import NativeBridge.Proofs.Preservation
import NativeBridge.Proofs.ReferenceScan
import NativeBridge.Proofs.EditHistory
import NativeBridge.Proofs.Removals
import NativeBridge.Proofs.Interruption
import NativeBridge.Proofs.DelegateFolding
import NativeBridge.Proofs.HandleDepths
import NativeBridge.Proofs.Decoding
import NativeBridge.Proofs.TypeText
import NativeBridge.Proofs.Rereading
import NativeBridge.Proofs.Brackets
import NativeBridge.Proofs.StoredForm
import NativeBridge.Proofs.Storing
import NativeBridge.Proofs.Provenance
import NativeBridge.Proofs.Reloading
import NativeBridge.Proofs.HandleTable
import NativeBridge.Proofs.Recognition
import NativeBridge.Proofs.Delivery
import NativeBridge.Proofs.SideBySide
import NativeBridge.Proofs.Encoding
import NativeBridge.Proofs.EncodingInvariance
import NativeBridge.Proofs.RuleOrder
import NativeBridge.Proofs.WorkerLookups
import NativeBridge.Proofs.AdapterResolution
import NativeBridge.Proofs.StepLimits
import NativeBridge.Proofs.Stages
import NativeBridge.Proofs.SlotSafety
import NativeBridge.Proofs.IdleRemoval
import NativeBridge.Proofs.Nesting
import NativeBridge.Proofs.StaticNodes
import NativeBridge.Proofs.UnitText
import NativeBridge.Proofs.Placeholders
import NativeBridge.Proofs.HandleLookup
import NativeBridge.Proofs.StubNames
import NativeBridge.Proofs.LinkerLabels
