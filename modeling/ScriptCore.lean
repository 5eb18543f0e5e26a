import ScriptCore.Arena
import ScriptCore.Container
import ScriptCore.Dict
import ScriptCore.Error
import ScriptCore.Heap.Basic
import ScriptCore.Heap.Copy
import ScriptCore.Heap.Display
import ScriptCore.Heap.Equality
import ScriptCore.Heap.Handle
import ScriptCore.Heap.Outline
import ScriptCore.Heap.Sequence
import ScriptCore.Heap.Marking
import ScriptCore.Numeric.Decimal
import ScriptCore.Numeric.Floating
import ScriptCore.Numeric.Integer
import ScriptCore.Proofs.ArenaRuns
import ScriptCore.Proofs.ArenaSlots
import ScriptCore.Proofs.Bisimulation
import ScriptCore.Proofs.DeepCopy
import ScriptCore.Proofs.Dictionaries
import ScriptCore.Proofs.NumericEquality
import ScriptCore.Proofs.Reachability
import ScriptCore.Proofs.CopyStages
import ScriptCore.Proofs.ScopeNames
import ScriptCore.Registry.Builtin
import ScriptCore.Registry.Call
import ScriptCore.Registry.Class
import ScriptCore.Registry.Function
import ScriptCore.Registry.Instance
import ScriptCore.Registry.Lineage
import ScriptCore.Registry.Member
import ScriptCore.Registry.Module
import ScriptCore.Registry.Native
import ScriptCore.Registry.Report
import ScriptCore.Registry.Static
import ScriptCore.Scope.Binding
import ScriptCore.Scope.Entering
import ScriptCore.Scope.Stack
import ScriptCore.Symbol.Basic
import ScriptCore.Symbol.Doc
import ScriptCore.Symbol.Kind
import ScriptCore.Symbol.Store
import ScriptCore.Symbol.Table
import ScriptCore.Tag
import ScriptCore.Text.Blank
import ScriptCore.Text.CodeRange
import ScriptCore.Text.Extending
import ScriptCore.Text.Printable
import ScriptCore.Text.Quoted
import ScriptCore.Value.Basic
import ScriptCore.Value.Reading
import ScriptCore.Proofs.EngineRuns
import ScriptCore.Proofs.BlockTransparency
import ScriptCore.Proofs.SteppingOut
import ScriptCore.Proofs.CallFrames
import ScriptCore.Proofs.ValueShape
import ScriptCore.Proofs.CopyIsolation
import ScriptCore.Proofs.CallNoninterference
import ScriptCore.Proofs.ClassDeclarations
import ScriptCore.Proofs.ModuleTrees
import ScriptCore.Proofs.LookupChains
import ScriptCore.Proofs.Refusals
import ScriptCore.Proofs.Reports
import ScriptCore.Proofs.ModuleListings
import ScriptCore.Proofs.Sequences
import ScriptCore.Proofs.MethodDocs
import ScriptCore.Proofs.Lineages
import ScriptCore.Proofs.StaticSlots
import ScriptCore.Proofs.SymbolKinds
import ScriptCore.Proofs.HeldCells
import ScriptCore.Proofs.InstanceFilling
import ScriptCore.Proofs.Renamings
import ScriptCore.Proofs.HeapShifts
import ScriptCore.Proofs.Probing
import ScriptCore.Proofs.EqualityLaws
import ScriptCore.Proofs.CopyEquality
import ScriptCore.Proofs.ContentCopies
import ScriptCore.Proofs.ScopeGuards
import ScriptCore.Proofs.Numerals
import ScriptCore.Proofs.TextReading
import ScriptCore.Proofs.ListOrder
import ScriptCore.Proofs.HandleValues
import ScriptCore.Proofs.Ascents
import ScriptCore.Proofs.CallChains
import ScriptCore.Proofs.MemberResolution
import ScriptCore.Proofs.TableMaps
import ScriptCore.Proofs.Assignments
import ScriptCore.Proofs.EnumOrdinals
import ScriptCore.Proofs.FrameNames
import ScriptCore.Proofs.TypeQueries
