import ClassFormat.Main
import ClassFormat.NumberType
import ClassFormat.Outline.Class
import ClassFormat.Pool.Copy
import ClassFormat.Proofs.Attribute.AnnotationDepth
import ClassFormat.Proofs.Attribute.Labels
import ClassFormat.Proofs.Attribute.Recording
import ClassFormat.Proofs.Attribute.Refusals
import ClassFormat.Proofs.Attribute.SlotLookup
import ClassFormat.Proofs.Attribute.Unknown
import ClassFormat.Proofs.BitSet.FiniteSet
import ClassFormat.Proofs.Class.Counting
import ClassFormat.Proofs.Class.Demands
import ClassFormat.Proofs.Class.Handles
import ClassFormat.Proofs.Code.Blocks
import ClassFormat.Proofs.Code.StrayTargets
import ClassFormat.Proofs.CommandLine.Verifying
import ClassFormat.Proofs.Instruction.Locality
import ClassFormat.Proofs.Layout.Run
import ClassFormat.Proofs.Pool.Failing
import ClassFormat.Proofs.Pool.Text
