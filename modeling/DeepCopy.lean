import DeepCopy.Graph
import DeepCopy.SelfCopies
import DeepCopy.Text.Hex
import DeepCopy.Workbench
import DeepCopy.Proofs.Agreement
import DeepCopy.Proofs.Orderly
import DeepCopy.Proofs.InstanceWrites
import DeepCopy.Proofs.Tours
import DeepCopy.Proofs.Runs
import DeepCopy.Proofs.Sharing
import DeepCopy.Proofs.Termination
import DeepCopy.Proofs.CopyInto
import DeepCopy.Proofs.Exclusion
import DeepCopy.Proofs.ArrayStandIns
import DeepCopy.Proofs.Renaming
import DeepCopy.Proofs.InstanceComparison
import DeepCopy.Proofs.Twins
import DeepCopy.Proofs.ArrayClasses
import DeepCopy.Proofs.Registering
import DeepCopy.Proofs.Lasting
import DeepCopy.Proofs.Facades
import DeepCopy.Proofs.Inheritance
import DeepCopy.Proofs.RootAnswers
import DeepCopy.Proofs.ArrayFields
import DeepCopy.Proofs.Refusals
import DeepCopy.Proofs.FailedCopies
import DeepCopy.Proofs.FieldAccess
import DeepCopy.Proofs.FieldWise
import DeepCopy.Proofs.PackedCopies
import DeepCopy.Proofs.BlockCopies
import DeepCopy.Proofs.KeptEntries
import DeepCopy.Proofs.ShallowCopies
import DeepCopy.Proofs.Lineage
import DeepCopy.Proofs.KeyOrder
import DeepCopy.Proofs.BoundClasses
import DeepCopy.Proofs.Counting
import DeepCopy.Proofs.Elements
import DeepCopy.Proofs.Conversions
import DeepCopy.Proofs.Deeds
import DeepCopy.Proofs.Bookkeeping
