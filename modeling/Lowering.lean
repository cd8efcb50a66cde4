import Lowering.Session
import Lowering.Tree.Build
import Lowering.Proofs.EntrySlots
import Lowering.Proofs.PoolFilled
import Lowering.Proofs.PoolTexts
import Lowering.Proofs.Predecessors
import Lowering.Proofs.NameSlots
import Lowering.Proofs.Assignments
import Lowering.Proofs.ComprehensionLoops
import Lowering.Proofs.Interruption
import Lowering.Proofs.StackUnpacking
import Lowering.Proofs.Rotations
