import ArenaScript.Program
import ArenaScript.Syntax.Interner
import ArenaScript.Proofs.Arena.Ledger
import ArenaScript.Proofs.Arena.Residue
import ArenaScript.Proofs.Evaluation.Accounting
import ArenaScript.Proofs.Evaluation.Instances
import ArenaScript.Proofs.Evaluation.Isolation
import ArenaScript.Proofs.Evaluation.Returning
import ArenaScript.Proofs.Evaluation.Nesting
import ArenaScript.Proofs.Evaluation.Runaway
import ArenaScript.Proofs.Evaluation.Separation
import ArenaScript.Proofs.Evaluation.ValueCalls
import ArenaScript.Proofs.Modules.Installation
import ArenaScript.Proofs.Modules.Order
import ArenaScript.Proofs.Modules.Preloading
import ArenaScript.Proofs.Types.Identity
import ArenaScript.Proofs.Types.Extents
import ArenaScript.Proofs.Types.Words
import ArenaScript.Proofs.Expression.Order
import ArenaScript.Proofs.Evaluation.Teardown
import ArenaScript.Proofs.Evaluation.Adoption
import ArenaScript.Proofs.Evaluation.Members
import ArenaScript.Proofs.Evaluation.Initialization
import ArenaScript.Proofs.Evaluation.Selection
import ArenaScript.Proofs.Evaluation.Completion
import ArenaScript.Proofs.Evaluation.Bodies
import ArenaScript.Proofs.Evaluation.Resolution
import ArenaScript.Proofs.Evaluation.Unfolding
import ArenaScript.Proofs.Evaluation.Failures
import ArenaScript.Proofs.Evaluation.Visibility
import ArenaScript.Proofs.Evaluation.Templates
import ArenaScript.Proofs.Evaluation.ExplicitArguments
import ArenaScript.Proofs.Evaluation.Copying
import ArenaScript.Proofs.Evaluation.Updates
import ArenaScript.Proofs.Evaluation.Assignment
import ArenaScript.Proofs.Evaluation.Construction
import ArenaScript.Proofs.Evaluation.Constants
import ArenaScript.Proofs.Evaluation.Elements
import ArenaScript.Proofs.Evaluation.Places
import ArenaScript.Proofs.Evaluation.Jumps
import ArenaScript.Proofs.Evaluation.Moorings
import ArenaScript.Proofs.Evaluation.OwnFields
import ArenaScript.Proofs.Modules.Attribution
import ArenaScript.Proofs.Evaluation.Literals
import ArenaScript.Proofs.Evaluation.NativeArguments
import ArenaScript.Proofs.Modules.Normalization
import ArenaScript.Proofs.Types.Constraints
import ArenaScript.Proofs.Syntax.Traversal
