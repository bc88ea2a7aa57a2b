import Abstraktor.Ir.Types
import Abstraktor.Pass.Targets
import Abstraktor.Pass.DebugLoc
import Abstraktor.Pass.Arguments
import Abstraktor.Pass.Events
import Abstraktor.Pass.LoadTargets
import Abstraktor.Pass.RunOnModule
import Abstraktor.Pass.Locations
import Abstraktor.Pass.Traversal
import Abstraktor.Pass.EventIds
import Abstraktor.Pass.Projection
import Abstraktor.Pass.BlockTargets
import Abstraktor.Pass.LeftoverLocation
import Abstraktor.Pass.ConstTargets
import Abstraktor.Pass.Rewrite
import Abstraktor.Pass.TargetsFormat
import Abstraktor.Pass.Execution
import Abstraktor.Pass.EdgeCoverage
import Abstraktor.Pass.Placement
import Abstraktor.Pass.ProbeSites
import Abstraktor.Pass.InsertedCode
import Abstraktor.Pass.Paths
import Abstraktor.Pass.Preservation
import Abstraktor.Pass.LoadedTargets
import Abstraktor.Pass.Typing
