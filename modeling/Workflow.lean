import Workflow.Definition.FromJson
import Workflow.Definition.FromYaml
import Workflow.Description
import Workflow.Entity.FromJson
import Workflow.Main
import Workflow.Session
import Workflow.Proofs.AuditTrail
import Workflow.Proofs.Availability
import Workflow.Proofs.Bindings
import Workflow.Proofs.Building
import Workflow.Proofs.Calls
import Workflow.Proofs.Chaining
import Workflow.Proofs.ChainLengths
import Workflow.Proofs.CommandOrder
import Workflow.Proofs.Configuration
import Workflow.Proofs.Contexts
import Workflow.Proofs.DeclaredStates
import Workflow.Proofs.Definitions
import Workflow.Proofs.Engine.Alike
import Workflow.Proofs.EventBlocks
import Workflow.Proofs.Executors
import Workflow.Proofs.Frames
import Workflow.Proofs.Guard.Callers
import Workflow.Proofs.Guard.FieldTests
import Workflow.Proofs.Guard.Positions
import Workflow.Proofs.Introspection
import Workflow.Proofs.Leases
import Workflow.Proofs.LockKeys
import Workflow.Proofs.LockLeaks
import Workflow.Proofs.MutualExclusion
import Workflow.Proofs.Permissions
import Workflow.Proofs.Questions
import Workflow.Proofs.Refusals
import Workflow.Proofs.Rejections
import Workflow.Proofs.Retries
import Workflow.Proofs.Schedules
import Workflow.Proofs.Sources
import Workflow.Proofs.ToldWrites
import Workflow.Proofs.Views
import Workflow.Proofs.WholeTrees
