import Ai00.Agent.CapabilityOutbox
import Ai00.Agent.ConfirmationPromises
import Ai00.Agent.GraphClone
import Ai00.Agent.OrchestrationLog
import Ai00.Base.ApprovalAgreement
import Ai00.Capability.AdmissionCounts
import Ai00.Capability.ArtifactPromises
import Ai00.Capability.Authorization
import Ai00.Capability.OperationHistory
import Ai00.Capability.OutcomeStores
import Ai00.Capability.Projection
import Ai00.Capability.RateLimits
import Ai00.Connector.CommandLedger
import Ai00.Connector.Invocations
import Ai00.Connector.PlanJournal
import Ai00.Connector.ProjectionOutbox
import Ai00.Connector.ViewerJournal
import Ai00.Connector.ViewerNodes
import Ai00.Craft.ForkProposal
import Ai00.Craft.OutlinePages
import Ai00.Craft.PrivateImport
import Ai00.Craft.RepeatedCalls
import Ai00.Integration.MappingExpression
import Ai00.Migration.AddColumns
import Ai00.Migration.CommentRemoval
import Ai00.Migration.SchemaConvergence
import Ai00.Migration.TableOrder
import Ai00.Plugin.LifecyclePromises
import Ai00.Plugin.Storage
import Ai00.Revision.Ancestry
import Ai00.Revision.DomainAdapters
import Ai00.Revision.LineageSearch
import Ai00.Simulation.BindingDraft
import Ai00.Simulation.CapturePromises
import Ai00.Simulation.DocumentDependencies
import Ai00.Simulation.LiveDocumentRuns
import Ai00.Simulation.LiveHierarchyMerge
import Ai00.Simulation.ObservationPages
import Ai00.Simulation.PlmxmlForest
import Ai00.Simulation.ProcessCapturePlan
import Ai00.Simulation.SiblingOrder
import Ai00.Simulation.VmDiff
import Ai00.Connector.ViewerSession
