import Daimonos.ToolOutput.Shortening
import Daimonos.Agent.LoopFailures
import Daimonos.Agent.Generations
import Daimonos.Agent.CutChoice
import Daimonos.Agent.SkillCatalog
import Daimonos.Kgl.Queries
import Daimonos.Ops.BoundedStream
import Daimonos.Session.ApprovalOrder
import Daimonos.Session.HistoryClear
import Daimonos.Store.CatalogReconcile
import Daimonos.Store.CatalogOrder
import Daimonos.Session.LateSaves
import Daimonos.Session.AttachedClients
import Daimonos.Session.ControllerWrites
import Daimonos.Session.Durability
import Daimonos.Session.ClientStream
import Daimonos.Session.RequestKeys
import Daimonos.Session.SessionListing
import Daimonos.Remote.Revocation
import Daimonos.Script.LiteralsKept
import Daimonos.Script.JsonValues
import Daimonos.Snapshot.RestoreExact
import Daimonos.Snapshot.RestoreFrame
import Daimonos.Snapshot.Containment
import Daimonos.Ops.FilePatch
import Daimonos.Ops.PluginRedirect
import Daimonos.Ops.ArtifactDrains
import Daimonos.Ops.RepairLoop
import Daimonos.Mcp.ActivityTracker
import Daimonos.Coordination.Reservations
import Daimonos.Coordination.AgentRegistry
import Daimonos.Providers.RequestsCarry
import Daimonos.Providers.OpenRouterStream
import Daimonos.Session.SnapshotFit
import Daimonos.Session.Incarnations
import Daimonos.Agent.Evidence
import Daimonos.Mcp.SelfDispatch
import Daimonos.Mcp.RememberedApprovals
import Daimonos.Mcp.PoolClients
import Daimonos.Acp.ReplayHistory
