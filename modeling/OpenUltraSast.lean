import OpenUltraSast.Semantic.ConstantDemotion
import OpenUltraSast.Obligations.SelfCalls
import OpenUltraSast.Obligations.HiddenPaths
import OpenUltraSast.Obligations.SharedNames
import OpenUltraSast.Obligations.KeptEvidence
import OpenUltraSast.Hunt.PathCoverage
import OpenUltraSast.Model.PortionConservation
import OpenUltraSast.Push.CacheRefresh
import OpenUltraSast.Search.CommittedStates
import OpenUltraSast.Search.GoalMet
import OpenUltraSast.Search.MailboxSafety
import OpenUltraSast.Push.ScanSilence
import OpenUltraSast.Model.LostCensus
import OpenUltraSast.Contracts.RoundTrip
import OpenUltraSast.Plane.Writers
import OpenUltraSast.Plane.OwnDelivery
import OpenUltraSast.Plane.RunLock
import OpenUltraSast.Plane.CycleReports
import OpenUltraSast.Plane.Budget
import OpenUltraSast.Plane.Interrupted
import OpenUltraSast.Plane.Runner
import OpenUltraSast.Push.Reuse
import OpenUltraSast.Cpg.Sessions
import OpenUltraSast.Push.BackgroundOnce
import OpenUltraSast.Search.DemoSecrets
import OpenUltraSast.Cpg.Building
import OpenUltraSast.Learn.HeldOut
import OpenUltraSast.Learn.LastBuild
import OpenUltraSast.Learn.Registration
import OpenUltraSast.Learn.FirstLook
import OpenUltraSast.Learn.Replayed
import OpenUltraSast.Learn.Deployment
import OpenUltraSast.Hunt.Reserved
import OpenUltraSast.Plane.StartSignal
import OpenUltraSast.Model.Vendored
import OpenUltraSast.Semantic.TracedFlows
import OpenUltraSast.Hunt.FailingCandidate
import OpenUltraSast.Hunt.Ablation
import OpenUltraSast.Learn.DefUse
import OpenUltraSast.Cpg.SessionReceipts
import OpenUltraSast.Quick.HiddenMatches
import OpenUltraSast.Cpg.Harvest
import OpenUltraSast.Learn.McNemar
import OpenUltraSast.Learn.FoldBalance
import OpenUltraSast.Learn.Boundary
import OpenUltraSast.Model.Regions
import OpenUltraSast.Obligations.Ranking
import OpenUltraSast.Learn.Focus
import OpenUltraSast.Learn.DiffMisread
import OpenUltraSast.Model.IndexedContext
import OpenUltraSast.Obligations.CallerChains
import OpenUltraSast.Obligations.EvidencePaths
import OpenUltraSast.Obligations.Implications
import OpenUltraSast.Push.GatheredDefects
import OpenUltraSast.Obligations.MergeOrders
import OpenUltraSast.Push.Anchors
import OpenUltraSast.Model.TaintVerdicts
import OpenUltraSast.Cfg.OuterGraph
import OpenUltraSast.Obligations.CallComponents
import OpenUltraSast.Cfg.Paths
import OpenUltraSast.Plane.TaskNames
import OpenUltraSast.Plane.Histories
import OpenUltraSast.Search.InputTrees
