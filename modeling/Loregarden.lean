import Loregarden.CapacityWedgeProofs
import Loregarden.CapacityIdentityProofs
import Loregarden.CapacitySessionProofs
import Loregarden.CapacityFirstComeProofs
import Loregarden.LaneRunProofs
import Loregarden.SweepProofs
import Loregarden.OneLaneProofs
import Loregarden.OrchestrationProofs
import Loregarden.LeaseProofs
import Loregarden.MergeQueueLandProofs
import Loregarden.MergeQueueOrderProofs
import Loregarden.RollupWalkProofs
import Loregarden.RollupSweepProofs
import Loregarden.IssueSyncFailureProofs
import Loregarden.StageBudgetProofs
import Loregarden.DiskSafetyProofs
import Loregarden.TicketIdProofs
import Loregarden.TicketDerivedProofs
import Loregarden.UnresolvedProofs
import Loregarden.RunVerdictProofs
import Loregarden.PermissionBridgeProofs
import Loregarden.RefMergeProofs
import Loregarden.ParallelSettleProofs
import Loregarden.RunLogProofs
import Loregarden.TreePublishProofs
import Loregarden.TicketRevisionProofs
import Loregarden.SidebarProofs
import Loregarden.ChatWaitProofs
import Loregarden.OversizedOutcomeProofs
import Loregarden.AutopilotProofs
import Loregarden.FanoutProofs
import Loregarden.SlotHealingProofs
import Loregarden.GridLayoutProofs
import Loregarden.UiAnswerProofs
import Loregarden.BranchLandedProofs
import Loregarden.LandedPathProofs
import Loregarden.WaitEstimateProofs
import Loregarden.LearningMergeProofs
import Loregarden.DependencyOverrideProofs
import Loregarden.FeatureLoopProofs
import Loregarden.LandingAgainProofs
import Loregarden.WorkLandedProofs
import Loregarden.FirstContainingProofs
import Loregarden.RejectionProofs
import Loregarden.StageReportProofs
import Loregarden.UsageLimitProofs
import Loregarden.StageRouteProofs
import Loregarden.PlanStatusProofs
import Loregarden.PlanRankProofs
import Loregarden.ReleaseRetryProofs
import Loregarden.MergeQueueCycleProofs
import Loregarden.ConflictProbeProofs
import Loregarden.InterruptionProofs
import Loregarden.LearningOutcomeProofs
import Loregarden.LeastOrderProofs
import Loregarden.SubtreeOrderProofs
import Loregarden.SubtreeProofs
