import GenusOs.Library.Run
import GenusOs.Library.Count
import GenusOs.Autonomy.SubmitOnce
import GenusOs.Autonomy.BudgetBound
import GenusOs.Autonomy.OverspendHold
import GenusOs.Autonomy.Workflows.CommandJournal
import GenusOs.Federation.Causality
import GenusOs.Federation.TaskLattice
import GenusOs.Entity.PolicyIsolation
import GenusOs.Engine.LaneRuns
import GenusOs.Engine.Runtime.EffectLedger
import GenusOs.Engine.Compaction.WellPaired
import GenusOs.Engine.Compaction.ProtectedHead
import GenusOs.Engine.Compaction.SummarySlices
import GenusOs.Engine.Compaction.PrefixCut
import GenusOs.Engine.Compaction.FactLines
import GenusOs.Engine.Compaction.ContextFitLaw
import GenusOs.Engine.Runtime.StopVerdicts
import GenusOs.Engine.KeyResolution
import GenusOs.Engine.CanvasMarkers
import GenusOs.Engine.TelegramSplit
import GenusOs.Engine.TelegramShown
import GenusOs.Engine.LiveInboxLaw
import GenusOs.Vault.Duality
import GenusOs.Entity.LedgerChain
import GenusOs.Autonomy.PaymentOrder
import GenusOs.Autonomy.HandoffLeases
import GenusOs.Entity.Authorization
import GenusOs.Engine.ToolTurn.Transcript
import GenusOs.Engine.ToolTurn.History
import GenusOs.Engine.Workflow.Joins
import GenusOs.Engine.Workflow.DecidedSweep
import GenusOs.Engine.Workflow.Suspension
import GenusOs.Auth.SessionRevocation
import GenusOs.Auth.SecondFactor
import GenusOs.Auth.Lockout
import GenusOs.Auth.BindingLaw
import GenusOs.Auth.RateLimits
import GenusOs.Goals.Usage
import GenusOs.Goals.WakeLaw
import GenusOs.Engine.DedupExclusion
import GenusOs.Engine.EscalationLaw
import GenusOs.Engine.RequestBudget
import GenusOs.Engine.VariantRefusals
import GenusOs.Plugins.LockfileLaw
import GenusOs.Plugins.GrantsLaw
import GenusOs.Federation.ResponderLaw
import GenusOs.Memory.ConfirmedLaw
import GenusOs.Memory.Resolution
import GenusOs.Memory.Dechurn
import GenusOs.Memory.WriteJobsLaw
import GenusOs.Autonomy.Renewals
import GenusOs.Secrets.ToolArgumentObjects
import GenusOs.Settings.DropinLaw
import GenusOs.Operations.JobLaw
import GenusOs.Operations.BudgetWaits
import GenusOs.Operations.ActionLaw
import GenusOs.Operations.EffectLaw
import GenusOs.Operations.Requests
import GenusOs.Goals.Turns
import GenusOs.Goals.Ceilings
import GenusOs.Goals.Dispatch
import GenusOs.Db.MigrateLaw
