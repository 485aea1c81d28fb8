import MailVerdict.Analysis.ClaimFencing
import MailVerdict.Analysis.StaleRuns
import MailVerdict.Analysis.OutageDelay
import MailVerdict.Analysis.WriteCoverage
import MailVerdict.Analysis.PendingSendTicks
import MailVerdict.Analysis.SendOnce
import MailVerdict.Analysis.RetentionClock
import MailVerdict.Analysis.OneDecision
import MailVerdict.Analysis.SealedOrders
import MailVerdict.Analysis.NoMailLost
import MailVerdict.Analysis.RulingsStand
import MailVerdict.Analysis.UsageDelivery
import MailVerdict.Analysis.ConfirmedDeletions
import MailVerdict.Analysis.SettingsKept
import MailVerdict.Analysis.OnceOnly
import MailVerdict.Analysis.LedgerJoin
import MailVerdict.Analysis.EventStreamLoss
import MailVerdict.Analysis.GlacierLoss
import MailVerdict.Analysis.GlacierVisibility
import MailVerdict.Analysis.MonthSelection
import MailVerdict.Analysis.SequenceBound
import MailVerdict.Analysis.CalendarEdits
import MailVerdict.Analysis.SchedulingAgreement
import MailVerdict.Analysis.SeriesEdits
import MailVerdict.Analysis.IntakeOnce
import MailVerdict.Analysis.ExpansionAnswers
import MailVerdict.Analysis.SuspendedBreaker
import MailVerdict.Analysis.EventReplays
import MailVerdict.Analysis.DeliveryAlerts
import MailVerdict.Analysis.WorkerBudget
import MailVerdict.Analysis.RestoreRaces
import MailVerdict.Analysis.RefusedIntents
import MailVerdict.Analysis.SelectionAgreement
import MailVerdict.Analysis.SettledGate
import MailVerdict.Analysis.RevisionChain
import MailVerdict.Analysis.MessagePages
import MailVerdict.Analysis.RefreshedWindow
import MailVerdict.Analysis.SendOrder
import MailVerdict.Analysis.EchoCoverage
import MailVerdict.Analysis.RestoredFlags
import MailVerdict.Analysis.ShownOrder
import MailVerdict.Analysis.CountDeltas
import MailVerdict.Analysis.BulkGuards
import MailVerdict.Analysis.ProjectedView
import MailVerdict.Analysis.StoredEffects
import MailVerdict.Analysis.MessageKeys
import MailVerdict.Analysis.SupervisedWorkers
import MailVerdict.Analysis.AssistantBreadth
import MailVerdict.Analysis.ExcerptLinks
import MailVerdict.Analysis.WellFormedEvents
import MailVerdict.Analysis.ReadStateWalk
import MailVerdict.Analysis.DiffReplay
import MailVerdict.Analysis.MarkedText
import MailVerdict.Analysis.RewrittenFacts
import MailVerdict.Analysis.CodeReferences
import MailVerdict.Analysis.PromptFences
import MailVerdict.Analysis.SealedPush
import MailVerdict.Analysis.FoundNumbers
import MailVerdict.Analysis.CalendarPacking
import MailVerdict.Analysis.TieredHits
import MailVerdict.Analysis.MonthScroller
import MailVerdict.Analysis.ReplyRecipients
import MailVerdict.Analysis.ContactGroups
import MailVerdict.Analysis.ContactFrames
