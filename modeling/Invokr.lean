import Invokr.Lifecycle
import Invokr.Cancellation
import Invokr.Ticks
import Invokr.VersionHistory
import Invokr.Delivery
import Invokr.Idempotency
import Invokr.Counting
import Invokr.TableNames
import Invokr.CronSchedules
import Invokr.InvisibleReaping
import Invokr.TenantNames
import Invokr.References
import Invokr.TemplateResolution
import Invokr.FastPath
import Invokr.SecretRequests
import Invokr.ExecutionPages
import Invokr.EndpointTypes
import Invokr.StoredInputs
import Invokr.BackoffDelays
import Invokr.EndpointDeletion
import Invokr.SecretDeletion
import Invokr.DashboardFilters
import Invokr.EndpointRegistration
import Invokr.DurableFailure
import Invokr.TemplatedHeaders
import Invokr.NextRuns
import Invokr.FilterSpelling
import Invokr.EscapedPatterns
import Invokr.KeyFraming
import Invokr.AppliedRanges
import Invokr.LogOrder
import Invokr.FailedRequests
import Invokr.TenantIsolation
import Invokr.WorkerLoop
import Invokr.ExecutionTimes
import Invokr.NamePages
import Invokr.PermanentRecords
import Invokr.AttemptLists
import Invokr.ListStatement
import Invokr.CachedValues
import Invokr.ClaimOrder
import Invokr.DayMarks
