import TenantForge.AcceptedWebhooks
import TenantForge.Atomicity
import TenantForge.AuditCompleteness
import TenantForge.AuditTrail
import TenantForge.Authorization
import TenantForge.BillingPeriods
import TenantForge.Contracts.Projects
import TenantForge.DeletedOrganizations
import TenantForge.Escalation
import TenantForge.ExactlyOnce
import TenantForge.Isolation
import TenantForge.JobConservation
import TenantForge.JobEncoding
import TenantForge.JobLedger
import TenantForge.JobSettlement
import TenantForge.LockOrders
import TenantForge.MeteredUsage
import TenantForge.Owners
import TenantForge.Quota
import TenantForge.RateLimits
import TenantForge.ReadCommitted.Atomic
import TenantForge.ReadCommitted.ForeignKeys
import TenantForge.ReadCommitted.Frame
import TenantForge.ReadCommitted.Refinement
import TenantForge.Redaction
import TenantForge.Reference.Runtime
import TenantForge.Rejoining
import TenantForge.RetryBudget
import TenantForge.Rollups
import TenantForge.RowVersions
import TenantForge.Services.Projects
import TenantForge.Signatures
import TenantForge.StoredNames
import TenantForge.Subscriptions
import TenantForge.TokenFamilies
import TenantForge.UsageProvenance
import TenantForge.WebhookDelivery
import TenantForge.Workers.Worker
import TenantForge.Workspaces
