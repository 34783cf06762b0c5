import TenantRegistry.Batch
import TenantRegistry.CommandLine
import TenantRegistry.Main
import TenantRegistry.Service
import TenantRegistry.Settings
import TenantRegistry.Startup
import TenantRegistry.Store.Memory
import TenantRegistry.Web.App
import TenantRegistry.Proofs.Store.Answers
import TenantRegistry.Proofs.Batch.Planned
import TenantRegistry.Proofs.Service.CallOrder
import TenantRegistry.Proofs.Service.WriteOnMemory
import TenantRegistry.Proofs.Json.CompactText
import TenantRegistry.Proofs.Record.Payload
import TenantRegistry.Proofs.Service.Operation
import TenantRegistry.Proofs.Time.Calendar
import TenantRegistry.Proofs.Time.DayNumber
import TenantRegistry.Proofs.Time.TextOrder
import TenantRegistry.Proofs.Time.TextRead
import TenantRegistry.Proofs.Service.StoredRows
import TenantRegistry.Proofs.Concurrency.Interleaving
import TenantRegistry.Proofs.Concurrency.ValueAndType
import TenantRegistry.Proofs.Concurrency.WriteStage
import TenantRegistry.Proofs.Concurrency.LostUpdate
import TenantRegistry.Proofs.Concurrency.RacingCreates
import TenantRegistry.Proofs.Store.TenantRows
import TenantRegistry.Proofs.Concurrency.Isolation
import TenantRegistry.Proofs.Secrecy.Redaction
import TenantRegistry.Proofs.Secrecy.AlikeRecords
import TenantRegistry.Proofs.Secrecy.SecretsUnseen
import TenantRegistry.Proofs.Service.Performed
import TenantRegistry.Proofs.Service.Resubmission
import TenantRegistry.Proofs.Web.Refusal
import TenantRegistry.Proofs.Store.Database
import TenantRegistry.Proofs.Text.OctetOrder
import TenantRegistry.Proofs.Store.DatabaseTable
import TenantRegistry.Proofs.Store.Interchangeable
import TenantRegistry.Proofs.Json.ReadBack
import TenantRegistry.Proofs.Record.ContentRead
import TenantRegistry.Proofs.Yaml.NormalForm
import TenantRegistry.Proofs.Record.ConfigReadsBack
import TenantRegistry.Proofs.Batch.FirstFailure
import TenantRegistry.Proofs.Yaml.Normalization
import TenantRegistry.Proofs.Store.CallText
import TenantRegistry.Proofs.Store.ScopedCommand
import TenantRegistry.Proofs.Store.ScopedQuery
import TenantRegistry.Proofs.Store.SentRequests
import TenantRegistry.Proofs.Web.DocumentStream
import TenantRegistry.Proofs.Record.CredentialValue
import TenantRegistry.Proofs.Record.StrictReading
import TenantRegistry.Proofs.Batch.RecordByRecord
import TenantRegistry.Proofs.Store.CallsAgree
import TenantRegistry.Proofs.Store.ReplyClassified
import TenantRegistry.Proofs.Yaml.FlowTokens
import TenantRegistry.Proofs.Record.FlowRecords
import TenantRegistry.Proofs.Batch.StatementSize
import TenantRegistry.Proofs.Text.Utf8ReadBack
import TenantRegistry.Proofs.Web.TenantHeader
import TenantRegistry.Proofs.Web.Routing
import TenantRegistry.Proofs.Web.RequestCounts
import TenantRegistry.Proofs.Web.EncodedName
import TenantRegistry.Proofs.Web.Addressing
import TenantRegistry.Proofs.Json.Spelling
import TenantRegistry.Proofs.Json.Denotation
import TenantRegistry.Proofs.Json.ObjectText
import TenantRegistry.Proofs.Store.ConfigColumn
import TenantRegistry.Proofs.Settings.ChosenStore
