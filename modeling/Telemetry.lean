import Telemetry.Main
import Telemetry.Store.Choice
import Telemetry.Http.Server
import Telemetry.Http.Client
import Telemetry.Agent.Pipeline
import Telemetry.Proofs.Store.Memory
import Telemetry.Proofs.Store.Sql
import Telemetry.Proofs.Service.Update
import Telemetry.Proofs.Store.Choice
import Telemetry.Proofs.Concurrency.Interleaving
import Telemetry.Proofs.Concurrency.Linearizable
import Telemetry.Proofs.Concurrency.LostUpdates
import Telemetry.Proofs.Concurrency.CurrentFile
import Telemetry.Proofs.Service.Accounting
import Telemetry.Proofs.Service.Query
import Telemetry.Proofs.Service.Simulation
import Telemetry.Proofs.Number.Rounding
import Telemetry.Proofs.Number.Shortest
import Telemetry.Proofs.Json.Numeral
import Telemetry.Proofs.Json.Assembly
import Telemetry.Proofs.Json.Text
import Telemetry.Proofs.Json.Fields
import Telemetry.Proofs.Metric.Sample
import Telemetry.Proofs.Metric.Documents
import Telemetry.Proofs.Disk
import Telemetry.Proofs.Store.SnapshotFile
import Telemetry.Proofs.Store.Replay
import Telemetry.Proofs.Service.Triple
import Telemetry.Proofs.Store.Backup
import Telemetry.Proofs.Store.Restore
import Telemetry.Proofs.Store.Durability
import Telemetry.Proofs.Store.Promptness
import Telemetry.Proofs.Codec.Gzip
import Telemetry.Proofs.Codec.Text
import Telemetry.Proofs.Crypto.Rsa
import Telemetry.Proofs.Http.Delivery
import Telemetry.Proofs.Http.Demand
import Telemetry.Proofs.Store.Refusal
import Telemetry.Proofs.Http.Refusal
import Telemetry.Proofs.Http.Admission
import Telemetry.Proofs.Service.Reading
import Telemetry.Proofs.Agent.Reports
import Telemetry.Proofs.Http.SignatureGate
import Telemetry.Proofs.Retry
import Telemetry.Proofs.Agent.Moves
import Telemetry.Proofs.Agent.Pool
import Telemetry.Proofs.Agent.Shutdown
import Telemetry.Proofs.Store.Holdings
import Telemetry.Proofs.Http.SignedAnswers
import Telemetry.Proofs.Store.Order
import Telemetry.Proofs.Service.Separate
import Telemetry.Proofs.Agent.Deliveries
import Telemetry.Proofs.Store.Rows
import Telemetry.Proofs.Service.Forms
import Telemetry.Agent.Sources
import Telemetry.Proofs.Agent.Merging
import Telemetry.Proofs.Agent.Emission
import Telemetry.Proofs.Agent.Collection
import Telemetry.Proofs.Net.Subnet
import Telemetry.Proofs.Http.SharedSecret
import Telemetry.Proofs.Metric.Text
import Telemetry.Proofs.Service.TextForm
import Telemetry.Proofs.Text.Order
import Telemetry.Proofs.Store.Listing
import Telemetry.Proofs.Service.Page
import Telemetry.Proofs.Json.Extent
import Telemetry.Proofs.Json.Documents
import Telemetry.Proofs.Store.Migration
import Telemetry.Proofs.Settings.File
import Telemetry.Proofs.Json.Skipping
import Telemetry.Proofs.Json.Outline
import Telemetry.Proofs.Settings.Spelling
import Telemetry.Proofs.Settings.CommandLine
import Telemetry.Proofs.Settings.Layers
import Telemetry.Proofs.Settings.Precedence
