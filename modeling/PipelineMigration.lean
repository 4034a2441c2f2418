import PipelineMigration.Capability.Basic
import PipelineMigration.Capability.Catalog
import PipelineMigration.Capability.Readiness
import PipelineMigration.Capability.Resolution
import PipelineMigration.Capability.Scan
import PipelineMigration.Capability.Signature
import PipelineMigration.CommandLine.Argument
import PipelineMigration.CommandLine.Invocation
import PipelineMigration.CommandLine.Report
import PipelineMigration.CommandLine.Scan
import PipelineMigration.CommandLine.Server
import PipelineMigration.CommandLine.Session
import PipelineMigration.CommandLine.Workspace
import PipelineMigration.Configuration.Document
import PipelineMigration.Configuration.Lint
import PipelineMigration.Configuration.Section
import PipelineMigration.Configuration.Variable
import PipelineMigration.Credential.Basic
import PipelineMigration.Credential.Classifier
import PipelineMigration.Credential.EnvFile
import PipelineMigration.Credential.Key
import PipelineMigration.Credential.Plan
import PipelineMigration.Credential.Provisioning
import PipelineMigration.Credential.Reference
import PipelineMigration.Credential.Usage
import PipelineMigration.Credential.Validation
import PipelineMigration.Enrichment.Analysis
import PipelineMigration.Enrichment.Completion
import PipelineMigration.Enrichment.Consultation
import PipelineMigration.Enrichment.Round
import PipelineMigration.Enrichment.Settings
import PipelineMigration.Enrichment.Traffic
import PipelineMigration.Exchange.Capability
import PipelineMigration.Exchange.Credential
import PipelineMigration.Exchange.Enrichment
import PipelineMigration.Exchange.Feature
import PipelineMigration.Exchange.Field
import PipelineMigration.Exchange.History
import PipelineMigration.Exchange.Migration
import PipelineMigration.Extraction
import PipelineMigration.Feature.Basic
import PipelineMigration.Feature.Declaration
import PipelineMigration.Feature.Limit
import PipelineMigration.Feature.PostAction
import PipelineMigration.Feature.Stage
import PipelineMigration.Feature.Style
import PipelineMigration.History.Record
import PipelineMigration.History.Store
import PipelineMigration.Job.Basic
import PipelineMigration.Job.BuildTool
import PipelineMigration.Job.Capability
import PipelineMigration.Job.Context
import PipelineMigration.Job.Core
import PipelineMigration.Job.Layout
import PipelineMigration.Job.Naming
import PipelineMigration.Job.Rule
import PipelineMigration.Json.Basic
import PipelineMigration.Json.Reader
import PipelineMigration.Json.Writer
import PipelineMigration.Keyed
import PipelineMigration.Main
import PipelineMigration.Migration
import PipelineMigration.Number.Binary
import PipelineMigration.Number.Decimal
import PipelineMigration.Number.Integer
import PipelineMigration.Number.Reading
import PipelineMigration.Pattern.Basic
import PipelineMigration.Pattern.Search
import PipelineMigration.Preference
import PipelineMigration.Proofs.Capability.Confidence
import PipelineMigration.Proofs.Capability.FirstUse
import PipelineMigration.Proofs.Capability.Note
import PipelineMigration.Proofs.Capability.Place
import PipelineMigration.Proofs.Capability.Said
import PipelineMigration.Proofs.Capability.Score
import PipelineMigration.Proofs.Capability.Uncommented
import PipelineMigration.Proofs.Configuration.Checked
import PipelineMigration.Proofs.Configuration.Commented
import PipelineMigration.Proofs.Configuration.Decoded
import PipelineMigration.Proofs.Configuration.Drawing
import PipelineMigration.Proofs.Configuration.Explained
import PipelineMigration.Proofs.Configuration.Guarded
import PipelineMigration.Proofs.Configuration.Lint
import PipelineMigration.Proofs.Configuration.Matrix
import PipelineMigration.Proofs.Configuration.Reading
import PipelineMigration.Proofs.Configuration.SecretName
import PipelineMigration.Proofs.Configuration.Shown
import PipelineMigration.Proofs.Configuration.Told
import PipelineMigration.Proofs.Configuration.Valid
import PipelineMigration.Proofs.Configuration.Withheld
import PipelineMigration.Proofs.Credential.Binding
import PipelineMigration.Proofs.Credential.KeyForm
import PipelineMigration.Proofs.Credential.Projection
import PipelineMigration.Proofs.Credential.Provisioning
import PipelineMigration.Proofs.Credential.Recognition
import PipelineMigration.Proofs.Credential.Resolution
import PipelineMigration.Proofs.Credential.Sighting
import PipelineMigration.Proofs.Credential.Template
import PipelineMigration.Proofs.Credential.Validation
import PipelineMigration.Proofs.Enrichment.Absorption
import PipelineMigration.Proofs.Enrichment.Admission
import PipelineMigration.Proofs.Enrichment.Frame
import PipelineMigration.Proofs.Enrichment.Recollection
import PipelineMigration.Proofs.Feature.Condition
import PipelineMigration.Proofs.Feature.Duration
import PipelineMigration.Proofs.Feature.Enclosing
import PipelineMigration.Proofs.Feature.Requirement
import PipelineMigration.Proofs.Feature.Source
import PipelineMigration.Proofs.Feature.WellFormed
import PipelineMigration.Proofs.History.Order
import PipelineMigration.Proofs.Job.Deployment
import PipelineMigration.Proofs.Job.Drawing
import PipelineMigration.Proofs.Job.GlobRule
import PipelineMigration.Proofs.Job.Graph
import PipelineMigration.Proofs.Job.Naming
import PipelineMigration.Proofs.Job.Placement
import PipelineMigration.Proofs.Job.Reading
import PipelineMigration.Proofs.Job.Tidy
import PipelineMigration.Proofs.Job.Truth
import PipelineMigration.Proofs.Job.Wildcard
import PipelineMigration.Proofs.Json.RoundTrip
import PipelineMigration.Proofs.Json.Spelling
import PipelineMigration.Proofs.Keyed
import PipelineMigration.Proofs.Migration.Lint
import PipelineMigration.Proofs.Migration.Note
import PipelineMigration.Proofs.Migration.Total
import PipelineMigration.Proofs.Number.Double
import PipelineMigration.Proofs.Number.Literal
import PipelineMigration.Proofs.Number.Nearest
import PipelineMigration.Proofs.Number.Numeral
import PipelineMigration.Proofs.Number.Overflow
import PipelineMigration.Proofs.Number.Rounding
import PipelineMigration.Proofs.Number.Shortest
import PipelineMigration.Proofs.Outcome
import PipelineMigration.Proofs.Pattern.Consumed
import PipelineMigration.Proofs.Pattern.Front
import PipelineMigration.Proofs.Pattern.Slot
import PipelineMigration.Proofs.Pattern.Stretch
import PipelineMigration.Proofs.Pattern.Taken
import PipelineMigration.Proofs.Preference
import PipelineMigration.Proofs.Script.Argument
import PipelineMigration.Proofs.Script.Block
import PipelineMigration.Proofs.Script.Comment
import PipelineMigration.Proofs.Script.Masking
import PipelineMigration.Proofs.Script.Token
import PipelineMigration.Proofs.Service.Address
import PipelineMigration.Proofs.Service.Inquiry
import PipelineMigration.Proofs.Service.Persistence
import PipelineMigration.Proofs.Service.Recording
import PipelineMigration.Proofs.Service.RoundTrip
import PipelineMigration.Proofs.Text.Occurrence
import PipelineMigration.Proofs.Text.Shell
import PipelineMigration.Proofs.Text.Trim
import PipelineMigration.Proofs.Yaml.Block
import PipelineMigration.Proofs.Yaml.Bracket
import PipelineMigration.Proofs.Yaml.Content
import PipelineMigration.Proofs.Yaml.Cursor
import PipelineMigration.Proofs.Yaml.Draw
import PipelineMigration.Proofs.Yaml.Heads
import PipelineMigration.Proofs.Yaml.Line
import PipelineMigration.Proofs.Yaml.Look
import PipelineMigration.Proofs.Yaml.Page
import PipelineMigration.Proofs.Yaml.Parts
import PipelineMigration.Proofs.Yaml.Quoted
import PipelineMigration.Proofs.Yaml.Reading
import PipelineMigration.Proofs.Yaml.Remark
import PipelineMigration.Proofs.Yaml.Scan
import PipelineMigration.Proofs.Yaml.Settle
import PipelineMigration.Proofs.Yaml.Tree
import PipelineMigration.Script.Bracket
import PipelineMigration.Script.Literal
import PipelineMigration.Service.Address
import PipelineMigration.Service.Body
import PipelineMigration.Service.Endpoint
import PipelineMigration.Service.Field
import PipelineMigration.Service.Payload
import PipelineMigration.Service.Translation
import PipelineMigration.Text.Alphabet
import PipelineMigration.Text.AlphabetTable
import PipelineMigration.Text.Basic
import PipelineMigration.Text.LetterCase
import PipelineMigration.Text.LetterCaseTable
import PipelineMigration.Text.Quotation
import PipelineMigration.Timestamp
import PipelineMigration.Yaml.Cursor
import PipelineMigration.Yaml.Document
import PipelineMigration.Yaml.Node
import PipelineMigration.Yaml.Quote
import PipelineMigration.Yaml.Scalar
import PipelineMigration.Yaml.Tag
import PipelineMigration.Yaml.Token
import PipelineMigration.Yaml.Token.Block
import PipelineMigration.Yaml.Token.Name
import PipelineMigration.Yaml.Token.Plain
import PipelineMigration.Yaml.Token.Quoted
import PipelineMigration.Yaml.Token.Scan
import PipelineMigration.Yaml.Value
