import Crosswalk.Batch.Basic
import Crosswalk.Batch.Book
import Crosswalk.Batch.Clock
import Crosswalk.Batch.Hall
import Crosswalk.Batch.Report
import Crosswalk.Batch.Setup
import Crosswalk.Candidate
import Crosswalk.Checker.Basic
import Crosswalk.Checker.Service
import Crosswalk.Checker.Toolchain
import Crosswalk.CommandLine.Arguments
import Crosswalk.CommandLine.Run
import Crosswalk.Conversion.Basic
import Crosswalk.Conversion.Dialogue
import Crosswalk.Conversion.Seat
import Crosswalk.Conversion.Stage
import Crosswalk.Data.Decode
import Crosswalk.Data.Shape
import Crosswalk.Data.Value
import Crosswalk.Decimal.Reading
import Crosswalk.Decimal.Shortest
import Crosswalk.Decimal.Text
import Crosswalk.Digest.Blake3
import Crosswalk.Environment
import Crosswalk.Fault
import Crosswalk.Files.Tree
import Crosswalk.Http.Address
import Crosswalk.Http.Basic
import Crosswalk.Json.Reader
import Crosswalk.Json.Writer
import Crosswalk.Language
import Crosswalk.Main
import Crosswalk.Manifest
import Crosswalk.Names.Table
import Crosswalk.Options
import Crosswalk.Oracle.Basic
import Crosswalk.Oracle.Chain
import Crosswalk.Oracle.Chat
import Crosswalk.Oracle.EventStream
import Crosswalk.Oracle.Providers
import Crosswalk.Outcome
import Crosswalk.Pattern.Basic
import Crosswalk.Pattern.Matcher
import Crosswalk.Pattern.Scan
import Crosswalk.Placeholder
import Crosswalk.Project.Lane
import Crosswalk.Project.Sources
import Crosswalk.Project.Summary
import Crosswalk.Renaming
import Crosswalk.Rules.Declarations
import Crosswalk.Rules.Reply
import Crosswalk.Rules.RuleSet
import Crosswalk.Rules.Shadow
import Crosswalk.Rules.Substitution
import Crosswalk.Rules.Vocabulary
import Crosswalk.Sandbox
import Crosswalk.Settings.Basic
import Crosswalk.Settings.Environment
import Crosswalk.Settings.File
import Crosswalk.Source
import Crosswalk.Text.Blank
import Crosswalk.Text.Boundary
import Crosswalk.Text.Bounded
import Crosswalk.Text.Digits
import Crosswalk.Text.Letters
import Crosswalk.Text.Marked
import Crosswalk.Text.Search
import Crosswalk.Text.Utf8
import Crosswalk.Text.Word
import Crosswalk.Toml.Document
import Crosswalk.Toml.Plain
import Crosswalk.Toml.Reader
import Crosswalk.Toml.Scalar
import Crosswalk.Toml.Writer
import Crosswalk.Work
import Crosswalk.Proofs.Batch.Moves
import Crosswalk.Proofs.Conversion.Progress
import Crosswalk.Proofs.Conversion.Course
import Crosswalk.Proofs.Candidate
import Crosswalk.Proofs.Conversion.Hearing
import Crosswalk.Proofs.Batch.Accounting
import Crosswalk.Proofs.Batch.ClockMoves
import Crosswalk.Proofs.Batch.Runs
import Crosswalk.Proofs.Conversion.Writing
import Crosswalk.Proofs.Batch.History
import Crosswalk.Proofs.Batch.Snapshot
import Crosswalk.Proofs.Batch.Entries
import Crosswalk.Proofs.Names.Recording
import Crosswalk.Proofs.Batch.Provenance
import Crosswalk.Proofs.Batch.Company
import Crosswalk.Proofs.Batch.Schedule
import Crosswalk.Proofs.Batch.Isolation
import Crosswalk.Proofs.Pattern.Words
import Crosswalk.Proofs.Names.Declared
import Crosswalk.Proofs.Renaming
import Crosswalk.Proofs.Names.History
import Crosswalk.Proofs.Wordwise
import Crosswalk.Proofs.Oracle.EventStream
import Crosswalk.Proofs.Names.Scanner
import Crosswalk.Proofs.Names.Declaring
import Crosswalk.Proofs.Names.First
import Crosswalk.Proofs.Batch.Delivery
import Crosswalk.Proofs.Candidate.Wrapped
import Crosswalk.Proofs.Literals
import Crosswalk.Proofs.Work
import Crosswalk.Proofs.Oracle.Failover
import Crosswalk.Proofs.Files.Tree
import Crosswalk.Proofs.Files.Places
import Crosswalk.Proofs.Files.Paths
import Crosswalk.Proofs.Project.Sources
import Crosswalk.Proofs.Batch.Output
import Crosswalk.Proofs.Fault
import Crosswalk.Proofs.Settings.Precedence
import Crosswalk.Proofs.Oracle.Chat
import Crosswalk.Proofs.Oracle.Patience
import Crosswalk.Proofs.Oracle.Turns
import Crosswalk.Proofs.Batch.Permits
import Crosswalk.Proofs.Conversion.Conversation
import Crosswalk.Proofs.Pattern.Scanning
import Crosswalk.Proofs.Candidate.Shape
import Crosswalk.Proofs.Text.Utf8
import Crosswalk.Proofs.Data.Carried
import Crosswalk.Proofs.Settings.RoundTrip
import Crosswalk.Proofs.Pattern.Taking
import Crosswalk.Proofs.Text.Edited
import Crosswalk.Proofs.Text.Excerpt
import Crosswalk.Proofs.Pattern.Following
import Crosswalk.Proofs.Rules.Rewording
import Crosswalk.Proofs.Rules.Cleanup
import Crosswalk.Proofs.Rules.Settling
import Crosswalk.Proofs.Text.Trim
import Crosswalk.Proofs.Candidate.Tail
import Crosswalk.Proofs.Rules.Trimming
import Crosswalk.Proofs.Candidate.Repeated
import Crosswalk.Proofs.Placeholder.Comment
import Crosswalk.Proofs.Placeholder.Heading
import Crosswalk.Proofs.Pattern.Opening
import Crosswalk.Proofs.Rules.Removing
import Crosswalk.Proofs.Candidate.Attribute
import Crosswalk.Proofs.Text.Search
import Crosswalk.Proofs.Rules.Respelling
import Crosswalk.Proofs.Rules.Complaint
import Crosswalk.Proofs.Checker.Tolerance
import Crosswalk.Proofs.Checker.MissingModules
import Crosswalk.Proofs.Text.Bounded
import Crosswalk.Proofs.Names.Rendering
import Crosswalk.Proofs.Settings.Accepted
import Crosswalk.Proofs.Project.Lane
import Crosswalk.Proofs.Project.Summary
import Crosswalk.Proofs.Files.Listing
import Crosswalk.Proofs.Project.Collecting
