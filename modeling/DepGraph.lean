import DepGraph.Batch.Apply
import DepGraph.Batch.Basic
import DepGraph.Batch.Validation
import DepGraph.Cli.Arguments
import DepGraph.Cli.Command
import DepGraph.Cli.Run
import DepGraph.Cli.Style
import DepGraph.Cli.Text
import DepGraph.Cli.Usage
import DepGraph.Config
import DepGraph.Config.Text
import DepGraph.Decimal.Binary
import DepGraph.Decimal.Form
import DepGraph.Decimal.Shortest
import DepGraph.Edge
import DepGraph.Error
import DepGraph.Files
import DepGraph.Files.Tree
import DepGraph.Graph.Basic
import DepGraph.Graph.Cycles
import DepGraph.Graph.Hotspots
import DepGraph.Graph.Impact
import DepGraph.Json.Category
import DepGraph.Json.Codec
import DepGraph.Json.Draft
import DepGraph.Json.Lexeme
import DepGraph.Json.Numeral
import DepGraph.Json.Quoted
import DepGraph.Json.Value
import DepGraph.Limits
import DepGraph.Locking.FirstWriters
import DepGraph.Locking.Machine
import DepGraph.Locking.Task
import DepGraph.Main
import DepGraph.Question
import DepGraph.Report
import DepGraph.Roster
import DepGraph.Store
import DepGraph.Text.Blank
import DepGraph.Time.Calendar
import DepGraph.Time.Instant
import DepGraph.Time.Rfc3339
import DepGraph.Tools.Call
import DepGraph.Tools.Catalogue
import DepGraph.Tools.Params
import DepGraph.Wire
import DepGraph.Word
import DepGraph.Yaml.Block
import DepGraph.Yaml.Document
import DepGraph.Yaml.Node
import DepGraph.Yaml.Plain
import DepGraph.Yaml.Quoted
import DepGraph.Yaml.Tag
import DepGraph.Yaml.Text
import DepGraph.Yaml.Token
import DepGraph.Proofs.Graph.Coherent
import DepGraph.Proofs.Graph.LastWriter
import DepGraph.Proofs.Graph.Dependence
import DepGraph.Proofs.Graph.Ranked
import DepGraph.Proofs.Graph.Walk
import DepGraph.Proofs.Cycles.Onward
import DepGraph.Proofs.Cycles.Completion
import DepGraph.Proofs.Cycles.Order
import DepGraph.Proofs.Cycles.Enumeration
import DepGraph.Proofs.Locking.Alone
import DepGraph.Proofs.Locking.Interleaving
import DepGraph.Proofs.Locking.Serializable
import DepGraph.Proofs.Impact.Layers
import DepGraph.Proofs.Impact.Distance
import DepGraph.Proofs.Cycles.Mutual
import DepGraph.Proofs.Batch
import DepGraph.Proofs.Graph.Timeless
import DepGraph.Proofs.Isolation
import DepGraph.Proofs.Locking.Discipline
import DepGraph.Proofs.Locking.Precedence
import DepGraph.Proofs.Cli.Parts
import DepGraph.Proofs.Cli.Occurrences
import DepGraph.Proofs.Graph.Representation
import DepGraph.Proofs.Hotspots
import DepGraph.Proofs.Structural
import DepGraph.Proofs.Cli.Loading
import DepGraph.Proofs.Locking.Independence
import DepGraph.Proofs.Cli.Gate
import DepGraph.Proofs.Locking.Abandonment
import DepGraph.Proofs.Locking.FirstWriters
import DepGraph.Proofs.Validity
import DepGraph.Proofs.Tools.Ingest
import DepGraph.Proofs.Graph.Growth
import DepGraph.Proofs.Growth
import DepGraph.Proofs.Statistics
import DepGraph.Proofs.Replay
import DepGraph.Proofs.Digits
import DepGraph.Proofs.Time.Calendar
import DepGraph.Proofs.Time.Rfc3339
import DepGraph.Proofs.Json.Quoted
import DepGraph.Proofs.Json.Numeral
import DepGraph.Proofs.Json.Written
import DepGraph.Proofs.Json.Faithful
import DepGraph.Proofs.Wire
import DepGraph.Proofs.Graph.Adjacency
import DepGraph.Proofs.Graph.Neighbours
import DepGraph.Proofs.Degrees
import DepGraph.Proofs.Impact.Depth
import DepGraph.Proofs.Json.Grammar
import DepGraph.Proofs.Json.Rendering
import DepGraph.Proofs.Json.Lenient
import DepGraph.Proofs.Batch.Texts
import DepGraph.Proofs.Batch.Offences
import DepGraph.Proofs.Cli.Stopping
import DepGraph.Proofs.Impact.Queue
import DepGraph.Proofs.Cycles.Backtracking
import DepGraph.Proofs.Cli.Outline
import DepGraph.Proofs.Yaml.Words
import DepGraph.Proofs.Yaml.Lines
import DepGraph.Proofs.Yaml.Mapping
import DepGraph.Proofs.Config.Limits
import DepGraph.Proofs.Config.Settings
