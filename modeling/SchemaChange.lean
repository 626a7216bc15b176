import SchemaChange.Main
import SchemaChange.LogLevel
import SchemaChange.Proofs.Document.Change
import SchemaChange.Proofs.Runner.Run
import SchemaChange.Proofs.Script.BlockScan
import SchemaChange.Proofs.Script.Comments
import SchemaChange.Proofs.Script.Division
import SchemaChange.Proofs.Script.GoBatches
import SchemaChange.Proofs.Script.Packages
import SchemaChange.Proofs.Sql.Identifier
import SchemaChange.Proofs.Sql.Modes
import SchemaChange.Proofs.Sql.SingleBatch
import SchemaChange.Proofs.Script.Items
import SchemaChange.Proofs.Sql.Joining
import SchemaChange.Proofs.Script.ItemScan
import SchemaChange.Proofs.Script.Exchange
import SchemaChange.Proofs.Script.Boundary
import SchemaChange.Proofs.Script.LineBreaks
import SchemaChange.Proofs.Script.Names
import SchemaChange.Proofs.Script.OneStatement
import SchemaChange.Proofs.Sql.DynamicSql
import SchemaChange.Proofs.Runner.DryRun
import SchemaChange.Proofs.Script.Excerpt
import SchemaChange.Proofs.Script.Calm
import SchemaChange.Proofs.Script.Settled
import SchemaChange.Proofs.Script.Stripped
import SchemaChange.Proofs.Text.Slice
import SchemaChange.Proofs.Checked
import SchemaChange.Proofs.Script.ByteReader
import SchemaChange.Proofs.Script.ByteTokens
import SchemaChange.Proofs.Script.ByteScan
import SchemaChange.Proofs.Script.LetterCase
import SchemaChange.Proofs.Script.CarriageReturns
import SchemaChange.Proofs.Script.PlainStatements
import SchemaChange.Proofs.Sql.StrictMode
import SchemaChange.Proofs.Sql.Predicates
import SchemaChange.Proofs.Sql.NewTable
import SchemaChange.Proofs.Sql.KeyName
import SchemaChange.Proofs.Sql.Autoincrement
import SchemaChange.Proofs.Sql.FilledColumn
import SchemaChange.Proofs.Sql.OwnTable
import SchemaChange.Proofs.Sql.CheckedNames
import SchemaChange.Proofs.Sql.BareNames
import SchemaChange.Proofs.Sql.TimeLiteral
import SchemaChange.Proofs.Sql.StringLiteral
import SchemaChange.Proofs.Dialect.TypeMap
import SchemaChange.Proofs.Dialect.Switches
import SchemaChange.Proofs.Naming.Pattern
import SchemaChange.Proofs.Sql.InsertAll
import SchemaChange.Proofs.Sql.ConstraintNames
import SchemaChange.Proofs.Script.Runs
import SchemaChange.Proofs.Naming.Substitution
import SchemaChange.Proofs.Naming.Shortening
import SchemaChange.Proofs.Sql.FittingNames
import SchemaChange.Proofs.Script.Searches
