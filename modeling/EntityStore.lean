import EntityStore.Text.Ascii
import EntityStore.Text.Quoted
import EntityStore.Text.Like
import EntityStore.Text.Hex
import EntityStore.Number.Shortest
import EntityStore.Time.Rfc3339
import EntityStore.Json.Reader
import EntityStore.Json.Writer
import EntityStore.Value.Reading
import EntityStore.Condition.Visitor
import EntityStore.Query.Compile
import EntityStore.Schema.Json
import EntityStore.Migration.Planner
import EntityStore.Migration.Ddl
import EntityStore.Migration.Json
import EntityStore.Repository.Collection
import EntityStore.Repository.Migration
import EntityStore.Repository.Scripted
import EntityStore.Repository.Inspect
import EntityStore.Engine.Store
import EntityStore.Proofs.Sql.Token
import EntityStore.Proofs.Sql.Transfer
import EntityStore.Proofs.Sql.Chain
import EntityStore.Proofs.Sql.Joined
import EntityStore.Proofs.Condition.Form
import EntityStore.Proofs.Condition.Truth
import EntityStore.Proofs.Condition.Holds
import EntityStore.Proofs.Query.Compile
import EntityStore.Proofs.Query.Parameters
import EntityStore.Proofs.Query.Binding
import EntityStore.Proofs.Query.Paths
import EntityStore.Proofs.Query.Where
import EntityStore.Proofs.Query.Nested
import EntityStore.Proofs.Query.Acceptance
import EntityStore.Proofs.Query.Joined
import EntityStore.Proofs.Query.Agreement
import EntityStore.Proofs.Query.Independence
import EntityStore.Proofs.Query.Counting
import EntityStore.Proofs.Query.Extension
import EntityStore.Proofs.Engine.Tables
import EntityStore.Proofs.Repository.Migration
import EntityStore.Proofs.Engine.Upgrade
import EntityStore.Proofs.Migration.Catalog
import EntityStore.Proofs.Migration.Order
import EntityStore.Proofs.Migration.Sequence
import EntityStore.Proofs.Migration.Drops
import EntityStore.Proofs.Migration.Target
import EntityStore.Proofs.Migration.Rebuild
import EntityStore.Proofs.Migration.Copy
import EntityStore.Proofs.Migration.Statements
import EntityStore.Proofs.Engine.Definitions
import EntityStore.Proofs.Engine.Reading
import EntityStore.Proofs.Engine.RoundTrip
import EntityStore.Proofs.Engine.Reshaping
import EntityStore.Proofs.Engine.ReadBack
import EntityStore.Proofs.Query.Correspondence
import EntityStore.Proofs.Query.Naming
import EntityStore.Proofs.Engine.Execution
import EntityStore.Proofs.Engine.Removal
import EntityStore.Proofs.Repository.Recording
import EntityStore.Proofs.Engine.Elsewhere
import EntityStore.Proofs.Engine.Keys
import EntityStore.Proofs.Engine.Guarding
import EntityStore.Proofs.Engine.Generation
import EntityStore.Proofs.Migration.Difference
import EntityStore.Proofs.Migration.Cycle
import EntityStore.Proofs.Migration.Scratch
import EntityStore.Proofs.Migration.Fillers
import EntityStore.Proofs.Migration.Writing
import EntityStore.Proofs.Repository.Lookup
import EntityStore.Proofs.Condition.Grouping
import EntityStore.Proofs.Repository.Building
import EntityStore.Proofs.Text.Pattern
import EntityStore.Proofs.Query.TextOperators
import EntityStore.Proofs.Sql.Bound
import EntityStore.Proofs.Query.Tagging
import EntityStore.Proofs.Sql.Insertion
import EntityStore.Proofs.Query.Placement
import EntityStore.Proofs.Schema.Derivation
import EntityStore.Proofs.Schema.References
import EntityStore.Proofs.Engine.Hiding
import EntityStore.Proofs.Repository.Assigning
import EntityStore.Proofs.Text.Quoting
import EntityStore.Proofs.Engine.Dates
import EntityStore.Proofs.Condition.Visiting
import EntityStore.Proofs.Migration.Saving
