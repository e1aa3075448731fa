import SchemaEvolution.Avro.Canonical
import SchemaEvolution.Avro.Compare
import SchemaEvolution.Avro.Declaration
import SchemaEvolution.Avro.Default
import SchemaEvolution.Avro.Name
import SchemaEvolution.Avro.Resolution
import SchemaEvolution.Avro.Schema
import SchemaEvolution.Closure
import SchemaEvolution.CommandLine.Arguments
import SchemaEvolution.CommandLine.Invocation
import SchemaEvolution.CommandLine.Run
import SchemaEvolution.Config
import SchemaEvolution.ContentId
import SchemaEvolution.Decimal.Binary64
import SchemaEvolution.Decimal.Shortest
import SchemaEvolution.Diff
import SchemaEvolution.Failure
import SchemaEvolution.Format
import SchemaEvolution.Impact.ChangeSet
import SchemaEvolution.Impact.Detect
import SchemaEvolution.Impact.Event
import SchemaEvolution.Impact.Graph
import SchemaEvolution.Json.Basic
import SchemaEvolution.Json.Parser
import SchemaEvolution.Json.Pointer
import SchemaEvolution.Json.Pretty
import SchemaEvolution.Json.Printer
import SchemaEvolution.JsonSchema.Collect
import SchemaEvolution.JsonSchema.Compare
import SchemaEvolution.JsonSchema.Draft
import SchemaEvolution.JsonSchema.Explored
import SchemaEvolution.JsonSchema.Keyword
import SchemaEvolution.JsonSchema.Linkage
import SchemaEvolution.JsonSchema.References
import SchemaEvolution.JsonSchema.Site
import SchemaEvolution.JsonSchema.Validity
import SchemaEvolution.Main
import SchemaEvolution.Names
import SchemaEvolution.Pattern
import SchemaEvolution.Pattern.Property
import SchemaEvolution.Policy
import SchemaEvolution.Proofs.Avro.Canonical
import SchemaEvolution.Proofs.Avro.Compared
import SchemaEvolution.Proofs.Avro.Declared
import SchemaEvolution.Proofs.Avro.Document
import SchemaEvolution.Proofs.Avro.Formed
import SchemaEvolution.Proofs.Avro.Found
import SchemaEvolution.Proofs.Avro.Interchangeable
import SchemaEvolution.Proofs.Avro.Listed
import SchemaEvolution.Proofs.Avro.Listing
import SchemaEvolution.Proofs.Avro.Printing
import SchemaEvolution.Proofs.Avro.Quiet
import SchemaEvolution.Proofs.Avro.ReadBack
import SchemaEvolution.Proofs.Avro.Written
import SchemaEvolution.Proofs.Closure
import SchemaEvolution.Proofs.Collected
import SchemaEvolution.Proofs.Combined
import SchemaEvolution.Proofs.CommandLine.Agreement
import SchemaEvolution.Proofs.CommandLine.Checked
import SchemaEvolution.Proofs.Full
import SchemaEvolution.Proofs.History
import SchemaEvolution.Proofs.Impact.Affected
import SchemaEvolution.Proofs.Impact.Agreement
import SchemaEvolution.Proofs.Impact.Changes
import SchemaEvolution.Proofs.Impact.Detected
import SchemaEvolution.Proofs.Impact.Graph
import SchemaEvolution.Proofs.Impact.Members
import SchemaEvolution.Proofs.Json.Equality
import SchemaEvolution.Proofs.Json.Escapes
import SchemaEvolution.Proofs.Json.Form
import SchemaEvolution.Proofs.Json.Injective
import SchemaEvolution.Proofs.Json.Nesting
import SchemaEvolution.Proofs.Json.Numeral
import SchemaEvolution.Proofs.Json.Ordered
import SchemaEvolution.Proofs.Json.Parts
import SchemaEvolution.Proofs.Json.Pointer
import SchemaEvolution.Proofs.Json.Printing
import SchemaEvolution.Proofs.Json.Reading
import SchemaEvolution.Proofs.JsonSchema.Bases
import SchemaEvolution.Proofs.JsonSchema.Canonical
import SchemaEvolution.Proofs.JsonSchema.Children
import SchemaEvolution.Proofs.JsonSchema.Compatible
import SchemaEvolution.Proofs.JsonSchema.Exploration
import SchemaEvolution.Proofs.JsonSchema.Followed
import SchemaEvolution.Proofs.JsonSchema.Grown
import SchemaEvolution.Proofs.JsonSchema.GrownIndex
import SchemaEvolution.Proofs.JsonSchema.Indexed
import SchemaEvolution.Proofs.JsonSchema.Locations
import SchemaEvolution.Proofs.JsonSchema.OpenContent
import SchemaEvolution.Proofs.JsonSchema.PropertyAdded
import SchemaEvolution.Proofs.JsonSchema.Trailing
import SchemaEvolution.Proofs.JsonSchema.Transitive
import SchemaEvolution.Proofs.Mismatch
import SchemaEvolution.Proofs.Names
import SchemaEvolution.Proofs.Policy
import SchemaEvolution.Proofs.Protobuf.Accepted
import SchemaEvolution.Proofs.Protobuf.Canonical
import SchemaEvolution.Proofs.Protobuf.Codec
import SchemaEvolution.Proofs.Protobuf.Compatible
import SchemaEvolution.Proofs.Protobuf.Contained
import SchemaEvolution.Proofs.Protobuf.Deletion
import SchemaEvolution.Proofs.Protobuf.Described
import SchemaEvolution.Proofs.Protobuf.Encoding
import SchemaEvolution.Proofs.Protobuf.Findings
import SchemaEvolution.Proofs.Protobuf.Intervals
import SchemaEvolution.Proofs.Protobuf.Nesting
import SchemaEvolution.Proofs.Protobuf.Order
import SchemaEvolution.Proofs.Protobuf.Positions
import SchemaEvolution.Proofs.Protobuf.Preorder
import SchemaEvolution.Proofs.Protobuf.Record
import SchemaEvolution.Proofs.Protobuf.Required
import SchemaEvolution.Proofs.Protobuf.ReservedDeletion
import SchemaEvolution.Proofs.Protobuf.ReservedNumbers
import SchemaEvolution.Proofs.Protobuf.Resolved
import SchemaEvolution.Proofs.Protobuf.Retained
import SchemaEvolution.Proofs.Protobuf.Rewritten
import SchemaEvolution.Proofs.Protobuf.Walks
import SchemaEvolution.Proofs.Protobuf.Wire
import SchemaEvolution.Proofs.Text.Percent
import SchemaEvolution.Proofs.Text.Utf8
import SchemaEvolution.Proofs.Url.Fragment
import SchemaEvolution.Protobuf.Build
import SchemaEvolution.Protobuf.Codec
import SchemaEvolution.Protobuf.Compare
import SchemaEvolution.Protobuf.Declaration
import SchemaEvolution.Protobuf.DefaultValue
import SchemaEvolution.Protobuf.Defect
import SchemaEvolution.Protobuf.Link
import SchemaEvolution.Protobuf.Missing
import SchemaEvolution.Protobuf.Record
import SchemaEvolution.Protobuf.Registry
import SchemaEvolution.Protobuf.Reserved
import SchemaEvolution.Protobuf.Schema
import SchemaEvolution.Protobuf.Wire
import SchemaEvolution.Report
import SchemaEvolution.RuleSet
import SchemaEvolution.Schema
import SchemaEvolution.SchemaFile
import SchemaEvolution.Text.Blank
import SchemaEvolution.Text.Integer
import SchemaEvolution.Text.Percent
import SchemaEvolution.Text.Printable
import SchemaEvolution.Text.Quoted
import SchemaEvolution.Text.Split
import SchemaEvolution.Text.Utf8
import SchemaEvolution.UriReference
import SchemaEvolution.Url.Basic
import SchemaEvolution.Url.Host
import SchemaEvolution.Url.Punycode
import SchemaEvolution.Yaml.Basic
import SchemaEvolution.Yaml.Parser
import SchemaEvolution.Yaml.Scalar
