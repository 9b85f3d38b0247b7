import SchemaForms.Address.Basic
import SchemaForms.Address.Fresh
import SchemaForms.Address.Grammar
import SchemaForms.CommandLine.Options
import SchemaForms.CommandLine.Run
import SchemaForms.Compile.Content
import SchemaForms.Compile.Error
import SchemaForms.Compile.Fields
import SchemaForms.Compile.Log
import SchemaForms.Compile.Members
import SchemaForms.Compile.Rows
import SchemaForms.Compile.Shape
import SchemaForms.Compile.Tree
import SchemaForms.Files.Directory
import SchemaForms.Files.Store
import SchemaForms.Form.Basic
import SchemaForms.Form.Bind
import SchemaForms.Form.Selection
import SchemaForms.Index.Build
import SchemaForms.Index.Naming
import SchemaForms.Index.Node
import SchemaForms.Index.Query
import SchemaForms.Keyed
import SchemaForms.Main
import SchemaForms.Name
import SchemaForms.Namespaces.Instance
import SchemaForms.Namespaces.Registry
import SchemaForms.Proofs.Address.Items
import SchemaForms.Proofs.Address.Parts
import SchemaForms.Proofs.Address.Patterns
import SchemaForms.Proofs.Address.Variables
import SchemaForms.Proofs.Address.Written
import SchemaForms.Proofs.Compile.Alike
import SchemaForms.Proofs.Compile.AttributeFields
import SchemaForms.Proofs.Compile.Bounds
import SchemaForms.Proofs.Compile.Collecting
import SchemaForms.Proofs.Compile.Controls
import SchemaForms.Proofs.Compile.Corresponding
import SchemaForms.Proofs.Compile.Derivations
import SchemaForms.Proofs.Compile.Expansion
import SchemaForms.Proofs.Compile.Gathering
import SchemaForms.Proofs.Compile.Leaves
import SchemaForms.Proofs.Compile.Modes
import SchemaForms.Proofs.Compile.Moving
import SchemaForms.Proofs.Compile.Outcome
import SchemaForms.Proofs.Compile.Related
import SchemaForms.Proofs.Compile.Rendered
import SchemaForms.Proofs.Compile.Rendering
import SchemaForms.Proofs.Compile.Settling
import SchemaForms.Proofs.Compile.Siblings
import SchemaForms.Proofs.Compile.Tallies
import SchemaForms.Proofs.Compile.Unbounded
import SchemaForms.Proofs.Compile.Undefined
import SchemaForms.Proofs.Compile.Uses
import SchemaForms.Proofs.Duplicates
import SchemaForms.Proofs.Form.Adding
import SchemaForms.Proofs.Form.Asking
import SchemaForms.Proofs.Form.Closed
import SchemaForms.Proofs.Form.Coming
import SchemaForms.Proofs.Form.Everywhere
import SchemaForms.Proofs.Form.Filling
import SchemaForms.Proofs.Form.Making
import SchemaForms.Proofs.Form.Offering
import SchemaForms.Proofs.Form.Parents
import SchemaForms.Proofs.Form.Places
import SchemaForms.Proofs.Form.Presence
import SchemaForms.Proofs.Form.Reaching
import SchemaForms.Proofs.Form.ReadOnly
import SchemaForms.Proofs.Form.Repeating
import SchemaForms.Proofs.Form.Rows
import SchemaForms.Proofs.Form.Selecting
import SchemaForms.Proofs.Form.Shown
import SchemaForms.Proofs.Form.StandingIn
import SchemaForms.Proofs.Form.Starting
import SchemaForms.Proofs.Form.Values
import SchemaForms.Proofs.Form.Ways
import SchemaForms.Proofs.Index.Alike
import SchemaForms.Proofs.Index.Attributes
import SchemaForms.Proofs.Index.Completeness
import SchemaForms.Proofs.Index.Content
import SchemaForms.Proofs.Index.Depth
import SchemaForms.Proofs.Index.History
import SchemaForms.Proofs.Index.Inlined
import SchemaForms.Proofs.Index.Layers
import SchemaForms.Proofs.Index.Listing
import SchemaForms.Proofs.Index.Locals
import SchemaForms.Proofs.Index.Moving
import SchemaForms.Proofs.Index.Sparing
import SchemaForms.Proofs.Index.Walking
import SchemaForms.Proofs.Namespaces.References
import SchemaForms.Proofs.Namespaces.Registering
import SchemaForms.Proofs.Namespaces.Spelling
import SchemaForms.Proofs.Namespaces.Wildcard
import SchemaForms.Proofs.Schema.Blaming
import SchemaForms.Proofs.Schema.Closed
import SchemaForms.Proofs.Schema.Declaring
import SchemaForms.Proofs.Schema.Importing
import SchemaForms.Proofs.Schema.Loading
import SchemaForms.Proofs.Schema.Moving
import SchemaForms.Proofs.Schema.Reading
import SchemaForms.Proofs.Schema.Referring
import SchemaForms.Proofs.Schema.Reordering
import SchemaForms.Proofs.Schema.Retrying
import SchemaForms.Proofs.Template.Boxes
import SchemaForms.Proofs.Template.Creating
import SchemaForms.Proofs.Template.Document
import SchemaForms.Proofs.Template.Fields
import SchemaForms.Proofs.Template.Mentioning
import SchemaForms.Proofs.Template.Scoping
import SchemaForms.Proofs.Template.Skeleton
import SchemaForms.Proofs.Template.Throughout
import SchemaForms.Proofs.Xml.EmptyDefault
import SchemaForms.Proofs.Xml.Escaping
import SchemaForms.Proofs.Xml.Markup
import SchemaForms.Proofs.Xml.Reading
import SchemaForms.Schema.Components
import SchemaForms.Schema.Error
import SchemaForms.Schema.Import
import SchemaForms.Schema.Loader
import SchemaForms.Schema.Location
import SchemaForms.Schema.Occurs
import SchemaForms.Schema.Reading
import SchemaForms.Schema.Reference
import SchemaForms.Schema.Set
import SchemaForms.Schema.TypeTable
import SchemaForms.Template.Basic
import SchemaForms.Template.Document
import SchemaForms.Text.Blank
import SchemaForms.Text.Decimal
import SchemaForms.Text.Logged
import SchemaForms.Text.Quoted
import SchemaForms.Text.Ranges
import SchemaForms.Text.Split
import SchemaForms.Text.Unprintable
import SchemaForms.Text.WordChar
import SchemaForms.Xml.Chars
import SchemaForms.Xml.Document
import SchemaForms.Xml.Element
import SchemaForms.Xml.Markup
import SchemaForms.Xml.Prolog
import SchemaForms.Xml.Reference
import SchemaForms.Xml.Writing
import SchemaForms.Proofs.Schema.Qualified
import SchemaForms.Proofs.Compile.Naming
import SchemaForms.Proofs.Namespaces.Prefixes
import SchemaForms.Proofs.Schema.Overlooking
import SchemaForms.Proofs.Schema.Targets
import SchemaForms.Proofs.Namespaces.Emptied
