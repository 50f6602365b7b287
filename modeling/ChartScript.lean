import ChartScript.Calendar.Moment
import ChartScript.Calendar.Reader
import ChartScript.Catalog.Axes
import ChartScript.Catalog.Comparison
import ChartScript.Catalog.Fields
import ChartScript.Catalog.Index
import ChartScript.Catalog.Material
import ChartScript.Catalog.Styles
import ChartScript.Catalog.Visualization
import ChartScript.Chart.Basic
import ChartScript.Chart.Batch
import ChartScript.Chart.Event
import ChartScript.Chart.Type
import ChartScript.CommandLine.Arguments
import ChartScript.CommandLine.FileTree
import ChartScript.CommandLine.Host
import ChartScript.CommandLine.Machine
import ChartScript.Document.Basic
import ChartScript.Document.Charts
import ChartScript.Document.Printer
import ChartScript.Document.Reader
import ChartScript.Error
import ChartScript.Json.Number
import ChartScript.Json.Printer
import ChartScript.Json.Raw
import ChartScript.Json.Record
import ChartScript.Json.Token
import ChartScript.Json.Value
import ChartScript.Keyed
import ChartScript.Loader.Settings
import ChartScript.Main
import ChartScript.Number.Binary64
import ChartScript.Number.Reading
import ChartScript.Number.Rounding
import ChartScript.Number.Shortest
import ChartScript.Number.Spelling
import ChartScript.Options.Assignment
import ChartScript.Options.Import
import ChartScript.Options.Label
import ChartScript.Options.Tree
import ChartScript.Options.Writing
import ChartScript.Proofs.Chart.Acceptance
import ChartScript.Proofs.Chart.Building
import ChartScript.Proofs.CommandLine.Arguments
import ChartScript.Proofs.CommandLine.Run
import ChartScript.Proofs.Document.Forms
import ChartScript.Proofs.Document.Marks
import ChartScript.Proofs.Document.ReadBack
import ChartScript.Proofs.Document.RoundTrip
import ChartScript.Proofs.Document.RowData
import ChartScript.Proofs.Document.Tags
import ChartScript.Proofs.Document.WithoutCode
import ChartScript.Proofs.Json.Content
import ChartScript.Proofs.Json.Limits
import ChartScript.Proofs.Json.Printing
import ChartScript.Proofs.Json.Record
import ChartScript.Proofs.Json.Splicing
import ChartScript.Proofs.Keyed
import ChartScript.Proofs.Number.Rounding
import ChartScript.Proofs.Number.Spelling
import ChartScript.Proofs.Options.Address
import ChartScript.Proofs.Options.AddressPath
import ChartScript.Proofs.Options.Assignment
import ChartScript.Proofs.Options.Building
import ChartScript.Proofs.Options.Collections
import ChartScript.Proofs.Options.Conforming
import ChartScript.Proofs.Options.Content
import ChartScript.Proofs.Options.EntryOrder
import ChartScript.Proofs.Options.Equality
import ChartScript.Proofs.Options.Import
import ChartScript.Proofs.Options.ImportByPath
import ChartScript.Proofs.Options.ImportLeaves
import ChartScript.Proofs.Options.Independence
import ChartScript.Proofs.Options.LabelledForm
import ChartScript.Proofs.Options.Leaves
import ChartScript.Proofs.Options.Nodes
import ChartScript.Proofs.Options.Path
import ChartScript.Proofs.Options.ReadBack
import ChartScript.Proofs.Options.Refusal
import ChartScript.Proofs.Options.Repetition
import ChartScript.Proofs.Options.Replacement
import ChartScript.Proofs.Options.Typing
import ChartScript.Proofs.Options.Vacancy
import ChartScript.Proofs.Options.VacantFields
import ChartScript.Proofs.Options.Walk
import ChartScript.Proofs.Outcome
import ChartScript.Proofs.Schema.Agreement
import ChartScript.Proofs.Schema.Merge
import ChartScript.Proofs.Schema.Plain
import ChartScript.Proofs.Schema.Resolution
import ChartScript.Proofs.Script.Alike
import ChartScript.Proofs.Script.Assembly
import ChartScript.Proofs.Script.BoundIds
import ChartScript.Proofs.Script.DateCalls
import ChartScript.Proofs.Script.ElementIds
import ChartScript.Proofs.Script.Emptied
import ChartScript.Proofs.Script.ExactLiteral
import ChartScript.Proofs.Script.Inert
import ChartScript.Proofs.Script.Layout
import ChartScript.Proofs.Script.LoadCall
import ChartScript.Proofs.Script.Outside
import ChartScript.Proofs.Script.QuotedLiteral
import ChartScript.Proofs.Script.ReadBack
import ChartScript.Proofs.Script.Reader
import ChartScript.Proofs.Script.Sealed
import ChartScript.Proofs.Script.Sequence
import ChartScript.Proofs.Script.StringLiteral
import ChartScript.Proofs.Script.Tags
import ChartScript.Proofs.Script.ToldApart
import ChartScript.Proofs.Script.Variables
import ChartScript.Proofs.Table.Building
import ChartScript.Proofs.Table.ReadBack
import ChartScript.Proofs.Table.Reader
import ChartScript.Proofs.Table.TypedTexts
import ChartScript.Proofs.Text.Identifier
import ChartScript.Proofs.Text.Quoted
import ChartScript.Proofs.Text.Tags
import ChartScript.Schema.Basic
import ChartScript.Schema.Description
import ChartScript.Script.Assembly
import ChartScript.Script.Literal
import ChartScript.Script.Statement
import ChartScript.Table.Basic
import ChartScript.Table.Cell
import ChartScript.Table.Column
import ChartScript.Text.Blank
import ChartScript.Text.Digest
import ChartScript.Text.Escaped
import ChartScript.Text.Identifier
import ChartScript.Text.Quoted
import ChartScript.Text.UpperCase
