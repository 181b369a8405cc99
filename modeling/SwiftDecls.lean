import SwiftDecls.Api
import SwiftDecls.Api.Decode
import SwiftDecls.Classification
import SwiftDecls.CommandLine
import SwiftDecls.Config.File
import SwiftDecls.Config.Generator
import SwiftDecls.Declarations.Builtins
import SwiftDecls.Declarations.Classes
import SwiftDecls.Declarations.Constructors
import SwiftDecls.Declarations.Enums
import SwiftDecls.Disk
import SwiftDecls.Docs.ClassDoc
import SwiftDecls.Docs.Comment
import SwiftDecls.Docs.Markdown
import SwiftDecls.Docs.Read
import SwiftDecls.Docs.Source
import SwiftDecls.Generation
import SwiftDecls.Host
import SwiftDecls.Json.Decode
import SwiftDecls.Json.Token
import SwiftDecls.Json.Value
import SwiftDecls.Main
import SwiftDecls.Naming
import SwiftDecls.Number.Literal
import SwiftDecls.Number.Shortest
import SwiftDecls.Output
import SwiftDecls.Path
import SwiftDecls.Proofs.SortedMap
import SwiftDecls.Proofs.Source.Layout
import SwiftDecls.Proofs.Text.Lines
import SwiftDecls.Run
import SwiftDecls.SortedMap
import SwiftDecls.Source.Step
import SwiftDecls.Source.Writer
import SwiftDecls.Summary
import SwiftDecls.Text.Blank
import SwiftDecls.Text.Case
import SwiftDecls.Text.CaseTable
import SwiftDecls.Text.Digits
import SwiftDecls.Text.Pieces
import SwiftDecls.Text.PrintableTable
import SwiftDecls.Text.Quoted
import SwiftDecls.Text.Ranges
import SwiftDecls.Text.Shorter
import SwiftDecls.Toml.Quoted
import SwiftDecls.Toml.Read
import SwiftDecls.Toml.Scalar
import SwiftDecls.Toml.Value
import SwiftDecls.TypeName
import SwiftDecls.Warning
import SwiftDecls.Xml.Attributes
import SwiftDecls.Xml.Entity
import SwiftDecls.Xml.Event
import SwiftDecls.Xml.Fault
import SwiftDecls.Xml.Piece
import SwiftDecls.Proofs.Output
import SwiftDecls.Proofs.Generation.Files
import SwiftDecls.Proofs.Docs.Erasure
import SwiftDecls.Proofs.Generation.Documentation
import SwiftDecls.Proofs.Generation.FileNames
import SwiftDecls.Proofs.Generation.Placement
import SwiftDecls.Proofs.Generation.Modes
import SwiftDecls.Proofs.Generation.Collisions
import SwiftDecls.Proofs.Declarations.Names
import SwiftDecls.Proofs.Text.Pieces
import SwiftDecls.Proofs.TypeName
import SwiftDecls.Proofs.Generation.References
import SwiftDecls.Proofs.Text.Flat
import SwiftDecls.Proofs.FlatNames
import SwiftDecls.Proofs.Source.Nesting
import SwiftDecls.Proofs.Declarations.Nesting
import SwiftDecls.Proofs.Generation.Nesting
import SwiftDecls.Proofs.Classification
import SwiftDecls.Proofs.Declarations.EnumKeys
import SwiftDecls.Proofs.Generation.Order
import SwiftDecls.Proofs.Generation.Edits
import SwiftDecls.Proofs.Path
import SwiftDecls.Proofs.Disk
import SwiftDecls.Proofs.Run.Evaluation
import SwiftDecls.Proofs.Run.Writing
import SwiftDecls.Proofs.Run.Generate
import SwiftDecls.Proofs.Generation.EnumIndex
import SwiftDecls.Proofs.Text.ByteOrder
import SwiftDecls.Proofs.Generation.ConstructorTable
import SwiftDecls.Proofs.Run.Acceptance
import SwiftDecls.Proofs.Generation.Confinement
import SwiftDecls.Proofs.Run.Confinement
import SwiftDecls.Proofs.Generation.Counts
import SwiftDecls.Proofs.Except
import SwiftDecls.Proofs.Number.Integer
import SwiftDecls.Proofs.Json.Spelling
import SwiftDecls.Proofs.Json.Writing
import SwiftDecls.Proofs.Json.Records
import SwiftDecls.Proofs.Json.Rewriting
import SwiftDecls.Proofs.Json.Plain
import SwiftDecls.Proofs.Api.Rules
import SwiftDecls.Proofs.Api.Edits
import SwiftDecls.Proofs.Api.RoundTrip
import SwiftDecls.Proofs.Xml.Tags
import SwiftDecls.Proofs.Xml.Elements
import SwiftDecls.Proofs.Xml.Content
import SwiftDecls.Proofs.Xml.Prolog
import SwiftDecls.Proofs.Docs.Reading
import SwiftDecls.Proofs.Docs.ReadBack
import SwiftDecls.Proofs.Docs.Sections
import SwiftDecls.Proofs.Run.Documentation
import SwiftDecls.Proofs.Run.Warnings
import SwiftDecls.Proofs.Declarations.Members
import SwiftDecls.Proofs.Text.Lowering
import SwiftDecls.Proofs.SchemaNames
import SwiftDecls.Proofs.Naming.Members
import SwiftDecls.Proofs.Naming.Words
import SwiftDecls.Proofs.Generation.CaseNames
import SwiftDecls.Proofs.Disk.Ways
import SwiftDecls.Proofs.Run.Outcome
import SwiftDecls.Proofs.Docs.Markdown
import SwiftDecls.Proofs.Docs.Markup
import SwiftDecls.Proofs.Docs.OwnMembers
import SwiftDecls.Proofs.Text.Ends
import SwiftDecls.Proofs.Docs.Comment
import SwiftDecls.Proofs.Json.Places
import SwiftDecls.Proofs.Api.Parts
import SwiftDecls.Proofs.Api.Missing
import SwiftDecls.Proofs.Api.Integers
import SwiftDecls.Proofs.Declarations.Integers
import SwiftDecls.Proofs.Generation.Integers
import SwiftDecls.Proofs.Source.Indentation
import SwiftDecls.Proofs.Xml.Beginnings
import SwiftDecls.Proofs.Config.File
import SwiftDecls.Proofs.Docs.CutOff
import SwiftDecls.Proofs.Docs.EmptyElements
import SwiftDecls.Proofs.Docs.Composition
import SwiftDecls.Proofs.Text.Digits
import SwiftDecls.Proofs.Xml.References
import SwiftDecls.Proofs.Path.Spelling
import SwiftDecls.Proofs.Output.Insertions
