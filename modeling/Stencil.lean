import Stencil.Attributes
import Stencil.CommandLine.Arguments
import Stencil.CommandLine.Reference
import Stencil.CommandLine.Run
import Stencil.Data.Ingest
import Stencil.Data.Value
import Stencil.Decimal.Layout
import Stencil.Decimal.Shortest
import Stencil.Json.Basic
import Stencil.Json.Cursor
import Stencil.Json.Number
import Stencil.Json.Reader
import Stencil.Live.Document
import Stencil.Live.Fragment
import Stencil.Live.Location
import Stencil.Live.Materialize
import Stencil.Main
import Stencil.Markup.CharacterNames
import Stencil.Markup.Reference
import Stencil.Markup.Tag
import Stencil.Markup.Token
import Stencil.NameMap
import Stencil.Point.Path
import Stencil.Point.Survey
import Stencil.Point.Table
import Stencil.Proofs.Data.Ingest
import Stencil.Proofs.Data.Merging
import Stencil.Proofs.Data.Record
import Stencil.Proofs.Live.Address
import Stencil.Proofs.Live.Appending
import Stencil.Proofs.Live.Building
import Stencil.Proofs.Live.Draft
import Stencil.Proofs.Live.Edit
import Stencil.Proofs.Live.Enclosure
import Stencil.Proofs.Live.Forest
import Stencil.Proofs.Live.Fragment
import Stencil.Proofs.Live.Image
import Stencil.Proofs.Live.Location
import Stencil.Proofs.Live.Move
import Stencil.Proofs.Live.Outline
import Stencil.Proofs.Live.Overflow
import Stencil.Proofs.Live.Reachable
import Stencil.Proofs.Live.ReadBack
import Stencil.Proofs.Live.Rendered
import Stencil.Proofs.Live.Repetitions
import Stencil.Proofs.Live.ReverseLookup
import Stencil.Proofs.Live.Room
import Stencil.Proofs.Live.RoundTrip
import Stencil.Proofs.Live.Scaffold
import Stencil.Proofs.Live.Scratch
import Stencil.Proofs.Live.Selection
import Stencil.Proofs.Live.Sequence
import Stencil.Proofs.Live.Session
import Stencil.Proofs.Live.Walk
import Stencil.Proofs.Markup.Escaping
import Stencil.Proofs.Markup.Reading
import Stencil.Proofs.NameMap
import Stencil.Proofs.Point.Expansion
import Stencil.Proofs.Point.Occurrence
import Stencil.Proofs.Point.Own
import Stencil.Proofs.Point.Path
import Stencil.Proofs.Point.Place
import Stencil.Proofs.Point.Placement
import Stencil.Proofs.Point.Siblings
import Stencil.Proofs.Point.Sightings
import Stencil.Proofs.Point.Survey
import Stencil.Proofs.Point.Table
import Stencil.Proofs.Point.Texts
import Stencil.Proofs.Point.Unresolved
import Stencil.Proofs.Registry.Acyclic
import Stencil.Proofs.Registry.Coherence
import Stencil.Proofs.Registry.Compilation
import Stencil.Proofs.Registry.Inlining
import Stencil.Proofs.Registry.Keys
import Stencil.Proofs.Registry.Order
import Stencil.Proofs.Registry.Permutation
import Stencil.Proofs.Registry.Points
import Stencil.Proofs.Registry.Prefixes
import Stencil.Proofs.Registry.Reachable
import Stencil.Proofs.Registry.Rejection
import Stencil.Proofs.Registry.Requests
import Stencil.Proofs.Registry.Sources
import Stencil.Proofs.Render.Agreement
import Stencil.Proofs.Render.Clean
import Stencil.Proofs.Render.Deepening
import Stencil.Proofs.Render.Elements
import Stencil.Proofs.Render.Emission
import Stencil.Proofs.Render.Ending
import Stencil.Proofs.Render.Entries
import Stencil.Proofs.Render.Entry
import Stencil.Proofs.Render.Exposure
import Stencil.Proofs.Render.Labels
import Stencil.Proofs.Render.OnePoint
import Stencil.Proofs.Render.Passing
import Stencil.Proofs.Render.Paths
import Stencil.Proofs.Render.Positions
import Stencil.Proofs.Render.Relevance
import Stencil.Proofs.Render.Repetition
import Stencil.Proofs.Render.Reveal
import Stencil.Proofs.Render.SlotContent
import Stencil.Proofs.Render.Standing
import Stencil.Proofs.Render.Supply
import Stencil.Proofs.Render.Tidy
import Stencil.Proofs.Render.Writing
import Stencil.Proofs.Source.Acceptance
import Stencil.Proofs.Source.Comments
import Stencil.Proofs.Source.Completion
import Stencil.Proofs.Source.Derivation
import Stencil.Proofs.Source.Header
import Stencil.Proofs.Source.History
import Stencil.Proofs.Source.Layout
import Stencil.Proofs.Source.Lines
import Stencil.Proofs.Source.Reading
import Stencil.Proofs.Source.Spans
import Stencil.Proofs.Source.Spelling
import Stencil.Proofs.Source.Viability
import Stencil.Proofs.Template.Alone
import Stencil.Proofs.Template.Copy
import Stencil.Proofs.Template.Names
import Stencil.Proofs.Template.Numbered
import Stencil.Proofs.Template.Plain
import Stencil.Proofs.Template.Texts
import Stencil.Registry.Basic
import Stencil.Registry.Order
import Stencil.Render.Binding
import Stencil.Render.Node
import Stencil.Render.Piece
import Stencil.Render.Template
import Stencil.Settings.Basic
import Stencil.Settings.Reader
import Stencil.Source.Grammar
import Stencil.Source.Lexer
import Stencil.Source.Parse
import Stencil.Source.Report
import Stencil.Source.Token
import Stencil.Template.Node
import Stencil.Template.Tree
import Stencil.Text.Classes
import Stencil.Text.Digits
import Stencil.Text.Quoted
import Stencil.Toml.Basic
import Stencil.Toml.Reader
import Stencil.Toml.Scalar
