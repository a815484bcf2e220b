import SchemaDoc.Command.Arguments
import SchemaDoc.Command.Output
import SchemaDoc.Command.Run
import SchemaDoc.Command.Selection
import SchemaDoc.Command.Session
import SchemaDoc.Diagnostic
import SchemaDoc.Json
import SchemaDoc.Json.Reader
import SchemaDoc.Main
import SchemaDoc.Message
import SchemaDoc.ModulePath
import SchemaDoc.Number.Binary64
import SchemaDoc.Number.Shortest
import SchemaDoc.Number.Word
import SchemaDoc.Parser.Cursor
import SchemaDoc.Parser.Document
import SchemaDoc.Parser.InPlace
import SchemaDoc.Parser.Literal
import SchemaDoc.Parser.Production
import SchemaDoc.Parser.Sequence
import SchemaDoc.Parser.TypeExpr
import SchemaDoc.Project.Ignore
import SchemaDoc.Project.Layering
import SchemaDoc.Project.Layout
import SchemaDoc.Project.Settings
import SchemaDoc.Project.Status
import SchemaDoc.Report.Diagnostics
import SchemaDoc.Report.Symbols
import SchemaDoc.Storage.Documents
import SchemaDoc.Storage.FileTree
import SchemaDoc.Storage.Path
import SchemaDoc.Symbol.Basic
import SchemaDoc.Symbol.Display
import SchemaDoc.Symbol.Nested
import SchemaDoc.Symbol.Query
import SchemaDoc.Symbol.Table
import SchemaDoc.Text.Blank
import SchemaDoc.Text.LineIndex
import SchemaDoc.Text.Printable
import SchemaDoc.Text.Quoted
import SchemaDoc.Text.Span
import SchemaDoc.Text.Uri
import SchemaDoc.Text.Utf8
import SchemaDoc.Text.Wildcard
import SchemaDoc.Toml.Reader
import SchemaDoc.Toml.Value
import SchemaDoc.Toml.Writer
import SchemaDoc.Tree.Node
import SchemaDoc.Wire.Diagnostic
import SchemaDoc.Wire.Node
import SchemaDoc.Wire.Settings
import SchemaDoc.Wire.Symbol
import SchemaDoc.Workspace.Basic
import SchemaDoc.Workspace.Check
import SchemaDoc.Workspace.Hoist
import SchemaDoc.Workspace.Load
import SchemaDoc.Workspace.Records
import SchemaDoc.Workspace.Resolve
import SchemaDoc.Proofs.CursorReading
import SchemaDoc.Proofs.NodePlacement
import SchemaDoc.Proofs.ProductionLaws
import SchemaDoc.Proofs.LiteralLaws
import SchemaDoc.Proofs.SequenceLaws
import SchemaDoc.Proofs.DeclarationLaws
import SchemaDoc.Proofs.DocumentOutline
import SchemaDoc.Proofs.CompleteParts
import SchemaDoc.Proofs.DocumentCoverage
import SchemaDoc.Proofs.CompleteTree
import SchemaDoc.Proofs.TokenReading
import SchemaDoc.Proofs.SpreadReading
import SchemaDoc.Proofs.EntryReading
import SchemaDoc.Proofs.FormReading
import SchemaDoc.Proofs.GrammarAcceptance
import SchemaDoc.Proofs.PassSteps
import SchemaDoc.Proofs.SymbolTableLaws
import SchemaDoc.Proofs.PassCoupling
import SchemaDoc.Proofs.LoadProgress
import SchemaDoc.Proofs.Histories
import SchemaDoc.Proofs.LoadStack
import SchemaDoc.Proofs.UsageFrame
import SchemaDoc.Proofs.TracedTree
import SchemaDoc.Proofs.ExactLeaves
import SchemaDoc.Proofs.LegibleTree
import SchemaDoc.Proofs.ModuleNames
import SchemaDoc.Proofs.UsagePlaces
import SchemaDoc.Proofs.TableViews
import SchemaDoc.Proofs.DeclarationZones
import SchemaDoc.Proofs.CoherentWorkspaces
import SchemaDoc.Proofs.FreshOutcomes
import SchemaDoc.Proofs.OrderIndependence
import SchemaDoc.Proofs.SettledReferences
import SchemaDoc.Proofs.PassInvariants
import SchemaDoc.Proofs.PassStages
import SchemaDoc.Proofs.ReportedResolutions
import SchemaDoc.Proofs.AliasChains
import SchemaDoc.Proofs.SoleDeclarations
import SchemaDoc.Proofs.SoundInvalidation
import SchemaDoc.Proofs.SoundTables
import SchemaDoc.Proofs.DeclarationActs
import SchemaDoc.Proofs.AttendedChecks
import SchemaDoc.Proofs.LastingOutcomes
import SchemaDoc.Proofs.OwnFields
import SchemaDoc.Proofs.DescribedObjects
import SchemaDoc.Proofs.ExactClearing
import SchemaDoc.Proofs.KeyedEntries
import SchemaDoc.Proofs.NestedTables
import SchemaDoc.Proofs.FlattenedTables
import SchemaDoc.Proofs.InvalidationLoop
import SchemaDoc.Proofs.ExactInvalidation
import SchemaDoc.Proofs.SoleMembers
import SchemaDoc.Proofs.StillPlaces
import SchemaDoc.Proofs.BodyAccounts
import SchemaDoc.Proofs.NestedRuns
import SchemaDoc.Proofs.DeclaredTypes
import SchemaDoc.Proofs.QueryChains
import SchemaDoc.Proofs.AliasEnds
import SchemaDoc.Proofs.UriRoundTrip
import SchemaDoc.Proofs.FilePaths
import SchemaDoc.Proofs.ScannedModules
import SchemaDoc.Proofs.MatchedInjections
import SchemaDoc.Proofs.DocumentHistories
import SchemaDoc.Proofs.SequenceProgress
import SchemaDoc.Proofs.TrailingSeparators
import SchemaDoc.Proofs.EmbeddedReading
import SchemaDoc.Proofs.EmbeddedProductions
import SchemaDoc.Proofs.EmbeddedSequences
import SchemaDoc.Proofs.EmbeddedDeclarations
import SchemaDoc.Proofs.JoinedDocuments
import SchemaDoc.Proofs.SettingLayers
import SchemaDoc.Proofs.DocumentSelection
import SchemaDoc.Proofs.ModuleFilter
import SchemaDoc.Proofs.LineColumns
import SchemaDoc.Proofs.JsonText
import SchemaDoc.Proofs.DiagnosticRoundTrip
import SchemaDoc.Proofs.InPlaceProductions
import SchemaDoc.Proofs.ParserContract
import SchemaDoc.Proofs.FilledTemplates
