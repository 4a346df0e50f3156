import EventScript.Assembly.Basic
import EventScript.Catalog.Definition
import EventScript.Catalog.Loading
import EventScript.Code.Decoding
import EventScript.Code.Label
import EventScript.CommandLine.Execution
import EventScript.Container.Units
import EventScript.Disk.Job
import EventScript.Listing.Basic
import EventScript.Main
import EventScript.Patch.Loading
import EventScript.Patch.Reading
import EventScript.Proofs.BatchMaps
import EventScript.Proofs.BatchRuns
import EventScript.Proofs.BlankLines
import EventScript.Proofs.BodyLines
import EventScript.Proofs.CatalogNames
import EventScript.Proofs.Changes
import EventScript.Proofs.Chunks
import EventScript.Proofs.Codec
import EventScript.Proofs.ContainerBytes
import EventScript.Proofs.Decoded
import EventScript.Proofs.DefinedNames
import EventScript.Proofs.DialogueTexts
import EventScript.Proofs.DirectObjects
import EventScript.Proofs.EntryLists
import EventScript.Proofs.Growth
import EventScript.Proofs.Jumps
import EventScript.Proofs.LabelBodies
import EventScript.Proofs.LabelLines
import EventScript.Proofs.LabelMarks
import EventScript.Proofs.LabelNames
import EventScript.Proofs.LabelPlaces
import EventScript.Proofs.LabelReading
import EventScript.Proofs.LabelSlots
import EventScript.Proofs.LabelTexts
import EventScript.Proofs.LabelTokens
import EventScript.Proofs.Labels
import EventScript.Proofs.Layout
import EventScript.Proofs.Lexeme
import EventScript.Proofs.LineAcceptance
import EventScript.Proofs.ListingAcceptance
import EventScript.Proofs.ListingOutline
import EventScript.Proofs.Located
import EventScript.Proofs.MapNames
import EventScript.Proofs.MapRoundTrip
import EventScript.Proofs.Normal
import EventScript.Proofs.NumberedLines
import EventScript.Proofs.OpenLiterals
import EventScript.Proofs.Origin
import EventScript.Proofs.Outline
import EventScript.Proofs.Partition
import EventScript.Proofs.PatchHistories
import EventScript.Proofs.PatchTables
import EventScript.Proofs.PatchTargets
import EventScript.Proofs.PatchTexts
import EventScript.Proofs.Places
import EventScript.Proofs.PreambleLines
import EventScript.Proofs.PreambleRoundTrip
import EventScript.Proofs.PreambleSettings
import EventScript.Proofs.Prepass
import EventScript.Proofs.PrintedNames
import EventScript.Proofs.Printing
import EventScript.Proofs.QuotedLines
import EventScript.Proofs.Reading
import EventScript.Proofs.ReadingBounds
import EventScript.Proofs.Reassembly
import EventScript.Proofs.Recompiling
import EventScript.Proofs.Records
import EventScript.Proofs.Refusals
import EventScript.Proofs.Renumbering
import EventScript.Proofs.Replacement
import EventScript.Proofs.Rereading
import EventScript.Proofs.Resolving
import EventScript.Proofs.Rewording
import EventScript.Proofs.RoundTrip
import EventScript.Proofs.Running
import EventScript.Proofs.Scanning
import EventScript.Proofs.Segments
import EventScript.Proofs.Stability
import EventScript.Proofs.StatementText
import EventScript.Proofs.SteadyLoads
import EventScript.Proofs.Storing
import EventScript.Proofs.StringPool
import EventScript.Proofs.Tables
import EventScript.Proofs.UnitAcceptance
import EventScript.Proofs.UnitRows
import EventScript.Proofs.UnitTexts
import EventScript.Proofs.Utf8
import EventScript.Proofs.ValueCodec
import EventScript.Proofs.Windows
import EventScript.Settings
import EventScript.Source.Expr
import EventScript.Source.Lexer
import EventScript.Source.Line
import EventScript.Source.Reading
import EventScript.Text.Quoted
import EventScript.Text.Utf8
