import TagOverlay.Buffer.LineList
import TagOverlay.Decoration.FaultySurface
import TagOverlay.Main
import TagOverlay.Text.Ruler
import TagOverlay.Buffer.Sweep
import TagOverlay.Proofs.Buffer.NextEnd
import TagOverlay.Proofs.Tag.FlatText
import TagOverlay.Proofs.Decoration.Entries
import TagOverlay.Proofs.Decoration.Lookup
import TagOverlay.Proofs.Decoration.DrawsOrRefuses
import TagOverlay.Proofs.Decoration.Exchange
import TagOverlay.Proofs.Decoration.InStep
import TagOverlay.Proofs.Decoration.Sharing
import TagOverlay.Proofs.Session.Marks
import TagOverlay.Proofs.Session.InMemory
import TagOverlay.Proofs.Session.Refinement
import TagOverlay.Proofs.Session.Refusals
import TagOverlay.Proofs.Session.Walk
import TagOverlay.Proofs.Buffer.Lines
import TagOverlay.Proofs.Buffer.Reading
import TagOverlay.Proofs.Buffer.Carets
import TagOverlay.Proofs.Buffer.SpanText
import TagOverlay.Proofs.Tag.EditorLines
import TagOverlay.Proofs.Tag.Matches
import TagOverlay.Proofs.Session.StartTags
import TagOverlay.Proofs.Session.Element
import TagOverlay.Proofs.Session.Marking
import TagOverlay.Proofs.Session.ReviewLooks
import TagOverlay.Proofs.Viewer.Tour
import TagOverlay.Proofs.Session.TagLayout
import TagOverlay.Proofs.Tag.GreedyMatches
import TagOverlay.Proofs.Tag.Expansion
import TagOverlay.Proofs.Session.Coherence
import TagOverlay.Proofs.Session.Coloring
import TagOverlay.Proofs.Session.TagText
import TagOverlay.Proofs.Decoration.Innermost
import TagOverlay.Proofs.Session.Caret
import TagOverlay.Proofs.Decoration.Surplus
import TagOverlay.Proofs.Viewer.Journey
import TagOverlay.Proofs.Files.Loading
import TagOverlay.Proofs.Json.Records
import TagOverlay.Proofs.Files.Updates
import TagOverlay.Proofs.Files.Writing
import TagOverlay.Proofs.Toml.Entries
import TagOverlay.Proofs.Config.Expansion
import TagOverlay.Proofs.Config.SaveLoad
import TagOverlay.Proofs.Tag.ClosingTag
import TagOverlay.Proofs.Decoration.BatchAnswers
import TagOverlay.Proofs.Decoration.Removal
import TagOverlay.Proofs.Tag.Reshaping
import TagOverlay.Proofs.Highlight.Stretches
import TagOverlay.Proofs.Session.SelfClosing
import TagOverlay.Proofs.Viewer.Window
import TagOverlay.Proofs.Files.PathOrder
import TagOverlay.Proofs.Files.Scanning
import TagOverlay.Proofs.Highlight.Colors
