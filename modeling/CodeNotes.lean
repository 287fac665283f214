import CodeNotes.Command.Run
import CodeNotes.Config.Project
import CodeNotes.Disk.Access
import CodeNotes.Document.Json
import CodeNotes.Document.Markdown
import CodeNotes.Main
import CodeNotes.Note.Marker
import CodeNotes.Note.Order
import CodeNotes.Project.Build
import CodeNotes.Proofs.Document.Sections
import CodeNotes.Proofs.Path.Components
import CodeNotes.Proofs.Project.Discovery
import CodeNotes.Proofs.Project.Schedule
import CodeNotes.Proofs.Source.Embedding
import CodeNotes.Source.Extract
import CodeNotes.Proofs.Disk.Walk
import CodeNotes.Proofs.Project.Alike
import CodeNotes.Proofs.Project.Selection
import CodeNotes.Proofs.Disk.Write
import CodeNotes.Proofs.Disk.Change
import CodeNotes.Proofs.Command.Run
import CodeNotes.Proofs.Pattern.Search
import CodeNotes.Proofs.Pattern.NewFile
import CodeNotes.Proofs.Command.Regeneration
import CodeNotes.Proofs.Disk.Placed
import CodeNotes.Proofs.Pattern.Escape
import CodeNotes.Proofs.Pattern.Descent
import CodeNotes.Proofs.Pattern.Relocation
import CodeNotes.Proofs.Project.Relocation
import CodeNotes.Proofs.Note.Grammar
import CodeNotes.Proofs.Note.Outline
import CodeNotes.Proofs.Config.Layers
import CodeNotes.Proofs.Command.Arguments
import CodeNotes.Proofs.Command.Settings
import CodeNotes.Proofs.Note.Spelling
import CodeNotes.Proofs.Note.Padding
import CodeNotes.Proofs.Source.Lines
import CodeNotes.Proofs.Source.Order
import CodeNotes.Proofs.Source.Fault
import CodeNotes.Proofs.Source.Delimiters
import CodeNotes.Proofs.Document.Headings
import CodeNotes.Proofs.Source.LineEndings
import CodeNotes.Proofs.Path.Lexical
import CodeNotes.Proofs.Document.Links
import CodeNotes.Proofs.Pattern.Course
import CodeNotes.Proofs.Project.Union
import CodeNotes.Proofs.Project.Spellings
import CodeNotes.Proofs.Source.Shebang
import CodeNotes.Proofs.Text.Cut
import CodeNotes.Proofs.Document.Separator
import CodeNotes.Proofs.Document.Hierarchy
