import TagTemplate.Assembly.Progress
import TagTemplate.Compile
import TagTemplate.Cursor
import TagTemplate.Node.Json
import TagTemplate.Node.Walk
import TagTemplate.Pattern.Catalogue
import TagTemplate.Proofs.Argument.Agreement
import TagTemplate.Proofs.Argument.Layout
import TagTemplate.Proofs.Argument.Written
import TagTemplate.Proofs.Assembly.Outline
import TagTemplate.Proofs.Balance
import TagTemplate.Proofs.Caret
import TagTemplate.Proofs.ChangeLine
import TagTemplate.Proofs.Column
import TagTemplate.Proofs.Concatenation
import TagTemplate.Proofs.Cursor.Pattern
import TagTemplate.Proofs.Delimiters
import TagTemplate.Proofs.Elision
import TagTemplate.Proofs.LineEnding.Compile
import TagTemplate.Proofs.Machine.Basic
import TagTemplate.Proofs.Machine.Image
import TagTemplate.Proofs.Machine.Progress
import TagTemplate.Proofs.Machine.Reading
import TagTemplate.Proofs.Machine.Round
import TagTemplate.Proofs.Machine.Safety
import TagTemplate.Proofs.Machine.Scanner
import TagTemplate.Proofs.Node.Json
import TagTemplate.Proofs.Node.Queries
import TagTemplate.Proofs.Node.WellFormed
import TagTemplate.Proofs.Pattern.Match
import TagTemplate.Proofs.Printer.Template
import TagTemplate.Proofs.Reader.Place
import TagTemplate.Proofs.Recompilation
import TagTemplate.Proofs.Replay
import TagTemplate.Proofs.SectionSource
import TagTemplate.Proofs.Surviving
import TagTemplate.Proofs.Tag.Fault
import TagTemplate.Proofs.Tag.Place
import TagTemplate.Proofs.Text.Place
import TagTemplate.Proofs.Trace
import TagTemplate.Proofs.Unescaped
