import EnumBlocks.Document.Request
import EnumBlocks.FileTree.System
import EnumBlocks.Main
import EnumBlocks.World
import EnumBlocks.Proofs.Braces
import EnumBlocks.Proofs.Declaration
import EnumBlocks.Proofs.Printer
import EnumBlocks.Proofs.Span
import EnumBlocks.Proofs.Splice
import EnumBlocks.Proofs.Independence
import EnumBlocks.Proofs.Entry
import EnumBlocks.Proofs.Reading
import EnumBlocks.Proofs.Outline
import EnumBlocks.Proofs.ReadEntries
import EnumBlocks.Proofs.BlockText
import EnumBlocks.Proofs.CommitLines
import EnumBlocks.Proofs.OneLine
import EnumBlocks.Proofs.Layout
import EnumBlocks.Proofs.WellFormed
import EnumBlocks.Proofs.FixedPoint
import EnumBlocks.Proofs.Rewriting
import EnumBlocks.Proofs.Saving
import EnumBlocks.Proofs.Session
import EnumBlocks.Proofs.RoundTrip
import EnumBlocks.Proofs.Loss
import EnumBlocks.Proofs.Survival
import EnumBlocks.Proofs.History
import EnumBlocks.Proofs.Agreement
import EnumBlocks.Proofs.Text.Utf8
import EnumBlocks.Proofs.FileLines
import EnumBlocks.Proofs.FileBytes
import EnumBlocks.Proofs.World
import EnumBlocks.Proofs.StoredFile
import EnumBlocks.Proofs.Preservation
import EnumBlocks.Proofs.Restoring
import EnumBlocks.Proofs.Counting
import EnumBlocks.Proofs.SparseSave
import EnumBlocks.Proofs.Replacement
import EnumBlocks.Proofs.Convergence
import EnumBlocks.Proofs.FailedSave
import EnumBlocks.Proofs.Removal
import EnumBlocks.Proofs.Insertion
import EnumBlocks.Proofs.Repetition
import EnumBlocks.Proofs.Balance
import EnumBlocks.Proofs.EntryRoundTrip
import EnumBlocks.Proofs.Heading
import EnumBlocks.Proofs.BracePlacement
import EnumBlocks.Proofs.EntryText
import EnumBlocks.Proofs.EntryList
import EnumBlocks.Proofs.BodyLayout
import EnumBlocks.Proofs.Normalization
import EnumBlocks.Proofs.Accounting
import EnumBlocks.Proofs.Composition
import EnumBlocks.Proofs.Additions
import EnumBlocks.Proofs.Heads
import EnumBlocks.Proofs.Directives
import EnumBlocks.Proofs.EntryTail
import EnumBlocks.Proofs.CommentPlace
import EnumBlocks.Proofs.InPlace
import EnumBlocks.Proofs.Naming
import EnumBlocks.Proofs.Running
import EnumBlocks.Proofs.Unlocated
import EnumBlocks.Proofs.FailedRun
import EnumBlocks.Proofs.Rereading
import EnumBlocks.Proofs.SharedFile
import EnumBlocks.Proofs.Overwriting
import EnumBlocks.Proofs.SavedFile
import EnumBlocks.Proofs.AppendWords
import EnumBlocks.Proofs.GivenEntries
import EnumBlocks.Proofs.SuccessfulRun
import EnumBlocks.Proofs.AppendRuns
import EnumBlocks.Proofs.FreshName
import EnumBlocks.Proofs.EntryPlaces
import EnumBlocks.Proofs.EntryEdits
import EnumBlocks.Proofs.Undoing
import EnumBlocks.Proofs.Locality
import EnumBlocks.Proofs.Literal
import EnumBlocks.Proofs.WrittenLines
import EnumBlocks.Proofs.RunningText
