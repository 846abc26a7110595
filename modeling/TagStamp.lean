import TagStamp.Text.Basic
import TagStamp.Text.Blank
import TagStamp.Text.CodeString
import TagStamp.Text.Digit
import TagStamp.Text.Printable
import TagStamp.Text.Quoted
import TagStamp.Text.Range
import TagStamp.Text.Utf8
import TagStamp.Text.Word
import TagStamp.Attribute.Edit
import TagStamp.Tag.Close
import TagStamp.Tag.Start
import TagStamp.Diff.Hunk
import TagStamp.Diff.Patch
import TagStamp.Stamp.Pass
import TagStamp.Decimal.Binary64
import TagStamp.Decimal.Layout
import TagStamp.Json.Reader
import TagStamp.Json.Writer
import TagStamp.FileTree.Basic
import TagStamp.FileTree.Error
import TagStamp.FileTree.Resolve
import TagStamp.FileTree.Standpoint
import TagStamp.Manifest.Check
import TagStamp.Manifest.Schema
import TagStamp.Backup
import TagStamp.Batch.Run
import TagStamp.Manifest.Load
import TagStamp.Batch.ReportJson
import TagStamp.CommandLine.Annotate
import TagStamp.CommandLine.Execution
import TagStamp.Main
import TagStamp.Proofs.Tag.FlatScan
import TagStamp.Proofs.Stamp.Splice
import TagStamp.Proofs.Attribute.Leftmost
import TagStamp.Proofs.Tag.Opening
import TagStamp.Proofs.Tag.Whole
import TagStamp.Proofs.Stamp.TagEdit
import TagStamp.Proofs.Text.Insertion
import TagStamp.Proofs.Stamp.Insertion
import TagStamp.Proofs.Stamp.Idempotence
import TagStamp.Proofs.Diff.Applier
import TagStamp.Proofs.Stamp.Ownership
import TagStamp.Proofs.Diff.RoundTrip
import TagStamp.Proofs.Stamp.Frame
import TagStamp.Proofs.FileTree.Plain
import TagStamp.Proofs.Path.Spelling
import TagStamp.Proofs.Workspace.Ends
import TagStamp.Proofs.FileTree.Lookup
import TagStamp.Proofs.FileTree.Resolution
import TagStamp.Proofs.Workspace.Frame
import TagStamp.Proofs.Workspace.Disk
import TagStamp.Proofs.Backup.Copies
import TagStamp.Proofs.Batch.Grouping
import TagStamp.Proofs.Batch.Review
import TagStamp.Proofs.Batch.Commit
import TagStamp.Proofs.CommandLine.Loading
import TagStamp.Proofs.CommandLine.Recovery
import TagStamp.Proofs.CommandLine.Preview
import TagStamp.Proofs.CommandLine.Outcome
import TagStamp.Proofs.CommandLine.Execution
import TagStamp.Proofs.CommandLine.Collateral
import TagStamp.Proofs.CommandLine.Originals
import TagStamp.Proofs.CommandLine.Agreement
import TagStamp.Proofs.Stamp.OneByOne
import TagStamp.Proofs.Workspace.Again
import TagStamp.Proofs.Backup.RoundTrip
import TagStamp.Proofs.Text.Utf8
import TagStamp.Proofs.Json.Limits
import TagStamp.Proofs.CommandLine.ManifestErrors
import TagStamp.Proofs.Stamp.EditLines
import TagStamp.Proofs.Manifest.Validation
import TagStamp.Proofs.Manifest.Downstream
import TagStamp.Proofs.Attribute.Assignment
import TagStamp.Proofs.Stamp.Renaming
import TagStamp.Proofs.Workspace.Transcript
import TagStamp.Proofs.Batch.Isolation
import TagStamp.Proofs.Batch.Patches
import TagStamp.Proofs.Attribute.Recognition
import TagStamp.Proofs.Tag.Lexer
import TagStamp.Proofs.Diff.HunkLayout
import TagStamp.Proofs.Diff.Isolated
import TagStamp.Proofs.Diff.Validity
import TagStamp.Proofs.Tag.Location
import TagStamp.Proofs.Backup.Layout
import TagStamp.Proofs.Batch.Confinement
