import TagStamp.Batch.Run

namespace TagStamp

def Diff.FilePatch.toJson (p : Diff.FilePatch) : Json :=
  .object
    [(.text "filePath", .text p.path),
      (.text "original", .text (String.ofList p.old)),
      (.text "modified", .text (String.ofList p.new)),
      (.text "diff", .text (String.ofList p.diff))]

def Backup.toJson (b : Backup) : Json :=
  .object [(.text "backupDir", .text b.directory), (.text "files", .array (b.files.map Json.text))]

def Batch.FileReport.toJson (f : Batch.FileReport) : Json :=
  .object
    [(.text "filePath", .text f.file),
      (.text "annotationsApplied", .int f.applied),
      (.text "annotationsSkipped", .int f.skipped),
      (.text "patch", (f.patch.map Diff.FilePatch.toJson).getD .null)]

def Batch.Report.toJson (r : Batch.Report) : Json :=
  .object
    [(.text "files", .array (r.files.map Batch.FileReport.toJson)),
      (.text "totalApplied", .int r.totalApplied),
      (.text "totalSkipped", .int r.totalSkipped),
      (.text "backup", (r.backup.map Backup.toJson).getD .null)]

end TagStamp
