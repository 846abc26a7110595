namespace TagStamp.CommandLine

/-- Lines as one text, each with its line feed. -/
def paragraph (lines : List String) : String :=
  String.join (lines.map (· ++ "\n"))

def programUsage : List String :=
  ["usage: uic [-h] [--version] [--verbose | --quiet] \x7bannotate\x7d ..."]

def annotateUsage : List String :=
  ["usage: uic annotate [-h] [--manifest MANIFEST] [--dry-run | --write]",
   "                    [--backup-dir BACKUP_DIR] [--json]"]

def versionText : String := "uic 0.1.0\n"

def programHelp : List String :=
  programUsage ++
  ["",
   "Stable identifiers for interactive UI elements",
   "",
   "positional arguments:",
   "  \x7bannotate\x7d",
   "    annotate     Insert data-agent-id attributes into source files",
   "",
   "options:",
   "  -h, --help     show this help message and exit",
   "  --version      show program's version number and exit",
   "  --verbose, -v  Debug logging",
   "  --quiet, -q    Errors only (also hides warnings about unreadable source",
   "                 files)"]

def annotateHelp : List String :=
  annotateUsage ++
  ["",
   "Insert data-agent-id attributes into source files based on a manifest.",
   "",
   "options:",
   "  -h, --help            show this help message and exit",
   "  --manifest MANIFEST   Path to manifest file (default: manifest.json)",
   "  --dry-run             Show patches without modifying files (default)",
   "  --write               Modify source files in place (creates a backup first)",
   "  --backup-dir BACKUP_DIR",
   "                        Backup directory (default: .uic-backup)",
   "  --json                Output results as JSON (with --write the backup is",
   "                        already discarded, so backup is null)",
   "",
   "examples:",
   "  uic annotate",
   "  uic annotate --manifest named-manifest.json --dry-run",
   "  uic annotate --write --backup-dir ./my-backup",
   "  uic annotate --json"]

end TagStamp.CommandLine
