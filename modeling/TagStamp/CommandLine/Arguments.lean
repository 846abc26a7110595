import TagStamp.CommandLine.Usage
import TagStamp.Text.Digit
import TagStamp.Text.Quoted

namespace TagStamp.CommandLine

inductive Flag
  | help
  | version
  | verbose
  | quiet
  | manifest
  | dryRun
  | write
  | backupDirectory
  | json
deriving DecidableEq, Repr

structure Switch where
  flag : Flag
  names : List String
  takesValue : Bool := false
deriving DecidableEq, Repr

def Switch.label (s : Switch) : String :=
  "/".intercalate s.names

/-- What one level of the command line accepts. -/
structure Grammar where
  program : String
  usage : String
  help : String
  switches : List Switch
  /-- Pairs of flags that do not go together. -/
  exclusive : List (Flag × Flag)
  /-- Whether the first argument that is no option is a command, with the rest for its arguments. -/
  takesCommand : Bool

def programGrammar : Grammar where
  program := "uic"
  usage := paragraph programUsage
  help := paragraph programHelp
  switches :=
    [⟨.help, ["-h", "--help"], false⟩, ⟨.version, ["--version"], false⟩,
      ⟨.verbose, ["--verbose", "-v"], false⟩, ⟨.quiet, ["--quiet", "-q"], false⟩]
  exclusive := [(.verbose, .quiet)]
  takesCommand := true

def annotateGrammar : Grammar where
  program := "uic annotate"
  usage := paragraph annotateUsage
  help := paragraph annotateHelp
  switches :=
    [⟨.help, ["-h", "--help"], false⟩, ⟨.manifest, ["--manifest"], true⟩,
      ⟨.dryRun, ["--dry-run"], false⟩, ⟨.write, ["--write"], false⟩,
      ⟨.backupDirectory, ["--backup-dir"], true⟩, ⟨.json, ["--json"], false⟩]
  exclusive := [(.dryRun, .write)]
  takesCommand := false

/-- Why nothing is run: a text was asked for, or the arguments make no sense. -/
inductive Stop
  | shown (text : String)
  | misused (program usage message : String)
deriving DecidableEq, Repr

/-- How an argument is understood on its own. -/
inductive Token
  | plain
  /-- Two dashes; everything after them is plain. -/
  | dashes
  | unknown
  /-- An option under one of its names, maybe with a value attached. -/
  | option (switch : Switch) (name : String) (attached : Option String)
deriving DecidableEq, Repr

namespace Grammar

def misuse {α : Type} (g : Grammar) (message : String) : Except Stop α :=
  .error (.misused g.program g.usage message)

def misuseOf {α : Type} (g : Grammar) (switch : Switch) (message : String) : Except Stop α :=
  g.misuse ("argument " ++ switch.label ++ ": " ++ message)

/-- All names of options with the options they stand for. -/
def names (g : Grammar) : List (String × Switch) :=
  g.switches.flatMap fun s => s.names.map fun name => (name, s)

def find? (g : Grammar) (name : String) : Option Switch :=
  (g.names.find? (·.1 = name)).map Prod.snd

/-- What stands before the first equals sign, and what stands after it. -/
def splitValue (arg : Text) : Text × Option Text :=
  match arg.dropWhile (· ≠ '=') with
  | [] => (arg, none)
  | _ :: value => (arg.takeWhile (· ≠ '='), some value)

/-- All ways to read an argument as an option that is not written out in full. -/
def readings (g : Grammar) (arg : Text) : List (String × Token) :=
  match arg with
  | '-' :: '-' :: _ =>
    let (start, value) := splitValue arg
    g.names.filterMap fun (name, switch) =>
      if start.isPrefixOf name.toList then
        some (name, .option switch name (value.map String.ofList))
      else none
  | _ =>
    g.names.filterMap fun (name, switch) =>
      if name.toList = arg.take 2 then
        some (name, .option switch name (some (String.ofList (arg.drop 2))))
      else if arg.isPrefixOf name.toList then some (name, .option switch name none)
      else none

/-- A negative number is no option; a line feed may end it. -/
def isNegativeNumber (arg : Text) : Bool :=
  match arg with
  | '-' :: number =>
    let number := if number.getLast? = some '\n' then number.dropLast else number
    match Text.pieces '.' number with
    | [whole] => !whole.isEmpty && whole.all Text.isDecimalDigit
    | [whole, fraction] =>
      whole.all Text.isDecimalDigit && !fraction.isEmpty && fraction.all Text.isDecimalDigit
    | _ => false
  | _ => false

/-- Understands one argument. -/
def token (g : Grammar) (arg : String) : Except Stop Token :=
  let text := arg.toList
  if text.head? ≠ some '-' then .ok .plain
  else match g.find? arg with
    | some switch => .ok (.option switch arg none)
    | none =>
      if text.length = 1 then .ok .plain
      else
        let (start, value) := splitValue text
        match value, g.find? (String.ofList start) with
        | some value, some switch =>
          .ok (.option switch (String.ofList start) (some (String.ofList value)))
        | _, _ =>
          match g.readings text with
          | [(_, token)] => .ok token
          | [] => .ok (if isNegativeNumber text || text.contains ' ' then .plain else .unknown)
          | several =>
            g.misuse ("ambiguous option: " ++ arg ++ " could match " ++
              ", ".intercalate (several.map Prod.fst))

/-- Understands all arguments, before any of them has an effect. -/
def tokens (g : Grammar) : List String → Except Stop (List (String × Token))
  | [] => .ok []
  | arg :: rest =>
    if arg = "--" then .ok ((arg, .dashes) :: rest.map fun arg => (arg, .plain))
    else do
      let token ← g.token arg
      return (arg, token) :: (← g.tokens rest)

end Grammar

/-- The arguments read so far: options in order, arguments that nothing was made of, and the command with
its own arguments. -/
structure Parsed where
  given : List (Flag × Option String) := []
  extras : List String := []
  command : Option (List String) := none
deriving DecidableEq, Repr

namespace Grammar

/-- The flags that do not go together with a flag. -/
def conflicts (g : Grammar) (flag : Flag) : List Flag :=
  g.exclusive.filterMap fun (a, b) =>
    if a = flag then some b else if b = flag then some a else none

def labelOf (g : Grammar) (flag : Flag) : String :=
  ((g.switches.find? (·.flag = flag)).map Switch.label).getD ""

/-- Gives an option its effect. -/
def take (g : Grammar) (parsed : Parsed) (switch : Switch) (value : Option String) :
    Except Stop Parsed :=
  match (g.conflicts switch.flag).find? fun flag => parsed.given.any (·.1 = flag) with
  | some other => g.misuseOf switch ("not allowed with argument " ++ g.labelOf other)
  | none =>
    match switch.flag with
    | .help => .error (.shown g.help)
    | .version => .error (.shown versionText)
    | flag => .ok { parsed with given := parsed.given ++ [(flag, value)] }

def ignored {α : Type} (g : Grammar) (switch : Switch) (value : Text) : Except Stop α :=
  g.misuseOf switch ("ignored explicit argument " ++ String.ofList (Text.quote value))

/-- The options of one letter that share a dash. -/
def cluster (g : Grammar) (switch : Switch) : Text → Except Stop (List Switch)
  | [] => .ok [switch]
  | c :: rest =>
    match g.find? (String.ofList ['-', c]) with
    | some next => do return switch :: (← g.cluster next rest)
    | none => g.ignored switch (c :: rest)

/-- An attached value that consists of two dashes counts as none. -/
def attachedValue (value : String) : Option String :=
  if value = "--" then none else some value

/-- Takes an option that has a value attached to it. -/
def takeAttached (g : Grammar) (parsed : Parsed) (switch : Switch) (name value : String) :
    Except Stop Parsed := do
  if switch.takesValue then g.take parsed switch (attachedValue value)
  else if value.isEmpty || "--".isPrefixOf name then g.ignored switch value.toList
  else (← g.cluster switch value.toList).foldlM (fun parsed switch => g.take parsed switch none) parsed

/-- Goes through the arguments from left to right. -/
def consume (g : Grammar) : Parsed → List (String × Token) → Except Stop Parsed
  | parsed, [] => .ok parsed
  | parsed, (arg, .unknown) :: rest => g.consume { parsed with extras := parsed.extras ++ [arg] } rest
  | parsed, (_, .option switch name (some value)) :: rest => do
    g.consume (← g.takeAttached parsed switch name value) rest
  | parsed, (_, .option switch _ none) :: rest =>
    if switch.takesValue then
      match rest with
      | (value, .plain) :: rest => do g.consume (← g.take parsed switch (some value)) rest
      | _ => g.misuseOf switch "expected one argument"
    else do g.consume (← g.take parsed switch none) rest
  | parsed, (arg, token) :: rest =>
    if g.takesCommand && (token = .plain || !rest.isEmpty) then
      .ok { parsed with command := some (arg :: rest.map Prod.fst) }
    else g.consume { parsed with extras := parsed.extras ++ [arg] } rest

def parse (g : Grammar) (args : List String) : Except Stop Parsed := do
  g.consume {} (← g.tokens args)

end Grammar

/-- The command line, understood. A path is missing only if two dashes were given for it. -/
structure Arguments where
  verbose : Bool := false
  quiet : Bool := false
  manifest : Option String := some "manifest.json"
  write : Bool := false
  backupDirectory : Option String := some ".uic-backup"
  json : Bool := false
deriving DecidableEq, Repr

def Arguments.add (a : Arguments) : Flag × Option String → Arguments
  | (.verbose, _) => { a with verbose := true }
  | (.quiet, _) => { a with quiet := true }
  | (.manifest, value) => { a with manifest := value }
  | (.write, _) => { a with write := true }
  | (.backupDirectory, value) => { a with backupDirectory := value }
  | (.json, _) => { a with json := true }
  | _ => a

/-- The only command. -/
def commandName : String := "annotate"

def parseArguments (args : List String) : Except Stop Arguments := do
  let program ← programGrammar.parse args
  match program.command with
  | none => programGrammar.misuse "the following arguments are required: command"
  | some [] => programGrammar.misuse "the following arguments are required: command"
  | some (name :: args) =>
    if name ≠ commandName then
      programGrammar.misuse ("argument command: invalid choice: " ++ quoted name ++ " (choose from " ++
        quoted commandName ++ ")")
    else
      let command ← annotateGrammar.parse args
      match program.extras ++ command.extras with
      | [] => return (program.given ++ command.given).foldl Arguments.add {}
      | extras => programGrammar.misuse ("unrecognized arguments: " ++ " ".intercalate extras)

end TagStamp.CommandLine
