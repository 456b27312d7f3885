import MissionScript.Catalog
import MissionScript.Code.Json
import MissionScript.CommandLine.Arguments
import MissionScript.CommandLine.Config
import MissionScript.Compile
import MissionScript.Text.Layout
import MissionScript.Tree.Listing

/-!
# MissionScript.CommandLine.Run

The program: does what the command line asks for, on any host. The exit status is 0 when that
succeeds, 1 when it fails, and 2 when the command line is not understood.
-/

namespace MissionScript.CommandLine

variable {m : Type → Type} [Monad m] [Host m]

/-- The name and version of the program. -/
def programVersion : String := "msci-compiler 0.1.0"

/-- Writes a line to the standard output. -/
def writeLine (line : String) : ExceptT Failure m Unit := Host.write (line ++ "\n")

/-! ### Failures -/

/-- The name of a version in a report of a failure. -/
def versionName : GameVersion → String
  | .threat => "Threat"
  | .reunion => "Reunion"
  | .terranConflict => "TerranConflict"
  | .albionPrelude => "AlbionPrelude"

/-- The report of a failure that ends the program. -/
def failureReport : Failure → String
  | .inaccessible => "IO"
  | .notFound message => "FileNotFound(" ++ Text.quoted message ++ ")"
  | .json _ => "Json"
  | .invalidDefinition id fault =>
    "InvalidSyntax \x7b id: " ++ toString id ++ ", message: " ++ Text.quoted fault.message ++
      " \x7d"
  | .missingCommand id version =>
    "MissingSyntax \x7b id: " ++ toString id ++ ", version: " ++ versionName version ++ " \x7d"
  | .unresolvedJump line => "UnresolvedJump \x7b line: " ++ toString line ++ " \x7d"

/-! ### Files -/

/-- The lines of a script. -/
def readScript (file : String) : ExceptT Failure m (List String) := do
  unless ← Host.isFile file do throw (.notFound ("Script not found: " ++ file))
  match ← Host.readText? file with
  | some text => return Text.lines text
  | none => throw .inaccessible

/-- The commands of the catalog in a file, beside the built-in ones. -/
def readCatalog (file : String) : ExceptT Failure m Catalog := do
  unless ← Host.isPresent file do throw (.notFound ("Syntax catalog not found: " ++ file))
  match ← Host.readText? file with
  | some text => MonadExcept.ofExcept (Catalog.ofJson text)
  | none => throw .inaccessible

/-- The catalog to use: the one that is asked for, else the one of the configuration, else the
built-in commands alone. -/
def loadCatalog (config : Config) (catalog : Option String) : ExceptT Failure m Catalog :=
  match catalog.or config.catalog with
  | some file => do
    if config.debug then writeLine ("Loading command catalog from " ++ file)
    readCatalog file
  | none => return .builtin

/-- Compiles a file and reports the problems with it. -/
def compileFile (config : Config) (file : String) (version : GameVersion)
    (catalog : Option String) : ExceptT Failure m Compiled := do
  let catalog ← loadCatalog config catalog
  let lines ← readScript file
  if config.debug then
    let count := lines.length
    let size := catalog.size
    let title := version.title
    writeLine s!"Compiling {file} ({count} lines, {size} commands known) for {title}"
  let compiled ← MonadExcept.ofExcept (Language.compile ⟨catalog, version⟩ lines)
  for d in compiled.diagnostics do
    Host.writeError (d.render file ++ "\n")
  return compiled

/-! ### Requests -/

/-- Compiles a script and writes the result. -/
def runCompile (config : Config) (file : String) (version : Option GameVersion)
    (catalog output : Option String) : ExceptT Failure m UInt32 := do
  let compiled ← compileFile config file (version.getD config.version) catalog
  match compiled.code with
  | none =>
    let count := compiled.diagnostics.length
    writeLine s!"Compilation failed with {count} error(s)"
    return 1
  | some code =>
    let output := output.getD (withExtension file "json")
    unless ← Host.writeText output code.toText do throw .inaccessible
    let commands := code.commands.length
    let auxiliary := code.auxiliary.length
    writeLine s!"Compiled {commands} commands ({auxiliary} auxiliary) to {output}"
    return 0

/-- The lines that list a token. -/
def tokenLine (t : Token) : String :=
  let start := t.start
  let stop := t.stop
  "      " ++ Text.alignLeft 14 t.kind.name ++ s!" [{start}..{stop}] " ++ Text.quoted t.text

/-- Prints the tokens of every line that has some. -/
def runTokens (file : String) (blanks : Bool) : ExceptT Failure m UInt32 := do
  for (line, number) in (← readScript file).zipIdx 1 do
    let found := if blanks then lex line else tokens line
    unless found.isEmpty do
      writeLine (Text.alignRight 4 (toString number) ++ ":")
      for t in found do writeLine (tokenLine t)
  return 0

/-- Prints the tree of a script. -/
def runTree (config : Config) (file : String) (version : Option GameVersion)
    (catalog : Option String) : ExceptT Failure m UInt32 := do
  let compiled ← compileFile config file (version.getD config.version) catalog
  Host.write compiled.tree.listing
  return 0

/-- Lists where a label or variable stands. -/
def runFind (config : Config) (file name : String) : ExceptT Failure m UInt32 := do
  let compiled ← compileFile config file config.version none
  let found := compiled.tree.findSymbols name (if name.startsWith "$" then .var else .label)
  if found.isEmpty then writeLine s!"No occurrences of '{name}'"
  for s in found do
    let line := s.line
    let column := s.start + 1
    let role := if s.declaration then " (definition)" else ""
    writeLine s!"{file}:{line}:{column}{role}"
  return 0

/-- Prints the configuration. -/
def runShowConfig (config : Config) : ExceptT Failure m UInt32 := do
  writeLine ("Environment: " ++ config.environment)
  writeLine ("Config file: " ++ (← Config.path))
  writeLine config.toJson.pretty
  return 0

/-- Writes a configuration file, unless there is one. -/
def runInitConfig (config : Config) : ExceptT Failure m UInt32 := do
  let file ← Config.path
  if ← Host.isPresent file then
    writeLine ("Config file already exists at: " ++ file)
    writeLine "Remove the file to reinitialize."
  else
    config.save
    writeLine ("Initialized new config file at: " ++ file)
  return 0

/-- Does what a request asks for. The configuration is loaded before anything else. -/
def Request.run (request : Request) : ExceptT Failure m UInt32 :=
  match request with
  | .version => do writeLine programVersion; return 0
  | request => do
    let config ← Config.load
    match request with
    | .compile file wanted catalog output => runCompile config file wanted catalog output
    | .tokens file blanks => runTokens file blanks
    | .tree file wanted catalog => runTree config file wanted catalog
    | .find file name => runFind config file name
    | .showConfig => runShowConfig config
    | .initConfig => runInitConfig config
    | .version => return 0

/-- Runs the program and gives its exit status. -/
def run (arguments : List String) : m UInt32 :=
  match Request.ofArguments arguments with
  | none => do
    Host.writeError "Usage: msc <COMMAND>\n"
    return 2
  | some request => do
    match ← request.run.run with
    | .ok status => return status
    | .error failure =>
      Host.writeError ("Error: " ++ failureReport failure ++ "\n")
      return 1

end MissionScript.CommandLine
