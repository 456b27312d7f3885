import MissionScript.GameVersion

/-!
# MissionScript.CommandLine.Arguments

What the words of the command line ask for. An option takes its value from the same word, after an
equals sign, or from the next word, which must not look like an option. Two dashes end the options.
Anything that is not understood is a usage error.
-/

namespace MissionScript.CommandLine

/-- What is to be done. -/
inductive Request
  /-- Print the version of the program. -/
  | version
  /-- Compile a script and write the result. -/
  | compile (file : String) (version : Option GameVersion) (catalog output : Option String)
  /-- Print the tokens of every line. -/
  | tokens (file : String) (blanks : Bool)
  /-- Print the tree of a script. -/
  | tree (file : String) (version : Option GameVersion) (catalog : Option String)
  /-- List where a label or variable stands. -/
  | find (file name : String)
  /-- Print the configuration. -/
  | showConfig
  /-- Write a configuration file. -/
  | initConfig
  deriving DecidableEq, Repr

/-- The options of all requests. -/
inductive Switch
  | gameVersion
  | catalog
  | output
  | blanks
  deriving DecidableEq, Repr

namespace Switch

/-- The long name of an option. -/
def long : Switch → String
  | .gameVersion => "--game-version"
  | .catalog => "--syntax"
  | .output => "--output"
  | .blanks => "--whitespace"

/-- The letter of an option, if it has one. -/
def letter? : Switch → Option Char
  | .output => some 'o'
  | _ => none

/-- Does an option take a value? -/
def takesValue : Switch → Bool
  | .blanks => false
  | _ => true

/-- May an option have the value? Paths are not empty, and versions are named exactly. -/
def allows : Switch → String → Bool
  | .gameVersion, value => (GameVersion.ofOptionName? value).isSome
  | .catalog, value | .output, value => !value.isEmpty
  | .blanks, _ => true

end Switch

/-- The words of a request, sorted out. -/
structure Words where
  options : List (Switch × String) := []
  positional : List String := []
  deriving Repr

/-- The value of an option. -/
def Words.value? (w : Words) (option : Switch) : Option String := w.options.lookup option

/-- Adds an option in front. It may be given once, and its value has to be allowed. -/
def Words.addOption (w : Words) (option : Switch) (value : String) : Option Words :=
  if (w.value? option).isSome || !option.allows value then none
  else some { w with options := (option, value) :: w.options }

/-- Does a word look like an option? A single dash does not. -/
def looksLikeOption (word : String) : Bool := word.startsWith "-" && word != "-"

/-- The option that a word names, among those known, and the value in the word. -/
def readOption (known : List Switch) (word : String) : Option (Switch × Option String) :=
  if word.startsWith "--" then
    let name := word.toList.takeWhile (· ≠ '=')
    let rest := word.toList.dropWhile (· ≠ '=')
    (known.find? (·.long == String.ofList name)).map fun option =>
      (option, if rest.isEmpty then none else some (String.ofList rest.tail))
  else match word.toList with
    | _ :: letter :: rest =>
      (known.find? (·.letter? == some letter)).map fun option =>
        (option, match rest with
          | [] => none
          | '=' :: value => some (String.ofList value)
          | value => some (String.ofList value))
    | _ => none

/-- Sorts out the words of a request that knows the given options. -/
def sortWords (known : List Switch) : List String → Option Words
  | [] => some {}
  | word :: rest =>
    if word = "--" then some { positional := rest }
    else if looksLikeOption word then do
      let (option, attached) ← readOption known word
      match option.takesValue, attached with
      | true, some value => (← sortWords known rest).addOption option value
      | false, none => (← sortWords known rest).addOption option ""
      | false, some _ => none
      | true, none =>
        match rest with
        | value :: rest =>
          if looksLikeOption value then none
          else (← sortWords known rest).addOption option value
        | [] => none
    else do
      let words ← sortWords known rest
      return { words with positional := word :: words.positional }

/-- The single positional word, which is a path. -/
def Words.file? (w : Words) : Option String :=
  match w.positional with
  | [file] => if file.isEmpty then none else some file
  | _ => none

/-- The version that is asked for. -/
def Words.version? (w : Words) : Option GameVersion :=
  (w.value? .gameVersion).bind GameVersion.ofOptionName?

/-- What the words after the name of a request ask for. -/
def readRequest (name : String) (words : List String) : Option Request :=
  match name with
  | "compile" => do
    let w ← sortWords [.gameVersion, .catalog, .output] words
    return .compile (← w.file?) w.version? (w.value? .catalog) (w.value? .output)
  | "tokens" => do
    let w ← sortWords [.blanks] words
    return .tokens (← w.file?) (w.value? .blanks).isSome
  | "tree" => do
    let w ← sortWords [.gameVersion, .catalog] words
    return .tree (← w.file?) w.version? (w.value? .catalog)
  | "find" => do
    let w ← sortWords [] words
    match w.positional with
    | [file, name] => if file.isEmpty then none else some (.find file name)
    | _ => none
  | "config" =>
    match words with
    | command :: words => do
      let w ← sortWords [] words
      if !w.positional.isEmpty then none
      else if command = "show" then some .showConfig
      else if command = "init" then some .initConfig
      else none
    | [] => none
  | _ => none

/-- What the words of the command line ask for; none when they are not understood. -/
def Request.ofArguments : List String → Option Request
  | [] => none
  | word :: words =>
    if word = "--version" || word.startsWith "-V" then some .version else readRequest word words

end MissionScript.CommandLine
