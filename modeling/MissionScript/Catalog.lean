import MissionScript.Definition.Json
import MissionScript.Diagnostic

/-!
# MissionScript.Catalog

The commands that scripts may use. A catalog keeps its definitions in the order in which they were
inserted, together with the forms by which lines are recognised.

A number may be used more than once as long as no version has two commands of that number. Insertion
checks this, so `find?` never has a choice (`insert` keeps the invariant, and a failing insertion
changes nothing).

Every catalog in use starts with the commands that the compiler itself relies on (`builtin`). Scripts are
read and compiled in a `Language`: the commands of a catalog as one version of the game has them.
-/

namespace MissionScript

/-- A definition that has been arranged, with its forms. -/
structure Entry where
  definition : Definition
  forms : List Form := definition.forms
  forms_eq : forms = definition.forms := by rfl

/-- The commands that scripts may use, in the order of their insertion. -/
structure Catalog where
  entries : List Entry := []

/-- A command that a line may stand for. -/
structure Candidate where
  definition : Definition
  /-- Does the line leave out the return value? -/
  omitsReturn : Bool
  deriving Repr

namespace Catalog

/-! ### Catalogs -/

/-- The catalog without commands. -/
def empty : Catalog := {}

/-- The number of commands. -/
def size (c : Catalog) : Nat := c.entries.length

/-- The definitions in the order of their insertion. -/
def definitions (c : Catalog) : List Definition := c.entries.map (·.definition)

/-- The command of a number in a version. -/
def find? (c : Catalog) (id : Nat) (version : GameVersion) : Option Definition :=
  c.definitions.find? fun d => d.id == id && d.supports version

/-- The commands that a line of the given shape may stand for, in the order of their insertion. -/
def identify (c : Catalog) (shape : String) (version : GameVersion) : List Candidate :=
  (c.entries.filter (·.definition.supports version)).flatMap fun e =>
    (e.forms.filter (·.shape == shape)).map fun form => ⟨e.definition, form.omitsReturn⟩

/-- Adds a command at the end. -/
def insert (c : Catalog) (d : Definition) : Except Failure Catalog :=
  match d.arrange with
  | .error fault => .error (.invalidDefinition d.id fault)
  | .ok d =>
    if c.definitions.any fun e => e.id == d.id && e.overlaps d then
      .error (.invalidDefinition d.id .alreadyDefined)
    else .ok { entries := c.entries ++ [{ definition := d }] }

/-- Adds commands one by one and stops at the first that does not fit; those before it stay. -/
def extend (c : Catalog) : List Definition → Catalog × Option Failure
  | [] => (c, none)
  | d :: ds =>
    match c.insert d with
    | .error failure => (c, some failure)
    | .ok c => c.extend ds

/-- Adds the commands of a catalog in JSON. -/
def extendFromJson (c : Catalog) (json : String) : Catalog × Option Failure :=
  match Document.decodeText Definition.listOfJson json with
  | .error fault => (c, some (.json fault))
  | .ok ds => c.extend ds

@[simp] theorem definitions_empty : empty.definitions = [] := rfl

@[simp] theorem extend_nil (c : Catalog) : c.extend [] = (c, none) := rfl

/-- A successful insertion adds the arranged definition at the end and nothing else. -/
theorem definitions_of_insert {c c' : Catalog} {d : Definition} (h : c.insert d = .ok c') :
    ∃ e, d.arrange = .ok e ∧ c'.definitions = c.definitions ++ [e] := by
  unfold insert at h
  split at h
  · cases h
  · next e he =>
    split at h
    · cases h
    · cases h
      exact ⟨e, he, by simp [definitions]⟩

/-! ### The built-in commands -/

/-- The commands that the compiler relies on. -/
def coreDefinitions : List Definition :=
  [ { id := CommandId.blankLine, text := "", kind := .auxiliary },
    { id := CommandId.comment, text := "* $0", kind := .comment, parameters := [.comment] },
    { id := CommandId.callScript, text := "$1 = $2 -> call script $0 :", kind := .scriptCall,
      parameters := [.scriptName, .returnValueIfStart, .refObj] },
    { id := CommandId.finish, text := "return $0", parameters := [.value] },
    { id := CommandId.expression, text := "$0 = <expression>", kind := .expression,
      parameters := [.returnValueIf] },
    { id := CommandId.defineLabel, text := "$0:", parameters := [.labelName] },
    { id := CommandId.gotoLabel, text := "goto $0", parameters := [.labelNumber] },
    { id := CommandId.gosub, text := "gosub $0:", parameters := [.labelNumber] },
    { id := CommandId.endsub, text := "endsub" },
    { id := CommandId.elseBranch, text := "else" },
    { id := CommandId.blockEnd, text := "end" },
    { id := CommandId.breakLoop, text := "break" },
    { id := CommandId.continueLoop, text := "continue" },
    { id := CommandId.hiddenJump, text := "jump $0", parameters := [.labelNumber] },
    { id := CommandId.forLoop, text := "for $0 = $1 to $2 step $3",
      parameters := [.var, .number, .number, .number] },
    { id := CommandId.foreachLoop, text := "foreach $0 in array $1", parameters := [.var, .var] } ]

/-- The catalog of the commands that the compiler relies on. -/
def builtin : Catalog := (empty.extend coreDefinitions).1

/-- The built-in commands and those of a catalog in JSON. -/
def ofJson (json : String) : Except Failure Catalog :=
  match builtin.extendFromJson json with
  | (c, none) => .ok c
  | (_, some failure) => .error failure

end Catalog

/-! ### Languages -/

/-- The commands of a catalog as one version of the game has them. -/
structure Language where
  catalog : Catalog
  version : GameVersion

namespace Language

/-- The command of a number. -/
def find? (lang : Language) (id : Nat) : Option Definition :=
  lang.catalog.find? id lang.version

/-- The commands that a line of the given shape may stand for. -/
def withShape (lang : Language) (shape : String) : List Candidate :=
  lang.catalog.identify shape lang.version

end Language

end MissionScript
