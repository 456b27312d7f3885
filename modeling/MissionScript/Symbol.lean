/-!
# MissionScript.Symbol

Named places in a script. Labels are declared by one line and named by the jumps to them; the table
binds each jump to a declaration after the whole script has been read.
-/

namespace MissionScript

/-- What a name stands for. -/
inductive SymbolKind
  | label
  | var
  deriving DecidableEq, Repr

/-- A place where a name stands. -/
structure Symbol where
  name : String
  kind : SymbolKind
  /-- The statement it stands in. -/
  node : Nat
  line : Nat
  start : Nat
  stop : Nat
  /-- Does the statement declare the name, rather than use it? -/
  declaration : Bool
  deriving DecidableEq, Repr

/-- Symbols are listed by line, and by column within a line. -/
def Symbol.before (s t : Symbol) : Bool :=
  s.line < t.line || (s.line == t.line && s.start ≤ t.start)

/-- The labels of a script and the jumps to them. -/
structure SymbolTable where
  labels : List Symbol := []
  references : List Symbol := []
  /-- The statements that jump and the statements they jump to, the latest binding first. -/
  bindings : List (Nat × Nat) := []
  deriving Repr

namespace SymbolTable

/-- Adds a declaration. -/
def declare (table : SymbolTable) (s : Symbol) : SymbolTable :=
  { table with labels := table.labels ++ [s] }

/-- Adds a use. -/
def reference (table : SymbolTable) (s : Symbol) : SymbolTable :=
  { table with references := table.references ++ [s] }

/-- The first declaration of a label. -/
def declaration? (table : SymbolTable) (name : String) : Option Symbol :=
  table.labels.find? (·.name == name)

/-- Binds the jump of one statement to another statement. -/
def bind (table : SymbolTable) (source target : Nat) : SymbolTable :=
  { table with bindings := (source, target) :: table.bindings }

/-- The statement that the jump of a statement is bound to. -/
def target? (table : SymbolTable) (source : Nat) : Option Nat := table.bindings.lookup source

@[simp] theorem target?_bind_self (table : SymbolTable) (source target : Nat) :
    (table.bind source target).target? source = some target := by
  simp [bind, target?]

theorem target?_bind_of_ne (table : SymbolTable) {source other : Nat} (target : Nat)
    (h : other ≠ source) : (table.bind source target).target? other = table.target? other := by
  have : (other == source) = false := by simpa using h
  simp [bind, target?, List.lookup_cons, this]

end SymbolTable

end MissionScript
