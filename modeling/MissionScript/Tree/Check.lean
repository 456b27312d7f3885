import MissionScript.Diagnostic
import MissionScript.Tree

/-!
# MissionScript.Tree.Check

Checks a script that has been read: labels, the nesting of blocks, conditionals, and the types of
parameters. Every problem is reported. Jumps to labels are bound to the first declaration of the
label on the way.
-/

namespace MissionScript

namespace Tree

/-! ### Labels -/

/-- The labels that have been declared before. -/
def duplicateLabels (table : SymbolTable) : List Diagnostic :=
  table.labels.zipIdx.filterMap fun (label, position) =>
    ((table.labels.take position).find? (·.name == label.name)).map fun first =>
      ⟨.duplicateLabel label.name first.line, label.line, label.start, label.stop⟩

/-- The jumps to labels that are declared nowhere. -/
def undefinedLabels (table : SymbolTable) : List Diagnostic :=
  table.references.filterMap fun r =>
    match table.declaration? r.name with
    | some _ => none
    | none => some ⟨.undefinedLabel r.name, r.line, r.start, r.stop⟩

/-- Binds every jump to the first declaration of its label. -/
def bindLabels (table : SymbolTable) : SymbolTable :=
  table.references.foldl
    (fun bound r => match table.declaration? r.name with
      | some label => bound.bind r.node label.node
      | none => bound)
    table

/-! ### Nesting -/

/-- What is wrong with the place of a statement among the others. -/
def nestingProblem? (t : Tree) (id : Nat) : Option Problem :=
  let previous := (t.previousSibling? id).map t.flow
  match t.flow id with
  | .breakLoop | .continueLoop =>
    if (t.enclosingLoop? id).isSome then none
    else some (.outsideLoop (Text.trim (t.statement id).text))
  | .elseIfBlock | .elseBlock =>
    if previous = some .ifBlock ∨ previous = some .elseIfBlock then none else some .elseWithoutIf
  | .blockEnd => if previous.any Flow.opensBlock then none else some .endWithoutBlock
  | .skip => if (t.children id).length = 1 then none else some .skipWithoutCommand
  | _ => none

/-! ### Conditionals and parameters -/

/-- May the command carry the conditional? -/
def allowsCondition (d : Definition) (condition : Conditional) : Bool :=
  let type := d.parameters.find? ParameterType.isReturnValue
  match condition with
  | .unconditional => true
  | .start => type == some .returnValueIfStart
  | _ => type.any ParameterType.isConditionalReturn

/-- The parameters whose types are checked. The operands of an expression take any type, and so do
the arguments of a script call. -/
def checkedParameters (s : Statement) (d : Definition) : List Parameter :=
  match d.kind with
  | .comment => []
  | .expression => s.parameters.take 1
  | .scriptCall => s.parameters.take d.parameters.length
  | _ => s.parameters

/-- The number of parameters that a command wants, when it is fixed. -/
def expectedCount? (d : Definition) : Option Nat :=
  match d.kind with
  | .comment | .expression | .scriptCall => none
  | _ => some (d.parameters.length + d.vargs)

/-- The problems with a statement itself. -/
def statementProblems (s : Statement) (d : Definition) : List Diagnostic :=
  let whole (problem : Problem) : Diagnostic := ⟨problem, s.line, s.start, s.stop⟩
  let conditional :=
    if allowsCondition d s.condition then []
    else [whole (.wrongConditional d.text s.condition)]
  let count := match expectedCount? d with
    | some expected =>
      if s.parameters.length = expected then []
      else [whole (.wrongCount d.text expected s.parameters.length)]
    | none => []
  let types := (checkedParameters s d).filterMap fun p =>
    if p.slot.type.accepts p.dataType then none
    else some ⟨.invalidParameter p.text p.slot.type, s.line, p.start, p.stop⟩
  conditional ++ count ++ types

/-- The problems with a node. Lines that could not be read have been reported, and commented
commands are not checked. -/
def nodeProblems (t : Tree) (id : Nat) : List Diagnostic :=
  let s := t.statement id
  match s.command with
  | none => []
  | some d =>
    if s.commented then []
    else
      (t.nestingProblem? id).toList.map (⟨·, s.line, s.start, s.stop⟩) ++ statementProblems s d

/-- Checks a tree: the problems with it, and the tree with its jumps to labels bound. -/
def check (t : Tree) : Tree × List Diagnostic :=
  ({ t with symbols := bindLabels t.symbols },
    duplicateLabels t.symbols ++ undefinedLabels t.symbols ++ t.preorder.flatMap t.nodeProblems)

end Tree

end MissionScript
