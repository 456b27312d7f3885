import MissionScript.Proofs.Statement.Proper
import MissionScript.Tree.Check

/-!
# MissionScript.Proofs.Statement.Problems

What is reported for a line: that it cannot be read, or what the check finds wrong with its statement.

`Fails P x` says that whatever goes wrong in `x` satisfies `P`. Whatever goes wrong in a reader of a line
is a problem of reading that line (`fails_readCommand`), and a line has a problem exactly when it has no
command (`readLine_of_problem`, `lines_of_problem`). `statementProblems_eq_nil_iff` says when the check finds
nothing wrong with a statement.

The check and the readers report different problems on purpose: a problem of reading is one that a
line has by itself, whatever stands around it, and the check looks only at lines that could be read.
So no line is reported for both reasons, and the fates of the lines can be counted
(`MissionScript.Proofs.Script.Lines`).
-/

namespace MissionScript

/-- Is the problem one of reading a line? -/
def Problem.isReading : Problem → Bool
  | .unavailable .. | .missingCommand _ | .wrongConditional .. | .unknownCommand _ | .noArrayAccess _
  | .unexpectedValue _ | .parameter _ | .expression _ | .unexpectedBeforeCall _ | .missingScriptName
  | .missingColon _ | .unexpectedArgument _ => true
  | _ => false

/-- The problem is one of reading the line. -/
structure Diagnostic.OfReading (line : Nat) (d : Diagnostic) : Prop where
  line_eq : d.line = line
  isReading : d.problem.isReading = true

namespace Language

/-! ### Script calls in two steps

What stands in front of a script call is a return value and an object, both optional. The reader
takes them in one function with nested cases; two functions, one after the other, give the same
(`readCallTarget_eq`) and can be reasoned about one at a time. -/

/-- Reads the return value in front of a script call, if there is one. -/
def readCallReturn (d : Definition) (line : Nat) (ts : List Token) :
    Except Diagnostic (Option Parameter × List Token) :=
  match ts with
  | t :: equals :: rest =>
    if t.kind == .var && equals.isOperator "=" then do
      return (some (← bindToken (callSlot d 1) line t), rest)
    else .ok (none, ts)
  | _ => .ok (none, ts)

/-- Reads the object in front of a script call, if there is one; nothing else may stand there. -/
def readCallObject (d : Definition) (line : Nat) (ts : List Token) :
    Except Diagnostic (Option Parameter) :=
  match ts with
  | [] => .ok none
  | [t, arrow] =>
    if t.isValue && arrow.isOperator "->" then do
      return some (← bindToken (callSlot d 2) line t)
    else .error (.ofToken (.unexpectedBeforeCall t.text) line t)
  | t :: _ => .error (.ofToken (.unexpectedBeforeCall t.text) line t)

theorem readCallTarget_eq (d : Definition) (line : Nat) (ts : List Token) :
    readCallTarget d line ts = do
      let found ← readCallReturn d line ts
      let object ← readCallObject d line found.2
      return (found.1, object) := by
  -- the two tokens of an object, behind a return value or not
  have pair : ∀ (t arrow : Token) (target : Option Parameter),
      (if (t.isValue && arrow.isOperator "->") = true then do
        let p ← bindToken (callSlot d 2) line t
        return (target, some p)
      else .error (.ofToken (.unexpectedBeforeCall t.text) line t)) = do
        let object ← readCallObject d line [t, arrow]
        return (target, object) := by
    intro t arrow target
    unfold readCallObject
    cases harrow : t.isValue && arrow.isOperator "->" with
    | false => simp only [harrow, if_neg Bool.false_ne_true]; rfl
    | true =>
        simp only [harrow, if_pos]
        cases bindToken (callSlot d 2) line t <;> rfl
  rcases ts with _ | ⟨t, _ | ⟨equals, rest⟩⟩
  · rfl
  · rfl
  · unfold readCallTarget readCallReturn
    cases hreturn : t.kind == .var && equals.isOperator "=" with
    | false =>
        simp only [hreturn, if_neg Bool.false_ne_true]
        rcases rest with _ | ⟨u, rest⟩
        · exact pair t equals none
        · rfl
    | true =>
        simp only [hreturn, if_pos]
        cases bindToken (callSlot d 1) line t with
        | error e => rfl
        | ok p =>
            rcases rest with _ | ⟨u, _ | ⟨arrow, _ | ⟨v, rest⟩⟩⟩
            · rfl
            · rfl
            · exact pair u arrow (some p)
            · rfl

/-! ### Problems name their line

The line is handed to every reader and ends up in every diagnostic. The lemmas go from the readers
of single parameters up to the line. -/

/-- Whatever goes wrong satisfies `P`. -/
def Fails {α : Type} (P : Diagnostic → Prop) (x : Except Diagnostic α) : Prop :=
  ∀ d, x = .error d → P d

namespace Fails

variable {α β : Type} {P : Diagnostic → Prop}

theorem ok (a : α) : Fails P (.ok a) := by
  intro d h
  cases h

theorem error {d : Diagnostic} (h : P d) : Fails P (.error d : Except Diagnostic α) := by
  intro e he
  cases he
  exact h

theorem bind {x : Except Diagnostic α} {f : α → Except Diagnostic β} (hx : Fails P x)
    (hf : ∀ a, Fails P (f a)) : Fails P (x >>= f) := by
  intro d h
  cases x with
  | error e => exact hx d (congrArg _ (Except.error.inj h))
  | ok a => exact hf a d h

theorem mapError {ε : Type} {x : Except ε α} {f : ε → Diagnostic}
    (hf : ∀ e, x = .error e → P (f e)) : Fails P (x.mapError f) := by
  intro d h
  cases x with
  | error e =>
      cases h
      exact hf e rfl
  | ok a => cases h

end Fails

section

variable {line : Nat}

theorem fails_bindValues (d : Definition) (display : Nat) (ts : List Token) :
    Fails (Diagnostic.OfReading line) (bindValues d line display ts) := by
  induction ts generalizing display with
  | nil => exact .ok _
  | cons t ts ih =>
      unfold bindValues
      split
      · exact .error ⟨rfl, rfl⟩
      · split
        · exact .error ⟨rfl, rfl⟩
        · exact .bind (ih _) fun _ => .ok _

theorem fails_bindArguments (index : Nat) (ts : List Token) :
    Fails (Diagnostic.OfReading line) (bindArguments line index ts) := by
  induction ts generalizing index with
  | nil => exact .ok _
  | cons t ts ih =>
      unfold bindArguments
      split
      · exact .error ⟨rfl, rfl⟩
      · exact .bind (ih _) fun _ => .ok _

theorem fails_bindParameters (found : Candidate) (condition : Conditional)
    (ts arguments : List Token) :
    Fails (Diagnostic.OfReading line) (bindParameters found condition line ts arguments) :=
  .bind (fails_bindValues _ _ _) fun _ => .bind (fails_bindArguments _ _) fun _ => .ok _

/-- A command that the catalog lacks is a problem of reading. -/
theorem isReading_of_command {lang : Language} {id : Nat} {problem : Problem}
    (h : lang.command id = .error problem) : problem.isReading = true := by
  unfold command at h
  split at h
  · cases h
  · cases h
    rfl

theorem fails_command (lang : Language) (id : Nat) :
    Fails (Diagnostic.OfReading line)
      ((lang.command id).mapError fun problem => (⟨problem, line, 0, 0⟩ : Diagnostic)) :=
  .mapError fun _ h => ⟨rfl, isReading_of_command h⟩

/-- Whatever is wrong with an expression is a problem of reading its line. -/
theorem fails_parse (operands : List Token) :
    Fails (Diagnostic.OfReading line) ((Expression.parse operands 1).mapError fun e =>
      (⟨.expression e.fault, line, e.start, e.stop⟩ : Diagnostic)) :=
  .mapError fun _ _ => ⟨rfl, rfl⟩

theorem fails_readExpression (lang : Language) (condition : Conditional) (ts : List Token)
    (text : String) : Fails (Diagnostic.OfReading line) (lang.readExpression condition ts line text) := by
  refine .bind (fails_command _ _) fun d => ?_
  dsimp only
  split
  · exact .bind (.ok _) fun _ => .bind (fails_parse _) fun _ => .ok _
  · split
    · split
      · exact .bind (.ok _) fun _ => .bind (fails_parse _) fun _ => .ok _
      · exact .bind (.error ⟨rfl, rfl⟩) fun _ => .bind (fails_parse _) fun _ => .ok _
    · exact .bind (.error ⟨rfl, rfl⟩) fun _ => .bind (fails_parse _) fun _ => .ok _

theorem fails_bindToken (slot : Slot) (t : Token) :
    Fails (Diagnostic.OfReading line) (bindToken slot line t) :=
  .mapError fun _ _ => ⟨rfl, rfl⟩

theorem fails_readCallTarget (d : Definition) (ts : List Token) :
    Fails (Diagnostic.OfReading line) (readCallTarget d line ts) := by
  rw [readCallTarget_eq]
  refine .bind ?_ fun target => .bind ?_ fun _ => .ok _
  · unfold readCallReturn
    split
    · split
      · exact .bind (fails_bindToken _ _) fun _ => .ok _
      · exact .ok _
    · exact .ok _
  · unfold readCallObject
    split
    · exact .ok _
    · split
      · exact .bind (fails_bindToken _ _) fun _ => .ok _
      · exact .error ⟨rfl, rfl⟩
    · exact .error ⟨rfl, rfl⟩

theorem fails_readCallName (d : Definition) (word : Token) (ts : List Token) :
    Fails (Diagnostic.OfReading line) (readCallName d line word ts) := by
  unfold readCallName
  split
  · split
    · exact .bind (fails_bindToken _ _) fun _ => .ok _
    · split
      · exact .ok _
      · exact .error ⟨rfl, rfl⟩
  · exact .error ⟨rfl, rfl⟩

theorem fails_readArgument (index : Nat) (t : Token) :
    Fails (Diagnostic.OfReading line) (readArgument line index t) := by
  unfold readArgument
  split
  · exact fails_bindToken _ _
  · exact .error ⟨rfl, rfl⟩

theorem fails_readArguments (index : Nat) (ts : List Token) :
    Fails (Diagnostic.OfReading line) (readArguments line index ts) := by
  fun_induction readArguments line index ts with
  | case1 => exact .ok _
  | case2 index t => exact .bind (fails_readArgument _ _) fun _ => .ok _
  | case3 index t equals rest _ ih => exact ih
  | case4 index t equals rest _ ih =>
      exact .bind (fails_readArgument _ _) fun _ => .bind ih fun _ => .ok _

theorem fails_skipColon (ts : List Token) :
    Fails (Diagnostic.OfReading line) (skipColon line ts) := by
  unfold skipColon
  split
  · exact .ok _
  · split
    · exact .ok _
    · exact .error ⟨rfl, rfl⟩

theorem fails_readScriptCall (lang : Language) (condition : Conditional)
    (ts before after : List Token) (word : Token) (text : String) :
    Fails (Diagnostic.OfReading line)
      (lang.readScriptCall condition ts before word after line text) :=
  .bind (fails_command _ _) fun _ =>
    .bind (fails_readCallTarget _ _) fun _ =>
      .bind (fails_readCallName _ _ _) fun _ =>
        .bind (fails_skipColon _) fun _ => .bind (fails_readArguments _ _) fun _ => .ok _

/-- A command that nothing is recognised in is a problem of reading its line. -/
theorem ofReading_unreadable (lang : Language) (condition : Conditional) (ts : List Token)
    (first : Token) (text : String) :
    (lang.unreadable condition ts first line text).OfReading line := by
  unfold unreadable
  dsimp only
  split <;> exact ⟨rfl, rfl⟩

/-- Whatever is wrong with a command, it is a problem of reading the line. -/
theorem fails_readCommand (lang : Language) (condition : Conditional) (ts : List Token)
    (text : String) :
    Fails (Diagnostic.OfReading line) (lang.readCommand condition ts line text) := by
  unfold readCommand
  split
  · exact .error ⟨rfl, rfl⟩
  · split
    · unfold readArrayAccess
      split
      · exact .error ⟨rfl, rfl⟩
      · exact .bind (fails_bindParameters _ _ _ _) fun _ => .ok _
    · split
      · exact fails_readExpression _ _ _ _
      · split
        · exact fails_readScriptCall _ _ _ _ _ _ _
        · split
          · exact .bind (fails_bindParameters _ _ _ _) fun _ => .ok _
          · exact .error (ofReading_unreadable _ _ _ _ _)

/-- What is left of a line that cannot be read, and its problem is one of reading the line. -/
theorem readLine_eq_problemLine {lang : Language} {text : String} {d : Diagnostic}
    (h : (lang.readLine line text).2 = some d) :
    d.OfReading line ∧
      ∃ condition, lang.readLine line text = problemLine condition d line text := by
  -- a line with a problem is one, so what is left is that reading has found the problem
  have problem : ∀ condition e, (problemLine condition e line text).2 = some d → e.OfReading line →
      d.OfReading line ∧
        ∃ condition', problemLine condition e line text = problemLine condition' d line text := by
    intro condition e heq hreading
    cases heq
    exact ⟨hreading, condition, rfl⟩
  unfold readLine at h ⊢
  split
  · -- a blank line
    next htokens =>
    rw [htokens] at h
    dsimp only at h
    cases hd : lang.command CommandId.blankLine with
    | error e =>
        rw [hd] at h
        exact problem _ _ h ⟨rfl, isReading_of_command hd⟩
    | ok _ =>
        rw [hd] at h
        cases h
  · next first rest htokens =>
    rw [htokens] at h
    dsimp only at h
    split
    · -- a comment, or a commented command
      next hstar =>
      rw [if_pos hstar] at h
      unfold readComment at h ⊢
      split
      · next s hs =>
        rw [hs] at h
        cases h
      · next hs =>
        rw [hs] at h
        dsimp only at h
        cases hd : lang.command CommandId.comment with
        | error e =>
            rw [hd] at h
            exact problem _ _ h ⟨rfl, isReading_of_command hd⟩
        | ok _ =>
            rw [hd] at h
            cases h
    · next hstar =>
      rw [if_neg hstar] at h
      dsimp only at h ⊢
      cases hs : lang.readCommand (readConditional (first :: rest)).1
          (readConditional (first :: rest)).2 line text with
      | error e =>
          rw [hs] at h
          exact problem _ _ h (fails_readCommand _ _ _ _ e hs)
      | ok s =>
          rw [hs] at h
          cases h

/-- A line that cannot be read has no command, and its problem names the line. -/
theorem readLine_of_problem {lang : Language} {text : String} {d : Diagnostic}
    (h : (lang.readLine line text).2 = some d) :
    (lang.readLine line text).1.command = none ∧ (lang.readLine line text).1.line = line ∧
      d.line = line := by
  obtain ⟨hreading, condition, heq⟩ := readLine_eq_problemLine h
  rw [heq]
  exact ⟨rfl, rfl, hreading.line_eq⟩

end

/-- Every line knows its number. -/
theorem line_readLine {lang : Language} (hcat : lang.catalog.Reachable) (line : Nat)
    (text : String) : (lang.readLine line text).1.line = line := by
  cases h : (lang.readLine line text).2 with
  | none => exact (proper_of_readLine hcat h).2
  | some d => exact (readLine_of_problem h).2.1

/-- A line has a problem exactly when it has no command. -/
theorem lines_of_problem {lang : Language} (hcat : lang.catalog.Reachable) (line : Nat)
    (text : String) :
    (lang.readLine line text).2.toList.map (·.line)
      = if (lang.readLine line text).1.command.isNone then [line] else [] := by
  cases h : (lang.readLine line text).2 with
  | none =>
      have hsome := (proper_of_readLine hcat h).1.isSome_command
      cases hcommand : (lang.readLine line text).1.command with
      | none =>
          rw [hcommand] at hsome
          cases hsome
      | some d => rfl
  | some d =>
      obtain ⟨hcommand, -, hline⟩ := readLine_of_problem h
      rw [hcommand]
      simp [hline]

end Language

/-! ### What the check says about a statement

The check of one statement has three parts. Each of them reports at most what it is about, so that
it finds nothing is the same as three conditions on the statement. -/

/-- Nothing is wrong with a statement when its conditional, the number of its parameters and their
types are right. -/
theorem Tree.statementProblems_eq_nil_iff {s : Statement} {d : Definition} :
    statementProblems s d = [] ↔ allowsCondition d s.condition = true ∧
      (∀ expected, expectedCount? d = some expected → s.parameters.length = expected) ∧
      ∀ p ∈ checkedParameters s d, p.slot.type.accepts p.dataType = true := by
  unfold statementProblems
  rw [List.append_eq_nil_iff, List.append_eq_nil_iff, and_assoc, List.filterMap_eq_nil_iff]
  refine and_congr (by simp) (and_congr ?_ (forall₂_congr fun p _ => by simp))
  cases expectedCount? d with
  | none => simp
  | some expected => simp

/-- The diagnostic shows on the statement: on its line, and there on the whole of it or on one of its
parameters. -/
def Statement.Shows (s : Statement) (x : Diagnostic) : Prop :=
  x.line = s.line ∧ ((x.start = s.start ∧ x.stop = s.stop) ∨
    ∃ p ∈ s.parameters, x.start = p.start ∧ x.stop = p.stop)

/-- Only parameters of the statement are checked. -/
theorem Tree.checkedParameters_subset (s : Statement) (d : Definition) :
    checkedParameters s d ⊆ s.parameters := by
  unfold checkedParameters
  split
  · exact List.nil_subset _
  · exact List.take_subset _ _
  · exact List.take_subset _ _
  · exact List.Subset.refl _

/-- A problem with a statement shows on it, and it is about the conditional, the number of the
parameters or the type of one. -/
theorem Tree.of_mem_statementProblems {s : Statement} {d : Definition} {x : Diagnostic}
    (h : x ∈ statementProblems s d) :
    s.Shows x ∧ (x.problem = .wrongConditional d.text s.condition ∨
      (∃ expected, x.problem = .wrongCount d.text expected s.parameters.length) ∨
      ∃ p ∈ checkedParameters s d, x.problem = .invalidParameter p.text p.slot.type) := by
  unfold statementProblems at h
  dsimp only at h
  rcases List.mem_append.mp h with hwhole | htypes
  · rcases List.mem_append.mp hwhole with hconditional | hcount
    · split at hconditional
      · cases hconditional
      · rw [List.mem_singleton.mp hconditional]
        exact ⟨⟨rfl, Or.inl ⟨rfl, rfl⟩⟩, Or.inl rfl⟩
    · split at hcount
      · split at hcount
        · cases hcount
        · rw [List.mem_singleton.mp hcount]
          exact ⟨⟨rfl, Or.inl ⟨rfl, rfl⟩⟩, Or.inr (Or.inl ⟨_, rfl⟩)⟩
      · cases hcount
  · obtain ⟨p, hmem, hp⟩ := List.mem_filterMap.mp htypes
    split at hp
    · cases hp
    · cases hp
      exact ⟨⟨rfl, Or.inr ⟨p, checkedParameters_subset s d hmem, rfl, rfl⟩⟩,
        Or.inr (Or.inr ⟨p, hmem, rfl⟩)⟩

end MissionScript
