import MissionScript.Proofs.Statement.Problems

/-!
# MissionScript.Proofs.Statement.Renumbering

What stands on a line does not depend on its number.

`Alike R x y` says that two readings go wrong together, and give results that `R` relates otherwise.
Whatever the numbers are, the readings of a line are alike (`alike_readCommand`): its statement is the
same but for the number, and it has a problem under both or under none (`readLine_withLine`).

The number of a line is handed through all readers, but none of them looks at it: it only ends up in
the statement and in the diagnostics. This is what makes it possible to insert a line into a script
and to say what the lines after it are read as.
-/

namespace MissionScript

namespace Statement

/-- The statement on another line. -/
def withLine (s : Statement) (line : Nat) : Statement := { s with line }

@[simp] theorem line_withLine (s : Statement) (line : Nat) : (s.withLine line).line = line := rfl

@[simp] theorem flow_withLine (s : Statement) (line : Nat) : (s.withLine line).flow = s.flow := rfl

@[simp] theorem command_withLine (s : Statement) (line : Nat) :
    (s.withLine line).command = s.command := rfl

@[simp] theorem commented_withLine (s : Statement) (line : Nat) :
    (s.withLine line).commented = s.commented := rfl

@[simp] theorem parameters_withLine (s : Statement) (line : Nat) :
    (s.withLine line).parameters = s.parameters := rfl

@[simp] theorem isLabel_withLine (s : Statement) (line : Nat) :
    (s.withLine line).isLabel = s.isLabel := rfl

@[simp] theorem isLabelJump_withLine (s : Statement) (line : Nat) :
    (s.withLine line).isLabelJump = s.isLabelJump := rfl

@[simp] theorem isExecutable_withLine (s : Statement) (line : Nat) :
    (s.withLine line).isExecutable = s.isExecutable := rfl

@[simp] theorem isAuxiliary_withLine (s : Statement) (line : Nat) :
    (s.withLine line).isAuxiliary = s.isAuxiliary := rfl

end Statement

namespace Language

/-! ### Readings that are alike

A problem is on the line it was found on, so two readings of a line under different numbers have
different problems, and no more is said of them. Binding readings that are alike gives such readings
again (`Alike.bind`), and the lemma of each reader follows the binds of its definition. -/

/-- Two readings go wrong together, and give related results otherwise. -/
inductive Alike {α : Type} (R : α → α → Prop) : Except Diagnostic α → Except Diagnostic α → Prop
  | ok {a b : α} (h : R a b) : Alike R (.ok a) (.ok b)
  | error {d e : Diagnostic} : Alike R (.error d) (.error e)

namespace Alike

variable {α β : Type}

theorem bind {R : β → β → Prop} {x y : Except Diagnostic α} {f g : α → Except Diagnostic β}
    (hx : Alike Eq x y) (hf : ∀ a, Alike R (f a) (g a)) : Alike R (x >>= f) (y >>= g) := by
  cases hx with
  | error => exact .error
  | @ok a b h =>
      subst h
      exact hf a

theorem mapError {ε : Type} (x : Except ε α) (f g : ε → Diagnostic) :
    Alike Eq (x.mapError f) (x.mapError g) := by
  cases x with
  | error e => exact .error
  | ok a => exact .ok rfl

end Alike

section

variable (line line' : Nat)

/-- The second statement is the first one on the line `line'`. -/
def Renumbered (s s' : Statement) : Prop := s' = s.withLine line'

theorem alike_bindValues (d : Definition) (display : Nat) (ts : List Token) :
    Alike Eq (bindValues d line display ts) (bindValues d line' display ts) := by
  induction ts generalizing display with
  | nil => exact .ok rfl
  | cons t ts ih =>
      unfold bindValues
      split
      · exact .error
      · split
        · exact .error
        · exact .bind (ih _) fun _ => .ok rfl

theorem alike_bindArguments (index : Nat) (ts : List Token) :
    Alike Eq (bindArguments line index ts) (bindArguments line' index ts) := by
  induction ts generalizing index with
  | nil => exact .ok rfl
  | cons t ts ih =>
      unfold bindArguments
      split
      · exact .error
      · exact .bind (ih _) fun _ => .ok rfl

theorem alike_bindParameters (found : Candidate) (condition : Conditional)
    (ts arguments : List Token) :
    Alike Eq (bindParameters found condition line ts arguments)
      (bindParameters found condition line' ts arguments) :=
  .bind (alike_bindValues line line' _ _ _) fun _ =>
    .bind (alike_bindArguments line line' _ _) fun _ => .ok rfl

theorem alike_readExpression (lang : Language) (condition : Conditional) (ts : List Token)
    (text : String) :
    Alike (Renumbered line') (lang.readExpression condition ts line text)
      (lang.readExpression condition ts line' text) := by
  refine .bind (.mapError _ _ _) fun d => ?_
  dsimp only
  split
  · exact .bind (.ok rfl) fun _ => .bind (.mapError _ _ _) fun _ => .ok rfl
  · split
    · split
      · exact .bind (.ok rfl) fun _ => .bind (.mapError _ _ _) fun _ => .ok rfl
      · exact .error
    · exact .error

theorem alike_bindToken (slot : Slot) (t : Token) :
    Alike Eq (bindToken slot line t) (bindToken slot line' t) :=
  .mapError _ _ _

theorem alike_readCallTarget (d : Definition) (ts : List Token) :
    Alike Eq (readCallTarget d line ts) (readCallTarget d line' ts) := by
  rw [readCallTarget_eq, readCallTarget_eq]
  refine .bind ?_ fun target => .bind ?_ fun _ => .ok rfl
  · unfold readCallReturn
    split
    · split
      · exact .bind (alike_bindToken line line' _ _) fun _ => .ok rfl
      · exact .ok rfl
    · exact .ok rfl
  · unfold readCallObject
    split
    · exact .ok rfl
    · split
      · exact .bind (alike_bindToken line line' _ _) fun _ => .ok rfl
      · exact .error
    · exact .error

theorem alike_readCallName (d : Definition) (word : Token) (ts : List Token) :
    Alike Eq (readCallName d line word ts) (readCallName d line' word ts) := by
  unfold readCallName
  split
  · split
    · exact .bind (alike_bindToken line line' _ _) fun _ => .ok rfl
    · split
      · exact .ok rfl
      · exact .error
  · exact .error

theorem alike_readArgument (index : Nat) (t : Token) :
    Alike Eq (readArgument line index t) (readArgument line' index t) := by
  unfold readArgument
  split
  · exact alike_bindToken line line' _ _
  · exact .error

theorem alike_readArguments (index : Nat) (ts : List Token) :
    Alike Eq (readArguments line index ts) (readArguments line' index ts) := by
  fun_induction readArguments line index ts with
  | case1 => exact .ok rfl
  | case2 index t => exact .bind (alike_readArgument line line' _ _) fun _ => .ok rfl
  | case3 index t equals rest hname ih =>
      rw [readArguments, if_pos hname]
      exact ih
  | case4 index t equals rest hname ih =>
      rw [readArguments, if_neg hname]
      exact .bind (alike_readArgument line line' _ _) fun _ => .bind ih fun _ => .ok rfl

theorem alike_skipColon (ts : List Token) : Alike Eq (skipColon line ts) (skipColon line' ts) := by
  unfold skipColon
  split
  · exact .ok rfl
  · split
    · exact .ok rfl
    · exact .error

theorem alike_readScriptCall (lang : Language) (condition : Conditional)
    (ts before after : List Token) (word : Token) (text : String) :
    Alike (Renumbered line') (lang.readScriptCall condition ts before word after line text)
      (lang.readScriptCall condition ts before word after line' text) :=
  .bind (.mapError _ _ _) fun _ =>
    .bind (alike_readCallTarget line line' _ _) fun _ =>
      .bind (alike_readCallName line line' _ _ _) fun _ =>
        .bind (alike_skipColon line line' _) fun _ =>
          .bind (alike_readArguments line line' _ _) fun _ => .ok rfl

theorem alike_readCommand (lang : Language) (condition : Conditional) (ts : List Token)
    (text : String) :
    Alike (Renumbered line') (lang.readCommand condition ts line text)
      (lang.readCommand condition ts line' text) := by
  unfold readCommand
  split
  · exact .error
  · split
    · unfold readArrayAccess
      split
      · exact .error
      · exact .bind (alike_bindParameters line line' _ _ _ _) fun _ => .ok rfl
    · split
      · exact alike_readExpression line line' _ _ _ _
      · split
        · exact alike_readScriptCall line line' _ _ _ _ _ _ _
        · split
          · exact .bind (alike_bindParameters line line' _ _ _ _) fun _ => .ok rfl
          · exact .error

/-- A command that can be read for one number of the line can be read for another. -/
theorem readCommand_cases_line (lang : Language) (condition : Conditional) (ts : List Token)
    (text : String) :
    (∃ d e, lang.readCommand condition ts line text = .error d ∧
        lang.readCommand condition ts line' text = .error e) ∨
      ∃ s, lang.readCommand condition ts line text = .ok s ∧
        lang.readCommand condition ts line' text = .ok (s.withLine line') := by
  have halike := alike_readCommand line line' lang condition ts text
  generalize lang.readCommand condition ts line text = x at halike ⊢
  generalize lang.readCommand condition ts line' text = y at halike ⊢
  cases halike with
  | @error d e => exact Or.inl ⟨d, e, rfl, rfl⟩
  | @ok s s' h =>
      cases h
      exact Or.inr ⟨s, rfl, rfl⟩

/-! ### Lines

The body of a commented command is read by the same readers, so the same is true of comments. -/

theorem readCommented_withLine (lang : Language) (body : Token) (text : String) :
    lang.readCommented body line' text
      = (lang.readCommented body line text).map (·.withLine line') := by
  unfold readCommented
  dsimp only
  split
  · rfl
  · split
    · rfl
    · obtain ⟨d, e, hx, hy⟩ | ⟨s, hx, hy⟩ := readCommand_cases_line line line' lang
        (readConditional ((tokens body.text).map (Token.shift body.start))).1
        (readConditional ((tokens body.text).map (Token.shift body.start))).2 text
      · rw [hx, hy]
        rfl
      · rw [hx, hy]
        rfl

/-- A comment is the same but for its number. -/
theorem readComment_withLine (lang : Language) (star : Token) (body : Option Token)
    (text : String) :
    (lang.readComment star body line' text).1
        = (lang.readComment star body line text).1.withLine line' ∧
      (lang.readComment star body line' text).2.isSome
        = (lang.readComment star body line text).2.isSome := by
  have hbody : body.bind (lang.readCommented · line' text)
      = (body.bind (lang.readCommented · line text)).map (·.withLine line') := by
    cases body with
    | none => rfl
    | some b => exact readCommented_withLine line line' lang b text
  unfold readComment
  rw [hbody]
  cases body.bind (lang.readCommented · line text) with
  | some s => exact ⟨rfl, rfl⟩
  | none =>
      dsimp only [Option.map_none]
      split <;> exact ⟨rfl, rfl⟩

/-- The statement of a line is the same but for its number, and so is whether it has a problem. -/
theorem readLine_withLine (lang : Language) (text : String) :
    (lang.readLine line' text).1 = (lang.readLine line text).1.withLine line' ∧
      (lang.readLine line' text).2.isSome = (lang.readLine line text).2.isSome := by
  unfold readLine
  split
  · split <;> exact ⟨rfl, rfl⟩
  · next first rest _ =>
    split
    · exact readComment_withLine line line' lang _ _ text
    · obtain ⟨d, e, hx, hy⟩ | ⟨s, hx, hy⟩ := readCommand_cases_line line line' lang
        (readConditional (first :: rest)).1 (readConditional (first :: rest)).2 text
      · dsimp only
        rw [hx, hy]
        exact ⟨rfl, rfl⟩
      · dsimp only
        rw [hx, hy]
        exact ⟨rfl, rfl⟩

end

end Language

end MissionScript
