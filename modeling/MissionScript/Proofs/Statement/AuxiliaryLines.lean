import MissionScript.Proofs.Statement.Renumbering
import MissionScript.Proofs.Token.Indentation
import MissionScript.Tree.Check

/-!
# MissionScript.Proofs.Statement.AuxiliaryLines

Blank lines and comments.

They are told by their first character that is no blank (`isAuxiliaryLine`). Whatever follows it, such a
line can be read, its statement is auxiliary, and there is nothing to report about it
(`readLine_of_isAuxiliaryLine`).
-/

namespace MissionScript

open Text

/-- Is the line blank, or is its first character that is no blank an asterisk? -/
def isAuxiliaryLine (text : String) : Bool := (trimStart text.toList).head?.all (· == '*')

/-! ### The first token -/

theorem scan_star (cs : List Char) : scan .lineStart '*' cs = (.binaryOp, []) := rfl

/-- An auxiliary line has no token, or begins with an asterisk. -/
theorem tokens_of_isAuxiliaryLine {text : String} (h : isAuxiliaryLine text = true) :
    tokens text = [] ∨ ∃ first rest, tokens text = first :: rest ∧ first.isOperator "*" = true := by
  unfold isAuxiliaryLine at h
  cases hcs : trimStart text.toList with
  | nil => exact Or.inl (tokens_of_trimStart_nil hcs)
  | cons c cs =>
      rw [hcs] at h
      have hc : c = '*' := by simpa using h
      subst hc
      obtain ⟨first, rest, htokens, hkind, htext⟩ := tokens_of_trimStart hcs
      rw [scan_star] at hkind htext
      exact Or.inr ⟨first, rest, htokens, by simp [Token.isOperator, Token.isOperatorKind, hkind, htext]⟩

/-- Every other line has a first token, and it is no asterisk. -/
theorem tokens_of_not_isAuxiliaryLine {text : String} (h : isAuxiliaryLine text = false) :
    ∃ first rest, tokens text = first :: rest ∧ first.isOperator "*" = false := by
  unfold isAuxiliaryLine at h
  cases hcs : trimStart text.toList with
  | nil =>
      rw [hcs] at h
      cases h
  | cons c cs =>
      rw [hcs] at h
      have hc : c ≠ '*' := by simpa using h
      obtain ⟨first, rest, htokens, -, htext⟩ := tokens_of_trimStart hcs
      have hne : first.text ≠ "*" := fun heq => hc <| by
        have hlist := congrArg String.toList (htext.symm.trans heq)
        rw [String.toList_ofList] at hlist
        exact (List.cons.inj hlist).1
      exact ⟨first, rest, htokens, by rw [Token.isOperator, beq_false_of_ne hne, Bool.and_false]⟩

/-! ### The statement -/

/-- The check has nothing to say about the statement itself. -/
def Statement.Faultless (s : Statement) : Prop :=
  ∀ d, s.command = some d → s.commented = false → Tree.statementProblems s d = []

theorem Statement.faultless_withLine_iff {s : Statement} {line : Nat} :
    (s.withLine line).Faultless ↔ s.Faultless := by
  simp only [Faultless, Tree.statementProblems_eq_nil_iff]
  rfl

namespace Language

/-- Every other line is read as a command. -/
theorem readLine_of_not_isAuxiliaryLine {lang : Language} {line : Nat} {text : String}
    (h : isAuxiliaryLine text = false) :
    lang.readLine line text =
      match lang.readCommand (readConditional (tokens text)).1 (readConditional (tokens text)).2 line
        text with
      | .ok s => (s, none)
      | .error problem => problemLine (readConditional (tokens text)).1 problem line text := by
  obtain ⟨first, rest, htokens, hstar⟩ := tokens_of_not_isAuxiliaryLine h
  rw [readLine, htokens]
  dsimp only
  rw [hstar]
  rfl

/-- The commands of blank lines and comments are there in every version. -/
theorem exists_auxiliary_command {lang : Language} (hcat : lang.catalog.Reachable) {id : Nat}
    (hid : id = CommandId.blankLine ∨ id = CommandId.comment) :
    ∃ d ∈ Catalog.builtin.definitions, d.id = id ∧ lang.command id = .ok d := by
  have hbuiltin : ∃ b ∈ Catalog.builtin.definitions, b.id = id :=
    Catalog.exists_builtin (by rcases hid with rfl | rfl <;> decide)
  obtain ⟨d, hd, hdid, hfind⟩ := hcat.find?_builtin hbuiltin lang.version
  exact ⟨d, hd, hdid, by rw [command, find?, hfind]⟩

/-- Nothing is checked of a comment, and a blank line has no parameters. -/
theorem faultless_of_builtin {d : Definition} (hd : d ∈ Catalog.builtin.definitions)
    {ps : List Parameter}
    (h : d.id = CommandId.blankLine ∧ ps = [] ∨ d.id = CommandId.comment) (line : Nat)
    (text : String) : (Statement.ofLine (some d) .unconditional ps line text).Faultless := by
  have hall : ∀ e ∈ Catalog.builtin.definitions,
      (e.id = CommandId.blankLine → e.kind = .auxiliary ∧ Tree.expectedCount? e = some 0) ∧
        (e.id = CommandId.comment → e.kind = .comment) := by
    rw [Catalog.definitions_builtin]
    decide
  intro d' hd' _
  cases hd'
  rw [Tree.statementProblems_eq_nil_iff]
  refine ⟨rfl, ?_, ?_⟩
  · rcases h with ⟨hid, rfl⟩ | hid
    · rw [((hall d hd).1 hid).2]
      rintro _ ⟨⟩
      rfl
    · rw [Tree.expectedCount?, (hall d hd).2 hid]
      rintro _ ⟨⟩
  · intro p hp
    rcases h with ⟨hid, rfl⟩ | hid
    · rw [Tree.checkedParameters, ((hall d hd).1 hid).1] at hp
      cases hp
    · rw [Tree.checkedParameters, (hall d hd).2 hid] at hp
      cases hp

theorem commented_of_readCommented {lang : Language} {body : Token} {line : Nat} {text : String}
    {s : Statement} (h : lang.readCommented body line text = some s) : s.commented = true := by
  unfold readCommented at h
  dsimp only at h
  split at h
  · cases h
  · split at h
    · cases h
    · split at h
      · cases h
        rfl
      · cases h

/-- A blank line or a comment can be read, and there is nothing to report about it. -/
theorem readLine_of_isAuxiliaryLine {lang : Language} (hcat : lang.catalog.Reachable) (line : Nat)
    {text : String} (h : isAuxiliaryLine text = true) :
    (lang.readLine line text).2 = none ∧ (lang.readLine line text).1.isAuxiliary = true ∧
      (lang.readLine line text).1.Faultless := by
  unfold readLine
  rcases tokens_of_isAuxiliaryLine h with hnil | ⟨first, rest, hcons, hstar⟩
  · obtain ⟨d, hd, hdid, hcommand⟩ := exists_auxiliary_command hcat (Or.inl rfl)
    rw [hnil]
    dsimp only
    rw [hcommand]
    exact ⟨rfl, isAuxiliary_of_command hcat hcommand (Or.inl rfl) _ _ _,
      faultless_of_builtin hd (Or.inl ⟨hdid, rfl⟩) _ _⟩
  · rw [hcons]
    dsimp only
    rw [if_pos hstar, readComment]
    split
    · next s hs =>
      -- a commented command is not checked
      obtain ⟨body, -, hbody⟩ := Option.bind_eq_some_iff.mp hs
      have hcommented := commented_of_readCommented hbody
      refine ⟨rfl, by simp [Statement.isAuxiliary, hcommented], fun d _ hnot => ?_⟩
      rw [hcommented] at hnot
      cases hnot
    · obtain ⟨d, hd, hdid, hcommand⟩ := exists_auxiliary_command hcat (Or.inr rfl)
      rw [hcommand]
      exact ⟨rfl, isAuxiliary_of_command hcat hcommand (Or.inr rfl) _ _ _,
        faultless_of_builtin hd (Or.inr hdid) _ _⟩

end Language

end MissionScript
