import MissionScript.Proofs.Script.Displacement
import MissionScript.Proofs.Script.OpenBlocks
import MissionScript.Proofs.Statement.Indentation
import Mathlib.Data.List.Forall2

/-!
# MissionScript.Proofs.Script.Indentation

What is found in a script whose lines have moved.

The tree of an indented script is the same, and its statements have moved along with the lines
(`moved_readLines`). The check finds the same problems. What it finds about a statement moves along with
the line (`Moved.forall₂_nodeProblems`). What it finds about a label does so too, unless the label is
missing on the line, and then it is reported for the beginning of the line
(`Moved.forall₂_labelProblems`).
-/

namespace MissionScript

open Text

/-! ### Moved statements -/

theorem Parameter.Moved.bare_eq {offset : Nat} {p q : Parameter} (h : p.Moved offset q) :
    q.bare = p.bare := by
  cases h <;> rfl

theorem Statement.Moved.bare_eq {offset : Nat} {s s' : Statement} (h : s.Moved offset s') :
    s'.bare = s.bare := by
  have hparameters : s'.parameters.map Parameter.bare = s.parameters.map Parameter.bare := by
    rw [eq_comm, ← List.forall₂_eq_eq_eq, List.forall₂_map_left_iff, List.forall₂_map_right_iff]
    exact h.parameters.imp fun _ _ hpq => hpq.bare_eq.symm
  have hevaluated : s'.evaluated.map Parameter.bare = s.evaluated.map Parameter.bare := by
    rw [h.evaluated_eq, List.map_map]
    rfl
  simp only [bare, h.flow_eq, h.condition_eq, h.command_eq, h.line_eq, h.commented_eq,
    h.synthetic_eq, hparameters, hevaluated]

/-! ### Moved diagnostics -/

namespace Diagnostic

/-- The same problem, reported as much further to the right as the line has moved. -/
structure Shifted (offsets : Nat → Nat) (d e : Diagnostic) : Prop extends Same d e where
  start_eq : e.start = d.start + offsets d.line

/-- The same problem, reported as much further to the right as the line has moved or, both times, for the
beginning of the line. -/
structure Settled (offsets : Nat → Nat) (d e : Diagnostic) : Prop extends Same d e where
  start_eq : e.start = d.start + offsets d.line ∨ d.start = 0 ∧ e.start = 0

theorem Shifted.settled {offsets : Nat → Nat} {d e : Diagnostic} (h : Shifted offsets d e) :
    Settled offsets d e := ⟨h.toSame, Or.inl h.start_eq⟩

end Diagnostic

open Diagnostic (Same Shifted Settled)

/-- The same label on a line that has moved. -/
structure Symbol.Moved (offsets : Nat → Nat) (s s' : Symbol) : Prop where
  name_eq : s'.name = s.name
  line_eq : s'.line = s.line
  start_eq : s'.start = s.start + offsets s.line ∨ s.start = 0 ∧ s'.start = 0

namespace Tree

variable {offsets : Nat → Nat}

/-- What is found about a statement moves along with it. -/
theorem forall₂_statementProblems {s s' : Statement} (h : s.Moved (offsets s.line) s')
    (d : Definition) :
    List.Forall₂ (Shifted offsets) (statementProblems s d) (statementProblems s' d) := by
  -- problems are with the whole line, or with a parameter that is of the wrong type
  have hwhole : ∀ problem, Shifted offsets ⟨problem, s.line, s.start, s.stop⟩
      ⟨problem, s'.line, s'.start, s'.stop⟩ := fun _ => ⟨⟨rfl, h.line_eq⟩, h.start_eq⟩
  have hchecked : List.Forall₂ (Parameter.Moved (offsets s.line)) (checkedParameters s d)
      (checkedParameters s' d) := by
    unfold checkedParameters
    split
    · exact .nil
    · exact List.forall₂_take _ h.parameters
    · exact List.forall₂_take _ h.parameters
    · exact h.parameters
  unfold statementProblems
  dsimp only
  rw [h.condition_eq, ← h.parameters.length_eq]
  refine List.rel_append (List.rel_append ?_ ?_) ?_
  · split
    · exact .nil
    · exact .cons (hwhole _) .nil
  · cases expectedCount? d with
    | none => exact .nil
    | some expected =>
        dsimp only
        split
        · exact .nil
        · exact .cons (hwhole _) .nil
  · refine List.rel_filterMap (fun p q hpq => ?_) hchecked
    cases hpq with
    | shifted =>
        show Option.Rel _ _ (if p.slot.type.accepts p.dataType = true then _ else _)
        split
        · exact .none
        · exact .some ⟨⟨rfl, h.line_eq⟩, rfl⟩
    | unplaced _ _ haccepts =>
        rw [if_pos haccepts, if_pos haccepts]
        exact .none

/-- Labels that are declared twice are reported alike. -/
theorem forall₂_duplicateLabels {table table' : SymbolTable}
    (h : List.Forall₂ (Symbol.Moved offsets) table.labels table'.labels) :
    List.Forall₂ (Settled offsets) (duplicateLabels table) (duplicateLabels table') := by
  refine List.rel_filterMap ?_ (Script.forall₂_zipIdx h 0)
  rintro ⟨label, _⟩ ⟨label', position⟩ ⟨hlabel, rfl⟩
  have hfirst := rel_find? (List.forall₂_take position h) (p := (·.name == label.name))
    (q := (·.name == label'.name)) fun s s' hs => by rw [hs.name_eq, hlabel.name_eq]
  dsimp only
  generalize (table.labels.take position).find? (·.name == label.name) = x at hfirst ⊢
  generalize (table'.labels.take position).find? (·.name == label'.name) = y at hfirst ⊢
  cases hfirst with
  | none => exact .none
  | some hs =>
      exact .some ⟨⟨congrArg₂ Problem.duplicateLabel hlabel.name_eq hs.line_eq, hlabel.line_eq⟩,
        hlabel.start_eq⟩

/-- Labels that are declared nowhere are reported alike. -/
theorem forall₂_undefinedLabels {table table' : SymbolTable}
    (hlabels : List.Forall₂ (Symbol.Moved offsets) table.labels table'.labels)
    (hreferences : List.Forall₂ (Symbol.Moved offsets) table.references table'.references) :
    List.Forall₂ (Settled offsets) (undefinedLabels table) (undefinedLabels table') := by
  refine List.rel_filterMap (fun r r' hr => ?_) hreferences
  have hfound : Option.Rel (Symbol.Moved offsets) (table.declaration? r.name)
      (table'.declaration? r'.name) :=
    rel_find? hlabels fun s s' hs => by rw [hs.name_eq, hr.name_eq]
  generalize table.declaration? r.name = x at hfound ⊢
  generalize table'.declaration? r'.name = y at hfound ⊢
  cases hfound with
  | none => exact .some ⟨⟨by rw [hr.name_eq], hr.line_eq⟩, hr.start_eq⟩
  | some _ => exact .none

/-- The nodes say the same and have moved along with their lines. -/
structure Moved (offsets : Nat → Nat) (t t' : Tree) : Prop extends Displaced t t' where
  statement : ∀ id, (t.statement id).Moved (offsets (t.statement id).line) (t'.statement id)

namespace Moved

variable {t t' : Tree}

theorem nestingProblem?_eq (h : t.Moved offsets t') (id : Nat) :
    t'.nestingProblem? id = t.nestingProblem? id := by
  simp only [nestingProblem?, h.flow_eq, h.previousSibling?_eq, funext h.flow_eq, h.enclosingLoop?_eq,
    h.children_eq, (h.statement id).trim_eq]

/-- What is found about the nodes moves along with them. -/
theorem forall₂_nodeProblems (h : t.Moved offsets t') (id : Nat) :
    List.Forall₂ (Shifted offsets) (t.nodeProblems id) (t'.nodeProblems id) := by
  have hs := h.statement id
  unfold nodeProblems
  dsimp only
  rw [hs.command_eq, hs.commented_eq, h.nestingProblem?_eq]
  cases (t.statement id).command with
  | none => exact .nil
  | some d =>
      dsimp only
      split
      · exact .nil
      · refine List.rel_append ?_ (forall₂_statementProblems hs d)
        cases t.nestingProblem? id with
        | none => exact .nil
        | some problem => exact .cons ⟨⟨rfl, hs.line_eq⟩, hs.start_eq⟩ .nil

/-- The symbol of a node moves along with it, unless it stands nowhere. -/
theorem rel_symbolAt? (h : t.Moved offsets t') (id : Nat) :
    Option.Rel (Symbol.Moved offsets) (t.symbolAt? id) (t'.symbolAt? id) := by
  have hs := h.statement id
  have hparameters := hs.parameters
  unfold symbolAt?
  generalize (t.statement id).parameters = ps at hparameters ⊢
  generalize (t'.statement id).parameters = qs at hparameters ⊢
  cases hparameters with
  | nil => exact .none
  | cons hpq _ =>
      refine .some ⟨hpq.text_eq, hs.line_eq, ?_⟩
      cases hpq with
      | shifted => exact Or.inl rfl
      | unplaced _ hstart _ => exact Or.inr ⟨hstart, hstart⟩

theorem rel_labelAt? (h : t.Moved offsets t') (id : Nat) :
    Option.Rel (Symbol.Moved offsets) (t.labelAt? id) (t'.labelAt? id) := by
  rw [labelAt?, labelAt?, h.isLabel_eq]
  split
  · exact h.rel_symbolAt? id
  · exact .none

theorem rel_jumpAt? (h : t.Moved offsets t') (id : Nat) :
    Option.Rel (Symbol.Moved offsets) (t.jumpAt? id) (t'.jumpAt? id) := by
  rw [jumpAt?, jumpAt?, h.isLabel_eq, h.isLabelJump_eq]
  split
  · exact .none
  · split
    · exact h.rel_symbolAt? id
    · exact .none

/-- What is found about labels moves along with their lines. -/
theorem forall₂_labelProblems (h : t.Moved offsets t') (ht : t.Indexed) (ht' : t'.Indexed) :
    List.Forall₂ (Settled offsets) (duplicateLabels t.symbols ++ undefinedLabels t.symbols)
      (duplicateLabels t'.symbols ++ undefinedLabels t'.symbols) := by
  have hlabels : List.Forall₂ (Symbol.Moved offsets) t.symbols.labels t'.symbols.labels := by
    rw [ht.labels_eq, ht'.labels_eq, h.size_eq]
    exact forall₂_filterMap h.rel_labelAt? _
  have hreferences :
      List.Forall₂ (Symbol.Moved offsets) t.symbols.references t'.symbols.references := by
    rw [ht.references_eq, ht'.references_eq, h.size_eq]
    exact forall₂_filterMap h.rel_jumpAt? _
  exact List.rel_append (forall₂_duplicateLabels hlabels)
    (forall₂_undefinedLabels hlabels hreferences)

end Moved

/-- The same structure has the same openers. -/
theorem SameStructure.opener_eq {t t' : Tree} (h : t.SameStructure t') (id : Nat) :
    Script.opener t' id = Script.opener t id := by
  induction id using Nat.strongRecOn with
  | ind id ih =>
      rw [Script.opener, Script.opener, h.flow_eq, h.previousSibling?_eq]
      split
      · split
        · next previous _ =>
          split
          · next hlt => exact ih previous hlt
          · rfl
        · rfl
      · rfl

/-- A block without end is reported alike. -/
theorem Moved.same_missingEnd {t t' : Tree} (h : t.Moved offsets t') (b : Nat) :
    Same (Script.missingEnd t b) (Script.missingEnd t' b) := by
  have hs := h.statement (Script.opener t b)
  rw [Script.missingEnd, Script.missingEnd, h.opener_eq]
  exact ⟨congrArg Problem.missingEnd hs.trim_eq, hs.line_eq⟩

end Tree

/-! ### Indented scripts -/

/-- Each line of the second script is that of the first one behind some blanks. -/
def IndentedLines (lines lines' : List String) : Prop :=
  List.Forall₂ (fun text text' => ∃ offset, Indented offset text text') lines lines'

namespace Script

variable {lang : Language} {lines lines' : List String}

/-- The tree moves along with the lines, and the same blocks are left open. -/
theorem moved_readLines (hcat : lang.catalog.Reachable) (h : IndentedLines lines lines') :
    (∃ offsets, (readLines lang lines).tree.Moved offsets (readLines lang lines').tree) ∧
      (readLines lang lines').blocks = (readLines lang lines).blocks := by
  have hdisplaced : (readLines lang lines).Displaced (readLines lang lines') := by
    refine displaced_readLines (h.imp ?_)
    rintro text text' ⟨offset, htext⟩ line
    exact (Language.moved_readLine line htext hcat).1.bare_eq
  -- a line has moved as far as the statement on it
  obtain ⟨offsets, hoffsets⟩ : ∃ offsets : Nat → Nat, ∀ line, offsets line
      = ((readLines lang lines').tree.statement line).start
        - ((readLines lang lines).tree.statement line).start := ⟨_, fun _ => rfl⟩
  refine ⟨⟨offsets, hdisplaced.tree, fun id => ?_⟩, hdisplaced.blocks_eq⟩
  have hsize := hdisplaced.tree.size_eq
  by_cases hid : 0 < id ∧ id < (readLines lang lines).tree.size
  · obtain ⟨text, hget, hstatement⟩ := exists_line lang hid.1 hid.2
    obtain ⟨text', hget', hstatement'⟩ := exists_line lang hid.1 (hsize ▸ hid.2)
    obtain ⟨offset, htext⟩ : ∃ offset, Indented offset text text' :=
      List.forall₂_zip h (List.mem_of_getElem? (List.getElem?_zip_eq_some.mpr ⟨hget, hget'⟩))
    have hmoved := (Language.moved_readLine id htext hcat).1
    rw [← hstatement, ← hstatement'] at hmoved
    rw [line_statement_readLines lang hid.1 hid.2, hoffsets, hmoved.start_eq, Nat.add_sub_cancel_left]
    exact hmoved
  · have hroot : ∀ lines, (readLines lang lines).tree.statement 0 = {} :=
      fun _ => statement_eq_default lang fun h => Nat.lt_irrefl 0 h.1
    rw [statement_eq_default lang hid, statement_eq_default lang (hsize ▸ hid), hoffsets, hroot, hroot]
    exact ⟨rfl, rfl, rfl, rfl, rfl, rfl, .nil, rfl, rfl, rfl⟩

end Script

end MissionScript
