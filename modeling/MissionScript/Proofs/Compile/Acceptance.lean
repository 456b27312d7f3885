import MissionScript.Proofs.Compile.Written
import MissionScript.Proofs.Statement.AuxiliaryLines

/-!
# MissionScript.Proofs.Compile.Acceptance

Which scripts are compiled.

`Acceptable` lists what a script has to be: its lines can be read and nothing is wrong with them, their
kinds derive from the grammar, and every label is declared once. Lines are taken one by one, and their
numbers do not matter. `exists_yields_iff` says that this is exactly what it takes to be compiled.
-/

namespace MissionScript

namespace Tree

/-! ### A check that finds nothing -/

/-- Where no nesting problem is found, a node with a command that counts is in its place. -/
theorem nestingProblem?_eq_none_of_check {t : Tree} {id : Nat} (hid : id ∈ t.preorder)
    (h : ∀ x ∈ t.check.2, x.problem.isNesting = false)
    {d : Definition} (hcommand : (t.statement id).command = some d)
    (hcommented : (t.statement id).commented = false) : t.nestingProblem? id = none := by
  cases hproblem : t.nestingProblem? id with
  | none => rfl
  | some problem =>
      have hnesting := h _ (mem_check_of_nestingProblem? hid hcommand hcommented hproblem)
      rw [isNesting_of_nestingProblem? hproblem] at hnesting
      cases hnesting

/-- Nothing is found when the labels, the nesting and every statement are right. -/
theorem check_eq_nil_iff {t : Tree} :
    t.check.2 = [] ↔ (duplicateLabels t.symbols = [] ∧ undefinedLabels t.symbols = []) ∧
      (∀ x ∈ t.check.2, x.problem.isNesting = false) ∧
      ∀ id ∈ t.preorder, (t.statement id).Faultless := by
  constructor
  · intro h
    refine ⟨List.append_eq_nil_iff.mp (List.append_eq_nil_iff.mp h).1, ?_, ?_⟩
    · rw [h]
      simp
    · intro id hid d hcommand hcommented
      exact statementProblems_of_check h hid hcommand hcommented
  · rintro ⟨hlabels, hnesting, hstatements⟩
    refine List.append_eq_nil_iff.mpr ⟨List.append_eq_nil_iff.mpr hlabels,
      List.flatMap_eq_nil_iff.mpr fun id hid => ?_⟩
    unfold nodeProblems
    dsimp only
    split
    · rfl
    · next d hd =>
      split
      · rfl
      · next hcommented =>
        rw [Bool.not_eq_true] at hcommented
        rw [nestingProblem?_eq_none_of_check hid hnesting hd hcommented,
          hstatements id hid d hd hcommented]
        rfl

end Tree

namespace Language

open MissionScript.Tree

/-! ### Lines one by one -/

section

variable (lang : Language) (lines : List String)

/-- What the number of a line does not matter for can be said of the lines alone. -/
theorem forall_numbered_iff {P : String × Nat → Prop} {Q : String → Prop}
    (h : ∀ l, P l ↔ Q l.1) : (∀ l ∈ lines.zipIdx 1, P l) ↔ ∀ text ∈ lines, Q text := by
  conv_rhs => rw [← List.zipIdx_map_fst 1 lines, List.forall_mem_map]
  exact forall₂_congr fun l _ => h l

theorem readLine_eq_none_iff (line : Nat) (text : String) :
    (lang.readLine line text).2 = none ↔ (lang.readLine 1 text).2 = none := by
  rw [← Option.not_isSome_iff_eq_none, ← Option.not_isSome_iff_eq_none,
    (readLine_withLine 1 line lang text).2]

theorem faultless_readLine_iff (line : Nat) (text : String) :
    (lang.readLine line text).1.Faultless ↔ (lang.readLine 1 text).1.Faultless := by
  rw [(readLine_withLine 1 line lang text).1, Statement.faultless_withLine_iff]

/-- What a line does for the block structure. -/
def kindOf (text : String) : LineKind := LineKind.ofStatement (lang.readLine 1 text).1

theorem map_kinds_eq :
    ((lines.zipIdx 1).map fun l => LineKind.ofStatement (lang.readLine l.2 l.1).1)
      = lines.map lang.kindOf := by
  conv_rhs => rw [← List.zipIdx_map_fst 1 lines, List.map_map]
  refine List.map_congr_left fun l _ => ?_
  rw [(readLine_withLine 1 l.2 lang l.1).1]
  rfl

/-- The nodes of a script are faultless when its lines are. -/
theorem forall_faultless_iff :
    (∀ id ∈ (Script.readLines lang lines).tree.preorder,
        ((Script.readLines lang lines).tree.statement id).Faultless) ↔
      ∀ text ∈ lines, (lang.readLine 1 text).1.Faultless := by
  have hpreorder : ∀ {id : Nat}, id ∈ (Script.readLines lang lines).tree.preorder ↔ _ :=
    mem_preorder_iff (Script.grounded_readLines lang lines).sound
  constructor
  · intro h text htext
    obtain ⟨k, hk⟩ := List.mem_iff_getElem?.mp htext
    have hlt := (List.getElem?_eq_some_iff.mp hk).1
    have hfaultless := h (k + 1) (hpreorder.mpr
      ⟨Nat.succ_pos k, by rw [Script.size_readLines]; omega⟩)
    rw [Script.statement_readLines lang hk] at hfaultless
    exact (faultless_readLine_iff lang (k + 1) text).mp hfaultless
  · intro h id hid
    obtain ⟨hpos, hlt⟩ := hpreorder.mp hid
    obtain ⟨text, htext, hstatement⟩ := Script.exists_line lang hpos hlt
    rw [hstatement]
    exact (faultless_readLine_iff lang id text).mpr (h text (List.mem_of_getElem? htext))

end

/-! ### Scripts that are compiled -/

/-- The script is compiled to `code`. -/
def Yields (lang : Language) (lines : List String) (code : Code) : Prop :=
  ∃ out, lang.compile lines = .ok out ∧ out.code = some code

/-- What a script that is compiled has to be. -/
structure Acceptable (lang : Language) (lines : List String) : Prop where
  read : ∀ text ∈ lines, (lang.readLine 1 text).2 = none
  faultless : ∀ text ∈ lines, (lang.readLine 1 text).1.Faultless
  nested : Derives false .body (lines.map lang.kindOf)
  no_duplicates : duplicateLabels (Script.readLines lang lines).tree.symbols = []
  no_undefined : undefinedLabels (Script.readLines lang lines).tree.symbols = []

variable {lang : Language} {lines : List String}

theorem acceptable_of_yields (hcat : lang.catalog.Reachable) {code : Code}
    (h : lang.Yields lines code) : lang.Acceptable lines := by
  obtain ⟨out, hcompile, hcode⟩ := h
  obtain ⟨hterminated, hproblems, hfound, -⟩ := reported_of_code hcompile hcode
  have hread := Script.read_of_diagnostics (List.append_eq_nil_iff.mp hproblems).1
  obtain ⟨⟨hduplicates, hundefined⟩, hnesting, hstatements⟩ := check_eq_nil_iff.mp hfound
  have haccepts := (Script.terminated_and_nested_iff_accepts hcat hread).mp ⟨hterminated, hnesting⟩
  rw [Outline.accepts_iff_derives, Script.kinds, map_kinds_eq] at haccepts
  exact {
    read := (forall_numbered_iff lines fun l => readLine_eq_none_iff lang l.2 l.1).mp hread
    faultless := (forall_faultless_iff lang lines).mp hstatements
    nested := haccepts
    no_duplicates := hduplicates
    no_undefined := hundefined }

theorem Acceptable.exists_yields (hcat : lang.catalog.Reachable) (h : lang.Acceptable lines) :
    ∃ code, lang.Yields lines code := by
  have hread := (forall_numbered_iff lines fun l => readLine_eq_none_iff lang l.2 l.1).mpr h.read
  obtain ⟨hterminated, hnesting⟩ := (Script.terminated_and_nested_iff_accepts hcat hread).mpr
    (by rw [Outline.accepts_iff_derives, Script.kinds, map_kinds_eq]; exact h.nested)
  have hfound : (Script.readLines lang lines).tree.check.2 = [] := check_eq_nil_iff.mpr
    ⟨⟨h.no_duplicates, h.no_undefined⟩, hnesting, (forall_faultless_iff lang lines).mpr h.faultless⟩
  have hproblems : (Script.readLines lang lines).problems = [] := by
    have hblocks : (Script.readLines lang lines).blocks = [] := by
      simpa [Script.isUnterminated] using hterminated
    rw [Script.problems, hblocks, Script.diagnostics_readLines]
    simpa using hread
  obtain ⟨hnested, hbound⟩ := (sane_of_no_problem hcat hterminated hproblems hfound).checked
  obtain ⟨t₁, t₂, t₃, r, -, -, hlower⟩ := lower_spec hcat hnested hbound
  refine ⟨t₃.emit t₃.layout, ?_⟩
  unfold Yields compile
  dsimp only
  rw [hterminated, if_neg Bool.false_ne_true, hproblems, hfound, if_pos (by simp), hlower]
  exact ⟨_, rfl, rfl⟩

/-- A script is compiled exactly when it is acceptable. -/
theorem exists_yields_iff (hcat : lang.catalog.Reachable) (lines : List String) :
    (∃ code, lang.Yields lines code) ↔ lang.Acceptable lines :=
  ⟨fun ⟨_, h⟩ => acceptable_of_yields hcat h, fun h => h.exists_yields hcat⟩

end Language

end MissionScript
