import MissionScript.Proofs.Script.Labels
import MissionScript.Proofs.Script.Nesting
import MissionScript.Proofs.Statement.Problems

/-!
# MissionScript.Proofs.Script.Acceptance

Which scripts have no open block and no nesting problem.

`readLines_simulates` lifts the simulation of one line to whole scripts. With it,
`terminated_and_nested_iff_derives` says that a script whose lines can be read has all its blocks
ended and no nesting problem exactly when the kinds of its lines derive from the grammar.

The reader never stops at a line that is out of place, while a grammar is done with the script
there. So the simulation has two outcomes: the outline has run along with the reader and no node is
misplaced, or it has stopped, and from then on some node is misplaced for good (`Broken`), whatever
lines follow.
-/

namespace MissionScript

/-- Is the problem about the place of a statement among the others? -/
def Problem.isNesting : Problem → Bool
  | .outsideLoop _ | .elseWithoutIf | .endWithoutBlock | .skipWithoutCommand => true
  | _ => false

namespace Tree

/-! ### Nesting problems in a report

Among the problems of a report, four are about nesting. They come from one question asked of each
node (`nestingProblem?`), and no other part of the check gives one of them. -/

/-- What this question finds is about nesting. -/
theorem isNesting_of_nestingProblem? {t : Tree} {id : Nat} {problem : Problem}
    (h : t.nestingProblem? id = some problem) : problem.isNesting = true := by
  unfold nestingProblem? at h
  dsimp only at h
  repeat' split at h
  all_goals cases h
  all_goals rfl

/-- What is wrong with a statement itself is not. -/
theorem not_isNesting_of_statementProblems {s : Statement} {d : Definition} {x : Diagnostic}
    (h : x ∈ statementProblems s d) : x.problem.isNesting = false := by
  obtain ⟨-, hproblem | ⟨_, hproblem⟩ | ⟨_, -, hproblem⟩⟩ := of_mem_statementProblems h
  all_goals
    rw [hproblem]
    rfl

/-- The problems with labels are not about nesting. -/
theorem not_isNesting_of_labels {table : SymbolTable} {x : Diagnostic}
    (h : x ∈ duplicateLabels table ++ undefinedLabels table) : x.problem.isNesting = false := by
  rcases List.mem_append.mp h with hduplicate | hundefined
  · obtain ⟨label, -, firstLine, rfl⟩ := exists_label_of_mem hduplicate
    rfl
  · obtain ⟨r, -, rfl⟩ := exists_reference_of_mem hundefined
    rfl

/-- A problem with a node shows on its statement, and it is about its place or about the statement. -/
theorem of_mem_nodeProblems {t : Tree} {id : Nat} {x : Diagnostic} (h : x ∈ t.nodeProblems id) :
    (t.statement id).Shows x ∧ ∃ d, (t.statement id).command = some d ∧
      (t.nestingProblem? id = some x.problem ∨ x ∈ statementProblems (t.statement id) d) := by
  unfold nodeProblems at h
  dsimp only at h
  split at h
  · cases h
  · next d hcommand =>
    split at h
    · cases h
    · rcases List.mem_append.mp h with hnesting | hstatement
      · obtain ⟨problem, hproblem, rfl⟩ := List.mem_map.mp hnesting
        exact ⟨⟨rfl, Or.inl ⟨rfl, rfl⟩⟩, d, hcommand, Or.inl (Option.mem_toList.mp hproblem)⟩
      · exact ⟨(of_mem_statementProblems hstatement).1, d, hcommand, Or.inr hstatement⟩

/-- What is wrong with the place of a command is reported. -/
theorem mem_check_of_nestingProblem? {t : Tree} {id : Nat} (hid : id ∈ t.preorder) {d : Definition}
    (hcommand : (t.statement id).command = some d) (hcommented : (t.statement id).commented = false)
    {problem : Problem} (h : t.nestingProblem? id = some problem) :
    ⟨problem, (t.statement id).line, (t.statement id).start, (t.statement id).stop⟩
      ∈ t.check.2 := by
  refine List.mem_append_right _ (List.mem_flatMap.mpr ⟨id, hid, ?_⟩)
  rw [nodeProblems, hcommand, hcommented, h]
  simp

/-- A tree is reported for its nesting exactly when a node is out of place. -/
theorem exists_nesting_iff {t : Tree} (hs : t.Sound)
    (hproper : ∀ id, 0 < id → id < t.size → (t.statement id).Proper) :
    (∃ d ∈ t.check.2, d.problem.isNesting = true) ↔
      ∃ id, 0 < id ∧ id < t.size ∧ t.Misplaced id := by
  constructor
  · rintro ⟨d, hd, hnesting⟩
    rcases List.mem_append.mp hd with hlabels | hnodes
    · rw [not_isNesting_of_labels hlabels] at hnesting
      cases hnesting
    · obtain ⟨id, hid, hproblem⟩ := List.mem_flatMap.mp hnodes
      obtain ⟨hpos, hlt⟩ := (mem_preorder_iff hs).mp hid
      refine ⟨id, hpos, hlt, ?_⟩
      rw [← nestingProblem?_isSome_iff]
      obtain ⟨-, definition, -, hplace | hstatement⟩ := of_mem_nodeProblems hproblem
      · rw [hplace]
        rfl
      · rw [not_isNesting_of_statementProblems hstatement] at hnesting
        cases hnesting
  · rintro ⟨id, hpos, hlt, hmis⟩
    obtain ⟨problem, hproblem⟩ := Option.isSome_iff_exists.mp
      ((nestingProblem?_isSome_iff t id).mpr hmis)
    have hstatement := hproper id hpos hlt
    obtain ⟨d, hd⟩ := Option.isSome_iff_exists.mp hstatement.isSome_command
    -- commented commands take no part in the flow of control, so they are never out of place
    have hcommented : (t.statement id).commented = false := by
      refine hstatement.commented_of_flow fun hplain => ?_
      have hflow : t.flow id = .plain := hplain
      rw [Misplaced, hflow] at hmis
      exact hmis
    have hmem := mem_check_of_nestingProblem? ((mem_preorder_iff hs).mpr ⟨hpos, hlt⟩) hd hcommented
      hproblem
    exact ⟨_, hmem, isNesting_of_nestingProblem? hproblem⟩

end Tree

namespace Script

open MissionScript.Tree

/-! ### Whole scripts

The induction is on the lines, from the front, with the states of the reader and of the outline side
by side. -/

/-- Before the first line nothing is out of place. -/
theorem fits_empty : ({} : Script).Fits where
  sound := sound_empty
  proper id hpos hlt := absurd hlt (Nat.not_lt.mpr hpos)
  siblings id hpos hlt := absurd hlt (Nat.not_lt.mpr hpos)
  parents id p hp := by
    have := (sound_empty.parent_lt hp)
    have hsize : empty.size = 1 := size_empty
    omega
  exits id hpos hlt := absurd hlt (Nat.not_lt.mpr hpos)
  path := trivial
  open_of_last p id hlast := by
    have hid := mem_children.mp (List.mem_of_getLast? hlast)
    have hsize : (({} : Script).tree).size = 1 := size_empty
    omega
  skips id hpos hlt := absurd hlt (Nat.not_lt.mpr hpos)
  waits id hid := by cases hid

/-- The kinds of numbered lines. -/
def kinds (lang : Language) (numbered : List (String × Nat)) : List LineKind :=
  numbered.map fun l => LineKind.ofStatement (lang.readLine l.2 l.1).1

/-- Once a node is out of place it stays so. -/
theorem broken_readLines {lang : Language} (hcat : lang.catalog.Reachable)
    {numbered : List (String × Nat)} (hread : ∀ l ∈ numbered, (lang.readLine l.2 l.1).2 = none)
    {s : Script} (hopened : s.Opened) (h : s.Broken) :
    (numbered.foldl (readLine lang) s).Opened ∧ (numbered.foldl (readLine lang) s).Broken := by
  induction numbered generalizing s with
  | nil => exact ⟨hopened, h⟩
  | cons l rest ih =>
      have hst := (Language.proper_of_readLine hcat (hread l List.mem_cons_self)).1
      have hopened' := hopened.insert hst
      have hbroken' := h.insert hopened (lang.readLine l.2 l.1).1
      exact ih (fun m hm => hread m (List.mem_cons_of_mem _ hm))
        ⟨hopened'.sound, hopened'.proper, hopened'.blocks, hopened'.waiting⟩ hbroken'

/-- The machine runs along with the reader, up to the first line that does not fit. -/
theorem foldl_simulates {lang : Language} (hcat : lang.catalog.Reachable)
    {numbered : List (String × Nat)} (hread : ∀ l ∈ numbered, (lang.readLine l.2 l.1).2 = none)
    {s : Script} (h : s.Fits) :
    (s.outline.run (kinds lang numbered) = some (numbered.foldl (readLine lang) s).outline ∧
        (numbered.foldl (readLine lang) s).Fits) ∨
      (s.outline.run (kinds lang numbered) = none ∧
        (numbered.foldl (readLine lang) s).Opened ∧ (numbered.foldl (readLine lang) s).Broken) := by
  induction numbered generalizing s with
  | nil => exact Or.inl ⟨rfl, h⟩
  | cons l rest ih =>
      have hst := (Language.proper_of_readLine hcat (hread l List.mem_cons_self)).1
      have hrest : ∀ m ∈ rest, (lang.readLine m.2 m.1).2 = none :=
        fun m hm => hread m (List.mem_cons_of_mem _ hm)
      rw [kinds, List.map_cons, ← kinds, List.foldl_cons, Outline.run]
      rcases insert_simulates h hst with ⟨hstep, hfits⟩ | ⟨hstep, hbroken⟩
      · rw [hstep, Option.bind_some]
        exact ih hrest (s := readLine lang s l) hfits
      · rw [hstep, Option.bind_none]
        have hopened := h.opened.insert hst
        exact Or.inr ⟨rfl, broken_readLines hcat hrest (s := readLine lang s l)
          ⟨hopened.sound, hopened.proper, hopened.blocks, hopened.waiting⟩ hbroken⟩

/-- The same for a whole script. -/
theorem readLines_simulates {lang : Language} (hcat : lang.catalog.Reachable)
    {lines : List String} (hread : ∀ l ∈ lines.zipIdx 1, (lang.readLine l.2 l.1).2 = none) :
    (Outline.run {} (kinds lang (lines.zipIdx 1)) = some (readLines lang lines).outline ∧
        (readLines lang lines).Fits) ∨
      (Outline.run {} (kinds lang (lines.zipIdx 1)) = none ∧
        (readLines lang lines).Opened ∧ (readLines lang lines).Broken) :=
  foldl_simulates hcat hread fits_empty

/-- Nothing is open when there are no blocks, and no `skip if` waits. -/
theorem outline_eq_empty_iff (s : Script) :
    s.outline = {} ↔ s.blocks = [] ∧ s.waiting = none := by
  simp [outline]

/-- A script that fits and has nothing open is one that is reported for nothing. -/
theorem terminated_and_nested_iff_fits {lang : Language} (hcat : lang.catalog.Reachable)
    {lines : List String} (hread : ∀ l ∈ lines.zipIdx 1, (lang.readLine l.2 l.1).2 = none) :
    ((readLines lang lines).isUnterminated = false ∧
        ∀ d ∈ (readLines lang lines).tree.check.2, d.problem.isNesting = false) ↔
      (readLines lang lines).Fits ∧ (readLines lang lines).blocks = [] ∧
        (readLines lang lines).waiting = none := by
  have hterminated : (readLines lang lines).isUnterminated = false
      ↔ (readLines lang lines).blocks = [] := by simp [isUnterminated]
  have hnesting : (∀ d ∈ (readLines lang lines).tree.check.2, d.problem.isNesting = false)
      ↔ ¬ ∃ d ∈ (readLines lang lines).tree.check.2, d.problem.isNesting = true := by simp
  have hopened : (readLines lang lines).Opened := by
    rcases readLines_simulates hcat hread with ⟨-, hfits⟩ | ⟨-, hopened, -⟩
    · exact hfits.opened
    · exact hopened
  rw [hterminated, hnesting, exists_nesting_iff hopened.sound hopened.proper]
  constructor
  · rintro ⟨hblocks, hnone⟩
    rcases readLines_simulates hcat hread with ⟨-, hfits⟩ | ⟨-, -, hbroken⟩
    · refine ⟨hfits, hblocks, ?_⟩
      cases hw : (readLines lang lines).waiting with
      | none => rfl
      | some w =>
          -- a `skip if` that still waits has no command
          obtain ⟨hparent, hflow, hchildren⟩ := hfits.waits w hw
          obtain ⟨hlt, hsize⟩ := hfits.sound.parent_lt hparent
          refine absurd ⟨w, by omega, hsize, ?_⟩ hnone
          rw [Misplaced, hflow]
          show _ ≠ 1
          rw [hchildren]
          decide
    · obtain ⟨id, hpos, hlt, hmis, -⟩ := hbroken
      exact absurd ⟨id, hpos, hlt, hmis⟩ hnone
  · rintro ⟨hfits, hblocks, hwaiting⟩
    refine ⟨hblocks, ?_⟩
    rintro ⟨id, hpos, hlt, hmis⟩
    refine hfits.not_misplaced hpos hlt ?_ hmis
    rw [hwaiting]
    simp

/-- A script whose lines can be read has all its blocks ended and no nesting problem exactly when the
outline accepts the kinds of its lines. -/
theorem terminated_and_nested_iff_accepts {lang : Language} (hcat : lang.catalog.Reachable)
    {lines : List String} (hread : ∀ l ∈ lines.zipIdx 1, (lang.readLine l.2 l.1).2 = none) :
    ((readLines lang lines).isUnterminated = false ∧
        ∀ d ∈ (readLines lang lines).tree.check.2, d.problem.isNesting = false) ↔
      Outline.Accepts {} (kinds lang (lines.zipIdx 1)) := by
  rw [terminated_and_nested_iff_fits hcat hread, Outline.Accepts]
  rcases readLines_simulates hcat hread with ⟨hrun, hfits⟩ | ⟨hrun, -, hbroken⟩
  · rw [hrun, Option.some.injEq, outline_eq_empty_iff]
    exact ⟨fun h => h.2, fun h => ⟨hfits, h⟩⟩
  · rw [hrun]
    constructor
    · rintro ⟨hfits, -, -⟩
      obtain ⟨id, hpos, hlt, hmis, hne⟩ := hbroken
      exact absurd hmis (hfits.not_misplaced hpos hlt hne)
    · intro hsome
      cases hsome

/-- A script whose lines can be read has all its blocks ended and no nesting problem exactly when the
kinds of its lines derive from the grammar. -/
theorem terminated_and_nested_iff_derives {lang : Language} (hcat : lang.catalog.Reachable)
    (lines : List String)
    (hread : ∀ l ∈ lines.zipIdx 1, (lang.readLine l.2 l.1).2 = none) :
    ((readLines lang lines).isUnterminated = false ∧
        ∀ d ∈ (readLines lang lines).tree.check.2, d.problem.isNesting = false) ↔
      Derives false .body
        ((lines.zipIdx 1).map fun l => LineKind.ofStatement (lang.readLine l.2 l.1).1) := by
  rw [terminated_and_nested_iff_accepts hcat hread, Outline.accepts_iff_derives, kinds]

/-- A loop whose `skip if` owns a `break`, with a comment between the two. -/
theorem terminated_and_nested_break_skipped :
    (∀ l ∈ ["while $a", "skip if $b", "* last round", "break", "end"].zipIdx 1,
      ((⟨.builtin, .threat⟩ : Language).readLine l.2 l.1).2 = none) ∧
    (((readLines ⟨.builtin, .threat⟩
          ["while $a", "skip if $b", "* last round", "break", "end"]).isUnterminated = false ∧
        ∀ d ∈ (readLines ⟨.builtin, .threat⟩
          ["while $a", "skip if $b", "* last round", "break", "end"]).tree.check.2,
          d.problem.isNesting = false) ↔
      Derives false .body [.loopLine, .skipLine, .auxiliary, .loopExit, .endLine]) := by
  have hread : ∀ l ∈ ["while $a", "skip if $b", "* last round", "break", "end"].zipIdx 1,
      ((⟨.builtin, .threat⟩ : Language).readLine l.2 l.1).2 = none := by decide +kernel
  have hkinds : (["while $a", "skip if $b", "* last round", "break", "end"].zipIdx 1).map
      (fun l => LineKind.ofStatement ((⟨.builtin, .threat⟩ : Language).readLine l.2 l.1).1)
        = [.loopLine, .skipLine, .auxiliary, .loopExit, .endLine] := by decide +kernel
  rw [← hkinds]
  exact ⟨hread, terminated_and_nested_iff_derives .builtin _ hread⟩

end Script

end MissionScript
