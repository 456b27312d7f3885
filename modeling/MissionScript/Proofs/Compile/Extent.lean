import MissionScript.Proofs.Compile.ReportedLines
import MissionScript.Proofs.Statement.Extent

/-!
# MissionScript.Proofs.Compile.Extent

Every diagnostic of a script points into one of its lines.

What is found about reading a line stands on that line. Everything else that is reported shows on the
statement of a node: an open block on the line that begins it (`shows_missingEnd`), a label where it is
named, and the problems of the check on the statement that they are about
(`exists_shows_of_mem_check`). Statements and their parameters stand on the line they were read from,
so what shows on them points there (`pointsInto_of_shows`).
-/

namespace MissionScript

open MissionScript.Tree

/-- The line of the diagnostic is one of the lines, and it has the characters that the diagnostic is
about. -/
def Diagnostic.PointsInto (lines : List String) (d : Diagnostic) : Prop :=
  1 ≤ d.line ∧ ∃ text, lines[d.line - 1]? = some text ∧ d.OnLine text.length

namespace Statement

variable {s : Statement} {d : Diagnostic} {length : Nat}

theorem OnLine.of_shows (h : s.OnLine length) (hshows : s.Shows d) : d.OnLine length := by
  obtain ⟨-, ⟨hstart, hstop⟩ | ⟨p, hp, hstart, hstop⟩⟩ := hshows
  · rw [Diagnostic.OnLine, hstart, hstop]
    exact h.within
  · rw [Diagnostic.OnLine, hstart, hstop]
    exact h.parameters p hp

end Statement

namespace Script

variable {lang : Language} {lines : List String} {d : Diagnostic}

/-! ### What shows on the statement of a node -/

theorem shows_missingEnd (t : Tree) (b : Nat) : (t.statement (opener t b)).Shows (missingEnd t b) :=
  ⟨rfl, Or.inl ⟨rfl, rfl⟩⟩

/-- What the check finds shows on the statement of a node. -/
theorem exists_shows_of_mem_check (h : d ∈ (readLines lang lines).tree.check.2) :
    ∃ id, 0 < id ∧ id < (readLines lang lines).tree.size ∧
      ((readLines lang lines).tree.statement id).Shows d := by
  rcases List.mem_append.mp h with hlabels | hnodes
  · rcases List.mem_append.mp hlabels with hduplicate | hundefined
    · obtain ⟨id, hpos, hlt, hshows, -⟩ := exists_shows_of_mem_duplicateLabels hduplicate
      exact ⟨id, hpos, hlt, hshows⟩
    · obtain ⟨id, hpos, hlt, hshows, -⟩ := exists_shows_of_mem_undefinedLabels hundefined
      exact ⟨id, hpos, hlt, hshows⟩
  · obtain ⟨id, hid, hd⟩ := List.mem_flatMap.mp hnodes
    obtain ⟨hpos, hlt⟩ := (mem_preorder_iff (grounded_readLines lang lines).sound).mp hid
    exact ⟨id, hpos, hlt, (of_mem_nodeProblems hd).1⟩

/-! ### Pointing into the lines -/

/-- What shows on the statement of a node points into the line that the node stands for. -/
theorem pointsInto_of_shows {id : Nat} (hpos : 0 < id) (hlt : id < (readLines lang lines).tree.size)
    (h : ((readLines lang lines).tree.statement id).Shows d) : d.PointsInto lines := by
  obtain ⟨text, hget, hstatement⟩ := exists_line lang hpos hlt
  have hstands := (Language.onLine_readLine lang id text).1
  rw [← hstatement] at hstands
  rw [Diagnostic.PointsInto, line_of_shows hpos hlt h]
  exact ⟨hpos, text, hget, hstands.of_shows h⟩

/-- What is found about reading points into the line that was read. -/
theorem pointsInto_of_mem_diagnostics (h : d ∈ (readLines lang lines).diagnostics) :
    d.PointsInto lines := by
  rw [diagnostics_readLines, List.mem_flatMap] at h
  obtain ⟨⟨text, number⟩, hmem, hd⟩ := h
  have hread := Option.mem_toList.mp hd
  obtain ⟨hpos, hget⟩ := List.mk_mem_zipIdx_iff_le_and_getElem?_sub.mp hmem
  rw [Diagnostic.PointsInto, (Language.readLine_of_problem hread).2.2]
  exact ⟨hpos, text, hget, (Language.onLine_readLine lang number text).2 d hread⟩

theorem pointsInto_of_mem_problems (h : d ∈ (readLines lang lines).problems) :
    d.PointsInto lines := by
  rcases List.mem_append.mp h with hread | hopen
  · exact pointsInto_of_mem_diagnostics hread
  · obtain ⟨b, hb, rfl⟩ := List.mem_map.mp hopen
    obtain ⟨hpos, hlt⟩ := opener_readLines (List.mem_reverse.mp hb)
    exact pointsInto_of_shows hpos hlt (shows_missingEnd _ b)

theorem pointsInto_of_mem_check (h : d ∈ (readLines lang lines).tree.check.2) :
    d.PointsInto lines := by
  obtain ⟨id, hpos, hlt, hshows⟩ := exists_shows_of_mem_check h
  exact pointsInto_of_shows hpos hlt hshows

end Script

namespace Language

/-- Every script is compiled, and each diagnostic points into its line: the line is one of the script,
and the characters that the diagnostic is about are characters of that line. -/
theorem compile_points_into_lines {lang : Language} (hcat : lang.catalog.Reachable)
    (lines : List String) :
    ∃ out, lang.compile lines = .ok out ∧
      ∀ d ∈ out.diagnostics, 1 ≤ d.line ∧ d.line ≤ lines.length ∧
        ∃ text, lines[d.line - 1]? = some text ∧ d.start ≤ d.stop ∧ d.stop ≤ text.length := by
  obtain ⟨out, hcompile, -⟩ := exists_compiled hcat lines
  refine ⟨out, hcompile, fun d hd => ?_⟩
  have hpoints : d.PointsInto lines := by
    rw [diagnostics_of_compile hcompile] at hd
    split at hd
    · exact Script.pointsInto_of_mem_problems hd
    · rcases List.mem_append.mp (List.mem_mergeSort.mp hd) with hproblems | hcheck
      · exact Script.pointsInto_of_mem_problems hproblems
      · exact Script.pointsInto_of_mem_check hcheck
  obtain ⟨hpos, text, hget, hstart, hstop⟩ := hpoints
  obtain ⟨hlt, -⟩ := List.getElem?_eq_some_iff.mp hget
  exact ⟨hpos, by omega, text, hget, hstart, hstop⟩

/-- A value of the wrong type, a label that is declared twice and one that is nowhere, a fault in an
expression and a command at the wrong place, with letters outside of ASCII and behind blanks. -/
theorem compile_points_into_lines_mixed :
    ∃ lines, lines = ["\u3000for $é = 'ä' to 2 step 3 ", "end", "x:", " x:", "$ö = 4 -2 )", "gosub ñ:",
        "  break "] ∧
      Catalog.builtin.Reachable ∧
      ∃ out, (⟨.builtin, .threat⟩ : Language).compile lines = .ok out ∧
        (out.diagnostics.map fun d => (d.line, d.start, d.stop)).Perm
          [(1, 10, 13), (4, 1, 2), (5, 10, 11), (6, 6, 7), (7, 2, 7)] ∧
        ∀ d ∈ out.diagnostics, 1 ≤ d.line ∧ d.line ≤ lines.length ∧
          ∃ text, lines[d.line - 1]? = some text ∧ d.start ≤ d.stop ∧ d.stop ≤ text.length := by
  obtain ⟨out, hcompile, hpoints⟩ := @compile_points_into_lines ⟨.builtin, .threat⟩ .builtin
    ["\u3000for $é = 'ä' to 2 step 3 ", "end", "x:", " x:", "$ö = 4 -2 )", "gosub ñ:", "  break "]
  refine ⟨_, rfl, .builtin, out, hcompile, ?_, hpoints⟩
  rw [diagnostics_of_compile hcompile, if_neg (by decide +kernel)]
  exact ((List.mergeSort_perm _ _).map _).trans (by decide +kernel)

end Language

end MissionScript
