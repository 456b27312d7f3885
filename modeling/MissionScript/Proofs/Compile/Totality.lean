import MissionScript.Compile
import MissionScript.Proofs.Lowering.Success
import MissionScript.Proofs.Script.Acceptance
import MissionScript.Proofs.Script.Labels
import MissionScript.Proofs.Script.Lines

/-!
# MissionScript.Proofs.Compile.Totality

Compiling never fails, whatever the script: it gives a compiled script, or problems.

`Sane` is what the absence of problems says about a script (`sane_of_no_problem`): the lines could be
read, the blocks are nested, and every label is declared once. So the tree can be lowered
(`Sane.checked`).
-/

namespace MissionScript

namespace Script

/-! ### Reading -/

theorem diagnostics_foldl (lang : Language) (numbered : List (String × Nat)) (s : Script) :
    (numbered.foldl (readLine lang) s).diagnostics
      = s.diagnostics ++ numbered.flatMap fun l => (lang.readLine l.2 l.1).2.toList := by
  induction numbered generalizing s with
  | nil => simp
  | cons l rest ih =>
      have hinsert : ∀ st, (s.insert st).diagnostics = s.diagnostics := by
        intro st
        unfold insert
        split
        · rw [insertInBlock_eq]
        · split
          · rw [insertInBlock_eq]
          · dsimp only
            split
            · rfl
            · rw [insertInBlock_eq]
      rw [List.foldl_cons, ih, List.flatMap_cons, ← List.append_assoc]
      have hread : (readLine lang s l).diagnostics
          = (s.insert (lang.readLine l.2 l.1).1).diagnostics ++ (lang.readLine l.2 l.1).2.toList := rfl
      rw [hread, hinsert]

/-- What is reported while reading is reported line by line. -/
theorem diagnostics_readLines (lang : Language) (lines : List String) :
    (readLines lang lines).diagnostics
      = (lines.zipIdx 1).flatMap fun l => (lang.readLine l.2 l.1).2.toList :=
  diagnostics_foldl lang (lines.zipIdx 1) {}

/-- What is reported while reading is that lines cannot be read. -/
theorem isReading_of_mem_diagnostics {lang : Language} {lines : List String} {d : Diagnostic}
    (h : d ∈ (readLines lang lines).diagnostics) : d.problem.isReading = true := by
  rw [diagnostics_readLines, List.mem_flatMap] at h
  obtain ⟨l, -, hd⟩ := h
  exact (Language.readLine_eq_problemLine (Option.mem_toList.mp hd)).1.isReading

/-- When nothing is reported while reading, every line could be read. -/
theorem read_of_diagnostics {lang : Language} {lines : List String}
    (h : (readLines lang lines).diagnostics = []) :
    ∀ l ∈ lines.zipIdx 1, (lang.readLine l.2 l.1).2 = none := by
  intro l hl
  rw [diagnostics_readLines] at h
  have hnil := List.flatMap_eq_nil_iff.mp h l hl
  simpa using hnil

end Script

namespace Language

open MissionScript.Tree

/-! ### A script without problems -/

/-- What is known of a script for which no problem is reported. -/
structure Sane (lang : Language) (lines : List String) : Prop where
  read : ∀ l ∈ lines.zipIdx 1, (lang.readLine l.2 l.1).2 = none
  nested : (Script.readLines lang lines).tree.Nested [] none
  no_duplicates : duplicateLabels (Script.readLines lang lines).tree.symbols = []
  no_undefined : undefinedLabels (Script.readLines lang lines).tree.symbols = []

theorem sane_of_no_problem {lang : Language} (hcat : lang.catalog.Reachable) {lines : List String}
    (hterminated : (Script.readLines lang lines).isUnterminated = false)
    (hproblems : (Script.readLines lang lines).problems = [])
    (hfound : (Script.readLines lang lines).tree.check.2 = []) : lang.Sane lines := by
  have hread := Script.read_of_diagnostics (List.append_eq_nil_iff.mp hproblems).1
  obtain ⟨hlabels, -⟩ := List.append_eq_nil_iff.mp hfound
  obtain ⟨hduplicates, hundefined⟩ := List.append_eq_nil_iff.mp hlabels
  obtain ⟨hfits, hblocks, hwaiting⟩ := (Script.terminated_and_nested_iff_fits hcat hread).mp
    ⟨hterminated, by rw [hfound]; simp⟩
  refine ⟨hread, ?_, hduplicates, hundefined⟩
  have hnested : (Script.readLines lang lines).tree.Nested (Script.readLines lang lines).blocks
      (Script.readLines lang lines).waiting := hfits
  rw [hblocks, hwaiting] at hnested
  exact hnested

/-- The tree that is lowered. -/
theorem Sane.checked {lang : Language} {lines : List String} (h : lang.Sane lines) :
    ((Script.readLines lang lines).tree.check.1).Nested [] none ∧
      ((Script.readLines lang lines).tree.check.1).Bound := by
  refine ⟨h.nested.of_sameShape (SameShape.withSymbols _ _), ?_, ?_⟩
  · intro id _
    exact Script.target_readLines lang lines id
  · intro id hpos hlt hjump
    obtain ⟨m, hmpos, hmlt, hlabel, -, -, htarget, -⟩ :=
      target?_of_jump (indexed_readLines lang lines) h.nested.proper h.no_duplicates h.no_undefined
        hpos hlt hjump
    exact ⟨m, hmpos, hmlt, hlabel, htarget⟩

/-! ### Compiling -/

/-- Nothing is reported only when there is nothing to report. -/
theorem of_sorted_eq_nil {problems found : List Diagnostic}
    (h : (problems ++ found).mergeSort Diagnostic.before = []) : problems = [] ∧ found = [] := by
  have hlength := congrArg List.length h
  rw [List.length_mergeSort] at hlength
  exact List.append_eq_nil_iff.mp (List.eq_nil_of_length_eq_zero hlength)

/-- Every script is compiled, and the code is that of its tree when nothing is reported. -/
theorem exists_compiled {lang : Language} (hcat : lang.catalog.Reachable) (lines : List String) :
    ∃ out, lang.compile lines = .ok out ∧ out.code =
      if (Script.readLines lang lines).isUnterminated = true ∨ out.diagnostics ≠ [] then none
      else ((Script.readLines lang lines).tree.check.1.lower lang).2.toOption := by
  unfold compile
  dsimp only
  cases hterminated : (Script.readLines lang lines).isUnterminated with
  | true => exact ⟨_, rfl, (if_pos (Or.inl rfl)).symm⟩
  | false =>
      rw [if_neg Bool.false_ne_true]
      split
      · next hempty =>
        have hnil := List.isEmpty_iff.mp hempty
        obtain ⟨hproblems, hfound⟩ := of_sorted_eq_nil hnil
        obtain ⟨hnested, hbound⟩ := (sane_of_no_problem hcat hterminated hproblems hfound).checked
        obtain ⟨t₁, t₂, t₃, r, -, -, hlower⟩ := lower_spec hcat hnested hbound
        rw [hlower]
        exact ⟨_, rfl, by simp [hnil, Except.toOption]⟩
      · next hempty =>
        exact ⟨_, rfl, (if_pos (Or.inr fun hnil => hempty (List.isEmpty_iff.mpr hnil))).symm⟩

/-- Compiling gives a result for every script, with code exactly when there is no problem. -/
theorem compile_total {lang : Language} (hcat : lang.catalog.Reachable) (lines : List String) :
    ∃ out, lang.compile lines = .ok out ∧ (out.code.isSome = true ↔ out.diagnostics = []) := by
  unfold compile
  dsimp only
  cases hterminated : (Script.readLines lang lines).isUnterminated with
  | true =>
      refine ⟨_, rfl, ?_⟩
      have hblocks : (Script.readLines lang lines).blocks ≠ [] := by
        simpa [Script.isUnterminated] using hterminated
      simp [Script.problems, hblocks]
  | false =>
      rw [if_neg Bool.false_ne_true]
      by_cases hempty : (((Script.readLines lang lines).problems
          ++ (Script.readLines lang lines).tree.check.2).mergeSort Diagnostic.before).isEmpty = true
      · have hnil := List.isEmpty_iff.mp hempty
        obtain ⟨hproblems, hfound⟩ := of_sorted_eq_nil hnil
        obtain ⟨hnested, hbound⟩ := (sane_of_no_problem hcat hterminated hproblems hfound).checked
        obtain ⟨t₁, t₂, t₃, r, -, -, hlower⟩ := lower_spec hcat hnested hbound
        rw [if_pos hempty, hlower]
        exact ⟨_, rfl, by simp [hnil]⟩
      · rw [if_neg hempty]
        refine ⟨_, rfl, ?_⟩
        rw [List.isEmpty_iff] at hempty
        simp [hempty]

/-- A `break` in a `skip if` in a loop, and a jump to a label that is nowhere. -/
theorem compile_total_break :
    Catalog.builtin.Reachable ∧
      ∃ out, (⟨.builtin, .threat⟩ : Language).compile
          ["while $a", "skip if $b", "break", "end", "goto nowhere"] = .ok out ∧
        (out.code.isSome = true ↔ out.diagnostics = []) :=
  ⟨.builtin, compile_total .builtin _⟩

end Language

end MissionScript
