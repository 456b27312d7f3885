import MissionScript.Compile
import MissionScript.Proofs.Compile.Totality
import MissionScript.Proofs.Script.OpenBlocks

/-!
# MissionScript.Proofs.Compile.Reports

What a compiled script reports, and in which order.

Nothing that is found is left out, and nothing is added. Where all blocks are ended the problems are
sorted. Where a block is left open they stand as they were found, those of the lines before those of the
open blocks, so they are in order exactly when every problem of a line comes before that of the outermost
open block (`compile_reports`). It may not, as a block begins before the lines in it
(`compile_reports_open`).
-/

namespace MissionScript

/-! ### The order of diagnostics -/

namespace Diagnostic

theorem before_iff {d e : Diagnostic} :
    d.before e = true ↔ d.line < e.line ∨ d.line = e.line ∧ d.start ≤ e.start := by
  simp [before]

theorem before_of_line_lt {d e : Diagnostic} (h : d.line < e.line) : d.before e = true :=
  before_iff.mpr (Or.inl h)

theorem before_trans (a b c : Diagnostic) (hab : a.before b = true) (hbc : b.before c = true) :
    a.before c = true := by
  rw [before_iff] at *
  omega

theorem before_total (a b : Diagnostic) : (a.before b || b.before a) = true := by
  rw [Bool.or_eq_true, before_iff, before_iff]
  omega

/-- The diagnostics are listed by line, and by column within a line. -/
def Listed (ds : List Diagnostic) : Prop := ds.Pairwise fun d e => d.before e = true

theorem listed_mergeSort (ds : List Diagnostic) : Listed (ds.mergeSort before) :=
  List.pairwise_mergeSort before_trans before_total ds

/-- Sorting leaves those diagnostics as they are that are in order among themselves. -/
theorem filter_mergeSort {ds : List Diagnostic} {p : Diagnostic → Bool} (h : Listed (ds.filter p)) :
    (ds.mergeSort before).filter p = ds.filter p := by
  have hsorted := (List.sublist_mergeSort before_trans before_total h List.filter_sublist).filter p
  rw [List.filter_filter] at hsorted
  simp only [Bool.and_self] at hsorted
  exact (hsorted.eq_of_length ((List.mergeSort_perm ds before).filter p).length_eq.symm).symm

end Diagnostic

namespace Script

open Diagnostic (Listed)

/-! ### The problems of the lines -/

/-- A line has one problem at most, so the problems of the lines are in order. -/
theorem pairwise_diagnostics (lang : Language) (lines : List String) :
    (readLines lang lines).diagnostics.Pairwise fun d e => d.line < e.line := by
  rw [diagnostics_readLines, List.pairwise_flatMap]
  have hline : ∀ (l : String × Nat), ∀ d ∈ (lang.readLine l.2 l.1).2.toList, d.line = l.2 :=
    fun l d hd => (Language.readLine_of_problem (Option.mem_toList.mp hd)).2.2
  have hnumbers : (lines.zipIdx 1).Pairwise fun l m => l.2 < m.2 := by
    rw [← List.pairwise_map, List.zipIdx_map_snd]
    exact List.pairwise_lt_range'
  constructor
  · intro l _
    cases (lang.readLine l.2 l.1).2 with
    | none => exact List.Pairwise.nil
    | some d => exact List.pairwise_singleton _ d
  · exact hnumbers.imp fun {l m} hlt d hd e he => by
      rw [hline l d hd, hline m e he]
      exact hlt

/-- The problems of a script are in order exactly when those of the lines come before that of the
outermost open block. -/
theorem listed_problems_iff (lang : Language) (lines : List String) :
    Listed (readLines lang lines).problems ↔
      ∀ b ∈ (readLines lang lines).blocks.getLast?, ∀ d ∈ (readLines lang lines).diagnostics,
        d.before (missingEnd (readLines lang lines).tree b) = true := by
  have hdiagnostics : Listed (readLines lang lines).diagnostics :=
    (pairwise_diagnostics lang lines).imp Diagnostic.before_of_line_lt
  have hends := pairwise_missingEnd lang lines
  rw [Listed, problems, List.pairwise_append]
  rw [← List.head?_reverse]
  cases hblocks : (readLines lang lines).blocks.reverse with
  | nil =>
      simp only [List.map_nil, List.head?_nil, Option.mem_def, reduceCtorEq, false_implies,
        implies_true, iff_true]
      exact ⟨hdiagnostics, List.Pairwise.nil, by simp⟩
  | cons outermost inner =>
      rw [hblocks, List.map_cons, List.pairwise_cons] at hends
      obtain ⟨hfirst, hinner⟩ := hends
      simp only [List.head?_cons, Option.mem_def, Option.some.injEq, forall_eq', List.map_cons]
      constructor
      · rintro ⟨-, -, hcross⟩ d hd
        exact hcross d hd _ List.mem_cons_self
      · intro h
        refine ⟨hdiagnostics, List.pairwise_cons.mpr ⟨?_, ?_⟩, fun d hd => ?_⟩
        · exact fun e he => Diagnostic.before_of_line_lt (hfirst e he)
        · exact hinner.imp Diagnostic.before_of_line_lt
        · refine List.forall_mem_cons.mpr ⟨h d hd, fun e he => ?_⟩
          exact Diagnostic.before_trans _ _ _ (h d hd)
            (Diagnostic.before_of_line_lt (hfirst e he))

end Script

namespace Language

open Diagnostic (Listed)

/-- What is reported: with an open block the problems as they were found, otherwise those and what the
check finds, sorted. -/
theorem diagnostics_of_compile {lang : Language} {lines : List String} {out : Compiled}
    (h : lang.compile lines = .ok out) :
    out.diagnostics =
      if (Script.readLines lang lines).isUnterminated then (Script.readLines lang lines).problems
      else ((Script.readLines lang lines).problems
        ++ (Script.readLines lang lines).tree.check.2).mergeSort Diagnostic.before := by
  unfold compile at h
  dsimp only at h
  split at h
  · next hopen =>
    cases h
    rw [if_pos hopen]
  · next hopen =>
    rw [if_neg hopen]
    split at h
    · split at h
      · cases h
        rfl
      · cases h
    · cases h
      rfl

/-- The diagnostics are the problems of the lines and of the open blocks and, when no block is open, what
the check finds. They are in order unless a problem of a line comes after that of the outermost open
block. -/
theorem compile_reports {lang : Language} {lines : List String} {out : Compiled}
    (h : lang.compile lines = .ok out) :
    out.diagnostics.Perm ((Script.readLines lang lines).problems ++
        if (Script.readLines lang lines).isUnterminated then []
        else (Script.readLines lang lines).tree.check.2) ∧
      (Listed out.diagnostics ↔
        ∀ b ∈ (Script.readLines lang lines).blocks.getLast?,
          ∀ d ∈ (Script.readLines lang lines).diagnostics,
            d.before (Script.missingEnd (Script.readLines lang lines).tree b) = true) := by
  rw [diagnostics_of_compile h]
  cases hopen : (Script.readLines lang lines).isUnterminated with
  | true =>
      rw [if_pos rfl, if_pos rfl, List.append_nil]
      exact ⟨List.Perm.refl _, Script.listed_problems_iff lang lines⟩
  | false =>
      rw [if_neg Bool.false_ne_true, if_neg Bool.false_ne_true]
      have hblocks : (Script.readLines lang lines).blocks = [] := by
        simpa [Script.isUnterminated] using hopen
      refine ⟨List.mergeSort_perm _ _, iff_of_true (Diagnostic.listed_mergeSort _) ?_⟩
      simp [hblocks]

/-- A script whose result passes a test. -/
theorem exists_compiled_of_any (lang : Language) (lines : List String) (p : Compiled → Bool)
    (h : (lang.compile lines).toOption.any p = true) :
    ∃ out, lang.compile lines = .ok out ∧ p out = true := by
  cases hcompile : lang.compile lines with
  | error failure =>
      rw [hcompile] at h
      cases h
  | ok out =>
      rw [hcompile] at h
      exact ⟨out, rfl, h⟩

/-- A line that cannot be read in front of two open blocks. -/
theorem compile_reports_ahead :
    ∃ lines, lines = ["$a = (1", "while $b", "if $c", "goto nowhere"] ∧
      ∃ out, (⟨.builtin, .threat⟩ : Language).compile lines = .ok out ∧
        out.diagnostics.map (·.line) = [1, 2, 3] ∧
        out.diagnostics.Perm ((Script.readLines ⟨.builtin, .threat⟩ lines).problems ++
          if (Script.readLines ⟨.builtin, .threat⟩ lines).isUnterminated then []
          else (Script.readLines ⟨.builtin, .threat⟩ lines).tree.check.2) ∧
        (Listed out.diagnostics ↔
          ∀ b ∈ (Script.readLines ⟨.builtin, .threat⟩ lines).blocks.getLast?,
            ∀ d ∈ (Script.readLines ⟨.builtin, .threat⟩ lines).diagnostics,
              d.before (Script.missingEnd (Script.readLines ⟨.builtin, .threat⟩ lines).tree b)
                = true) := by
  obtain ⟨out, hcompile, hfound⟩ := exists_compiled_of_any ⟨.builtin, .threat⟩
    ["$a = (1", "while $b", "if $c", "goto nowhere"]
    (fun out => out.diagnostics.map (·.line) == [1, 2, 3]) (by decide +kernel)
  exact ⟨_, rfl, out, hcompile, eq_of_beq hfound, compile_reports hcompile⟩

/-- The problem of a line in an open block is reported before that of the block, which begins above. -/
theorem compile_reports_open :
    ∃ out, (⟨.builtin, .terranConflict⟩ : Language).compile ["if $a", "$b = (1"] = .ok out ∧
      ¬ Listed out.diagnostics := by
  obtain ⟨out, hcompile, hfound⟩ := exists_compiled_of_any ⟨.builtin, .terranConflict⟩
    ["if $a", "$b = (1"] (fun out => out.diagnostics.map (·.line) == [2, 1]) (by decide +kernel)
  refine ⟨out, hcompile, fun hlisted => ?_⟩
  have hlines : (out.diagnostics.map (·.line)).Pairwise (· ≤ ·) := by
    rw [List.pairwise_map]
    exact hlisted.imp fun h => by
      rw [Diagnostic.before_iff] at h
      omega
  rw [eq_of_beq hfound] at hlines
  exact absurd hlines (by decide)

end Language

end MissionScript
