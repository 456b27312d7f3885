import MissionScript.Proofs.Compile.Acceptance
import MissionScript.Proofs.Lowering.Landing

/-!
# MissionScript.Proofs.Compile.Insertion

Blank lines and comments do not change what is executed.

Two scripts are compared, of which one has an auxiliary line more. The line is acceptable wherever it
stands (`acceptable_insert_iff`). The trees correspond, so they are lowered to commands that differ in
their lines only (`Yields.matches_insert`). `compile_insert_auxiliary` puts the two together.
-/

namespace MissionScript

namespace Language

open MissionScript.Tree

section

variable {lang : Language} (hcat : lang.catalog.Reachable) (before after : List String)
  {text : String} (htext : isAuxiliaryLine text = true)

include hcat htext

theorem inserted_readLines_auxiliary :
    Script.Inserted (before.length + 1) (Script.readLines lang (before ++ after))
      (Script.readLines lang (before ++ text :: after)) := by
  obtain ⟨hread, haux, -⟩ := readLine_of_isAuxiliaryLine hcat (before.length + 1) htext
  exact Script.inserted_readLines hcat before after hread haux

/-- A blank line or a comment is acceptable wherever it stands, and makes nothing else acceptable. -/
theorem acceptable_insert_iff :
    lang.Acceptable (before ++ text :: after) ↔ lang.Acceptable (before ++ after) := by
  obtain ⟨hread, haux, hfaultless⟩ := readLine_of_isAuxiliaryLine hcat 1 htext
  have hkind : lang.kindOf text = .auxiliary := by
    rw [kindOf, LineKind.ofStatement, if_pos haux]
  have hlines : ∀ P : String → Prop, P text →
      ((∀ l ∈ before ++ text :: after, P l) ↔ ∀ l ∈ before ++ after, P l) := by
    intro P hP
    simp only [List.forall_mem_append, List.forall_mem_cons, hP, true_and]
  have hkinds : Derives false .body ((before ++ text :: after).map lang.kindOf) ↔
      Derives false .body ((before ++ after).map lang.kindOf) := by
    rw [List.map_append, List.map_append, List.map_cons, hkind, derives_insert_auxiliary_iff]
  have hsymbols := (inserted_readLines_auxiliary hcat before after htext).symbols
  constructor
  · intro h
    have hduplicates := h.no_duplicates
    have hundefined := h.no_undefined
    rw [hsymbols] at hduplicates hundefined
    exact {
      read := (hlines _ hread).mp h.read
      faultless := (hlines _ hfaultless).mp h.faultless
      nested := hkinds.mp h.nested
      no_duplicates := duplicateLabels_renumber_iff.mp hduplicates
      no_undefined := undefinedLabels_renumber_iff.mp hundefined }
  · intro h
    exact {
      read := (hlines _ hread).mpr h.read
      faultless := (hlines _ hfaultless).mpr h.faultless
      nested := hkinds.mpr h.nested
      no_duplicates := hsymbols ▸ duplicateLabels_renumber_iff.mpr h.no_duplicates
      no_undefined := hsymbols ▸ undefinedLabels_renumber_iff.mpr h.no_undefined }

/-- The trees that are lowered correspond, and so do their labels. -/
theorem inserted_checkedTree :
    Inserted (before.length + 1) (lang.checkedTree (before ++ after))
        (lang.checkedTree (before ++ text :: after)) ∧
      (lang.checkedTree (before ++ text :: after)).symbols
        = (lang.checkedTree (before ++ after)).symbols.renumber (before.length + 1) := by
  have hinserted := inserted_readLines_auxiliary hcat before after htext
  refine ⟨hinserted.tree.of_nodes rfl rfl, ?_⟩
  show bindLabels _ = (bindLabels _).renumber _
  rw [hinserted.symbols, bindLabels_renumber]

/-- The compiled scripts match. -/
theorem Yields.matches_insert {code code' : Code} (h : lang.Yields (before ++ after) code)
    (h' : lang.Yields (before ++ text :: after) code') :
    code.Matches (before.length + 1) code' := by
  obtain ⟨out, hcompile, hcode⟩ := h
  obtain ⟨out', hcompile', hcode'⟩ := h'
  obtain ⟨t₁, t₂, t₃, r, hemits⟩ := emits_of_code hcat hcompile hcode
  obtain ⟨t₁', t₂', t₃', r', hemits'⟩ := emits_of_code hcat hcompile' hcode'
  obtain ⟨hinserted, hsymbols⟩ := inserted_checkedTree hcat before after htext
  rw [hemits.code_eq, hemits'.code_eq]
  refine hemits.steps.matches_emit hcat hemits'.steps hinserted ?_ hsymbols
  -- a `return` that is added stands on the line after the last one
  rw [lineAfter_eq hemits.steps.nested.sound hemits.numbered,
    lineAfter_eq hemits'.steps.nested.sound hemits'.numbered, hinserted.size_eq,
    renumber_of_le hinserted.le_size]

end

/-- A blank line or a comment more does not change whether a script is compiled, and then the variables
and the commands are the same, but for the lines of those below it. -/
theorem compile_insert_auxiliary {lang : Language} (hcat : lang.catalog.Reachable)
    (before after : List String) {text : String} (htext : isAuxiliaryLine text = true) :
    ((∃ code, lang.Yields (before ++ after) code) ↔
        ∃ code, lang.Yields (before ++ [text] ++ after) code) ∧
      ∀ code code', lang.Yields (before ++ after) code →
        lang.Yields (before ++ [text] ++ after) code' →
        code'.vars = code.vars ∧
          code'.commands = code.commands.map fun c =>
            { c with line := if before.length < c.line then c.line + 1 else c.line } := by
  rw [List.append_assoc, List.singleton_append]
  constructor
  · rw [exists_yields_iff hcat, exists_yields_iff hcat, acceptable_insert_iff hcat _ _ htext]
  · intro code code' h h'
    have hmatches := Yields.matches_insert hcat before after htext h h'
    refine ⟨hmatches.vars_eq, hmatches.commands_eq.trans (List.map_congr_left fun c _ => ?_)⟩
    rw [Command.renumber, renumber]
    by_cases hline : before.length < c.line
    · rw [if_neg (by omega), if_pos hline]
    · rw [if_pos (by omega), if_neg hline]

/-- A comment between a `skip if` and the `break` it owns. -/
theorem compile_insert_auxiliary_skip :
    Catalog.builtin.Reachable ∧ isAuxiliaryLine "  * last round" = true ∧
      ∃ code code',
        (⟨.builtin, .threat⟩ : Language).Yields
          (["while $a", "skip if $b"] ++ ["break", "end"]) code ∧
        (⟨.builtin, .threat⟩ : Language).Yields
          (["while $a", "skip if $b"] ++ ["  * last round"] ++ ["break", "end"]) code' ∧
        code'.vars = code.vars ∧
          code'.commands = code.commands.map fun c =>
            { c with line := if 2 < c.line then c.line + 1 else c.line } := by
  have htext : isAuxiliaryLine "  * last round" = true := by decide
  have hinsert := @compile_insert_auxiliary ⟨.builtin, .threat⟩ .builtin
    ["while $a", "skip if $b"] ["break", "end"] _ htext
  obtain ⟨out, code, hcompile, hcode, -⟩ := exists_code_of_any ⟨.builtin, .threat⟩
    (["while $a", "skip if $b"] ++ ["break", "end"]) (fun _ => true) (by decide +kernel)
  have h : (⟨.builtin, .threat⟩ : Language).Yields
      (["while $a", "skip if $b"] ++ ["break", "end"]) code := ⟨out, hcompile, hcode⟩
  obtain ⟨code', h'⟩ := hinsert.1.mp ⟨code, h⟩
  exact ⟨.builtin, htext, code, code', h, h', hinsert.2 code code' h h'⟩

end Language

end MissionScript
