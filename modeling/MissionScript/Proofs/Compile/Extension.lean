import MissionScript.Catalog.Sample
import MissionScript.Proofs.Compile.Insertion
import MissionScript.Proofs.Compile.Lookup
import MissionScript.Proofs.Statement.Extension

/-!
# MissionScript.Proofs.Compile.Extension

Scripts of the built-in language in a larger one.

A script without comments is compiled alike, for its lines are read alike (`compile_eq_of_extends`). A
comment may become a commented command of the larger catalog, but in neither language does it matter for
what is executed. `compile_extends` takes the auxiliary lines out one by one.
-/

namespace MissionScript

namespace Language

open MissionScript.Tree

variable {c : Catalog} (hc : c.Reachable) (version : GameVersion) {lines : List String}

include hc

/-- The commands that the compiler adds are the built-in ones. -/
theorem addedCommand_eq_builtin {id : Nat}
    (hid : id = CommandId.finish ∨ id = CommandId.hiddenJump) :
    addedCommand ⟨c, version⟩ id = addedCommand ⟨.builtin, version⟩ id := by
  obtain ⟨d, -, hadded, -⟩ :=
    @addedCommand_builtin ⟨.builtin, version⟩ .builtin id hid .noReturnValue
  rw [hadded]
  unfold addedCommand at hadded ⊢
  cases hfind : (⟨.builtin, version⟩ : Language).find? id with
  | none =>
      rw [hfind] at hadded
      cases hadded
  | some e =>
      rw [hfind] at hadded
      rw [(extends_builtin hc version).find?_of_some hfind]
      exact hadded

/-- A script without blank lines and comments that is read without problems is compiled alike. -/
theorem compile_eq_of_extends (hauxiliary : ∀ text ∈ lines, isAuxiliaryLine text = false)
    (hread : ∀ l ∈ lines.zipIdx 1, ((⟨.builtin, version⟩ : Language).readLine l.2 l.1).2 = none) :
    (⟨c, version⟩ : Language).compile lines = (⟨.builtin, version⟩ : Language).compile lines :=
  compile_congr
    (fun l hl => (extends_builtin hc version).readLine_eq
      (hauxiliary l.1 (List.fst_mem_of_mem_zipIdx hl)) (hread l hl))
    (addedCommand_eq_builtin hc version (Or.inl rfl))
    (addedCommand_eq_builtin hc version (Or.inr rfl))

/-- A script that is compiled with the built-in commands is compiled with any catalog that has been built
from them, to the same commands and variables. -/
theorem compile_extends {code : Code} (h : (⟨.builtin, version⟩ : Language).Yields lines code) :
    ∃ code', (⟨c, version⟩ : Language).Yields lines code' ∧
      code'.commands = code.commands ∧ code'.vars = code.vars := by
  induction hcount : lines.countP isAuxiliaryLine generalizing lines code with
  | zero =>
      have hauxiliary : ∀ text ∈ lines, isAuxiliaryLine text = false := by
        simpa using List.countP_eq_zero.mp hcount
      obtain ⟨out, hcompile, hcode⟩ := h
      obtain ⟨-, hproblems, -⟩ := reported_of_code hcompile hcode
      have hread := Script.read_of_diagnostics (List.append_eq_nil_iff.mp hproblems).1
      exact ⟨code, ⟨out, (compile_eq_of_extends hc version hauxiliary hread).trans hcompile, hcode⟩,
        rfl, rfl⟩
  | succ n ih =>
      obtain ⟨text, hmem, htext⟩ : ∃ text ∈ lines, isAuxiliaryLine text = true :=
        List.countP_pos_iff.mp (by omega)
      obtain ⟨before, after, rfl⟩ := List.append_of_mem hmem
      -- the script without the line is compiled in both languages
      obtain ⟨small, hsmall⟩ := (exists_yields_iff .builtin _).mpr
        ((acceptable_insert_iff .builtin before after htext).mp (acceptable_of_yields .builtin h))
      obtain ⟨small', hsmall', hcommands, hvars⟩ := ih hsmall (by
        rw [List.countP_append, List.countP_cons_of_pos htext] at hcount
        rw [List.countP_append]
        omega)
      obtain ⟨code', h'⟩ := (exists_yields_iff hc _).mpr
        ((acceptable_insert_iff hc before after htext).mpr (acceptable_of_yields hc hsmall'))
      have hmatches := hsmall.matches_insert .builtin before after htext h
      have hmatches' := hsmall'.matches_insert hc before after htext h'
      refine ⟨code', h', ?_, ?_⟩
      · rw [hmatches'.commands_eq, hmatches.commands_eq, hcommands]
      · rw [hmatches'.vars_eq, hmatches.vars_eq, hvars]

omit hc

/-- A comment that is a commented command of the sample catalog. -/
theorem compile_extends_sample :
    Catalog.sample.Reachable ∧
      ∃ code, (⟨.builtin, .threat⟩ : Language).Yields
          ["* $s = [THIS] -> get sector", "while $a", "$a = $a - 1", "end"] code ∧
        ∃ code', (⟨.sample, .threat⟩ : Language).Yields
            ["* $s = [THIS] -> get sector", "while $a", "$a = $a - 1", "end"] code' ∧
          code'.commands = code.commands ∧ code'.vars = code.vars := by
  have hsample : Catalog.sample.Reachable :=
    Catalog.of_extend (P := Catalog.Reachable) .insert .builtin Catalog.sampleDefinitions
  obtain ⟨out, code, hcompile, hcode, -⟩ := exists_code_of_any ⟨.builtin, .threat⟩
    ["* $s = [THIS] -> get sector", "while $a", "$a = $a - 1", "end"] (fun _ => true)
    (by decide +kernel)
  exact ⟨hsample, code, ⟨out, hcompile, hcode⟩, compile_extends hsample .threat ⟨out, hcompile, hcode⟩⟩

end Language

end MissionScript
