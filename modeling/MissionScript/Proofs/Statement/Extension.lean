import MissionScript.Proofs.Statement.AuxiliaryLines
import Mathlib.Data.List.Basic

/-!
# MissionScript.Proofs.Statement.Extension

What a larger catalog reads as the built-in one does.

A catalog that has been built from the built-in one still gives its commands, and gives them first
(`Extends`). None of them takes variable arguments, so a line that the built-in catalog recognises is
recognised as written, and no added command comes before it. Whatever can be read with the built-in
commands is therefore read alike (`Extends.readCommand_of_ok`), but for comments, which may be commented
commands of the larger catalog (`Extends.readLine_eq`).
-/

namespace MissionScript

namespace Catalog

/-! ### The built-in commands come first -/

theorem vargs_builtin : ∀ d ∈ builtin.definitions, d.vargs = 0 := by
  rw [definitions_builtin]
  decide

/-- Look-up by shape depends on the definitions alone. -/
theorem identify_eq (c : Catalog) (shape : String) (version : GameVersion) :
    c.identify shape version
      = (c.definitions.filter (·.supports version)).flatMap fun d =>
          (d.forms.filter (·.shape == shape)).map fun form => ⟨d, form.omitsReturn⟩ := by
  rw [identify, definitions, List.filter_map, List.flatMap_map]
  refine List.flatMap_congr fun e _ => ?_
  rw [← e.forms_eq]

/-- What comes first in one catalog comes first among its candidates. -/
theorem identify_isPrefix {c c' : Catalog} (h : c.definitions <+: c'.definitions) (shape : String)
    (version : GameVersion) : c.identify shape version <+: c'.identify shape version := by
  obtain ⟨added, hadded⟩ := h
  rw [identify_eq, identify_eq, ← hadded, List.filter_append, List.flatMap_append]
  exact List.prefix_append _ _

theorem find?_of_isPrefix {c c' : Catalog} (h : c.definitions <+: c'.definitions) {id : Nat}
    {version : GameVersion} {d : Definition} (hfind : c.find? id version = some d) :
    c'.find? id version = some d := by
  obtain ⟨added, hadded⟩ := h
  unfold find? at hfind ⊢
  rw [← hadded, List.find?_append, hfind, Option.some_or]

end Catalog

namespace Language

/-- The larger language gives the commands of the smaller one, and gives them first. The smaller one has
no variable arguments. -/
structure Extends (lang lang' : Language) : Prop where
  find?_of_some : ∀ {id d}, lang.find? id = some d → lang'.find? id = some d
  withShape_isPrefix : ∀ shape, lang.withShape shape <+: lang'.withShape shape
  vargs_eq : ∀ shape, ∀ found ∈ lang.withShape shape, found.definition.vargs = 0

theorem extends_builtin {c : Catalog} (hc : c.Reachable) (version : GameVersion) :
    Extends ⟨.builtin, version⟩ ⟨c, version⟩ where
  find?_of_some h := Catalog.find?_of_isPrefix hc.keepsBuiltin.isPrefix h
  withShape_isPrefix shape := Catalog.identify_isPrefix hc.keepsBuiltin.isPrefix shape version
  vargs_eq _ _ h := Catalog.vargs_builtin _ (Catalog.form_of_mem_identify h).1

namespace Extends

variable {lang lang' : Language} (h : lang.Extends lang')

include h

theorem command_of_ok {id : Nat} {d : Definition} (hd : lang.command id = .ok d) :
    lang'.command id = .ok d := by
  unfold command at hd ⊢
  cases hfind : lang.find? id with
  | none =>
      rw [hfind] at hd
      cases hd
  | some e =>
      rw [hfind] at hd
      rw [h.find?_of_some hfind]
      exact hd

/-- The first candidate stays the first. -/
theorem head?_candidates_of_some {condition : Conditional} {ts : List Token} {found : Candidate}
    (hfound : (lang.candidates condition ts).head? = some found) :
    (lang'.candidates condition ts).head? = some found := by
  obtain ⟨added, hadded⟩ := h.withShape_isPrefix (Token.shape ts)
  unfold candidates at hfound ⊢
  rw [← hadded, List.filter_append, List.head?_append, hfound, Option.some_or]

/-- Without variable arguments a command is recognised as it is written. -/
theorem head?_candidates_of_findCommand {condition : Conditional} {ts arguments : List Token}
    {found : Candidate} (hfound : lang.findCommand condition ts = some (found, arguments)) :
    (lang.candidates condition ts).head? = some found ∧ arguments = [] := by
  unfold findCommand at hfound
  split at hfound
  · next c hc =>
    cases hfound
    exact ⟨hc, rfl⟩
  · obtain ⟨stripped, hstripped, hs⟩ := List.exists_of_findSome?_eq_some hfound
    obtain ⟨c, hc, -⟩ := Option.map_eq_some_iff.mp hs
    -- at least one value would have to be an argument
    have hpos := (List.mem_range'_1.mp hstripped).1
    have hvargs : stripped ≤ c.definition.vargs := by simpa using List.find?_some hc
    rw [h.vargs_eq _ c (List.mem_filter.mp (List.mem_of_find?_eq_some hc)).1] at hvargs
    omega

theorem findCommand_of_some {condition : Conditional} {ts arguments : List Token}
    {found : Candidate} (hfound : lang.findCommand condition ts = some (found, arguments)) :
    lang'.findCommand condition ts = some (found, arguments) := by
  obtain ⟨hhead, rfl⟩ := h.head?_candidates_of_findCommand hfound
  rw [findCommand, h.head?_candidates_of_some hhead]

/-- A command that can be read is read alike. -/
theorem readCommand_of_ok {condition : Conditional} {ts : List Token} {line : Nat} {text : String}
    {s : Statement} (hs : lang.readCommand condition ts line text = .ok s) :
    lang'.readCommand condition ts line text = .ok s := by
  unfold readCommand at hs ⊢
  split at hs
  · cases hs
  · split at hs
    · next harray =>
      rw [if_pos harray]
      unfold readArrayAccess at hs ⊢
      split at hs
      · cases hs
      · next found hfound =>
        rw [h.head?_candidates_of_some hfound]
        exact hs
    · next harray =>
      rw [if_neg harray]
      split at hs
      · next hexpression =>
        rw [if_pos hexpression]
        unfold readExpression at hs ⊢
        obtain ⟨d, hd, hs⟩ := bind_eq_ok.mp hs
        rw [h.command_of_ok (mapError_eq_ok.mp hd)]
        exact hs
      · next hexpression =>
        rw [if_neg hexpression]
        split at hs
        · unfold readScriptCall at hs ⊢
          obtain ⟨d, hd, hs⟩ := bind_eq_ok.mp hs
          rw [h.command_of_ok (mapError_eq_ok.mp hd)]
          exact hs
        · split at hs
          · next found arguments hfound =>
            rw [h.findCommand_of_some hfound]
            exact hs
          · cases hs

end Extends

/-! ### Lines that are no comments -/

/-- A line that is no comment is read alike when it can be read. -/
theorem Extends.readLine_eq {lang lang' : Language} (h : lang.Extends lang') {line : Nat}
    {text : String} (htext : isAuxiliaryLine text = false)
    (hread : (lang.readLine line text).2 = none) :
    lang'.readLine line text = lang.readLine line text := by
  obtain ⟨first, rest, htokens, hstar⟩ := tokens_of_not_isAuxiliaryLine htext
  unfold readLine at hread ⊢
  rw [htokens] at hread ⊢
  dsimp only at hread ⊢
  simp only [hstar, Bool.false_eq_true, if_false] at hread ⊢
  cases hs : lang.readCommand (readConditional (first :: rest)).1
      (readConditional (first :: rest)).2 line text with
  | error problem =>
      rw [hs] at hread
      cases hread
  | ok s => rw [h.readCommand_of_ok hs]

end Language

end MissionScript
