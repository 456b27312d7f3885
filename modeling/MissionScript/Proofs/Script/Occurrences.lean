import MissionScript.Proofs.Script.OpenBlocks
import MissionScript.Proofs.Statement.Occurrences

/-!
# MissionScript.Proofs.Script.Occurrences

The search for a variable finds it wherever it stands.

The search walks through the tree and looks at parameters, but what it finds is told by the lines alone. The
tree has one node for each line, and the parameters of a node are the variables among the tokens of its line
(`Language.perm_use?_readLine`). Hence the search finds the variables of the lines that are read as commands,
each once, on its line and with the characters that it covers there (`Language.perm_findSymbols_var`).
-/

namespace MissionScript

/-! ### Variables of a name -/

/-- The symbol of a variable that stands on a line. It does not tell whether the variable is declared. -/
def Symbol.occurrence (name : String) (line start stop : Nat) : Symbol :=
  { name, kind := .var, node := line, line, start, stop, declaration := false }

/-- What the search finds of a node are the variables of its parameters that have the name. -/
theorem Tree.map_varSymbols {t : Tree} {id : Nat} (h : (t.statement id).line = id) (name : String) :
    (t.varSymbols name id).map (fun s => { s with declaration := false })
      = ((t.statement id).parameters.filterMap Parameter.use?).filterMap fun u =>
          if u.1 = name then some (Symbol.occurrence name id u.2.1 u.2.2) else none := by
  rw [varSymbols, List.map_filterMap, List.filterMap_filterMap, h]
  conv_rhs => rw [← List.zipIdx_map_fst 0 (t.statement id).parameters, List.filterMap_map]
  refine List.filterMap_congr ?_
  rintro ⟨p, position⟩ -
  simp only [Function.comp_apply, Parameter.use?]
  cases hname : p.varName? with
  | none => rfl
  | some n => by_cases heq : n = name <;> simp [heq, Symbol.occurrence]

/-- The variables of a name among tokens. -/
theorem Token.map_filter_var {β : Type} {ts : List Token} {name : String}
    (h : ∀ t ∈ ts, t.kind = .var → t.text = "$" ++ String.ofList t.text.toList.tail)
    (f : Nat → Nat → β) :
    (ts.filter fun t => t.kind = .var ∧ t.text = "$" ++ name).map (fun t => f t.start t.stop)
      = (ts.filterMap use?).filterMap fun u => if u.1 = name then some (f u.2.1 u.2.2) else none := by
  rw [← List.filterMap_eq_map, List.filterMap_filter, List.filterMap_filterMap]
  refine List.filterMap_congr fun t ht => ?_
  by_cases hkind : t.kind = .var
  · have hname : t.text = "$" ++ name ↔ String.ofList t.text.toList.tail = name := by
      conv_lhs => rw [h t ht hkind]
      exact String.append_right_inj _
    simp [use?, hkind, hname]
  · simp [use?_eq_none hkind, hkind]

namespace Language

variable {lang : Language}

theorem text_of_mem_sourceTokens {line : Nat} {text : String} {t : Token}
    (ht : t ∈ lang.sourceTokens line text) (hkind : t.kind = .var) :
    t.text = "$" ++ String.ofList t.text.toList.tail := by
  unfold sourceTokens at ht
  split at ht
  · cases ht
  · split at ht
    · unfold commentTokens at ht
      split at ht
      · obtain ⟨u, hu, rfl⟩ := List.mem_map.mp ht
        exact Token.text_of_var (t := u) hu hkind
      · cases ht
    · split at ht
      · cases ht
      · exact Token.text_of_var ht hkind

/-! ### The search -/

/-- A name may be given with or without its dollar sign. -/
theorem bareName_cases (name : String) : Tree.bareName ("$" ++ name) = name ∧
    (name.toList.head? ≠ some '$' → Tree.bareName name = name) := by
  constructor
  · rw [Tree.bareName, String.toList_append]
    exact String.ofList_toList
  · intro h
    unfold Tree.bareName
    split
    · next rest heq => exact absurd (congrArg List.head? heq) h
    · rfl

/-- The search for a variable finds every place where it stands in a command, commented out or not, once and
with its characters, and nothing else: nothing in plain comments, and nothing on lines that cannot be read. The
name may be given with or without its dollar sign. -/
theorem perm_findSymbols_var (hcat : lang.catalog.Reachable) (lines : List String) (name : String) :
    (((Script.readLines lang lines).tree.findSymbols name .var).map fun s =>
        { s with declaration := false }).Perm
      ((lines.zipIdx 1).flatMap fun l =>
        ((lang.sourceTokens l.2 l.1).filter fun t =>
            t.kind = .var ∧ t.text = "$" ++ Tree.bareName name).map fun t =>
          Symbol.occurrence (Tree.bareName name) l.2 t.start t.stop) ∧
    Tree.bareName ("$" ++ name) = name ∧
    (name.toList.head? ≠ some '$' → Tree.bareName name = name) := by
  refine ⟨?_, bareName_cases name⟩
  have hlines := Script.preorder_perm lang lines
  rw [← List.zipIdx_map_snd] at hlines
  rw [Tree.findSymbols, Tree.findVar, List.map_flatMap]
  refine (hlines.flatMap_right _).trans ?_
  rw [List.flatMap_map]
  -- node by node, which is line by line
  refine List.Perm.flatMap_left _ fun l hl => ?_
  have hstatement := Script.statement_of_mem_zipIdx lang hl
  have hline : ((Script.readLines lang lines).tree.statement l.2).line = l.2 := by
    rw [hstatement, lang.line_statement_readLine]
  rw [Tree.map_varSymbols hline, hstatement, Token.map_filter_var fun t => text_of_mem_sourceTokens]
  exact (perm_use?_readLine hcat l.2 l.1).filterMap _

/-- A variable in an expression and in a command that is commented out, beside a comment and a line that
cannot be read. -/
theorem perm_findSymbols_var_commented :
    let lang : Language := ⟨.builtin, .threat⟩
    let lines := ["$n = $n * ($m - 1)", "* return $n", "* no longer $n", "take $n"]
    lang.catalog.Reachable ∧
      (((Script.readLines lang lines).tree.findSymbols "$n" .var).map fun s =>
        (s.name, s.line, s.start, s.stop)).Perm
          [("n", 1, 0, 2), ("n", 1, 5, 7), ("n", 2, 9, 11)] := by
  intro lang lines
  refine ⟨.builtin, ?_⟩
  obtain ⟨hfound, -, -⟩ := @perm_findSymbols_var lang .builtin lines "$n"
  have hplaces := hfound.map fun s => (s.name, s.line, s.start, s.stop)
  rw [List.map_map] at hplaces
  refine hplaces.trans (List.Perm.of_eq ?_)
  decide +kernel

end Language

end MissionScript
