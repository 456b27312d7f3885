import MissionScript.Proofs.Compile.Reports

/-!
# MissionScript.Proofs.Compile.ReportedLines

On which lines something is found.

Nothing is left of a line that cannot be read, so nothing else is found there (`of_mem_diagnostics`).
Every other line declares a label, or jumps to one, or does neither. Therefore what is found about reading
and about labels is found on different lines (`pairwise_reported`). What the check finds about statements
is found on lines with a command (`command_of_mem_nodeProblems`).
-/

namespace MissionScript

/-! ### Symbols and labels -/

namespace Tree

variable {t : Tree} {id : Nat} {s : Symbol}

/-- A symbol stands where the first parameter of its node does. -/
theorem of_symbolAt?_eq_some (h : t.symbolAt? id = some s) :
    s.line = (t.statement id).line ∧
      ∃ p ∈ (t.statement id).parameters, s.start = p.start ∧ s.stop = p.stop := by
  obtain ⟨p, hp, rfl⟩ := Option.map_eq_some_iff.mp h
  exact ⟨rfl, p, List.mem_of_head? hp, rfl, rfl⟩

theorem symbolAt?_of_labelAt? (h : t.labelAt? id = some s) : t.symbolAt? id = some s := by
  unfold labelAt? at h
  split at h
  · exact h
  · cases h

theorem symbolAt?_of_jumpAt? (h : t.jumpAt? id = some s) :
    t.symbolAt? id = some s ∧ (t.statement id).isLabel = false := by
  unfold jumpAt? at h
  split at h
  · cases h
  · next hlabel =>
    split at h
    · exact ⟨h, Bool.eq_false_iff.mpr hlabel⟩
    · cases h

theorem pairwise_duplicateLabels {table : SymbolTable}
    (h : table.labels.Pairwise fun r s => r.line ≠ s.line) :
    (duplicateLabels table).Pairwise fun d e => d.line ≠ e.line := by
  have hindexed : table.labels.zipIdx.Pairwise fun x y => x.1.line ≠ y.1.line := by
    rw [← List.pairwise_map (f := Prod.fst) (R := fun r s : Symbol => r.line ≠ s.line),
      List.zipIdx_map_fst]
    exact h
  refine hindexed.filterMap _ fun x y hxy d hd e he => ?_
  obtain ⟨_, -, rfl⟩ := Option.map_eq_some_iff.mp hd
  obtain ⟨_, -, rfl⟩ := Option.map_eq_some_iff.mp he
  exact hxy

theorem pairwise_undefinedLabels {table : SymbolTable}
    (h : table.references.Pairwise fun r s => r.line ≠ s.line) :
    (undefinedLabels table).Pairwise fun d e => d.line ≠ e.line := by
  refine h.filterMap _ fun r s hrs d hd e he => ?_
  split at hd
  · cases hd
  · split at he
    · cases he
    · cases hd
      cases he
      exact hrs

end Tree

namespace Script

open MissionScript.Tree

variable {lang : Language} {lines : List String}

/-! ### Lines that cannot be read -/

/-- Nothing is left of a line that cannot be read. -/
theorem of_mem_diagnostics {d : Diagnostic} (h : d ∈ (readLines lang lines).diagnostics) :
    ((readLines lang lines).tree.statement d.line).command = none ∧
      ((readLines lang lines).tree.statement d.line).parameters = [] := by
  rw [diagnostics_readLines, List.mem_flatMap] at h
  obtain ⟨⟨text, number⟩, hmem, hd⟩ := h
  obtain ⟨⟨hline, -⟩, condition, hread⟩ := Language.readLine_eq_problemLine (Option.mem_toList.mp hd)
  rw [hline, statement_of_mem_zipIdx lang hmem, hread]
  exact ⟨rfl, rfl⟩

/-! ### Labels and jumps -/

/-- Every line has one symbol at most. -/
theorem pairwise_symbols {f : Nat → Option Symbol}
    (hf : ∀ id s, f id = some s → (readLines lang lines).tree.symbolAt? id = some s) :
    ((List.range' 1 ((readLines lang lines).tree.size - 1)).filterMap f).Pairwise
      fun r s => r.line ≠ s.line := by
  have hline : ∀ id ∈ List.range' 1 ((readLines lang lines).tree.size - 1), ∀ s, f id = some s →
      s.line = id := by
    intro id hid s hs
    obtain ⟨hpos, hlt⟩ := List.mem_range'_1.mp hid
    rw [(of_symbolAt?_eq_some (hf id s hs)).1]
    exact line_statement_readLines lang hpos (by omega)
  have hnodes : (List.range' 1 ((readLines lang lines).tree.size - 1)).Pairwise (· < ·) :=
    List.pairwise_lt_range'
  rw [List.pairwise_filterMap]
  refine hnodes.imp_of_mem fun {i j} hi hj hlt r hr s hs => ?_
  rw [hline i hi r hr, hline j hj s hs]
  exact Nat.ne_of_lt hlt

/-- A label that is declared twice shows on a line that declares it. -/
theorem exists_shows_of_mem_duplicateLabels {d : Diagnostic}
    (h : d ∈ duplicateLabels (readLines lang lines).tree.symbols) :
    ∃ id, 0 < id ∧ id < (readLines lang lines).tree.size ∧
      ((readLines lang lines).tree.statement id).Shows d ∧
      ((readLines lang lines).tree.statement id).isLabel = true ∧
      ((readLines lang lines).tree.statement id).parameters ≠ [] := by
  obtain ⟨label, hmem, -, rfl⟩ := exists_label_of_mem h
  obtain ⟨id, hpos, hlt, hlabel⟩ := (indexed_readLines lang lines).mem_labels_iff.mp hmem
  obtain ⟨hline, p, hp, hplace⟩ := of_symbolAt?_eq_some (symbolAt?_of_labelAt? hlabel)
  exact ⟨id, hpos, hlt, ⟨hline, Or.inr ⟨p, hp, hplace⟩⟩, (of_labelAt? hlabel).1,
    List.ne_nil_of_mem hp⟩

/-- A label that is declared nowhere shows on a line that jumps to it. -/
theorem exists_shows_of_mem_undefinedLabels {d : Diagnostic}
    (h : d ∈ undefinedLabels (readLines lang lines).tree.symbols) :
    ∃ id, 0 < id ∧ id < (readLines lang lines).tree.size ∧
      ((readLines lang lines).tree.statement id).Shows d ∧
      ((readLines lang lines).tree.statement id).isLabel = false ∧
      ((readLines lang lines).tree.statement id).parameters ≠ [] := by
  obtain ⟨r, hmem, rfl⟩ := exists_reference_of_mem h
  obtain ⟨id, hpos, hlt, hjump⟩ := (indexed_readLines lang lines).mem_references_iff.mp hmem
  obtain ⟨hsymbol, hlabel⟩ := symbolAt?_of_jumpAt? hjump
  obtain ⟨hline, p, hp, hplace⟩ := of_symbolAt?_eq_some hsymbol
  exact ⟨id, hpos, hlt, ⟨hline, Or.inr ⟨p, hp, hplace⟩⟩, hlabel, List.ne_nil_of_mem hp⟩

/-- What shows on the statement of a node is on the line of that number. -/
theorem line_of_shows {d : Diagnostic} {id : Nat} (hpos : 0 < id)
    (hlt : id < (readLines lang lines).tree.size)
    (h : ((readLines lang lines).tree.statement id).Shows d) : d.line = id :=
  h.1.trans (line_statement_readLines lang hpos hlt)

theorem of_mem_duplicateLabels {d : Diagnostic}
    (h : d ∈ duplicateLabels (readLines lang lines).tree.symbols) :
    ((readLines lang lines).tree.statement d.line).isLabel = true ∧
      ((readLines lang lines).tree.statement d.line).parameters ≠ [] := by
  obtain ⟨id, hpos, hlt, hshows, hlabel, hparameters⟩ := exists_shows_of_mem_duplicateLabels h
  rw [line_of_shows hpos hlt hshows]
  exact ⟨hlabel, hparameters⟩

theorem of_mem_undefinedLabels {d : Diagnostic}
    (h : d ∈ undefinedLabels (readLines lang lines).tree.symbols) :
    ((readLines lang lines).tree.statement d.line).isLabel = false ∧
      ((readLines lang lines).tree.statement d.line).parameters ≠ [] := by
  obtain ⟨id, hpos, hlt, hshows, hlabel, hparameters⟩ := exists_shows_of_mem_undefinedLabels h
  rw [line_of_shows hpos hlt hshows]
  exact ⟨hlabel, hparameters⟩

/-- No two of the problems with reading and with labels are on one line. -/
theorem pairwise_reported (lang : Language) (lines : List String) :
    ((readLines lang lines).diagnostics
      ++ (duplicateLabels (readLines lang lines).tree.symbols
        ++ undefinedLabels (readLines lang lines).tree.symbols)).Pairwise
      fun d e => d.line ≠ e.line := by
  have hindexed := indexed_readLines lang lines
  have hlabels : (readLines lang lines).tree.symbols.labels.Pairwise fun r s => r.line ≠ s.line := by
    rw [hindexed.labels_eq]
    exact pairwise_symbols fun _ _ => symbolAt?_of_labelAt?
  have hreferences :
      (readLines lang lines).tree.symbols.references.Pairwise fun r s => r.line ≠ s.line := by
    rw [hindexed.references_eq]
    exact pairwise_symbols fun _ _ hs => (symbolAt?_of_jumpAt? hs).1
  rw [List.pairwise_append, List.pairwise_append]
  refine ⟨(pairwise_diagnostics lang lines).imp Nat.ne_of_lt, ⟨pairwise_duplicateLabels hlabels,
    pairwise_undefinedLabels hreferences, fun d hd e he heq => ?_⟩, fun d hd e he heq => ?_⟩
  · have hlabel := (of_mem_duplicateLabels hd).1
    rw [heq, (of_mem_undefinedLabels he).1] at hlabel
    cases hlabel
  · have hnil := (of_mem_diagnostics hd).2
    rw [heq] at hnil
    rcases List.mem_append.mp he with hduplicate | hundefined
    · exact (of_mem_duplicateLabels hduplicate).2 hnil
    · exact (of_mem_undefinedLabels hundefined).2 hnil

/-! ### Statements -/

/-- What is found about a statement is found on a line with a command. -/
theorem command_of_mem_nodeProblems {d : Diagnostic}
    (h : d ∈ (readLines lang lines).tree.preorder.flatMap (readLines lang lines).tree.nodeProblems) :
    ((readLines lang lines).tree.statement d.line).command ≠ none := by
  obtain ⟨id, hid, hd⟩ := List.mem_flatMap.mp h
  obtain ⟨hpos, hlt⟩ := (mem_preorder_iff (grounded_readLines lang lines).sound).mp hid
  obtain ⟨hshows, definition, hcommand, -⟩ := of_mem_nodeProblems hd
  rw [line_of_shows hpos hlt hshows, hcommand]
  exact Option.some_ne_none definition

end Script

end MissionScript
