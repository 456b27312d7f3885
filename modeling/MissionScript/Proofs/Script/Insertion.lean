import MissionScript.Proofs.Script.Labels
import MissionScript.Proofs.Script.Lines
import MissionScript.Proofs.Tree.Insertion

/-!
# MissionScript.Proofs.Script.Insertion

Two scripts of which one has an auxiliary line more.

`Script.Inserted n s s'` says that the tree, the labels and what is open correspond. A line that is read
in both keeps them so (`Inserted.readLine`), and they begin to do so where the line `n` has been read in
one of them only (`inserted_readLine`). So the whole scripts correspond (`inserted_readLines`).

The numbers of nodes are the numbers of lines, so a line more gives every later node, label and line
another number: those from `n` on move up by one (`renumber n`). What is read for a line does not
depend on its number (`MissionScript.Proofs.Statement.Renumbering`), and where its statement goes
depends on the blocks that are open, which correspond. This is why the invariant goes through one
line at a time.
-/

namespace MissionScript

/-! ### Labels

The table of labels is filled while the lines are read and bound afterwards. Both only compare
names, so they commute with giving the nodes other numbers. -/

/-- The symbol once another node has taken the number `n`, and another line as well. -/
def Symbol.renumber (n : Nat) (s : Symbol) : Symbol :=
  { s with node := MissionScript.renumber n s.node, line := MissionScript.renumber n s.line }

namespace SymbolTable

/-- The table once another node has taken the number `n`. -/
def renumber (n : Nat) (table : SymbolTable) : SymbolTable where
  labels := table.labels.map (Symbol.renumber n)
  references := table.references.map (Symbol.renumber n)
  bindings := table.bindings.map fun b =>
    (MissionScript.renumber n b.1, MissionScript.renumber n b.2)

variable (n : Nat) (table : SymbolTable)

theorem declare_renumber (s : Symbol) :
    (table.renumber n).declare (s.renumber n) = (table.declare s).renumber n := by
  simp [declare, renumber]

theorem reference_renumber (s : Symbol) :
    (table.renumber n).reference (s.renumber n) = (table.reference s).renumber n := by
  simp [reference, renumber]

theorem declaration?_renumber (name : String) :
    (table.renumber n).declaration? name
      = (table.declaration? name).map (Symbol.renumber n) := by
  rw [declaration?, renumber, List.find?_map]
  rfl

theorem target?_renumber (source : Nat) :
    (table.renumber n).target? (MissionScript.renumber n source)
      = (table.target? source).map (MissionScript.renumber n) := by
  rw [target?, target?, renumber]
  dsimp only
  induction table.bindings with
  | nil => rfl
  | cons b bindings ih =>
      have hbeq : (MissionScript.renumber n source == MissionScript.renumber n b.1)
          = (source == b.1) := by
        rw [Bool.eq_iff_iff]
        simp
      rw [List.map_cons, List.lookup_cons, List.lookup_cons, ih, hbeq]
      cases source == b.1 <;> rfl

end SymbolTable

namespace Tree

theorem duplicateLabels_renumber_iff {n : Nat} {table : SymbolTable} :
    duplicateLabels (table.renumber n) = [] ↔ duplicateLabels table = [] := by
  rw [duplicateLabels_eq_nil_iff, duplicateLabels_eq_nil_iff, SymbolTable.renumber, List.map_map]
  rfl

theorem undefinedLabels_renumber_iff {n : Nat} {table : SymbolTable} :
    undefinedLabels (table.renumber n) = [] ↔ undefinedLabels table = [] := by
  rw [undefinedLabels_eq_nil_iff, undefinedLabels_eq_nil_iff]
  simp only [SymbolTable.declaration?_renumber, Option.isSome_map]
  rw [SymbolTable.renumber]
  simp [Symbol.renumber]

theorem bindLabels_renumber (n : Nat) (table : SymbolTable) :
    bindLabels (table.renumber n) = (bindLabels table).renumber n := by
  have hfoldl : ∀ (refs : List Symbol) (bound : SymbolTable),
      (refs.map (Symbol.renumber n)).foldl (bindLabel (table.renumber n)) (bound.renumber n)
        = (refs.foldl (bindLabel table) bound).renumber n := by
    intro refs
    induction refs with
    | nil => exact fun _ => rfl
    | cons r refs ih =>
        intro bound
        have hstep : bindLabel (table.renumber n) (bound.renumber n) (r.renumber n)
            = (bindLabel table bound r).renumber n := by
          rw [bindLabel, bindLabel, show (r.renumber n).name = r.name from rfl,
            SymbolTable.declaration?_renumber]
          cases table.declaration? r.name <;> rfl
        rw [List.map_cons, List.foldl_cons, List.foldl_cons, hstep, ih]
  rw [bindLabels_eq, bindLabels_eq]
  exact hfoldl table.references table

end Tree

namespace Script

open MissionScript.Tree

/-- The trees, the labels and what is open correspond. -/
structure Inserted (n : Nat) (s s' : Script) : Prop where
  tree : Tree.Inserted n s.tree s'.tree
  symbols : s'.tree.symbols = s.tree.symbols.renumber n
  blocks : s'.blocks = s.blocks.map (renumber n)
  waiting : s'.waiting = s.waiting.map (renumber n)

/-! ### One line

The reader asks for the innermost open block, for the part that the last child plays, and for what
waits. All of these are the same in both scripts, up to the numbers. -/

section

variable {n : Nat}

/-- The label of a node is recorded alike. -/
theorem symbols_recordSymbol_renumber {t t' : Tree} (h : Tree.Inserted n t t')
    (hsymbols : t'.symbols = t.symbols.renumber n) (id : Nat) :
    (recordSymbol t' (renumber n id)).symbols = (recordSymbol t id).symbols.renumber n := by
  unfold recordSymbol
  simp only [h.statement_eq, Statement.parameters_withLine, Statement.isLabel_withLine,
    Statement.isLabelJump_withLine, Statement.line_withLine]
  cases (t.statement id).parameters.head? with
  | none => exact hsymbols
  | some p =>
      dsimp only
      split
      · dsimp only
        rw [hsymbols, ← SymbolTable.declare_renumber]
        rfl
      · split
        · dsimp only
          rw [hsymbols, ← SymbolTable.reference_renumber]
          rfl
        · exact hsymbols

/-- A statement is placed at corresponding places, and its label is recorded alike. -/
theorem place_renumber {t t' : Tree} (h : Tree.Inserted n t t')
    (hsymbols : t'.symbols = t.symbols.renumber n) (p : Nat) (st : Statement) :
    Tree.Inserted n (place t p st) (place t' (renumber n p) (st.withLine (renumber n st.line))) ∧
      (place t' (renumber n p) (st.withLine (renumber n st.line))).symbols
        = (place t p st).symbols.renumber n := by
  have hadd : Tree.Inserted n (t.add p st)
      (t'.add (renumber n p) (st.withLine (renumber n st.line))) :=
    h.addNode p { statement := st }
  have hsize : t'.size = renumber n t.size := by
    rw [h.size_eq, renumber_of_le h.le_size]
  rw [place, place, hsize]
  exact ⟨hadd.of_nodes (nodes_recordSymbol _ _) (nodes_recordSymbol _ _),
    symbols_recordSymbol_renumber hadd hsymbols t.size⟩

/-- The root keeps its number, and so the owners of the next line correspond. -/
theorem ownerOf_renumber (hpos : 0 < n) (blocks : List Nat) :
    ownerOf (blocks.map (renumber n)) = renumber n (ownerOf blocks) := by
  cases blocks with
  | nil => exact (renumber_of_lt hpos).symm
  | cons b blocks => rfl

namespace Inserted

variable {s s' : Script}

/-- A branch continues a block in both scripts or in neither. -/
theorem continuesBranch_eq (h : Inserted n s s') : s'.continuesBranch = s.continuesBranch := by
  rw [continuesBranch, continuesBranch, h.blocks]
  cases s.blocks with
  | nil => rfl
  | cons b blocks => simp [h.tree.flow_renumber]

theorem base_eq (h : Inserted n s s') (f : Flow) : s'.base f = (s.base f).map (renumber n) := by
  unfold base
  rw [h.continuesBranch_eq, h.blocks]
  split
  · exact List.map_tail.symm
  · split
    · exact List.map_tail.symm
    · rfl
  · split
    · exact List.map_tail.symm
    · rfl
  · rfl

theorem opens_eq (h : Inserted n s s') (f : Flow) : s'.opens f = s.opens f := by
  unfold opens
  rw [h.continuesBranch_eq]

/-- A statement that nothing waits for keeps the scripts in step. -/
theorem insertInBlock (h : Inserted n s s') (st : Statement) :
    Inserted n (s.insertInBlock st)
      (s'.insertInBlock (st.withLine (renumber n st.line))) := by
  have hsize : s'.tree.size = renumber n s.tree.size := by
    rw [h.tree.size_eq, renumber_of_le h.tree.le_size]
  obtain ⟨htree, hsymbols⟩ := place_renumber h.tree h.symbols (ownerOf (s.base st.flow)) st
  rw [insertInBlock_eq, insertInBlock_eq, Statement.flow_withLine, h.base_eq, h.opens_eq, hsize,
    ownerOf_renumber h.tree.pos, h.waiting]
  refine ⟨htree, hsymbols, ?_, ?_⟩
  · dsimp only
    split <;> rfl
  · dsimp only
    split <;> rfl

/-- Every statement keeps the scripts in step, also one that a `skip if` has waited for. -/
theorem insert (h : Inserted n s s') (st : Statement) :
    Inserted n (s.insert st) (s'.insert (st.withLine (renumber n st.line))) := by
  unfold Script.insert
  rw [h.waiting]
  cases hw : s.waiting with
  | none => exact h.insertInBlock st
  | some w =>
      dsimp only [Option.map_some]
      rw [Statement.isAuxiliary_withLine]
      split
      · exact h.insertInBlock st
      · have hfree : Inserted n { s with waiting := none } { s' with waiting := none } :=
          ⟨h.tree, h.symbols, h.blocks, rfl⟩
        rw [show isSkippable (st.withLine (renumber n st.line)) = isSkippable st from rfl]
        split
        · obtain ⟨htree, hsymbols⟩ := place_renumber h.tree h.symbols w st
          exact ⟨htree, hsymbols, h.blocks, rfl⟩
        · exact hfree.insertInBlock st

/-- A line after the number `n` that is read in both scripts keeps them so. -/
theorem readLine (h : Inserted n s s') {lang : Language} (hcat : lang.catalog.Reachable)
    (text : String) {line : Nat} (hline : n ≤ line) :
    Inserted n (Script.readLine lang s (text, line)) (Script.readLine lang s' (text, line + 1)) := by
  have hstatement := (Language.readLine_withLine line (line + 1) lang text).1
  have hnumber : line + 1 = renumber n (lang.readLine line text).1.line := by
    rw [Language.line_readLine hcat, renumber_of_le hline]
  rw [hnumber] at hstatement
  have hinsert := h.insert (lang.readLine line text).1
  rw [← hstatement, ← hnumber] at hinsert
  exact ⟨hinsert.tree, hinsert.symbols, hinsert.blocks, hinsert.waiting⟩

/-- All lines after the number `n` keep the scripts in step. -/
theorem foldl (h : Inserted n s s') {lang : Language} (hcat : lang.catalog.Reachable)
    (lines : List String) {line : Nat} (hline : n ≤ line) :
    Inserted n ((lines.zipIdx line).foldl (Script.readLine lang) s)
      ((lines.zipIdx (line + 1)).foldl (Script.readLine lang) s') := by
  induction lines generalizing s s' line with
  | nil => exact h
  | cons text lines ih =>
      rw [List.zipIdx_cons, List.zipIdx_cons, List.foldl_cons, List.foldl_cons]
      exact ih (h.readLine hcat text hline) (by omega)

end Inserted

end

/-! ### The line more

Up to the line more, the scripts are the same, and all their numbers are below `n`, so that
renumbering them changes nothing. An auxiliary statement is put at the end of the innermost block
and leaves everything else as it is; from there on the two scripts correspond. -/

/-- Reading binds nothing. -/
theorem bindings_readLines (lang : Language) (lines : List String) :
    (readLines lang lines).tree.symbols.bindings = [] := by
  have hfoldl : ∀ (numbered : List (String × Nat)) (s : Script),
      (numbered.foldl (Script.readLine lang) s).tree.symbols.bindings = s.tree.symbols.bindings := by
    intro numbered
    induction numbered with
    | nil => exact fun _ => rfl
    | cons l rest ih =>
        intro s
        obtain ⟨p, htree, -⟩ := insert_spec s (lang.readLine l.2 l.1).1
        have htree' : (Script.readLine lang s l).tree
            = place s.tree p (lang.readLine l.2 l.1).1 := htree
        rw [List.foldl_cons, ih, htree', place, bindings_recordSymbol]
        rfl
  exact hfoldl (lines.zipIdx 1) {}

/-- All numbers in the table are below that of the next line. -/
theorem renumber_symbols_readLines {lang : Language} (hcat : lang.catalog.Reachable)
    (lines : List String) :
    (readLines lang lines).tree.symbols.renumber (lines.length + 1)
      = (readLines lang lines).tree.symbols := by
  -- all symbols are on lines of the script, and no such line has the number after the last
  have hsymbol : ∀ id, 0 < id → id < (readLines lang lines).tree.size → ∀ s,
      (readLines lang lines).tree.symbolAt? id = some s → s.renumber (lines.length + 1) = s := by
    intro id hpos hlt s hs
    have hline := line_statement hcat hpos hlt
    obtain ⟨p, -, rfl⟩ := Option.map_eq_some_iff.mp hs
    rw [size_readLines] at hlt
    rw [Symbol.renumber]
    dsimp only
    rw [hline, renumber_of_lt hlt]
  have hindexed := indexed_readLines lang lines
  have hlabels : ∀ s ∈ (readLines lang lines).tree.symbols.labels,
      s.renumber (lines.length + 1) = s := by
    intro s hs
    obtain ⟨id, hpos, hlt, hs⟩ := hindexed.mem_labels_iff.mp hs
    unfold labelAt? at hs
    split at hs
    · exact hsymbol id hpos hlt s hs
    · cases hs
  have hreferences : ∀ s ∈ (readLines lang lines).tree.symbols.references,
      s.renumber (lines.length + 1) = s := by
    intro s hs
    obtain ⟨id, hpos, hlt, hs⟩ := hindexed.mem_references_iff.mp hs
    unfold jumpAt? at hs
    split at hs
    · cases hs
    · split at hs
      · exact hsymbol id hpos hlt s hs
      · cases hs
  rw [SymbolTable.renumber, List.map_congr_left hlabels, List.map_congr_left hreferences,
    bindings_readLines, List.map_id', List.map_id', List.map_nil, ← bindings_readLines lang lines]

/-- All numbers in a node are below that of the next line. -/
theorem renumber_node_readLines {lang : Language} (hcat : lang.catalog.Reachable)
    (lines : List String) (id : Nat) :
    ((readLines lang lines).tree.node id).renumber (lines.length + 1)
      = (readLines lang lines).tree.node id := by
  refine Node.renumber_eq_self (fun p hp => ?_) ?_ (target_readLines lang lines id)
  · have := (grounded_readLines lang lines).sound.parent_lt hp
    have := size_readLines lang lines
    omega
  · show ((readLines lang lines).tree.statement id).line < lines.length + 1
    rcases Nat.eq_zero_or_pos id with rfl | hpos
    · -- the root is no line
      have hroot := (grounded_empty.foldl lang (lines.zipIdx 1)).2.1.statement_eq 0 (by decide)
      rw [show readLines lang lines = (lines.zipIdx 1).foldl (Script.readLine lang) {} from rfl, hroot]
      exact Nat.succ_pos _
    · by_cases hlt : id < (readLines lang lines).tree.size
      · rw [line_statement hcat hpos hlt, ← size_readLines lang lines]
        exact hlt
      · rw [Tree.statement, node_of_size_le (Nat.le_of_not_lt hlt)]
        exact Nat.succ_pos _

/-- An auxiliary statement is added to the innermost open block, and nothing else happens. -/
theorem insert_of_auxiliary {st : Statement} (hst : st.Proper) (haux : st.isAuxiliary = true)
    (s : Script) : s.insert st = { s with tree := s.tree.add (ownerOf s.blocks) st } := by
  have hflow := hst.flow_of_auxiliary haux
  have hlabel : st.isLabel = false := by
    cases hlabel : st.isLabel with
    | false => rfl
    | true =>
        have hexec := hst.executable_of_label hlabel
        rw [Statement.isExecutable_eq_false_of_isAuxiliary haux] at hexec
        cases hexec
  have hblock : s.insertInBlock st = { s with tree := s.tree.add (ownerOf s.blocks) st } := by
    rw [insertInBlock_eq, hflow, place_eq_add hlabel (by simp [Statement.isLabelJump, hflow])]
    rfl
  unfold Script.insert
  rw [hblock, haux]
  split <;> rfl

/-- Where an auxiliary line has been read in one script only, they begin to correspond. -/
theorem inserted_readLine {lang : Language} (hcat : lang.catalog.Reachable) (lines : List String)
    {text : String} (hread : (lang.readLine (lines.length + 1) text).2 = none)
    (haux : (lang.readLine (lines.length + 1) text).1.isAuxiliary = true) :
    Inserted (lines.length + 1) (readLines lang lines)
      (Script.readLine lang (readLines lang lines) (text, lines.length + 1)) := by
  have hsize := size_readLines lang lines
  have hgrounded := grounded_readLines lang lines
  have hst := (Language.proper_of_readLine hcat hread).1
  have hinsert := insert_of_auxiliary hst haux (readLines lang lines)
  have htree := Tree.Inserted.of_add hgrounded.sound.size_pos
    (by rw [hsize]; exact renumber_node_readLines hcat lines) (ownerOf (readLines lang lines).blocks)
    haux (hst.flow_of_auxiliary haux)
  rw [hsize] at htree
  have hbegin : Inserted (lines.length + 1) (readLines lang lines)
      ((readLines lang lines).insert (lang.readLine (lines.length + 1) text).1) := by
    rw [hinsert]
    refine ⟨htree, (renumber_symbols_readLines hcat lines).symm, ?_, ?_⟩
    · rw [List.map_congr_left fun b hb => renumber_of_lt (hsize ▸ hgrounded.blocks b hb),
        List.map_id']
    · cases hw : (readLines lang lines).waiting with
      | none => rfl
      | some w => rw [Option.map_some, renumber_of_lt (hsize ▸ hgrounded.waiting w hw)]
  exact ⟨hbegin.tree, hbegin.symbols, hbegin.blocks, hbegin.waiting⟩

/-- Scripts of which one has an auxiliary line more correspond. -/
theorem inserted_readLines {lang : Language} (hcat : lang.catalog.Reachable)
    (before after : List String) {text : String}
    (hread : (lang.readLine (before.length + 1) text).2 = none)
    (haux : (lang.readLine (before.length + 1) text).1.isAuxiliary = true) :
    Inserted (before.length + 1) (readLines lang (before ++ after))
      (readLines lang (before ++ text :: after)) := by
  have hfoldl := (inserted_readLine hcat before hread haux).foldl hcat after (Nat.le_refl _)
  rw [readLines, readLines, List.zipIdx_append, List.zipIdx_append, List.foldl_append,
    List.foldl_append, List.zipIdx_cons, List.foldl_cons, Nat.add_comm 1]
  exact hfoldl

end Script

end MissionScript
