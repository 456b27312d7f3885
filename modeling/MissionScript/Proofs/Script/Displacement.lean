import MissionScript.Proofs.Script.Lines
import MissionScript.Proofs.Tree.Displacement
import Mathlib.Data.List.Forall2

/-!
# MissionScript.Proofs.Script.Displacement

Scripts whose lines say the same.

`Script.Displaced s s'` says that the trees differ only in where their statements are written, and that
the same is open. A statement that is added to both scripts keeps them so (`Displaced.insert`), so two
scripts correspond when their lines have the same bare statements (`displaced_readLines`).

A statement without its places is `bare`. The reader puts statements into the tree by their flow,
which is part of the bare statement, so it does the same with both scripts; only the symbols that it
records have places, and they are compared bare as well.
-/

namespace MissionScript

namespace Tree

namespace Displaced

variable {t t' : Tree}

/-- The symbols of a node are the same but for their places. -/
theorem symbolAt?_eq (h : t.Displaced t') (id : Nat) :
    (t'.symbolAt? id).map Symbol.bare = (t.symbolAt? id).map Symbol.bare := by
  have hhead : (t'.statement id).parameters.head?.map Parameter.bare
      = (t.statement id).parameters.head?.map Parameter.bare := by
    rw [← List.head?_map, ← List.head?_map]
    exact congrArg (fun s : Statement => s.parameters.head?) (h.bare_eq id)
  rw [symbolAt?, symbolAt?, h.isLabel_eq, h.line_eq]
  generalize (t'.statement id).parameters.head? = x at hhead ⊢
  generalize (t.statement id).parameters.head? = y at hhead ⊢
  cases y with
  | none =>
      rw [Option.map_none, Option.map_eq_none_iff] at hhead
      rw [hhead]
  | some p =>
      obtain ⟨q, rfl, hq⟩ := Option.map_eq_some_iff.mp hhead
      have htext : q.text = p.text := (congrArg Parameter.text hq :)
      simp only [Option.map_some, Symbol.bare, htext]

/-- The same label is declared. -/
theorem labelAt?_eq (h : t.Displaced t') (id : Nat) :
    (t'.labelAt? id).map Symbol.bare = (t.labelAt? id).map Symbol.bare := by
  rw [labelAt?, labelAt?, h.isLabel_eq]
  split
  · exact h.symbolAt?_eq id
  · rfl

/-- The same label is jumped to. -/
theorem jumpAt?_eq (h : t.Displaced t') (id : Nat) :
    (t'.jumpAt? id).map Symbol.bare = (t.jumpAt? id).map Symbol.bare := by
  rw [jumpAt?, jumpAt?, h.isLabel_eq, h.isLabelJump_eq]
  split
  · rfl
  · split
    · exact h.symbolAt?_eq id
    · rfl

/-- The label of a node is recorded in both trees. -/
theorem recordSymbol (h : t.Displaced t') (id : Nat) :
    (Script.recordSymbol t id).Displaced (Script.recordSymbol t' id) := by
  have hsymbols : (Script.recordSymbol t' id).symbols.bare
      = (Script.recordSymbol t id).symbols.bare := by
    have hlabels : t'.symbols.labels.map Symbol.bare = t.symbols.labels.map Symbol.bare :=
      (congrArg SymbolTable.labels h.symbols_eq :)
    have hreferences :
        t'.symbols.references.map Symbol.bare = t.symbols.references.map Symbol.bare :=
      (congrArg SymbolTable.references h.symbols_eq :)
    have hbindings : t'.symbols.bindings = t.symbols.bindings :=
      (congrArg SymbolTable.bindings h.symbols_eq :)
    simp only [SymbolTable.bare, symbols_recordSymbol, bindings_recordSymbol, List.map_append,
      ← Option.toList_map, hlabels, hreferences, hbindings, h.labelAt?_eq, h.jumpAt?_eq]
  refine of_nodes (by rw [Script.size_recordSymbol, Script.size_recordSymbol, h.size_eq])
    (fun n => ?_) hsymbols
  rw [Script.node_recordSymbol, Script.node_recordSymbol]
  exact ⟨h.parent_eq n, h.bare_eq n, h.target_eq n⟩

/-- Statements that are the same when bare are placed alike. -/
theorem place (h : t.Displaced t') (p : Nat) {st st' : Statement} (hst : st'.bare = st.bare) :
    (Script.place t p st).Displaced (Script.place t' p st') := by
  have hadd : (t.add p st).Displaced (t'.add p st') := h.addNode p hst rfl
  rw [Script.place, Script.place, h.size_eq]
  exact hadd.recordSymbol t.size

end Displaced

end Tree

namespace Script

open MissionScript.Tree

/-- The trees differ only in where their statements are written, and the same is open. -/
structure Displaced (s s' : Script) : Prop where
  tree : s.tree.Displaced s'.tree
  blocks_eq : s'.blocks = s.blocks
  waiting_eq : s'.waiting = s.waiting

namespace Displaced

variable {s s' : Script}

/-- The last statement of both scripts may or may not be continued. -/
theorem continuesBranch_eq (h : s.Displaced s') : s'.continuesBranch = s.continuesBranch := by
  simp only [continuesBranch, h.blocks_eq, h.tree.flow_eq]

/-- Statements are added at the same level, -/
theorem base_eq (h : s.Displaced s') (f : Flow) : s'.base f = s.base f := by
  simp only [base, h.blocks_eq, h.continuesBranch_eq]

/-- and open the same blocks. -/
theorem opens_eq (h : s.Displaced s') (f : Flow) : s'.opens f = s.opens f := by
  simp only [opens, h.continuesBranch_eq]

/-- So they are added to blocks alike. -/
theorem insertInBlock (h : s.Displaced s') {st st' : Statement} (hst : st'.bare = st.bare) :
    (s.insertInBlock st).Displaced (s'.insertInBlock st') := by
  have hflow : st'.flow = st.flow := (congrArg Statement.flow hst :)
  rw [insertInBlock_eq, insertInBlock_eq, hflow, h.base_eq, h.opens_eq, h.tree.size_eq, h.waiting_eq]
  exact ⟨h.tree.place _ hst, rfl, rfl⟩

/-- Statements that are the same when bare are added alike. -/
theorem insert (h : s.Displaced s') {st st' : Statement} (hst : st'.bare = st.bare) :
    (s.insert st).Displaced (s'.insert st') := by
  have hauxiliary : st'.isAuxiliary = st.isAuxiliary := (congrArg Statement.isAuxiliary hst :)
  have hskippable : isSkippable st' = isSkippable st := (congrArg isSkippable hst :)
  unfold Script.insert
  rw [h.waiting_eq, hauxiliary, hskippable]
  cases s.waiting with
  | none => exact h.insertInBlock hst
  | some skip =>
      have hfree : Displaced { s with waiting := none } { s' with waiting := none } :=
        ⟨h.tree, h.blocks_eq, rfl⟩
      dsimp only
      split
      · exact h.insertInBlock hst
      · split
        · exact ⟨h.tree.place skip hst, h.blocks_eq, rfl⟩
        · exact hfree.insertInBlock hst

end Displaced

/-- Lists that correspond do so with their places. -/
theorem forall₂_zipIdx {α β : Type} {R : α → β → Prop} {xs : List α} {ys : List β}
    (h : List.Forall₂ R xs ys) (start : Nat) :
    List.Forall₂ (fun x y => R x.1 y.1 ∧ y.2 = x.2) (xs.zipIdx start) (ys.zipIdx start) := by
  induction h generalizing start with
  | nil => exact .nil
  | cons hxy _ ih =>
      rw [List.zipIdx_cons, List.zipIdx_cons]
      exact .cons ⟨hxy, rfl⟩ (ih (start + 1))

/-- Lines with the same bare statements make corresponding scripts. -/
theorem displaced_readLines {lang : Language} {lines lines' : List String}
    (h : List.Forall₂ (fun text text' => ∀ line,
      (lang.readLine line text').1.bare = (lang.readLine line text).1.bare) lines lines') :
    (readLines lang lines).Displaced (readLines lang lines') := by
  refine List.rel_foldl ?_ ⟨.of_nodes rfl (fun _ => ⟨rfl, rfl, rfl⟩) rfl, rfl, rfl⟩
    (forall₂_zipIdx h 1)
  rintro s s' hs ⟨text, _⟩ ⟨text', line⟩ ⟨htext, rfl⟩
  have hinsert := hs.insert (htext line)
  exact ⟨hinsert.tree, hinsert.blocks_eq, hinsert.waiting_eq⟩

end Script

end MissionScript
