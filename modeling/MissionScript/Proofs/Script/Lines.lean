import MissionScript.Proofs.Script.Nesting
import MissionScript.Proofs.Statement.Problems

/-!
# MissionScript.Proofs.Script.Lines

Every line of a script becomes one node, whether or not it can be read.

`Grounded s` says that what is open in a script is there. It holds of every script that is read, so the
tree is sound, has one node for each line and numbers it like the line (`grounded_readLines`,
`size_readLines`, `statement_readLines`).
-/

namespace MissionScript

namespace Script

open MissionScript.Tree

/-! ### Every line is a node -/

/-- What is open in a script is there. -/
structure Grounded (s : Script) : Prop where
  sound : s.tree.Sound
  blocks : ∀ b ∈ s.blocks, b < s.tree.size
  waiting : ∀ w, s.waiting = some w → w < s.tree.size

theorem grounded_empty : ({} : Script).Grounded where
  sound := sound_empty
  blocks b hb := by cases hb
  waiting w hw := by cases hw

/-- A line is placed below a node that is there. -/
theorem Grounded.exists_place {s : Script} (h : s.Grounded) (lang : Language)
    (l : String × Nat) :
    (readLine lang s l).Grounded ∧
      ∃ p < s.tree.size, (readLine lang s l).tree = place s.tree p (lang.readLine l.2 l.1).1 := by
  obtain ⟨p, htree, hp, hblocks, hwaiting⟩ := insert_spec s (lang.readLine l.2 l.1).1
  have hlt : p < s.tree.size := by
    rcases hp with rfl | hmem | hw
    · exact h.sound.size_pos
    · exact h.blocks p hmem
    · exact h.waiting p hw
  have hsize : (readLine lang s l).tree.size = s.tree.size + 1 := by
    rw [show (readLine lang s l).tree = _ from htree, size_place]
  refine ⟨⟨?_, ?_, ?_⟩, p, hlt, htree⟩
  · rw [show (readLine lang s l).tree = _ from htree]
    exact sound_place h.sound hlt
  · intro b hb
    rw [hsize]
    rcases hblocks b hb with hold | ⟨rfl, -⟩
    · have := h.blocks b hold
      omega
    · omega
  · intro w hw
    rw [hsize]
    have hw' : (s.insert (lang.readLine l.2 l.1).1).waiting = some w := hw
    rcases hwaiting with heq | heq | ⟨heq, -⟩
    · have := h.waiting w (heq ▸ hw')
      omega
    · rw [heq] at hw'
      cases hw'
    · rw [heq] at hw'
      cases hw'
      omega

/-- The lines that are read become the nodes after those that are there. -/
theorem Grounded.foldl {s : Script} (h : s.Grounded) (lang : Language)
    (numbered : List (String × Nat)) :
    (numbered.foldl (readLine lang) s).Grounded ∧
      s.tree.Grows (numbered.foldl (readLine lang) s).tree ∧
      (numbered.foldl (readLine lang) s).tree.size = s.tree.size + numbered.length ∧
      ∀ k l, numbered[k]? = some l →
        (numbered.foldl (readLine lang) s).tree.statement (s.tree.size + k)
          = (lang.readLine l.2 l.1).1 := by
  induction numbered generalizing s with
  | nil => exact ⟨h, Grows.refl _, rfl, fun k l hl => by simp at hl⟩
  | cons l rest ih =>
      obtain ⟨hgrounded, p, -, htree⟩ := h.exists_place lang l
      obtain ⟨hfinal, hgrows, hsize, hstatement⟩ := ih hgrounded
      rw [List.foldl_cons]
      rw [htree] at hgrows hsize hstatement
      rw [size_place] at hsize hstatement
      refine ⟨hfinal, grows_place.trans hgrows, ?_, ?_⟩
      · rw [hsize, List.length_cons]
        omega
      · intro k m hm
        cases k with
        | zero =>
            cases hm
            rw [Nat.add_zero, hgrows.statement_eq _ (by rw [size_place]; omega), Tree.statement,
              node_place_size]
        | succ k =>
            rw [List.getElem?_cons_succ] at hm
            rw [← hstatement k m hm]
            congr 1
            omega

/-- What is open at the end of a script is there. -/
theorem grounded_readLines (lang : Language) (lines : List String) :
    (readLines lang lines).Grounded :=
  (grounded_empty.foldl lang (lines.zipIdx 1)).1

/-- There is one node for each line, beside the root. -/
theorem size_readLines (lang : Language) (lines : List String) :
    (readLines lang lines).tree.size = lines.length + 1 := by
  have hsize := (grounded_empty.foldl lang (lines.zipIdx 1)).2.2.1
  rw [List.length_zipIdx] at hsize
  refine hsize.trans ?_
  rw [show (({} : Script).tree).size = 1 from rfl, Nat.add_comm]

/-- A node is numbered like its line. -/
theorem statement_readLines (lang : Language) {lines : List String} {k : Nat} {text : String}
    (h : lines[k]? = some text) :
    (readLines lang lines).tree.statement (k + 1) = (lang.readLine (k + 1) text).1 := by
  have hstatement := (grounded_empty.foldl lang (lines.zipIdx 1)).2.2.2 k (text, k + 1) (by
    rw [List.getElem?_zipIdx, h, Option.map_some, Nat.add_comm])
  rw [show (({} : Script).tree).size = 1 from rfl, Nat.add_comm 1 k] at hstatement
  exact hstatement

theorem statement_of_mem_zipIdx (lang : Language) {lines : List String} {l : String × Nat}
    (h : l ∈ lines.zipIdx 1) :
    (readLines lang lines).tree.statement l.2 = (lang.readLine l.2 l.1).1 := by
  obtain ⟨text, number⟩ := l
  obtain ⟨hle, hget⟩ := List.mk_mem_zipIdx_iff_le_and_getElem?_sub.mp h
  have hstatement := statement_readLines lang hget
  rwa [Nat.sub_add_cancel hle] at hstatement

/-- Every line stands somewhere below the root, once. -/
theorem preorder_perm (lang : Language) (lines : List String) :
    (readLines lang lines).tree.preorder.Perm (List.range' 1 lines.length) := by
  have hsound := (grounded_readLines lang lines).sound
  rw [List.perm_ext_iff_of_nodup (Tree.nodup_preorder _) List.nodup_range']
  intro id
  rw [Tree.mem_preorder_iff hsound, size_readLines, List.mem_range'_1]
  omega

/-- Every node but the root stands for a line. -/
theorem exists_line (lang : Language) {lines : List String} {id : Nat} (hpos : 0 < id)
    (hlt : id < (readLines lang lines).tree.size) :
    ∃ text, lines[id - 1]? = some text ∧
      (readLines lang lines).tree.statement id = (lang.readLine id text).1 := by
  rw [size_readLines] at hlt
  have hget := List.getElem?_eq_getElem (l := lines) (i := id - 1) (by omega)
  have hstatement := statement_readLines lang hget
  rw [Nat.sub_add_cancel hpos] at hstatement
  exact ⟨_, hget, hstatement⟩

/-- No other node has a statement. -/
theorem statement_eq_default (lang : Language) {lines : List String} {id : Nat}
    (h : ¬ (0 < id ∧ id < (readLines lang lines).tree.size)) :
    (readLines lang lines).tree.statement id = {} := by
  rcases Nat.eq_zero_or_pos id with rfl | hpos
  · exact (grounded_empty.foldl lang (lines.zipIdx 1)).2.1.statement_eq 0 Nat.one_pos
  · rw [Tree.statement, node_of_size_le (Nat.le_of_not_lt fun hlt => h ⟨hpos, hlt⟩)]

/-- A node of a script knows its line. -/
theorem line_statement {lang : Language} (hcat : lang.catalog.Reachable) {lines : List String}
    {id : Nat} (hpos : 0 < id) (hlt : id < (readLines lang lines).tree.size) :
    ((readLines lang lines).tree.statement id).line = id := by
  obtain ⟨text, -, hstatement⟩ := exists_line lang hpos hlt
  rw [hstatement, Language.line_readLine hcat]

/-! ### Nothing jumps yet -/

/-- Reading gives no node a target. -/
theorem target_foldl {lang : Language} (numbered : List (String × Nat)) {s : Script}
    (h : ∀ id, (s.tree.node id).target = none) (id : Nat) :
    ((numbered.foldl (readLine lang) s).tree.node id).target = none := by
  induction numbered generalizing s with
  | nil => exact h id
  | cons l rest ih =>
      rw [List.foldl_cons]
      refine ih fun n => ?_
      obtain ⟨p, htree, -⟩ := insert_spec s (lang.readLine l.2 l.1).1
      have htree' : (readLine lang s l).tree = place s.tree p (lang.readLine l.2 l.1).1 := htree
      rw [htree', place, node_recordSymbol, Tree.add, Tree.node_addNode]
      split
      · rfl
      · exact h n

theorem target_readLines (lang : Language) (lines : List String) (id : Nat) :
    ((readLines lang lines).tree.node id).target = none := by
  refine target_foldl (lines.zipIdx 1) (fun n => ?_) id
  by_cases hn : n < Tree.empty.size
  · rw [Tree.size_empty] at hn
    rw [show n = 0 by omega]
    rfl
  · show (Tree.empty.node n).target = none
    rw [Tree.node_of_size_le (Nat.le_of_not_lt hn)]

end Script

end MissionScript
