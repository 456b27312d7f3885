import MissionScript.Proofs.Script.Lines
import MissionScript.Proofs.Statement.Renumbering

/-!
# MissionScript.Proofs.Script.OpenBlocks

The blocks that a script leaves open, and what is reported for them.

Whatever the lines are, each open block stands directly in the one around it (`Chained`), so the
constructs to which the open blocks belong begin on later and later lines (`pairwise_missingEnd`).

Nothing is assumed of the script: lines may be out of place, and the catalog may lack what it should
have. So of the conditions on a tree that fits (`MissionScript.Proofs.Script.Blocks`) only the one
is used that any line keeps.
-/

namespace MissionScript

/-! ### Lines know their numbers -/

/-- The statement of a line is numbered like the line, whatever the catalog has. -/
theorem Language.line_statement_readLine (lang : Language) (line : Nat) (text : String) :
    (lang.readLine line text).1.line = line :=
  congrArg Statement.line (readLine_withLine line line lang text).1

namespace Script

open MissionScript.Tree

theorem line_statement_readLines (lang : Language) {lines : List String} {id : Nat} (hpos : 0 < id)
    (hlt : id < (readLines lang lines).tree.size) :
    ((readLines lang lines).tree.statement id).line = id := by
  obtain ⟨text, -, hstatement⟩ := exists_line lang hpos hlt
  rw [hstatement, lang.line_statement_readLine]

/-! ### Blocks in blocks

Opening a block adds it to the front of the list, below the one that was innermost, and closing
takes the first one off. Statements are placed behind those that are there, so the parents of open
blocks stay what they were. -/

/-- Each block stands directly in the one around it. -/
def Chained (t : Tree) : List Nat → Prop
  | [] => True
  | b :: outer => (t.node b).parent = some (ownerOf outer) ∧ Chained t outer

theorem Chained.tail {t : Tree} {blocks : List Nat} (h : Chained t blocks) :
    Chained t blocks.tail := by
  cases blocks with
  | nil => exact h
  | cons b outer => exact h.2

theorem Chained.place {t : Tree} {blocks : List Nat} (h : Chained t blocks)
    (hlt : ∀ b ∈ blocks, b < t.size) (p : Nat) (st : Statement) :
    Chained (place t p st) blocks := by
  induction blocks with
  | nil => exact trivial
  | cons b outer ih =>
      obtain ⟨hb, houter⟩ := List.forall_mem_cons.mp hlt
      refine ⟨?_, ih h.2 houter⟩
      rw [node_place_of_lt hb]
      exact h.1

theorem Chained.base {s : Script} (h : Chained s.tree s.blocks) (f : Flow) :
    Chained s.tree (s.base f) := by
  rcases s.base_eq_or f with heq | heq
  · exact heq ▸ h
  · exact heq ▸ h.tail

theorem Chained.insertInBlock {s : Script} (h : Chained s.tree s.blocks)
    (hlt : ∀ b ∈ s.blocks, b < s.tree.size) (st : Statement) :
    Chained (s.insertInBlock st).tree (s.insertInBlock st).blocks := by
  have hbase := (h.base st.flow).place (fun b hb => hlt b (base_subset s st.flow b hb))
    (ownerOf (s.base st.flow)) st
  rw [insertInBlock_eq]
  dsimp only
  split
  · refine ⟨?_, hbase⟩
    rw [node_place_size]
  · exact hbase

theorem Chained.insert {s : Script} (h : Chained s.tree s.blocks)
    (hlt : ∀ b ∈ s.blocks, b < s.tree.size) (st : Statement) :
    Chained (s.insert st).tree (s.insert st).blocks := by
  unfold Script.insert
  split
  · exact h.insertInBlock hlt st
  · split
    · exact h.insertInBlock hlt st
    · dsimp only
      split
      · exact h.place hlt _ st
      · exact Chained.insertInBlock (s := { s with waiting := none }) h hlt st

theorem chained_foldl {lang : Language} (numbered : List (String × Nat)) {s : Script}
    (hgrounded : s.Grounded) (h : Chained s.tree s.blocks) :
    Chained (numbered.foldl (readLine lang) s).tree (numbered.foldl (readLine lang) s).blocks := by
  induction numbered generalizing s with
  | nil => exact h
  | cons l rest ih =>
      exact ih (hgrounded.exists_place lang l).1 (h.insert hgrounded.blocks _)

theorem chained_readLines (lang : Language) (lines : List String) :
    Chained (readLines lang lines).tree (readLines lang lines).blocks :=
  chained_foldl (lines.zipIdx 1) grounded_empty trivial

/-! ### The lines that open constructs

From a branch, the line that opens its construct is found by going back over the branches before it.
All of these are siblings, and so the construct begins inside of the block around it. -/

theorem parent_of_previousSibling? {t : Tree} {id previous : Nat}
    (h : t.previousSibling? id = some previous) :
    (t.node previous).parent = (t.node id).parent := by
  have hmem := (List.mem_filter.mp (List.mem_of_getLast? h)).1
  unfold siblings at hmem
  split at hmem
  · cases hmem
  · next p hp => rw [(mem_children.mp hmem).2.2, hp]

/-- The line that opens a construct stands in the same block as its branches, and before them. -/
theorem opener_spec (t : Tree) (id : Nat) :
    opener t id ≤ id ∧ (t.node (opener t id)).parent = (t.node id).parent := by
  induction id using Nat.strongRecOn with
  | ind id ih =>
      rw [opener]
      split
      · split
        · next previous hprevious =>
          split
          · next hlt =>
            obtain ⟨hle, hparent⟩ := ih previous hlt
            exact ⟨by omega, hparent.trans (parent_of_previousSibling? hprevious)⟩
          · exact ⟨Nat.le_refl id, rfl⟩
        · exact ⟨Nat.le_refl id, rfl⟩
      · exact ⟨Nat.le_refl id, rfl⟩

/-- The construct of an open block begins after the block around it. -/
theorem opener_bounds {t : Tree} (hs : t.Sound) {b : Nat} {outer : List Nat}
    (h : Chained t (b :: outer)) :
    ownerOf outer < opener t b ∧ opener t b ≤ b ∧ opener t b < t.size := by
  obtain ⟨hle, hparent⟩ := opener_spec t b
  obtain ⟨hlt, hsize⟩ := hs.parent_lt (hparent.trans h.1)
  exact ⟨hlt, hle, hsize⟩

/-- From the innermost block outwards, the constructs begin earlier and earlier. -/
theorem pairwise_opener {t : Tree} (hs : t.Sound) {blocks : List Nat} (h : Chained t blocks) :
    blocks.Pairwise fun a b => opener t b < opener t a := by
  -- a block around another one is at most its owner
  have below : ∀ {blocks : List Nat}, Chained t blocks → ∀ b ∈ blocks, b ≤ ownerOf blocks := by
    intro blocks h
    induction blocks with
    | nil => exact fun b hb => nomatch hb
    | cons c outer ih =>
        refine List.forall_mem_cons.mpr ⟨Nat.le_refl c, fun b hb => ?_⟩
        have hb' := ih h.2 b hb
        have hc := hs.parent_lt h.1
        show b ≤ c
        omega
  induction blocks with
  | nil => exact List.Pairwise.nil
  | cons c outer ih =>
      refine List.pairwise_cons.mpr ⟨fun b hb => ?_, ih h.2⟩
      have hb' := below h.2 b hb
      have hc := opener_bounds hs h
      have hle := (opener_spec t b).1
      omega

/-- The construct of an open block begins on a line. -/
theorem opener_readLines {lang : Language} {lines : List String} {b : Nat}
    (hb : b ∈ (readLines lang lines).blocks) :
    0 < opener (readLines lang lines).tree b ∧
      opener (readLines lang lines).tree b < (readLines lang lines).tree.size := by
  have hs := (grounded_readLines lang lines).sound
  obtain ⟨inner, outer, hblocks⟩ := List.append_of_mem hb
  have hchained := chained_readLines lang lines
  rw [hblocks] at hchained
  have hbelow : Chained (readLines lang lines).tree (b :: outer) := by
    clear hblocks
    induction inner with
    | nil => exact hchained
    | cons _ inner ih => exact ih hchained.2
  obtain ⟨hpos, -, hlt⟩ := opener_bounds hs hbelow
  exact ⟨by omega, hlt⟩

theorem line_missingEnd {lang : Language} {lines : List String} {b : Nat}
    (hb : b ∈ (readLines lang lines).blocks) :
    (missingEnd (readLines lang lines).tree b).line = opener (readLines lang lines).tree b := by
  obtain ⟨hpos, hlt⟩ := opener_readLines hb
  exact line_statement_readLines lang hpos hlt

/-- What is reported for the open blocks, outermost first, is on later and later lines. -/
theorem pairwise_missingEnd (lang : Language) (lines : List String) :
    ((readLines lang lines).blocks.reverse.map (missingEnd (readLines lang lines).tree)).Pairwise
      fun d e => d.line < e.line := by
  rw [List.pairwise_map, List.pairwise_reverse]
  have hopener := pairwise_opener (grounded_readLines lang lines).sound (chained_readLines lang lines)
  refine hopener.imp_of_mem fun {a b} ha hb hlt => ?_
  rw [line_missingEnd ha, line_missingEnd hb]
  exact hlt

end Script

end MissionScript
