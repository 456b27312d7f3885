import MissionScript.Proofs.Compile.Totality
import MissionScript.Proofs.Script.Lines
import MissionScript.Proofs.Tree.Precedence

/-!
# MissionScript.Proofs.Script.Sequence

The lines of a script keep their order in the tree, comments and blank lines apart.

A line goes to the end of the innermost block, so nothing comes later. The one exception is the command
of a `skip if`: the comments that have passed by while it waited come later in the tree, though they
come earlier in the script. So the order of the tree is that of the lines for all nodes that are not
auxiliary (`Sequenced`); reading keeps it so as long as the lines fit (`Ordered.insert`).
-/

namespace MissionScript

namespace Tree

/-- The nodes that are not auxiliary stand in the order of their numbers. -/
def Sequenced (t : Tree) : Prop :=
  ∀ x y, t.Precedes x y → (t.statement x).isAuxiliary = false →
    (t.statement y).isAuxiliary = false → x < y

/-- Nothing comes later than the innermost open block. -/
theorem OpenPath.after_eq_nil {t : Tree} (hs : t.Sound) {blocks : List Nat}
    (h : t.OpenPath blocks) : t.after (ownerOf blocks) = [] := by
  induction blocks with
  | nil => exact after_root hs
  | cons b outer ih =>
      obtain ⟨before, hchildren⟩ := List.getLast?_eq_some_iff.mp h.1
      rw [show ownerOf (b :: outer) = b from rfl, after_of_parent hs h.parent_eq,
        later_of_children hchildren, List.flatMap_nil, List.nil_append, ih h.2.2]

end Tree

namespace Script

open MissionScript.Tree

/-! ### One statement

What is placed at the end of the innermost open block comes after everything else. The command of a
`skip if` comes directly after the `skip if`, and what comes later is auxiliary. -/

/-- What comes later than a new node comes later than its parent. -/
theorem after_place_size {t : Tree} (hs : t.Sound) {p : Nat} (hp : p < t.size) (st : Statement) :
    (place t p st).after t.size = (place t p st).after p := by
  have hchildren : (place t p st).children p = t.children p ++ t.size :: [] := by
    rw [children_place hp, if_pos rfl]
  rw [after_of_parent (sound_place hs hp) (parent_of_children_eq hchildren),
    later_of_children hchildren, List.flatMap_nil, List.nil_append]

/-- A new node has no children. -/
theorem children_place_size {t : Tree} {p : Nat} (hp : p < t.size) (st : Statement) :
    (place t p st).children t.size = [] := by
  rw [children_place_of_ne hp (Nat.ne_of_gt hp)]
  exact children_of_size_le (Nat.le_refl _)

/-- A new node keeps the order when only auxiliary ones come later. -/
theorem sequenced_place {t : Tree} (hs : t.Sound) {p : Nat} (hp : p < t.size) {st : Statement}
    (h : t.Sequenced)
    (hafter : ∀ y ∈ (place t p st).after p, ((place t p st).statement y).isAuxiliary = true) :
    (place t p st).Sequenced := by
  intro x y hxy hx hy
  have hs' : (place t p st).Sound := sound_place hs hp
  obtain ⟨hxmem, hymem⟩ := hxy.mem_preorder
  have hxlt := (mem_preorder_iff hs').mp hxmem
  have hylt := (mem_preorder_iff hs').mp hymem
  rw [size_place] at hxlt hylt
  have hne := hxy.ne
  by_cases hxnew : x = t.size
  · -- nothing but auxiliary nodes comes later than the new one
    subst hxnew
    rw [precedes_iff hs' hxlt.1 (by rw [size_place]; omega), children_place_size hp,
      List.flatMap_nil, List.nil_append, after_place_size hs hp] at hxy
    rw [hafter y hxy] at hy
    cases hy
  · by_cases hynew : y = t.size
    · omega
    · rw [grows_place.statement_eq x (by omega)] at hx
      rw [grows_place.statement_eq y (by omega)] at hy
      exact h x y ((grows_place.precedes_iff hs hs' (by omega) (by omega)).mp hxy) hx hy

/-! ### One line

While a `skip if` waits, only auxiliary nodes have been put behind it. This is what has to be known
when its command comes. -/

/-- The nodes are in order, and only auxiliary ones stand beside the `skip if` that waits. -/
structure Ordered (s : Script) : Prop where
  sequenced : s.tree.Sequenced
  waiting : ∀ w, s.waiting = some w → ∀ x ∈ s.tree.later w, (s.tree.statement x).isAuxiliary = true

/-- A line that goes into a block comes last. -/
theorem sequenced_insertInBlock {s : Script} (hs : s.tree.Sound) (hpath : s.tree.OpenPath s.blocks)
    (h : s.tree.Sequenced) (st : Statement) : (s.insertInBlock st).tree.Sequenced := by
  have hbase := openPath_base hpath st.flow
  have howner := hbase.owner_lt hs
  rw [insertInBlock_eq]
  refine sequenced_place hs howner h ?_
  intro y hy
  have hpath' : (place s.tree (ownerOf (s.base st.flow)) st).OpenPath (s.base st.flow) :=
    openPath_place hbase howner fun b hb => hbase.parent_ne_owner hs hb
  rw [hpath'.after_eq_nil (sound_place hs howner)] at hy
  cases hy

/-- While nothing waits, a line goes to the end of its block; if it is a `skip if`, nothing stands
after it yet. -/
theorem ordered_of_not_waiting {s : Script} (hs : s.tree.Sound) (hpath : s.tree.OpenPath s.blocks)
    (h : s.tree.Sequenced) (hw : s.waiting = none) (st : Statement) :
    (s.insertInBlock st).Ordered := by
  refine ⟨sequenced_insertInBlock hs hpath h st, ?_⟩
  intro w hwait x hx
  have howner := (openPath_base hpath st.flow).owner_lt hs
  rw [insertInBlock_eq] at hwait hx
  dsimp only at hwait hx
  rw [hw] at hwait
  split at hwait
  · cases hwait
    rw [later_of_children (by rw [children_place howner, if_pos rfl])] at hx
    cases hx
  · cases hwait

/-- A comment that passes by a `skip if` stands after it. -/
theorem later_of_waiting {s : Script} (h : s.Fits) {w : Nat} (hw : s.waiting = some w)
    (st : Statement) :
    (place s.tree (ownerOf s.blocks) st).later w = s.tree.later w ++ [s.tree.size] := by
  obtain ⟨before, hchildren⟩ :=
    exists_children_eq (h.sound.mem_children_iff.mpr (h.waits w hw).1)
  have hplaced : (place s.tree (ownerOf s.blocks) st).children (ownerOf s.blocks)
      = before ++ w :: (s.tree.later w ++ [s.tree.size]) := by
    rw [children_place (h.path.owner_lt h.sound), if_pos rfl, hchildren, List.append_assoc,
      List.cons_append]
  exact later_of_children hplaced

/-- A comment passes by the `skip if` that waits. -/
theorem Ordered.passBy {s : Script} (hf : s.Fits) (h : s.Ordered) {st : Statement}
    (hst : st.Proper) (haux : st.isAuxiliary = true) : (s.insertInBlock st).Ordered := by
  refine ⟨sequenced_insertInBlock hf.sound hf.path h.sequenced st, ?_⟩
  have hflow := hst.flow_of_auxiliary haux
  rw [insertInBlock_eq, hflow]
  intro w hw x hx
  have hold : s.waiting = some w := hw
  have hx' : x ∈ (place s.tree (ownerOf s.blocks) st).later w := hx
  rw [later_of_waiting hf hold] at hx'
  show ((place s.tree (ownerOf s.blocks) st).statement x).isAuxiliary = true
  rcases List.mem_append.mp hx' with hbefore | hnew
  · have hsibling := (List.mem_filter.mp hbefore).1
    rw [siblings_of_parent (hf.waits w hold).1] at hsibling
    rw [grows_place.statement_eq x (mem_children.mp hsibling).1]
    exact h.waiting w hold x hbefore
  · rw [List.mem_singleton.mp hnew, Tree.statement, node_place_size]
    exact haux

/-- The command of a `skip if` comes before the comments that have passed by. -/
theorem Ordered.placeSkipped {s : Script} (hf : s.Fits) (h : s.Ordered) (st : Statement) {w : Nat}
    (hw : s.waiting = some w) : (place s.tree w st).Sequenced := by
  obtain ⟨hparent, hflow, -⟩ := hf.waits w hw
  obtain ⟨hlt, hsize⟩ := hf.sound.parent_lt hparent
  obtain ⟨before, hchildren⟩ := exists_children_eq (hf.sound.mem_children_iff.mpr hparent)
  have hne : ownerOf s.blocks ≠ w := Nat.ne_of_lt hlt
  have hs' : (place s.tree w st).Sound := sound_place hf.sound hsize
  have hpath : (place s.tree w st).OpenPath s.blocks := by
    refine openPath_place hf.path hsize fun b hb heq => ?_
    have hmem := hf.sound.mem_children_iff.mpr heq
    rw [(hf.waits w hw).2.2] at hmem
    cases hmem
  have hlater : (place s.tree w st).later w = s.tree.later w :=
    later_of_children (by rw [children_place_of_ne hsize hne, hchildren])
  refine sequenced_place hf.sound hsize h.sequenced ?_
  intro y hy
  rw [after_of_parent hs' (by rw [node_place_of_lt hsize, hparent]), hpath.after_eq_nil hs',
    List.append_nil, hlater] at hy
  obtain ⟨x, hx, hyx⟩ := List.mem_flatMap.mp hy
  have haux := h.waiting w hw x hx
  have hchild := mem_children.mp (show x ∈ s.tree.children (ownerOf s.blocks) by
    rw [hchildren]
    simp [hx])
  -- an auxiliary statement owns nothing
  have hxflow : s.tree.flow x = .plain :=
    (hf.proper x (by omega) hchild.1).flow_of_auxiliary haux
  have hxw : x ≠ w := by
    rintro rfl
    rw [hflow] at hxflow
    cases hxflow
  have hnone : (place s.tree w st).children x = [] := by
    rw [children_place_of_ne hsize hxw]
    refine hf.children_eq_nil ?_ ?_ ?_
    · exact Nat.ne_of_gt (show 0 < x by omega)
    · rw [hxflow]
      rfl
    · rw [hxflow]
      simp
  rw [subtree_of_children_eq_nil hnone, List.mem_singleton] at hyx
  subst hyx
  rw [grows_place.statement_eq y hchild.1]
  exact haux

/-- Every line keeps the order, as long as the lines before it fit. -/
theorem Ordered.insert {s : Script} (hf : s.Fits) (h : s.Ordered) {st : Statement}
    (hst : st.Proper) : (s.insert st).Ordered := by
  cases hw : s.waiting with
  | none =>
      have hinsert : s.insert st = s.insertInBlock st := by rw [Script.insert, hw]
      rw [hinsert]
      exact ordered_of_not_waiting hf.sound hf.path h.sequenced hw st
  | some w =>
      cases haux : st.isAuxiliary with
      | true =>
          have hinsert : s.insert st = s.insertInBlock st := by simp [Script.insert, hw, haux]
          rw [hinsert]
          exact h.passBy hf hst haux
      | false =>
          cases hsimple : isSkippable st with
          | true =>
              have hinsert : s.insert st = { s with waiting := none, tree := place s.tree w st } := by
                simp [Script.insert, hw, haux, hsimple]
              rw [hinsert]
              exact ⟨h.placeSkipped hf st hw, fun _ hnone => by cases hnone⟩
          | false =>
              have hinsert : s.insert st
                  = ({ s with waiting := none } : Script).insertInBlock st := by
                simp [Script.insert, hw, haux, hsimple]
              rw [hinsert]
              exact ordered_of_not_waiting (s := { s with waiting := none }) hf.sound hf.path
                h.sequenced rfl st

/-! ### Whole scripts

A line that does not fit is reported, so in a script without problems all lines fit. -/

theorem ordered_empty : ({} : Script).Ordered := by
  refine ⟨fun x y hxy => ?_, fun w hw => by cases hw⟩
  have := (mem_preorder_iff sound_empty).mp hxy.mem_preorder.1
  have hsize : empty.size = 1 := size_empty
  omega

/-- What lines that fit keep holds up to the first line that does not fit. -/
theorem kept_foldl {P : Script → Prop}
    (hinsert : ∀ {s : Script} {st : Statement}, s.Fits → P s → st.Proper → P (s.insert st))
    (hreport : ∀ {s : Script} (found : List Diagnostic), P s → P { s with diagnostics := found })
    {lang : Language} (hcat : lang.catalog.Reachable) {numbered : List (String × Nat)}
    (hread : ∀ l ∈ numbered, (lang.readLine l.2 l.1).2 = none) {s : Script} (hf : s.Fits) (h : P s) :
    P (numbered.foldl (readLine lang) s) ∨ (numbered.foldl (readLine lang) s).Broken := by
  induction numbered generalizing s with
  | nil => exact Or.inl h
  | cons l rest ih =>
      have hst := (Language.proper_of_readLine hcat (hread l List.mem_cons_self)).1
      have hrest : ∀ m ∈ rest, (lang.readLine m.2 m.1).2 = none :=
        fun m hm => hread m (List.mem_cons_of_mem _ hm)
      rw [List.foldl_cons]
      rcases insert_simulates hf hst with ⟨-, hfits⟩ | ⟨-, hbroken⟩
      · exact ih hrest (s := readLine lang s l) hfits (hreport _ (hinsert hf h hst))
      · have hopened := hf.opened.insert hst
        exact Or.inr (broken_readLines hcat hrest (s := readLine lang s l)
          ⟨hopened.sound, hopened.proper, hopened.blocks, hopened.waiting⟩ hbroken).2

end Script

/-- In a script without problems all lines fit. -/
theorem Language.Sane.of_insert {P : Script → Prop} {lang : Language}
    (hcat : lang.catalog.Reachable) {lines : List String} (h : lang.Sane lines) (hempty : P {})
    (hinsert : ∀ {s : Script} {st : Statement}, s.Fits → P s → st.Proper → P (s.insert st))
    (hreport : ∀ {s : Script} (found : List Diagnostic), P s → P { s with diagnostics := found }) :
    P (Script.readLines lang lines) := by
  rcases Script.kept_foldl hinsert hreport hcat h.read Script.fits_empty hempty with hkept | hbroken
  · exact hkept
  · obtain ⟨id, hpos, hlt, hmis, -⟩ := hbroken
    exact absurd hmis (h.nested.not_misplaced hpos hlt (by simp))

/-- In a script without problems the lines keep their order. -/
theorem Language.Sane.sequenced {lang : Language} (hcat : lang.catalog.Reachable)
    {lines : List String} (h : lang.Sane lines) : (Script.readLines lang lines).tree.Sequenced := by
  have hordered : (Script.readLines lang lines).Ordered :=
    h.of_insert hcat Script.ordered_empty (fun hf h hst => h.insert hf hst)
      fun _ h => ⟨h.sequenced, h.waiting⟩
  exact hordered.sequenced

end MissionScript
