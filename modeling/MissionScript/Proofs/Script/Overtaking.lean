import MissionScript.Proofs.Script.Sequence

/-!
# MissionScript.Proofs.Script.Overtaking

The order of all lines in the tree, comments and blank lines included.

A line that goes into a block comes last. The command of a `skip if` comes right after the `skip if`,
and so before the comments that have passed by while it waited: it overtakes them (`Overtakes`). Nothing
else changes the order of the lines (`Aligned`).

The order of executed lines is known from `MissionScript.Proofs.Script.Sequence`. For comments it is
not that simple, and where a comment ends up decides on the command that it is kept with in the
compiled script (`MissionScript.Proofs.Compile.Placement`).
-/

namespace MissionScript

namespace Tree

/-- The node `x` is the command of a `skip if`, and `y` stands between the two in the source. -/
def Overtakes (t : Tree) (x y : Nat) : Prop :=
  ∃ w, 0 < w ∧ (t.node x).parent = some w ∧ t.flow w = .skip ∧ w < y ∧ y < x

/-- Of two nodes the one with the smaller number comes first, unless the other overtakes it. -/
structure Aligned (t : Tree) : Prop where
  ahead : ∀ x y, 0 < x → x < y → y < t.size → ¬ t.Overtakes y x → t.Precedes x y
  overtaken : ∀ x y, t.Overtakes x y → t.Precedes x y

/-- Of two nodes one comes before the other, -/
theorem precedes_or_precedes {t : Tree} {x y : Nat} (hx : x ∈ t.preorder) (hy : y ∈ t.preorder)
    (hne : x ≠ y) : t.Precedes x y ∨ t.Precedes y x := by
  obtain ⟨before, after, heq⟩ := List.append_of_mem hx
  rw [heq] at hy
  rcases List.mem_append.mp hy with hbefore | hafter
  · obtain ⟨first, second, rfl⟩ := List.append_of_mem hbefore
    right
    refine ⟨second ++ x :: after, ⟨first, ?_⟩, by simp⟩
    rw [heq, List.append_assoc, List.cons_append]
  · left
    refine ⟨after, ⟨before, heq.symm⟩, ?_⟩
    exact (List.mem_cons.mp hafter).resolve_left (Ne.symm hne)

/-- but not both. -/
theorem Precedes.asymm {t : Tree} {x y : Nat} (h : t.Precedes x y) :
    ¬ t.Precedes y x := fun h' => (h.trans h').ne rfl

/-- In an aligned tree the numbers and the `skip if`s tell the order. -/
theorem Aligned.precedes_iff {t : Tree} (h : t.Aligned) {x y : Nat} (hypos : 0 < y)
    (hyx : y < x) (hx : x < t.size) : t.Precedes x y ↔ t.Overtakes x y := by
  constructor
  · intro hxy
    by_contra hnot
    exact hxy.asymm (h.ahead y x hypos hyx hx hnot)
  · exact h.overtaken x y

/-- What stands in a block overtakes nothing. -/
theorem OpenPath.not_overtakes {t : Tree} {blocks : List Nat} (h : t.OpenPath blocks) {x : Nat}
    (hparent : (t.node x).parent = some (ownerOf blocks)) (y : Nat) : ¬ t.Overtakes x y := by
  rintro ⟨w, hpos, hw, hskip, -, -⟩
  obtain rfl : ownerOf blocks = w := Option.some.inj (hparent.symm.trans hw)
  exact h.flow_owner hpos hskip

end Tree

namespace Script

open MissionScript.Tree

/-! ### One statement

A new node is the last one of its parent. Whether it is the last one of all depends on whether its
parent is on the path of open blocks; a `skip if` that waits is not. -/

theorem overtakes_place_iff {t : Tree} (hs : t.Sound) {p : Nat} {st : Statement} {x y : Nat}
    (hx : x < t.size) : (place t p st).Overtakes x y ↔ t.Overtakes x y := by
  unfold Overtakes
  rw [node_place_of_lt hx]
  constructor
  · rintro ⟨w, hpos, hw, hskip, hbetween⟩
    rw [grows_place.flow_eq (by have := hs.parent_lt hw; omega)] at hskip
    exact ⟨w, hpos, hw, hskip, hbetween⟩
  · rintro ⟨w, hpos, hw, hskip, hbetween⟩
    refine ⟨w, hpos, hw, ?_, hbetween⟩
    rw [grows_place.flow_eq (by have := hs.parent_lt hw; omega)]
    exact hskip

/-- A tree stays aligned when the new node has its place. -/
theorem aligned_place {t : Tree} (hs : t.Sound) {p : Nat} (hp : p < t.size) {st : Statement}
    (h : t.Aligned)
    (hahead : ∀ y, 0 < y → y < t.size → ¬ (place t p st).Overtakes t.size y →
      (place t p st).Precedes y t.size)
    (hovertaken : ∀ y, (place t p st).Overtakes t.size y → (place t p st).Precedes t.size y) :
    (place t p st).Aligned := by
  have hs' : (place t p st).Sound := sound_place hs hp
  constructor
  · intro x y hpos hxy hy hnot
    rw [size_place] at hy
    rcases Nat.lt_succ_iff_lt_or_eq.mp hy with hold | rfl
    · rw [overtakes_place_iff hs hold] at hnot
      exact (grows_place.precedes_iff hs hs' (by omega) hold).mpr (h.ahead x y hpos hxy hold hnot)
    · exact hahead x hpos hxy hnot
  · intro x y hover
    obtain ⟨w, hpos, hw, -, hwy, hyx⟩ := id hover
    have hlt := (hs'.parent_lt hw).2
    rw [size_place] at hlt
    rcases Nat.lt_succ_iff_lt_or_eq.mp hlt with hold | rfl
    · rw [overtakes_place_iff hs hold] at hover
      exact (grows_place.precedes_iff hs hs' hold (by omega)).mpr (h.overtaken x y hover)
    · exact hovertaken y hover

/-- A node after which nothing comes is last. -/
theorem precedes_last {t : Tree} (hs : t.Sound) {n : Nat} (hn : n < t.size)
    (hchildren : t.children n = []) (hafter : t.after n = []) {y : Nat} (hpos : 0 < y)
    (hy : y < t.size) (hne : y ≠ n) (hnpos : 0 < n) : t.Precedes y n := by
  have hlast : ¬ t.Precedes n y := by
    rw [precedes_iff hs hnpos hn, hchildren, hafter]
    simp
  exact (precedes_or_precedes ((mem_preorder_iff hs).mpr ⟨hpos, hy⟩)
    ((mem_preorder_iff hs).mpr ⟨hnpos, hn⟩) hne).resolve_right hlast

/-! ### One line

While a `skip if` waits, only comments and blank lines can come, and they are placed beside it. They
are the nodes that the command overtakes when it comes, and with this no node waits any more. -/

/-- The nodes are aligned, and those after a `skip if` that waits stand beside it. -/
structure Placed (s : Script) : Prop where
  aligned : s.tree.Aligned
  beside : ∀ w, s.waiting = some w → ∀ z, w < z → z < s.tree.size →
    (s.tree.node z).parent = some (ownerOf s.blocks)

/-- A line that goes into a block comes last and overtakes nothing. -/
theorem aligned_insertInBlock {s : Script} (hs : s.tree.Sound) (hpath : s.tree.OpenPath s.blocks)
    (h : s.tree.Aligned) (st : Statement) : (s.insertInBlock st).tree.Aligned := by
  have hbase := openPath_base hpath st.flow
  have howner := hbase.owner_lt hs
  rw [insertInBlock_eq]
  have hs' : (place s.tree (ownerOf (s.base st.flow)) st).Sound := sound_place hs howner
  have hpath' : (place s.tree (ownerOf (s.base st.flow)) st).OpenPath (s.base st.flow) :=
    openPath_place hbase howner fun b hb => hbase.parent_ne_owner hs hb
  have hsize := hs.size_pos
  refine aligned_place hs howner h ?_ ?_
  · intro y hpos hy _
    refine precedes_last hs' (by rw [size_place]; omega) (children_place_size howner st) ?_ hpos
      (by rw [size_place]; omega) (Nat.ne_of_lt hy) hsize
    rw [after_place_size hs howner, hpath'.after_eq_nil hs']
  · intro y hover
    exact absurd hover (hpath'.not_overtakes (by rw [node_place_size]) y)

/-- The command of a `skip if` comes right after it and overtakes what stands beside it. -/
theorem Placed.placeSkipped {s : Script} (hf : s.Fits) (h : s.Placed) (st : Statement) {w : Nat}
    (hw : s.waiting = some w) : (place s.tree w st).Aligned := by
  obtain ⟨hparent, hflow, hnone⟩ := hf.waits w hw
  obtain ⟨hlt, hsize⟩ := hf.sound.parent_lt hparent
  have hpos : 0 < w := by omega
  have hs' : (place s.tree w st).Sound := sound_place hf.sound hsize
  have hnew : (place s.tree w st).children w = [s.tree.size] := by
    rw [children_place hsize, if_pos rfl, hnone, List.nil_append]
  have hafter : (place s.tree w st).after s.tree.size = (place s.tree w st).after w :=
    after_place_size hf.sound hsize st
  have hleaf := children_place_size hsize st
  have hwlt : w < (place s.tree w st).size := by rw [size_place]; omega
  have hnlt : s.tree.size < (place s.tree w st).size := by rw [size_place]; omega
  refine aligned_place hf.sound hsize h.aligned ?_ ?_
  · intro y hypos hy hnot
    have hle : y ≤ w := by
      by_contra hgt
      refine hnot ⟨w, hpos, by rw [node_place_size], ?_, by omega, hy⟩
      rw [grows_place.flow_eq hsize]
      exact hflow
    have hown : (place s.tree w st).Precedes w s.tree.size := by
      rw [precedes_iff hs' hpos hwlt, hnew]
      simp [self_mem_subtree]
    rcases Nat.lt_or_eq_of_le hle with hyw | rfl
    · have hbefore := h.aligned.ahead y w hypos hyw hsize (hf.path.not_overtakes hparent y)
      exact ((grows_place.precedes_iff hf.sound hs' (by omega) hsize).mpr hbefore).trans hown
    · exact hown
  · rintro y ⟨v, -, hv, -, hvy, hy⟩
    rw [node_place_size] at hv
    cases hv
    -- what stands beside the `skip if` comes after it, and is not the new command
    have hbefore : s.tree.Precedes w y :=
      h.aligned.ahead w y hpos hvy hy (hf.path.not_overtakes (h.beside w hw y hvy hy) w)
    have hbefore' : (place s.tree w st).Precedes w y :=
      (grows_place.precedes_iff hf.sound hs' hsize hy).mpr hbefore
    rw [precedes_iff hs' hpos hwlt, hnew] at hbefore'
    rw [precedes_iff hs' (by omega) hnlt, hleaf, hafter]
    have hne : y ≠ s.tree.size := Nat.ne_of_lt hy
    simpa [subtree_of_children_eq_nil hleaf, hne] using hbefore'

/-- A line that goes into a block keeps its place, also beside a `skip if` that waits. -/
theorem Placed.insertInBlock {s : Script} (h : s.Placed) (hs : s.tree.Sound)
    (hpath : s.tree.OpenPath s.blocks) {st : Statement} (hplain : s.waiting ≠ none → st.flow = .plain) :
    (s.insertInBlock st).Placed := by
  refine ⟨aligned_insertInBlock hs hpath h.aligned st, ?_⟩
  intro w hw z hwz hz
  rw [insertInBlock_eq] at hw hz ⊢
  dsimp only at hw hz ⊢
  rw [size_place] at hz
  split at hw
  · -- a `skip if` comes last
    cases hw
    omega
  · have hflow := hplain (by rw [hw]; simp)
    rw [hflow]
    change ((place s.tree (ownerOf s.blocks) st).node z).parent = some (ownerOf s.blocks)
    rcases Nat.lt_succ_iff_lt_or_eq.mp hz with hold | rfl
    · rw [node_place_of_lt hold]
      exact h.beside w hw z hwz hold
    · rw [node_place_size]

/-- Every line takes its place, as long as the lines before it fit. -/
theorem Placed.insert {s : Script} (hf : s.Fits) (h : s.Placed) {st : Statement} (hst : st.Proper) :
    (s.insert st).Placed := by
  cases hw : s.waiting with
  | none =>
      have hinsert : s.insert st = s.insertInBlock st := by rw [Script.insert, hw]
      rw [hinsert]
      exact h.insertInBlock hf.sound hf.path fun hne => absurd hw hne
  | some w =>
      cases haux : st.isAuxiliary with
      | true =>
          have hinsert : s.insert st = s.insertInBlock st := by simp [Script.insert, hw, haux]
          rw [hinsert]
          exact h.insertInBlock hf.sound hf.path fun _ => hst.flow_of_auxiliary haux
      | false =>
          cases hsimple : isSkippable st with
          | true =>
              have hinsert : s.insert st = { s with waiting := none, tree := place s.tree w st } := by
                simp [Script.insert, hw, haux, hsimple]
              rw [hinsert]
              exact ⟨h.placeSkipped hf st hw, fun _ hnone => by cases hnone⟩
          | false =>
              have hinsert : s.insert st
                  = ({ s with waiting := none } : Script).insertInBlock st := by
                simp [Script.insert, hw, haux, hsimple]
              rw [hinsert]
              have hfree : ({ s with waiting := none } : Script).Placed :=
                ⟨h.aligned, fun _ hnone => by cases hnone⟩
              exact hfree.insertInBlock hf.sound hf.path fun hne => absurd rfl hne

theorem placed_empty : ({} : Script).Placed := by
  have hsize : empty.size = 1 := size_empty
  refine ⟨⟨fun x y hpos hxy hy => ?_, ?_⟩, fun w hw => by cases hw⟩
  · have hy : y < empty.size := hy
    omega
  · rintro x y ⟨w, hpos, hw, -⟩
    have := sound_empty.parent_lt hw
    omega

end Script

/-- In a script without problems nothing but the command of a `skip if` leaves its place. -/
theorem Language.Sane.aligned {lang : Language} (hcat : lang.catalog.Reachable)
    {lines : List String} (h : lang.Sane lines) : (Script.readLines lang lines).tree.Aligned := by
  have hplaced : (Script.readLines lang lines).Placed :=
    h.of_insert hcat Script.placed_empty (fun hf h hst => h.insert hf hst)
      fun _ h => ⟨h.aligned, h.beside⟩
  exact hplaced.aligned

end MissionScript
