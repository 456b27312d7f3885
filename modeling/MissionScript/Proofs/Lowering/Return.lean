import MissionScript.Proofs.Script.Blocks
import MissionScript.Proofs.Tree.Order
import MissionScript.Tree.Lowering

/-!
# MissionScript.Proofs.Lowering.Return

The `return` at the end of a script.

* `FinalReturn t r` — the node `r` is a `return` outside of all blocks, and only comments and blank
  lines stand after it.
* `addReturn_spec` — after the first step of lowering there is such a node, and the tree is what it
  was, or has that node added.

Whether a return has to be added is decided by looking for the last statement that is executed, from
the end of the script. It has to be a `return` at the root: one at the end of a block may be jumped
over. The node that is added is the last child of the root, so it is also the last one to be
executed.
-/

namespace MissionScript

namespace Tree

/-- The node is a `return` outside of all blocks with nothing to execute after it. -/
structure FinalReturn (t : Tree) (r : Nat) : Prop where
  parent_eq : (t.node r).parent = some root
  flow_eq : t.flow r = .finish
  executable : (t.statement r).isExecutable = true
  later_auxiliary : ∀ x ∈ t.later r, (t.statement x).isAuxiliary = true

/-- How the first step of lowering changes a tree. -/
structure Returned (t t' : Tree) (r : Nat) : Prop where
  grows : t.Grows t'
  nested : t'.Nested [] none
  final : t'.FinalReturn r
  children_eq : ∀ p, t'.children p = t.children p ++ if p = root ∧ t.size ≤ r then [r] else []
  size_eq : t'.size = if t.size ≤ r then t.size + 1 else t.size
  eq_size : t.size ≤ r → r = t.size
  node_eq : ∀ id, id < t.size → t'.node id = t.node id
  target_eq : t.size ≤ r → (t'.node r).target = none

/-- Being nested is a matter of the nodes and their flow. -/
theorem Nested.of_sameShape {t t' : Tree} (h : t.Nested [] none) (hsame : t.SameShape t') :
    t'.Nested [] none where
  sound := hsame.sound h.sound
  proper id hpos hlt := by
    rw [hsame.statement_eq]
    exact h.proper id hpos (hsame.size_eq ▸ hlt)
  siblings id hpos hlt := by
    rw [flowBefore, hsame.previousSibling?_eq, hsame.flow_eq, funext hsame.flow_eq]
    exact h.siblings id hpos (hsame.size_eq ▸ hlt)
  parents id p hp := by
    rw [hsame.parent_eq] at hp
    rw [hsame.flow_eq]
    exact h.parents id p hp
  exits id hpos hlt hflow := by
    rw [hsame.flow_eq] at hflow
    rw [hsame.enclosingLoop?_eq]
    exact h.exits id hpos (hsame.size_eq ▸ hlt) hflow
  path := trivial
  open_of_last p id hlast hopen := by
    rw [hsame.children_eq] at hlast
    rw [hsame.flow_eq] at hopen
    exact h.open_of_last p id hlast hopen
  skips id hpos hlt hflow hne := by
    rw [hsame.flow_eq] at hflow
    obtain ⟨c, hc, hsimple, haux⟩ := h.skips id hpos (hsame.size_eq ▸ hlt) hflow hne
    exact ⟨c, by rw [hsame.children_eq, hc], by rw [hsame.flow_eq]; exact hsimple,
      by rw [hsame.statement_eq]; exact haux⟩
  waits id hid := by cases hid

/-! ### A script that ends with a return

The search stops at the first node from the end that is executed, and what it has passed are the
comments and blank lines behind the return. There is no `end` among them, since no block is open
where the return stands. -/

/-- If no return has to be added, there is a final one already. -/
theorem finalReturn_of_endsWithReturn {t : Tree} (h : t.Nested [] none)
    (hends : t.endsWithReturn = true) : ∃ r, t.FinalReturn r := by
  unfold endsWithReturn at hends
  obtain ⟨r, hfind, hr⟩ := (Option.any_eq_true _ _).mp hends
  simp only [Bool.and_eq_true, beq_iff_eq] at hr
  obtain ⟨hflow, hparent⟩ := hr
  have hopen : (t.flow r).opensBlock = false := by rw [hflow]; rfl
  have hbounds := h.sound.parent_lt hparent
  have hpos : 0 < r := by omega
  -- what the search has passed by is not executed
  obtain ⟨hexec, passed, before, hreverse, hpassed⟩ := List.find?_eq_some_iff_append.mp hfind
  have hsuffix : r :: passed.reverse <:+ t.preorder := by
    refine ⟨before.reverse, ?_⟩
    have := congrArg List.reverse hreverse
    rw [List.reverse_reverse, List.reverse_append, List.reverse_cons, List.append_assoc] at this
    exact this.symm
  have hchildren : t.children r = [] :=
    h.children_eq_nil (Nat.ne_of_gt hpos) hopen (by rw [hflow]; decide)
  have honward : t.onward r = r :: t.after r := by
    rw [onward_eq_cons, hchildren, List.flatMap_nil, List.nil_append]
  have hafter : t.after r = passed.reverse :=
    eq_of_suffix (nodup_preorder _)
      (honward ▸ onward_isSuffix h.sound hpos hbounds.2) hsuffix
  have hlater : ∀ x ∈ t.later r, (t.statement x).isExecutable = false := by
    intro x hx
    have hmem : x ∈ t.after r := by
      rw [after_of_parent h.sound hparent]
      exact List.mem_append_left _ (List.mem_flatMap.mpr ⟨x, hx, self_mem_subtree t x⟩)
    rw [hafter, List.mem_reverse] at hmem
    simpa using hpassed x hmem
  obtain ⟨siblings, heq⟩ := exists_children_eq (h.sound.mem_children_iff.mpr hparent)
  exact ⟨r, hparent, hflow, hexec, h.auxiliary_of_not_executable heq hopen hlater⟩

/-! ### Adding a return

Adding cannot fail for lack of a command, because the command is part of every catalog. What remains
to check is that the new statement takes part in the flow of control as a return does, and that the
tree is still nested as the check has left it. -/

/-- The commands that lowering adds are there in every version. -/
theorem addedCommand_builtin {lang : Language} (hcat : lang.catalog.Reachable) {id : Nat}
    (hid : id = CommandId.finish ∨ id = CommandId.hiddenJump) (fault : DefinitionFault) :
    ∃ d slot, addedCommand lang id = .ok d ∧ d.id = id ∧ d.kind = .standard ∧
      firstSlot d fault = .ok slot := by
  have hbuiltin : ∃ b ∈ Catalog.builtin.definitions, b.id = id := by
    rcases hid with rfl | rfl <;> exact Catalog.exists_builtin (by decide)
  obtain ⟨d, hd, hdid, hfind⟩ := hcat.find?_builtin hbuiltin lang.version
  have hall : ∀ b ∈ Catalog.builtin.definitions,
      b.id = CommandId.finish ∨ b.id = CommandId.hiddenJump →
        b.kind = .standard ∧ (b.slot? 0).isSome = true := by
    rw [Catalog.definitions_builtin]
    decide
  obtain ⟨hkind, hslot⟩ := hall d hd (hdid ▸ hid)
  obtain ⟨slot, hslot⟩ := Option.isSome_iff_exists.mp hslot
  exact ⟨d, slot, by rw [addedCommand, Language.find?, hfind], hdid, hkind,
    by rw [firstSlot, hslot]⟩

/-- The statement of an added return. -/
theorem proper_added_finish {d : Definition} (hid : d.id = CommandId.finish)
    (hkind : d.kind = .standard) (ps : List Parameter) (line : Nat) :
    (Statement.added d ps line).Proper ∧ (Statement.added d ps line).flow = .finish ∧
      (Statement.added d ps line).isExecutable = true ∧
      (Statement.added d ps line).isLabel = false ∧
      (Statement.added d ps line).isLabelJump = false := by
  have hflow : (Statement.added d ps line).flow = .finish := by
    simp only [Statement.added, Statement.ofLine, Option.map_some, hid]
    decide
  have hcommented : (Statement.added d ps line).commented = false := rfl
  have hcommand : (Statement.added d ps line).command = some d := rfl
  have hid? : (Statement.added d ps line).id? = some CommandId.finish := by
    rw [Statement.id?, hcommand, Option.map_some, hid]
  have hexec : (Statement.added d ps line).isExecutable = true := by
    simp [Statement.isExecutable, Statement.isVirtual, Statement.kind?, hflow, hcommented, hcommand,
      hkind]
  have hlabel : (Statement.added d ps line).isLabel = false := by
    rw [Statement.isLabel, hid?]
    rfl
  have hjump : (Statement.added d ps line).isLabelJump = false := by
    simp [Statement.isLabelJump, hflow]
  refine ⟨?_, hflow, hexec, hlabel, hjump⟩
  exact {
    isSome_command := rfl
    classified := Or.inr (Or.inr hexec)
    flow_of_auxiliary := fun haux => by
      rw [Statement.isAuxiliary_eq_false_of_isExecutable hexec] at haux
      cases haux
    parameters_of_jump := fun h => by rw [hjump] at h; cases h
    not_label_of_jump := fun _ => hlabel
    executable_of_label := fun _ => hexec
    id_of_finish := fun _ => hid?
    id_ne_hiddenJump := by rw [hid?]; decide }

/-- A script that ends with a return stays as it is. -/
theorem FinalReturn.returned {t : Tree} {r : Nat} (hfinal : t.FinalReturn r)
    (h : t.Nested [] none) : t.Returned t r := by
  have hlt := (h.sound.parent_lt hfinal.parent_eq).2
  exact {
    grows := Grows.refl t
    nested := h
    final := hfinal
    children_eq := fun p => by
      rw [if_neg (fun hr => by omega), List.append_nil]
    size_eq := by rw [if_neg (by omega)]
    eq_size := fun hle => by omega
    node_eq := fun _ _ => rfl
    target_eq := fun hle => by omega }

/-- A return that is added at the end of a script is the final one. -/
theorem returned_place {t : Tree} (h : t.Nested [] none) {st : Statement} (hproper : st.Proper)
    (hflow : st.flow = .finish) (hexec : st.isExecutable = true) :
    t.Returned (Script.place t root st) t.size := by
  have hroot : root < t.size := h.sound.size_pos
  have hnested : (Script.place t root st).Nested [] none := by
    have hadd := h.addToBlock hproper (Or.inl rfl)
      (by
        rw [Flow.mayPrecede_of_not_open h.lastFlow_not_open, hflow]
        rfl)
      (by rw [hflow]; simp) (fun hne => absurd rfl hne)
    rw [hflow] at hadd
    exact hadd
  have hchildren : ∀ p, (Script.place t root st).children p
      = t.children p ++ if p = root then [t.size] else [] := Script.children_place hroot
  have hlater : (Script.place t root st).later t.size = [] :=
    later_of_children (by rw [hchildren root, if_pos rfl])
  exact {
    grows := Script.grows_place
    nested := hnested
    final := {
      parent_eq := by rw [Script.node_place_size]
      flow_eq := by rw [Script.flow_place_size, hflow]
      executable := by rw [statement, Script.node_place_size]; exact hexec
      later_auxiliary := fun x hx => by
        rw [hlater] at hx
        cases hx }
    children_eq := fun p => by
      refine (hchildren p).trans ?_
      simp
    size_eq := by rw [Script.size_place, if_pos (Nat.le_refl _)]
    eq_size := fun _ => rfl
    node_eq := fun id hid => Script.node_place_of_lt hid
    target_eq := fun _ => by rw [Script.node_place_size] }

/-- The first step of lowering succeeds, and there is a final return after it. -/
theorem addReturn_spec {lang : Language} (hcat : lang.catalog.Reachable) {t : Tree}
    (h : t.Nested [] none) :
    ∃ t' r, t.addReturn lang = .ok t' ∧ t.Returned t' r ∧ t'.symbols = t.symbols := by
  unfold addReturn
  by_cases hends : t.endsWithReturn = true
  · obtain ⟨r, hfinal⟩ := finalReturn_of_endsWithReturn h hends
    exact ⟨t, r, by rw [if_pos hends], hfinal.returned h, rfl⟩
  · obtain ⟨d, slot, hd, hid, hkind, hslot⟩ :=
      addedCommand_builtin hcat (Or.inl rfl) .noReturnValue
    obtain ⟨hproper, hflow, hexec, hlabel, hjump⟩ :=
      proper_added_finish hid hkind [Parameter.null slot] t.lineAfter
    refine ⟨t.add root (Statement.added d [Parameter.null slot] t.lineAfter), t.size, ?_, ?_, rfl⟩
    · rw [if_neg hends, hd]
      simp only [bind, Except.bind, hslot]
      rfl
    · rw [← @place_eq_add t root _ hlabel hjump]
      exact returned_place h hproper hflow hexec

end Tree

end MissionScript
