import MissionScript.Proofs.Lowering.Additions
import MissionScript.Proofs.Tree.Insertion

/-!
# MissionScript.Proofs.Lowering.Insertion

Lowering two trees of which one has an auxiliary node more.

The first two steps of lowering keep the trees so: both get a `return` or none does
(`Inserted.addReturn`), and both get the same hidden jumps (`Inserted.addJumps`). The second needs that
the blocks are nested: an auxiliary node never stands between a block and what continues it
(`Inserted.of_opensBlock`).

The relation between the two trees is `Inserted` (`MissionScript.Proofs.Tree.Insertion`): the second
has one node more, `n`, and its other nodes are those of the first with the numbers from `n` on
moved up by one. All relatives of nodes are known in this relation but one: the next sibling, as the
new node may be that sibling. Lowering asks for next siblings at blocks only, and nested trees do
not have auxiliary nodes there.
-/

namespace MissionScript

/-- What is picked out and mapped is the same when `n` is not picked. -/
theorem Spaced.filterMap_eq {α : Type} {n : Nat} {l l' : List Nat} (h : Spaced n l l')
    {f f' : Nat → Option α} {g : α → α} (hf : ∀ k ∈ l, f' (renumber n k) = (f k).map g)
    (hn : f' n = none) : l'.filterMap f' = (l.filterMap f).map g := by
  have hdrop : l'.filterMap f' = (l'.filter (· ≠ n)).filterMap f' := by
    rw [List.filterMap_filter]
    refine List.filterMap_congr fun x _ => ?_
    by_cases hx : x = n
    · subst hx
      simp [hn]
    · simp [hx]
  rw [hdrop, h, List.filterMap_map, List.map_filterMap]
  exact List.filterMap_congr hf

namespace Tree

/-- The hidden jump once another node has taken the number `n`. -/
def HiddenJump.renumber (n : Nat) (j : HiddenJump) : HiddenJump :=
  ⟨MissionScript.renumber n j.block, MissionScript.renumber n j.target,
    MissionScript.renumber n j.line⟩

/-- A script ends with a `return` when the last thing that is executed is one. -/
theorem endsWithReturn_eq (t : Tree) :
    t.endsWithReturn = t.executables.getLast?.any fun id =>
      t.flow id == .finish && (t.node id).parent == some root := by
  rw [endsWithReturn, ← List.head?_filter, List.filter_reverse, List.head?_reverse, executables]

namespace Inserted

variable {n : Nat} {t t' : Tree}

/-- The new node is not executed, so the same nodes are. -/
theorem executables_eq (h : Inserted n t t') :
    t'.executables = t.executables.map (renumber n) :=
  h.preorder.filter_eq h.isExecutable_renumber h.isExecutable_self

/-! ### The final return

Both trees end with the same executable node, and so both need a return or neither does. If they do,
it is added at the end, behind the auxiliary node. -/

theorem endsWithReturn_eq (h : Inserted n t t') : t'.endsWithReturn = t.endsWithReturn := by
  have hparent : ∀ id, ((t'.node (renumber n id)).parent == some root)
      = ((t.node id).parent == some root) := by
    intro id
    rw [h.parent_eq, Bool.eq_iff_iff]
    cases (t.node id).parent with
    | none => simp
    | some p => simp [h.renumber_eq_root_iff]
  rw [Tree.endsWithReturn_eq, Tree.endsWithReturn_eq, h.executables_eq, List.getLast?_map,
    Option.any_map]
  simp only [h.flow_renumber, hparent]

/-- Both trees get a `return`, or none does. -/
theorem addReturn (h : Inserted n t t') (hline : t'.lineAfter = renumber n t.lineAfter)
    {lang : Language} {t₁ t₁' : Tree} (h₁ : t.addReturn lang = .ok t₁)
    (h₁' : t'.addReturn lang = .ok t₁') : Inserted n t₁ t₁' := by
  unfold Tree.addReturn at h₁ h₁'
  rw [h.endsWithReturn_eq] at h₁'
  split at h₁
  · next hends =>
    rw [if_pos hends] at h₁'
    cases h₁
    cases h₁'
    exact h
  · next hends =>
    rw [if_neg hends] at h₁'
    obtain ⟨d, hd, h₁⟩ := Language.bind_eq_ok.mp h₁
    obtain ⟨slot, hslot, h₁⟩ := Language.bind_eq_ok.mp h₁
    obtain ⟨d', hd', h₁'⟩ := Language.bind_eq_ok.mp h₁'
    obtain ⟨slot', hslot', h₁'⟩ := Language.bind_eq_ok.mp h₁'
    rw [hd] at hd'
    cases hd'
    rw [hslot] at hslot'
    cases hslot'
    cases h₁
    cases h₁'
    have hadd := h.addNode root { statement := Statement.added d [Parameter.null slot] t.lineAfter }
    rw [h.renumber_root] at hadd
    rw [hline]
    exact hadd

/-! ### Hidden jumps

Hidden jumps are added in the order of their blocks, which is the same for both trees. -/

/-- The same end is found among corresponding siblings. -/
theorem endAmong_renumber (h : Inserted n t t') (l : List Nat) :
    t'.endAmong (l.map (renumber n)) = (t.endAmong l).map (renumber n) := by
  induction l with
  | nil => rfl
  | cons id l ih =>
      rw [List.map_cons, endAmong, endAmong, h.flow_renumber, ih]
      cases t.flow id <;> rfl

/-- An auxiliary node does not stand between a block and what continues it. -/
theorem of_opensBlock (h : Inserted n t t') (hn' : t'.Nested [] none) {id : Nat} (hpos : 0 < id)
    (hlt : id < t.size) (hopen : (t.flow id).opensBlock = true) :
    t'.nextSibling? (renumber n id) = (t.nextSibling? id).map (renumber n) ∧
      t'.findEnd? (renumber n id) = (t.findEnd? id).map (renumber n) := by
  obtain ⟨hpos', hlt'⟩ := h.bounds hpos hlt
  have hopen' : (t'.flow (renumber n id)).opensBlock = true := by rw [h.flow_renumber, hopen]
  obtain ⟨p, before, y, after, hc⟩ := hn'.exists_next hpos' hlt' hopen'
  obtain ⟨branches, e, rest, heq, he, hbranches⟩ := hn'.exists_end hc hopen'
  rw [heq] at hc
  have hlater : t'.later (renumber n id) = branches ++ e :: rest := later_of_children hc
  -- the node is neither a branch nor an end
  have hkept : (branches ++ e :: rest).filter (· ≠ n)
      = branches ++ e :: rest.filter (· ≠ n) := by
    have hplain := h.flow_eq
    rw [List.filter_append, List.filter_cons_of_pos, List.filter_eq_self.mpr]
    · intro b hb
      rw [decide_eq_true_eq]
      rintro rfl
      have hflow := hbranches b hb
      rw [hplain] at hflow
      rcases hflow with hf | hf <;> cases hf
    · rw [decide_eq_true_eq]
      rintro rfl
      rw [hplain] at he
      cases he
  have hspaced : branches ++ e :: rest.filter (· ≠ n) = (t.later id).map (renumber n) := by
    have hspaced := h.later id
    rw [Spaced, hlater, hkept] at hspaced
    exact hspaced
  constructor
  · rw [nextSibling?_eq_head?, nextSibling?_eq_head?, hlater, ← List.head?_map, ← hspaced]
    cases branches <;> rfl
  · have hfind : ∀ (u : Tree) (x : Nat), u.findEnd? x = u.endAmong (u.later x) := fun _ _ => rfl
    rw [hfind, hfind, ← h.endAmong_renumber, ← hspaced, hlater, endAmong_append he hbranches,
      endAmong_append he hbranches]

/-- Both blocks ask for the same hidden jump. -/
theorem hiddenJump?_eq (h : Inserted n t t') (hn' : t'.Nested [] none) {id : Nat} (hpos : 0 < id)
    (hlt : id < t.size) :
    t'.hiddenJump? (renumber n id) = (t.hiddenJump? id).map (HiddenJump.renumber n) := by
  have hline : ∀ x, (t'.statement (renumber n x)).line = renumber n (t.statement x).line := by
    intro x
    rw [h.statement_eq, Statement.line_withLine]
  unfold hiddenJump?
  rw [h.statement_eq, Statement.commented_withLine, h.flow_renumber]
  split
  · rfl
  · cases hflow : t.flow id with
    | ifBlock | elseIfBlock =>
        obtain ⟨hnext, hend⟩ := h.of_opensBlock hn' hpos hlt (by rw [hflow]; rfl)
        dsimp only
        rw [hnext, hend]
        cases t.nextSibling? id with
        | none => rfl
        | some y =>
            simp only [Option.map_some, Option.bind_eq_bind, Option.bind_some, h.flow_renumber, hline]
            split
            · cases t.findEnd? id <;> rfl
            · rfl
    | whileLoop | forLoop | foreachLoop =>
        obtain ⟨-, hend⟩ := h.of_opensBlock hn' hpos hlt (by rw [hflow]; rfl)
        dsimp only
        rw [hend]
        cases t.findEnd? id with
        | none => rfl
        | some e =>
            dsimp only [Option.map_some]
            rw [hline]
            rfl
    | plain | elseBlock | blockEnd | skip | breakLoop | continueLoop | goto | gosub | finish => rfl

/-- Hidden jumps that are added to both trees keep them so. -/
theorem withJumps (h : Inserted n t t') (d : Definition) (slot : Slot) (jumps : List HiddenJump) :
    Inserted n (t.withJumps d slot jumps)
      (t'.withJumps d slot (jumps.map (HiddenJump.renumber n))) := by
  induction jumps generalizing t t' with
  | nil => exact h
  | cons jump jumps ih =>
      rw [List.map_cons, withJumps_cons, withJumps_cons]
      exact ih (h.addNode jump.block (jumpNode d slot jump))

/-- Both trees get the same hidden jumps. -/
theorem addJumps (h : Inserted n t t') (hn : t.Nested [] none) (hn' : t'.Nested [] none)
    {lang : Language} (hcat : lang.catalog.Reachable) {t₂ t₂' : Tree}
    (h₂ : t.addJumps lang = .ok t₂) (h₂' : t'.addJumps lang = .ok t₂') : Inserted n t₂ t₂' := by
  obtain ⟨d, slot, hd, -, -, hslot⟩ := addedCommand_builtin hcat (Or.inr rfl) .noJumpLabel
  rw [addJumps_eq hd hslot, Except.ok.injEq] at h₂ h₂'
  have hself : t'.hiddenJump? n = none := by
    refine hiddenJump?_eq_none ?_ ?_ ?_ <;> rw [h.flow_eq] <;> decide
  have hjumps := h.preorder.filterMap_eq (f := t.hiddenJump?) (g := HiddenJump.renumber n)
    (fun id hid => by
      obtain ⟨hpos, hlt⟩ := (mem_preorder_iff hn.sound).mp hid
      exact h.hiddenJump?_eq hn' hpos hlt) hself
  rw [← h₂, ← h₂', hjumps]
  exact h.withJumps d slot _

end Inserted

end Tree

end MissionScript
