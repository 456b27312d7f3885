import MissionScript.Proofs.Lowering.Bodies

/-!
# MissionScript.Proofs.Lowering.Additions

What the commands that lowering adds hold.

The nodes of a lowered tree are those of the source, the `return` that may have been added, and the
hidden jumps (`Steps.node_cases`). The statements of the added ones are given in full: they hold one
parameter in the first slot of the command that the catalog has for them, and a hidden jump has the
line of what follows its block (`exists_next_of_hiddenJump?`).
-/

namespace MissionScript

namespace Tree

/-! ### The functions that add -/

theorem of_addedCommand {lang : Language} {id : Nat} {d : Definition}
    (h : addedCommand lang id = .ok d) : lang.find? id = some d := by
  unfold addedCommand at h
  split at h
  · next d' hd =>
    cases h
    exact hd
  · cases h

theorem of_firstSlot {d : Definition} {fault : DefinitionFault} {slot : Slot}
    (h : firstSlot d fault = .ok slot) : d.slot? 0 = some slot := by
  unfold firstSlot at h
  split at h
  · next slot' hslot =>
    cases h
    exact hslot
  · cases h

/-- The statement is a `return` that has been added on a line. -/
def IsAddedReturn (lang : Language) (s : Statement) (line : Nat) : Prop :=
  ∃ d slot, lang.find? CommandId.finish = some d ∧ d.slot? 0 = some slot ∧
    s = Statement.added d [Parameter.null slot] line

/-- The statement is a hidden jump on a line. -/
def IsAddedJump (lang : Language) (s : Statement) (line : Nat) : Prop :=
  ∃ d slot, lang.find? CommandId.hiddenJump = some d ∧ d.slot? 0 = some slot ∧
    s = jumpStatement d slot line

theorem of_isAddedReturn {lang : Language} {s : Statement} {line : Nat}
    (h : IsAddedReturn lang s line) : s.line = line ∧ s.id? = some CommandId.finish := by
  obtain ⟨d, slot, hfind, -, rfl⟩ := h
  exact ⟨rfl, congrArg some (Catalog.of_find? hfind).2.1⟩

theorem of_isAddedJump {lang : Language} {s : Statement} {line : Nat}
    (h : IsAddedJump lang s line) : s.line = line ∧ s.id? = some CommandId.hiddenJump := by
  obtain ⟨d, slot, hfind, -, rfl⟩ := h
  exact ⟨rfl, congrArg some (Catalog.of_find? hfind).2.1⟩

/-- A `return` that is added stands after the last line. -/
theorem addReturn_cases {lang : Language} {t t₁ : Tree} (h : t.addReturn lang = .ok t₁) :
    t₁ = t ∨ ∃ s, IsAddedReturn lang s t.lineAfter ∧ t₁ = t.add root s := by
  unfold addReturn at h
  split at h
  · cases h
    exact Or.inl rfl
  · obtain ⟨d, hd, h⟩ := Language.bind_eq_ok.mp h
    obtain ⟨slot, hslot, h⟩ := Language.bind_eq_ok.mp h
    rw [Language.pure_eq_ok] at h
    exact Or.inr ⟨_, ⟨d, slot, of_addedCommand hd, of_firstSlot hslot, rfl⟩, h.symm⟩

/-- A node that is added for the hidden jumps is one of those that the blocks ask for. -/
theorem jump_of_addJumps {lang : Language} {t₁ t₂ : Tree} (h : t₁.addJumps lang = .ok t₂) {id : Nat}
    (hle : t₁.size ≤ id) (hlt : id < t₂.size) :
    ∃ p ∈ t₁.preorder, ∃ jump, t₁.hiddenJump? p = some jump ∧ (t₂.node id).parent = some p ∧
      IsAddedJump lang (t₂.statement id) jump.line := by
  unfold addJumps at h
  dsimp only at h
  split at h
  · cases h
    exact absurd hlt (Nat.not_lt.mpr hle)
  · obtain ⟨d, hd, h⟩ := Language.bind_eq_ok.mp h
    obtain ⟨slot, hslot, h⟩ := Language.bind_eq_ok.mp h
    rw [Language.pure_eq_ok] at h
    have htree : t₂ = t₁.withJumps d slot (t₁.preorder.filterMap t₁.hiddenJump?) := h.symm
    subst htree
    obtain ⟨jump, hmem, hnode⟩ := node_withJumps_of_le hle hlt
    obtain ⟨p, hp, hjump⟩ := List.mem_filterMap.mp hmem
    refine ⟨p, hp, jump, hjump, ?_, d, slot, of_addedCommand hd, of_firstSlot hslot, ?_⟩
    · rw [hnode, block_of_hiddenJump? hjump]
    · rw [statement, hnode]
      rfl

/-! ### The nodes of a lowered tree -/

namespace Steps

variable {lang : Language} {t t₁ t₂ t₃ : Tree} {r : Nat}

/-- A node is one of the source, the added `return`, or a hidden jump. -/
theorem node_cases (h : Steps lang t t₁ t₂ t₃ r) {id : Nat} (hlt : id < t₃.size) :
    id < t.size ∨ (id = t.size ∧ t₁.size = t.size + 1 ∧
        IsAddedReturn lang (t₃.statement id) t.lineAfter) ∨
      ∃ p ∈ t₁.preorder, ∃ jump, t₁.size ≤ id ∧ t₁.hiddenJump? p = some jump ∧
        (t₂.node id).parent = some p ∧ IsAddedJump lang (t₃.statement id) jump.line := by
  rw [h.shape.size_eq] at hlt
  rw [h.shape.statement_eq]
  by_cases hold : id < t.size
  · exact Or.inl hold
  right
  by_cases hreturned : id < t₁.size
  · left
    rcases addReturn_cases h.addReturn_eq with heq | ⟨s, hs, heq⟩
    · rw [heq] at hreturned
      exact absurd hreturned hold
    · have hsize : t₁.size = t.size + 1 := by rw [heq, size_add]
      have hid : id = t.size := by omega
      refine ⟨hid, hsize, ?_⟩
      rw [h.prepared.statement_eq hreturned, statement, heq, hid, add, node_addNode, if_pos rfl]
      exact hs
  · right
    have hle := Nat.le_of_not_lt hreturned
    obtain ⟨p, hp, jump, hjump, hparent, hadded⟩ := jump_of_addJumps h.addJumps_eq hle hlt
    exact ⟨p, hp, jump, hle, hjump, hparent, hadded⟩

/-- What is added has no label. -/
theorem symbols_eq (h : Steps lang t t₁ t₂ t₃ r) : t₂.symbols = t.symbols := by
  rw [h.prepared.jumped.symbols_eq]
  rcases addReturn_cases h.addReturn_eq with rfl | ⟨s, -, rfl⟩
  · rfl
  · rfl

end Steps

/-! ### The lines of hidden jumps -/

/-- A block that asks for a hidden jump is followed by the next branch or by the end, and the jump
stands on that line. -/
theorem exists_next_of_hiddenJump? {t : Tree} (h : t.Nested [] none) {id : Nat} (hpos : 0 < id)
    (hlt : id < t.size) {jump : HiddenJump} (hjump : t.hiddenJump? id = some jump) :
    ∃ p before y rest, t.children p = before ++ id :: y :: rest ∧
      (t.flow y).continuesBlock = true ∧ jump.line = (t.statement y).line := by
  have hopen : (t.flow id).opensBlock = true := by
    rcases of_hiddenJump? hjump with ⟨hloop, -⟩ | ⟨hflow, -⟩
    · exact Flow.opensBlock_of_isLoop hloop
    · rcases hflow with hf | hf <;> rw [hf] <;> rfl
  obtain ⟨p, before, y, rest, hc⟩ := h.exists_next hpos hlt hopen
  refine ⟨p, before, y, rest, hc, ?_, ?_⟩
  · have hlink := h.mayPrecede_of_children hc
    revert hlink
    cases t.flow y <;> simp [Flow.mayPrecede, Flow.continuesBlock, hopen]
  · have branch : (do
        let next ← t.nextSibling? id
        if t.flow next = .elseIfBlock ∨ t.flow next = .elseBlock then
          return (⟨id, ← t.findEnd? id, (t.statement next).line⟩ : HiddenJump)
        else none) = some jump → jump.line = (t.statement y).line := by
      intro hsome
      obtain ⟨next, hnext, hsome⟩ := Option.bind_eq_some_iff.mp hsome
      rw [nextSibling?_of_children hc, List.head?_cons] at hnext
      cases hnext
      split at hsome
      · obtain ⟨target, -, hsome⟩ := Option.bind_eq_some_iff.mp hsome
        cases hsome
        rfl
      · cases hsome
    have loop : (t.flow id).isLoop = true → t.findEnd? id = some y := by
      intro hloop
      -- only the end follows a loop
      have hend : t.flow y = .blockEnd := by
        refine Flow.eq_blockEnd_of_mayPrecede (h.mayPrecede_of_children hc) hopen ?_ ?_ <;>
          intro hf <;> rw [hf] at hloop <;> cases hloop
      have hlater : (t.siblings id).filter (id < ·) = y :: rest := later_of_children hc
      rw [findEnd?, hlater, endAmong, hend]
    unfold hiddenJump? at hjump
    split at hjump
    · cases hjump
    · split at hjump
      · exact branch hjump
      · exact branch hjump
      all_goals first
        | (next hf =>
            rw [loop (by rw [hf]; rfl)] at hjump
            cases hjump
            rfl)
        | cases hjump

end Tree

end MissionScript
