import MissionScript.Proofs.Expression.Indentation
import MissionScript.Proofs.Lowering.Resolution
import MissionScript.Proofs.Tree.Displacement

/-!
# MissionScript.Proofs.Lowering.Displacement

Where statements are written does not show in the compiled script.

Every step keeps two trees displaced (`Displaced.agree_addReturn`, `Displaced.agree_addJumps`,
`Displaced.setTargets`), and nodes with the same bare statement add the same to the compiled script
(`Displaced.emit_eq`). So the trees are lowered to the same script (`Displaced.lower_eq`).

Indenting a script moves the parameters and the symbols on their lines, and what has been read is
otherwise the same. A compiled script has no columns in it, so the indentation is lost on the way,
and this module says where: encoding a statement reads its parameters without their extents. The
steps before that choose nodes by their flow and their place in the tree, and neither has to do with
columns.
-/

namespace MissionScript

namespace Tree

/-! ### Commands

An encoder of statements looks at kinds, values and slots. Each of the lemmas passes this on by one
level: for one list of parameters, for the order in which operands and operators were written, and
for a whole statement. -/

theorem encodeParameters_bare (jump : Option Nat) (vars : List String) (ps : List Parameter) :
    encodeParameters jump vars (ps.map Parameter.bare) = encodeParameters jump vars ps := by
  induction ps generalizing vars with
  | nil => rfl
  | cons p ps ih =>
      have hp : encodeParameter jump vars p.bare = encodeParameter jump vars p := rfl
      rw [List.map_cons, encodeParameters, encodeParameters, hp]
      simp only [ih]

theorem operandPositions_bare (evaluated : List Parameter) :
    operandPositions (evaluated.map Parameter.bare) = operandPositions evaluated := by
  rw [operandPositions, operandPositions, List.zipIdx_map, List.filterMap_map]
  rfl

theorem interlace_bare (positions : List Nat) (ps : List Parameter) :
    interlace positions (ps.map Parameter.bare) = interlace positions ps := by
  induction ps generalizing positions with
  | nil => rfl
  | cons p ps ih =>
      rw [List.map_cons, interlace.eq_def, interlace.eq_def]
      simp only [Parameter.bare, ih]

/-- The parameters and the written order depend on the bare statement alone. -/
theorem encodeStatement_bare (jump : Option Nat) (vars : List String) (s : Statement)
    (kind : CommandKind) :
    encodeStatement jump vars s.bare kind = encodeStatement jump vars s kind := by
  have hparameters : s.bare.parameters = s.parameters.map Parameter.bare := rfl
  have hevaluated : s.bare.evaluated = s.evaluated.map Parameter.bare := rfl
  unfold encodeStatement
  rw [hparameters, hevaluated, ← List.map_take, ← List.map_append, encodeParameters_bare,
    operandPositions_bare, ← List.map_tail, interlace_bare, encodeParameters_bare]

theorem encodeAuxiliary_bare (reference : Nat) (s : Statement) (d : Definition) :
    encodeAuxiliary reference s.bare d = encodeAuxiliary reference s d := by
  have hparameters : (s.bare.parameters.map fun p => (⟨p.dataType, p.value⟩ : CodeParameter))
      = s.parameters.map fun p => ⟨p.dataType, p.value⟩ := by
    rw [Statement.bare, List.map_map]
    rfl
  rw [encodeAuxiliary, hparameters]
  rfl

namespace Displaced

variable {t t' : Tree}

theorem encodeStatement_eq (h : t.Displaced t') (jump : Option Nat) (vars : List String) (id : Nat)
    (kind : CommandKind) :
    encodeStatement jump vars (t'.statement id) kind
      = encodeStatement jump vars (t.statement id) kind := by
  rw [← encodeStatement_bare, h.bare_eq, encodeStatement_bare]

theorem encodeAuxiliary_eq (h : t.Displaced t') (reference id : Nat) (d : Definition) :
    encodeAuxiliary reference (t'.statement id) d = encodeAuxiliary reference (t.statement id) d := by
  rw [← encodeAuxiliary_bare, h.bare_eq, encodeAuxiliary_bare]

/-- The indices of commands are counted along the tree, which is the same for both. -/
theorem layout_eq (h : t.Displaced t') : t'.layout = t.layout :=
  h.toSameStructure.layout_eq h.isExecutable_eq

/-- The trees give the same compiled script. -/
theorem emit_eq (h : t.Displaced t') (l : Layout) : t'.emit l = t.emit l := by
  have hnode : t'.emitNode l = t.emitNode l := by
    funext code placed
    unfold emitNode addEntry
    simp only [h.command_eq, h.isExecutable_eq, h.isAuxiliary_eq, h.target_eq, h.line_eq,
      h.encodeStatement_eq, h.encodeAuxiliary_eq]
  rw [emit, hnode, emit]

/-! ### Steps

Each step of lowering either asks something of the tree, which displaced trees answer alike, or adds
the same node to both. Whether a step fails is also the same for both. -/

/-- Both scripts end with a `return`, or neither does. -/
theorem endsWithReturn_eq (h : t.Displaced t') : t'.endsWithReturn = t.endsWithReturn := by
  simp only [endsWithReturn, h.preorder_eq, h.isExecutable_eq, h.flow_eq, h.parent_eq]

/-- A return that is added is on the line after the last statement. -/
theorem lineAfter_eq (h : t.Displaced t') : t'.lineAfter = t.lineAfter := by
  simp only [lineAfter, h.preorder_eq, h.line_eq]

/-- The first step gives displaced trees, or fails for the same reason. -/
theorem agree_addReturn (h : t.Displaced t') (lang : Language) :
    Agree Eq Displaced (t.addReturn lang) (t'.addReturn lang) := by
  refine .ite (by rw [h.endsWithReturn_eq]) (fun _ => .ok h) fun _ => ?_
  refine .bind_self (fun _ => rfl) _ fun d => .bind_self (fun _ => rfl) _ fun slot => ?_
  exact .ok (h.addNode root (by rw [h.lineAfter_eq]) rfl)

/-- The end of a construct is found by the flow of its branches. -/
theorem endAmong_eq (h : t.Displaced t') (ids : List Nat) : t'.endAmong ids = t.endAmong ids := by
  induction ids with
  | nil => rfl
  | cons id ids ih => rw [endAmong, endAmong, h.flow_eq, ih]

theorem hiddenJump?_eq (h : t.Displaced t') (id : Nat) : t'.hiddenJump? id = t.hiddenJump? id := by
  have hend : ∀ id, t'.findEnd? id = t.findEnd? id := by
    intro id
    rw [findEnd?, findEnd?, h.siblings_eq, h.endAmong_eq]
  simp only [hiddenJump?, h.commented_eq, h.flow_eq, h.nextSibling?_eq, hend, h.line_eq]

/-- The hidden jumps are added to the same nodes. -/
theorem agree_addJumps (h : t.Displaced t') (lang : Language) :
    Agree Eq Displaced (t.addJumps lang) (t'.addJumps lang) := by
  have hjumps : t'.preorder.filterMap t'.hiddenJump? = t.preorder.filterMap t.hiddenJump? := by
    rw [h.preorder_eq, funext h.hiddenJump?_eq]
  have hadded : ∀ (d : Definition) (slot : Slot) (jumps : List HiddenJump) {u u' : Tree},
      u.Displaced u' →
      Displaced
        (jumps.foldl (fun t jump => t.addNode jump.block
          { statement := jumpStatement d slot jump.line, target := some jump.target }) u)
        (jumps.foldl (fun t jump => t.addNode jump.block
          { statement := jumpStatement d slot jump.line, target := some jump.target }) u') := by
    intro d slot jumps
    induction jumps with
    | nil => exact fun hu => hu
    | cons jump jumps ih => exact fun hu => ih (hu.addNode jump.block rfl rfl)
  unfold addJumps
  rw [hjumps]
  refine .ite Iff.rfl (fun _ => .ok h) fun _ => ?_
  refine .bind_self (fun _ => rfl) _ fun d => .bind_self (fun _ => rfl) _ fun slot => ?_
  exact .ok (hadded d slot _ h)

/-- Nodes transfer control to the same nodes. -/
theorem transfer?_eq (h : t.Displaced t') (id : Nat) : t'.transfer? id = t.transfer? id := by
  have hbindings : t'.symbols.bindings = t.symbols.bindings :=
    (congrArg SymbolTable.bindings h.symbols_eq :)
  have hsymbol : t'.symbols.target? id = t.symbols.target? id := by
    rw [SymbolTable.target?, hbindings, SymbolTable.target?]
  have hsuccessor : t'.successor? = t.successor? := funext h.successor?_eq
  simp only [transfer?, h.commented_eq, h.target_eq, h.flow_eq, h.nextSibling?_eq, hsuccessor,
    h.enclosingLoop?_eq, hsymbol]

/-- Targets are set alike, and the same jump is the first one that has none. -/
theorem setTargets (h : t.Displaced t') (ids : List Nat) :
    (t.setTargets ids).1.Displaced (t'.setTargets ids).1 ∧
      (t'.setTargets ids).2 = (t.setTargets ids).2 := by
  induction ids generalizing t t' with
  | nil => exact ⟨h, rfl⟩
  | cons id ids ih =>
      rw [Tree.setTargets, Tree.setTargets, h.transfer?_eq]
      cases t.transfer? id with
      | none => exact ih h
      | some found =>
          cases found with
          | none => exact ⟨h, by simp only [h.line_eq]⟩
          | some target => exact ih (h.setTarget id target)

theorem assemble_eq (h : t.Displaced t') : t'.assemble.2 = t.assemble.2 := by
  have hlines : ∀ l, t'.unresolvedLines l = t.unresolvedLines l := by
    intro l
    simp only [unresolvedLines, executables, h.preorder_eq, h.isExecutable_eq, h.target_eq, h.line_eq]
  rw [assemble_eq_layout, assemble_eq_layout]
  dsimp only
  rw [h.layout_eq, hlines, h.emit_eq]

/-- The trees are lowered to the same script. -/
theorem lower_eq (h : t.Displaced t') (lang : Language) :
    (t'.lower lang).2 = (t.lower lang).2 := by
  have hreturn := h.agree_addReturn lang
  unfold lower
  generalize t.addReturn lang = x at hreturn ⊢
  generalize t'.addReturn lang = x' at hreturn ⊢
  cases hreturn with
  | error hfailure => rw [hfailure]
  | @ok u u' hu =>
      have hjumps := hu.agree_addJumps lang
      dsimp only
      generalize u.addJumps lang = y at hjumps ⊢
      generalize u'.addJumps lang = y' at hjumps ⊢
      cases hjumps with
      | error hfailure => rw [hfailure]
      | @ok v v' hv =>
          obtain ⟨htree, hfailure⟩ := hv.setTargets v.preorder
          dsimp only
          rw [hv.preorder_eq]
          generalize v.setTargets v.preorder = z at htree hfailure ⊢
          generalize v'.setTargets v.preorder = z' at htree hfailure ⊢
          obtain ⟨w, failure⟩ := z
          obtain ⟨w', failure'⟩ := z'
          subst hfailure
          cases failure' with
          | some failure => rfl
          | none => exact htree.assemble_eq

end Displaced

end Tree

end MissionScript
