import MissionScript.Proofs.Expression.Source
import MissionScript.Proofs.Lowering.Encoding

/-!
# MissionScript.Proofs.Lowering.Table

The table of variables while a script is compiled.

The table only grows, so a variable keeps its position (`encode?_of_isPrefix`), and a parameter is what
its content is encoded as in the final table (`forall₂_encodeParameters`). Every command stands for a
node, at the position of the node and with its variables in the table (`exists_emitted`).

Variables are numbered while the commands are written down, so a command is encoded by the table as
it is at that moment. To say what a command means in the script, its numbers have to be read by the
table at the end. The two agree, since names are only added at the back of the table, and this is
what `Emitted` is stated with: the final table begins with the one that the command was encoded by.
-/

namespace MissionScript

/-! ### The table of variables

A name that is looked up is in the table afterwards, at the position that is given for it. A
position that has been given is good for every longer table. -/

/-- Names are only added, at the end. -/
theorem isPrefix_internVar (vars : List String) (name : String) :
    vars <+: (internVar vars name).1 := by
  unfold internVar
  split
  · exact List.prefix_rfl
  · exact List.prefix_append _ _

/-- The name is found at the position that is given for it. -/
theorem idxOf?_internVar (vars : List String) (name : String) :
    (internVar vars name).1.idxOf? name = some (internVar vars name).2 := by
  unfold internVar
  split
  · assumption
  · next hnone =>
    unfold List.idxOf? at hnone ⊢
    simp [List.findIdx?_append, hnone]

namespace Tree

/-- What a parameter becomes when `vars` are the variables. -/
def encode? (vars : List String) : DataType × Value → Option CodeParameter
  | (.var, .str name) => (vars.idxOf? name).map fun n => ⟨.var, .int (Number.ofCount n)⟩
  | (dataType, value) => some ⟨dataType, value⟩

theorem encode?_var (vars : List String) (name : String) :
    encode? vars (.var, .str name)
      = (vars.idxOf? name).map fun n => ⟨.var, .int (Number.ofCount n)⟩ := rfl

/-- What is no variable is kept as it is, whatever the table. -/
theorem encode?_of_varName?_eq_none {p : Parameter} (h : p.varName? = none) (vars : List String) :
    encode? vars p.content = some ⟨p.dataType, p.value⟩ := by
  unfold Parameter.varName? at h
  unfold Parameter.content encode?
  split at h
  · cases h
  · next hnot =>
    split
    · next name heq =>
      obtain ⟨htype, hvalue⟩ := Prod.mk.inj heq
      exact absurd hvalue (hnot _ htype)
    · next heq =>
      obtain ⟨rfl, rfl⟩ := Prod.mk.inj heq
      rfl

/-- What could be encoded is encoded alike by a longer table. -/
theorem encode?_of_isPrefix {vars vars' : List String} (h : vars <+: vars') {c : DataType × Value}
    {q : CodeParameter} (hq : encode? vars c = some q) : encode? vars' c = some q := by
  unfold encode? at hq ⊢
  split at hq
  · obtain ⟨n, hn, rfl⟩ := Option.map_eq_some_iff.mp hq
    have hn' : vars'.idxOf? _ = some n := h.findIdx?_eq_some hn
    rw [hn']
    rfl
  · exact hq

/-- Only the type of a variable tells it from other values. -/
theorem dataType_of_encode? {vars : List String} {c : DataType × Value} {q : CodeParameter}
    (h : encode? vars c = some q) : q.dataType = c.1 := by
  unfold encode? at h
  split at h
  · obtain ⟨n, -, rfl⟩ := Option.map_eq_some_iff.mp h
    rfl
  · cases h
    rfl

/-! ### Parameters

The parameters of a command are encoded from the left, each by the table that those before it have
left. -/

/-- A parameter only adds to the table. -/
theorem isPrefix_encodeParameter (jump : Option Nat) (vars : List String) (p : Parameter) :
    vars <+: (encodeParameter jump vars p).1 := by
  unfold encodeParameter
  split
  · exact List.prefix_rfl
  · split
    · exact isPrefix_internVar _ _
    · exact List.prefix_rfl

/-- So do several of them. -/
theorem isPrefix_encodeParameters (jump : Option Nat) (vars : List String) (ps : List Parameter) :
    vars <+: (encodeParameters jump vars ps).1 := by
  induction ps generalizing vars with
  | nil => exact List.prefix_rfl
  | cons p ps ih => exact (isPrefix_encodeParameter jump vars p).trans (ih _)

/-- Without a jump, a parameter is encoded by the table that holds its variable. -/
theorem encode?_encodeParameter (vars : List String) (p : Parameter) :
    encode? (encodeParameter none vars p).1 p.content = some (encodeParameter none vars p).2 := by
  unfold encodeParameter
  rw [ite_self]
  cases hname : p.varName? with
  | none => exact encode?_of_varName?_eq_none hname vars
  | some name =>
      have hcontent : p.content = (.var, .str name) := by
        unfold Parameter.varName? at hname
        split at hname
        · next htype hvalue =>
          cases hname
          rw [Parameter.content, htype, hvalue]
        · cases hname
      rw [hcontent, encode?_var, idxOf?_internVar]
      rfl

/-- All of them are encoded as by the final table. -/
theorem forall₂_encodeParameters (vars : List String) (ps : List Parameter) {final : List String}
    (h : (encodeParameters none vars ps).1 <+: final) :
    List.Forall₂ (fun p q => encode? final p.content = some q) ps
      (encodeParameters none vars ps).2 := by
  induction ps generalizing vars with
  | nil => exact .nil
  | cons p ps ih =>
      refine .cons ?_ (ih _ h)
      exact encode?_of_isPrefix ((isPrefix_encodeParameters none _ ps).trans h)
        (encode?_encodeParameter vars p)

/-! ### Commands

Nodes are written down in their order, and the invariant is that each command so far stands for a
node that has been passed. -/

/-- A statement only adds to the table. -/
theorem isPrefix_encodeStatement (jump : Option Nat) (vars : List String) (s : Statement)
    (kind : CommandKind) : vars <+: (encodeStatement jump vars s kind).1 := by
  unfold encodeStatement
  split
  · exact isPrefix_encodeParameters _ _ _
  · exact isPrefix_encodeParameters _ _ _

/-- The command `c` is what a node stands for at its position, and `vars` has its variables. -/
structure Emitted (t : Tree) (l : Layout) (vars : List String) (c : Command) (placed : Nat × Nat) :
    Prop where
  executable : (t.statement placed.1).isExecutable = true
  index_eq : c.index = placed.2
  encodes : t.Encodes l c placed.1
  interned : ∃ d before, (t.statement placed.1).command = some d ∧
    (c.parameters, c.written) = (encodeStatement c.jump before (t.statement placed.1) d.kind).2 ∧
    (encodeStatement c.jump before (t.statement placed.1) d.kind).1 <+: vars

/-- A longer table will do as well. -/
theorem Emitted.mono {t : Tree} {l : Layout} {vars vars' : List String} (h : vars <+: vars')
    {c : Command} {placed : Nat × Nat} (hc : t.Emitted l vars c placed) :
    t.Emitted l vars' c placed := by
  obtain ⟨hexec, hindex, hencodes, d, before, hcommand, heq, hvars⟩ := hc
  exact ⟨hexec, hindex, hencodes, d, before, hcommand, heq, hvars.trans h⟩

/-- A node adds to the table, and the command it adds is its own. -/
theorem emitted_emitNode (t : Tree) (l : Layout) (code : Code) (placed : Nat × Nat) :
    code.vars <+: (t.emitNode l code placed).vars ∧
      ∀ c ∈ (t.emitNode l code placed).commands, c ∈ code.commands ∨
        t.Emitted l (t.emitNode l code placed).vars c placed := by
  unfold emitNode addEntry
  dsimp only
  cases hcommand : (t.statement placed.1).command with
  | none => exact ⟨List.prefix_rfl, fun c hc => Or.inl hc⟩
  | some d =>
      cases hexec : (t.statement placed.1).isExecutable with
      | true =>
          refine ⟨isPrefix_encodeStatement _ _ _ _, ?_⟩
          intro c hc
          rcases List.mem_append.mp hc with hold | hnew
          · exact Or.inl hold
          · rw [List.mem_singleton.mp hnew]
            exact Or.inr ⟨hexec, rfl, ⟨⟨d, code.vars, hcommand, rfl, rfl, rfl⟩, rfl, rfl⟩,
              d, code.vars, hcommand, rfl, List.prefix_rfl⟩
      | false =>
          cases (t.statement placed.1).isAuxiliary <;>
            exact ⟨List.prefix_rfl, fun c hc => Or.inl hc⟩

/-- So it is for the nodes of a list. -/
theorem emitted_foldl (t : Tree) (l : Layout) (placed : List (Nat × Nat)) (code : Code) :
    code.vars <+: (placed.foldl (t.emitNode l) code).vars ∧
      ∀ c ∈ (placed.foldl (t.emitNode l) code).commands, c ∈ code.commands ∨
        ∃ x ∈ placed, t.Emitted l (placed.foldl (t.emitNode l) code).vars c x := by
  induction placed generalizing code with
  | nil => exact ⟨List.prefix_rfl, fun c hc => Or.inl hc⟩
  | cons x placed ih =>
      obtain ⟨hgrows, hcommands⟩ := emitted_emitNode t l code x
      obtain ⟨hgrows', hcommands'⟩ := ih (t.emitNode l code x)
      rw [List.foldl_cons]
      refine ⟨hgrows.trans hgrows', ?_⟩
      intro c hc
      rcases hcommands' c hc with hc' | ⟨y, hy, hemitted⟩
      · rcases hcommands c hc' with hold | hemitted
        · exact Or.inl hold
        · exact Or.inr ⟨x, List.mem_cons_self, hemitted.mono hgrows'⟩
      · exact Or.inr ⟨y, List.mem_cons_of_mem _ hy, hemitted⟩

/-- Every command stands for a node at its position, and refers to the table of the script. -/
theorem exists_emitted {t : Tree} {c : Command} (h : c ∈ (t.emit t.layout).commands) :
    ∃ x ∈ t.layout.positions, t.Emitted t.layout (t.emit t.layout).vars c x := by
  obtain ⟨-, hcommands⟩ := emitted_foldl t t.layout t.layout.positions {}
  rcases hcommands c h with hnil | hemitted
  · cases hnil
  · exact hemitted

/-- Only nodes of the tree have positions. -/
theorem mem_preorder_of_mem_positions {t : Tree} {x : Nat × Nat} (h : x ∈ t.layout.positions) :
    x.1 ∈ t.preorder := by
  rw [← map_fst_positionsFrom t 0 t.preorder]
  exact List.mem_map_of_mem h

end Tree

end MissionScript
