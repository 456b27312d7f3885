import MissionScript.Proofs.Lowering.Bodies

/-!
# MissionScript.Proofs.Lowering.Arrival

Control lands in the compiled script where it arrives in the tree.

* `Code.Lands code i j` — following hidden jumps from position `i` leads to the command at `j`.
* `Lowered.realizes_of_arrives` — at the position where the rest of a body stands, control lands on
  the command at which it arrives in the tree. The proof goes along the way on which control arrives:
  one step for each rule of `Arrives`.
* `Lowered.reaches_of_proceeds`, `Lowered.meets_of_transfers` — so it does from the command after one
  that control goes on from, and from the target of one that sends it elsewhere.

Destinations are given in two ways. In the tree control arrives at a command, by rules that know
about blocks and nothing about positions. In the compiled script it runs from position to position,
and the two kinds of jump differ: those of the source are part of what is described, while a hidden
one is only a way to get to the next command. `Lands` passes through the hidden jumps, and so it is
what has to lead where the rules lead.
-/

namespace MissionScript

/-- Following hidden jumps from position `i` leads to the command at `j`. -/
inductive Code.Lands (code : Code) : Nat → Nat → Prop
  | stop {i c} : code.commands[i]? = some c → c.id ≠ CommandId.hiddenJump → Lands code i i
  | jump {i k j c} : code.commands[i]? = some c → c.id = CommandId.hiddenJump →
      c.jump = some k → Lands code k j → Lands code i j

/-- Hidden jumps lead to one command only. -/
theorem Code.Lands.unique {code : Code} {i j j' : Nat} (h : code.Lands i j)
    (h' : code.Lands i j') : j' = j := by
  induction h with
  | stop hc hid =>
      cases h' with
      | stop _ _ => rfl
      | jump hc' hid' _ _ =>
          rw [hc] at hc'
          cases hc'
          exact absurd hid' hid
  | jump hc hid hjump _ ih =>
      cases h' with
      | stop hc' hid' =>
          rw [hc] at hc'
          cases hc'
          exact absurd hid hid'
      | jump hc' _ hjump' hrest =>
          rw [hc] at hc'
          cases hc'
          rw [hjump] at hjump'
          cases hjump'
          exact ih hrest

/-- The position of a destination in the compiled script. The final return is its last command. -/
def Destination.position? (t : Tree) (code : Code) : Destination → Option Nat
  | .command id => (t.node id).index
  | .finalReturn => some (code.commands.length - 1)

namespace Tree

/-- From position `k` of the compiled script, control lands on the command of a destination. -/
def Reaches (t : Tree) (k : Nat) (d : Destination) : Prop :=
  ∃ j, d.position? t.setIndices (t.emit t.layout) = some j ∧ (t.emit t.layout).Lands k j

/-- What is executed last stands at the last position. -/
theorem StartsAt.length_eq {t : Tree} {k id : Nat} {l : List Nat} (h : t.StartsAt k (id :: l))
    (hexec : (t.statement id).isExecutable = true)
    (hl : ∀ x ∈ l, (t.statement x).isExecutable = false) : t.executables.length = k + 1 := by
  obtain ⟨before, rfl, heq⟩ := h.executables_eq
  have hnone : (l.filter fun x => (t.statement x).isExecutable) = [] := by
    rw [List.filter_eq_nil_iff]
    intro x hx
    rw [hl x hx]
    exact Bool.false_ne_true
  rw [heq, List.filter_cons, if_pos hexec, hnone, List.length_append]
  rfl

namespace Lowered

variable {t t₁ t₂ t₃ : Tree} {r : Nat}

/-! ### Where control lands

Positions are handled through what stands from a position on (`StartsAt`). A node of the source is a
command of its own, a hidden jump leads to its target, and the return comes last. -/

/-- A command that is no hidden jump is where control lands. -/
theorem lands_of_command {k id : Nat} (hk : t₃.executables[k]? = some id)
    (hid : (t₃.statement id).id? ≠ some CommandId.hiddenJump) :
    (t₃.emit t₃.layout).Lands k k := by
  obtain ⟨c, hc, -, -, hcid, -⟩ := exists_command hk
  refine .stop hc fun heq => hid ?_
  rw [hcid, heq]

/-- No line of the source is a hidden jump. -/
theorem id_ne_hiddenJump (h : Lowered t t₁ t₂ t₃ r) {id : Nat} (hpos : 0 < id)
    (hlt : id < t.size) : (t₃.statement id).id? ≠ some CommandId.hiddenJump := by
  rw [h.grows.statement_eq id hlt]
  exact (h.nested.proper id hpos hlt).id_ne_hiddenJump

/-- Where a node of the source that is executed begins, control lands on it. -/
theorem reaches_command (h : Lowered t t₁ t₂ t₃ r) {k id : Nat} {l : List Nat} (hpos : 0 < id)
    (hlt : id < t.size) (hexec : (t.statement id).isExecutable = true)
    (hk : t₃.StartsAt k (id :: l)) : t₃.Reaches k (.command id) := by
  have hget := (hk.take (by rw [h.grows.statement_eq id hlt]; exact hexec)).1
  exact ⟨k, index_setIndices hget, lands_of_command hget (h.id_ne_hiddenJump hpos hlt)⟩

/-- The final return is compiled to a `return`. -/
theorem id_return (h : Lowered t t₁ t₂ t₃ r) :
    (t₃.statement r).id? = some CommandId.finish := by
  have hlt := h.prepared.lt_size
  rw [h.shape.statement_eq, h.prepared.statement_eq hlt]
  exact (h.prepared.nested.proper r h.prepared.pos hlt).id_of_finish h.prepared.final.flow_eq

/-- Where only the final return is left, control lands on it. -/
theorem reaches_return (h : Lowered t t₁ t₂ t₃ r) {k : Nat} (hk : t₃.StartsAt k [r]) :
    t₃.Reaches k .finalReturn := by
  have hlength := hk.length_eq h.executable_return (by simp)
  refine ⟨k, ?_, lands_of_command (hk.take h.executable_return).1 ?_⟩
  · rw [Destination.position?, length_commands, hlength, Nat.add_sub_cancel]
  · rw [h.id_return]
    decide

/-- The node that another one jumps to stands where the jump lands. -/
theorem startsAt_target (h : Lowered t t₁ t₂ t₃ r) {id y : Nat} (hid : id ∈ t₃.preorder)
    (hy : (t₃.node id).target = some y) :
    ∃ k, t₃.StartsAt k (t₃.onward y) ∧ r ∈ t₃.onward y ∧ t₃.layout.landing? y = some k := by
  rw [h.shape.preorder_eq] at hid
  have hleads := h.leads_of_target hid hy
  obtain ⟨k, hk, hlanding⟩ := h.landing?_of_leads hleads
  exact ⟨k, hk, by rw [h.shape.onward_eq]; exact hleads.2.2, hlanding⟩

/-- A hidden jump takes control to the node it leads to. -/
theorem reaches_of_jumpsTo (h : Lowered t t₁ t₂ t₃ r) {j y k : Nat} {l : List Nat}
    (hj : t₃.JumpsTo j y) (hk : t₃.StartsAt k (j :: l)) :
    ∃ k', t₃.StartsAt k' (t₃.onward y) ∧ r ∈ t₃.onward y ∧
      ∀ d, t₃.Reaches k' d → t₃.Reaches k d := by
  obtain ⟨k', hk', hr, hlanding⟩ := h.startsAt_target hj.mem hj.target_eq
  obtain ⟨c, hc, -, -, hcid, hjump⟩ := exists_command (hk.take hj.hidden.executable).1
  rw [hj.target_eq, Option.bind_some, hlanding] at hjump
  rw [hj.hidden.id?_eq] at hcid
  refine ⟨k', hk', hr, ?_⟩
  rintro d ⟨m, hm, hlands⟩
  exact ⟨m, hm, .jump hc (Option.some.inj hcid).symm hjump hlands⟩

/-! ### The rest of a body

`Realizes` says of the rest of a body what has to be shown about it. It takes the position as given,
so that it can be used wherever the body has been put, and with whatever node lowering may have
added to its end. There is one lemma for each rule of `Arrives` that moves on to other nodes. -/

/-- Where the rest of a body stands in the compiled script, control lands on the destination. -/
def Realizes (t t₃ : Tree) (r p : Nat) (rest : List Nat) (d : Destination) : Prop :=
  ∀ before added k, t.children p = before ++ rest → t₃.children p = t.children p ++ added →
    r ∈ t₃.ahead p (rest ++ added) → t₃.StartsAt k (t₃.ahead p (rest ++ added)) → t₃.Reaches k d

/-- What is not executed is passed by, and the final return is still to come. -/
theorem pass_by (h : Lowered t t₁ t₂ t₃ r) {x k : Nat} {l : List Nat}
    (hexec : (t₃.statement x).isExecutable = false) (hr : r ∈ x :: l)
    (hk : t₃.StartsAt k (x :: l)) : r ∈ l ∧ t₃.StartsAt k l := by
  constructor
  · rcases List.mem_cons.mp hr with rfl | hmem
    · rw [h.executable_return] at hexec
      cases hexec
    · exact hmem
  · rw [← List.singleton_append] at hk
    exact hk.skip (by simpa using hexec)

/-- After a node, control goes on with its later siblings. -/
theorem reaches_after (h : Lowered t t₁ t₂ t₃ r) {id p k : Nat} {d : Destination}
    (hp : (t.node id).parent = some p) (hd : Realizes t t₃ r p (t.later id) d)
    (hr : r ∈ t₃.after id) (hk : t₃.StartsAt k (t₃.after id)) : t₃.Reaches k d := by
  obtain ⟨added, hadded⟩ := h.exists_children p
  obtain ⟨⟨before, hc⟩, hafter⟩ := h.exists_later hp hadded
  rw [hafter] at hr hk
  exact hd before added k hc hadded hr hk

/-- At an `end`, control goes on with what follows it. -/
theorem reaches_past_end (h : Lowered t t₁ t₂ t₃ r) {e p k : Nat} {d : Destination}
    (he : t.flow e = .blockEnd) (hp : (t.node e).parent = some p)
    (hd : Realizes t t₃ r p (t.later e) d) (hr : r ∈ t₃.onward e)
    (hk : t₃.StartsAt k (t₃.onward e)) : t₃.Reaches k d := by
  obtain ⟨hpos, hlt⟩ := h.nested.sound.parent_lt hp
  have hpos : 0 < e := by omega
  have hchildren : t₃.children e = [] := by
    refine h.children_simple hpos hlt ?_ ?_ <;> rw [he]
    · rfl
    · decide
  have hexec : (t₃.statement e).isExecutable = false := by
    rw [h.grows.statement_eq e hlt]
    exact ((h.nested.proper e hpos hlt).of_virtual_flow (Or.inr he)).1
  rw [onward_eq_cons_ahead, hchildren, ahead_nil] at hr hk
  obtain ⟨hr', hk'⟩ := h.pass_by hexec hr hk
  exact h.reaches_after hp hd hr' hk'

/-- A comment or blank line takes no position. -/
theorem realizes_pass (h : Lowered t t₁ t₂ t₃ r) {p id : Nat} {rest : List Nat} {d : Destination}
    (haux : (t.statement id).isAuxiliary = true) (hd : Realizes t t₃ r p rest d) :
    Realizes t t₃ r p (id :: rest) d := by
  intro before added k hc hadded hr hk
  have hid := mem_children.mp (show id ∈ t.children p by rw [hc]; simp)
  have hpos : 0 < id := by omega
  have hflow : t.flow id = .plain := (h.nested.proper id hpos hid.1).flow_of_auxiliary haux
  have hchildren : t₃.children id = [] := by
    refine h.children_simple hpos hid.1 ?_ ?_ <;> rw [hflow]
    · rfl
    · decide
  have hexec : (t₃.statement id).isExecutable = false := by
    rw [h.grows.statement_eq id hid.1]
    exact Statement.isExecutable_eq_false_of_isAuxiliary haux
  rw [List.cons_append, ahead_cons, hchildren, List.flatMap_nil, List.nil_append] at hr hk
  have hc' : t.children p = (before ++ [id]) ++ rest := by
    rw [hc, List.append_assoc, List.singleton_append]
  obtain ⟨hr', hk'⟩ := h.pass_by hexec hr hk
  exact hd _ added k hc' hadded hr' hk'

/-- After the last line there is nothing but the final return. -/
theorem realizes_offScript (h : Lowered t t₁ t₂ t₃ r) :
    Realizes t t₃ r root [] .finalReturn := by
  intro before added k _ hadded hr hk
  rw [h.children_root] at hadded
  rw [List.append_cancel_left hadded.symm, List.nil_append, ahead, after_root h.sound,
    List.append_nil] at hr hk
  have hchildren : t₃.children r = [] := by
    rw [h.shape.children_eq]
    exact h.prepared.children_of_plain h.prepared.pos (Or.inr h.prepared.final.flow_eq)
  split at hk
  · rw [List.flatMap_singleton, subtree_of_children_eq_nil hchildren] at hk
    exact h.reaches_return hk
  · next hnot =>
    rw [if_neg hnot] at hr
    cases hr

/-- The jump at the end of a loop leads back to it. -/
theorem realizes_loopDone (h : Lowered t t₁ t₂ t₃ r) {l : Nat} (hl : l ≠ root)
    (hloop : (t.flow l).isLoop = true) : Realizes t t₃ r l [] (.command l) := by
  intro before added k _ hadded _ hk
  obtain ⟨j, hj, hjumps⟩ := h.children_loop hl hloop
  rw [hj] at hadded
  rw [← List.append_cancel_left hadded, List.nil_append, ahead_cons] at hk
  obtain ⟨k', hk', -, hreaches⟩ := h.reaches_of_jumpsTo hjumps hk
  rw [onward_eq_cons] at hk'
  have hpos : 0 < l := Nat.pos_of_ne_zero hl
  exact hreaches _ (h.reaches_command hpos (lt_size_of_isLoop hloop)
    (h.nested.isExecutable_of_isLoop hpos hloop) hk')

/-- A branch ends with a jump to the `end`, or the `end` follows it. -/
theorem realizes_branchDone (h : Lowered t t₁ t₂ t₃ r) {b e p : Nat} {d : Destination}
    (hbranch : (t.flow b).isBranch = true) (hb : t.Closes b e)
    (hp : (t.node e).parent = some p) (hd : Realizes t t₃ r p (t.later e) d) :
    Realizes t t₃ r b [] d := by
  intro before added k _ hadded hr hk
  obtain ⟨q, outer, branches, rest, hc, he, hbranches⟩ := hb
  cases branches with
  | nil =>
      rw [h.children_last hc hbranch he] at hadded
      rw [List.self_eq_append_right.mp hadded, List.append_nil, ahead_nil, h.after_eq_onward hc] at hr hk
      exact h.reaches_past_end he hp hd hr hk
  | cons c branches =>
      have hflow : t.flow b = .ifBlock ∨ t.flow b = .elseIfBlock := by
        have hlink := h.nested.mayPrecede_of_children hc
        have hcflow := hbranches c List.mem_cons_self
        cases hf : t.flow b with
        | ifBlock => exact Or.inl rfl
        | elseIfBlock => exact Or.inr rfl
        | elseBlock =>
            rw [Flow.eq_blockEnd_of_mayPrecede hlink (by rw [hf]; rfl) (by rw [hf]; decide)
              (by rw [hf]; decide)] at hcflow
            simp at hcflow
        | plain | blockEnd | whileLoop | forLoop | foreachLoop | skip | breakLoop | continueLoop
        | goto | gosub | finish =>
            rw [hf] at hbranch
            cases hbranch
      obtain ⟨j, hj, hjumps⟩ := h.children_branch hc hflow he hbranches
      rw [hj] at hadded
      rw [← List.append_cancel_left hadded, List.nil_append, ahead_cons] at hk
      obtain ⟨k', hk', hr', hreaches⟩ := h.reaches_of_jumpsTo hjumps hk
      exact hreaches d (h.reaches_past_end he hp hd hr' hk')

/-- The command of a `skip if` is the last thing in it. -/
theorem realizes_skipDone (h : Lowered t t₁ t₂ t₃ r) {s p : Nat} {d : Destination}
    (hskip : t.flow s = .skip) (hp : (t.node s).parent = some p)
    (hd : Realizes t t₃ r p (t.later s) d) : Realizes t t₃ r s [] d := by
  intro before added k _ hadded hr hk
  obtain ⟨hpos, hlt⟩ := h.nested.sound.parent_lt hp
  have hsame : t₃.children s = t.children s := by
    refine h.children_same (Nat.ne_of_gt (show 0 < s by omega)) hlt ?_ ?_ ?_ <;> rw [hskip]
    · decide
    · decide
    · rfl
  rw [hsame] at hadded
  rw [List.self_eq_append_right.mp hadded, List.append_nil, ahead_nil] at hr hk
  exact h.reaches_after hp hd hr hk

/-- Where the rest of a body stands in the compiled script, control lands on the command at which it
arrives in the tree. -/
theorem realizes_of_arrives (h : Lowered t t₁ t₂ t₃ r) {p : Nat} {rest : List Nat}
    {d : Destination} (hd : t.Arrives p rest d) : Realizes t t₃ r p rest d := by
  induction hd with
  | @here p id rest hexec =>
      intro before added k hc hadded _ hk
      have hid := mem_children.mp (show id ∈ t.children p by rw [hc]; simp)
      rw [List.cons_append, ahead_cons] at hk
      exact h.reaches_command (by omega) hid.1 hexec hk
  | pass haux _ ih => exact h.realizes_pass haux ih
  | offScript => exact h.realizes_offScript
  | branchDone hbranch hb hp _ ih => exact h.realizes_branchDone hbranch hb hp ih
  | loopDone hl hloop => exact h.realizes_loopDone hl hloop
  | skipDone hskip hp _ ih => exact h.realizes_skipDone hskip hp ih

/-! ### From a command on

A command that control goes on from has its body next, if it has one, or else its later siblings. -/

/-- The final return comes after everything that a command other than a `return` owns. -/
theorem return_mem_after (h : Lowered t t₁ t₂ t₃ r) {id : Nat} (hpos : 0 < id) (hlt : id < t.size)
    (hexec : (t.statement id).isExecutable = true) (hfinish : t.flow id ≠ .finish) :
    r ∈ t₃.after id := by
  have hlt₁ : id < t₁.size := Nat.lt_of_lt_of_le hlt h.returned.grows.size_le
  rw [h.shape.after_eq]
  refine h.prepared.mem_after_of_executable hpos (Nat.lt_of_lt_of_le hlt₁ h.prepared.size_le) ?_ ?_
  · rw [h.prepared.statement_eq hlt₁, h.returned.grows.statement_eq id hlt]
    exact hexec
  · rintro rfl
    rw [← h.returned.grows.flow_eq hlt] at hfinish
    exact hfinish h.prepared.final.flow_eq

/-- The position after a command that control goes on from is where control goes. -/
theorem reaches_of_proceeds (h : Lowered t t₁ t₂ t₃ r) {id i : Nat} {d : Destination}
    (hpos : 0 < id) (hlt : id < t.size) (hexec : (t.statement id).isExecutable = true)
    (hd : t.Proceeds id d) (hi : t₃.StartsAt i (t₃.onward id)) : t₃.Reaches (i + 1) d := by
  rw [onward_eq_cons_ahead] at hi
  have hnext := (hi.take (by rw [h.grows.statement_eq id hlt]; exact hexec)).2
  have hr : t.flow id ≠ .finish → r ∈ t₃.after id := h.return_mem_after hpos hlt hexec
  cases hd with
  | enter hopen harrives =>
      obtain ⟨added, hadded⟩ := h.exists_children id
      rw [hadded] at hnext
      refine h.realizes_of_arrives harrives [] added (i + 1) rfl hadded ?_ hnext
      refine List.mem_append_right _ (hr fun heq => ?_)
      rw [heq] at hopen
      rcases hopen with hopen | hopen <;> cases hopen
  | next hflow hcontinues =>
      obtain ⟨p, hp, harrives⟩ := hcontinues
      have hchildren : t₃.children id = [] := by
        refine h.children_simple hpos hlt ?_ ?_ <;> rcases hflow with hf | hf <;> rw [hf] <;> decide
      rw [hchildren, ahead_nil] at hnext
      refine h.reaches_after hp (h.realizes_of_arrives harrives) (hr ?_) hnext
      rcases hflow with hf | hf <;> rw [hf] <;> decide

/-- At an `end`, control goes where it goes past the construct. -/
theorem reaches_of_continues_end (h : Lowered t t₁ t₂ t₃ r) {e k : Nat} {d : Destination}
    (he : t.flow e = .blockEnd) (hd : t.Continues e d) (hr : r ∈ t₃.onward e)
    (hk : t₃.StartsAt k (t₃.onward e)) : t₃.Reaches k d := by
  obtain ⟨p, hp, harrives⟩ := hd
  exact h.reaches_past_end he hp (h.realizes_of_arrives harrives) hr hk

/-! ### Where commands send control

A target is a node, and is met when control lands at the right place from wherever this node has
been put. The targets differ by the flow of the command, and each is traced back to a rule of
`Arrives` or `Continues`. -/

/-- Wherever the node `y` stands in the compiled script, control lands on the destination. -/
def Meets (t₃ : Tree) (r y : Nat) (d : Destination) : Prop :=
  ∀ k, r ∈ t₃.onward y → t₃.StartsAt k (t₃.onward y) → t₃.Reaches k d

/-- A target that is executed is met itself. -/
theorem meets_command (h : Lowered t t₁ t₂ t₃ r) {id : Nat} (hpos : 0 < id) (hlt : id < t.size)
    (hexec : (t.statement id).isExecutable = true) : Meets t₃ r id (.command id) := by
  intro k _ hk
  rw [onward_eq_cons] at hk
  exact h.reaches_command hpos hlt hexec hk

/-- An `else` stands for the first command of its body. -/
theorem meets_else (h : Lowered t t₁ t₂ t₃ r) {b : Nat} {d : Destination} (hpos : 0 < b)
    (hflow : t.flow b = .elseBlock) (hd : t.Arrives b (t.children b) d) : Meets t₃ r b d := by
  intro k hr hk
  have hlt : b < t.size := lt_size_of_flow (by rw [hflow]; decide)
  have hexec : (t₃.statement b).isExecutable = false := by
    rw [h.grows.statement_eq b hlt]
    exact ((h.nested.proper b hpos hlt).of_virtual_flow (Or.inl hflow)).1
  obtain ⟨added, hadded⟩ := h.exists_children b
  rw [onward_eq_cons_ahead, hadded] at hr hk
  obtain ⟨hr', hk'⟩ := h.pass_by hexec hr hk
  exact h.realizes_of_arrives hd [] added k rfl hadded hr' hk'

/-- What follows a loop is what follows its `end`. -/
theorem meets_past_loop (h : Lowered t t₁ t₂ t₃ r) {l e y : Nat} {d : Destination}
    (hloop : (t.flow l).isLoop = true) (hl : t.Closes l e) (hd : t.Continues e d)
    (hy : t₃.onward y = t₃.after l) : Meets t₃ r y d := by
  intro k hr hk
  have hif : t.flow l ≠ .ifBlock ∧ t.flow l ≠ .elseIfBlock := by
    constructor <;> intro heq <;> rw [heq] at hloop <;> cases hloop
  obtain ⟨p, before, rest, hc⟩ :=
    h.nested.children_of_closes hl (Flow.opensBlock_of_isLoop hloop) hif.1 hif.2
  rw [hy, h.after_eq_onward hc] at hr hk
  exact h.reaches_of_continues_end hl.parent_eq.1 hd hr hk

/-- What follows a `skip if` is what follows its command. -/
theorem meets_past_skip (h : Lowered t t₁ t₂ t₃ r) {id c y : Nat} {d : Destination}
    (hpos : 0 < id) (hflow : t.flow id = .skip) (hc : t.children id = [c]) (hd : t.Continues c d)
    (hy : t₃.onward y = t₃.after id) : Meets t₃ r y d := by
  intro k hr hk
  obtain ⟨p, hp, harrives⟩ := hd
  have hc' : t.children id = [] ++ c :: [] := hc
  rw [parent_of_children_eq hc'] at hp
  cases hp
  rw [later_of_children hc'] at harrives
  have hsame : t₃.children id = t.children id ++ [] := by
    rw [List.append_nil]
    refine h.children_same (Nat.ne_of_gt hpos) (lt_size_of_flow ?_) ?_ ?_ ?_ <;> rw [hflow] <;>
      decide
  rw [hy] at hr hk
  exact h.realizes_of_arrives harrives [c] [] k hc hsame hr hk

/-- A test that fails jumps to its next sibling. -/
theorem target_of_test (h : Lowered t t₁ t₂ t₃ r) {id y : Nat} (hpos : 0 < id)
    (hflow : t.flow id = .ifBlock ∨ t.flow id = .elseIfBlock) (hnext : t.nextSibling? id = some y) :
    (t₃.node id).target = some y ∧ 0 < y ∧ y < t.size := by
  have hlt : id < t.size := lt_size_of_flow (by rcases hflow with hf | hf <;> rw [hf] <;> decide)
  obtain ⟨p, hp, -⟩ := h.nested.sound.exists_parent id hpos hlt
  obtain ⟨before, hc⟩ := exists_children_eq (h.nested.sound.mem_children_iff.mpr hp)
  rw [nextSibling?_eq_head?] at hnext
  obtain ⟨rest, hlater⟩ := List.head?_eq_some_iff.mp hnext
  rw [hlater] at hc
  have hy := mem_children.mp (show y ∈ t.children p by rw [hc]; simp)
  obtain ⟨added, hc₁⟩ := h.siblings_returned hc
  refine ⟨h.target_of_transfer hpos hlt (h.prepared.transfer?_branch hc₁ ?_).1, by omega, hy.1⟩
  rw [h.returned.grows.flow_eq hlt]
  exact hflow

/-- A loop or `skip if` that is not entered jumps to what follows. -/
theorem target_of_block (h : Lowered t t₁ t₂ t₃ r) {id : Nat} (hpos : 0 < id)
    (hflow : (t.flow id).isLoop = true ∨ t.flow id = .skip) :
    ∃ y, (t₃.node id).target = some y ∧ t₃.onward y = t₃.after id := by
  have hlt : id < t.size := lt_size_of_flow fun heq => by
    rw [heq] at hflow
    rcases hflow with hf | hf <;> cases hf
  have hlt₁ : id < t₁.size := Nat.lt_of_lt_of_le hlt h.returned.grows.size_le
  obtain ⟨y, hy, honward, -⟩ := h.prepared.transfer?_block hpos hlt₁
    (by rw [h.returned.grows.flow_eq hlt]; exact hflow)
  exact ⟨y, h.target_of_transfer hpos hlt hy, by rw [h.shape.onward_eq, h.shape.after_eq, honward]⟩

/-- A command that sends control elsewhere jumps to a node that stands for the destination. -/
theorem meets_of_transfers (h : Lowered t t₁ t₂ t₃ r) {id : Nat} {d : Destination} (hpos : 0 < id)
    (hlt : id < t.size) (hd : t.Transfers id d)
    (hlabel : t.flow id = .goto ∨ t.flow id = .gosub → ∀ m, 0 < m → m < t.size →
      (t.statement m).isLabel = true → t.labelName? m = t.labelName? id →
      t₁.symbols.target? id = some m) :
    ∃ y, (t₃.node id).target = some y ∧ Meets t₃ r y d := by
  have hlt₁ : id < t₁.size := Nat.lt_of_lt_of_le hlt h.returned.grows.size_le
  have hflow₁ : t₁.flow id = t.flow id := h.returned.grows.flow_eq hlt
  have hloop₁ : t₁.enclosingLoop? id = t.enclosingLoop? id :=
    h.returned.grows.enclosingLoop?_eq hlt
  cases hd with
  | @nextTest b hflow hnext hb =>
      obtain ⟨htarget, hbpos, hblt⟩ := h.target_of_test hpos hflow hnext
      have hproper := h.nested.proper b hbpos hblt
      refine ⟨b, htarget, h.meets_command hbpos hblt (hproper.isExecutable_of_flow ?_ ?_ ?_)⟩ <;>
        rw [show (t.statement b).flow = _ from hb] <;> decide
  | otherwise hflow hnext hb harrives =>
      obtain ⟨htarget, hbpos, -⟩ := h.target_of_test hpos hflow hnext
      exact ⟨_, htarget, h.meets_else hbpos hb harrives⟩
  | pastEnd hflow hnext he hcontinues =>
      obtain ⟨htarget, -⟩ := h.target_of_test hpos hflow hnext
      exact ⟨_, htarget, fun k hr hk => h.reaches_of_continues_end he hcontinues hr hk⟩
  | pastLoop hloop hcloses hcontinues =>
      obtain ⟨y, htarget, hy⟩ := h.target_of_block hpos (Or.inl hloop)
      exact ⟨y, htarget, h.meets_past_loop hloop hcloses hcontinues hy⟩
  | pastSkip hskip hc hcontinues =>
      obtain ⟨y, htarget, hy⟩ := h.target_of_block hpos (Or.inr hskip)
      exact ⟨y, htarget, h.meets_past_skip hpos hskip hc hcontinues hy⟩
  | leave hflow hl hcloses hcontinues =>
      obtain ⟨l, y, hl₁, htransfer, hy, -⟩ :=
        h.prepared.transfer?_break hpos hlt₁ (hflow₁.trans hflow)
      rw [hloop₁, hl] at hl₁
      cases hl₁
      refine ⟨y, h.target_of_transfer hpos hlt htransfer, ?_⟩
      exact h.meets_past_loop (of_enclosingLoop? hl).2.2 hcloses hcontinues
        (by rw [h.shape.onward_eq, h.shape.after_eq, hy])
  | again hflow hl =>
      obtain ⟨l, hl₁, htransfer⟩ := h.prepared.transfer?_continue hpos hlt₁ (hflow₁.trans hflow)
      rw [hloop₁, hl] at hl₁
      cases hl₁
      obtain ⟨hlpos, -, hloop⟩ := of_enclosingLoop? hl
      exact ⟨_, h.target_of_transfer hpos hlt htransfer,
        h.meets_command hlpos (lt_size_of_isLoop hloop)
          (h.nested.isExecutable_of_isLoop hlpos hloop)⟩
  | @label m hflow hmpos hmlt hm hname =>
      refine ⟨m, h.target_of_transfer hpos hlt ?_, h.meets_command hmpos hmlt
        ((h.nested.proper m hmpos hmlt).executable_of_label hm)⟩
      rw [h.prepared.transfer?_label hpos hlt₁ (by rw [hflow₁]; exact hflow),
        hlabel hflow m hmpos hmlt hm hname]

end Lowered

end Tree

end MissionScript
