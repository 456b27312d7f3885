import MissionScript.Proofs.Compile.Totality
import MissionScript.Proofs.Lowering.Arrival

/-!
# MissionScript.Proofs.Compile.ControlFlow

The compiled script follows the structured flow of control.

`Code.Implements` says what this means: from the command of a line, control lands where it goes in the
tree (`Tree.Proceeds`, `Tree.Transfers`), hidden jumps being followed on the way. `compile_implements`
says that it is so for every script that is compiled.

Where control goes in the tree, and that the lowered tree sends it there, is the subject of
`MissionScript.Proofs.Lowering.Arrival`. What is left to do here is to see that a script without
problems meets the conditions of that module, and that commands and lines can be told from each
other: every command of a line stands for a node, and every node that is executed has a command.
-/

namespace MissionScript

/-- From position `k`, control lands on one command, the one that every destination stands for. -/
def Code.LandsOn (code : Code) (numbered : Tree) (k : Nat) (dest : Destination → Prop) : Prop :=
  ∃ j, (∀ j', code.Lands k j' ↔ j' = j) ∧ (∃ d, dest d) ∧
    ∀ d, dest d → d.position? numbered code = some j

/-- The node stands for a line that is executed. -/
def Tree.IsSource (t : Tree) (id : Nat) : Prop :=
  0 < id ∧ id < t.size ∧ (t.statement id).isExecutable = true

/-- The compiled script follows the flow of control of the tree `t`. In `numbered` the nodes know
their positions. -/
structure Code.Implements (code : Code) (t numbered : Tree) : Prop where
  /-- The script ends with a `return`. -/
  last : ∃ c, code.commands.getLast? = some c ∧ c.id = CommandId.finish
  /-- Every other command is a hidden jump or that of a line, -/
  source : ∀ i c, code.commands[i]? = some c → i + 1 ≠ code.commands.length →
    c.id ≠ CommandId.hiddenJump → ∃ id, t.IsSource id ∧ (numbered.node id).index = some i
  /-- and every line that is executed has its command. -/
  command : ∀ id, t.IsSource id → ∃ i c, (numbered.node id).index = some i ∧
    code.commands[i]? = some c ∧ c.line = (t.statement id).line ∧
    (t.statement id).id? = some c.id ∧ c.id ≠ CommandId.hiddenJump
  /-- Control goes on from a command as it does in the tree, -/
  proceeds : ∀ id i, t.IsSource id → (numbered.node id).index = some i →
    (t.flow id).fallsThrough = true → code.LandsOn numbered (i + 1) (t.Proceeds id)
  /-- the command sends it where it does in the tree, -/
  transfers : ∀ id i c, t.IsSource id → (numbered.node id).index = some i →
    code.commands[i]? = some c → (t.flow id).mayJump = true →
    ∃ k, c.jump = some k ∧ code.LandsOn numbered k (t.Transfers id)
  /-- and no other command sends it anywhere. -/
  straight : ∀ id i c, t.IsSource id → (numbered.node id).index = some i →
    code.commands[i]? = some c → (t.flow id).mayJump = false → c.jump = none

namespace Tree

/-- Every jump to a label is bound to the one node that declares the label. -/
def BindsLabels (t : Tree) (symbols : SymbolTable) : Prop :=
  ∀ id, t.IsSource id → t.flow id = .goto ∨ t.flow id = .gosub →
    ∃ m, 0 < m ∧ m < t.size ∧ (t.statement m).isLabel = true ∧ t.labelName? m = t.labelName? id ∧
      symbols.target? id = some m ∧
      ∀ m', 0 < m' → m' < t.size → (t.statement m').isLabel = true →
        t.labelName? m' = t.labelName? id → m' = m

namespace Lowered

variable {t t₁ t₂ t₃ : Tree} {r : Nat}

/-- Control lands on one command when it does so for every destination. -/
theorem landsOn_of_reaches {k : Nat} {dest : Destination → Prop} (hexists : ∃ d, dest d)
    (h : ∀ d, dest d → t₃.Reaches k d) : (t₃.emit t₃.layout).LandsOn t₃.setIndices k dest := by
  obtain ⟨d, hd⟩ := hexists
  obtain ⟨j, -, hlands⟩ := h d hd
  refine ⟨j, fun j' => ⟨hlands.unique, fun heq => heq ▸ hlands⟩, ⟨d, hd⟩, fun d' hd' => ?_⟩
  obtain ⟨j', hposition, hlands'⟩ := h d' hd'
  rw [hposition, hlands.unique hlands']

/-- Where a line that is executed stands in the compiled script. -/
theorem exists_position (h : Lowered t t₁ t₂ t₃ r) {id : Nat} (hid : t.IsSource id) :
    ∃ i, t₃.StartsAt i (t₃.onward id) ∧ t₃.executables[i]? = some id ∧
      (t₃.setIndices.node id).index = some i := by
  obtain ⟨hpos, hlt, hexec⟩ := hid
  obtain ⟨i, hi⟩ := StartsAt.of_suffix
    (onward_isSuffix h.sound hpos (Nat.lt_of_lt_of_le hlt h.grows.size_le))
  have hcons := hi
  rw [onward_eq_cons] at hcons
  have hget := (hcons.take (by rw [h.grows.statement_eq id hlt]; exact hexec)).1
  exact ⟨i, hi, hget, index_setIndices hget⟩

/-- A line that is executed stands at its index. -/
theorem of_index (h : Lowered t t₁ t₂ t₃ r) {id i : Nat} (hid : t.IsSource id)
    (hindex : (t₃.setIndices.node id).index = some i) :
    t₃.StartsAt i (t₃.onward id) ∧ t₃.executables[i]? = some id := by
  obtain ⟨i', hi, hget, hindex'⟩ := h.exists_position hid
  rw [hindex] at hindex'
  cases hindex'
  exact ⟨hi, hget⟩

/-- The final return is the last command. -/
theorem exists_last (h : Lowered t t₁ t₂ t₃ r) :
    ∃ k, t₃.executables[k]? = some r ∧ t₃.executables.length = k + 1 := by
  obtain ⟨honward, hlater⟩ := h.prepared.onward_return
  have hlt : r < t₂.size := Nat.lt_of_lt_of_le h.prepared.lt_size h.prepared.size_le
  obtain ⟨k, hk⟩ := StartsAt.of_suffix (t := t₃)
    (onward_isSuffix h.sound h.prepared.pos (by rw [h.shape.size_eq]; exact hlt))
  rw [h.shape.onward_eq, honward] at hk
  refine ⟨k, (hk.take h.executable_return).1, hk.length_eq h.executable_return fun x hx => ?_⟩
  rw [h.shape.statement_eq]
  exact hlater x hx

/-- A command that is neither the last nor a hidden jump belongs to a line. -/
theorem isSource_of_command (h : Lowered t t₁ t₂ t₃ r) {i id : Nat}
    (hi : t₃.executables[i]? = some id) (hlast : i + 1 ≠ t₃.executables.length)
    (hjump : (t₃.statement id).id? ≠ some CommandId.hiddenJump) : t.IsSource id := by
  obtain ⟨hmem, hexec⟩ := List.mem_filter.mp (List.mem_of_getElem? hi)
  obtain ⟨hpos, hlt⟩ := (mem_preorder_iff h.sound).mp hmem
  by_cases hold : id < t.size
  · rw [h.grows.statement_eq id hold] at hexec
    exact ⟨hpos, hold, hexec⟩
  by_cases hreturned : id < t₁.size
  · -- the one node that the first step may add is the final return
    have hr : id = r := by
      have hsize := h.returned.size_eq
      split at hsize
      · next hle =>
        have := h.returned.eq_size hle
        omega
      · omega
    subst hr
    obtain ⟨k, hk, hlength⟩ := h.exists_last
    have hnodup : t₃.executables.Nodup := (nodup_preorder _).filter _
    obtain ⟨hilt, -⟩ := List.getElem?_eq_some_iff.mp hi
    have := (List.getElem?_inj hilt hnodup).mp (hi.trans hk.symm)
    omega
  · rw [h.shape.size_eq] at hlt
    rw [h.shape.statement_eq] at hjump
    exact absurd (h.prepared.jumped.jump_of_added id (Nat.le_of_not_lt hreturned) hlt).1.id?_eq hjump

/-- After a line that control goes on from, it lands where it goes in the tree. -/
theorem landsOn_proceeds (h : Lowered t t₁ t₂ t₃ r) {id i : Nat} (hid : t.IsSource id)
    (hi : t₃.StartsAt i (t₃.onward id)) (hflow : (t.flow id).fallsThrough = true) :
    (t₃.emit t₃.layout).LandsOn t₃.setIndices (i + 1) (t.Proceeds id) := by
  obtain ⟨hpos, hlt, hexec⟩ := hid
  have hend : t.flow id ≠ .blockEnd := by
    intro heq
    rw [((h.nested.proper id hpos hlt).of_virtual_flow (Or.inr heq)).1] at hexec
    cases hexec
  refine landsOn_of_reaches (h.nested.exists_proceeds hpos hlt hflow hend) ?_
  intro d hd
  exact h.reaches_of_proceeds hpos hlt hexec hd hi

/-- From where a line sends control, it lands where it goes in the tree. -/
theorem landsOn_transfers (h : Lowered t t₁ t₂ t₃ r) (hlabels : t.BindsLabels t₁.symbols)
    {id i : Nat} (hid : t.IsSource id) (hi : t₃.executables[i]? = some id)
    (hflow : (t.flow id).mayJump = true) :
    ∃ k, (t₃.node id).target.bind t₃.layout.landing? = some k ∧
      (t₃.emit t₃.layout).LandsOn t₃.setIndices k (t.Transfers id) := by
  have hpos := hid.1
  have hlt := hid.2.1
  have hmeets : ∀ d, t.Transfers id d → ∃ y, (t₃.node id).target = some y ∧ Meets t₃ r y d := by
    intro d hd
    refine h.meets_of_transfers hpos hlt hd fun hf m hmpos hmlt hm hname => ?_
    obtain ⟨m', -, -, -, -, htarget, hunique⟩ := hlabels id hid hf
    rw [htarget, hunique m hmpos hmlt hm hname]
  obtain ⟨d, hd⟩ : ∃ d, t.Transfers id d := by
    refine h.nested.exists_transfers hpos hlt hflow fun hf => ?_
    obtain ⟨m, hmpos, hmlt, hm, hname, -⟩ := hlabels id hid hf
    exact ⟨m, hmpos, hmlt, hm, hname⟩
  -- the target is one node, so all destinations are met there
  obtain ⟨y, hy, -⟩ := hmeets d hd
  obtain ⟨k, hk, hr, hlanding⟩ :=
    h.startsAt_target (List.mem_filter.mp (List.mem_of_getElem? hi)).1 hy
  refine ⟨k, by rw [hy, Option.bind_some, hlanding], landsOn_of_reaches ⟨d, hd⟩ ?_⟩
  intro d' hd'
  obtain ⟨y', hy', hmeets'⟩ := hmeets d' hd'
  rw [hy] at hy'
  cases hy'
  exact hmeets' k hr hk

/-- The compiled script follows the flow of control of the tree that was lowered. -/
theorem implements (h : Lowered t t₁ t₂ t₃ r) (hlabels : t.BindsLabels t₁.symbols) :
    (t₃.emit t₃.layout).Implements t t₃.setIndices where
  last := by
    obtain ⟨k, hk, hlength⟩ := h.exists_last
    obtain ⟨c, hc, -, -, hcid, -⟩ := exists_command hk
    refine ⟨c, ?_, ?_⟩
    · rw [List.getLast?_eq_getElem?, length_commands, hlength, Nat.add_sub_cancel, hc]
    · rw [h.id_return] at hcid
      exact (Option.some.inj hcid).symm
  source i c hc hlast hjump := by
    obtain ⟨hi, -⟩ := List.getElem?_eq_some_iff.mp hc
    rw [length_commands] at hi hlast
    have hget := List.getElem?_eq_getElem hi
    refine ⟨_, h.isSource_of_command hget hlast fun heq => hjump ?_, index_setIndices hget⟩
    rw [(of_command hget hc).1] at heq
    exact Option.some.inj heq
  command id hid := by
    obtain ⟨i, -, hget, hindex⟩ := h.exists_position hid
    obtain ⟨c, hc, -, hline, hcid, -⟩ := exists_command hget
    have hjump := h.id_ne_hiddenJump hid.1 hid.2.1
    rw [h.grows.statement_eq id hid.2.1] at hline hcid hjump
    refine ⟨i, c, hindex, hc, hline, hcid, fun heq => hjump ?_⟩
    rw [hcid, heq]
  proceeds id i hid hindex hflow := h.landsOn_proceeds hid (h.of_index hid hindex).1 hflow
  transfers id i c hid hindex hc hflow := by
    have hget := (h.of_index hid hindex).2
    rw [(of_command hget hc).2]
    exact h.landsOn_transfers hlabels hid hget hflow
  straight id i c hid hindex hc hflow := by
    rw [(of_command (h.of_index hid hindex).2 hc).2,
      h.target_of_no_transfer hid.1 hid.2.1 hflow]
    rfl

/-- The steps of lowering do not depend on the symbols of the tree before. -/
theorem of_withSymbols {symbols : SymbolTable} (hn : t.Nested [] none)
    (h : Lowered { t with symbols } t₁ t₂ t₃ r) : Lowered t t₁ t₂ t₃ r where
  nested := hn
  returned := {
    grows := ⟨h.returned.grows.size_le, h.returned.grows.parent_eq, h.returned.grows.statement_eq⟩
    nested := h.returned.nested
    final := h.returned.final
    children_eq := h.returned.children_eq
    size_eq := h.returned.size_eq
    eq_size := h.returned.eq_size
    node_eq := h.returned.node_eq
    target_eq := h.returned.target_eq }
  prepared := h.prepared
  shape := h.shape
  target_eq := h.target_eq

end Lowered

end Tree

namespace Language

open MissionScript.Tree

/-- Code comes from a script for which nothing is reported, by lowering its tree. -/
theorem reported_of_code {lang : Language} {lines : List String} {out : Compiled} {code : Code}
    (hcompile : lang.compile lines = .ok out) (hcode : out.code = some code) :
    (Script.readLines lang lines).isUnterminated = false ∧
      (Script.readLines lang lines).problems = [] ∧
      (Script.readLines lang lines).tree.check.2 = [] ∧
      (Script.readLines lang lines).tree.check.1.lower lang = (out.tree, .ok code) := by
  unfold compile at hcompile
  dsimp only at hcompile
  cases hterminated : (Script.readLines lang lines).isUnterminated with
  | true =>
      rw [hterminated, if_pos rfl] at hcompile
      cases hcompile
      cases hcode
  | false =>
      rw [hterminated, if_neg Bool.false_ne_true] at hcompile
      split at hcompile
      · next hempty =>
        obtain ⟨hproblems, hfound⟩ := of_sorted_eq_nil (List.isEmpty_iff.mp hempty)
        refine ⟨rfl, hproblems, hfound, ?_⟩
        split at hcompile
        · next tree code' hlower =>
          cases hcompile
          cases hcode
          exact hlower
        · cases hcompile
      · cases hcompile
        cases hcode

/-- Code comes from a script without problems, by lowering its tree. -/
theorem lower_of_code {lang : Language} (hcat : lang.catalog.Reachable) {lines : List String}
    {out : Compiled} {code : Code} (hcompile : lang.compile lines = .ok out)
    (hcode : out.code = some code) :
    lang.Sane lines ∧
      (Script.readLines lang lines).tree.check.1.lower lang = (out.tree, .ok code) := by
  obtain ⟨hterminated, hproblems, hfound, hlower⟩ := reported_of_code hcompile hcode
  exact ⟨sane_of_no_problem hcat hterminated hproblems hfound, hlower⟩

/-- What holds of a script with code holds of this one. -/
theorem exists_code {lang : Language} {lines : List String} {P : Compiled → Code → Prop}
    (hsome : ((lang.compile lines).toOption.bind (·.code)).isSome = true)
    (h : ∀ out code, lang.compile lines = .ok out → out.code = some code → P out code) :
    ∃ out code, lang.compile lines = .ok out ∧ out.code = some code ∧ P out code := by
  cases hcompile : lang.compile lines with
  | error failure =>
      rw [hcompile] at hsome
      cases hsome
  | ok out =>
      rw [hcompile] at hsome
      obtain ⟨code, hcode⟩ := Option.isSome_iff_exists.mp hsome
      exact ⟨out, code, rfl, hcode, h out code hcompile hcode⟩

/-- A script with code that passes a test. -/
theorem exists_code_of_any (lang : Language) (lines : List String) (p : Code → Bool)
    (h : ((lang.compile lines).toOption.bind (·.code)).any p = true) :
    ∃ out code, lang.compile lines = .ok out ∧ out.code = some code ∧ p code = true := by
  cases hsome : (lang.compile lines).toOption.bind (·.code) with
  | none =>
      rw [hsome] at h
      cases h
  | some code =>
      rw [hsome] at h
      refine exists_code (by rw [hsome]; rfl) ?_
      intro out code' hcompile hcode
      rw [hcompile] at hsome
      rw [Option.some.inj (hcode.symm.trans hsome)]
      exact h

theorem Sane.bindsLabels {lang : Language} {lines : List String} (h : lang.Sane lines) :
    (Script.readLines lang lines).tree.BindsLabels
      (bindLabels (Script.readLines lang lines).tree.symbols) := by
  intro id hid hflow
  have hjump := (h.nested.proper id hid.1 hid.2.1).isLabelJump_of_flow hflow
  obtain ⟨m, hmpos, hmlt, hm, -, hname, htarget, hunique⟩ :=
    target?_of_jump (indexed_readLines lang lines) h.nested.proper h.no_duplicates h.no_undefined
      hid.1 hid.2.1 hjump
  exact ⟨m, hmpos, hmlt, hm, hname, htarget, hunique⟩

/-- The compiled script follows the structured flow of control of the lines. -/
theorem compile_implements {lang : Language} (hcat : lang.catalog.Reachable) {lines : List String}
    {out : Compiled} {code : Code} (hcompile : lang.compile lines = .ok out)
    (hcode : out.code = some code) :
    code.Implements (Script.readLines lang lines).tree out.tree := by
  obtain ⟨hsane, hlower⟩ := lower_of_code hcat hcompile hcode
  obtain ⟨hnested, hbound⟩ := hsane.checked
  obtain ⟨t₁, t₂, t₃, r, hlowered, hsymbols, hspec⟩ := lower_spec hcat hnested hbound
  rw [hlower, Prod.mk.injEq, Except.ok.injEq] at hspec
  rw [hspec.1, hspec.2]
  refine (Lowered.of_withSymbols hsane.nested hlowered).implements ?_
  rw [hsymbols]
  exact hsane.bindsLabels

/-- A loop that ends with the last branch of an `if`, so that the hidden jump after a branch leads to
the one after the loop, and a `skip if` that owns a `continue`. -/
theorem compile_implements_loop :
    Catalog.builtin.Reachable ∧
      ∃ lines, lines = ["while $a", "if $b", "break", "else if $c", "skip if $a", "continue", "else",
          "* note", "goto top", "end", "end", "", "top:"] ∧
        ∃ out code, (⟨.builtin, .threat⟩ : Language).compile lines = .ok out ∧
          out.code = some code ∧
          code.Implements (Script.readLines ⟨.builtin, .threat⟩ lines).tree out.tree :=
  ⟨.builtin, _, rfl, exists_code (by decide +kernel) fun _ _ hcompile hcode =>
    compile_implements .builtin hcompile hcode⟩

end Language

end MissionScript
