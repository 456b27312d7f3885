import MissionScript.Proofs.Lowering.Table
import Mathlib.Data.List.Induction
import Mathlib.Data.List.Nodup

/-!
# MissionScript.Proofs.Lowering.Interning

The table of variables holds the names that the commands use, each where it comes first.

`Statement.emitted` are the parameters of a statement in the order in which they are encoded. One name
more is interned as `List.eraseDups` puts it at the end or drops it (`internVar_eraseDups`). So the table
after some names is what `eraseDups` leaves of them, for a parameter, a statement and all commands
(`vars_emit`). A parameter that is a variable holds the position of its name
(`Emitted.exists_name`).
-/

namespace MissionScript

/-! ### One name more

Interning a name that is there already changes nothing, and so does `eraseDups`. Both put a new name
at the end. -/

theorem internVar_fst (vars : List String) (name : String) :
    (internVar vars name).1 = if name ∈ vars then vars else vars ++ [name] := by
  unfold internVar
  split
  · next position hposition =>
    have hmem : name ∈ vars := List.isSome_idxOf?.mp (by rw [hposition]; rfl)
    rw [if_pos hmem]
  · next hnone => rw [if_neg (List.idxOf?_eq_none_iff.mp hnone)]

theorem internVar_eraseDups (seen : List String) (name : String) :
    (internVar seen.eraseDups name).1 = (seen ++ [name]).eraseDups := by
  rw [internVar_fst, List.eraseDups_append]
  by_cases hmem : name ∈ seen <;> simp [List.removeAll, hmem, List.eraseDups_cons]

theorem nodup_eraseDups (names : List String) : names.eraseDups.Nodup := by
  induction names using List.reverseRecOn with
  | nil => exact List.nodup_nil
  | append_singleton names name ih =>
      rw [← internVar_eraseDups, internVar_fst]
      split
      · exact ih
      · next hnot => exact ih.append (List.nodup_singleton name) (by simpa using hnot)

/-! ### Names of parameters -/

namespace Tree

/-- A parameter adds its name. Only the label of a jump is not encoded as it stands. -/
theorem vars_encodeParameter {jump : Option Nat} {p : Parameter}
    (hlabel : p.slot.type = .labelNumber → jump = none ∨ p.varName? = none) (seen : List String) :
    (encodeParameter jump seen.eraseDups p).1 = (seen ++ p.varName?.toList).eraseDups := by
  unfold encodeParameter
  split
  · next position hjump =>
    split at hjump
    · next htype =>
      rcases hlabel htype with hnone | hname
      · rw [hnone] at hjump
        cases hjump
      · simp [hname]
    · cases hjump
  · cases hname : p.varName? with
    | none => simp
    | some name => exact internVar_eraseDups seen name

theorem vars_encodeParameters {jump : Option Nat} {ps : List Parameter}
    (hlabel : ∀ p ∈ ps, p.slot.type = .labelNumber → jump = none ∨ p.varName? = none)
    (seen : List String) :
    (encodeParameters jump seen.eraseDups ps).1
      = (seen ++ ps.filterMap Parameter.varName?).eraseDups := by
  induction ps generalizing seen with
  | nil => simp [encodeParameters]
  | cons p ps ih =>
      obtain ⟨hp, hlabel⟩ := List.forall_mem_cons.mp hlabel
      have hrest := ih hlabel (seen ++ p.varName?.toList)
      rw [← vars_encodeParameter hp, List.append_assoc] at hrest
      rw [encodeParameters, hrest, List.filterMap_cons]
      cases p.varName? <;> rfl

end Tree

/-! ### Names of statements -/

namespace Statement

/-- The parameters in the order in which they are encoded: those of an expression as evaluated, after
the return value. -/
def emitted (s : Statement) : List Parameter :=
  if s.kind? = some .expression then s.parameters.take 1 ++ s.evaluated else s.parameters

/-- The names of the variables in the order in which they are encoded. -/
def varNames (s : Statement) : List String := s.emitted.filterMap Parameter.varName?

/-- No variable stands for the label of a jump. -/
def KeepsLabels (s : Statement) : Prop :=
  s.kind? ≠ some .expression → ∀ p ∈ s.parameters, p.slot.type = .labelNumber → p.varName? = none

end Statement

namespace Tree

theorem encodeStatement_eq {s : Statement} {d : Definition} (hd : s.command = some d)
    (jump : Option Nat) (vars : List String) :
    ∃ jump', (s.kind? = some .expression → jump' = none) ∧
      (encodeStatement jump vars s d.kind).1 = (encodeParameters jump' vars s.emitted).1 ∧
      (encodeStatement jump vars s d.kind).2.1 = (encodeParameters jump' vars s.emitted).2 := by
  have hkind : s.kind? = some d.kind := by rw [Statement.kind?, hd, Option.map_some]
  rw [Statement.emitted, hkind]
  unfold encodeStatement
  split
  · next hexpression => exact ⟨none, fun _ => rfl, by simp [hexpression]⟩
  · next hexpression =>
    have hne : some d.kind ≠ some .expression := fun heq => hexpression (Option.some.inj heq)
    rw [if_neg hne]
    exact ⟨jump, fun heq => absurd heq hne, rfl, rfl⟩

theorem vars_encodeStatement {s : Statement} {d : Definition} (hd : s.command = some d)
    (hlabels : s.KeepsLabels) (jump : Option Nat) (seen : List String) :
    (encodeStatement jump seen.eraseDups s d.kind).1 = (seen ++ s.varNames).eraseDups := by
  obtain ⟨jump', hexpression, hvars, -⟩ := encodeStatement_eq hd jump seen.eraseDups
  rw [hvars]
  refine vars_encodeParameters ?_ seen
  intro p hp htype
  by_cases hkind : s.kind? = some .expression
  · exact Or.inl (hexpression hkind)
  · rw [Statement.emitted, if_neg hkind] at hp
    exact Or.inr (hlabels hkind p hp htype)

/-- A node adds the names of its command, if it is executed. -/
theorem vars_emitNode {t : Tree} {placed : Nat × Nat}
    (hlabels : (t.statement placed.1).isExecutable = true → (t.statement placed.1).KeepsLabels)
    (l : Layout) {code : Code} {seen : List String} (hvars : code.vars = seen.eraseDups) :
    (t.emitNode l code placed).vars
      = (seen ++ if (t.statement placed.1).isExecutable then (t.statement placed.1).varNames
          else []).eraseDups := by
  unfold emitNode addEntry
  dsimp only
  cases hcommand : (t.statement placed.1).command with
  | none =>
      have hexec : (t.statement placed.1).isExecutable = false := by
        simp [Statement.isExecutable, Statement.kind?, hcommand]
      simp [hexec, hvars]
  | some d =>
      cases hexec : (t.statement placed.1).isExecutable with
      | true =>
          rw [hvars]
          exact vars_encodeStatement hcommand (hlabels hexec) _ seen
      | false => cases (t.statement placed.1).isAuxiliary <;> simp [Code.pushAuxiliary, hvars]

/-- The table holds the names that the executable nodes use, each where it comes first. -/
theorem vars_emit {t : Tree} (hlabels : ∀ id ∈ t.executables, (t.statement id).KeepsLabels) :
    (t.emit t.layout).vars = (t.executables.flatMap fun id => (t.statement id).varNames).eraseDups := by
  have run : ∀ (ids : List Nat) (start : Nat) (code : Code) (seen : List String),
      (∀ id ∈ ids, (t.statement id).isExecutable = true → (t.statement id).KeepsLabels) →
      code.vars = seen.eraseDups →
      ((t.positionsFrom start ids).foldl (t.emitNode t.layout) code).vars
        = (seen ++ (ids.filter fun id => (t.statement id).isExecutable).flatMap fun id =>
            (t.statement id).varNames).eraseDups := by
    intro ids
    induction ids with
    | nil =>
        intro start code seen hlabels hvars
        simpa [positionsFrom] using hvars
    | cons id ids ih =>
        intro start code seen hlabels hvars
        obtain ⟨hid, hlabels⟩ := List.forall_mem_cons.mp hlabels
        have hnode := @vars_emitNode t (id, start) hid t.layout code seen hvars
        rw [positionsFrom, List.foldl_cons, ih _ _ _ hlabels hnode]
        cases hexec : (t.statement id).isExecutable <;> simp [hexec]
  refine run t.preorder 0 {} [] (fun id hid hexec => ?_) rfl
  exact hlabels id (List.mem_filter.mpr ⟨hid, hexec⟩)

/-! ### Positions of names -/

/-- A parameter that stays a variable holds the position of its name. -/
theorem position_encodeParameter {jump : Option Nat} {vars : List String} {p : Parameter} {name : String}
    (hname : p.varName? = some name) (hvar : (encodeParameter jump vars p).2.dataType = .var)
    {final : List String} (h : (encodeParameter jump vars p).1 <+: final) :
    ∃ i : Nat, (encodeParameter jump vars p).2.value = .int (Number.ofCount i) ∧
      final[i]? = some name := by
  unfold encodeParameter at hvar h ⊢
  cases hjump : (if p.slot.type = .labelNumber then jump else none) with
  | some position =>
      rw [hjump] at hvar
      cases hvar
  | none =>
      simp only [hjump, hname] at h ⊢
      refine ⟨_, rfl, ?_⟩
      have hfinal : final.idxOf? name = some (internVar vars name).2 :=
        h.findIdx?_eq_some (idxOf?_internVar vars name)
      obtain ⟨hlt, heq, -⟩ := List.idxOf?_eq_some_iff.mp hfinal
      rw [List.getElem?_eq_getElem hlt, heq]

theorem exists_encodeParameter {jump : Option Nat} {vars : List String} {ps : List Parameter} {k : Nat}
    {q : CodeParameter} (h : (encodeParameters jump vars ps).2[k]? = some q) :
    ∃ p vars', ps[k]? = some p ∧ (encodeParameter jump vars' p).2 = q ∧
      (encodeParameter jump vars' p).1 <+: (encodeParameters jump vars ps).1 := by
  induction ps generalizing vars k with
  | nil => simp [encodeParameters] at h
  | cons p ps ih =>
      cases k with
      | zero => exact ⟨p, vars, rfl, Option.some.inj h, isPrefix_encodeParameters _ _ _⟩
      | succ k => exact ih h

/-- What a command holds for a variable leads to the name of the variable. -/
theorem Emitted.exists_name {t : Tree} {l : Layout} {vars : List String} {c : Command}
    {placed : Nat × Nat} (h : t.Emitted l vars c placed)
    (hnames : ∀ p ∈ (t.statement placed.1).emitted, p.dataType = .var → ∃ name, p.varName? = some name)
    {k : Nat} {q : CodeParameter} (hq : c.parameters[k]? = some q) (hvar : q.dataType = .var) :
    ∃ (p : Parameter) (name : String) (i : Nat), (t.statement placed.1).emitted[k]? = some p ∧
      p.varName? = some name ∧ q.value = .int (Number.ofCount i) ∧ vars[i]? = some name := by
  obtain ⟨d, before, hd, heq, hprefix⟩ := h.interned
  obtain ⟨jump, -, hvars, hparameters⟩ := encodeStatement_eq hd c.jump before
  rw [show c.parameters = _ from (congrArg Prod.fst heq).trans hparameters] at hq
  obtain ⟨p, vars', hp, rfl, hgrows⟩ := exists_encodeParameter hq
  rw [hvars] at hprefix
  have htype : p.dataType = .var := by
    rcases encodeParameter_cases jump vars' p with ⟨-, hinteger⟩ | ⟨htype, -⟩
    · rw [hinteger] at hvar
      cases hvar
    · rw [← htype, hvar]
  obtain ⟨name, hname⟩ := hnames p (List.mem_of_getElem? hp) htype
  obtain ⟨i, hvalue, hi⟩ := position_encodeParameter hname hvar (hgrows.trans hprefix)
  exact ⟨p, name, i, hp, hname, hvalue, hi⟩

end Tree

end MissionScript
