import MissionScript.Statement

/-!
# MissionScript.Proofs.Script.Outline

The block structure of scripts, as a grammar and as a stack machine.

* `Derives inLoop part ks` — the lines of the kinds `ks` form the given part of a script. The flag
  says whether the part stands in a loop, where `break` and `continue` are allowed.
* `Outline` — the blocks that are open and whether a `skip if` waits for its command. `Outline.step`
  reads one line and is undefined where a line does not fit.
* `accepts_iff_derives` — the machine gets through a script and ends with nothing open exactly when
  the script is a body of the grammar.
* `derives_insert_auxiliary_iff` — comments and empty lines may stand anywhere in a body.
-/

namespace MissionScript

/-! ### Kinds of lines

Only the kind of a line matters for the structure of a script. A line that is executed and neither
opens nor ends a block, nor leaves a loop, is plain. -/

/-- What a line does for the block structure. -/
inductive LineKind
  | auxiliary
  | plain
  /-- `break` and `continue`. -/
  | loopExit
  | ifLine
  | elseIfLine
  | elseLine
  | endLine
  | loopLine
  | skipLine
  deriving DecidableEq, Repr

/-- What a statement does for the block structure. -/
def LineKind.ofStatement (s : Statement) : LineKind :=
  if s.isAuxiliary then .auxiliary
  else match s.flow with
    | .ifBlock => .ifLine
    | .elseIfBlock => .elseIfLine
    | .elseBlock => .elseLine
    | .blockEnd => .endLine
    | .whileLoop | .forLoop | .foreachLoop => .loopLine
    | .skip => .skipLine
    | .breakLoop | .continueLoop => .loopExit
    | .plain | .goto | .gosub | .finish => .plain

/-! ### The grammar

A `skip if` takes exactly one simple command, after any number of comments and empty lines. All
other blocks have a body and an `end`. -/

/-- The parts of a script. -/
inductive Part
  | body
  | statement
  /-- What follows the body of an `if` or `else if`, up to the `end`. -/
  | branches
  deriving DecidableEq, Repr

/-- The commands that do not concern blocks; some are allowed in loops only. -/
inductive Simple : Bool → LineKind → Prop
  | plain {inLoop : Bool} : Simple inLoop .plain
  | loopExit : Simple true .loopExit

/-- The lines form the given part of a script, in a loop or not. -/
inductive Derives : Bool → Part → List LineKind → Prop
  | nil {inLoop : Bool} : Derives inLoop .body []
  | cons {inLoop : Bool} {xs ys : List LineKind} (hx : Derives inLoop .statement xs)
      (hy : Derives inLoop .body ys) : Derives inLoop .body (xs ++ ys)
  | auxiliary {inLoop : Bool} : Derives inLoop .statement [.auxiliary]
  | simple {inLoop : Bool} {k : LineKind} (hk : Simple inLoop k) : Derives inLoop .statement [k]
  | conditional {inLoop : Bool} {xs ys : List LineKind} (hx : Derives inLoop .body xs)
      (hy : Derives inLoop .branches ys) : Derives inLoop .statement (.ifLine :: xs ++ ys)
  | loop {inLoop : Bool} {xs : List LineKind} (hx : Derives true .body xs) :
      Derives inLoop .statement (.loopLine :: xs ++ [.endLine])
  | skip {inLoop : Bool} {k : LineKind} (n : Nat) (hk : Simple inLoop k) :
      Derives inLoop .statement (.skipLine :: List.replicate n .auxiliary ++ [k])
  | ending {inLoop : Bool} : Derives inLoop .branches [.endLine]
  | elseIf {inLoop : Bool} {xs ys : List LineKind} (hx : Derives inLoop .body xs)
      (hy : Derives inLoop .branches ys) : Derives inLoop .branches (.elseIfLine :: xs ++ ys)
  | otherwise {inLoop : Bool} {xs : List LineKind} (hx : Derives inLoop .body xs) :
      Derives inLoop .branches (.elseLine :: xs ++ [.endLine])

/-! ### The machine

The machine keeps a frame for each open block. The frame says which lines may continue the block,
and this is all that has to be remembered of the lines before. -/

/-- A block that is open. -/
inductive Frame
  /-- An `if` or `else if`, which another branch may follow. -/
  | branch
  /-- An `else`. -/
  | lastBranch
  | loop
  deriving DecidableEq, Repr

/-- The blocks that are open, the innermost first, and whether a `skip if` waits. -/
structure Outline where
  frames : List Frame := []
  waiting : Bool := false
  deriving DecidableEq, Repr

namespace Outline

/-- Reads a line while nothing waits. -/
def stepInBlock (frames : List Frame) : LineKind → Option Outline
  | .auxiliary | .plain => some { frames }
  | .loopExit => if .loop ∈ frames then some { frames } else none
  | .ifLine => some { frames := .branch :: frames }
  | .loopLine => some { frames := .loop :: frames }
  | .skipLine => some { frames, waiting := true }
  | .elseIfLine =>
    match frames with
    | .branch :: outer => some { frames := .branch :: outer }
    | _ => none
  | .elseLine =>
    match frames with
    | .branch :: outer => some { frames := .lastBranch :: outer }
    | _ => none
  | .endLine =>
    match frames with
    | _ :: outer => some { frames := outer }
    | [] => none

/-- Reads a line while a `skip if` waits. -/
def stepWaiting (frames : List Frame) : LineKind → Option Outline
  | .auxiliary => some { frames, waiting := true }
  | .plain => some { frames }
  | .loopExit => if .loop ∈ frames then some { frames } else none
  | _ => none

/-- Reads a line. -/
def step (o : Outline) (k : LineKind) : Option Outline :=
  if o.waiting then stepWaiting o.frames k else stepInBlock o.frames k

/-- Reads lines one by one. -/
def run (o : Outline) : List LineKind → Option Outline
  | [] => some o
  | k :: ks => (o.step k).bind (run · ks)

/-- Do the lines fit, with nothing left open? -/
def Accepts (o : Outline) (ks : List LineKind) : Prop := o.run ks = some {}

theorem run_cons {o o' : Outline} {k : LineKind} (h : o.step k = some o') (ks : List LineKind) :
    o.run (k :: ks) = o'.run ks := by
  rw [run, h, Option.bind_some]

theorem accepts_cons_iff {o : Outline} {k : LineKind} {ks : List LineKind} :
    o.Accepts (k :: ks) ↔ ∃ o', o.step k = some o' ∧ o'.Accepts ks := by
  rw [Accepts, run, Option.bind_eq_some_iff]
  rfl

/-! ### The machine reads what the grammar derives

By induction on the derivation, with any blocks open around the part: when the part has been read,
the same blocks are open. -/

@[simp] theorem step_in_block (frames : List Frame) (k : LineKind) :
    step ⟨frames, false⟩ k = stepInBlock frames k := rfl

@[simp] theorem step_waiting (frames : List Frame) (k : LineKind) :
    step ⟨frames, true⟩ k = stepWaiting frames k := rfl

theorem stepInBlock_simple {inLoop : Bool} {k : LineKind} (hk : Simple inLoop k)
    {frames : List Frame} (hloop : inLoop = true → Frame.loop ∈ frames) :
    stepInBlock frames k = some { frames } ∧ stepWaiting frames k = some { frames } := by
  cases hk with
  | plain => exact ⟨rfl, rfl⟩
  | loopExit => simp [stepInBlock, stepWaiting, hloop rfl]

theorem run_auxiliary (frames : List Frame) (n : Nat) (ks : List LineKind) :
    run ⟨frames, true⟩ (List.replicate n .auxiliary ++ ks) = run ⟨frames, true⟩ ks := by
  induction n with
  | zero => rfl
  | succ n ih =>
      rw [List.replicate_succ, List.cons_append, run_cons rfl]
      exact ih

/-- The blocks that are open after a part, when `frames` are open around it. -/
def entry (frames : List Frame) : Part → List Frame
  | .body | .statement => frames
  | .branches => .branch :: frames

/-- Whatever is open around a part, the machine reads through it. -/
theorem run_of_derives {inLoop : Bool} {part : Part} {xs : List LineKind}
    (h : Derives inLoop part xs) (frames : List Frame)
    (hloop : inLoop = true → Frame.loop ∈ frames) (rest : List LineKind) :
    run ⟨entry frames part, false⟩ (xs ++ rest) = run ⟨frames, false⟩ rest := by
  induction h generalizing frames rest with
  | nil => rfl
  | cons _ _ ihx ihy =>
      rw [List.append_assoc]
      exact (ihx frames hloop _).trans (ihy frames hloop rest)
  | auxiliary => exact run_cons rfl rest
  | simple hk => exact run_cons ((step_in_block _ _).trans (stepInBlock_simple hk hloop).1) rest
  | conditional _ _ ihx ihy =>
      have hloop' : _ = true → Frame.loop ∈ Frame.branch :: frames :=
        fun hin => List.mem_cons_of_mem _ (hloop hin)
      rw [List.cons_append, List.cons_append, run_cons rfl, List.append_assoc]
      exact (ihx (.branch :: frames) hloop' _).trans (ihy frames hloop rest)
  | loop _ ihx =>
      rw [List.cons_append, List.cons_append, run_cons rfl, List.append_assoc]
      exact (ihx (.loop :: frames) (fun _ => List.mem_cons_self) _).trans (run_cons rfl rest)
  | skip n hk =>
      rw [List.cons_append, List.cons_append, run_cons rfl, List.append_assoc, run_auxiliary]
      exact run_cons ((step_waiting _ _).trans (stepInBlock_simple hk hloop).2) rest
  | ending => exact run_cons rfl rest
  | elseIf _ _ ihx ihy =>
      have hloop' : _ = true → Frame.loop ∈ Frame.branch :: frames :=
        fun hin => List.mem_cons_of_mem _ (hloop hin)
      rw [List.cons_append, List.cons_append, run_cons rfl, List.append_assoc]
      exact (ihx (.branch :: frames) hloop' _).trans (ihy frames hloop rest)
  | otherwise _ ihx =>
      have hloop' : _ = true → Frame.loop ∈ Frame.lastBranch :: frames :=
        fun hin => List.mem_cons_of_mem _ (hloop hin)
      rw [List.cons_append, List.cons_append, run_cons rfl, List.append_assoc]
      exact (ihx (.lastBranch :: frames) hloop' _).trans (run_cons rfl rest)

/-! ### What the machine reads is derived

By induction on the lines: what completes the state after the first line, together with that line,
completes the state before it. -/

/-- The lines end the open blocks one after the other, and the rest of the script follows. -/
def Completes : List Frame → List LineKind → Prop
  | [], ks => Derives false .body ks
  | f :: frames, ks =>
    ∃ xs ys zs, ks = xs ++ ys ++ zs ∧ Derives (decide (Frame.loop ∈ f :: frames)) .body xs ∧
      (match f with
        | .branch => Derives (decide (Frame.loop ∈ frames)) .branches ys
        | .lastBranch | .loop => ys = [.endLine]) ∧
      Completes frames zs

/-- A statement may stand in front of what completes the open blocks. -/
theorem Completes.cons {frames : List Frame} {xs ks : List LineKind}
    (hx : Derives (decide (Frame.loop ∈ frames)) .statement xs) (h : Completes frames ks) :
    Completes frames (xs ++ ks) := by
  cases frames with
  | nil =>
      rw [Completes] at h ⊢
      exact Derives.cons hx h
  | cons f frames =>
      obtain ⟨ys, cs, zs, rfl, hy, hc, hz⟩ := h
      refine ⟨xs ++ ys, cs, zs, ?_, Derives.cons hx hy, hc, hz⟩
      simp only [List.append_assoc]

/-- An `if` opens a block that the rest completes. -/
theorem Completes.open_branch {frames : List Frame} {ks : List LineKind}
    (h : Completes (.branch :: frames) ks) : Completes frames (.ifLine :: ks) := by
  obtain ⟨xs, ys, zs, rfl, hx, hy, hz⟩ := h
  have hin : decide (Frame.loop ∈ Frame.branch :: frames) = decide (Frame.loop ∈ frames) := by simp
  rw [hin] at hx
  exact hz.cons (Derives.conditional hx hy)

theorem Completes.open_loop {frames : List Frame} {ks : List LineKind}
    (h : Completes (.loop :: frames) ks) : Completes frames (.loopLine :: ks) := by
  obtain ⟨xs, ys, zs, rfl, hx, rfl, hz⟩ := h
  have hin : decide (Frame.loop ∈ Frame.loop :: frames) = true := by simp
  rw [hin] at hx
  exact hz.cons (Derives.loop hx)

/-- A body may be empty, so a branch can be followed by the next one at once. -/
theorem Completes.open_elseIf {frames : List Frame} {ks : List LineKind}
    (h : Completes (.branch :: frames) ks) : Completes (.branch :: frames) (.elseIfLine :: ks) := by
  obtain ⟨xs, ys, zs, rfl, hx, hy, hz⟩ := h
  have hin : decide (Frame.loop ∈ Frame.branch :: frames) = decide (Frame.loop ∈ frames) := by simp
  rw [hin] at hx
  exact ⟨[], _, zs, rfl, Derives.nil, Derives.elseIf hx hy, hz⟩

theorem Completes.open_else {frames : List Frame} {ks : List LineKind}
    (h : Completes (.lastBranch :: frames) ks) :
    Completes (.branch :: frames) (.elseLine :: ks) := by
  obtain ⟨xs, ys, zs, rfl, hx, rfl, hz⟩ := h
  have hin : decide (Frame.loop ∈ Frame.lastBranch :: frames) = decide (Frame.loop ∈ frames) := by
    simp
  rw [hin] at hx
  exact ⟨[], _, zs, rfl, Derives.nil, Derives.otherwise hx, hz⟩

theorem Completes.close {f : Frame} {frames : List Frame} {ks : List LineKind}
    (h : Completes frames ks) : Completes (f :: frames) (.endLine :: ks) := by
  refine ⟨[], [.endLine], ks, rfl, Derives.nil, ?_, h⟩
  cases f with
  | branch => exact Derives.ending
  | lastBranch => rfl
  | loop => rfl

/-- What is still to come in a state of the machine. -/
def Expects (o : Outline) (ks : List LineKind) : Prop :=
  if o.waiting then
    ∃ n k rest, ks = List.replicate n .auxiliary ++ k :: rest ∧
      Simple (decide (Frame.loop ∈ o.frames)) k ∧ Completes o.frames rest
  else Completes o.frames ks

theorem expects_of_stepWaiting {frames : List Frame} {k : LineKind} {o : Outline}
    {ks : List LineKind} (hstep : stepWaiting frames k = some o) (h : o.Expects ks) :
    Expects ⟨frames, true⟩ (k :: ks) := by
  cases k with
  | auxiliary =>
      cases hstep
      obtain ⟨n, k, rest, rfl, hk, hrest⟩ := h
      exact ⟨n + 1, k, rest, rfl, hk, hrest⟩
  | plain =>
      cases hstep
      exact ⟨0, .plain, ks, rfl, Simple.plain, h⟩
  | loopExit =>
      by_cases hin : Frame.loop ∈ frames
      · rw [stepWaiting, if_pos hin] at hstep
        cases hstep
        refine ⟨0, .loopExit, ks, rfl, ?_, h⟩
        simp only [hin, decide_true]
        exact Simple.loopExit
      · rw [stepWaiting, if_neg hin] at hstep
        cases hstep
  | ifLine | elseIfLine | elseLine | endLine | loopLine | skipLine => cases hstep

theorem expects_of_stepInBlock {frames : List Frame} {k : LineKind} {o : Outline}
    {ks : List LineKind} (hstep : stepInBlock frames k = some o) (h : o.Expects ks) :
    Completes frames (k :: ks) := by
  cases k with
  | auxiliary =>
      cases hstep
      exact Completes.cons Derives.auxiliary h
  | plain =>
      cases hstep
      exact Completes.cons (Derives.simple Simple.plain) h
  | loopExit =>
      by_cases hin : Frame.loop ∈ frames
      · rw [stepInBlock, if_pos hin] at hstep
        cases hstep
        have hk : Simple (decide (Frame.loop ∈ frames)) .loopExit := by
          simp only [hin, decide_true]
          exact Simple.loopExit
        exact Completes.cons (Derives.simple hk) h
      · rw [stepInBlock, if_neg hin] at hstep
        cases hstep
  | ifLine =>
      cases hstep
      exact Completes.open_branch h
  | loopLine =>
      cases hstep
      exact Completes.open_loop h
  | skipLine =>
      cases hstep
      -- the `skip if` has its command after some auxiliary lines
      obtain ⟨n, k, rest, rfl, hk, hrest⟩ := h
      have hskip := Completes.cons (Derives.skip n hk) hrest
      simpa only [List.append_assoc, List.cons_append, List.nil_append] using hskip
  | elseIfLine =>
      match frames, hstep with
      | .branch :: frames, hstep =>
          -- only a branch can be continued
          cases hstep
          exact Completes.open_elseIf h
  | elseLine =>
      match frames, hstep with
      | .branch :: frames, hstep =>
          cases hstep
          exact Completes.open_else h
  | endLine =>
      match frames, hstep with
      | f :: frames, hstep =>
          cases hstep
          exact Completes.close h

theorem expects_of_accepts {o : Outline} {ks : List LineKind} (h : o.Accepts ks) :
    o.Expects ks := by
  induction ks generalizing o with
  | nil =>
      cases h
      exact Derives.nil
  | cons k ks ih =>
      obtain ⟨o', hstep, hrest⟩ := accepts_cons_iff.mp h
      obtain ⟨frames, waiting⟩ := o
      cases waiting with
      | true => exact expects_of_stepWaiting hstep (ih hrest)
      | false => exact expects_of_stepInBlock hstep (ih hrest)

/-- The machine accepts exactly the bodies of the grammar. -/
theorem accepts_iff_derives {ks : List LineKind} :
    Accepts {} ks ↔ Derives false .body ks := by
  constructor
  · exact expects_of_accepts
  · intro h
    have hrun := run_of_derives h [] (fun hin => by cases hin) []
    rw [List.append_nil] at hrun
    exact hrun

/-! ### Comments and empty lines -/

theorem step_auxiliary (o : Outline) : o.step .auxiliary = some o := by
  obtain ⟨frames, waiting⟩ := o
  cases waiting with
  | true => rfl
  | false => rfl

/-- Nothing waits for the number of comments and empty lines, a `skip if` included. -/
theorem run_insert_auxiliary (o : Outline) (ks ks' : List LineKind) :
    o.run (ks ++ .auxiliary :: ks') = o.run (ks ++ ks') := by
  induction ks generalizing o with
  | nil => exact run_cons (step_auxiliary o) ks'
  | cons k ks ih =>
      rw [List.cons_append, List.cons_append, run, run]
      exact congrArg _ (funext ih)

end Outline

/-- Comments and empty lines may stand anywhere in a body. -/
theorem derives_insert_auxiliary_iff {ks ks' : List LineKind} :
    Derives false .body (ks ++ .auxiliary :: ks') ↔ Derives false .body (ks ++ ks') := by
  rw [← Outline.accepts_iff_derives, ← Outline.accepts_iff_derives, Outline.Accepts,
    Outline.Accepts, Outline.run_insert_auxiliary]

end MissionScript
