import MissionScript.Proofs.Compile.Totality
import MissionScript.Proofs.Script.OpenBlocks
import MissionScript.Proofs.Statement.Origin
import Mathlib.Data.List.Forall2

/-!
# MissionScript.Proofs.Script.Constructs

The constructs that a script leaves open, told from the parts that its lines play.

An `if` or a loop opens a construct, an `else if` or `else` continues the innermost one while its latest
branch lets it, and `end` ends the innermost one (`Construct.next`). The reader keeps the node of the
latest branch instead, and finds the line that opened the construct by going back from branch to
branch. Both agree after every line (`Tracks.insert`): the branches of a construct are neighbours
because a branch is placed right after the one that it continues, whatever stands inside it. So what is
reported for the blocks without end is reported on the lines that open the constructs
(`missingEnds_readLines`).
-/

namespace MissionScript

/-- Does the command open a construct of its own? -/
def Flow.opensConstruct : Flow → Bool
  | .ifBlock | .whileLoop | .forLoop | .foreachLoop => true
  | _ => false

/-- Is the problem that of a block without end? -/
def Problem.isMissingEnd : Problem → Bool
  | .missingEnd _ => true
  | _ => false

/-- A construct that has not been ended yet. -/
structure Construct where
  /-- The number of the line that opens it. -/
  line : Nat
  /-- The text of that line. -/
  text : String
  /-- The part that its latest branch plays. -/
  branch : Flow

namespace Construct

/-- The open constructs after a line, the innermost first. -/
def next (opened : List Construct) (line : Nat) (text : String) (f : Flow) : List Construct :=
  match f with
  | .ifBlock | .whileLoop | .forLoop | .foreachLoop => ⟨line, text, f⟩ :: opened
  | .elseIfBlock | .elseBlock =>
    match opened with
    | c :: outer =>
      if c.branch = .ifBlock ∨ c.branch = .elseIfBlock then { c with branch := f } :: outer
      else c :: outer
    | [] => []
  | .blockEnd => opened.tail
  | _ => opened

/-- The problem of a construct without end, on the line that opens it. -/
def missingEnd (c : Construct) : Diagnostic :=
  ⟨.missingEnd (Text.trim c.text), c.line, Statement.leadingBlanks c.text,
    Statement.trimmedLength c.text⟩

end Construct

/-- The constructs that the lines of a script leave open, the innermost first. -/
def Language.openConstructs (lang : Language) (lines : List String) : List Construct :=
  (lines.zipIdx 1).foldl
    (fun opened l => Construct.next opened l.2 l.1 (lang.readLine l.2 l.1).1.flow) []

/-! ### Constructs are opened by lines -/

/-- A line leaves open what was open, perhaps with another branch, and what it opens itself. -/
theorem Construct.of_mem_next {opened : List Construct} {line : Nat} {text : String} {f : Flow}
    {c : Construct} (h : c ∈ next opened line text f) :
    (∃ c' ∈ opened, c.line = c'.line ∧ c.text = c'.text) ∨
      c.line = line ∧ c.text = text ∧ f.opensConstruct = true := by
  have old : c ∈ opened → (∃ c' ∈ opened, c.line = c'.line ∧ c.text = c'.text) ∨
      c.line = line ∧ c.text = text ∧ f.opensConstruct = true := fun hmem =>
    Or.inl ⟨c, hmem, rfl, rfl⟩
  cases f with
  | ifBlock | whileLoop | forLoop | foreachLoop =>
      rcases List.mem_cons.mp h with rfl | hmem
      · exact Or.inr ⟨rfl, rfl, rfl⟩
      · exact old hmem
  | elseIfBlock | elseBlock =>
      cases opened with
      | nil => cases h
      | cons top outer =>
          simp only [next] at h
          split at h
          · rcases List.mem_cons.mp h with rfl | hmem
            · exact Or.inl ⟨top, List.mem_cons_self, rfl, rfl⟩
            · exact old (List.mem_cons_of_mem _ hmem)
          · exact old h
  | blockEnd => exact old (List.mem_of_mem_tail h)
  | plain | skip | breakLoop | continueLoop | goto | gosub | finish => exact old h

/-- An open construct is opened by one of the lines, and that line is an `if` or a loop. -/
theorem Language.of_mem_openConstructs {lang : Language} {lines : List String} {c : Construct}
    (h : c ∈ lang.openConstructs lines) :
    0 < c.line ∧ lines[c.line - 1]? = some c.text ∧
      (lang.readLine c.line c.text).1.flow.opensConstruct = true := by
  have hopened : ∀ c ∈ lang.openConstructs lines, (c.text, c.line) ∈ lines.zipIdx 1 ∧
      (lang.readLine c.line c.text).1.flow.opensConstruct = true := by
    refine List.foldlRecOn (motive := fun opened : List Construct => ∀ c ∈ opened,
      (c.text, c.line) ∈ lines.zipIdx 1 ∧
        (lang.readLine c.line c.text).1.flow.opensConstruct = true)
      (lines.zipIdx 1) _ (by simp) ?_
    intro opened ih l hl c hc
    rcases Construct.of_mem_next hc with ⟨c', hc', hline, htext⟩ | ⟨hline, htext, hopens⟩
    · rw [hline, htext]
      exact ih c' hc'
    · rw [hline, htext]
      exact ⟨hl, hopens⟩
  obtain ⟨hmem, hopens⟩ := hopened c h
  obtain ⟨hle, hget⟩ := List.mk_mem_zipIdx_iff_le_and_getElem?_sub.mp hmem
  exact ⟨hle, hget, hopens⟩

/-- No open block stands in a `skip if`. -/
theorem Tree.OpenPath.flow_parent {t : Tree} {blocks : List Nat} (h : t.OpenPath blocks) {b w : Nat}
    (hb : b ∈ blocks) (hparent : (t.node b).parent = some w) (hpos : 0 < w) : t.flow w ≠ .skip := by
  induction blocks with
  | nil => cases hb
  | cons top outer ih =>
      rcases List.mem_cons.mp hb with rfl | hmem
      · obtain rfl : ownerOf outer = w := Option.some.inj (h.parent_eq.symm.trans hparent)
        exact h.tail.flow_owner hpos
      · exact ih h.tail hmem

/-! ### Going back to the line that opens a construct -/

namespace Script

open MissionScript.Tree

variable {lang : Language} {t : Tree} {p : Nat} {st : Statement}

/-- What is added later does not change where a construct begins. -/
theorem opener_eq_of_grows {t' : Tree} (h : t.Grows t') {id : Nat} (hid : id < t.size) :
    opener t' id = opener t id := by
  induction id using Nat.strongRecOn with
  | ind id ih =>
      rw [opener, opener, h.flow_eq hid, h.previousSibling?_eq hid]
      split
      · split
        · split
          · next hlt => exact ih _ hlt (by omega)
          · rfl
        · rfl
      · rfl

/-- A new node that opens a construct begins it. -/
theorem opener_place_size (h : st.flow.opensConstruct = true) :
    opener (place t p st) t.size = t.size := by
  rw [opener, flow_place_size, if_neg]
  rintro (heq | heq) <;> rw [heq] at h <;> cases h

/-- A new branch belongs to the construct of the node that it is placed behind. -/
theorem opener_place_branch (hp : p < t.size) {top : Nat} (htop : (t.children p).getLast? = some top)
    (h : st.flow = .elseIfBlock ∨ st.flow = .elseBlock) :
    opener (place t p st) t.size = opener t top := by
  have hlt := (mem_children.mp (List.mem_of_getLast? htop)).1
  have hchildren : (place t p st).children p = t.children p ++ t.size :: [] := by
    rw [children_place hp, if_pos rfl]
  rw [opener, flow_place_size, if_pos h, previousSibling?_of_children hchildren, htop]
  dsimp only
  rw [if_pos hlt, opener_eq_of_grows grows_place hlt]

/-- The node is the latest branch of a construct, and the line that opens the construct is found from
it. -/
structure IsBranch (lang : Language) (t : Tree) (b : Nat) (c : Construct) : Prop where
  flow_eq : t.flow b = c.branch
  opener_eq : t.statement (opener t b) = (lang.readLine c.line c.text).1

theorem IsBranch.kept {b : Nat} {c : Construct} (h : IsBranch lang t b c) (hb : b < t.size) :
    IsBranch lang (place t p st) b c := by
  have hle := (opener_spec t b).1
  constructor
  · rw [grows_place.flow_eq hb, h.flow_eq]
  · rw [opener_eq_of_grows grows_place hb, grows_place.statement_eq _ (by omega), h.opener_eq]

/-- A new node that opens a construct is its first branch. -/
theorem isBranch_place_size {line : Nat} {text : String} (hst : st = (lang.readLine line text).1)
    (h : st.flow.opensConstruct = true) :
    IsBranch lang (place t p st) t.size ⟨line, text, st.flow⟩ := by
  refine ⟨flow_place_size, ?_⟩
  rw [opener_place_size h, Tree.statement, node_place_size]
  exact hst

/-- A new branch is the latest one of the construct whose branch it is placed behind. -/
theorem IsBranch.extended {top : Nat} {c : Construct} (hc : IsBranch lang t top c)
    (hp : p < t.size) (htop : (t.children p).getLast? = some top)
    (h : st.flow = .elseIfBlock ∨ st.flow = .elseBlock) :
    IsBranch lang (place t p st) t.size { c with branch := st.flow } := by
  have hlt := (mem_children.mp (List.mem_of_getLast? htop)).1
  have hle := (opener_spec t top).1
  refine ⟨flow_place_size, ?_⟩
  rw [opener_place_branch hp htop h, grows_place.statement_eq _ (by omega)]
  exact hc.opener_eq

theorem forall₂_place {blocks : List Nat} {opened : List Construct}
    (h : List.Forall₂ (IsBranch lang t) blocks opened) (hlt : ∀ b ∈ blocks, b < t.size) :
    List.Forall₂ (IsBranch lang (place t p st)) blocks opened := by
  induction h with
  | nil => exact .nil
  | cons hb _ ih =>
      obtain ⟨hhead, htail⟩ := List.forall_mem_cons.mp hlt
      exact .cons (hb.kept hhead) (ih htail)

/-! ### The reader keeps track of the constructs -/

/-- The open blocks of a script are the latest branches of the open constructs. -/
structure Tracks (lang : Language) (s : Script) (opened : List Construct) : Prop where
  sound : s.tree.Sound
  path : s.tree.OpenPath s.blocks
  waits : ∀ w, s.waiting = some w → 0 < w ∧ w < s.tree.size ∧ s.tree.flow w = .skip
  branches : List.Forall₂ (IsBranch lang s.tree) s.blocks opened

namespace Tracks

variable {s : Script} {opened : List Construct}

theorem empty (lang : Language) : Tracks lang {} [] where
  sound := sound_empty
  path := trivial
  waits w hw := by cases hw
  branches := .nil

theorem lt_size (h : Tracks lang s opened) : ∀ b ∈ s.blocks, b < s.tree.size := fun _ hb =>
  (h.path.mem_bounds hb).2.1

/-- The construct that a branch continues is the one whose latest branch is the innermost block. -/
theorem continuesBranch_iff {top : Nat} {outer : List Nat} {c : Construct}
    (hblocks : s.blocks = top :: outer) (hc : IsBranch lang s.tree top c) :
    s.continuesBranch = true ↔ c.branch = .ifBlock ∨ c.branch = .elseIfBlock := by
  simp [continuesBranch, hblocks, hc.flow_eq]

/-- A branch that continues the innermost construct becomes its latest one. -/
theorem next_of_continues (h : Tracks lang s opened) (hc : s.continuesBranch = true) (line : Nat)
    (text : String) {f : Flow} (hflow : f = .elseIfBlock ∨ f = .elseBlock) :
    ∃ top outer c rest, s.blocks = top :: outer ∧ opened = c :: rest ∧ IsBranch lang s.tree top c ∧
      Construct.next opened line text f = { c with branch := f } :: rest := by
  obtain ⟨top, outer, hblocks, -⟩ := exists_top_of_continuesBranch hc
  have hbranches := h.branches
  rw [hblocks] at hbranches
  obtain ⟨c, rest, hbranch, -, rfl⟩ := List.forall₂_cons_left_iff.mp hbranches
  refine ⟨top, outer, c, rest, hblocks, rfl, hbranch, ?_⟩
  rcases hflow with rfl | rfl <;> exact if_pos ((continuesBranch_iff hblocks hbranch).mp hc)

/-- A branch that continues no construct leaves them as they are. -/
theorem next_of_not_continues (h : Tracks lang s opened) (hc : s.continuesBranch = false) (line : Nat)
    (text : String) {f : Flow} (hflow : f = .elseIfBlock ∨ f = .elseBlock) :
    Construct.next opened line text f = opened := by
  have hbranches := h.branches
  cases hblocks : s.blocks with
  | nil =>
      rw [hblocks] at hbranches
      cases hbranches
      rcases hflow with rfl | rfl <;> rfl
  | cons top outer =>
      rw [hblocks] at hbranches
      obtain ⟨c, rest, hbranch, -, rfl⟩ := List.forall₂_cons_left_iff.mp hbranches
      have hnot : ¬ (c.branch = .ifBlock ∨ c.branch = .elseIfBlock) := by
        rw [← continuesBranch_iff hblocks hbranch, hc]
        exact Bool.false_ne_true
      rcases hflow with rfl | rfl <;> exact if_neg hnot

/-- After a branch, the open blocks are the latest branches. -/
theorem branches_of_branch (h : Tracks lang s opened) (line : Nat) (text : String)
    (hflow : st.flow = .elseIfBlock ∨ st.flow = .elseBlock) :
    List.Forall₂ (IsBranch lang (place s.tree (ownerOf (s.base st.flow)) st))
      (if s.opens st.flow then s.tree.size :: s.base st.flow else s.base st.flow)
      (Construct.next opened line text st.flow) := by
  have howner := (openPath_base h.path st.flow).owner_lt h.sound
  have hkept : List.Forall₂ (IsBranch lang (place s.tree (ownerOf (s.base st.flow)) st)) s.blocks
      opened := forall₂_place h.branches h.lt_size
  rw [opens_of_branch s hflow]
  rw [base_of_branch s hflow] at howner hkept ⊢
  cases hc : s.continuesBranch with
  | false =>
      rw [hc, if_neg Bool.false_ne_true] at hkept
      rw [h.next_of_not_continues hc line text hflow, if_neg Bool.false_ne_true,
        if_neg Bool.false_ne_true]
      exact hkept
  | true =>
      obtain ⟨top, outer, c, rest, hblocks, rfl, hbranch, hnext⟩ :=
        h.next_of_continues hc line text hflow
      have hpath := h.path
      rw [hc, if_pos rfl, hblocks, List.tail_cons] at howner hkept
      rw [hblocks] at hpath
      rw [hnext, if_pos rfl, if_pos rfl, hblocks, List.tail_cons]
      exact .cons (hbranch.extended howner hpath.1 hflow) (List.forall₂_cons.mp hkept).2

/-- After a line that goes into a block, the open blocks are again the latest branches. -/
theorem branches_insertInBlock (h : Tracks lang s opened) {line : Nat} {text : String}
    (hst : st = (lang.readLine line text).1) :
    List.Forall₂ (IsBranch lang (s.insertInBlock st).tree) (s.insertInBlock st).blocks
      (Construct.next opened line text st.flow) := by
  rw [insertInBlock_eq]
  dsimp only
  by_cases hbranch : st.flow = .elseIfBlock ∨ st.flow = .elseBlock
  · exact h.branches_of_branch line text hbranch
  · have hkept : List.Forall₂ (IsBranch lang (place s.tree (ownerOf (s.base st.flow)) st)) s.blocks
        opened := forall₂_place h.branches h.lt_size
    cases hflow : st.flow with
    | ifBlock | whileLoop | forLoop | foreachLoop =>
        rw [hflow] at hkept
        have hnew := isBranch_place_size (t := s.tree) (p := ownerOf s.blocks) hst
          (by rw [hflow]; rfl)
        rw [hflow] at hnew
        exact .cons hnew hkept
    | elseIfBlock | elseBlock => exact absurd (by rw [hflow]; simp) hbranch
    | blockEnd =>
        rw [hflow] at hkept
        have htail := List.forall₂_drop 1 hkept
        rw [List.drop_one, List.drop_one] at htail
        exact htail
    | plain | skip | breakLoop | continueLoop | goto | gosub | finish =>
        rw [hflow] at hkept
        exact hkept

/-- A line that goes into a block keeps the reader on track. -/
theorem insertInBlock (h : Tracks lang s opened) {line : Nat} {text : String}
    (hst : st = (lang.readLine line text).1) :
    Tracks lang (s.insertInBlock st) (Construct.next opened line text st.flow) := by
  have hpath := openPath_base h.path st.flow
  have howner := hpath.owner_lt h.sound
  have hplaced : (place s.tree (ownerOf (s.base st.flow)) st).OpenPath (s.base st.flow) :=
    openPath_place hpath howner fun b hb => hpath.parent_ne_owner h.sound hb
  refine ⟨?_, ?_, ?_, h.branches_insertInBlock hst⟩ <;> rw [insertInBlock_eq] <;> dsimp only
  · exact sound_place h.sound howner
  · split
    · next hopens =>
      refine ⟨?_, by rw [flow_place_size]; exact opensBlock_of_opens hopens, hplaced⟩
      rw [children_place howner, if_pos rfl, List.getLast?_concat]
    · exact hplaced
  · intro w hw
    rw [size_place]
    split at hw
    · next hskip =>
      cases hw
      rw [flow_place_size]
      exact ⟨h.sound.size_pos, by omega, hskip⟩
    · obtain ⟨hpos, hlt, hflow⟩ := h.waits w hw
      rw [grows_place.flow_eq hlt]
      exact ⟨hpos, by omega, hflow⟩

/-- The command of a `skip if` leaves the open blocks as they are. -/
theorem placeSkipped (h : Tracks lang s opened) {w : Nat} (hw : s.waiting = some w) :
    Tracks lang { s with tree := place s.tree w st, waiting := none } opened := by
  obtain ⟨hpos, hlt, hflow⟩ := h.waits w hw
  exact ⟨sound_place h.sound hlt,
    openPath_place h.path hlt fun b hb heq => h.path.flow_parent hb heq hpos hflow,
    fun w hw => (by cases hw), forall₂_place h.branches h.lt_size⟩

/-- What a `skip if` may own opens and ends nothing. -/
theorem next_of_isSkippable (h : isSkippable st = true) (line : Nat) (text : String) :
    Construct.next opened line text st.flow = opened := by
  unfold isSkippable at h
  cases hflow : st.flow <;> rw [hflow] at h <;> first | rfl | cases h

/-- Every line keeps the reader on track. -/
theorem insert (h : Tracks lang s opened) {line : Nat} {text : String}
    (hst : st = (lang.readLine line text).1) :
    Tracks lang (s.insert st) (Construct.next opened line text st.flow) := by
  unfold Script.insert
  split
  · exact h.insertInBlock hst
  · next w hw =>
    split
    · exact h.insertInBlock hst
    · dsimp only
      split
      · next hskippable =>
        rw [next_of_isSkippable hskippable]
        exact h.placeSkipped hw
      · exact insertInBlock (s := { s with waiting := none })
          ⟨h.sound, h.path, fun w hw => (by cases hw), h.branches⟩ hst

/-- After any number of lines the reader is on track. -/
theorem foldl (h : Tracks lang s opened) (numbered : List (String × Nat)) :
    Tracks lang (numbered.foldl (readLine lang) s)
      (numbered.foldl (fun opened l => Construct.next opened l.2 l.1 (lang.readLine l.2 l.1).1.flow)
        opened) := by
  induction numbered generalizing s opened with
  | nil => exact h
  | cons l rest ih =>
      have hinsert : Tracks lang (s.insert (lang.readLine l.2 l.1).1)
          (Construct.next opened l.2 l.1 (lang.readLine l.2 l.1).1.flow) := h.insert rfl
      exact ih ⟨hinsert.sound, hinsert.path, hinsert.waits, hinsert.branches⟩

end Tracks

theorem tracks_readLines (lang : Language) (lines : List String) :
    Tracks lang (readLines lang lines) (lang.openConstructs lines) :=
  (Tracks.empty lang).foldl (lines.zipIdx 1)

/-! ### What is reported -/

/-- What is reported for a branch that is not ended is what is to be reported for its construct. -/
theorem IsBranch.missingEnd_eq {b : Nat} {c : Construct} (h : IsBranch lang t b c)
    (hopens : (lang.readLine c.line c.text).1.flow.opensConstruct = true) :
    missingEnd t b = c.missingEnd := by
  have hplain : (lang.readLine c.line c.text).1.flow ≠ .plain := by
    intro heq
    rw [heq] at hopens
    cases hopens
  have hread := lang.readFrom_readLine c.line c.text
  have hlt := Statement.leadingBlanks_lt_trimmedLength (Language.trimStart_of_flow hplain)
  rw [missingEnd, h.opener_eq, hread.text_eq, hread.line_eq, hread.start_eq, hread.stop_eq,
    Nat.max_eq_left (Nat.le_of_lt hlt)]
  rfl

theorem map_missingEnd_blocks (lang : Language) (lines : List String) :
    (readLines lang lines).blocks.map (missingEnd (readLines lang lines).tree)
      = (lang.openConstructs lines).map Construct.missingEnd := by
  have hopened : List.Forall₂ (fun c b => (lang.readLine c.line c.text).1.flow.opensConstruct = true ∧
      IsBranch lang (readLines lang lines).tree b c)
      (lang.openConstructs lines) (readLines lang lines).blocks :=
    (List.forall₂_and_left _ _).mpr ⟨fun c hc => (Language.of_mem_openConstructs hc).2.2,
      (tracks_readLines lang lines).branches.flip⟩
  rw [← List.forall₂_eq_eq_eq, List.forall₂_map_left_iff, List.forall₂_map_right_iff]
  exact (hopened.imp fun c b h => h.2.missingEnd_eq h.1).flip

theorem isMissingEnd_eq_false {problem : Problem} (h : problem.isReading = true) :
    problem.isMissingEnd = false := by
  cases problem <;> first | rfl | cases h

/-- Of the problems with the lines of a script, those of blocks without end are one for each construct
that is left open, outermost first, on the line of the `if` or the loop that opens it. There is one
exactly when the script is unterminated. -/
theorem missingEnds_readLines (lang : Language) (lines : List String) :
    (readLines lang lines).problems.filter (·.problem.isMissingEnd)
        = (lang.openConstructs lines).reverse.map Construct.missingEnd ∧
      (∀ c ∈ lang.openConstructs lines, 0 < c.line ∧ lines[c.line - 1]? = some c.text ∧
        (lang.readLine c.line c.text).1.flow.opensConstruct = true) ∧
      ((readLines lang lines).isUnterminated = true ↔
        ∃ d ∈ (readLines lang lines).problems, d.problem.isMissingEnd = true) := by
  have hlines : (readLines lang lines).diagnostics.filter (·.problem.isMissingEnd) = [] := by
    refine List.filter_eq_nil_iff.mpr fun d hd => ?_
    simp [isMissingEnd_eq_false (isReading_of_mem_diagnostics hd)]
  have hproblems : (readLines lang lines).problems.filter (·.problem.isMissingEnd)
      = (lang.openConstructs lines).reverse.map Construct.missingEnd := by
    rw [problems, List.filter_append, hlines, List.nil_append, List.map_reverse,
      map_missingEnd_blocks, List.map_reverse, List.filter_eq_self]
    simp [Construct.missingEnd, Problem.isMissingEnd]
  refine ⟨hproblems, fun c hc => Language.of_mem_openConstructs hc, ?_⟩
  have hblocks : (readLines lang lines).blocks = [] ↔ lang.openConstructs lines = [] := by
    rw [← List.map_eq_nil_iff, map_missingEnd_blocks, List.map_eq_nil_iff]
  have hsome : (∃ d ∈ (readLines lang lines).problems, d.problem.isMissingEnd = true) ↔
      (readLines lang lines).problems.filter (·.problem.isMissingEnd) ≠ [] := by
    simp
  rw [hsome, hproblems, isUnterminated]
  simp [hblocks]

end Script

end MissionScript
