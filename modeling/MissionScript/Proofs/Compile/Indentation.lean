import MissionScript.Proofs.Compile.ReportedLines
import MissionScript.Proofs.Lowering.Displacement
import MissionScript.Proofs.Script.Indentation

/-!
# MissionScript.Proofs.Compile.Indentation

How far the lines of a script are indented does not matter.

In an indented script the same problems are found in the same order (`forall₂_problems`), and it remains
to see that they are sorted alike. Only the order of those matters that are on one line, and there at most
the first one has stayed where it was (`before_eq_of_shifted`). Hence the same is reported
(`forall₂_sorted`), and as the trees say the same, the code is the same (`compile_reindented`).
-/

namespace MissionScript

open Text MissionScript.Tree
open Diagnostic (Same Settled Shifted)

/-! ### Sorting in parallel

Sorting is stable, so of two elements it only asks whether the one that stands first in the list may come
before the other. Two lists whose elements compare alike in this order are sorted alike, even where the
opposite comparisons differ. They do here: of two problems at the beginning of a line, the one that was
found first may stay there while the other one moves along with the text. -/

section

variable {α β : Type} {le : α → α → Bool}

/-- The first element of a list is sorted in behind those it may not come before, and in front of those it
may come before. -/
theorem exists_split_mergeSort_cons (htrans : ∀ a b c, le a b = true → le b c = true → le a c = true)
    (htotal : ∀ a b, (le a b || le b a) = true) (x : α) (xs : List α) :
    ∃ first second, (x :: xs).mergeSort le = first ++ x :: second ∧
      xs.mergeSort le = first ++ second ∧ (∀ y ∈ first, le x y = false) ∧
      ∀ y ∈ second, le x y = true := by
  obtain ⟨first, second, hsort, hrest, hfirst⟩ := List.mergeSort_cons htrans htotal x xs
  have hsorted := List.pairwise_mergeSort htrans htotal (x :: xs)
  rw [hsort, List.pairwise_append, List.pairwise_cons] at hsorted
  exact ⟨first, second, hsort, hrest, fun y hy => by simpa using hfirst y hy, hsorted.2.1.1⟩

/-- A list is cut in one way only into elements with a property and elements without it. -/
theorem append_inj_of_forall {p : α → Prop} {as bs as' bs' : List α} (h : as ++ bs = as' ++ bs')
    (ha : ∀ x ∈ as, p x) (hb : ∀ x ∈ bs, ¬ p x) (ha' : ∀ x ∈ as', p x) (hb' : ∀ x ∈ bs', ¬ p x) :
    as = as' ∧ bs = bs' := by
  -- what one cut has more in front than the other has the property and does not have it
  have hnone : ∀ cs : List α, (∀ x ∈ cs, p x) → (∀ x ∈ cs, ¬ p x) → cs = [] := fun cs hp hn =>
    List.eq_nil_iff_forall_not_mem.mpr fun x hx => hn x hx (hp x hx)
  rcases List.append_eq_append_iff.mp h with ⟨cs, rfl, rfl⟩ | ⟨cs, rfl, rfl⟩
  · obtain rfl := hnone cs (fun x hx => ha' x (List.mem_append_right _ hx))
      fun x hx => hb x (List.mem_append_left _ hx)
    simp
  · obtain rfl := hnone cs (fun x hx => ha x (List.mem_append_right _ hx))
      fun x hx => hb' x (List.mem_append_left _ hx)
    simp

/-- Sorting commutes with a map that keeps the results of the comparisons that it makes: those of an
element with the elements behind it. -/
theorem map_mergeSort_of_pairwise {le' : β → β → Bool} {f : α → β}
    (htrans : ∀ a b c, le a b = true → le b c = true → le a c = true)
    (htotal : ∀ a b, (le a b || le b a) = true)
    (htrans' : ∀ a b c, le' a b = true → le' b c = true → le' a c = true)
    (htotal' : ∀ a b, (le' a b || le' b a) = true) {xs : List α}
    (h : xs.Pairwise fun x y => le x y = le' (f x) (f y)) :
    (xs.mergeSort le).map f = (xs.map f).mergeSort le' := by
  induction xs with
  | nil => simp
  | cons x xs ih =>
      obtain ⟨hx, hxs⟩ := List.pairwise_cons.mp h
      obtain ⟨first, second, hsort, hrest, hfirst, hsecond⟩ :=
        exists_split_mergeSort_cons htrans htotal x xs
      obtain ⟨first', second', hsort', hrest', hfirst', hsecond'⟩ :=
        exists_split_mergeSort_cons htrans' htotal' (f x) (xs.map f)
      have hcompare : ∀ y ∈ first ++ second, le' (f x) (f y) = le x y :=
        fun y hy => (hx y (List.mem_mergeSort.mp (hrest ▸ hy))).symm
      have hmap : first.map f ++ second.map f = first' ++ second' := by
        rw [← List.map_append, ← hrest, ih hxs, hrest']
      obtain ⟨heq, heq'⟩ := append_inj_of_forall (p := fun z => le' (f x) z = false) hmap
        (List.forall_mem_map.mpr fun y hy => by
          rw [hcompare y (List.mem_append_left _ hy), hfirst y hy])
        (List.forall_mem_map.mpr fun y hy => by
          rw [hcompare y (List.mem_append_right _ hy), hsecond y hy]
          simp)
        hfirst' (fun z hz => by simp [hsecond' z hz])
      rw [hsort, List.map_append, List.map_cons, heq, heq', List.map_cons, hsort']

end

namespace Diagnostic

variable {d d' e e' : Diagnostic} {ds es : List Diagnostic}

theorem before_eq_of_line_ne (hd : Same d d') (he : Same e e') (hne : d.line ≠ e.line) :
    d.before e = d'.before e' := by
  rw [Bool.eq_iff_iff, before_iff, before_iff, hd.line_eq, he.line_eq]
  omega

/-- The order stays when the second problem has moved along with the line and the first one has as well,
or is at its beginning. -/
theorem before_eq_of_shifted {offsets : Nat → Nat} (hd : Settled offsets d d')
    (he : Shifted offsets e e') : d.before e = d'.before e' := by
  by_cases hline : d.line = e.line
  · have hdstart := hd.start_eq
    have hestart := he.start_eq
    rw [hline] at hdstart
    rw [Bool.eq_iff_iff, before_iff, before_iff, hd.line_eq, he.line_eq]
    omega
  · exact before_eq_of_line_ne hd.toSame he.toSame hline

/-- Problems on different lines are in the same order. -/
theorem pairwise_zip_of_line_ne (h : List.Forall₂ Same ds es)
    (hlines : ds.Pairwise fun d e => d.line ≠ e.line) :
    (ds.zip es).Pairwise fun x y => x.1.before y.1 = x.2.before y.2 := by
  have hzip : (ds.zip es).Pairwise fun x y => x.1.line ≠ y.1.line := by
    rw [← List.pairwise_map (f := Prod.fst) (R := fun d e : Diagnostic => d.line ≠ e.line),
      List.map_fst_zip (Nat.le_of_eq h.length_eq)]
    exact hlines
  exact hzip.imp_of_mem fun hx hy hne =>
    before_eq_of_line_ne (List.forall₂_zip h hx) (List.forall₂_zip h hy) hne

/-- Problems in the same order are sorted alike. -/
theorem forall₂_mergeSort (h : List.Forall₂ Same ds es)
    (horder : (ds.zip es).Pairwise fun x y => x.1.before y.1 = x.2.before y.2) :
    List.Forall₂ Same (ds.mergeSort before) (es.mergeSort before) := by
  have hfst : ((ds.zip es).mergeSort fun x y => x.1.before y.1).map Prod.fst = ds.mergeSort before := by
    rw [List.map_mergeSort (s := before) fun _ _ _ _ => rfl,
      List.map_fst_zip (Nat.le_of_eq h.length_eq)]
  have hsnd : ((ds.zip es).mergeSort fun x y => x.1.before y.1).map Prod.snd = es.mergeSort before := by
    rw [map_mergeSort_of_pairwise (fun x y z => before_trans x.1 y.1 z.1)
      (fun x y => before_total x.1 y.1) before_trans before_total horder,
      List.map_snd_zip (Nat.le_of_eq h.length_eq.symm)]
  rw [← hfst, ← hsnd, List.forall₂_map_left_iff, List.forall₂_map_right_iff]
  exact List.forall₂_same.mpr fun x hx => List.forall₂_zip h (List.mem_mergeSort.mp hx)

/-- Problems are sorted alike when the last of them have moved along with their lines, those before them
have as well or are at the beginning of a line, and the first ones are on lines of their own. -/
theorem forall₂_mergeSort_append {offsets : Nat → Nat} {first first' second second' last last' :
    List Diagnostic} (hfirst : List.Forall₂ Same first first')
    (hsecond : List.Forall₂ (Settled offsets) second second')
    (hlast : List.Forall₂ (Shifted offsets) last last')
    (hlines : (first ++ second).Pairwise fun d e => d.line ≠ e.line)
    (hown : ∀ d ∈ first, ∀ e ∈ last, d.line ≠ e.line) :
    List.Forall₂ Same ((first ++ (second ++ last)).mergeSort before)
      ((first' ++ (second' ++ last')).mergeSort before) := by
  have hboth : List.Forall₂ Same (first ++ second) (first' ++ second') :=
    List.rel_append hfirst (hsecond.imp fun _ _ h => h.toSame)
  have hsame : List.Forall₂ Same last last' := hlast.imp fun _ _ h => h.toSame
  rw [← List.append_assoc, ← List.append_assoc]
  refine forall₂_mergeSort (List.rel_append hboth hsame) ?_
  rw [List.zip_append hboth.length_eq, List.pairwise_append]
  refine ⟨pairwise_zip_of_line_ne hboth hlines, ?_, fun x hx y hy => ?_⟩
  · refine List.pairwise_of_forall_mem_list fun x hx y hy => ?_
    exact before_eq_of_shifted (List.forall₂_zip hlast hx).settled (List.forall₂_zip hlast hy)
  · rw [List.zip_append hfirst.length_eq, List.mem_append] at hx
    -- only those in the middle share a line with one of the last, and they were found before it
    rcases hx with hx | hx
    · exact before_eq_of_line_ne (List.forall₂_zip hfirst hx) (List.forall₂_zip hsame hy)
        (hown _ (List.of_mem_zip hx).1 _ (List.of_mem_zip hy).1)
    · exact before_eq_of_shifted (List.forall₂_zip hsecond hx) (List.forall₂_zip hlast hy)

end Diagnostic

/-! ### The problems of an indented script -/

namespace Script

variable {lang : Language} {lines lines' : List String}

/-- The same lines cannot be read. -/
theorem forall₂_diagnostics (hcat : lang.catalog.Reachable) (h : IndentedLines lines lines') :
    List.Forall₂ Same (readLines lang lines).diagnostics (readLines lang lines').diagnostics := by
  rw [diagnostics_readLines, diagnostics_readLines]
  refine List.rel_flatMap (forall₂_zipIdx h 1) ?_
  rintro ⟨text, _⟩ ⟨text', line⟩ ⟨⟨offset, htext⟩, rfl⟩
  have hproblem := (Language.moved_readLine line htext hcat).2
  dsimp only
  generalize (lang.readLine line text).2 = x at hproblem ⊢
  generalize (lang.readLine line text').2 = y at hproblem ⊢
  cases hproblem with
  | none => exact .nil
  | some hsame => exact .cons hsame .nil

/-- The same lines cannot be read, and the same blocks are not ended. -/
theorem forall₂_problems (hcat : lang.catalog.Reachable) (h : IndentedLines lines lines') :
    List.Forall₂ Same (readLines lang lines).problems (readLines lang lines').problems := by
  obtain ⟨⟨offsets, htree⟩, hblocks⟩ := moved_readLines hcat h
  rw [problems, problems, hblocks]
  refine List.rel_append (forall₂_diagnostics hcat h) ?_
  rw [List.forall₂_map_left_iff, List.forall₂_map_right_iff]
  exact List.forall₂_same.mpr fun b _ => htree.same_missingEnd b

/-- What is found in scripts without an open block is sorted alike. -/
theorem forall₂_sorted (hcat : lang.catalog.Reachable) (h : IndentedLines lines lines')
    (hterminated : (readLines lang lines).blocks = []) :
    List.Forall₂ Same
      (((readLines lang lines).problems ++ (readLines lang lines).tree.check.2).mergeSort
        Diagnostic.before)
      (((readLines lang lines').problems ++ (readLines lang lines').tree.check.2).mergeSort
        Diagnostic.before) := by
  obtain ⟨⟨offsets, htree⟩, hblocks⟩ := moved_readLines hcat h
  have hlabels := htree.forall₂_labelProblems (indexed_readLines lang lines)
    (indexed_readLines lang lines')
  have hnodes : List.Forall₂ (Shifted offsets)
      ((readLines lang lines).tree.preorder.flatMap (readLines lang lines).tree.nodeProblems)
      ((readLines lang lines').tree.preorder.flatMap (readLines lang lines').tree.nodeProblems) := by
    rw [htree.preorder_eq]
    refine List.rel_flatMap (R := Eq) (List.forall₂_same.mpr fun _ _ => rfl) ?_
    rintro id _ rfl
    exact htree.forall₂_nodeProblems id
  simp only [problems, hblocks, hterminated, List.reverse_nil, List.map_nil, List.append_nil, check]
  refine Diagnostic.forall₂_mergeSort_append (forall₂_diagnostics hcat h) hlabels hnodes
    (pairwise_reported lang lines) fun d hd e he heq => ?_
  have hcommand := (of_mem_diagnostics hd).1
  rw [heq] at hcommand
  exact command_of_mem_nodeProblems he hcommand

end Script

/-! ### Compiling an indented script -/

namespace Language

variable {lang : Language} {lines lines' : List String}

/-- An indented script has the same code, and the same is reported. -/
theorem compile_indented (hcat : lang.catalog.Reachable) (h : IndentedLines lines lines') :
    ∃ out out', lang.compile lines = .ok out ∧ lang.compile lines' = .ok out' ∧
      out'.code = out.code ∧ List.Forall₂ Same out.diagnostics out'.diagnostics := by
  obtain ⟨out, hout, hcode⟩ := exists_compiled hcat lines
  obtain ⟨out', hout', hcode'⟩ := exists_compiled hcat lines'
  obtain ⟨⟨offsets, htree⟩, hblocks⟩ := Script.moved_readLines hcat h
  have hopen : (Script.readLines lang lines').isUnterminated
      = (Script.readLines lang lines).isUnterminated := by
    rw [Script.isUnterminated, Script.isUnterminated, hblocks]
  have hdiagnostics : List.Forall₂ Same out.diagnostics out'.diagnostics := by
    rw [diagnostics_of_compile hout, diagnostics_of_compile hout', hopen]
    split
    · exact Script.forall₂_problems hcat h
    · next hterminated =>
      exact Script.forall₂_sorted hcat h (by simpa [Script.isUnterminated] using hterminated)
  have hnil : out'.diagnostics ≠ [] ↔ out.diagnostics ≠ [] := by
    rw [← List.length_pos_iff, ← List.length_pos_iff, hdiagnostics.length_eq]
  have hlower : ((Script.readLines lang lines').tree.check.1.lower lang).2
      = ((Script.readLines lang lines).tree.check.1.lower lang).2 := htree.bindLabels.lower_eq lang
  refine ⟨out, out', hout, hout', ?_, hdiagnostics⟩
  simp only [hcode, hcode', hopen, hnil, hlower]

/-- Every script is indented from one without blanks in front of the lines. -/
theorem indentedLines_trimStart (lines : List String) :
    IndentedLines ((lines.map fun text => trimStart text.toList).map String.ofList) lines := by
  rw [List.map_map, IndentedLines, List.forall₂_map_left_iff]
  refine List.forall₂_same.mpr fun text _ => ⟨_, text.toList.takeWhile isBlank, ?_, rfl, ?_⟩
  · rw [Function.comp_apply, String.toList_ofList]
    exact List.takeWhile_append_dropWhile.symm
  · exact fun c hc => (List.all_eq_true.mp List.all_takeWhile) c hc

/-- Blanks in front of a line move its tokens by their number. Scripts whose lines differ only in the
blanks in front of them have the same code or none, and the same messages are reported for the same
lines. -/
theorem compile_reindented :
    (∀ blanks text : String, (∀ c ∈ blanks.toList, isBlank c = true) →
      tokens (blanks ++ text) = (tokens text).map (Token.shift blanks.length)) ∧
    ∀ {lang : Language} {lines lines' : List String}, lang.catalog.Reachable →
      (lines'.map fun text => trimStart text.toList) = (lines.map fun text => trimStart text.toList) →
      ∃ out out', lang.compile lines = .ok out ∧ lang.compile lines' = .ok out' ∧
        out'.code = out.code ∧
        (out'.diagnostics.map fun d => (d.message, d.line))
          = out.diagnostics.map fun d => (d.message, d.line) := by
  refine ⟨fun blanks text hblanks => (Indented.append hblanks text).tokens_eq, ?_⟩
  intro lang lines lines' hcat h
  obtain ⟨plain, out, hplain, hout, hcode, hreports⟩ :=
    compile_indented hcat (indentedLines_trimStart lines)
  obtain ⟨plain', out', hplain', hout', hcode', hreports'⟩ :=
    compile_indented hcat (indentedLines_trimStart lines')
  rw [h, hplain] at hplain'
  cases hplain'
  have hshown : ∀ {ds es : List Diagnostic}, List.Forall₂ Same ds es →
      (es.map fun d => (d.message, d.line)) = ds.map fun d => (d.message, d.line) := by
    intro ds es hsame
    induction hsame with
    | nil => rfl
    | cons hde _ ih =>
        rw [List.map_cons, List.map_cons, ih, Diagnostic.message, hde.problem_eq, hde.line_eq]
        rfl
  exact ⟨out, out', hout, hout', by rw [hcode, hcode'], by rw [hshown hreports, hshown hreports']⟩

/-- A label that is declared twice, a jump to one that is nowhere and a command at the wrong place. -/
theorem compile_reindented_labels :
    (∀ c ∈ "\t ".toList, isBlank c = true) ∧
      tokens ("\t " ++ "* goto x") = (tokens "* goto x").map (Token.shift 2) ∧
      Catalog.builtin.Reachable ∧
      (["  top:", "\ttop:", "   goto nowhere", "break"].map fun text => trimStart text.toList)
        = (["top:", " top:", "goto nowhere", "\t\tbreak"].map fun text => trimStart text.toList) ∧
      ∃ out out',
        (⟨.builtin, .threat⟩ : Language).compile ["top:", " top:", "goto nowhere", "\t\tbreak"]
          = .ok out ∧
        (⟨.builtin, .threat⟩ : Language).compile ["  top:", "\ttop:", "   goto nowhere", "break"]
          = .ok out' ∧
        out'.code = out.code ∧
        (out'.diagnostics.map fun d => (d.message, d.line))
          = out.diagnostics.map fun d => (d.message, d.line) := by
  have hblanks : ∀ c ∈ "\t ".toList, isBlank c = true := List.all_eq_true.mp (by decide)
  exact ⟨hblanks, compile_reindented.1 "\t " "* goto x" hblanks, .builtin, by decide,
    compile_reindented.2 .builtin (by decide)⟩

end Language

end MissionScript
