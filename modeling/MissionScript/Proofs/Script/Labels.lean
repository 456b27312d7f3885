import MissionScript.Proofs.Script.Nesting

/-!
# MissionScript.Proofs.Script.Labels

The labels of a script and the jumps to them.

* `Indexed` — the table of a tree lists the labels and the jumps of its nodes, in the order of the
  lines, and binds nothing yet. Reading keeps it so (`indexed_readLines`).
* `target?_of_jump` — when the check finds no problem with labels, every jump is bound to the one node
  that declares the label it names.

A label may be used before it is declared, so nothing can be bound while the lines are read: the
reader only enters what it finds, and the check binds it all at the end. The table is indexed by the
numbers of nodes, and these are the numbers of lines, so listing a range of numbers is listing the
table in the order of the lines.
-/

namespace MissionScript

namespace Tree

/-- The name that the first parameter of a node gives. -/
def labelName? (t : Tree) (id : Nat) : Option String :=
  (t.statement id).parameters.head?.map (·.text)

/-- The symbol that the first parameter of a node stands for. -/
def symbolAt? (t : Tree) (id : Nat) : Option Symbol :=
  (t.statement id).parameters.head?.map fun p =>
    { name := p.text, kind := .label, node := id, line := (t.statement id).line, start := p.start,
      stop := p.stop, declaration := (t.statement id).isLabel }

/-- The label that a node declares. -/
def labelAt? (t : Tree) (id : Nat) : Option Symbol :=
  if (t.statement id).isLabel then t.symbolAt? id else none

/-- The label that a node jumps to. -/
def jumpAt? (t : Tree) (id : Nat) : Option Symbol :=
  if (t.statement id).isLabel then none
  else if (t.statement id).isLabelJump then t.symbolAt? id else none

/-- The table lists the labels and the jumps in the order of the nodes. -/
structure Indexed (t : Tree) : Prop where
  labels_eq : t.symbols.labels = (List.range' 1 (t.size - 1)).filterMap t.labelAt?
  references_eq : t.symbols.references = (List.range' 1 (t.size - 1)).filterMap t.jumpAt?

/-! ### Reading keeps the table

Each line adds a node at the end of the tree, and what it declares or jumps to at the end of the
table. The nodes that are there keep their statements, and so their symbols. -/

/-- Entering a node adds the symbol that it has, and to one of the two lists only. -/
theorem symbols_recordSymbol (t : Tree) (id : Nat) :
    (Script.recordSymbol t id).symbols.labels = t.symbols.labels ++ (t.labelAt? id).toList ∧
      (Script.recordSymbol t id).symbols.references
        = t.symbols.references ++ (t.jumpAt? id).toList := by
  unfold Script.recordSymbol labelAt? jumpAt? symbolAt?
  dsimp only
  cases (t.statement id).parameters.head? with
  | none => simp
  | some p =>
      cases hlabel : (t.statement id).isLabel with
      | true => simp [SymbolTable.declare]
      | false =>
          cases hjump : (t.statement id).isLabelJump with
          | true => simp [SymbolTable.reference]
          | false => simp

/-- Entering a node binds nothing. -/
theorem bindings_recordSymbol (t : Tree) (id : Nat) :
    (Script.recordSymbol t id).symbols.bindings = t.symbols.bindings := by
  unfold Script.recordSymbol
  dsimp only
  split
  · rfl
  · split
    · rfl
    · split <;> rfl

/-- The symbol of a node depends on its statement alone. -/
theorem symbolAt?_congr {t t' : Tree} {id : Nat} (h : t'.statement id = t.statement id) :
    t'.labelAt? id = t.labelAt? id ∧ t'.jumpAt? id = t.jumpAt? id := by
  simp only [labelAt?, jumpAt?, symbolAt?, h, and_self]

/-- A tree without nodes has no symbols. -/
theorem indexed_empty : empty.Indexed := ⟨rfl, rfl⟩

/-- A statement that is placed is entered at the end of the table. -/
theorem Indexed.place {t : Tree} (h : t.Indexed) (hpos : 0 < t.size) (p : Nat) (st : Statement) :
    (Script.place t p st).Indexed := by
  have hrange : List.range' 1 ((Script.place t p st).size - 1)
      = List.range' 1 (t.size - 1) ++ [t.size] := by
    have hsplit := @List.range'_append_1 1 (t.size - 1) 1
    rw [show 1 + (t.size - 1) = t.size by omega, show t.size - 1 + 1 = t.size by omega] at hsplit
    rw [Script.size_place, Nat.add_sub_cancel, ← hsplit, List.range'_one]
  have hold : ∀ id ∈ List.range' 1 (t.size - 1),
      (Script.place t p st).labelAt? id = t.labelAt? id ∧
        (Script.place t p st).jumpAt? id = t.jumpAt? id := by
    intro id hid
    have hbounds := List.mem_range'_1.mp hid
    exact symbolAt?_congr (Script.grows_place.statement_eq id (by omega))
  have hnew : (Script.place t p st).labelAt? t.size = (t.add p st).labelAt? t.size ∧
      (Script.place t p st).jumpAt? t.size = (t.add p st).jumpAt? t.size := by
    refine symbolAt?_congr ?_
    rw [Script.place, statement, Script.node_recordSymbol, statement]
  obtain ⟨hlabels, hreferences⟩ := symbols_recordSymbol (t.add p st) t.size
  constructor
  · rw [hrange, List.filterMap_append, List.filterMap_congr fun id hid => (hold id hid).1,
      ← h.labels_eq, List.filterMap_cons, hnew.1]
    refine hlabels.trans ?_
    show t.symbols.labels ++ _ = _
    cases (t.add p st).labelAt? t.size <;> rfl
  · rw [hrange, List.filterMap_append, List.filterMap_congr fun id hid => (hold id hid).2,
      ← h.references_eq, List.filterMap_cons, hnew.2]
    refine hreferences.trans ?_
    show t.symbols.references ++ _ = _
    cases (t.add p st).jumpAt? t.size <;> rfl

/-- Reading lines keeps the table. -/
theorem indexed_foldl {lang : Language} (numbered : List (String × Nat)) {s : Script}
    (h : s.tree.Indexed) (hpos : 0 < s.tree.size) :
    (numbered.foldl (Script.readLine lang) s).tree.Indexed := by
  induction numbered generalizing s with
  | nil => exact h
  | cons l rest ih =>
      obtain ⟨p, htree, -⟩ := Script.insert_spec s (lang.readLine l.2 l.1).1
      have htree' : (Script.readLine lang s l).tree
          = Script.place s.tree p (lang.readLine l.2 l.1).1 := htree
      refine ih ?_ ?_
      · rw [htree']
        exact h.place hpos p _
      · rw [htree', Script.size_place]
        omega

/-- The table of a script that has been read. -/
theorem indexed_readLines (lang : Language) (lines : List String) :
    (Script.readLines lang lines).tree.Indexed :=
  indexed_foldl (lines.zipIdx 1) indexed_empty (by decide)

/-! ### Members of the table

Every symbol in the table belongs to one node, which it names, and every node has at most one
symbol. -/

/-- The labels of the table are those that nodes declare. -/
theorem Indexed.mem_labels_iff {t : Tree} (h : t.Indexed) {s : Symbol} :
    s ∈ t.symbols.labels ↔ ∃ id, 0 < id ∧ id < t.size ∧ t.labelAt? id = some s := by
  rw [h.labels_eq, List.mem_filterMap]
  constructor
  · rintro ⟨id, hid, hs⟩
    have := List.mem_range'_1.mp hid
    exact ⟨id, by omega, by omega, hs⟩
  · rintro ⟨id, hpos, hlt, hs⟩
    exact ⟨id, List.mem_range'_1.mpr (by omega), hs⟩

/-- The jumps of the table are those of nodes. -/
theorem Indexed.mem_references_iff {t : Tree} (h : t.Indexed) {s : Symbol} :
    s ∈ t.symbols.references ↔ ∃ id, 0 < id ∧ id < t.size ∧ t.jumpAt? id = some s := by
  rw [h.references_eq, List.mem_filterMap]
  constructor
  · rintro ⟨id, hid, hs⟩
    have := List.mem_range'_1.mp hid
    exact ⟨id, by omega, by omega, hs⟩
  · rintro ⟨id, hpos, hlt, hs⟩
    exact ⟨id, List.mem_range'_1.mpr (by omega), hs⟩

/-- A symbol names its node and has the name of its first parameter. -/
theorem of_symbolAt? {t : Tree} {id : Nat} {s : Symbol} (h : t.symbolAt? id = some s) :
    s.node = id ∧ t.labelName? id = some s.name := by
  obtain ⟨p, hp, rfl⟩ := Option.map_eq_some_iff.mp h
  exact ⟨rfl, by rw [labelName?, hp, Option.map_some]⟩

/-- What declares a label is a declaration. -/
theorem of_labelAt? {t : Tree} {id : Nat} {s : Symbol} (h : t.labelAt? id = some s) :
    (t.statement id).isLabel = true ∧ s.node = id ∧ t.labelName? id = some s.name := by
  unfold labelAt? at h
  split at h
  · next hlabel => exact ⟨hlabel, of_symbolAt? h⟩
  · cases h

/-- What jumps to a label is a jump. -/
theorem of_jumpAt? {t : Tree} {id : Nat} {s : Symbol} (h : t.jumpAt? id = some s) :
    s.node = id ∧ t.labelName? id = some s.name := by
  unfold jumpAt? at h
  split at h
  · cases h
  · split at h
    · exact of_symbolAt? h
    · cases h

/-- A node whose first parameter names a label has a symbol. -/
theorem exists_symbolAt? {t : Tree} {id : Nat} {name : String} (h : t.labelName? id = some name) :
    ∃ s, t.symbolAt? id = some s := by
  obtain ⟨p, hp, -⟩ := Option.map_eq_some_iff.mp h
  exact ⟨_, by rw [symbolAt?, hp, Option.map_some]⟩

/-! ### Binding

Each jump of the table is bound to the first label with its name. When no label is declared twice,
this is the only one. Binding goes through the table from the front, and what has been bound is not
touched by the jumps of other nodes. -/

/-- Labels are reported when two of them have one name. -/
theorem duplicateLabels_eq_nil_iff {table : SymbolTable} :
    duplicateLabels table = [] ↔ (table.labels.map (·.name)).Nodup := by
  rw [duplicateLabels, List.filterMap_eq_nil_iff, List.Nodup, List.pairwise_map,
    List.pairwise_iff_getElem]
  constructor
  · intro h i j hi hj hij heq
    have hmem : (table.labels[j], j) ∈ table.labels.zipIdx := by
      rw [List.mem_zipIdx_iff_getElem?, List.getElem?_eq_getElem hj]
    have hnone := h _ hmem
    rw [Option.map_eq_none_iff, List.find?_eq_none] at hnone
    refine hnone table.labels[i] ?_ (by simpa using heq)
    rw [List.mem_take_iff_getElem]
    exact ⟨i, by omega, rfl⟩
  · rintro h ⟨label, j⟩ hmem
    have hget : table.labels[j]? = some label := List.mem_zipIdx_iff_getElem?.mp hmem
    obtain ⟨hj, rfl⟩ := List.getElem?_eq_some_iff.mp hget
    rw [Option.map_eq_none_iff, List.find?_eq_none]
    intro first hfirst
    obtain ⟨i, hi, rfl⟩ := List.mem_take_iff_getElem.mp hfirst
    simpa using h i j (by omega) hj (by omega)

/-- Jumps are reported when no label has the name. -/
theorem undefinedLabels_eq_nil_iff {table : SymbolTable} :
    undefinedLabels table = [] ↔
      ∀ r ∈ table.references, (table.declaration? r.name).isSome = true := by
  rw [undefinedLabels, List.filterMap_eq_nil_iff]
  refine forall₂_congr fun r _ => ?_
  cases table.declaration? r.name with
  | none => simp
  | some label => simp

/-- A label that is declared twice is reported where a declaration stands. -/
theorem exists_label_of_mem {table : SymbolTable} {d : Diagnostic} (h : d ∈ duplicateLabels table) :
    ∃ label ∈ table.labels, ∃ firstLine,
      d = ⟨.duplicateLabel label.name firstLine, label.line, label.start, label.stop⟩ := by
  obtain ⟨⟨label, position⟩, hmem, hd⟩ := List.mem_filterMap.mp h
  obtain ⟨first, -, rfl⟩ := Option.map_eq_some_iff.mp hd
  exact ⟨label, List.fst_mem_of_mem_zipIdx hmem, first.line, rfl⟩

/-- A label that is declared nowhere is reported where the jump names it. -/
theorem exists_reference_of_mem {table : SymbolTable} {d : Diagnostic}
    (h : d ∈ undefinedLabels table) :
    ∃ r ∈ table.references, d = ⟨.undefinedLabel r.name, r.line, r.start, r.stop⟩ := by
  obtain ⟨r, hr, hd⟩ := List.mem_filterMap.mp h
  split at hd
  · cases hd
  · cases hd
    exact ⟨r, hr, rfl⟩

/-- Binds a jump to the first declaration of its label. -/
def bindLabel (table bound : SymbolTable) (r : Symbol) : SymbolTable :=
  match table.declaration? r.name with
  | some label => bound.bind r.node label.node
  | none => bound

/-- Binding is a fold over the jumps. -/
theorem bindLabels_eq (table : SymbolTable) :
    bindLabels table = table.references.foldl (bindLabel table) table := rfl

/-- A jump that is met is bound. -/
theorem target?_bindLabel {table bound : SymbolTable} {r label : Symbol}
    (h : table.declaration? r.name = some label) :
    (bindLabel table bound r).target? r.node = some label.node := by
  rw [bindLabel, h]
  exact SymbolTable.target?_bind_self _ _ _

/-- No other jump is. -/
theorem target?_bindLabel_of_ne {table bound : SymbolTable} {r : Symbol} {n : Nat}
    (h : r.node ≠ n) : (bindLabel table bound r).target? n = bound.target? n := by
  unfold bindLabel
  split
  · exact SymbolTable.target?_bind_of_ne _ _ h.symm
  · rfl

/-- Once a jump has been met, it is bound to `m` and stays so. -/
theorem target?_foldl_bindLabel {table : SymbolTable} {n m : Nat} {refs : List Symbol}
    {bound : SymbolTable}
    (hall : ∀ r ∈ refs, r.node = n →
      ∃ label, table.declaration? r.name = some label ∧ label.node = m)
    (hmet : (∃ r ∈ refs, r.node = n) ∨ bound.target? n = some m) :
    (refs.foldl (bindLabel table) bound).target? n = some m := by
  induction refs generalizing bound with
  | nil =>
      rcases hmet with ⟨r, hr, -⟩ | hbound
      · cases hr
      · exact hbound
  | cons r refs ih =>
      rw [List.foldl_cons]
      refine ih (fun x hx => hall x (List.mem_cons_of_mem _ hx)) ?_
      by_cases hr : r.node = n
      · obtain ⟨label, hlabel, rfl⟩ := hall r List.mem_cons_self hr
        right
        rw [← hr]
        exact target?_bindLabel hlabel
      · rcases hmet with ⟨x, hx, hxn⟩ | hbound
        · rcases List.mem_cons.mp hx with rfl | hmem
          · exact absurd hxn hr
          · exact Or.inl ⟨x, hmem, hxn⟩
        · right
          rw [target?_bindLabel_of_ne hr]
          exact hbound

/-- A jump is bound to the node that all of its declarations name. -/
theorem target?_bindLabels {table : SymbolTable} {n m : Nat}
    (hexists : ∃ r ∈ table.references, r.node = n)
    (hall : ∀ r ∈ table.references, r.node = n →
      ∃ label, table.declaration? r.name = some label ∧ label.node = m) :
    (bindLabels table).target? n = some m := by
  rw [bindLabels_eq]
  exact target?_foldl_bindLabel hall (Or.inl hexists)

/-- A jump is bound to the one node that declares the label it names. -/
theorem target?_of_jump {t : Tree} (h : t.Indexed)
    (hproper : ∀ id, 0 < id → id < t.size → (t.statement id).Proper)
    (hduplicate : duplicateLabels t.symbols = []) (hundefined : undefinedLabels t.symbols = [])
    {n : Nat} (hpos : 0 < n) (hlt : n < t.size) (hjump : (t.statement n).isLabelJump = true) :
    ∃ m, 0 < m ∧ m < t.size ∧ (t.statement m).isLabel = true ∧
      (t.labelName? m).isSome = true ∧ t.labelName? m = t.labelName? n ∧
      (bindLabels t.symbols).target? n = some m ∧
      ∀ m', 0 < m' → m' < t.size → (t.statement m').isLabel = true →
        t.labelName? m' = t.labelName? n → m' = m := by
  have hstatement := hproper n hpos hlt
  have hnotlabel := hstatement.not_label_of_jump hjump
  -- the jump is in the table
  obtain ⟨r, hr⟩ : ∃ r, t.jumpAt? n = some r := by
    cases hparameters : (t.statement n).parameters with
    | nil => exact absurd hparameters (hstatement.parameters_of_jump hjump)
    | cons p ps =>
        obtain ⟨r, hr⟩ := @exists_symbolAt? t n p.text (by simp [labelName?, hparameters])
        exact ⟨r, by simp [jumpAt?, hnotlabel, hjump, hr]⟩
  have hrname := (of_jumpAt? hr).2
  -- it has a declaration
  obtain ⟨label, hlabel⟩ : ∃ label, t.symbols.declaration? r.name = some label := by
    have hmem : r ∈ t.symbols.references := h.mem_references_iff.mpr ⟨n, hpos, hlt, hr⟩
    exact Option.isSome_iff_exists.mp (undefinedLabels_eq_nil_iff.mp hundefined r hmem)
  have hname : label.name = r.name := by simpa using List.find?_some hlabel
  have hmember : label ∈ t.symbols.labels := List.mem_of_find?_eq_some hlabel
  obtain ⟨m, hmpos, hmlt, hm⟩ := h.mem_labels_iff.mp hmember
  obtain ⟨hmlabel, hmnode, hmname⟩ := of_labelAt? hm
  refine ⟨m, hmpos, hmlt, hmlabel, by rw [hmname]; rfl, by rw [hmname, hrname, hname], ?_, ?_⟩
  · refine target?_bindLabels ⟨r, h.mem_references_iff.mpr ⟨n, hpos, hlt, hr⟩, (of_jumpAt? hr).1⟩ ?_
    intro x hx hxn
    obtain ⟨k, -, -, hk⟩ := h.mem_references_iff.mp hx
    -- a node has one symbol, so this is the same jump
    have hkn : k = n := (of_jumpAt? hk).1.symm.trans hxn
    subst hkn
    rw [hr] at hk
    cases hk
    exact ⟨label, hlabel, hmnode⟩
  · intro m' hpos' hlt' hlabel' hname'
    rw [hrname] at hname'
    obtain ⟨s, hs⟩ := exists_symbolAt? hname'
    have hs' : t.labelAt? m' = some s := by rw [labelAt?, if_pos hlabel', hs]
    have hsname : s.name = r.name := by
      have := (of_symbolAt? hs).2
      rw [hname'] at this
      exact (Option.some.inj this).symm
    have hsmem : s ∈ t.symbols.labels := h.mem_labels_iff.mpr ⟨m', hpos', hlt', hs'⟩
    have heq : s = label :=
      List.inj_on_of_nodup_map (duplicateLabels_eq_nil_iff.mp hduplicate) hsmem hmember
        (hsname.trans hname.symm)
    rw [← (of_symbolAt? hs).1, heq, hmnode]

end Tree

end MissionScript
