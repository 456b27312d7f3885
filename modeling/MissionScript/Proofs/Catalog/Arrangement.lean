import MissionScript.Proofs.Catalog.Reachable
import MissionScript.Proofs.Token.Shape
import Mathlib.Data.List.Nodup
import Mathlib.Data.List.Pairwise
import Mathlib.Data.List.Perm.Subperm

/-!
# MissionScript.Proofs.Catalog.Arrangement

What is known of the definitions of a catalog that can be built.

* `Definition.displayOrder_eq_ok_iff` — the checks that a placeholder passes, one after the other,
  ask for a permutation of the parameters. `Definition.Arranged` says so of the order that is kept
  (`Reachable.arranged`).
* `Reachable.find?_of_mem` — a command that is there in a version is the one that look-up gives.
* `Definition.Spaced` — each parameter has a token of its own in the template. Then a line that has the
  shape of the template has a value for each parameter, unless a dollar sign stands alone in it
  (`Definition.Spaced.le_countP`).
-/

namespace MissionScript

/-! ### Display order

A placeholder is a dollar sign and a number. The number has to be that of a parameter, and to be the
first placeholder for it; when all parameters have been used up this way, the numbers are a
permutation of theirs. What the numbers stand for is the subject of
`MissionScript.Proofs.Catalog.DisplayOrder`. -/

namespace Definition

/-- A placeholder is added if it denotes a parameter that is not there yet. -/
theorem addPlaceholder_eq_ok_iff {count : Nat} {order order' : List Nat} {digits : List Char} :
    addPlaceholder count order digits = .ok order' ↔
      ∃ index, placeholderIndex? digits = some index ∧ index < count ∧ index ∉ order ∧
        order' = order ++ [index] := by
  unfold addPlaceholder
  split
  · next hindex => simp [hindex]
  · next index hindex =>
    split
    · next hcount => simp [hindex, Nat.not_lt.mpr hcount]
    split
    · next hmem => simp [hindex, hmem]
    · next hcount hnew => simp [hindex, Nat.lt_of_not_le hcount, hnew, eq_comm]

/-- Placeholders are added one after the other if they denote parameters that are all different. -/
theorem foldlM_addPlaceholder_eq_ok_iff {count : Nat} {placeholders : List (List Char)}
    {order order' : List Nat} (hnodup : order.Nodup) :
    placeholders.foldlM (addPlaceholder count) order = .ok order' ↔
      ∃ added, placeholders.map placeholderIndex? = added.map some ∧ (∀ i ∈ added, i < count) ∧
        (order ++ added).Nodup ∧ order' = order ++ added := by
  induction placeholders generalizing order with
  | nil =>
      constructor
      · intro h
        cases h
        exact ⟨[], rfl, by simp, by simpa using hnodup, by simp⟩
      · intro h
        obtain ⟨added, hmap, -, -, horder⟩ := h
        rw [List.map_nil, eq_comm, List.map_eq_nil_iff] at hmap
        rw [horder, hmap, List.append_nil]
        rfl
  | cons digits placeholders ih =>
      rw [List.foldlM_cons]
      constructor
      · intro h
        cases hadd : addPlaceholder count order digits with
        | error fault =>
            rw [hadd] at h
            cases h
        | ok next =>
            rw [hadd] at h
            obtain ⟨index, hindex, hlt, hnew, rfl⟩ := addPlaceholder_eq_ok_iff.mp hadd
            -- the placeholder is a new one, so what has been added stays different
            have hnext : (order ++ [index]).Nodup :=
              hnodup.append (List.nodup_singleton index) (by simpa using hnew)
            obtain ⟨added, hmap, hadded, hall, rfl⟩ := (ih hnext).mp h
            rw [List.append_assoc, List.singleton_append] at hall ⊢
            exact ⟨index :: added, by simp [hindex, hmap],
              List.forall_mem_cons.mpr ⟨hlt, hadded⟩, hall, rfl⟩
      · intro h
        obtain ⟨added, hmap, hadded, hall, horder⟩ := h
        cases added with
        | nil => cases hmap
        | cons index added =>
            obtain ⟨hindex, hmap⟩ := List.cons.inj hmap
            obtain ⟨hlt, hadded⟩ := List.forall_mem_cons.mp hadded
            rw [← List.singleton_append, ← List.append_assoc] at hall
            have hnext : (order ++ [index]).Nodup := hall.of_append_left
            have hnew : index ∉ order := fun hmem =>
              List.disjoint_of_nodup_append hnext hmem List.mem_cons_self
            rw [addPlaceholder_eq_ok_iff.mpr ⟨index, hindex, hlt, hnew, rfl⟩]
            exact (ih hnext).mpr ⟨added, hmap, hadded, hall, by simp [horder]⟩

/-- Different numbers below a bound, as many as there are, are all the numbers below it. -/
theorem perm_range_iff {count : Nat} {order : List Nat} :
    order.Perm (List.range count) ↔
      order.length = count ∧ order.Nodup ∧ ∀ i ∈ order, i < count := by
  constructor
  · intro h
    exact ⟨by simpa using h.length_eq, h.nodup_iff.mpr List.nodup_range,
      fun i hi => List.mem_range.mp (h.mem_iff.mp hi)⟩
  · intro h
    obtain ⟨hlength, hnodup, hlt⟩ := h
    have hsubset : order ⊆ List.range count := fun i hi => List.mem_range.mpr (hlt i hi)
    exact (List.subperm_of_subset hnodup hsubset).perm_of_length_le (by simp [hlength])

/-- A display order is found if the placeholders denote each parameter once, and it is what they
denote. -/
theorem displayOrder_eq_ok_iff {count : Nat} {text : String} {order : List Nat} :
    displayOrder count text = .ok order ↔
      (placeholders text.toList).map placeholderIndex? = order.map some ∧
        order.Perm (List.range count) := by
  have hread := @foldlM_addPlaceholder_eq_ok_iff count (placeholders text.toList) []
  simp only [List.nodup_nil, List.nil_append, forall_const] at hread
  rw [perm_range_iff]
  unfold displayOrder
  constructor
  · intro h
    cases hfold : (placeholders text.toList).foldlM (addPlaceholder count) [] with
    | error fault =>
        rw [hfold] at h
        cases h
    | ok order' =>
        rw [hfold] at h
        obtain ⟨added, hmap, hlt, hnodup, rfl⟩ := hread.mp hfold
        dsimp only [bind, Except.bind] at h
        split at h
        · next hlength =>
          cases h
          exact ⟨hmap, hlength, hnodup, hlt⟩
        · cases h
  · intro h
    obtain ⟨hmap, hlength, hnodup, hlt⟩ := h
    rw [hread.mpr ⟨order, hmap, hlt, hnodup, rfl⟩]
    dsimp only [bind, Except.bind]
    rw [if_pos hlength]
    rfl

/-- The display order names each parameter once. -/
structure Arranged (d : Definition) : Prop where
  length_order : d.order.length = d.parameters.length
  nodup_order : d.order.Nodup
  lt_of_mem : ∀ i ∈ d.order, i < d.parameters.length

/-- A definition that could be arranged is arranged. -/
theorem arranged_of_arrange {d e : Definition} (h : d.arrange = .ok e) : e.Arranged := by
  obtain ⟨order, hdisplay, rfl⟩ := arrange_eq_ok h
  obtain ⟨hlength, hnodup, hlt⟩ := perm_range_iff.mp (displayOrder_eq_ok_iff.mp hdisplay).2
  exact ⟨hlength, hnodup, hlt⟩

/-- The display order is a permutation of the parameters. -/
theorem Arranged.perm_range {d : Definition} (h : d.Arranged) :
    d.order.Perm (List.range d.parameters.length) :=
  perm_range_iff.mpr ⟨h.length_order, h.nodup_order, h.lt_of_mem⟩

/-- Every parameter is displayed somewhere. -/
theorem Arranged.mem_order {d : Definition} (h : d.Arranged) {i : Nat}
    (hi : i < d.parameters.length) : i ∈ d.order :=
  h.perm_range.mem_iff.mpr (List.mem_range.mpr hi)

/-- A slot knows its place and its type. -/
theorem of_slot? {d : Definition} {i : Nat} {slot : Slot} (h : d.slot? i = some slot) :
    slot.physical = i ∧ d.parameters[i]? = some slot.type := by
  obtain ⟨type, htype, rfl⟩ := Option.map_eq_some_iff.mp h
  exact ⟨rfl, htype⟩

/-- The slot at a display position has its physical position in the display order. -/
theorem of_slotAtDisplay? {d : Definition} {display : Nat} {slot : Slot}
    (h : d.slotAtDisplay? display = some slot) :
    d.order[display]? = some slot.physical ∧ d.slot? slot.physical = some slot := by
  obtain ⟨i, hi, hslot⟩ := Option.bind_eq_some_iff.mp h
  rw [(of_slot? hslot).1]
  exact ⟨hi, hslot⟩

/-- Each parameter has a slot. -/
theorem exists_slot? {d : Definition} {i : Nat} (h : i < d.parameters.length) :
    ∃ slot, d.slot? i = some slot := by
  unfold slot?
  rw [List.getElem?_eq_getElem h]
  exact ⟨_, rfl⟩

/-- There is a slot at each display position. -/
theorem Arranged.isSome_slotAtDisplay? {d : Definition} (h : d.Arranged) {display : Nat}
    (hlt : display < d.parameters.length) : (d.slotAtDisplay? display).isSome = true := by
  rw [← h.length_order] at hlt
  obtain ⟨slot, hslot⟩ := exists_slot? (h.lt_of_mem _ (List.getElem_mem hlt))
  rw [slotAtDisplay?, List.getElem?_eq_getElem hlt, Option.bind_some, hslot, Option.isSome_some]

end Definition

/-! ### Look-up

A catalog that can be built has passed through insertion, definition by definition. So what
insertion checks of a new definition holds of all of them: it is arranged, and it is told from those
with the same number by its versions. -/

namespace Catalog

/-- No version has two commands of one number. -/
def Distinct (c : Catalog) : Prop :=
  c.definitions.Pairwise fun d e => d.id = e.id → d.overlaps e = false

/-- What arranging ensures holds of every command. -/
theorem Reachable.forall_of_arrange {c : Catalog} (h : c.Reachable) {P : Definition → Prop}
    (harrange : ∀ {d e : Definition}, d.arrange = .ok e → P e) : ∀ d ∈ c.definitions, P d := by
  have hinsert : ∀ {c c' : Catalog} {d : Definition}, (∀ d ∈ c.definitions, P d) →
      c.insert d = .ok c' → ∀ d ∈ c'.definitions, P d := by
    intro c c' d hc hins e he
    obtain ⟨new, hnew, heq⟩ := definitions_of_insert hins
    rw [heq] at he
    rcases List.mem_append.mp he with hold | hadded
    · exact hc e hold
    · rw [List.mem_singleton.mp hadded]
      exact harrange hnew
  exact h.of_insert (of_extend hinsert (by simp) coreDefinitions) hinsert

/-- The display orders of a catalog are permutations. -/
theorem Reachable.arranged {c : Catalog} (h : c.Reachable) : ∀ d ∈ c.definitions, d.Arranged :=
  h.forall_of_arrange Definition.arranged_of_arrange

/-- Insertion refuses a command that is there already. -/
theorem Distinct.insert {c c' : Catalog} {d : Definition} (h : c.Distinct)
    (hins : c.insert d = .ok c') : c'.Distinct := by
  obtain ⟨new, heq, hnew⟩ := not_overlaps_of_insert hins
  rw [Distinct, heq, List.pairwise_append]
  refine ⟨h, List.pairwise_singleton _ _, ?_⟩
  intro e he f hf hid
  rw [List.mem_singleton.mp hf] at hid ⊢
  exact hnew e he hid

/-- There is no such pair in an empty catalog. -/
theorem distinct_empty : empty.Distinct := List.Pairwise.nil

/-- No version of a catalog has two commands of one number. -/
theorem Reachable.distinct {c : Catalog} (h : c.Reachable) : c.Distinct :=
  h.of_insert (of_extend Distinct.insert distinct_empty coreDefinitions) Distinct.insert

/-- Two definitions overlap when one version has both. -/
theorem overlaps_of_supports {d e : Definition} {version : GameVersion}
    (hd : d.supports version = true) (he : e.supports version = true) : d.overlaps e = true := by
  simp only [Definition.supports, Bool.or_eq_true, List.contains_iff_mem] at hd he
  simp only [Definition.overlaps, Bool.or_eq_true, List.any_eq_true, List.contains_iff_mem]
  rcases hd with hd | hd
  · exact Or.inl (Or.inl hd)
  · rcases he with he | he
    · exact Or.inl (Or.inr he)
    · exact Or.inr ⟨version, hd, he⟩

/-- Look-up gives every command that is there in the version. -/
theorem Distinct.find?_of_mem {c : Catalog} (h : c.Distinct) {d : Definition}
    {version : GameVersion} (hd : d ∈ c.definitions) (hsupports : d.supports version = true) :
    c.find? d.id version = some d := by
  have hsome : (c.find? d.id version).isSome = true := by
    rw [find?, List.find?_isSome]
    exact ⟨d, hd, by simp [hsupports]⟩
  obtain ⟨e, he⟩ := Option.isSome_iff_exists.mp hsome
  obtain ⟨hmem, hid, hsupports'⟩ := of_find? he
  have : Std.Symm fun d e : Definition => d.id = e.id → d.overlaps e = false := by
    constructor
    intro d e hde hid
    rw [Definition.overlaps_comm]
    exact hde hid.symm
  by_cases heq : e = d
  · rw [he, heq]
  · have hnot := h.forall hmem hd heq hid
    rw [overlaps_of_supports hsupports' hsupports] at hnot
    cases hnot

/-- The same for any catalog that can be built. -/
theorem Reachable.find?_of_mem {c : Catalog} (h : c.Reachable) {d : Definition}
    {version : GameVersion} (hd : d ∈ c.definitions) (hsupports : d.supports version = true) :
    c.find? d.id version = some d :=
  h.distinct.find?_of_mem hd hsupports

end Catalog

/-! ### Forms

A command is looked up by the shape of a line, where each value counts as the same mark. How many
values a line of that shape has can be told from the template, if no two of its placeholders share a
token. -/

namespace Definition

/-- Each parameter has a token of its own in the template. -/
def Spaced (d : Definition) : Prop := d.parameters.length ≤ (tokens d.text).countP Token.isValue

/-- What the two forms of a command look like. -/
theorem of_mem_forms {d : Definition} {shape : String} {omits : Bool}
    (h : (⟨shape, omits⟩ : Form) ∈ d.forms) :
    (omits = false ∧ shape = Token.shape (tokens d.text)) ∨
      (omits = true ∧ ∃ first equals rest index type, tokens d.text = first :: equals :: rest ∧
        tokenIndex? first = some index ∧ equals.isOperator "=" = true ∧
        d.parameters[index]? = some type ∧ type.isConditionalReturn = true ∧
        shape = Token.shape rest) := by
  rw [forms, if_pos (Catalog.isIdentifiable_of_mem_forms h)] at h
  rcases List.mem_append.mp h with hcond | hfull
  · right
    obtain ⟨shape', hshape, heq⟩ := List.mem_map.mp hcond
    cases heq
    refine ⟨rfl, ?_⟩
    rw [Option.mem_toList, conditionalShape?] at hshape
    split at hshape
    · next first equals rest htokens =>
      obtain ⟨index, hindex, hshape⟩ := Option.bind_eq_some_iff.mp hshape
      obtain ⟨type, htype, hshape⟩ := Option.bind_eq_some_iff.mp hshape
      split at hshape
      · next hguard =>
        cases hshape
        rw [Bool.and_eq_true] at hguard
        exact ⟨first, equals, rest, index, type, htokens, hindex, hguard.1, htype, hguard.2, rfl⟩
      · cases hshape
    · cases hshape
  · left
    cases List.mem_singleton.mp hfull
    exact ⟨rfl, rfl⟩

/-- A placeholder is a value. -/
theorem isValue_of_tokenIndex? {t : Token} {index : Nat} (h : tokenIndex? t = some index) :
    t.isValue = true := by
  unfold tokenIndex? at h
  split at h
  · next hkind => simp [Token.isValue, hkind]
  · cases h

/-- An operator is none. -/
theorem isValue_of_isOperator {t : Token} {text : String} (h : t.isOperator text = true) :
    t.isValue = false := by
  simp only [Token.isOperator, Token.isOperatorKind, Bool.and_eq_true, Bool.or_eq_true,
    beq_iff_eq] at h
  rcases h.1 with hkind | hkind <;> simp [Token.isValue, hkind]

/-- A run of tokens with a form of the command has a value for each parameter, except the return value
that the form leaves out. -/
theorem Spaced.le_countP {d : Definition} (h : d.Spaced) {ts : List Token} {omits : Bool}
    (hform : (⟨Token.shape ts, omits⟩ : Form) ∈ d.forms) (hsolid : ∀ t ∈ ts, t.Solid)
    (hsigil : ∀ t ∈ ts, t.isSigil = false) :
    d.parameters.length ≤ ts.countP Token.isValue + if omits then 1 else 0 := by
  have htemplate : ∀ t ∈ tokens d.text, t.Solid := fun t ht => solid_of_mem_tokens ht
  rcases of_mem_forms hform with ⟨rfl, hshape⟩ |
    ⟨rfl, first, equals, rest, index, type, htokens, hindex, hequals, -, -, hshape⟩
  · exact Nat.le_trans h (Token.values_le_of_shape_eq hsolid htemplate hshape hsigil)
  · rw [htokens] at htemplate
    have hle := Token.values_le_of_shape_eq hsolid
      (fun t ht => htemplate t (List.mem_cons_of_mem _ (List.mem_cons_of_mem _ ht))) hshape hsigil
    rw [Spaced, htokens, List.countP_cons_of_pos (isValue_of_tokenIndex? hindex),
      List.countP_cons_of_neg (by simp [isValue_of_isOperator hequals])] at h
    simp only [if_true]
    omega

end Definition

end MissionScript
