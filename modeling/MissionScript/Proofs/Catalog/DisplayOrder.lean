import Mathlib.Data.List.TakeWhile
import MissionScript.Proofs.Catalog.Arrangement
import MissionScript.Proofs.Text.Decimals

/-!
# MissionScript.Proofs.Catalog.DisplayOrder

Arranging a definition yields a permutation.

Two relations say what a template means, without the functions that read it:

* `Marks` — what its placeholders are, apart from the order in which `placeholders` looks for them: a
  dollar sign and all decimal digits after it, with at least one digit. A template is read in one way
  only (`marks_iff`).
* `Denotes` — which parameter a placeholder stands for: the one whose position its digits are in decimal.
  Digits of other writing systems make a placeholder too, but it denotes nothing, and neither does one
  whose number has more than 64 bits (`placeholderIndex?_eq_some_iff`).

`isOk_arrange_iff` counts the placeholders: each parameter is denoted once. Then a slot can be looked up
by where it stands in the compiled command or by where it stands in the text, and each of the two
undoes the other (`Arranged.slotAtDisplay?_display`, `Arranged.display_of_slotAtDisplay?`). The main result is
`arrange_permutes_parameters`.
-/

namespace MissionScript

namespace Definition

/-! ### Placeholders of a template -/

/-- `Marks cs found`: the digits after the dollar signs of `cs` are those of `found`, from left to right.
A dollar sign without a digit after it is text like any other. -/
inductive Marks : List Char → List (List Char) → Prop
  | nil : Marks [] []
  | text {c : Char} {cs : List Char} {found : List (List Char)}
      (hc : c = '$' → ∀ d ∈ cs.head?, Text.isDecimalDigit d = false) (h : Marks cs found) :
      Marks (c :: cs) found
  | placeholder {digits rest : List Char} {found : List (List Char)} (hne : digits ≠ [])
      (hdigits : ∀ c ∈ digits, Text.isDecimalDigit c = true)
      (hrest : ∀ d ∈ rest.head?, Text.isDecimalDigit d = false) (h : Marks rest found) :
      Marks ('$' :: (digits ++ rest)) (digits :: found)

/-- There is no placeholder among digits. -/
theorem placeholders_append_of_digits {digits : List Char}
    (hdigits : ∀ c ∈ digits, Text.isDecimalDigit c = true) (rest : List Char) :
    placeholders (digits ++ rest) = placeholders rest := by
  induction digits with
  | nil => rfl
  | cons c digits ih =>
      obtain ⟨hc, hdigits⟩ := List.forall_mem_cons.mp hdigits
      have hdollar : c ≠ '$' := by
        intro heq
        rw [heq] at hc
        exact absurd hc (by decide)
      rw [List.cons_append, placeholders, if_neg fun h => hdollar h.1, ih hdigits]

theorem Marks.placeholders_eq {cs : List Char} {found : List (List Char)} (h : Marks cs found) :
    placeholders cs = found := by
  induction h with
  | nil => rfl
  | @text c cs found hc _ ih =>
      have hmark : ¬ (c = '$' ∧ cs.head?.any Text.isDecimalDigit = true) := by
        intro h
        obtain ⟨hdollar, hhead⟩ := h
        obtain ⟨d, hd, hdigit⟩ := (Option.any_eq_true _ _).mp hhead
        rw [hc hdollar d hd] at hdigit
        cases hdigit
      rw [placeholders, if_neg hmark, ih]
  | @placeholder digits rest found hne hdigits hrest _ ih =>
      have hhead : (digits ++ rest).head?.any Text.isDecimalDigit = true := by
        cases digits with
        | nil => exact absurd rfl hne
        | cons c digits => exact hdigits c List.mem_cons_self
      have hstop : rest.takeWhile Text.isDecimalDigit = [] := by
        cases rest with
        | nil => rfl
        | cons d rest => simp [hrest d rfl]
      rw [placeholders, if_pos ⟨rfl, hhead⟩, List.takeWhile_append_of_pos hdigits, hstop,
        List.append_nil, placeholders_append_of_digits hdigits, ih]

/-- Every template can be read. After a placeholder the reading goes on behind its digits. -/
theorem exists_marks (cs : List Char) : ∃ found, Marks cs found :=
  match cs with
  | [] => ⟨[], .nil⟩
  | c :: cs => by
      by_cases hmark : c = '$' ∧ ∃ d ∈ cs.head?, Text.isDecimalDigit d = true
      · obtain ⟨rfl, d, hd, hdigit⟩ := hmark
        obtain ⟨found, hfound⟩ := exists_marks (cs.dropWhile Text.isDecimalDigit)
        have hne : cs.takeWhile Text.isDecimalDigit ≠ [] := by
          obtain ⟨rest, rfl⟩ := List.head?_eq_some_iff.mp hd
          simp [hdigit]
        have hrest : ∀ e ∈ (cs.dropWhile Text.isDecimalDigit).head?,
            Text.isDecimalDigit e = false := by
          intro e he
          have hnot := List.head?_dropWhile_not Text.isDecimalDigit cs
          rw [Option.mem_def.mp he] at hnot
          exact hnot
        have hmarks := Marks.placeholder hne (fun c hc => List.mem_takeWhile_imp hc) hrest hfound
        rw [List.takeWhile_append_dropWhile] at hmarks
        exact ⟨_, hmarks⟩
      · obtain ⟨found, hfound⟩ := exists_marks cs
        refine ⟨found, .text ?_ hfound⟩
        intro hc d hd
        rw [← Bool.not_eq_true]
        exact fun hdigit => hmark ⟨hc, d, hd, hdigit⟩
termination_by cs.length
decreasing_by
  · exact Nat.lt_succ_of_le (List.dropWhile_sublist _).length_le
  · exact Nat.lt_succ_self _

theorem marks_iff {cs : List Char} {found : List (List Char)} :
    Marks cs found ↔ found = placeholders cs := by
  constructor
  · intro h
    exact h.placeholders_eq.symm
  · intro heq
    obtain ⟨found', h⟩ := exists_marks cs
    rw [heq, h.placeholders_eq]
    exact h

/-! ### What a placeholder denotes -/

/-- The placeholder with these digits stands for the parameter at `index`: they are ASCII digits, and
`index` is what they stand for in decimal, in 64 bits. -/
def Denotes (digits : List Char) (index : Nat) : Prop :=
  digits ≠ [] ∧ (∀ d ∈ digits, d.isDigit = true) ∧ decimalValue digits = index ∧
    index < 0x10000000000000000

theorem placeholderIndex?_eq_some_iff {digits : List Char} {index : Nat} :
    placeholderIndex? digits = some index ↔ Denotes digits index := by
  rw [placeholderIndex?, Option.filter_eq_some_iff, Number.digits?_eq_some_iff, decide_eq_true_eq,
    and_assoc, and_assoc]
  rfl

/-- The display order that is read consists of what the placeholders denote, one by one. -/
theorem forall₂_denotes_iff {found : List (List Char)} {order : List Nat} :
    List.Forall₂ Denotes found order ↔ found.map placeholderIndex? = order.map some := by
  rw [← List.forall₂_eq_eq_eq, List.forall₂_map_left_iff, List.forall₂_map_right_iff]
  simp only [placeholderIndex?_eq_some_iff]

/-! ### Acceptance -/

/-- A definition is accepted if the placeholders of its template denote each parameter once. -/
theorem isOk_arrange_iff {d : Definition} :
    (∃ e, d.arrange = .ok e) ↔
      ∃ order, List.Forall₂ Denotes (placeholders d.text.toList) order ∧
        order.Perm (List.range d.parameters.length) := by
  constructor
  · intro h
    obtain ⟨e, he⟩ := h
    obtain ⟨order, horder, -⟩ := arrange_eq_ok he
    obtain ⟨hmap, hperm⟩ := displayOrder_eq_ok_iff.mp horder
    exact ⟨order, forall₂_denotes_iff.mpr hmap, hperm⟩
  · intro h
    obtain ⟨order, hdenotes, hperm⟩ := h
    have horder := displayOrder_eq_ok_iff.mpr ⟨forall₂_denotes_iff.mp hdenotes, hperm⟩
    exact ⟨_, by rw [arrange, horder]; rfl⟩

/-! ### The two look-ups -/

variable {d : Definition}

theorem slot?_eq_none (d : Definition) {i : Nat} (hi : d.parameters.length ≤ i) :
    d.slot? i = none := by
  rw [slot?, List.getElem?_eq_none hi, Option.map_none]

theorem Arranged.slotAtDisplay?_eq_none (h : d.Arranged) {k : Nat}
    (hk : d.parameters.length ≤ k) : d.slotAtDisplay? k = none := by
  rw [← h.length_order] at hk
  rw [slotAtDisplay?, List.getElem?_eq_none hk, Option.bind_none]

/-- The place in the text that a slot gives is where the display order has its parameter. -/
theorem Arranged.getElem?_display (h : d.Arranged) {i : Nat} {slot : Slot}
    (hslot : d.slot? i = some slot) : d.order[slot.display]? = some i := by
  obtain ⟨type, htype, rfl⟩ := Option.map_eq_some_iff.mp hslot
  have hmem := h.mem_order (List.getElem?_eq_some_iff.mp htype).1
  obtain ⟨k, hk⟩ := Option.isSome_iff_exists.mp (List.isSome_idxOf?.mpr hmem)
  obtain ⟨hlt, heq, -⟩ := List.idxOf?_eq_some_iff.mp hk
  rw [hk, Option.getD_some, List.getElem?_eq_getElem hlt, heq]

/-- Looking up in the text undoes looking up in the compiled command. -/
theorem Arranged.slotAtDisplay?_display (h : d.Arranged) {i : Nat} {slot : Slot}
    (hslot : d.slot? i = some slot) : d.slotAtDisplay? slot.display = some slot := by
  rw [slotAtDisplay?, h.getElem?_display hslot, Option.bind_some, hslot]

/-- The slot found at a place in the text gives that place. -/
theorem Arranged.display_of_slotAtDisplay? (h : d.Arranged) {k : Nat} {slot : Slot}
    (hslot : d.slotAtDisplay? k = some slot) : slot.display = k := by
  obtain ⟨hk, hphysical⟩ := of_slotAtDisplay? hslot
  have hlt := (List.getElem?_eq_some_iff.mp hk).1
  exact ((List.getElem?_inj hlt h.nodup_order).mp
    (hk.trans (h.getElem?_display hphysical).symm)).symm

theorem Arranged.display_lt (h : d.Arranged) {i : Nat} {slot : Slot}
    (hslot : d.slot? i = some slot) : slot.display < d.parameters.length := by
  rw [← h.length_order]
  exact (List.getElem?_eq_some_iff.mp (h.getElem?_display hslot)).1

/-- A definition is accepted if its template denotes each parameter once and nothing else. Then every
parameter has a slot, with the type that is declared for it, and every placeholder has one, of the
parameter that it denotes; the two look-ups are inverse to each other, and there is no slot beyond. -/
theorem arrange_permutes_parameters (d : Definition) :
    ∃ found, (∀ other, Marks d.text.toList other ↔ other = found) ∧
      ((∃ e, d.arrange = .ok e) ↔
        ∃ order, List.Forall₂ Denotes found order ∧
          order.Perm (List.range d.parameters.length)) ∧
      ∀ e, d.arrange = .ok e →
        (∀ i, i < d.parameters.length → ∃ slot, e.slot? i = some slot ∧ slot.physical = i ∧
          d.parameters[i]? = some slot.type ∧ slot.display < d.parameters.length ∧
          e.slotAtDisplay? slot.display = some slot) ∧
        (∀ k, k < d.parameters.length → ∃ slot, e.slotAtDisplay? k = some slot ∧ slot.display = k ∧
          (∃ digits, found[k]? = some digits ∧ Denotes digits slot.physical) ∧
          slot.physical < d.parameters.length ∧ e.slot? slot.physical = some slot) ∧
        ∀ i, d.parameters.length ≤ i → e.slot? i = none ∧ e.slotAtDisplay? i = none := by
  refine ⟨placeholders d.text.toList, fun other => marks_iff, isOk_arrange_iff, ?_⟩
  intro e he
  have harranged := arranged_of_arrange he
  obtain ⟨order, horder, rfl⟩ := arrange_eq_ok he
  refine ⟨?_, ?_, ?_⟩
  · -- by physical position
    intro i hi
    obtain ⟨slot, hslot⟩ := exists_slot? (d := { d with order }) hi
    obtain ⟨hphysical, htype⟩ := of_slot? hslot
    exact ⟨slot, hslot, hphysical, htype, harranged.display_lt hslot,
      harranged.slotAtDisplay?_display hslot⟩
  · -- by display position, where the placeholder tells the slot
    intro k hk
    obtain ⟨slot, hslot⟩ := Option.isSome_iff_exists.mp (harranged.isSome_slotAtDisplay? hk)
    obtain ⟨hplace, hphysical⟩ := of_slotAtDisplay? hslot
    have hdenotes : ∃ digits, (placeholders d.text.toList)[k]? = some digits ∧
        Denotes digits slot.physical := by
      have hmap := congrArg (·[k]?) (displayOrder_eq_ok_iff.mp horder).1
      simp only [List.getElem?_map] at hmap
      rw [show order[k]? = some slot.physical from hplace] at hmap
      obtain ⟨digits, hdigits, hindex⟩ := Option.map_eq_some_iff.mp hmap
      exact ⟨digits, hdigits, placeholderIndex?_eq_some_iff.mp hindex⟩
    exact ⟨slot, hslot, harranged.display_of_slotAtDisplay? hslot, hdenotes,
      harranged.lt_of_mem _ (List.mem_of_getElem? hplace), hphysical⟩
  · -- beyond the parameters there are no slots
    intro i hi
    exact ⟨slot?_eq_none _ hi, harranged.slotAtDisplay?_eq_none hi⟩

/-- What is sent comes first in the compiled command, and the sender first in the text. -/
example : (displayOrder 3 "$1 -> send $0 to $2").toOption = some [1, 0, 2] := by decide +kernel

end Definition

end MissionScript
