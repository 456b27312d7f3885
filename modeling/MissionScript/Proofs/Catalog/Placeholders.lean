import MissionScript.Proofs.Catalog.Arrangement
import MissionScript.Proofs.Statement.Proper
import MissionScript.Proofs.Token.Indentation
import MissionScript.Proofs.Token.Scanning

/-!
# MissionScript.Proofs.Catalog.Placeholders

Where the first placeholder of a template stands.

A template whose first token is a placeholder shows that parameter first (`head?_of_displayOrder`). So a line that
leaves the return value out leaves out what would be shown first, and that is a return value that may
carry a conditional (`isConditionalReturn_of_omitsReturn`).
-/

namespace MissionScript

open Text

/-! ### Variables and strings -/

/-- A variable begins with a dollar sign, and a string with an apostrophe. -/
theorem first_of_kind_scan {place : Place} {c : Char} {cs : List Char} :
    ((scan place c cs).1 = .var → c = '$') ∧ ((scan place c cs).1 = .string → c = '\'') :=
  ⟨fun h => (scanned_of_kind h).1, fun h => (scanned_of_kind h).1⟩

/-- Where a line begins with a variable, its first character that is no blank is a dollar sign, and its
name follows. -/
theorem trimStart_of_tokens {text : String} {first : Token} {rest : List Token}
    (htokens : tokens text = first :: rest) (hkind : first.kind = .var) :
    ∃ cs, trimStart text.toList = '$' :: cs ∧
      first.text = String.ofList ('$' :: cs.takeWhile isNameChar) := by
  cases hcs : trimStart text.toList with
  | nil =>
      rw [tokens_of_trimStart_nil hcs] at htokens
      cases htokens
  | cons c cs =>
      obtain ⟨first', rest', htokens', hkind', htext⟩ := tokens_of_trimStart hcs
      obtain ⟨rfl, -⟩ := List.cons.inj (htokens'.symm.trans htokens)
      have hc : c = '$' := first_of_kind_scan.1 (hkind'.symm.trans hkind)
      subst hc
      exact ⟨cs, rfl, htext⟩

/-! ### The first placeholder -/

namespace Definition

theorem placeholders_trimStart (cs : List Char) : placeholders (trimStart cs) = placeholders cs := by
  induction cs with
  | nil => rfl
  | cons c cs ih =>
      unfold trimStart
      by_cases hblank : isBlank c = true
      · have hdollar : c ≠ '$' := by
          rintro rfl
          revert hblank
          decide
        rw [List.dropWhile_cons_of_pos hblank, placeholders, if_neg fun h => hdollar h.1]
        exact ih
      · rw [List.dropWhile_cons_of_neg hblank]

theorem takeWhile_eq_of_imp {p q : Char → Bool} {cs : List Char} (himp : ∀ c, p c = true → q c = true)
    (hall : ∀ c ∈ cs.takeWhile q, p c = true) : cs.takeWhile p = cs.takeWhile q := by
  induction cs with
  | nil => rfl
  | cons c cs ih =>
      by_cases hq : q c = true
      · rw [List.takeWhile_cons_of_pos hq] at hall ⊢
        rw [List.takeWhile_cons_of_pos (hall c List.mem_cons_self),
          ih fun d hd => hall d (List.mem_cons_of_mem _ hd)]
      · rw [List.takeWhile_cons_of_neg hq, List.takeWhile_cons_of_neg fun hp => hq (himp c hp)]

/-- The first placeholder of a template that begins with one. -/
theorem placeholders_of_tokenIndex? {text : String} {first : Token} {rest : List Token} {index : Nat}
    (htokens : tokens text = first :: rest) (hindex : tokenIndex? first = some index) :
    ∃ digits more, placeholders text.toList = digits :: more ∧
      Number.digits? digits = some index := by
  unfold tokenIndex? at hindex
  split at hindex
  · next hkind =>
    obtain ⟨cs, hcs, htext⟩ := trimStart_of_tokens htokens hkind
    rw [htext, String.toList_ofList, List.tail_cons] at hindex
    have hdigits : ∀ c ∈ cs.takeWhile isNameChar, isDecimalDigit c = true := by
      unfold Number.digits? at hindex
      split at hindex
      · cases hindex
      · next hdigits =>
        simp only [Bool.or_eq_true, Bool.not_eq_true', not_or, Bool.not_eq_false] at hdigits
        exact fun c hc => isDecimalDigit_of_isDigit (List.all_eq_true.mp hdigits.2 c hc)
    have hname : cs.takeWhile isDecimalDigit = cs.takeWhile isNameChar :=
      takeWhile_eq_of_imp (fun c hc => by simp [isNameChar, isNumeral_of_isDecimalDigit hc]) hdigits
    have hhead : cs.head?.any isDecimalDigit = true := by
      cases cs with
      | nil => cases hindex
      | cons d ds =>
          by_cases hd : isDecimalDigit d = true
          · exact hd
          · rw [← hname, List.takeWhile_cons_of_neg hd] at hindex
            cases hindex
    refine ⟨cs.takeWhile isDecimalDigit, placeholders cs, ?_, by rw [hname]; exact hindex⟩
    rw [← placeholders_trimStart, hcs, placeholders, if_pos ⟨rfl, hhead⟩]
  · cases hindex

/-- The first placeholder comes first in the display order. -/
theorem head?_of_displayOrder {count : Nat} {text : String} {order : List Nat} {first : Token}
    {rest : List Token} {index : Nat} (h : displayOrder count text = .ok order)
    (htokens : tokens text = first :: rest) (hindex : tokenIndex? first = some index) :
    order.head? = some index := by
  obtain ⟨digits, more, hplaceholders, hdigits⟩ := placeholders_of_tokenIndex? htokens hindex
  have hmap := (displayOrder_eq_ok_iff.mp h).1
  rw [hplaceholders, List.map_cons] at hmap
  cases order with
  | nil => cases hmap
  | cons start later =>
      obtain ⟨hstart, -⟩ := List.cons.inj hmap
      obtain ⟨hsome, -⟩ := Option.filter_eq_some_iff.mp hstart
      rw [← hdigits, hsome]
      rfl

end Definition

namespace Catalog

/-- The return value that a line leaves out would be shown first, and may carry a conditional. -/
theorem Reachable.isConditionalReturn_of_omitsReturn {c : Catalog} (hc : c.Reachable) {d : Definition}
    (hd : d ∈ c.definitions) {shape : String} (hform : (⟨shape, true⟩ : Form) ∈ d.forms)
    {slot : Slot} (hslot : d.slotAtDisplay? 0 = some slot) : slot.type.isConditionalReturn = true := by
  have horder : Definition.displayOrder d.parameters.length d.text = .ok d.order :=
    hc.forall_of_arrange (P := fun d => Definition.displayOrder d.parameters.length d.text = .ok d.order)
      (fun h => by
        obtain ⟨order, horder, rfl⟩ := Definition.arrange_eq_ok h
        exact horder) d hd
  rcases Definition.of_mem_forms hform with ⟨hfull, -⟩ |
    ⟨-, first, equals, rest, index, type, htokens, hindex, -, htype, hreturn, -⟩
  · cases hfull
  · obtain ⟨hfirst, hslot'⟩ := Definition.of_slotAtDisplay? hslot
    rw [← List.head?_eq_getElem?, Definition.head?_of_displayOrder horder htokens hindex] at hfirst
    cases hfirst
    rw [Option.some.inj ((Definition.of_slot? hslot').2.symm.trans htype)]
    exact hreturn

end Catalog

end MissionScript
