import Mathlib.Data.List.Forall2
import MissionScript.Proofs.Token.Numbers

/-!
# MissionScript.Proofs.Token.Likeness

When two runs of tokens have the same shape.

A shape is one text, but no two runs of tokens that look different share it: what it shows of a token that
the lexer finds is never empty and has no blank in it, so the pieces between the blanks are the tokens
(`Token.pieces_eq_of_shape_eq`). Only a dollar sign is ambiguous. It is a value, or a dollar sign that stands
alone (`Token.piece_eq_piece_iff`). So runs of the same shape are alike token by token.
-/

namespace MissionScript

namespace Token

/-- The tokens that a shape shows. -/
def shown (ts : List Token) : List Token := ts.filter fun t => t.kind != .blank && t.kind != .comment

/-- Two tokens that a shape does not tell apart: neither is a value and their texts are the same, or each of
them is a value or a dollar sign that stands alone. -/
def Alike (t u : Token) : Prop :=
  t.isValue = false ∧ u.isValue = false ∧ t.text = u.text ∨
    (t.isValue = true ∨ t.isSigil = true) ∧ (u.isValue = true ∨ u.isSigil = true)

theorem Lexed.solid {t : Token} (h : t.Lexed) : t.Solid := by
  obtain ⟨text, u, hu, offset, rfl⟩ := h
  have hsolid : u.Solid := solid_of_mem_lexFrom hu
  exact ⟨hsolid.ne_nil, hsolid.unbroken, hsolid.isSigil_of_text⟩

theorem of_mem_shown {ts : List Token} {t : Token} (h : t ∈ shown ts) :
    t ∈ ts ∧ t.kind ≠ .blank ∧ t.kind ≠ .comment := by
  simpa [shown] using h

/-- Tokens that are shown in the same way are alike. -/
theorem piece_eq_piece_iff {t u : Token} (ht : t.Solid) (htkind : t.kind ≠ .blank ∧ t.kind ≠ .comment)
    (hu : u.Solid) (hukind : u.kind ≠ .blank ∧ u.kind ≠ .comment) :
    t.piece = u.piece ↔ t.Alike u := by
  have htdollar := piece_eq_iff ht htkind.1 htkind.2
  have hudollar := piece_eq_iff hu hukind.1 hukind.2
  constructor
  · intro heq
    by_cases hdollar : t.piece = "$"
    · exact .inr ⟨htdollar.mp hdollar, hudollar.mp (heq ▸ hdollar)⟩
    · -- what is not shown as a dollar sign is shown as it is written
      have htvalue : t.isValue = false :=
        Bool.eq_false_iff.mpr fun hvalue => hdollar (htdollar.mpr (.inl hvalue))
      have huvalue : u.isValue = false :=
        Bool.eq_false_iff.mpr fun hvalue => hdollar (heq.trans (hudollar.mpr (.inl hvalue)))
      rw [piece, piece, htvalue, huvalue] at heq
      exact .inl ⟨htvalue, huvalue, heq⟩
  · rintro (⟨htvalue, huvalue, htext⟩ | ⟨hts, hus⟩)
    · rw [piece, piece, htvalue, huvalue]
      exact htext
    · rw [htdollar.mpr hts, hudollar.mpr hus]

/-- Two runs of tokens that the lexer finds, on the same line or on different ones, have the same shape
exactly when they are alike token by token once blanks and comments are left out. -/
theorem shape_eq_iff_alike {ts us : List Token} (hts : ∀ t ∈ ts, t.Lexed) (hus : ∀ u ∈ us, u.Lexed) :
    shape ts = shape us ↔ List.Forall₂ Alike (shown ts) (shown us) := by
  have hpieces : shape ts = shape us ↔ pieces ts = pieces us :=
    ⟨pieces_eq_of_shape_eq (fun t ht => (hts t ht).solid) fun u hu => (hus u hu).solid,
      fun h => by rw [shape_eq, shape_eq, h]⟩
  have halike : ∀ t ∈ shown ts, ∀ u ∈ shown us, (t.piece = u.piece ↔ t.Alike u) := by
    intro t ht u hu
    obtain ⟨ht, htkind⟩ := of_mem_shown ht
    obtain ⟨hu, hukind⟩ := of_mem_shown hu
    exact piece_eq_piece_iff (hts t ht).solid htkind (hus u hu).solid hukind
  rw [hpieces, show pieces ts = (shown ts).map piece from rfl,
    show pieces us = (shown us).map piece from rfl, ← List.forall₂_eq_eq_eq, List.forall₂_map_left_iff,
    List.forall₂_map_right_iff, List.forall₂_iff_zip, List.forall₂_iff_zip]
  refine and_congr_right fun _ => forall_congr' fun t => forall_congr' fun u => ?_
  refine imp_congr_right fun hzip => ?_
  obtain ⟨ht, hu⟩ := List.of_mem_zip hzip
  exact halike t ht u hu

/-- A line with blanks and one without, where a number stands for a dollar sign that stands alone. -/
theorem shape_eq_iff_alike_sigil :
    shape (tokens "get {Argon Prime} size = $") = "get $ size = $" ∧
      shape (lex "get 'x y'  size=-5") = "get $ size = $" ∧
      List.Forall₂ Alike (shown (tokens "get {Argon Prime} size = $"))
        (shown (lex "get 'x y'  size=-5")) := by
  have hsigil : shape (tokens "get {Argon Prime} size = $") = "get $ size = $" := by decide +kernel
  have hnumber : shape (lex "get 'x y'  size=-5") = "get $ size = $" := by decide +kernel
  refine ⟨hsigil, hnumber, (shape_eq_iff_alike ?_ ?_).mp (hsigil.trans hnumber.symm)⟩
  · exact fun t ht => lexed_of_mem_tokens ht
  · exact fun u hu => ⟨_, u, hu, 0, rfl⟩

end Token

end MissionScript
