import MissionScript.Proofs.Text.Decimals
import MissionScript.Proofs.Token.Extent
import MissionScript.Proofs.Token.Scanning
import MissionScript.Proofs.Token.Shape

/-!
# MissionScript.Proofs.Token.Numbers

What the lexer takes for a number is one: digits, with or without a minus sign (`Lexed.exists_decimal`).
So the only thing that can be wrong with it is its size (`Lexed.outOfRange_iff`).
-/

namespace MissionScript

open Text

/-! ### Scanning -/

/-- What is scanned as a number is one. -/
theorem decimal_of_kind_scan {place : Place} {c : Char} {cs : List Char}
    (h : (scan place c cs).1 = .number) : ∃ n, Decimal (c :: (scan place c cs).2) n := by
  obtain ⟨hfirst, htail⟩ := scanned_of_kind h
  have hdigits : ∀ d ∈ cs.takeWhile Char.isDigit, d.isDigit = true :=
    fun d hd => List.all_eq_true.mp List.all_takeWhile d hd
  rw [htail]
  rcases hfirst with hdigit | ⟨rfl, hnext⟩
  · exact ⟨_, .plain (List.cons_ne_nil _ _) (List.forall_mem_cons.mpr ⟨hdigit, hdigits⟩)⟩
  · obtain ⟨d, hd, hdigit⟩ := (Option.any_eq_true _ _).mp hnext
    obtain ⟨rest, rfl⟩ := List.head?_eq_some_iff.mp hd
    exact ⟨_, .negative (by simp [hdigit]) hdigits⟩

/-! ### Numbers on a line -/

namespace Token

/-- The token is one that the lexer finds on some line. In a commented command it is moved to the
right. -/
def Lexed (t : Token) : Prop := ∃ text, ∃ u ∈ lex text, ∃ offset, t = u.shift offset

/-- The token is a number that does not fit into 32 bits. -/
def OutOfRange (t : Token) : Prop :=
  t.kind = .number ∧ ∃ n, Number.signed? t.text.toList = some n ∧ (n < -0x80000000 ∨ 0x80000000 ≤ n)

theorem lexed_of_mem_tokens {text : String} {t : Token} (h : t ∈ tokens text) : t.Lexed :=
  ⟨text, t, (tokens_sublist_lex text).subset h, 0, rfl⟩

/-- Every token that the lexer finds is scanned somewhere. -/
theorem Lexed.exists_scan {t : Token} (h : t.Lexed) :
    ∃ place c cs, t.kind = (scan place c cs).1 ∧ t.text.toList = c :: (scan place c cs).2 := by
  obtain ⟨text, u, hu, offset, rfl⟩ := h
  obtain ⟨place, c, cs, hkind, htext⟩ := MissionScript.exists_scan hu
  exact ⟨place, c, cs, hkind, by rw [shift_text, htext, String.toList_ofList]⟩

theorem Lexed.exists_decimal {t : Token} (h : t.Lexed) (hkind : t.kind = .number) :
    ∃ n, Decimal t.text.toList n := by
  obtain ⟨place, c, cs, hscan, htext⟩ := h.exists_scan
  rw [htext]
  exact decimal_of_kind_scan (hscan.symm.trans hkind)

theorem Lexed.outOfRange_iff {t : Token} (h : t.Lexed) :
    t.OutOfRange ↔ ¬ (t.kind = .number → (Number.ofText? t.text).isSome = true) := by
  rw [Classical.not_imp]
  refine and_congr_right fun hkind => ?_
  obtain ⟨n, hn⟩ := h.exists_decimal hkind
  rw [hn.signed?_eq, hn.ofText?_eq]
  simp only [Option.some.injEq, exists_eq_left', Option.isSome_ite]
  omega

end Token

end MissionScript
