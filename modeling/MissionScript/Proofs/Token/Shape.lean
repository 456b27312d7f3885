import MissionScript.Proofs.Token.Scanning

/-!
# MissionScript.Proofs.Token.Shape

What the shape of a line says about its tokens.

The lexer makes *solid* tokens (`solid_of_mem_lexFrom`): what a shape shows of them has no blank in it.
So a shape can be taken apart again, and two runs of tokens with the same shape show the same pieces
(`pieces_eq_of_shape_eq`). A value is shown as a dollar sign, but so is a dollar sign that stands alone.
Where none does, a run of tokens has at least as many values as any other of its shape
(`values_le_of_shape_eq`).
-/

namespace MissionScript

open Text

/-! ### What the lexer makes -/

/-- The kinds of token that a shape shows as they are written. -/
def TokenKind.isPlain : TokenKind → Bool
  | .word | .keyword | .unaryOp | .binaryOp => true
  | _ => false

namespace Token

/-- Is the token a dollar sign without a name? -/
def isSigil (t : Token) : Bool := t.isOperator "$"

/-- A token as the lexer makes it: what a shape shows of it has no blank in it, and only a dollar sign
that stands alone is shown like a value. -/
structure Solid (t : Token) : Prop where
  ne_nil : t.text.toList ≠ []
  unbroken : t.kind.isPlain = true → ' ' ∉ t.text.toList
  isSigil_of_text : t.kind.isPlain = true → t.text = "$" → t.isSigil = true

end Token

theorem not_isBlank_of_mem_optionally {c d : Char} {cs : List Char} (hc : isBlank c = false)
    (h : d ∈ optionally c cs) : isBlank d = false := by
  unfold optionally at h
  split at h
  · rw [List.mem_singleton.mp h]
    exact hc
  · cases h

theorem not_isBlank_of_operatorTail? {c : Char} {cs : List Char} {found : TokenKind × List Char}
    (h : operatorTail? c cs = some found) : ∀ d ∈ found.2, isBlank d = false := by
  unfold operatorTail? at h
  split at h
  all_goals first
    | (cases h; intro d hd; first
        | cases hd
        | exact not_isBlank_of_mem_optionally (by decide) hd)
    | (split at h
       · cases h
         simp only [List.forall_mem_cons, List.not_mem_nil, false_implies, implies_true, and_true]
         decide
       · cases h)
    | cases h

/-- A token that a shape shows as it is written has no blank in it, and only a dollar sign that stands
alone starts with one. -/
theorem scan_plain {place : Place} {c : Char} {cs : List Char}
    (h : (scan place c cs).1.isPlain = true) :
    (∀ d ∈ c :: (scan place c cs).2, isBlank d = false) ∧
      (c = '$' → scan place c cs = (.unaryOp, [])) := by
  obtain ⟨⟨kind, tail⟩, hfound⟩ : ∃ found, scan place c cs = found := ⟨_, rfl⟩
  rw [hfound] at h ⊢
  dsimp only at h ⊢
  cases scan_eq_iff.mp hfound with
  | blank | comment | number | var | object | string | constant => cases h
  | sigil hplace hc hname => exact ⟨by simp [hc]; decide, fun _ => rfl⟩
  | operator hplace hnumber hconstant hoperator =>
      obtain ⟨hblank, -, hc⟩ := of_startsOperator
        (isSome_operatorTail? c cs ▸ Option.isSome_of_eq_some hoperator)
      exact ⟨List.forall_mem_cons.mpr ⟨hblank, not_isBlank_of_operatorTail? hoperator⟩,
        fun heq => absurd (heq ▸ List.mem_cons_self) hc⟩
  | word hplace hblank hdigit hc hoperator =>
      refine ⟨List.forall_mem_cons.mpr ⟨hblank, fun d hd => ?_⟩,
        fun heq => absurd (heq ▸ List.mem_cons_self) hc⟩
      have hword := List.all_eq_true.mp List.all_takeWhile d hd
      simp only [isWordChar, Bool.and_eq_true, Bool.not_eq_true'] at hword
      exact hword.2

/-- Every token is scanned somewhere. -/
theorem exists_scan {keepBlanks : Bool} {place : Place} {start : Nat} {cs : List Char} {t : Token}
    (h : t ∈ lexFrom keepBlanks place start cs) :
    ∃ place' c cs', t.kind = (scan place' c cs').1 ∧
      t.text = String.ofList (c :: (scan place' c cs').2) := by
  fun_induction lexFrom keepBlanks place start cs with
  | case1 => cases h
  | case2 place start c cs found token rest hskip ih => exact ih h
  | case3 place start c cs found token rest hskip ih =>
      rcases List.mem_cons.mp h with rfl | hmem
      · exact ⟨place, c, cs, rfl, rfl⟩
      · exact ih hmem

theorem solid_of_mem_lexFrom {keepBlanks : Bool} {place : Place} {start : Nat} {cs : List Char}
    {t : Token} (h : t ∈ lexFrom keepBlanks place start cs) : t.Solid := by
  obtain ⟨place, c, cs, hkind, htext⟩ := exists_scan h
  refine ⟨by simp [htext], ?_, ?_⟩
  · intro hplain hmem
    rw [hkind] at hplain
    rw [htext, String.toList_ofList] at hmem
    have hblank := (scan_plain hplain).1 ' ' hmem
    revert hblank
    decide
  · intro hplain heq
    rw [hkind] at hplain
    have hc : c = '$' := by
      rw [htext] at heq
      have hlist := congrArg String.toList heq
      rw [String.toList_ofList] at hlist
      exact (List.cons.inj hlist).1
    have hscan := (scan_plain hplain).2 hc
    rw [hscan] at hkind
    simp [Token.isSigil, Token.isOperator, Token.isOperatorKind, hkind, heq]

theorem solid_of_mem_tokens {text : String} {t : Token} (h : t ∈ tokens text) : t.Solid :=
  solid_of_mem_lexFrom h

/-! ### Shapes can be taken apart -/

namespace Token

/-- What a shape shows of a token. -/
def piece (t : Token) : String := if t.isValue then "$" else t.text

/-- The pieces of the shape of a run of tokens. -/
def pieces (ts : List Token) : List String :=
  (ts.filter fun t => t.kind != .blank && t.kind != .comment).map piece

theorem shape_eq (ts : List Token) : shape ts = " ".intercalate (pieces ts) := rfl

theorem isPlain_of_not_isValue {t : Token} (hvalue : t.isValue = false) (hblank : t.kind ≠ .blank)
    (hcomment : t.kind ≠ .comment) : t.kind.isPlain = true := by
  unfold isValue at hvalue
  cases hk : t.kind <;> simp_all [TokenKind.isPlain]

theorem of_mem_pieces {ts : List Token} (h : ∀ t ∈ ts, t.Solid) {s : String} (hs : s ∈ pieces ts) :
    s.toList ≠ [] ∧ ' ' ∉ s.toList := by
  obtain ⟨t, ht, rfl⟩ := List.mem_map.mp hs
  obtain ⟨hmem, hkind⟩ := List.mem_filter.mp ht
  unfold piece
  cases hvalue : t.isValue with
  | true =>
      rw [if_pos rfl]
      decide
  | false =>
      simp only [Bool.and_eq_true, bne_iff_ne] at hkind
      have hplain := isPlain_of_not_isValue hvalue hkind.1 hkind.2
      exact ⟨(h t hmem).ne_nil, (h t hmem).unbroken hplain⟩

/-- Runs of tokens that look the same show the same pieces. -/
theorem pieces_eq_of_shape_eq {ts us : List Token} (hts : ∀ t ∈ ts, t.Solid)
    (hus : ∀ t ∈ us, t.Solid) (h : shape ts = shape us) : pieces ts = pieces us := by
  have hchars := congrArg String.toList h
  rw [shape_eq, shape_eq, String.toList_intercalate, String.toList_intercalate] at hchars
  -- without pieces nothing is shown
  have empty : ∀ {vs : List Token}, (∀ t ∈ vs, t.Solid) →
      " ".toList.intercalate ((pieces vs).map String.toList) = [] → pieces vs = [] := by
    intro vs hvs hnil
    cases hp : pieces vs with
    | nil => rfl
    | cons s rest =>
        have hs := (of_mem_pieces hvs (s := s) (by rw [hp]; exact List.mem_cons_self)).1
        rw [hp] at hnil
        cases rest with
        | nil => simp [hs] at hnil
        | cons s' rest => simp [hs] at hnil
  have split : ∀ {vs : List Token}, (∀ t ∈ vs, t.Solid) → pieces vs ≠ [] →
      (" ".toList.intercalate ((pieces vs).map String.toList)).splitOn ' '
        = (pieces vs).map String.toList := by
    intro vs hvs hne
    refine List.splitOn_intercalate ' ' ?_ (by simpa using hne)
    intro l hl
    obtain ⟨s, hs, rfl⟩ := List.mem_map.mp hl
    exact (of_mem_pieces hvs hs).2
  by_cases hts' : pieces ts = []
  · rw [hts'] at hchars ⊢
    exact (empty hus hchars.symm).symm
  · have hus' : pieces us ≠ [] := by
      intro hnil
      rw [hnil] at hchars
      exact hts' (empty hts hchars)
    have hsplit := congrArg (List.splitOn ' ') hchars
    rw [split hts hts', split hus hus'] at hsplit
    exact (List.map_inj_right fun _ _ => String.toList_inj.mp).mp hsplit

/-! ### Values in a shape -/

/-- A dollar sign in a shape is a value, or a dollar sign that stands alone. -/
theorem piece_eq_iff {t : Token} (h : t.Solid) (hblank : t.kind ≠ .blank)
    (hcomment : t.kind ≠ .comment) : t.piece = "$" ↔ t.isValue = true ∨ t.isSigil = true := by
  unfold piece
  cases hvalue : t.isValue with
  | true => simp
  | false =>
      have hplain := isPlain_of_not_isValue hvalue hblank hcomment
      simp only [Bool.false_eq_true, if_false, false_or]
      refine ⟨h.isSigil_of_text hplain, ?_⟩
      intro hsigil
      simp only [isSigil, isOperator, Bool.and_eq_true, beq_iff_eq] at hsigil
      exact hsigil.2

/-- The dollar signs of a shape are the values and the dollar signs that stand alone. -/
theorem count_pieces {ts : List Token} (h : ∀ t ∈ ts, t.Solid) :
    (pieces ts).count "$" = ts.countP fun t => t.isValue || t.isSigil := by
  rw [pieces, List.count, List.countP_map, List.countP_filter]
  refine List.countP_congr ?_
  intro t ht
  simp only [Function.comp_apply, Bool.and_eq_true, beq_iff_eq, bne_iff_ne, Bool.or_eq_true]
  constructor
  · rintro ⟨hpiece, hblank, hcomment⟩
    exact (piece_eq_iff (h t ht) hblank hcomment).mp hpiece
  · intro hdollar
    have hkind : t.kind ≠ .blank ∧ t.kind ≠ .comment := by
      rcases hdollar with hvalue | hsigil
      · constructor <;> intro hk <;> simp [isValue, hk] at hvalue
      · constructor <;> intro hk <;> simp [isSigil, isOperator, isOperatorKind, hk] at hsigil
    exact ⟨(piece_eq_iff (h t ht) hkind.1 hkind.2).mpr hdollar, hkind⟩

/-- A run of tokens in which no dollar sign stands alone has all the values that its shape leaves room
for. -/
theorem values_le_of_shape_eq {ts us : List Token} (hts : ∀ t ∈ ts, t.Solid)
    (hus : ∀ t ∈ us, t.Solid) (h : shape ts = shape us) (hsigil : ∀ t ∈ ts, t.isSigil = false) :
    us.countP isValue ≤ ts.countP isValue := by
  calc us.countP isValue
      ≤ us.countP fun t => t.isValue || t.isSigil :=
        List.countP_mono_left fun t _ hvalue => by simp [hvalue]
    _ = (pieces us).count "$" := (count_pieces hus).symm
    _ = (pieces ts).count "$" := by rw [pieces_eq_of_shape_eq hts hus h]
    _ = ts.countP fun t => t.isValue || t.isSigil := count_pieces hts
    _ = ts.countP isValue := List.countP_congr fun t ht => by simp [hsigil t ht]

end Token

end MissionScript
