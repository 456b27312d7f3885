import MissionScript.Parameter
import MissionScript.Proofs.Token.Numbers
import MissionScript.Proofs.Token.Templates

/-!
# MissionScript.Proofs.Token.Values

What the value tokens of a line stand for.

A value is cut out of the text of its token: a sign or a bracket is dropped, and digits are read. This works
because the scanners leave texts of a fixed shape for each kind. `Spells` has these shapes, with the value that
each of them stands for. Every value token but a string has such a text (`Token.Lexed.exists_spells`), and it is
read as what the text spells (`Spells.exists_read_eq`), unless that is a number beyond 32 bits
(`Decimal.read_eq`).

The values of strings are the matter of `MissionScript.Proofs.Token.Strings`.
-/

namespace MissionScript

open Text

/-! ### Shapes of texts -/

/-- The value that the text of a token of a kind stands for. The closing bracket of an object or a constant may
be missing, and none is inside. -/
inductive Spells : TokenKind → List Char → Value → Prop
  | number {cs : List Char} {n : Int} (hdecimal : Decimal cs n) : Spells .number cs (.int n)
  | var {name : List Char} (hne : name ≠ []) (hname : ∀ c ∈ name, isNameChar c = true) :
      Spells .var ('$' :: name) (.str (String.ofList name))
  | object {body closing : List Char} (hbody : '}' ∉ body) (hclosing : closing = ['}'] ∨ closing = []) :
      Spells .object ('{' :: (body ++ closing)) (.str (String.ofList body))
  | constant {body closing : List Char} (hbody : ']' ∉ body) (hclosing : closing = [']'] ∨ closing = []) :
      Spells .constant ('[' :: (body ++ closing)) (.str (String.ofList body))
  | null : Spells .null ['n', 'u', 'l', 'l'] (.int 0)
  | label {cs : List Char} (hne : cs ≠ []) (hword : ∀ c ∈ cs, isWordChar c = true) :
      Spells .label cs (.str (String.ofList cs))

/-- What the lexer takes up to a bracket is a body without one, and the bracket if there is one. -/
theorem exists_body_of_throughClose (close : Char) (cs : List Char) :
    ∃ body closing, throughClose close cs = body ++ closing ∧ close ∉ body ∧
      (closing = [close] ∨ closing = []) := by
  rcases throughClose_cases close cs with ⟨body, hbody, hclosed⟩ | ⟨hall, hopen⟩
  · exact ⟨body, [close], hclosed, hbody, .inl rfl⟩
  · exact ⟨cs, [], by rw [hall, List.append_nil], hopen, .inr rfl⟩

/-- A character that starts no operator and no token of its own kind, and is not blank, may stand in a word. -/
theorem isWordChar_of_operatorTail? {c : Char} {cs : List Char} (hblank : isBlank c = false)
    (hc : c ∉ ['$', '{', '\'']) (hfound : operatorTail? c cs = none) : isWordChar c = true := by
  have hall : "=<>!~-+*/&^|(),:[]$\x7b\x7d'%".toList.all
      (fun d => ['$', '{', '\''].contains d || operatorSigns.contains d) = true := by decide
  have hstarts : startsOperator c cs = false := by
    rw [← isSome_operatorTail?, hfound, Option.isSome_none]
  rw [startsOperator, Bool.or_eq_false_iff] at hstarts
  rw [isWordChar, hblank, Bool.not_false, Bool.and_true, Bool.not_eq_true', Bool.eq_false_iff]
  intro hreserved
  have hd := List.all_eq_true.mp hall c (List.contains_iff_mem.mp hreserved)
  rw [hstarts.1, Bool.or_false, List.contains_iff_mem] at hd
  exact hc hd

theorem wordKind_null (place : Place) (next : Option Char) : wordKind place "null" next = .null := by
  simp [wordKind]

/-- Of all words, only the one for no value is a literal. -/
theorem text_of_isLiteral_wordKind {place : Place} {text : String} {next : Option Char}
    (h : (wordKind place text next).isLiteral = true) : text = "null" := by
  unfold wordKind at h
  split at h
  · next hnull => exact beq_iff_eq.mp hnull
  · cases place with
    | lineStart =>
        dsimp only at h
        split at h
        · cases h
        · split at h <;> cases h
    | second | third => dsimp only at h; split at h <;> cases h
    | afterStar | afterJump | later => cases h

/-- The text that a value token other than a string is scanned as spells a value. -/
theorem Scans.exists_spells {place : Place} {c : Char} {cs tail : List Char} {kind : TokenKind}
    (h : Scans place c cs kind tail) (hkind : kind.isLiteral = true ∨ kind = .label)
    (hstring : kind ≠ .string) : ∃ v, Spells kind (c :: tail) v := by
  have hscan := h.scan_eq
  cases h with
  | blank | comment | sigil => simp [TokenKind.isLiteral] at hkind
  | number =>
      obtain ⟨n, hn⟩ := decimal_of_kind_scan (congrArg Prod.fst hscan)
      rw [hscan] at hn
      exact ⟨_, .number hn⟩
  | var hplace hc hname =>
      subst hc
      exact ⟨_, .var hname fun d hd => List.all_eq_true.mp List.all_takeWhile d hd⟩
  | object hplace hc =>
      subst hc
      obtain ⟨body, closing, htail, hbody, hclosing⟩ := exists_body_of_throughClose '}' cs
      rw [htail]
      exact ⟨_, .object hbody hclosing⟩
  | string => exact absurd rfl hstring
  | constant hplace hc hletter =>
      subst hc
      obtain ⟨body, closing, htail, hbody, hclosing⟩ := exists_body_of_throughClose ']' cs
      rw [htail]
      exact ⟨_, .constant hbody hclosing⟩
  | operator hplace hnumber hconstant hfound =>
      rcases kind_of_operatorTail? hfound with rfl | rfl <;> simp [TokenKind.isLiteral] at hkind
  | word hplace hblank hdigit hc hfound =>
      -- a word that stands for a value is a label, or the one that stands for nothing
      have hword : ∀ d ∈ c :: cs.takeWhile isWordChar, isWordChar d = true :=
        List.forall_mem_cons.mpr ⟨isWordChar_of_operatorTail? hblank hc hfound,
          fun d hd => List.all_eq_true.mp List.all_takeWhile d hd⟩
      rcases hkind with hliteral | hlabel
      · have htext := text_of_isLiteral_wordKind hliteral
        have hchars := congrArg String.toList htext
        rw [String.toList_ofList] at hchars
        rw [htext, wordKind_null, hchars]
        exact ⟨_, .null⟩
      · rw [hlabel]
        exact ⟨_, .label (List.cons_ne_nil _ _) hword⟩

/-! ### Values of tokens -/

theorem Token.isLiteral_or_eq_label {t : Token} (h : t.isValue = true) :
    t.kind.isLiteral = true ∨ t.kind = .label := by
  unfold isValue at h
  cases hk : t.kind <;> simp_all [TokenKind.isLiteral]

/-- Every value token other than a string has a text that spells a value. -/
theorem Token.Lexed.exists_spells {t : Token} (h : t.Lexed) (hvalue : t.isValue = true)
    (hstring : t.kind ≠ .string) : ∃ v, Spells t.kind t.text.toList v := by
  obtain ⟨place, c, cs, hkind, htext⟩ := h.exists_scan
  have hscans : Scans place c cs t.kind (scan place c cs).2 := scan_eq_iff.mp (by rw [hkind])
  rw [htext]
  exact hscans.exists_spells (isLiteral_or_eq_label hvalue) hstring

theorem stripBrackets_eq {opening close : Char} {body closing : List Char} (hbody : close ∉ body)
    (hclosing : closing = [close] ∨ closing = []) :
    stripBrackets opening close (opening :: (body ++ closing)) = body := by
  rw [stripBrackets, List.head?_cons, if_pos rfl, List.tail_cons]
  rcases hclosing with rfl | rfl
  · rw [List.getLast?_concat, if_pos rfl, List.dropLast_concat]
  · rw [List.append_nil, if_neg fun hlast => hbody (List.mem_of_getLast? hlast)]

/-- A number is read as the integer that it stands for if that has 32 bits, and is refused if not. -/
theorem Decimal.read_eq {t : Token} {n : Int} (h : Decimal t.text.toList n) (hkind : t.kind = .number) :
    Parameter.read t =
      if -0x80000000 ≤ n ∧ n < 0x80000000 then .ok (.integer, .int n)
      else .error (.outOfRange t.text) := by
  rw [Parameter.read, hkind]
  dsimp only
  rw [h.ofText?_eq]
  by_cases hfits : -0x80000000 ≤ n ∧ n < 0x80000000
  · rw [if_pos hfits, if_pos hfits]
  · rw [if_neg hfits, if_neg hfits]

/-- Any other token is read as what its text spells. -/
theorem Spells.exists_read_eq {t : Token} {v : Value} (h : Spells t.kind t.text.toList v)
    (hnumber : t.kind ≠ .number) : ∃ type, Parameter.read t = .ok (type, v) := by
  obtain ⟨kind, start, stop, text⟩ := t
  generalize hcs : text.toList = cs at h
  unfold Parameter.read
  dsimp only at h hnumber ⊢
  cases h with
  | number => exact absurd rfl hnumber
  | var => exact ⟨.var, by rw [hcs]; rfl⟩
  | object hbody hclosing => exact ⟨.object, by rw [hcs, stripBrackets_eq hbody hclosing]⟩
  | constant hbody hclosing => exact ⟨.constant, by rw [hcs, stripBrackets_eq hbody hclosing]⟩
  | null => exact ⟨.null, rfl⟩
  | label => exact ⟨.string, by rw [← hcs, String.ofList_toList]⟩

theorem ofToken_of_read {t : Token} {type : DataType} {v : Value} (slot : Slot)
    (h : Parameter.read t = .ok (type, v)) :
    Parameter.ofToken slot t = .ok ⟨slot, type, v, t.text, t.start, t.stop⟩ := by
  rw [Parameter.ofToken, h]
  rfl

/-- Every value token other than a number is read, and unless it is a string, as what its text spells. -/
theorem Token.Lexed.exists_read_eq {t : Token} (h : t.Lexed) (hvalue : t.isValue = true)
    (hnumber : t.kind ≠ .number) : ∃ type v, Parameter.read t = .ok (type, v) ∧
      (t.kind ≠ .string → Spells t.kind t.text.toList v) := by
  by_cases hstring : t.kind = .string
  · exact ⟨.string, _, by rw [Parameter.read, hstring], fun hother => absurd hstring hother⟩
  · obtain ⟨v, hv⟩ := h.exists_spells hvalue hstring
    obtain ⟨type, hread⟩ := hv.exists_read_eq hnumber
    exact ⟨type, v, hread, fun _ => hv⟩

/-- A value token is refused exactly when it is a number beyond 32 bits, and any other value token but a string
has the value that its text spells. -/
theorem Token.Lexed.ofToken_fails_iff_and_spells {t : Token} (h : t.Lexed) (hvalue : t.isValue = true)
    (slot : Slot) :
    (∀ e, Parameter.ofToken slot t = .error e ↔ e = .outOfRange t.text ∧ t.kind = .number ∧
      ∃ n, Decimal t.text.toList n ∧ ¬ (-0x80000000 ≤ n ∧ n < 0x80000000)) ∧
    (t.kind ≠ .string → ∀ p, Parameter.ofToken slot t = .ok p →
      Spells t.kind t.text.toList p.value) := by
  by_cases hnumber : t.kind = .number
  · obtain ⟨n, hn⟩ := h.exists_decimal hnumber
    have hout : (∃ m, Decimal t.text.toList m ∧ ¬ (-0x80000000 ≤ m ∧ m < 0x80000000)) ↔
        ¬ (-0x80000000 ≤ n ∧ n < 0x80000000) := by
      refine ⟨fun hexists => ?_, fun hout => ⟨n, hn, hout⟩⟩
      obtain ⟨m, hm, hout⟩ := hexists
      rwa [hm.unique hn] at hout
    have hread := hn.read_eq hnumber
    rw [hout]
    by_cases hfits : -0x80000000 ≤ n ∧ n < 0x80000000
    · rw [if_pos hfits] at hread
      rw [ofToken_of_read slot hread]
      refine ⟨fun e => by simp [hfits], fun _ p hp => ?_⟩
      obtain rfl := Except.ok.inj hp
      rw [hnumber]
      exact .number hn
    · rw [if_neg hfits] at hread
      rw [Parameter.ofToken, hread]
      refine ⟨fun e => ?_, fun _ p hp => ?_⟩
      · simp [Except.map, hnumber, hfits, eq_comm]
      · cases hp
  · obtain ⟨type, v, hread, hspells⟩ := h.exists_read_eq hvalue hnumber
    rw [ofToken_of_read slot hread]
    refine ⟨fun e => by simp [hnumber], fun hother p hp => ?_⟩
    obtain rfl := Except.ok.inj hp
    exact hspells hother

/-- The least number beyond 32 bits, and a constant without its closing bracket. -/
theorem Token.Lexed.ofToken_fails_iff_and_spells_open :
    (let t : Token := ⟨.number, 7, 17, "2147483648"⟩
     t.Lexed ∧ t.isValue = true ∧
       Parameter.ofToken (.operand 0) t = .error (.outOfRange "2147483648")) ∧
    (let t : Token := ⟨.constant, 7, 17, "[Local Var"⟩
     t.Lexed ∧ t.isValue = true ∧ t.kind ≠ .string ∧ ∃ p, Parameter.ofToken (.operand 0) t = .ok p ∧
       p.value = .str "Local Var" ∧ Spells .constant t.text.toList p.value) := by
  constructor
  · have hmem : (⟨.number, 7, 17, "2147483648"⟩ : Token) ∈ tokens "return 2147483648" := by
      decide +kernel
    have hlexed := Token.lexed_of_mem_tokens hmem
    have hfails := (hlexed.ofToken_fails_iff_and_spells rfl (.operand 0)).1 (.outOfRange "2147483648")
    have hdecimal : Decimal "2147483648".toList (decimalValue "2147483648".toList) :=
      .plain (by decide) (List.all_eq_true.mp (by decide))
    have hvalue : decimalValue "2147483648".toList = 2147483648 := by decide +kernel
    exact ⟨hlexed, rfl, hfails.mpr ⟨rfl, rfl, _, hdecimal, by rw [hvalue]; omega⟩⟩
  · have hmem : (⟨.constant, 7, 17, "[Local Var"⟩ : Token) ∈ tokens "return [Local Var" := by
      decide +kernel
    have hlexed := Token.lexed_of_mem_tokens hmem
    have hspells := (hlexed.ofToken_fails_iff_and_spells rfl (.operand 0)).2 (by decide)
    exact ⟨hlexed, rfl, by decide, _, rfl, by decide +kernel, hspells _ rfl⟩

end MissionScript
