import MissionScript.Json
import MissionScript.Json.Document

/-!
# MissionScript.Proofs.Json.Reading

Reading the text of a JSON value gives the value back.

* `Json.document` — the document that the text of a value holds: the same value, with every list and
  object closed.
* `Json.Fits` — the numbers in a value have at most 64 bits, which is what reading tells from other
  numbers.
* `Document.read_pretty` — what is read off the text of such a value is its document, and nothing is
  left over.

The reader follows the writer: there is one lemma for each piece of text, with an arbitrary rest behind
it. The rest must not go on with a number (`EndsNumber`), as nothing else ends one. Fuel is counted by
the length of the text, since whatever spends fuel reads a character.
-/

namespace MissionScript

/-! ### Documents of values -/

mutual

/-- The document that the text of a value holds. -/
def Json.document : Json → Document
  | .null => .null
  | .bool b => .bool b
  | .int n => .int n
  | .str s => .text s
  | .arr items => .array (Json.documents items) .closed
  | .obj members => .object (Json.memberDocuments members) .closed

/-- The documents of the items of a list. -/
def Json.documents : List Json → List Document
  | [] => []
  | item :: items => item.document :: Json.documents items

/-- The documents of the members of an object. -/
def Json.memberDocuments : List (String × Json) → List (Option String × Document)
  | [] => []
  | (key, value) :: members => (some key, value.document) :: Json.memberDocuments members

end

/-- Every number in the value has at most 64 bits. -/
inductive Json.Fits : Json → Prop
  | null : Fits .null
  | bool (b : Bool) : Fits (.bool b)
  | int {n : Int} (hleast : -0x8000000000000000 ≤ n) (hgreatest : n < 0x10000000000000000) :
      Fits (.int n)
  | str (s : String) : Fits (.str s)
  | arr {items : List Json} (h : ∀ item ∈ items, Fits item) : Fits (.arr items)
  | obj {members : List (String × Json)} (h : ∀ member ∈ members, Fits member.2) :
      Fits (.obj members)

theorem Json.documents_eq_map (items : List Json) :
    Json.documents items = items.map Json.document := by
  induction items with
  | nil => rfl
  | cons item items ih => rw [documents, ih, List.map_cons]

namespace Document

open Json

/-- A whole value can be skipped. -/
theorem skipFault?_document (j : Json) : j.document.skipFault? = none := by
  cases j <;> simp [document, skipFault?]

/-! ### Blanks

The writer puts blanks between the parts of a value, and the reader passes over them wherever a part
may begin. -/

theorem skipSpace_cons {c : Char} (h : isSpace c = false) (cs : List Char) :
    skipSpace (c :: cs) = c :: cs := by
  simp [skipSpace, h]

/-- Blanks in front of a text that does not begin with one are skipped. -/
theorem skipSpace_append {blanks cs : List Char} (hblanks : ∀ c ∈ blanks, isSpace c = true)
    (hcs : ∀ c ∈ cs.head?, isSpace c = false) : skipSpace (blanks ++ cs) = cs := by
  induction blanks with
  | nil =>
      cases cs with
      | nil => rfl
      | cons c cs => exact skipSpace_cons (hcs c rfl) cs
  | cons b blanks ih =>
      have hb : isSpace b = true := hblanks b List.mem_cons_self
      rw [List.cons_append, skipSpace, List.dropWhile_cons_of_pos hb]
      exact ih fun c hc => hblanks c (List.mem_cons_of_mem _ hc)

theorem skipSpace_newline (level : Nat) {cs : List Char}
    (hcs : ∀ c ∈ cs.head?, isSpace c = false) : skipSpace (newline level ++ cs) = cs := by
  refine skipSpace_append ?_ hcs
  intro c hc
  rcases List.mem_cons.mp hc with rfl | hblank
  · decide
  · rw [(List.mem_replicate.mp hblank).2]
    decide

/-! ### Strings

A character is written as it is, or as an escape that stands for it. The quotation mark that ends a
text is the first one that does not belong to an escape. -/

/-- The piece that a written character is read as. -/
def pieceOf (c : Char) : Piece :=
  if c ∈ ['"', '\\', '\x08', '\x0c', '\n', '\r', '\t'] then .char c
  else if c.toNat < 0x20 then .unit c.toNat
  else .char c

/-- The two hexadecimal digits of a control character give its number. -/
theorem hexUnit?_hexDigit {n : Nat} (h : n < 0x20) :
    hexUnit? '0' '0' (hexDigit (n / 16)) (hexDigit n) = some n := by
  revert n
  decide

/-- A character is read as one piece, however it is written. -/
theorem scanText_escapeChar (c : Char) (cs : List Char) :
    scanText (escapeChar c ++ cs) = (pieceOf c :: (scanText cs).1, (scanText cs).2) := by
  by_cases hnamed : c ∈ ['"', '\\', '\x08', '\x0c', '\n', '\r', '\t']
  · rw [pieceOf, if_pos hnamed]
    simp only [List.mem_cons, List.not_mem_nil, or_false] at hnamed
    rcases hnamed with rfl | rfl | rfl | rfl | rfl | rfl | rfl <;>
      rw [scanText.eq_def] <;> rfl
  · rw [pieceOf, if_neg hnamed]
    simp only [List.mem_cons, List.not_mem_nil, or_false, not_or] at hnamed
    obtain ⟨hquote, hback, hb, hf, hn, hr, ht⟩ := hnamed
    by_cases hcontrol : c.toNat < 0x20
    · have hunit := hexUnit?_hexDigit hcontrol
      rw [scanText.eq_def]
      simp [escapeChar, hquote, hback, hb, hf, hn, hr, ht, hcontrol, hunit]
    · rw [scanText.eq_def]
      simp [escapeChar, hquote, hback, hb, hf, hn, hr, ht, hcontrol]

theorem scanText_quote (cs rest : List Char) :
    scanText (cs.flatMap escapeChar ++ '"' :: rest) = (cs.map pieceOf, .ok rest) := by
  induction cs with
  | nil =>
      rw [scanText.eq_def]
      rfl
  | cons c cs ih =>
      rw [List.flatMap_cons, List.append_assoc, scanText_escapeChar, ih, List.map_cons]

/-- A piece stands for the character it was written for. -/
theorem joinPieces_pieceOf (c : Char) (pieces : List Piece) :
    joinPieces none (pieceOf c :: pieces) = (joinPieces none pieces).map (c :: ·) := by
  unfold pieceOf
  split
  · rfl
  · split
    · next hcontrol =>
      have hlow : isLowSurrogate c.toNat = false := by
        simp only [isLowSurrogate, Bool.and_eq_false_iff, decide_eq_false_iff_not]
        omega
      have hhigh : isHighSurrogate c.toNat = false := by
        simp only [isHighSurrogate, Bool.and_eq_false_iff, decide_eq_false_iff_not]
        omega
      rw [joinPieces.eq_def]
      simp [hlow, hhigh]
    · rfl

theorem joinPieces_map_pieceOf (cs : List Char) : joinPieces none (cs.map pieceOf) = .ok cs := by
  induction cs with
  | nil => rfl
  | cons c cs ih => rw [List.map_cons, joinPieces_pieceOf, ih, Except.map]

/-- A text between quotation marks is read as itself, after the first of them. -/
theorem readText_quote (s : String) (rest : List Char) :
    readText (s.toList.flatMap escapeChar ++ '"' :: rest) = (.ok s, .ok rest) := by
  rw [readText, scanText_quote]
  simp [joinPieces_map_pieceOf, Except.map]

/-! ### Numbers -/

/-- The text does not go on with a number. -/
def EndsNumber (rest : List Char) : Prop :=
  ∀ c ∈ rest.head?, c.isDigit = false ∧ c ≠ '.' ∧ c ≠ 'e' ∧ c ≠ 'E'

theorem endsNumber_nil : EndsNumber [] := by simp [EndsNumber]

theorem endsNumber_cons {c : Char} (h : c ∈ [',', ']', '}', '\n']) (rest : List Char) :
    EndsNumber (c :: rest) := by
  simp only [List.mem_cons, List.not_mem_nil, or_false] at h
  rcases h with rfl | rfl | rfl | rfl <;> simp [EndsNumber]

theorem endsNumber_newline (level : Nat) (rest : List Char) : EndsNumber (newline level ++ rest) :=
  endsNumber_cons (by simp) _

/-- More digits do not make a number smaller. -/
theorem le_ofDigitChars (digits : List Char) (n : Nat) : n ≤ Nat.ofDigitChars 10 digits n := by
  induction digits generalizing n with
  | nil => simp
  | cons c digits ih =>
      rw [Nat.ofDigitChars_cons]
      have := ih (10 * n + (c.toNat - '0'.toNat))
      omega

/-- No digit of a number of 64 bits is left over. -/
theorem appendDigits_eq {digits : List Char} {n : Nat}
    (h : Nat.ofDigitChars 10 digits n < 0x10000000000000000) :
    appendDigits n digits = (Nat.ofDigitChars 10 digits n, 0) := by
  induction digits generalizing n with
  | nil => simp [appendDigits]
  | cons c digits ih =>
      have hstep : n * 10 + (c.toNat - '0'.toNat) = 10 * n + (c.toNat - '0'.toNat) := by omega
      rw [Nat.ofDigitChars_cons] at h ⊢
      have hle := le_ofDigitChars digits (10 * n + (c.toNat - '0'.toNat))
      rw [appendDigits, hstep, if_pos (by omega), ih h]

/-- A number is written without leading zeros. -/
theorem head?_toDigits {n : Nat} (h : (Nat.toDigits 10 n).head? = some '0') : n = 0 := by
  induction n using Nat.strongRecOn with
  | ind n ih =>
      rw [Nat.toDigits_eq_if (by decide)] at h
      split at h
      · simpa using h
      · next hle =>
        obtain ⟨c, cs, hcs⟩ := List.exists_cons_of_ne_nil (Nat.toDigits_ne_nil (n := n / 10) (b := 10))
        rw [hcs] at h
        have := ih (n / 10) (by omega) (by rw [hcs]; exact h)
        omega

theorem takeWhile_dropWhile_toDigits (n : Nat) {rest : List Char} (hrest : EndsNumber rest) :
    (Nat.toDigits 10 n ++ rest).takeWhile Char.isDigit = Nat.toDigits 10 n ∧
      (Nat.toDigits 10 n ++ rest).dropWhile Char.isDigit = rest := by
  have hdigits : ∀ c ∈ Nat.toDigits 10 n, c.isDigit = true := fun c hc =>
    Nat.isDigit_of_mem_toDigits (by decide) (by decide) hc
  rw [List.takeWhile_append_of_pos hdigits, List.dropWhile_append_of_pos hdigits]
  cases rest with
  | nil => simp
  | cons c rest => simp [(hrest c rfl).1]

/-- The digits of a number of 64 bits are read as the number. -/
theorem readNumber_toDigits (negative : Bool) {n : Nat} (hn : n < 0x10000000000000000)
    {rest : List Char} (hrest : EndsNumber rest) :
    readNumber negative (Nat.toDigits 10 n ++ rest) = (ofInteger negative n, rest) := by
  obtain ⟨htake, hdrop⟩ := takeWhile_dropWhile_toDigits n hrest
  have hzeros : ¬ ((Nat.toDigits 10 n).head? = some '0' ∧ 1 < (Nat.toDigits 10 n).length) := by
    rintro ⟨hhead, hlength⟩
    rw [head?_toDigits hhead] at hlength
    simp at hlength
  have hvalue := Nat.ofDigitChars_ten_toDigits (n := n)
  have happend : appendDigits 0 (Nat.toDigits 10 n) = (n, 0) := by
    rw [appendDigits_eq (by rw [hvalue]; exact hn), hvalue]
  rw [readNumber]
  simp only [htake, hdrop, List.isEmpty_iff, Nat.toDigits_ne_nil, if_false, hzeros, happend]
  -- nothing that follows belongs to the number
  cases rest with
  | nil => rfl
  | cons c rest =>
      obtain ⟨-, hdot, he, hE⟩ := hrest c rfl
      split
      · next heq => exact absurd (List.cons.inj heq).1 hdot
      · next heq => exact absurd (List.cons.inj heq).1 he
      · next heq => exact absurd (List.cons.inj heq).1 hE
      · rfl

/-! ### The first character

The reader chooses by the first character what to read, and by that character it also tells an empty
list from others. So it has to be known how the text of a value can begin. -/

/-- The character can begin a value, and so it neither is a blank nor closes a list. -/
def BeginsValue (c : Char) : Prop :=
  c ∈ ['n', 't', 'f', '"', '[', '{', '-'] ∨ c.isDigit = true

theorem BeginsValue.not_isSpace {c : Char} (h : BeginsValue c) : isSpace c = false ∧ c ≠ ']' := by
  rcases h with hmem | hdigit
  · simp only [List.mem_cons, List.not_mem_nil, or_false] at hmem
    rcases hmem with rfl | rfl | rfl | rfl | rfl | rfl | rfl <;> decide
  · constructor
    · simp only [isSpace, Bool.or_eq_false_iff, beq_eq_false_iff_ne]
      refine ⟨⟨⟨?_, ?_⟩, ?_⟩, ?_⟩ <;> rintro rfl <;> cases hdigit
    · rintro rfl
      cases hdigit

theorem beginsValue_toDigits (n : Nat) : ∃ c cs, Nat.toDigits 10 n = c :: cs ∧ c.isDigit = true := by
  obtain ⟨c, cs, hcs⟩ := List.exists_cons_of_ne_nil (Nat.toDigits_ne_nil (n := n) (b := 10))
  refine ⟨c, cs, hcs, Nat.isDigit_of_mem_toDigits (b := 10) (n := n) (by decide) (by decide) ?_⟩
  rw [hcs]
  exact List.mem_cons_self

theorem exists_layout_eq (level : Nat) (j : Json) :
    ∃ c cs, layout level j = c :: cs ∧ BeginsValue c := by
  cases j with
  | null => exact ⟨'n', _, rfl, Or.inl (by decide)⟩
  | bool b =>
      cases b with
      | true => exact ⟨'t', _, rfl, Or.inl (by decide)⟩
      | false => exact ⟨'f', _, rfl, Or.inl (by decide)⟩
  | int n =>
      cases n with
      | ofNat n =>
          obtain ⟨c, cs, hcs, hdigit⟩ := beginsValue_toDigits n
          exact ⟨c, cs, hcs, Or.inr hdigit⟩
      | negSucc n => exact ⟨'-', _, rfl, Or.inl (by decide)⟩
  | str s => exact ⟨'"', _, rfl, Or.inl (by decide)⟩
  | arr items =>
      cases items with
      | nil => exact ⟨'[', _, rfl, Or.inl (by decide)⟩
      | cons item items => exact ⟨'[', _, rfl, Or.inl (by decide)⟩
  | obj members =>
      cases members with
      | nil => exact ⟨'{', _, rfl, Or.inl (by decide)⟩
      | cons member members => exact ⟨'{', _, rfl, Or.inl (by decide)⟩

/-! ### Scalars -/

/-- A digit begins a number and nothing else. -/
theorem readValue_of_isDigit {c : Char} (h : c.isDigit = true) (fuel : Nat) (cs : List Char) :
    readValue (fuel + 1) (c :: cs) = readNumber false (c :: cs) := by
  have hother : ∀ d ∈ ['"', '[', '{', 'n', 't', 'f', '-'], c ≠ d := by
    rintro d hd rfl
    simp only [List.mem_cons, List.not_mem_nil, or_false] at hd
    rcases hd with rfl | rfl | rfl | rfl | rfl | rfl | rfl <;> cases h
  simp only [List.forall_mem_cons] at hother
  have hspace : isSpace c = false := (BeginsValue.not_isSpace (Or.inr h)).1
  rw [readValue, skipSpace_cons hspace]
  simp [hother, h]

/-- A number is read by its digits. -/
theorem readValue_decimal {n : Int} (h : (Json.int n).Fits) (fuel : Nat) {rest : List Char}
    (hrest : EndsNumber rest) : readValue (fuel + 1) (decimal n ++ rest) = (.int n, rest) := by
  cases h with
  | int hleast hgreatest =>
      cases n with
      | ofNat n =>
          rw [Int.ofNat_eq_natCast] at hgreatest
          obtain ⟨c, cs, hcs, hdigit⟩ := beginsValue_toDigits n
          have hread := readNumber_toDigits false (n := n) (by omega) hrest
          rw [decimal, hcs, List.cons_append, readValue_of_isDigit hdigit, ← List.cons_append, ← hcs,
            hread]
          rfl
      | negSucc n =>
          have hread := readNumber_toDigits true (n := n + 1) (by omega) hrest
          have hfits : ofInteger true (n + 1) = .int (Int.negSucc n) := by
            have hbound : ¬ (n + 1 = 0 ∨ 0x8000000000000000 < n + 1) := by omega
            rw [ofInteger, if_pos rfl, if_neg hbound]
            rfl
          rw [decimal, List.cons_append, readValue, skipSpace_cons (by decide)]
          simp [hread, hfits]

theorem readValue_quote (s : String) (fuel : Nat) (rest : List Char) :
    readValue (fuel + 1) (quote s ++ rest) = (.text s, rest) := by
  rw [quote, List.append_assoc, List.cons_append, readValue, skipSpace_cons (by decide)]
  simp [readText_quote]

/-! ### Lists and objects

An item that has been read is followed by a comma and the next item, or by the bracket that ends the
list. -/

/-- An item is read, and then the items after it. -/
theorem readItem_of_readValue {j : Json} {fuel : Nat} {cs tail rest : List Char}
    {items : List Document} {ending : Ending} (hvalue : readValue fuel cs = (j.document, tail))
    (hitems : readItems fuel false tail = (items, ending, rest)) :
    readItem (fuel + 1) cs = (j.document :: items, ending, rest) := by
  rw [readItem]
  simp [hvalue, skipFault?_document, hitems]

/-- A member is read, and then the members after it. -/
theorem readMember_of_readValue {j : Json} {fuel : Nat} {cs tail rest : List Char}
    {members : List (Option String × Document)} {ending : Ending}
    (hvalue : readValue fuel cs = (j.document, tail))
    (hmembers : readMembers fuel false tail = (members, ending, rest)) (key : String)
    (afterComma : Bool) :
    readMember (fuel + 1) afterComma (quote key ++ ':' :: cs)
      = ((some key, j.document) :: members, ending, rest) := by
  have htext := readText_quote key (':' :: cs)
  have hcolon := skipSpace_cons (c := ':') (by decide) cs
  rw [readMember, quote]
  simp [htext, hcolon, hvalue, skipFault?_document, hmembers, Except.toOption]

/-- Blanks in front of a value do not matter. -/
theorem readValue_space (fuel : Nat) (cs : List Char) :
    readValue (fuel + 1) (' ' :: cs) = readValue (fuel + 1) cs := by
  rw [readValue, readValue]
  simp [skipSpace, isSpace]

/-- The first item of a list follows its bracket. -/
theorem readItems_first (level fuel : Nat) (j : Json) (rest : List Char) :
    readItems (fuel + 1) true (newline level ++ (layout level j ++ rest))
      = readItem fuel (layout level j ++ rest) := by
  obtain ⟨c, cs, hcs, hc⟩ := exists_layout_eq level j
  obtain ⟨hspace, hclose⟩ := hc.not_isSpace
  rw [hcs, List.cons_append, readItems, skipSpace_newline level (by simp [hspace])]
  simp [hclose]

/-- An item after the first begins with a comma. -/
theorem readItems_comma (level fuel : Nat) (j : Json) (rest : List Char) :
    readItems (fuel + 1) false (',' :: newline level ++ (layout level j ++ rest))
      = readItem fuel (layout level j ++ rest) := by
  obtain ⟨c, cs, hcs, hc⟩ := exists_layout_eq level j
  obtain ⟨hspace, hclose⟩ := hc.not_isSpace
  have hskip : skipSpace (newline level ++ (c :: (cs ++ rest))) = c :: (cs ++ rest) :=
    skipSpace_newline level (by simp [hspace])
  rw [hcs, List.cons_append, List.cons_append, readItems, skipSpace_cons (by decide)]
  simp [hskip, hclose]

theorem readItems_close (level fuel : Nat) (first : Bool) (rest : List Char) :
    readItems (fuel + 1) first (newline level ++ ']' :: rest) = ([], .closed, rest) := by
  rw [readItems, skipSpace_newline level (by simp [isSpace])]
  simp

/-- The first member of an object follows its bracket. -/
theorem readMembers_first (level fuel : Nat) (key : String) (rest : List Char) :
    readMembers (fuel + 1) true (newline level ++ (quote key ++ rest))
      = readMember fuel false (quote key ++ rest) := by
  rw [readMembers, skipSpace_newline level (by simp [quote, isSpace])]
  simp [quote]

/-- A member after the first begins with a comma. -/
theorem readMembers_comma (level fuel : Nat) (key : String) (rest : List Char) :
    readMembers (fuel + 1) false (',' :: newline level ++ (quote key ++ rest))
      = readMember fuel true (quote key ++ rest) := by
  obtain ⟨cs, hcs⟩ : ∃ cs, quote key ++ rest = '"' :: cs := ⟨_, rfl⟩
  have hskip : skipSpace (newline level ++ '"' :: cs) = '"' :: cs :=
    skipSpace_newline level (by simp [isSpace])
  rw [hcs, List.cons_append, readMembers, skipSpace_cons (by decide)]
  simp [hskip]

theorem readMembers_close (level fuel : Nat) (first : Bool) (rest : List Char) :
    readMembers (fuel + 1) first (newline level ++ '}' :: rest) = ([], .closed, rest) := by
  rw [readMembers, skipSpace_newline level (by simp [isSpace])]
  simp

/-- What follows an item does not go on with a number. -/
theorem endsNumber_layoutItems (level outer : Nat) (items : List Json) (rest : List Char) :
    EndsNumber (layoutItems level items ++ (newline outer ++ rest)) := by
  cases items with
  | nil => exact endsNumber_newline outer rest
  | cons item items => exact endsNumber_cons (by simp) _

theorem endsNumber_layoutMembers (level outer : Nat) (members : List (String × Json))
    (rest : List Char) : EndsNumber (layoutMembers level members ++ (newline outer ++ rest)) := by
  cases members with
  | nil => exact endsNumber_newline outer rest
  | cons member members => exact endsNumber_cons (by simp) _

/-! ### Values

The recursion is on the value, its items and its members, and the lemmas above join the parts. A
list spends three units of fuel on an item, which is where the factor comes from. -/

mutual

/-- The text of a value is read as its document, whatever follows it. -/
theorem readValue_layout : ∀ (j : Json) (level fuel : Nat) (rest : List Char), j.Fits →
    EndsNumber rest → 3 * (layout level j).length ≤ fuel + 1 →
    readValue (fuel + 1) (layout level j ++ rest) = (j.document, rest)
  | .null, level, fuel, rest, _, _, _ => by
      rw [readValue]
      rfl
  | .bool b, level, fuel, rest, _, _, _ => by
      rw [readValue]
      cases b <;> rfl
  | .int n, level, fuel, rest, h, hrest, _ => by
      rw [layout, document]
      exact readValue_decimal h fuel hrest
  | .str s, level, fuel, rest, _, _, _ => by
      rw [layout, document]
      exact readValue_quote s fuel rest
  | .arr [], level, fuel, rest, _, _, hfuel => by
      obtain ⟨fuel, rfl⟩ : ∃ k, fuel = k + 1 := ⟨fuel - 1, by simp [layout] at hfuel; omega⟩
      rw [readValue]
      simp [layout, document, documents, skipSpace_cons, isSpace, readItems]
  | .arr (item :: items), level, fuel, rest, .arr h, _, hfuel => by
      simp only [layout, newline, List.length_append, List.length_cons, List.length_nil] at hfuel
      obtain ⟨fuel, rfl⟩ : ∃ k, fuel = k + 3 := ⟨fuel - 3, by omega⟩
      have hitem := readValue_layout item (level + 1) fuel
        (layoutItems (level + 1) items ++ (newline level ++ ']' :: rest))
        (h item List.mem_cons_self) (endsNumber_layoutItems _ _ _ _) (by omega)
      have hitems := readItems_layoutItems items (level + 1) level fuel rest
        (fun x hx => h x (List.mem_cons_of_mem _ hx)) (by omega)
      have hlist := readItem_of_readValue hitem hitems
      rw [readValue]
      simp [layout, document, documents, skipSpace_cons, isSpace, readItems_first, hlist]
  | .obj [], level, fuel, rest, _, _, hfuel => by
      obtain ⟨fuel, rfl⟩ : ∃ k, fuel = k + 1 := ⟨fuel - 1, by simp [layout] at hfuel; omega⟩
      rw [readValue]
      simp [layout, document, memberDocuments, skipSpace_cons, isSpace, readMembers]
  | .obj ((key, value) :: members), level, fuel, rest, .obj h, _, hfuel => by
      simp only [layout, newline, List.length_append, List.length_cons, List.length_nil] at hfuel
      obtain ⟨fuel, rfl⟩ : ∃ k, fuel = k + 3 := ⟨fuel - 3, by omega⟩
      have hvalue := readValue_layout value (level + 1) fuel
        (layoutMembers (level + 1) members ++ (newline level ++ '}' :: rest))
        (h (key, value) List.mem_cons_self) (endsNumber_layoutMembers _ _ _ _) (by omega)
      have hmembers := readMembers_layoutMembers members (level + 1) level fuel rest
        (fun x hx => h x (List.mem_cons_of_mem _ hx)) (by omega)
      rw [← readValue_space] at hvalue
      have hmember := readMember_of_readValue hvalue hmembers key false
      rw [readValue]
      simp [layout, document, memberDocuments, skipSpace_cons, isSpace, readMembers_first, hmember]

/-- The items after the first are read up to the end of their list. -/
theorem readItems_layoutItems : ∀ (items : List Json) (level outer fuel : Nat) (rest : List Char),
    (∀ item ∈ items, item.Fits) → 3 * (layoutItems level items).length ≤ fuel →
    readItems (fuel + 1) false (layoutItems level items ++ (newline outer ++ ']' :: rest))
      = (documents items, .closed, rest)
  | [], level, outer, fuel, rest, _, _ => readItems_close outer fuel false rest
  | item :: items, level, outer, fuel, rest, h, hfuel => by
      simp only [layoutItems, newline, List.length_append, List.length_cons] at hfuel
      obtain ⟨fuel, rfl⟩ : ∃ k, fuel = k + 2 := ⟨fuel - 2, by omega⟩
      have hitem := readValue_layout item level fuel
        (layoutItems level items ++ (newline outer ++ ']' :: rest))
        (h item List.mem_cons_self) (endsNumber_layoutItems _ _ _ _) (by omega)
      have hitems := readItems_layoutItems items level outer fuel rest
        (fun x hx => h x (List.mem_cons_of_mem _ hx)) (by omega)
      rw [layoutItems, List.append_assoc, List.append_assoc, readItems_comma,
        readItem_of_readValue hitem hitems, documents]

/-- The members after the first are read up to the end of their object. -/
theorem readMembers_layoutMembers : ∀ (members : List (String × Json)) (level outer fuel : Nat)
    (rest : List Char), (∀ member ∈ members, member.2.Fits) →
    3 * (layoutMembers level members).length ≤ fuel →
    readMembers (fuel + 1) false (layoutMembers level members ++ (newline outer ++ '}' :: rest))
      = (memberDocuments members, .closed, rest)
  | [], level, outer, fuel, rest, _, _ => readMembers_close outer fuel false rest
  | (key, value) :: members, level, outer, fuel, rest, h, hfuel => by
      simp only [layoutMembers, newline, List.length_append, List.length_cons] at hfuel
      obtain ⟨fuel, rfl⟩ : ∃ k, fuel = k + 2 := ⟨fuel - 2, by omega⟩
      have hvalue := readValue_layout value level fuel
        (layoutMembers level members ++ (newline outer ++ '}' :: rest))
        (h (key, value) List.mem_cons_self) (endsNumber_layoutMembers _ _ _ _) (by omega)
      have hmembers := readMembers_layoutMembers members level outer fuel rest
        (fun x hx => h x (List.mem_cons_of_mem _ hx)) (by omega)
      rw [← readValue_space] at hvalue
      have hmember := readMember_of_readValue hvalue hmembers key true
      rw [layoutMembers, memberDocuments, ← hmember, ← readMembers_comma level]
      simp

end

/-- The text of a value is read as its document, and nothing is left over. -/
theorem read_pretty {j : Json} (h : j.Fits) : read j.pretty = (j.document, []) := by
  have hread := readValue_layout j 0 (3 * (layout 0 j).length + 2) [] h endsNumber_nil (by omega)
  rw [List.append_nil] at hread
  rw [read, pretty, String.length_ofList, String.toList_ofList]
  exact hread

end Document

end MissionScript
