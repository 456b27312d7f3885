/-!
# MissionScript.Json.Document

JSON text, read as far as it is well formed.

A typed reader goes through a text from left to right and stops at the first thing that is wrong,
whether the text is not JSON, ends too early, or holds a value of another shape than wanted. To tell
which of these comes first, a `Document` keeps everything up to the first place where the text stops
being JSON, and marks that place. Decoders (`MissionScript.Json.Decode`) then walk the document.

Two kinds of value are well formed but cannot be read: a string with half of a surrogate pair, and
a number beyond the range of floating point numbers. A reader that skips such a value does not
notice, so a mark says what a reader meets that wants the value and what one meets that skips it.
-/

namespace MissionScript

/-- What can be wrong with JSON text. -/
inductive JsonFault
  /-- The text ends too early. -/
  | truncated
  /-- The text is not JSON. -/
  | malformed
  /-- The text is JSON, but not of the wanted shape. -/
  | mismatch
  deriving DecidableEq, Repr

/-- How a list or object ends. -/
inductive Ending
  /-- With its closing bracket. -/
  | closed
  /-- At a fault. `afterComma` says whether another item was announced. -/
  | broken (afterComma : Bool) (wanted skipped : JsonFault)
  deriving DecidableEq, Repr

/-- A JSON text as far as it is well formed. -/
inductive Document
  | null
  | bool (b : Bool)
  /-- An integer of at most 64 bits. -/
  | int (n : Int)
  /-- Any other number. -/
  | real
  | text (s : String)
  | array (items : List Document) (ending : Ending)
  /-- A key is missing when it holds half of a surrogate pair. -/
  | object (members : List (Option String × Document)) (ending : Ending)
  /-- A number or a literal name that cannot be read. -/
  | misspelt (wanted : JsonFault) (skipped : Option JsonFault)
  /-- A string that cannot be read, or no value at all. -/
  | broken (wanted : JsonFault) (skipped : Option JsonFault)
  deriving Inhabited

namespace Document

/-- The fault that a reader meets that skips the value. -/
def skipFault? : Document → Option JsonFault
  | .array _ (.broken _ _ skipped) | .object _ (.broken _ _ skipped) => some skipped
  | .misspelt _ skipped | .broken _ skipped => skipped
  | _ => none

/-! ### Blanks and literal names -/

/-- Is `c` a blank between the tokens of a JSON text? -/
def isSpace (c : Char) : Bool := c == ' ' || c == '\n' || c == '\t' || c == '\r'

/-- The characters from the first that is not a blank on. -/
def skipSpace (cs : List Char) : List Char := cs.dropWhile isSpace

/-- Reads the rest of a literal name whose value is `value`. -/
def readName (value : Document) : List Char → List Char → Document × List Char
  | [], cs => (value, cs)
  | _ :: _, [] => (.misspelt .truncated (some .truncated), [])
  | e :: es, c :: cs =>
    if c = e then readName value es cs else (.misspelt .malformed (some .malformed), cs)

/-! ### Strings -/

/-- A piece of a string: a character, or a 16-bit unit given by number. -/
inductive Piece
  | char (c : Char)
  | unit (n : Nat)
  deriving Repr

/-- The value of a hexadecimal digit. -/
def hexValue? (c : Char) : Option Nat :=
  if c.isDigit then some (c.toNat - '0'.toNat)
  else if 'a' ≤ c ∧ c ≤ 'f' then some (c.toNat - 'a'.toNat + 10)
  else if 'A' ≤ c ∧ c ≤ 'F' then some (c.toNat - 'A'.toNat + 10)
  else none

/-- The value of four hexadecimal digits. -/
def hexUnit? (a b c d : Char) : Option Nat := do
  return ((← hexValue? a) * 16 + (← hexValue? b)) * 256 + (← hexValue? c) * 16 + (← hexValue? d)

/-- The character that a backslash and `c` stand for. -/
def escaped? (c : Char) : Option Char :=
  if c = '"' then some '"'
  else if c = '\\' then some '\\'
  else if c = '/' then some '/'
  else if c = 'b' then some '\x08'
  else if c = 'f' then some '\x0c'
  else if c = 'n' then some '\n'
  else if c = 'r' then some '\r'
  else if c = 't' then some '\t'
  else none

/-- The pieces of a string after its opening quotation mark, and what follows its closing one. An
escape by number takes the next four bytes, so a text that has fewer left ends too early. -/
def scanText : List Char → List Piece × Except JsonFault (List Char)
  | [] => ([], .error .truncated)
  | c :: cs =>
    if c = '"' then ([], .ok cs)
    else if c = '\\' then
      match cs with
      | [] => ([], .error .truncated)
      | e :: cs =>
        if e = 'u' then
          match cs with
          | h₁ :: h₂ :: h₃ :: h₄ :: cs =>
            match hexUnit? h₁ h₂ h₃ h₄ with
            | some n => let (pieces, ending) := scanText cs; (.unit n :: pieces, ending)
            | none => ([], .error .malformed)
          | few =>
            ([], .error (if 4 ≤ (String.ofList few).utf8ByteSize then .malformed else .truncated))
        else match escaped? e with
          | some d => let (pieces, ending) := scanText cs; (.char d :: pieces, ending)
          | none => ([], .error .malformed)
    else if c.toNat < 0x20 then ([], .error .malformed)
    else let (pieces, ending) := scanText cs; (.char c :: pieces, ending)

/-- Is `n` the first half of a surrogate pair? -/
def isHighSurrogate (n : Nat) : Bool := 0xD800 ≤ n && n ≤ 0xDBFF

/-- Is `n` the second half of a surrogate pair? -/
def isLowSurrogate (n : Nat) : Bool := 0xDC00 ≤ n && n ≤ 0xDFFF

/-- The character that a surrogate pair stands for. -/
def ofSurrogates (high low : Nat) : Char :=
  Char.ofNat (0x10000 + (high - 0xD800) * 0x400 + (low - 0xDC00))

/-- The characters of a string, when `ending` is the fault that ends its pieces, if any. Half of a
surrogate pair is a fault where it stands. -/
def joinPieces (ending : Option JsonFault) : List Piece → Except JsonFault (List Char)
  | [] => match ending with
    | none => .ok []
    | some fault => .error fault
  | .char c :: pieces => (joinPieces ending pieces).map (c :: ·)
  | .unit n :: pieces =>
    if isLowSurrogate n then .error .malformed
    else if isHighSurrogate n then
      match pieces with
      | .unit m :: pieces =>
        if isLowSurrogate m then (joinPieces ending pieces).map (ofSurrogates n m :: ·)
        else .error .malformed
      | .char _ :: _ => .error .malformed
      | [] => .error (ending.getD .malformed)
    else (joinPieces ending pieces).map (Char.ofNat n :: ·)

/-- A string after its opening quotation mark: its text or the fault that reading it meets, and
what follows or the fault that skipping it meets. -/
def readText (cs : List Char) : Except JsonFault String × Except JsonFault (List Char) :=
  let (pieces, ending) := scanText cs
  let fault := match ending with
    | .ok _ => none
    | .error fault => some fault
  ((joinPieces fault pieces).map String.ofList, ending)

/-! ### Numbers

A number that is not an integer of 64 bits matters only in so far as it is finite: it is read as a
64-bit floating point number, in two roundings and from the digits that fit a word.
-/

/-- The number that the digits `cs` make when they are written after `n`, as far as it is a number
of 64 bits, and how many of the digits are left over. -/
def appendDigits (n : Nat) : List Char → Nat × Nat
  | [] => (n, 0)
  | c :: cs =>
    let longer := n * 10 + (c.toNat - '0'.toNat)
    if longer < 0x10000000000000000 then appendDigits longer cs else (n, cs.length + 1)

/-- The nearest number of at most 53 significant bits, the even one of two that are equally near. -/
def roundToFloat (n : Nat) : Nat :=
  let unit := Nat.pow 2 (n.log2 - 52)
  let twice := 2 * (n % unit)
  let down := n / unit
  if unit < twice ∨ (twice = unit ∧ down % 2 = 1) then (down + 1) * unit else down * unit

/-- The least number that is too large to be rounded to a finite 64-bit floating point number. -/
def floatBound : Nat := Nat.pow 2 1024 - Nat.pow 2 970

/-- Is `significand * 10 ^ exponent` beyond the finite 64-bit floating point numbers? Both factors
are rounded before they are multiplied. -/
def overflows (significand : Nat) (exponent : Int) : Bool :=
  if significand = 0 ∨ exponent < 0 then false
  else if 308 < exponent then true
  else floatBound ≤ roundToFloat significand * roundToFloat (Nat.pow 10 exponent.toNat)

/-- A number that is not written as an integer of at most 64 bits. -/
def ofDecimal (significand : Nat) (exponent : Int) : Document :=
  if overflows significand exponent then .misspelt .malformed none else .real

/-- An integer whose digits fit 64 bits. Minus zero is not one, and the sign takes a bit. -/
def ofInteger (negative : Bool) (n : Nat) : Document :=
  if negative then
    if n = 0 ∨ 0x8000000000000000 < n then .real else .int (-n)
  else .int n

/-- The fault of a number that lacks a digit where `cs` starts. A reader that skips the number does
not tell the end of the text from a wrong character. -/
def missingDigit (cs : List Char) : Document :=
  .misspelt (if cs.isEmpty then .truncated else .malformed) (some .malformed)

/-- Reads the exponent of a number, if there is one, after its digits. -/
def readExponent (significand : Nat) (exponent : Int) (cs : List Char) : Document × List Char :=
  match cs with
  | c :: rest =>
    if c = 'e' ∨ c = 'E' then
      let negative := rest.head? = some '-'
      let rest := if negative ∨ rest.head? = some '+' then rest.tail else rest
      let digits := rest.takeWhile Char.isDigit
      if digits.isEmpty then (missingDigit rest, rest)
      else
        let size : Int := Nat.ofDigitChars 10 digits 0
        (ofDecimal significand (exponent + if negative then -size else size),
          rest.dropWhile Char.isDigit)
    else (ofDecimal significand exponent, cs)
  | [] => (ofDecimal significand exponent, cs)

/-- Reads a number after its sign. -/
def readNumber (negative : Bool) (cs : List Char) : Document × List Char :=
  let digits := cs.takeWhile Char.isDigit
  let rest := cs.dropWhile Char.isDigit
  if digits.isEmpty then (missingDigit cs, cs)
  else if digits.head? = some '0' ∧ 1 < digits.length then
    (.misspelt .malformed (some .malformed), rest)
  else
    let (significand, dropped) := appendDigits 0 digits
    match rest with
    | '.' :: rest =>
      let places := rest.takeWhile Char.isDigit
      let (significand, unused) := appendDigits significand places
      if places.isEmpty then (missingDigit rest, rest)
      else readExponent significand (dropped + unused - places.length)
        (rest.dropWhile Char.isDigit)
    | 'e' :: _ | 'E' :: _ => readExponent significand dropped rest
    | _ =>
      if dropped = 0 then (ofInteger negative significand, rest)
      else (ofDecimal significand dropped, rest)

/-! ### Values -/

mutual

/-- Reads a value; `fuel` bounds the number of values, items and members read. -/
def readValue : Nat → List Char → Document × List Char
  | 0, cs => (.broken .malformed (some .malformed), cs)
  | fuel + 1, cs =>
    match skipSpace cs with
    | [] => (.broken .truncated (some .truncated), [])
    | c :: cs =>
      if c = '"' then
        match readText cs with
        | (.ok s, .ok rest) => (.text s, rest)
        | (.ok _, .error fault) => (.broken fault (some fault), [])
        | (.error fault, .ok rest) => (.broken fault none, rest)
        | (.error wanted, .error skipped) => (.broken wanted (some skipped), [])
      else if c = '[' then
        let (items, ending, rest) := readItems fuel true cs
        (.array items ending, rest)
      else if c = '{' then
        let (members, ending, rest) := readMembers fuel true cs
        (.object members ending, rest)
      else if c = 'n' then readName .null ['u', 'l', 'l'] cs
      else if c = 't' then readName (.bool true) ['r', 'u', 'e'] cs
      else if c = 'f' then readName (.bool false) ['a', 'l', 's', 'e'] cs
      else if c = '-' then readNumber true cs
      else if c.isDigit then readNumber false (c :: cs)
      else (.broken .malformed (some .malformed), cs)

/-- Reads the items of a list from the first one on (`first`), or from the comma before the next
one on. -/
def readItems : Nat → Bool → List Char → List Document × Ending × List Char
  | 0, _, cs => ([], .broken false .malformed .malformed, cs)
  | fuel + 1, first, cs =>
    match skipSpace cs with
    | [] => ([], .broken false .truncated .truncated, [])
    | c :: cs =>
      if c = ']' then ([], .closed, cs)
      else if first then readItem fuel (c :: cs)
      else if c = ',' then
        match skipSpace cs with
        | [] => ([], .broken true .truncated .truncated, [])
        | d :: cs =>
          if d = ']' then ([], .broken true .malformed .malformed, cs)
          else readItem fuel (d :: cs)
      else ([], .broken false .malformed .malformed, cs)

/-- Reads an item and the items after it. -/
def readItem : Nat → List Char → List Document × Ending × List Char
  | 0, cs => ([], .broken false .malformed .malformed, cs)
  | fuel + 1, cs =>
    let (item, rest) := readValue fuel cs
    match item.skipFault? with
    | some fault => ([item], .broken false fault fault, rest)
    | none =>
      let (items, ending, rest) := readItems fuel false rest
      (item :: items, ending, rest)

/-- Reads the members of an object from the first one on (`first`), or from the comma before the
next one on. -/
def readMembers : Nat → Bool → List Char → List (Option String × Document) × Ending × List Char
  | 0, _, cs => ([], .broken false .malformed .malformed, cs)
  | fuel + 1, first, cs =>
    match skipSpace cs with
    | [] => ([], .broken false .truncated .truncated, [])
    | c :: cs =>
      if c = '}' then ([], .closed, cs)
      else if first then readMember fuel false (c :: cs)
      else if c = ',' then
        match skipSpace cs with
        | [] => ([], .broken true .truncated .truncated, [])
        | d :: cs => readMember fuel true (d :: cs)
      else ([], .broken false .malformed .malformed, cs)

/-- Reads a member and the members after it. -/
def readMember : Nat → Bool → List Char → List (Option String × Document) × Ending × List Char
  | 0, afterComma, cs => ([], .broken afterComma .malformed .malformed, cs)
  | fuel + 1, afterComma, cs =>
    if cs.head? = some '"' then
      match readText cs.tail with
      | (.ok _, .error fault) => ([], .broken afterComma fault fault, [])
      | (.error wanted, .error skipped) => ([], .broken afterComma wanted skipped, [])
      | (key, .ok rest) =>
        let (value, rest) : Document × List Char := match skipSpace rest with
          | [] => (.broken .truncated (some .truncated), [])
          | c :: rest =>
            if c = ':' then readValue fuel rest
            else (.broken .malformed (some .malformed), rest)
        match value.skipFault? with
        | some fault => ([(key.toOption, value)], .broken false fault fault, rest)
        | none =>
          let (members, ending, rest) := readMembers fuel false rest
          ((key.toOption, value) :: members, ending, rest)
    else ([], .broken afterComma .malformed .malformed, cs)

end

/-- Reads the value at the start of a text. Every step takes at least one character, so a small
multiple of the length of the text is fuel enough. -/
def read (s : String) : Document × List Char := readValue (3 * s.length + 3) s.toList

end Document

end MissionScript
