import MissionScript.Code.Json
import MissionScript.Proofs.Json.Reading
import MissionScript.Proofs.Text.Decimals

/-!
# MissionScript.Proofs.Code.RoundTrip

A compiled script that is written as JSON and read again is the same script.

The text of a value is read as its document (`Document.read_pretty`), so what is left is that decoding
the document of a script gives the script. There is one such lemma for each type that decoders are built
from (`Document.toNat_document`, `Document.toList_document`, ...), and one for each record: its members
stand in the order of its fields, and each is read into the draft of the record by its key
(`Document.readFields`).

All numbers have to be in the range of their types (`Code.InRange`), which is what a decoder accepts.
-/

namespace MissionScript

/-! ### Numbers in their ranges

Numbers have bounds that come from the types in which they are stored, and they are the same for
writing and reading. A value inside of an expression or a parameter has a sign, and an index or a
line has none. -/

/-- A number has 32 bits. -/
def Value.InRange : Value → Prop
  | .int n => Number.fits n = true
  | .str _ => True

/-- The numbers of a command are in the ranges of their types. -/
structure Command.InRange (c : Command) : Prop where
  index : c.index < countBound
  line : c.line < countBound
  id : c.id < idBound
  parameters : ∀ p ∈ c.parameters, p.value.InRange
  written : ∀ n ∈ c.written, Number.fits n = true
  jump : ∀ k ∈ c.jump, k < countBound

/-- The numbers of an auxiliary entry are in the ranges of their types. -/
structure Auxiliary.InRange (a : Auxiliary) : Prop where
  reference : a.reference < countBound
  line : a.line < countBound
  id : a.id < idBound
  inner : ∀ n ∈ a.inner, n < idBound
  parameters : ∀ p ∈ a.parameters, p.value.InRange

/-- The numbers of a compiled script are in the ranges of their types. -/
structure Code.InRange (c : Code) : Prop where
  commands : ∀ x ∈ c.commands, x.InRange
  auxiliary : ∀ x ∈ c.auxiliary, x.InRange

/-! ### Values fit

Every number of a document has to fit into 64 bits for its text to be read back (`Json.Fits`). The
ranges above are smaller than this, so it is a condition that scripts in range meet on the way. -/

namespace Json

/-- Numbers below a bound fit. -/
theorem Fits.nat {n bound : Nat} (h : n < bound) (hbound : bound ≤ countBound) : (nat n).Fits := by
  unfold countBound at hbound
  exact .int (by omega) (by omega)

/-- Numbers of 32 bits fit. -/
theorem Fits.number {n : Int} (h : Number.fits n = true) : (Json.int n).Fits := by
  obtain ⟨hleast, hgreatest⟩ := Number.fits_iff.mp h
  exact .int (by omega) (by omega)

/-- A list fits when its members do. -/
theorem Fits.list {α : Type} {f : α → Json} {as : List α} (h : ∀ a ∈ as, (f a).Fits) :
    (list f as).Fits := by
  refine .arr ?_
  intro item hitem
  obtain ⟨a, ha, rfl⟩ := List.mem_map.mp hitem
  exact h a ha

/-- A value that may be missing fits when it does. -/
theorem Fits.optional {α : Type} {f : α → Json} {a : Option α} (h : ∀ x ∈ a, (f x).Fits) :
    (optional f a).Fits := by
  cases a with
  | none => exact .null
  | some x => exact h x rfl

end Json

/-- A parameter in range fits, -/
theorem CodeParameter.fits_toJson {p : CodeParameter} (h : p.value.InRange) : p.toJson.Fits := by
  have hvalue : p.value.toJson.Fits := by
    cases hv : p.value with
    | int n =>
        rw [hv] at h
        exact .obj (by simpa using Json.Fits.number h)
    | str s => exact .obj (by simpa using Json.Fits.str s)
  refine .obj ?_
  simpa using ⟨Json.Fits.str _, hvalue⟩

/-- and so does a command, -/
theorem Command.fits_toJson {c : Command} (h : c.InRange) : c.toJson.Fits := by
  have hparameters : (Json.list CodeParameter.toJson c.parameters).Fits :=
    .list fun p hp => p.fits_toJson (h.parameters p hp)
  have hwritten : (Json.list Json.int c.written).Fits := .list fun n hn => .number (h.written n hn)
  have hjump : (Json.optional Json.nat c.jump).Fits :=
    .optional fun k hk => .nat (h.jump k hk) (Nat.le_refl _)
  refine .obj ?_
  intro member hmember
  simp only [List.mem_append, List.mem_cons, List.not_mem_nil, or_false] at hmember
  rcases hmember with ((rfl | rfl | rfl | rfl | rfl) | hmember) | rfl
  · exact .nat h.index (Nat.le_refl _)
  · exact .nat h.line (Nat.le_refl _)
  · exact .nat h.id (by decide)
  · exact .str _
  · exact hparameters
  · split at hmember
    · cases hmember
    · rw [List.mem_singleton.mp hmember]
      exact hwritten
  · exact hjump

/-- an auxiliary entry, -/
theorem Auxiliary.fits_toJson {a : Auxiliary} (h : a.InRange) : a.toJson.Fits := by
  have hparameters : (Json.list CodeParameter.toJson a.parameters).Fits :=
    .list fun p hp => p.fits_toJson (h.parameters p hp)
  have hinner : (Json.optional Json.nat a.inner).Fits :=
    .optional fun n hn => .nat (h.inner n hn) (by decide)
  refine .obj ?_
  simp only [List.forall_mem_cons]
  exact ⟨.nat h.reference (Nat.le_refl _), .nat h.line (Nat.le_refl _), .nat h.id (by decide),
    .str _, hinner, hparameters, by simp⟩

/-- and the whole script. -/
theorem Code.fits_toJson {c : Code} (h : c.InRange) : c.toJson.Fits := by
  refine .obj ?_
  simp only [List.forall_mem_cons]
  exact ⟨.list fun x hx => Command.fits_toJson (h.commands x hx),
    .list fun x hx => Auxiliary.fits_toJson (h.auxiliary x hx), .list fun s _ => .str s, by simp⟩

/-! ### Decoders

A decoder is given the document of what has been encoded. The lemmas for numbers and names ask for
what the decoder checks, and those for lists, options and records for a decoder of the parts. -/

namespace Document

open Json

/-- A number is decoded if it is below the bound. -/
theorem toNat_document {n bound : Nat} (h : n < bound) :
    (Json.nat n).document.toNat bound = .ok n := by
  simp [Json.nat, document, toNat, want, h]

/-- A number with a sign is decoded if it has 32 bits. -/
theorem toNumber_document {n : Int} (h : Number.fits n = true) :
    (Json.int n).document.toNumber = .ok n := by
  obtain ⟨hleast, hgreatest⟩ : Number.least ≤ n ∧ n ≤ Number.greatest := by
    simpa [Number.fits] using h
  simp [document, toNumber, toInt, want, hleast, hgreatest]

/-- A list is decoded if its members are. -/
theorem toList_document {α : Type} {f : α → Json} {decode : Document → Except JsonFault α}
    {as : List α} (h : ∀ a ∈ as, decode (f a).document = .ok a) :
    (Json.list f as).document.toList decode = .ok as := by
  have hitems : ((as.map f).map Json.document).mapM decode = .ok as := by
    induction as with
    | nil => rfl
    | cons a as ih =>
        have hrest := ih fun x hx => h x (List.mem_cons_of_mem _ hx)
        rw [List.map_cons, List.map_cons, List.mapM_cons, h a List.mem_cons_self, hrest]
        rfl
  rw [Json.list, document, documents_eq_map, toList, hitems]
  rfl

/-- A number that may be missing is decoded if it is below the bound. -/
theorem toOption_document {bound : Nat} {n : Option Nat} (h : ∀ k ∈ n, k < bound) :
    (Json.optional Json.nat n).document.toOption (Document.toNat bound) = .ok n := by
  cases n with
  | none => rfl
  | some k =>
      have hk : (Json.nat k).document.toNat bound = .ok k := toNat_document (h k rfl)
      show ((Json.nat k).document.toNat bound).map some = .ok (some k)
      rw [hk]
      rfl

/-- A name is decoded if there is something of that name. -/
theorem toName_document {α : Type} {named : String → Option α} {name : String} {a : α}
    (h : named name = some a) : (Json.str name).document.toName named = .ok a := by
  simp [document, toName, h]

theorem ok_bind {ε α β : Type} (a : α) (f : α → Except ε β) : (Except.ok a >>= f) = f a := rfl

/-- A record is decoded when its members give the draft `record` and nothing is missing from it. -/
theorem toRecord_document {σ α : Type} {fields : List (Field σ)} {blank : σ}
    {finish : σ → Option α} {members : List (String × Json)} {a : α} (record : σ)
    (hread : readFields fields (memberDocuments members) blank = .ok record)
    (hfinish : finish record = some a) :
    toRecord fields blank finish (Json.obj members).document = .ok a := by
  rw [document, toRecord, hread]
  simp [ok_bind, Ending.check, hfinish, pure, Except.pure]

end Document

/-! ### Records

For each record: the members are handed to the fields by their keys, one after the other, and what
has been put together in the end is the record. -/

/-- A value is decoded to itself, -/
theorem Value.ofJson_document {v : Value} (h : v.InRange) : Value.ofJson v.toJson.document = .ok v := by
  cases v with
  | int n =>
      have hn : (Json.int n).document.toNumber = .ok n := Document.toNumber_document h
      simp [Value.ofJson, Value.toJson, Json.document, Json.memberDocuments, Document.toTagged] at hn ⊢
      rw [hn]
      rfl
  | str s => rfl

/-- and so is a parameter, -/
theorem CodeParameter.ofJson_document {p : CodeParameter} (h : p.value.InRange) :
    CodeParameter.ofJson p.toJson.document = .ok p := by
  have htype := Document.toName_document p.dataType.ofName?_name
  have hvalue := Value.ofJson_document h
  refine Document.toRecord_document ⟨some p.dataType, some p.value⟩ ?_ rfl
  simp [Json.memberDocuments, Document.readFields, Draft.fields, htype, hvalue, Document.ok_bind,
    pure, Except.pure]

/-- a command, -/
theorem Command.ofJson_document {c : Command} (h : c.InRange) :
    Command.ofJson c.toJson.document = .ok c := by
  have hindex := Document.toNat_document h.index
  have hline := Document.toNat_document h.line
  have hid := Document.toNat_document h.id
  have hkind := Document.toName_document c.kind.ofName?_name
  have hparameters := Document.toList_document fun p hp =>
    CodeParameter.ofJson_document (h.parameters p hp)
  have hwritten := Document.toList_document fun n hn =>
    Document.toNumber_document (h.written n hn)
  have hjump := Document.toOption_document h.jump
  -- the written order is left out when it is empty, and then it is taken to be empty
  refine Document.toRecord_document ⟨some c.index, some c.line, some c.id, some c.kind,
    some c.parameters, if c.written.isEmpty then none else some c.written, some c.jump⟩ ?_ ?_
  · split <;>
      simp [Json.memberDocuments, Document.readFields, Draft.fields, hindex, hline, hid, hkind,
        hparameters, hwritten, hjump, Document.ok_bind, pure, Except.pure]
  · have hwritten : (if c.written.isEmpty then none else some c.written).getD [] = c.written := by
      cases c.written <;> rfl
    simp only [hwritten]
    rfl

/-- an auxiliary entry, -/
theorem Auxiliary.ofJson_document {a : Auxiliary} (h : a.InRange) :
    Auxiliary.ofJson a.toJson.document = .ok a := by
  have hreference := Document.toNat_document h.reference
  have hline := Document.toNat_document h.line
  have hid := Document.toNat_document h.id
  have hkind := Document.toName_document a.kind.ofName?_name
  have hinner := Document.toOption_document h.inner
  have hparameters := Document.toList_document fun p hp =>
    CodeParameter.ofJson_document (h.parameters p hp)
  refine Document.toRecord_document ⟨some a.reference, some a.line, some a.id, some a.kind,
    some a.inner, some a.parameters⟩ ?_ rfl
  simp [Json.memberDocuments, Document.readFields, Draft.fields, hreference, hline, hid, hkind, hinner,
    hparameters, Document.ok_bind, pure, Except.pure]

/-- and a compiled script. -/
theorem Code.ofJson_document {c : Code} (h : c.InRange) : Code.ofJson c.toJson.document = .ok c := by
  have hcommands := Document.toList_document fun x hx => Command.ofJson_document (h.commands x hx)
  have hauxiliary := Document.toList_document fun x hx =>
    Auxiliary.ofJson_document (h.auxiliary x hx)
  have hvars : (Json.list Json.str c.vars).document.toList Document.toText = .ok c.vars :=
    Document.toList_document fun s _ => rfl
  refine Document.toRecord_document ⟨some c.commands, some c.auxiliary, some c.vars⟩ ?_ rfl
  simp [Json.memberDocuments, Document.readFields, Draft.fields, hcommands, hauxiliary, hvars,
    Document.ok_bind, pure, Except.pure]

/-! ### Texts

What can be decoded from its document can be decoded from the text of that document. -/

/-- Reading the text of a value gives what its document is decoded to. -/
theorem Document.decodeText_pretty {α : Type} {decode : Document → Except JsonFault α} {j : Json}
    {a : α} (hfits : j.Fits) (hdecode : decode j.document = .ok a) :
    Document.decodeText decode j.pretty = .ok a := by
  rw [decodeText, read_pretty hfits]
  simp only [hdecode]
  rfl

/-- A compiled script whose numbers are in the ranges of their types is read from its text as it was
written. -/
theorem Code.ofText_toText {c : Code} (h : c.InRange) : Code.ofText c.toText = .ok c :=
  Document.decodeText_pretty (Code.fits_toJson h) (Code.ofJson_document h)

/-- The bounds of all ranges, a written order and none, a target and none, and texts with quotation
marks, backslashes, control characters and characters beyond the first plane. -/
theorem Code.ofText_toText_bounds :
    let c : Code :=
      { commands := [
          { index := 0, line := 0xffffffffffffffff, id := 0xffffffff, kind := .expression
            parameters := [⟨.var, .int (-0x80000000)⟩, ⟨.string, .str "\"a\\b\"\n\t\x01\x7f é😀"⟩]
            written := [0x7fffffff, -0x80000000, 0, -1] },
          { index := 0xffffffffffffffff, line := 1, id := 0, kind := .standard, parameters := []
            jump := some 0xffffffffffffffff }]
        auxiliary := [
          { reference := 0, line := 2, id := 1, kind := .auxiliary, parameters := [⟨.string, .str ""⟩] },
          { reference := 0xffffffffffffffff, line := 3, id := 0xffffffff, kind := .auxiliary
            inner := some 0xffffffff, parameters := [] }]
        vars := ["", "$\x00\x1f"] }
    c.InRange ∧ Code.ofText c.toText = .ok c := by
  intro c
  have hrange : c.InRange := by
    refine ⟨?_, ?_⟩
    · intro x hx
      simp only [c, List.mem_cons, List.not_mem_nil, or_false] at hx
      rcases hx with rfl | rfl
      all_goals constructor <;> simp [countBound, idBound, Value.InRange] <;> decide
    · intro x hx
      simp only [c, List.mem_cons, List.not_mem_nil, or_false] at hx
      rcases hx with rfl | rfl
      all_goals constructor <;> simp [countBound, idBound, Value.InRange] 
  exact ⟨hrange, Code.ofText_toText hrange⟩

end MissionScript
