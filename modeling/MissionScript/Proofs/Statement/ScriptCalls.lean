import MissionScript.Proofs.Statement.Extent
import Mathlib.Data.List.Forall2

/-!
# MissionScript.Proofs.Statement.ScriptCalls

The grammar of script calls, `[$ret =] [object ->] call script name [: [name =] value ...]`, and the
statements that they are read as.

* `Groups` — the arguments as the grammar has them: values, each of which may have a name in front.
* `Runs` — the arguments as they are read. A name is dropped where it stands, whatever follows, so it
  may be the last thing on the line, and several names may stand in front of one value.
* `ScriptCall.Writes` — some tokens are a call, with its arguments written in one of the two ways.
* `ScriptCall.ReadAs` — the statement that a call is: which slot each of its parts gets into.

Each part of the reader is described by an equivalence of its own (`readCallTarget_eq_ok_iff`,
`readCallName_iff_names`, `behindColon_iff_skipColon`, `readArguments_eq_ok_iff`). Where every name has
a value behind it there is no difference between the two ways (`follows_groups_iff`).
-/

namespace MissionScript

/-! ### The grammar

The grammar is given as relations between tokens and the parts of a call. They say nothing about how
a call is read, and what they leave open is on purpose: whether an argument needs a value behind its
name is the difference between `Groups` and `Runs`. -/

/-- The parts of a script call: the variable for its return value, the object that it is for, the
name of the script and the values of the arguments. -/
structure ScriptCall where
  target : Option Token
  object : Option Token
  name : Token
  values : List Token

/-- A part that may be left out: a token, and the operator `mark` behind it. -/
inductive Marked (part : Token → Prop) (mark : String) : List Token → Option Token → Prop
  | absent : Marked part mark [] none
  | present {t sign : Token} : part t → sign.isOperator mark = true →
      Marked part mark [t, sign] (some t)

/-- The tokens are values, with or without a name in front of each: `[name =] value ...`. -/
inductive Groups : List Token → List Token → Prop
  | nil : Groups [] []
  | value {t : Token} {ts values : List Token} : t.isValue = true → Groups ts values →
      Groups (t :: ts) (t :: values)
  | named {name equals t : Token} {ts values : List Token} : name.kind = .word →
      equals.isOperator "=" = true → t.isValue = true → Groups ts values →
      Groups (name :: equals :: t :: ts) (t :: values)

/-- The tokens are values, with names anywhere between them. -/
inductive Runs : List Token → List Token → Prop
  | nil : Runs [] []
  | value {t : Token} {ts values : List Token} : t.isValue = true → Runs ts values →
      Runs (t :: ts) (t :: values)
  | name {name equals : Token} {ts values : List Token} : name.kind = .word →
      equals.isOperator "=" = true → Runs ts values → Runs (name :: equals :: ts) values

/-- The arguments of a call behind a colon. Without arguments there need not be one. -/
inductive BehindColon (arguments : List Token → List Token → Prop) : List Token → List Token → Prop
  | absent : BehindColon arguments [] []
  | present {colon : Token} {ts values : List Token} : colon.isOperator ":" = true →
      arguments ts values → BehindColon arguments (colon :: ts) values

/-- Every name has a value behind it. -/
def NamesValues (ts : List Token) : Prop :=
  ∀ name equals rest, name :: equals :: rest <:+ ts → name.kind = .word →
    equals.isOperator "=" = true → ∃ t ∈ rest.head?, t.isValue = true

namespace ScriptCall

/-- The tokens are what stands in front of the call: `[$ret =] [object ->]`. -/
def Precedes (c : ScriptCall) (ts : List Token) : Prop :=
  ∃ us vs, ts = us ++ vs ∧ Marked (·.kind = .var) "=" us c.target ∧
    Marked (·.isValue = true) "->" vs c.object

/-- The tokens are the name of the script and the arguments. -/
def Follows (c : ScriptCall) (arguments : List Token → List Token → Prop) (ts : List Token) : Prop :=
  ∃ us, ts = c.name :: us ∧ (c.name.kind = .string ∨ c.name.kind = .word) ∧
    BehindColon arguments us c.values

/-- The tokens are the call, with its arguments written in the given way. -/
def Writes (c : ScriptCall) (arguments : List Token → List Token → Prop) (ts : List Token) : Prop :=
  ∃ before call script after, ts = before ++ call :: script :: after ∧ call.isWord "call" = true ∧
    script.isWord "script" = true ∧ c.Precedes before ∧ c.Follows arguments after

/-- The numbers of a call fit into 32 bits. -/
def InRange (c : ScriptCall) : Prop :=
  ∀ t ∈ c.object.toList ++ c.values, t.kind = .number → (Number.ofText? t.text).isSome = true

/-- The parameter for the name of a script: what the string stands for, or the word itself. -/
def Names (t : Token) (p : Parameter) : Prop :=
  if t.kind = .string then Parameter.ofToken ⟨.scriptName, 0, 2⟩ t = .ok p
  else p = Parameter.ofText ⟨.scriptName, 0, 2⟩ t.text t.start t.stop

/-- The parameters are the tokens one by one, in slots for arguments numbered from `index` on. -/
def Passes (index : Nat) (values : List Token) (ps : List Parameter) : Prop :=
  List.Forall₂ (fun v p => Parameter.ofToken (Slot.argument v.2) v.1 = .ok p) (values.zipIdx index) ps

/-- The statement is the call on a line with the tokens `ts`. Its parameters are the name, the return
value, the object and the arguments. An object that is not written is null, and so is a return value,
unless the conditional of the line takes its place. -/
def ReadAs (c : ScriptCall) (lang : Language) (condition : Conditional) (ts : List Token) (line : Nat)
    (text : String) (s : Statement) : Prop :=
  ∃ d name target object arguments, lang.find? CommandId.callScript = some d ∧ Names c.name name ∧
    Option.Rel (Parameter.ofToken ⟨.returnValueIfStart, 1, 0⟩ · = .ok ·) c.target target ∧
    Option.Rel (Parameter.ofToken ⟨.refObj, 2, 1⟩ · = .ok ·) c.object object ∧
    Passes 3 c.values arguments ∧
    s = Statement.ofLine (some d) condition
      (name ::
        target.getD (if condition = .unconditional then .null ⟨.returnValueIfStart, 1, 0⟩
          else .conditional ⟨.returnValueIfStart, 1, 0⟩ condition (Token.extent ts)) ::
        object.getD (.null ⟨.refObj, 2, 1⟩) :: arguments) line text

end ScriptCall

/-! ### Names and values

A word is never a value. So a name and a value cannot be confused, and from the front of the
arguments it can always be told which of the two comes next. -/

/-- No word is a value. -/
theorem kind_of_isValue {t : Token} (h : t.isValue = true) : t.kind ≠ .word := by
  intro hkind
  simp [Token.isValue, hkind] at h

/-- A value can be read exactly when it is no number or a number that fits. -/
theorem exists_ofToken_iff {t : Token} (hvalue : t.isValue = true) (slot : Slot) :
    (∃ p, Parameter.ofToken slot t = .ok p) ↔
      (t.kind = .number → (Number.ofText? t.text).isSome = true) := by
  unfold Parameter.ofToken Parameter.read
  cases hkind : t.kind with
  | number => cases Number.ofText? t.text <;> simp [Except.map]
  | var | string | object | constant | null | label => simp [Except.map]
  | _ => simp [Token.isValue, hkind] at hvalue

/-- A token that is no name is a value. -/
theorem runs_cons_iff {t : Token} {ts values : List Token}
    (h : ∀ equals rest, ts = equals :: rest → t.kind = .word → equals.isOperator "=" ≠ true) :
    Runs (t :: ts) values ↔ t.isValue = true ∧ ∃ rest, values = t :: rest ∧ Runs ts rest := by
  constructor
  · intro hruns
    cases hruns with
    | value hvalue hrest => exact ⟨hvalue, _, rfl, hrest⟩
    | name hname hequals _ => exact absurd hequals (h _ _ rfl hname)
  · rintro ⟨hvalue, rest, rfl, hrest⟩
    exact .value hvalue hrest

/-- A name and its equals sign are passed over. -/
theorem runs_name_iff {name equals : Token} {ts values : List Token} (hname : name.kind = .word)
    (hequals : equals.isOperator "=" = true) :
    Runs (name :: equals :: ts) values ↔ Runs ts values := by
  constructor
  · intro hruns
    cases hruns with
    | value hvalue _ => exact absurd hname (kind_of_isValue hvalue)
    | name _ _ hrest => exact hrest
  · exact .name hname hequals

/-- What is true of all names is true of those in the rest of the line. -/
theorem NamesValues.of_suffix {ts us : List Token} (h : NamesValues ts) (hsuffix : us <:+ ts) :
    NamesValues us :=
  fun name equals rest hrest => h name equals rest (hrest.trans hsuffix)

/-- A token that is not followed by an equals sign, or that is no word, is no name. -/
theorem NamesValues.cons {t : Token} {ts : List Token} (h : NamesValues ts)
    (ht : ∀ equals rest, ts = equals :: rest → t.kind = .word → equals.isOperator "=" = true →
      ∃ u ∈ rest.head?, u.isValue = true) : NamesValues (t :: ts) := by
  intro name equals rest hsuffix hname hequals
  rcases List.suffix_cons_iff.mp hsuffix with heq | hrest
  · obtain ⟨rfl, hts⟩ := List.cons_eq_cons.mp heq
    exact ht equals rest hts.symm hname hequals
  · exact h name equals rest hrest hname hequals

/-- In the grammar every name has a value behind it. -/
theorem Groups.namesValues {ts values : List Token} (h : Groups ts values) : NamesValues ts := by
  induction h with
  | nil =>
      intro name equals rest hsuffix
      cases List.suffix_nil.mp hsuffix
  | value hvalue _ ih =>
      exact ih.cons fun _ _ _ hword => absurd hword (kind_of_isValue hvalue)
  | @named name equals t ts values _ hequals hvalue _ ih =>
      have hvalues : NamesValues (t :: ts) :=
        ih.cons fun _ _ _ hword => absurd hword (kind_of_isValue hvalue)
      have hequals' := Language.kind_of_isOperator hequals
      refine (hvalues.cons fun _ _ _ hword => absurd hword hequals').cons ?_
      rintro _ _ ⟨rfl, rfl⟩ _ _
      exact ⟨t, rfl, hvalue⟩

/-- What the grammar has is read. -/
theorem Groups.runs {ts values : List Token} (h : Groups ts values) : Runs ts values := by
  induction h with
  | nil => exact .nil
  | value hvalue _ ih => exact .value hvalue ih
  | named hname hequals hvalue _ ih => exact .name hname hequals (.value hvalue ih)

/-- Where every name has a value behind it, each value has at most one name. -/
theorem Runs.groups {ts values : List Token} (h : Runs ts values) (hnames : NamesValues ts) :
    Groups ts values := by
  induction h with
  | nil => exact .nil
  | value hvalue _ ih => exact .value hvalue (ih (hnames.of_suffix (List.suffix_cons _ _)))
  | @name name equals ts values hname hequals _ ih =>
      obtain ⟨t, ht, hvalue⟩ := hnames name equals ts (List.suffix_refl _) hname hequals
      obtain ⟨rest, rfl⟩ : ∃ rest, ts = t :: rest := ⟨ts.tail, (List.cons_head?_tail ht).symm⟩
      -- the value behind the name is no name itself
      cases ih (hnames.of_suffix ((List.suffix_cons _ _).trans (List.suffix_cons _ _))) with
      | value _ hrest => exact .named hname hequals hvalue hrest
      | named hname' => exact absurd hname' (kind_of_isValue hvalue)

/-- What has a mark behind it is such a part. -/
theorem Marked.part {part : Token → Prop} {mark : String} {ts : List Token} {t? : Option Token}
    (h : Marked part mark ts t?) : ∀ t ∈ t?, part t := by
  cases h with
  | absent => simp
  | present ht _ => simpa using ht

/-- There is no word in it when the part is none. -/
theorem Marked.kind_ne {part : Token → Prop} {mark : String} {ts : List Token} {t? : Option Token}
    (h : Marked part mark ts t?) (hpart : ∀ t, part t → t.kind ≠ .word) :
    ∀ t ∈ ts, t.kind ≠ .word := by
  cases h with
  | absent => simp
  | present ht hsign => simp [hpart _ ht, Language.kind_of_isOperator hsign]

/-- What is collected is values. -/
theorem Runs.isValue {ts values : List Token} (h : Runs ts values) :
    ∀ t ∈ values, t.isValue = true := by
  induction h with
  | nil => simp
  | value hvalue _ ih => exact List.forall_mem_cons.mpr ⟨hvalue, ih⟩
  | name _ _ _ ih => exact ih

/-- What is collected behind a colon is values. -/
theorem BehindColon.isValue {ts values : List Token} (h : BehindColon Runs ts values) :
    ∀ t ∈ values, t.isValue = true := by
  cases h with
  | absent => simp
  | present _ hruns => exact hruns.isValue

/-- The colon is no equals sign, so the name of the script is no name of an argument. -/
theorem namesValues_cons_iff {p : List Token → List Token → Prop} {name : Token}
    {ts values : List Token} (h : BehindColon p ts values) :
    NamesValues (name :: ts) ↔ NamesValues ts := by
  refine ⟨fun hnames => hnames.of_suffix (List.suffix_cons _ _), fun hnames => hnames.cons ?_⟩
  rintro equals rest rfl - hequals
  cases h with
  | present hcolon _ =>
      simp only [Token.isOperator, Bool.and_eq_true, beq_iff_eq] at hcolon hequals
      exact absurd (hcolon.2.symm.trans hequals.2) (by decide)

/-- Behind the colon, the two ways to write arguments differ in the same names. -/
theorem behindColon_groups_iff {ts values : List Token} :
    BehindColon Groups ts values ↔ BehindColon Runs ts values ∧ NamesValues ts := by
  constructor
  · intro h
    cases h with
    | absent => exact ⟨.absent, Groups.nil.namesValues⟩
    | present hcolon hgroups =>
        exact ⟨.present hcolon hgroups.runs, hgroups.namesValues.cons fun _ _ _ hword =>
          absurd hword (Language.kind_of_isOperator hcolon)⟩
  · rintro ⟨h, hnames⟩
    cases h with
    | absent => exact .absent
    | present hcolon hruns =>
        exact .present hcolon (hruns.groups (hnames.of_suffix (List.suffix_cons _ _)))

/-- The two ways to write arguments differ in names that have no value behind them. -/
theorem ScriptCall.follows_groups_iff {c : ScriptCall} {ts : List Token} :
    c.Follows Groups ts ↔ c.Follows Runs ts ∧ NamesValues ts := by
  constructor
  · rintro ⟨us, rfl, hkind, hlisted⟩
    obtain ⟨hruns, hnames⟩ := behindColon_groups_iff.mp hlisted
    exact ⟨⟨us, rfl, hkind, hruns⟩, (namesValues_cons_iff hruns).mpr hnames⟩
  · rintro ⟨⟨us, rfl, hkind, hruns⟩, hnames⟩
    exact ⟨us, rfl, hkind, behindColon_groups_iff.mpr ⟨hruns, (namesValues_cons_iff hruns).mp hnames⟩⟩

namespace Language

/-! ### Splitting a line at the call -/

/-- No word stands in front of a call, so the first two words are those of the call. -/
theorem splitCall_append {before after : List Token} {call script : Token}
    (hbefore : ∀ t ∈ before, t.kind ≠ .word) (hcall : call.isWord "call" = true)
    (hscript : script.isWord "script" = true) :
    splitCall (before ++ call :: script :: after) = some (before, script, after) := by
  induction before with
  | nil => simp [splitCall, hcall, hscript]
  | cons t ts ih =>
      obtain ⟨ht, hts⟩ := List.forall_mem_cons.mp hbefore
      have hword : t.isWord "call" = false := by simp [Token.isWord, ht]
      obtain ⟨u, us, hus⟩ := List.exists_cons_of_ne_nil (l := ts ++ call :: script :: after) (by simp)
      rw [List.cons_append, hus, splitCall, if_neg (by simp [hword]), ← hus, ih hts]
      rfl

/-- Around the two words stand the parts of the call. -/
theorem writes_iff {c : ScriptCall} {arguments : List Token → List Token → Prop}
    {ts before after : List Token} {word : Token}
    (hsplit : splitCall ts = some (before, word, after)) :
    c.Writes arguments ts ↔ c.Precedes before ∧ c.Follows arguments after := by
  constructor
  · rintro ⟨before', call, script, after', rfl, hcall, hscript, hbefore, hafter⟩
    have hwords : ∀ t ∈ before', t.kind ≠ .word := by
      obtain ⟨us, vs, rfl, hus, hvs⟩ := hbefore
      refine List.forall_mem_append.mpr ⟨hus.kind_ne ?_, hvs.kind_ne fun _ => kind_of_isValue⟩
      intro t ht
      simp [ht]
    rw [splitCall_append hwords hcall hscript] at hsplit
    cases hsplit
    exact ⟨hbefore, hafter⟩
  · rintro ⟨hbefore, hafter⟩
    obtain ⟨call, hts, hcall, hscript⟩ := eq_append_of_splitCall hsplit
    exact ⟨before, call, word, after, hts, hcall, hscript, hbefore, hafter⟩

/-! ### The parts of the reader

What each part of the reader accepts is what a part of the grammar derives. The slots are those of
the command for calls, which every catalog has in the same form. -/

section

variable {d : Definition} {line : Nat}

/-- An object has an arrow behind it, so it is not taken for a return value. -/
theorem writesReturn_of_marked {part : Token → Prop} {ts : List Token} {t? : Option Token}
    (h : Marked part "->" ts t?) : writesReturn ts = false := by
  cases h with
  | absent => rfl
  | @present t arrow _ harrow =>
      have harrow' : arrow.text = "->" := by
        rw [Token.isOperator, Bool.and_eq_true, beq_iff_eq] at harrow
        exact harrow.2
      simp [writesReturn, Token.isOperator, harrow']

/-- An object is a value with an arrow behind it. -/
theorem readCallObject_iff_marked {ts : List Token} {object : Option Parameter} :
    readCallObject d line ts = .ok object ↔ ∃ t?, Marked (·.isValue = true) "->" ts t? ∧
      Option.Rel (Parameter.ofToken (callSlot d 2) · = .ok ·) t? object := by
  rw [readCallObject_eq_ok_iff]
  constructor
  · rintro (⟨rfl, rfl⟩ | ⟨t, arrow, p, rfl, hvalue, harrow, hp, rfl⟩)
    · exact ⟨none, .absent, .none⟩
    · exact ⟨some t, .present hvalue harrow, .some hp⟩
  · rintro ⟨t?, hmarked, hrel⟩
    cases hmarked with
    | absent =>
        cases hrel
        exact .inl ⟨rfl, rfl⟩
    | present hvalue harrow =>
        cases hrel with
        | some hp => exact .inr ⟨_, _, _, rfl, hvalue, harrow, hp, rfl⟩

/-- What stands in front of a call: a return value and an object, each of which may be left out. -/
theorem readCallTarget_eq_ok_iff {ts : List Token} {target object : Option Parameter} :
    readCallTarget d line ts = .ok (target, object) ↔
      ∃ us vs t? o?, ts = us ++ vs ∧ Marked (·.kind = .var) "=" us t? ∧
        Marked (·.isValue = true) "->" vs o? ∧
        Option.Rel (Parameter.ofToken (callSlot d 1) · = .ok ·) t? target ∧
        Option.Rel (Parameter.ofToken (callSlot d 2) · = .ok ·) o? object := by
  rw [readCallTarget_eq]
  constructor
  · intro h
    obtain ⟨⟨target', vs⟩, hreturn, h⟩ := bind_eq_ok.mp h
    obtain ⟨object', hobject, h⟩ := bind_eq_ok.mp h
    rw [pure_eq_ok] at h
    cases h
    obtain ⟨o?, hvs, hrel⟩ := readCallObject_iff_marked.mp hobject
    rcases readCallReturn_eq_ok_iff.mp hreturn with
      ⟨t, equals, p, rfl, hvar, hequals, hp, rfl⟩ | ⟨-, rfl, rfl⟩
    · exact ⟨[t, equals], vs, some t, o?, rfl, .present hvar hequals, hvs, .some hp, hrel⟩
    · exact ⟨[], ts, none, o?, rfl, .absent, hvs, .none, hrel⟩
  · rintro ⟨us, vs, t?, o?, rfl, hus, hvs, htarget, hobject⟩
    have hreturn : readCallReturn d line (us ++ vs) = .ok (target, vs) := by
      refine readCallReturn_eq_ok_iff.mpr ?_
      cases hus with
      | absent =>
          cases htarget
          exact .inr ⟨writesReturn_of_marked hvs, rfl, rfl⟩
      | present hvar hequals =>
          cases htarget with
          | some hp => exact .inl ⟨_, _, _, rfl, hvar, hequals, hp, rfl⟩
    exact bind_eq_ok.mpr ⟨_, hreturn,
      bind_eq_ok.mpr ⟨_, readCallObject_iff_marked.mpr ⟨o?, hvs, hobject⟩, rfl⟩⟩

/-- In its slot, the name of a script is what the string stands for, or the word itself. -/
theorem readCallName_iff_names (hslot : callSlot d 0 = ⟨.scriptName, 0, 2⟩) {word : Token}
    {ts rest : List Token} {name : Parameter} :
    readCallName d line word ts = .ok (name, rest) ↔
      ∃ t, ts = t :: rest ∧ (t.kind = .string ∨ t.kind = .word) ∧ ScriptCall.Names t name := by
  simp only [readCallName_eq_ok_iff, hslot, ScriptCall.Names]
  refine exists_congr fun t => and_congr_right fun _ => ?_
  constructor
  · rintro (⟨hstring, hp⟩ | ⟨hword, rfl⟩)
    · exact ⟨.inl hstring, by rw [if_pos hstring]; exact hp⟩
    · exact ⟨.inr hword, by rw [if_neg (by simp [hword])]⟩
  · rintro ⟨hstring | hword, hname⟩
    · rw [if_pos hstring] at hname
      exact .inl ⟨hstring, hname⟩
    · rw [if_neg (by simp [hword])] at hname
      exact .inr ⟨hword, hname⟩

/-- The colon in front of the arguments may only be left out with them. -/
theorem behindColon_iff_skipColon {ts values : List Token} :
    BehindColon Runs ts values ↔ ∃ rest, skipColon line ts = .ok rest ∧ Runs rest values := by
  constructor
  · intro h
    cases h with
    | absent => exact ⟨[], rfl, .nil⟩
    | present hcolon hruns => exact ⟨_, if_pos hcolon, hruns⟩
  · rintro ⟨rest, hrest, hruns⟩
    unfold skipColon at hrest
    split at hrest
    · cases hrest
      cases hruns
      exact .absent
    · split at hrest
      · next hcolon =>
        cases hrest
        exact .present hcolon hruns
      · cases hrest

/-- An argument is a value that can be read. -/
theorem readArgument_eq_ok_iff {index : Nat} {t : Token} {p : Parameter} :
    readArgument line index t = .ok p ↔
      t.isValue = true ∧ Parameter.ofToken (Slot.argument index) t = .ok p := by
  unfold readArgument
  split
  · next hvalue => simp [bindToken_eq_ok_iff, hvalue]
  · next hvalue => simp [hvalue]

/-- An argument and the arguments behind it. -/
theorem readArgument_cons_eq_ok_iff {index : Nat} {t : Token} {ts : List Token}
    {ps : List Parameter} {rest : Except Diagnostic (List Parameter)}
    (hname : ∀ equals us, ts = equals :: us → t.kind = .word → equals.isOperator "=" ≠ true)
    (hrest : ∀ qs, rest = .ok qs ↔
      ∃ values, Runs ts values ∧ ScriptCall.Passes (index + 1) values qs) :
    (do let p ← readArgument line index t; return p :: (← rest)) = .ok ps ↔
      ∃ values, Runs (t :: ts) values ∧ ScriptCall.Passes index values ps := by
  constructor
  · intro h
    obtain ⟨p, hp, h⟩ := bind_eq_ok.mp h
    obtain ⟨qs, hqs, h⟩ := bind_eq_ok.mp h
    rw [pure_eq_ok] at h
    subst h
    obtain ⟨hvalue, hp⟩ := readArgument_eq_ok_iff.mp hp
    obtain ⟨values, hruns, hpasses⟩ := (hrest qs).mp hqs
    exact ⟨t :: values, .value hvalue hruns, .cons hp hpasses⟩
  · rintro ⟨values, hruns, hpasses⟩
    obtain ⟨hvalue, values', rfl, hruns'⟩ := (runs_cons_iff hname).mp hruns
    cases hpasses with
    | cons hp hpasses =>
        exact bind_eq_ok.mpr ⟨_, readArgument_eq_ok_iff.mpr ⟨hvalue, hp⟩,
          bind_eq_ok.mpr ⟨_, (hrest _).mpr ⟨values', hruns', hpasses⟩, rfl⟩⟩

/-- Without tokens there are no arguments. -/
theorem nil_eq_ok_iff {index : Nat} {ps : List Parameter} :
    (.ok [] : Except Diagnostic (List Parameter)) = .ok ps ↔
      ∃ values, Runs [] values ∧ ScriptCall.Passes index values ps := by
  constructor
  · intro h
    cases h
    exact ⟨[], .nil, .nil⟩
  · rintro ⟨values, hruns, hpasses⟩
    cases hruns
    cases hpasses
    rfl

/-- The arguments of a call are its values in order, and names do not count. -/
theorem readArguments_eq_ok_iff {index : Nat} {ts : List Token} {ps : List Parameter} :
    readArguments line index ts = .ok ps ↔
      ∃ values, Runs ts values ∧ ScriptCall.Passes index values ps := by
  fun_induction readArguments line index ts generalizing ps with
  | case1 index => exact nil_eq_ok_iff
  | case2 index t =>
      have hlast : (do return [← readArgument line index t]) =
          (do let p ← readArgument line index t; return p :: (← readArguments line (index + 1) [])) :=
        rfl
      rw [hlast]
      exact readArgument_cons_eq_ok_iff (by simp) fun qs => nil_eq_ok_iff
  | case3 index name equals ts hname ih =>
      rw [Bool.and_eq_true, beq_iff_eq] at hname
      simp only [runs_name_iff hname.1 hname.2]
      exact ih
  | case4 index t equals ts hname ih =>
      refine readArgument_cons_eq_ok_iff ?_ fun qs => ih
      rintro equals' us ⟨rfl, rfl⟩ hword hequals
      simp [hword, hequals] at hname

/-- The slots that the built-in command for script calls has. -/
theorem callSlot_builtin (hmem : d ∈ Catalog.builtin.definitions)
    (hid : d.id = CommandId.callScript) :
    callSlot d 0 = ⟨.scriptName, 0, 2⟩ ∧ callSlot d 1 = ⟨.returnValueIfStart, 1, 0⟩ ∧
      callSlot d 2 = ⟨.refObj, 2, 1⟩ := by
  obtain ⟨-, hparameters, horder⟩ := (parameters_builtin d hmem).1 hid
  simp only [callSlot, Definition.slot?, hparameters, horder]
  decide

end

end Language

/-! ### Script calls

The parts are put together. A call that is written has a statement if its numbers can be stored, and
this statement is determined by its parts. -/

section

variable {lang : Language} {c : ScriptCall} {condition : Conditional} {ts before after : List Token}
  {word : Token} {line : Nat} {text : String}

namespace ScriptCall

/-- What a call is read as exists exactly when its numbers fit. -/
theorem exists_rel_iff (slot : Slot) {t? : Option Token} (hvalue : ∀ t ∈ t?, t.isValue = true) :
    (∃ p?, Option.Rel (Parameter.ofToken slot · = .ok ·) t? p?) ↔
      ∀ t ∈ t?.toList, t.kind = .number → (Number.ofText? t.text).isSome = true := by
  cases t? with
  | none => exact ⟨fun _ => by simp, fun _ => ⟨none, .none⟩⟩
  | some t =>
      have hiff := exists_ofToken_iff (hvalue t rfl) slot
      simp only [Option.toList_some, List.mem_singleton, forall_eq, ← hiff]
      constructor
      · rintro ⟨_, hrel⟩
        cases hrel with
        | some hp => exact ⟨_, hp⟩
      · rintro ⟨p, hp⟩
        exact ⟨some p, .some hp⟩

/-- Values can be passed when their numbers fit. -/
theorem exists_passes_iff (index : Nat) {values : List Token}
    (hvalues : ∀ t ∈ values, t.isValue = true) :
    (∃ ps, Passes index values ps) ↔
      ∀ t ∈ values, t.kind = .number → (Number.ofText? t.text).isSome = true := by
  induction values generalizing index with
  | nil => exact ⟨fun _ => by simp, fun _ => ⟨[], .nil⟩⟩
  | cons t values ih =>
      obtain ⟨ht, hvalues⟩ := List.forall_mem_cons.mp hvalues
      have hfirst := exists_ofToken_iff ht (Slot.argument index)
      rw [List.forall_mem_cons, ← hfirst, ← ih (index + 1) hvalues]
      constructor
      · rintro ⟨_, hpasses⟩
        cases hpasses with
        | cons hp hpasses => exact ⟨⟨_, hp⟩, _, hpasses⟩
      · rintro ⟨⟨p, hp⟩, ps, hpasses⟩
        exact ⟨p :: ps, .cons hp hpasses⟩

/-- Any name of a script can be read. -/
theorem exists_names {t : Token} (hkind : t.kind = .string ∨ t.kind = .word) : ∃ p, Names t p := by
  unfold Names
  rcases hkind with hstring | hword
  · simp only [hstring, if_true]
    exact (exists_ofToken_iff (by simp [Token.isValue, hstring]) _).mpr (by simp [hstring])
  · simp [hword]

/-- A call that is written is a statement when its numbers fit, and only then. -/
theorem exists_readAs_iff (hcat : lang.catalog.Reachable) (hwrites : c.Writes Runs ts) :
    (∃ s, c.ReadAs lang condition ts line text s) ↔ c.InRange := by
  obtain ⟨_, _, _, _, -, -, -, ⟨_, _, -, htarget, hobject⟩, _, -, hkind, hlisted⟩ := hwrites
  have hvar : ∀ t ∈ c.target, t.isValue = true := by
    intro t ht
    simp [Token.isValue, htarget.part t ht]
  have hrelTarget := exists_rel_iff ⟨.returnValueIfStart, 1, 0⟩ hvar
  have hrelObject := exists_rel_iff ⟨.refObj, 2, 1⟩ hobject.part
  have hpassed := exists_passes_iff 3 hlisted.isValue
  rw [InRange, List.forall_mem_append, ← hrelObject, ← hpassed]
  constructor
  · rintro ⟨_, d, name, target, object, arguments, -, -, -, ho, hpasses, -⟩
    exact ⟨⟨object, ho⟩, arguments, hpasses⟩
  · rintro ⟨⟨object, ho⟩, arguments, hpasses⟩
    obtain ⟨target, ht⟩ := hrelTarget.mpr fun t ht hnumber => by
      have hvar := htarget.part t (Option.mem_toList.mp ht)
      rw [hvar] at hnumber
      cases hnumber
    obtain ⟨name, hname⟩ := exists_names hkind
    have hbuiltin : ∃ b ∈ Catalog.builtin.definitions, b.id = CommandId.callScript :=
      Catalog.exists_builtin (by decide)
    obtain ⟨d, -, -, hfind⟩ := hcat.find?_builtin hbuiltin lang.version
    exact ⟨_, d, name, target, object, arguments, hfind, hname, ht, ho, hpasses, rfl⟩

end ScriptCall

namespace Language

/-- A call is read exactly when it is written, and then as what it says. -/
theorem readScriptCall_eq_ok_iff (hcat : lang.catalog.Reachable)
    (hsplit : splitCall ts = some (before, word, after)) {s : Statement} :
    lang.readScriptCall condition ts before word after line text = .ok s ↔
      ∃ c : ScriptCall, c.Writes Runs ts ∧ c.ReadAs lang condition ts line text s := by
  have hbuiltin : ∃ b ∈ Catalog.builtin.definitions, b.id = CommandId.callScript :=
    Catalog.exists_builtin (by decide)
  obtain ⟨d, hmem, hid, hfind⟩ := hcat.find?_builtin hbuiltin lang.version
  obtain ⟨hname, hreturn, hobject⟩ := callSlot_builtin hmem hid
  have hcommand : lang.command CommandId.callScript = .ok d := by rw [command, find?, hfind]
  -- both sides are split at the two words, and then compared part by part
  simp only [writes_iff hsplit]
  unfold readScriptCall ScriptCall.ReadAs
  rw [hcommand]
  constructor
  · intro h
    obtain ⟨_, hd, h⟩ := bind_eq_ok.mp h
    cases hd
    obtain ⟨⟨target, object⟩, htarget, h⟩ := bind_eq_ok.mp h
    obtain ⟨⟨name, rest⟩, hcallName, h⟩ := bind_eq_ok.mp h
    obtain ⟨args, hargs, h⟩ := bind_eq_ok.mp h
    obtain ⟨arguments, harguments, h⟩ := bind_eq_ok.mp h
    rw [pure_eq_ok] at h
    subst h
    obtain ⟨us, vs, t?, o?, rfl, hus, hvs, ht, ho⟩ := readCallTarget_eq_ok_iff.mp htarget
    obtain ⟨t, rfl, hkind, hnames⟩ := (readCallName_iff_names hname).mp hcallName
    obtain ⟨values, hruns, hpasses⟩ := readArguments_eq_ok_iff.mp harguments
    rw [hreturn] at ht
    rw [hobject] at ho
    refine ⟨⟨t?, o?, t, values⟩, ⟨⟨us, vs, rfl, hus, hvs⟩, rest, rfl, hkind,
      behindColon_iff_skipColon.mpr ⟨args, hargs, hruns⟩⟩, d, name, target, object, arguments, hfind,
      hnames, ht, ho, hpasses, ?_⟩
    rw [hreturn, hobject]
  · rintro ⟨c, ⟨⟨us, vs, rfl, hus, hvs⟩, rest, rfl, hkind, hlisted⟩, d', name, target, object,
      arguments, hfind', hnames, ht, ho, hpasses, rfl⟩
    obtain rfl : d = d' := Option.some.inj (hfind.symm.trans hfind')
    obtain ⟨args, hargs, hruns⟩ := behindColon_iff_skipColon.mp hlisted
    rw [← hreturn] at ht
    rw [← hobject] at ho
    have htarget : readCallTarget d line (us ++ vs) = .ok (target, object) :=
      readCallTarget_eq_ok_iff.mpr ⟨us, vs, _, _, rfl, hus, hvs, ht, ho⟩
    have hcallName : readCallName d line word (c.name :: rest) = .ok (name, rest) :=
      (readCallName_iff_names hname).mpr ⟨c.name, rfl, hkind, hnames⟩
    have harguments : readArguments line 3 args = .ok arguments :=
      readArguments_eq_ok_iff.mpr ⟨c.values, hruns, hpasses⟩
    refine bind_eq_ok.mpr ⟨d, rfl, bind_eq_ok.mpr ⟨_, htarget, bind_eq_ok.mpr ⟨_, hcallName,
      bind_eq_ok.mpr ⟨_, hargs, bind_eq_ok.mpr ⟨_, harguments, ?_⟩⟩⟩⟩⟩
    rw [pure_eq_ok, hreturn, hobject]

/-- A script call is read exactly when its tokens are
`[$ret =] [object ->] call script name [: ...]`, where names and values stand behind the colon in any
order and the numbers fit into 32 bits. Its parameters are the name, the return value, the object and
then the values one by one. In the grammar names only stand in front of values; elsewhere they are read
as well. -/
theorem readScriptCall_reads_calls (hcat : lang.catalog.Reachable)
    (hsplit : splitCall ts = some (before, word, after)) (condition : Conditional) (line : Nat)
    (text : String) :
    ((∃ s, lang.readScriptCall condition ts before word after line text = .ok s) ↔
      ∃ c : ScriptCall, c.Writes Runs ts ∧ c.InRange) ∧
    (∀ s, lang.readScriptCall condition ts before word after line text = .ok s ↔
      ∃ c : ScriptCall, c.Writes Runs ts ∧ c.ReadAs lang condition ts line text s) ∧
    ∀ c : ScriptCall, c.Writes Groups ts ↔ c.Writes Runs ts ∧ NamesValues after := by
  refine ⟨?_, fun s => readScriptCall_eq_ok_iff hcat hsplit, fun c => ?_⟩
  · simp only [readScriptCall_eq_ok_iff hcat hsplit]
    constructor
    · rintro ⟨s, c, hwrites, hread⟩
      exact ⟨c, hwrites, (ScriptCall.exists_readAs_iff hcat hwrites).mp ⟨s, hread⟩⟩
    · rintro ⟨c, hwrites, hrange⟩
      obtain ⟨s, hread⟩ := (ScriptCall.exists_readAs_iff hcat hwrites).mpr hrange
      exact ⟨s, c, hwrites, hread⟩
  · rw [writes_iff hsplit, writes_iff hsplit, ScriptCall.follows_groups_iff, and_assoc]

/-- A call with a return value, an object and two arguments with names. -/
theorem readScriptCall_reads_calls_named :
    Catalog.builtin.Reachable ∧
      ∃ lang ts before word after text, lang = (⟨.builtin, .terranConflict⟩ : Language) ∧
        text = "$r = [THIS] -> call script 'plugin.test' : count=5 target=$ship" ∧ ts = tokens text ∧
        splitCall ts = some (before, word, after) ∧
        ((∃ s, lang.readScriptCall .unconditional ts before word after 1 text = .ok s) ↔
          ∃ c : ScriptCall, c.Writes Runs ts ∧ c.InRange) ∧
        (∀ s, lang.readScriptCall .unconditional ts before word after 1 text = .ok s ↔
          ∃ c : ScriptCall, c.Writes Runs ts ∧ c.ReadAs lang .unconditional ts 1 text s) ∧
        ∀ c : ScriptCall, c.Writes Groups ts ↔ c.Writes Runs ts ∧ NamesValues after := by
  obtain ⟨⟨before, word, after⟩, hsplit⟩ := Option.isSome_iff_exists.mp
    (show (splitCall (tokens
      "$r = [THIS] -> call script 'plugin.test' : count=5 target=$ship")).isSome = true by
        decide +kernel)
  exact ⟨.builtin, _, _, before, word, after, _, rfl, rfl, rfl, hsplit,
    readScriptCall_reads_calls .builtin hsplit .unconditional 1 _⟩

/-- A name at the end of the line is read, though no value follows. -/
theorem readScriptCall_reads_calls_valueless :
    ∃ ts before word after text, text = "call script 'x' : a=" ∧ ts = tokens text ∧
      splitCall ts = some (before, word, after) ∧
      (∃ s, (⟨.builtin, .terranConflict⟩ : Language).readScriptCall .unconditional ts before word
        after 1 text = .ok s) ∧
      ¬ ∃ c : ScriptCall, c.Writes Groups ts ∧ c.InRange := by
  have hsplit : splitCall (tokens "call script 'x' : a=") = some ([], ⟨.word, 5, 11, "script"⟩,
      [⟨.string, 12, 15, "'x'"⟩, ⟨.unaryOp, 16, 17, ":"⟩, ⟨.word, 18, 19, "a"⟩,
        ⟨.binaryOp, 19, 20, "="⟩]) := by
    decide +kernel
  refine ⟨_, _, _, _, _, rfl, rfl, hsplit, ?_, ?_⟩
  · have hcat : (⟨.builtin, .terranConflict⟩ : Language).catalog.Reachable := .builtin
    have hwrites := (writes_iff (c := ⟨none, none, ⟨.string, 12, 15, "'x'"⟩, []⟩) hsplit).mpr
      ⟨⟨[], [], rfl, .absent, .absent⟩, _, rfl, .inl rfl, .present rfl (Runs.name rfl rfl .nil)⟩
    obtain ⟨s, hread⟩ := (ScriptCall.exists_readAs_iff hcat hwrites).mpr
      (by simp [ScriptCall.InRange])
    exact ⟨s, (readScriptCall_eq_ok_iff hcat hsplit).mpr ⟨_, hwrites, hread⟩⟩
  · rintro ⟨c, hwrites, -⟩
    have hnames := (ScriptCall.follows_groups_iff.mp ((writes_iff hsplit).mp hwrites).2).2
    obtain ⟨t, ht, -⟩ := hnames ⟨.word, 18, 19, "a"⟩ ⟨.binaryOp, 19, 20, "="⟩ [] ⟨[_, _], rfl⟩ rfl rfl
    cases ht

end Language

end

end MissionScript
