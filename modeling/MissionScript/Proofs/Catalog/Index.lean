import MissionScript.Proofs.Catalog.Arrangement
import Mathlib.Data.List.Basic

/-!
# MissionScript.Proofs.Catalog.Index

Looking commands up in tables.

A catalog is a list of commands, and its answers are searched in the list. An `Index` keeps two hash
tables instead, one by number and one by shape, and changes them step by step; that a command does not
fit is found out only after the first table has been touched. `Index.Mirrors` says that the tables hold
what the list does. Every change keeps this, a failing one as well (`Index.Mirrors.change`), so an index
answers as the catalog of the same changes.

In such a catalog no version has two commands of one number (`Catalog.distinct_ofChanges`), so both ways
of asking name the same command (`Catalog.consistent_ofChanges`).
-/

namespace MissionScript

/-! ### Tables of lists

An entry of a table is a list, since several commands can share a number or a shape. The list of a
key that is not there is empty. -/

/-- The number of elements in the lists of a table. -/
def tableSize {κ α : Type} [BEq κ] [Hashable κ] (m : Std.HashMap κ (List α)) : Nat :=
  (m.toList.flatMap (·.2)).length

/-- Adds an element to the list under a key. -/
def tablePush {κ α : Type} [BEq κ] [Hashable κ] (m : Std.HashMap κ (List α)) (k : κ) (a : α) :
    Std.HashMap κ (List α) :=
  m.insert k (m.getD k [] ++ [a])

section

variable {κ α : Type} [BEq κ] [Hashable κ] [LawfulBEq κ] [LawfulHashable κ]

theorem getD_tablePush (m : Std.HashMap κ (List α)) (k key : κ) (a : α) :
    (tablePush m k a).getD key [] = m.getD key [] ++ if k == key then [a] else [] := by
  rw [tablePush, Std.HashMap.getD_insert]
  split
  · next heq => rw [eq_of_beq heq]
  · rw [List.append_nil]

/-- Putting back the list that is there changes no list. -/
theorem getD_insert_getD (m : Std.HashMap κ (List α)) (k key : κ) :
    (m.insert k (m.getD k [])).getD key [] = m.getD key [] := by
  rw [Std.HashMap.getD_insert]
  split
  · next heq => rw [eq_of_beq heq]
  · rfl

/-- The size of a table counts the list under one key beside all others. -/
theorem tableSize_insert (m : Std.HashMap κ (List α)) (k : κ) (v : List α) :
    tableSize (m.insert k v) + (m.getD k []).length = tableSize m + v.length := by
  have hinsert : ∀ w : List α, tableSize (m.insert k w)
      = w.length + ((m.toList.filter fun entry => decide ¬(k == entry.1) = true).flatMap
        (·.2)).length := by
    intro w
    have hperm := Std.HashMap.toList_insert_perm (m := m) (k := k) (v := w)
    rw [tableSize, (hperm.flatMap_right _).length_eq, List.flatMap_cons, List.length_append]
  cases hk : m[k]? with
  | none =>
      have hall : (m.toList.filter fun entry => decide ¬(k == entry.1) = true) = m.toList := by
        rw [List.filter_eq_self]
        rintro ⟨key, w⟩ hmem
        rw [Std.HashMap.mem_toList_iff_getElem?_eq_some] at hmem
        rw [decide_eq_true_eq]
        intro heq
        rw [show key = k from (eq_of_beq heq).symm, hk] at hmem
        cases hmem
      rw [hinsert, hall, Std.HashMap.getD_eq_getD_getElem?, hk, tableSize, Option.getD_none,
        List.length_nil]
      omega
  | some w =>
      have hsame : (m.insert k w).Equiv m := by
        refine Std.HashMap.Equiv.of_forall_getElem?_eq fun key => ?_
        rw [Std.HashMap.getElem?_insert]
        split
        · next heq => rw [← eq_of_beq heq, hk]
        · rfl
      have hsize : tableSize (m.insert k w) = tableSize m :=
        (hsame.toList_perm.flatMap_right _).length_eq
      rw [hinsert] at hsize ⊢
      rw [Std.HashMap.getD_eq_getD_getElem?, hk, Option.getD_some]
      omega

theorem tableSize_tablePush (m : Std.HashMap κ (List α)) (k : κ) (a : α) :
    tableSize (tablePush m k a) = tableSize m + 1 := by
  have hsize := tableSize_insert m k (m.getD k [] ++ [a])
  rw [List.length_append, List.length_singleton] at hsize
  rw [tablePush]
  omega

end

/-! ### Changes

A document is read as a whole before its first command is added, so one that cannot be read adds
nothing. One that can be read adds the commands in front of the first that does not fit. -/

namespace Catalog

/-- A change to a catalog. -/
inductive Change
  /-- One command is added. -/
  | insert (d : Definition)
  /-- The commands of a catalog in JSON are added. -/
  | document (json : String)

/-- Makes a change. A command that does not fit changes nothing. -/
def change (c : Catalog) : Change → Catalog × Option Failure
  | .insert d =>
    match c.insert d with
    | .error failure => (c, some failure)
    | .ok c => (c, none)
  | .document json => c.extendFromJson json

theorem change_of_insert_error {c : Catalog} {d : Definition} {failure : Failure}
    (h : c.insert d = .error failure) : c.change (.insert d) = (c, some failure) := by
  rw [change, h]

theorem change_of_insert {c c' : Catalog} {d : Definition} (h : c.insert d = .ok c') :
    c.change (.insert d) = (c', none) := by
  rw [change, h]

/-- The catalog that changes make of the empty one, whether or not they fail. -/
def ofChanges (changes : List Change) : Catalog :=
  changes.foldl (fun c change => (c.change change).1) empty

/-- What every insertion keeps holds after any changes. -/
theorem of_ofChanges {P : Catalog → Prop} (hempty : P empty)
    (hinsert : ∀ {c c' : Catalog} {d : Definition}, P c → c.insert d = .ok c' → P c')
    (changes : List Change) : P (ofChanges changes) := by
  refine List.foldlRecOn changes _ hempty fun c hc change _ => ?_
  cases change with
  | insert d =>
      cases hd : c.insert d with
      | error failure => rwa [change_of_insert_error hd]
      | ok c' =>
          rw [change_of_insert hd]
          exact hinsert hc hd
  | document json =>
      rw [Catalog.change, extendFromJson]
      cases Document.decodeText Definition.listOfJson json with
      | error fault => exact hc
      | ok ds => exact of_extend hinsert hc ds

/-- No version has two commands of one number. -/
theorem distinct_ofChanges (changes : List Change) : (ofChanges changes).Distinct :=
  of_ofChanges distinct_empty Distinct.insert changes

/-- Commands that are added one by one break off at the first that does not fit. -/
theorem exists_of_extend {c : Catalog} {ds : List Definition} {failure : Failure}
    (h : (c.extend ds).2 = some failure) :
    ∃ before d after, ds = before ++ d :: after ∧
      before.foldlM Catalog.insert c = .ok (c.extend ds).1 ∧
      (c.extend ds).1.insert d = .error failure := by
  induction ds generalizing c with
  | nil => cases h
  | cons d ds ih =>
      unfold extend at h ⊢
      cases hd : c.insert d with
      | error fault =>
          rw [hd] at h
          cases h
          exact ⟨[], d, ds, rfl, rfl, hd⟩
      | ok c' =>
          rw [hd] at h
          obtain ⟨before, e, after, hds, hbefore, hfails⟩ := ih h
          refine ⟨d :: before, e, after, by rw [hds, List.cons_append], ?_, hfails⟩
          rw [List.foldlM_cons, hd]
          exact hbefore

/-- A document that fails either cannot be read and adds nothing, or breaks off at a command. -/
theorem of_extendFromJson_eq_some {c : Catalog} {json : String} {failure : Failure}
    (h : (c.extendFromJson json).2 = some failure) :
    (∃ fault, Document.decodeText Definition.listOfJson json = .error fault ∧
      failure = .json fault ∧ (c.extendFromJson json).1 = c) ∨
    ∃ before d after,
      Document.decodeText Definition.listOfJson json = .ok (before ++ d :: after) ∧
      before.foldlM Catalog.insert c = .ok (c.extendFromJson json).1 ∧
      (c.extendFromJson json).1.insert d = .error failure := by
  rw [extendFromJson] at h ⊢
  cases hdecode : Document.decodeText Definition.listOfJson json with
  | error fault =>
      rw [hdecode] at h
      cases h
      exact Or.inl ⟨fault, rfl, rfl, rfl⟩
  | ok ds =>
      rw [hdecode] at h
      obtain ⟨before, d, after, rfl, hbefore, hfails⟩ := exists_of_extend h
      exact Or.inr ⟨before, d, after, rfl, hbefore, hfails⟩

/-! ### What is stored

The list of a key has the commands of that key, in the order in which they were added. -/

/-- In a list in which no two elements pass the test, the first that does is the only one. -/
theorem filter_eq_toList_find? {α : Type} {p : α → Bool} {l : List α}
    (h : l.Pairwise fun a b => p a = true → p b = false) : l.filter p = (l.find? p).toList := by
  induction l with
  | nil => rfl
  | cons a l ih =>
      obtain ⟨ha, hl⟩ := List.pairwise_cons.mp h
      cases hp : p a with
      | true =>
          have hnone : l.filter p = [] := List.filter_eq_nil_iff.mpr fun b hb => by simp [ha b hb hp]
          rw [List.filter_cons_of_pos hp, List.find?_cons_of_pos hp, hnone]
          rfl
      | false =>
          rw [List.filter_cons_of_neg (by simp [hp]), List.find?_cons_of_neg (by simp [hp])]
          exact ih hl

/-- At most one command of a number is there in a version, and look-up gives it. -/
theorem Distinct.filter_eq {c : Catalog} (h : c.Distinct) (id : Nat) (version : GameVersion) :
    (c.definitions.filter fun d => d.id == id && d.supports version)
      = (c.find? id version).toList := by
  refine filter_eq_toList_find? (h.imp fun {d e} hde hd => ?_)
  rw [Bool.and_eq_true, beq_iff_eq] at hd
  rw [Bool.and_eq_false_imp, beq_iff_eq]
  intro he
  by_contra hsupports
  rw [Bool.not_eq_false] at hsupports
  have hoverlaps := hde (hd.1.trans he.symm)
  rw [overlaps_of_supports hd.2 hsupports] at hoverlaps
  cases hoverlaps

/-- The candidates that a command gives for a shape. -/
def candidatesOf (shape : String) (d : Definition) : List Candidate :=
  (d.forms.filter (·.shape == shape)).map fun form => ⟨d, form.omitsReturn⟩

theorem identify_eq_flatMap (c : Catalog) (shape : String) (version : GameVersion) :
    c.identify shape version
      = (c.definitions.filter (·.supports version)).flatMap (candidatesOf shape) := by
  rw [identify, definitions, List.filter_map, List.flatMap_map]
  refine List.flatMap_congr fun e _ => ?_
  rw [candidatesOf, ← e.forms_eq]

/-- The candidates that a version has are those of its commands. -/
theorem filter_flatMap_candidatesOf (shape : String) (version : GameVersion)
    (ds : List Definition) :
    (ds.flatMap (candidatesOf shape)).filter (·.definition.supports version)
      = (ds.filter (·.supports version)).flatMap (candidatesOf shape) := by
  have hown : ∀ d : Definition, (candidatesOf shape d).filter (·.definition.supports version)
      = if d.supports version then candidatesOf shape d else [] := by
    intro d
    rw [candidatesOf, List.filter_map]
    cases hd : d.supports version <;> simp [Function.comp_def, hd]
  rw [List.filter_flatMap]
  induction ds with
  | nil => rfl
  | cons d ds ih =>
      rw [List.flatMap_cons, ih, hown, List.filter_cons]
      cases d.supports version <;> rfl

/-- A command is a candidate for the shape of its text, and for the shape without the return value when
that may be left out. Commands that are not recognised by their shape are none. -/
theorem candidatesOf_eq (shape : String) (d : Definition) :
    candidatesOf shape d =
      if d.isIdentifiable then
        (if d.conditionalShape? = some shape then [⟨d, true⟩] else [])
          ++ if d.shape = shape then [⟨d, false⟩] else []
      else [] := by
  unfold candidatesOf Definition.forms
  split
  · cases hconditional : d.conditionalShape? with
    | none => by_cases hshape : d.shape = shape <;> simp [hshape]
    | some other =>
        by_cases hother : other = shape <;> by_cases hshape : d.shape = shape <;>
          simp [hother, hshape]
  · rfl

/-- The candidates for a shape, in the order of insertion. -/
theorem identify_eq_filter (c : Catalog) (shape : String) (version : GameVersion) :
    c.identify shape version =
      (c.definitions.filter fun d => d.isIdentifiable && d.supports version).flatMap fun d =>
        (if d.conditionalShape? = some shape then [⟨d, true⟩] else [])
          ++ if d.shape = shape then [⟨d, false⟩] else [] := by
  rw [identify_eq_flatMap]
  induction c.definitions with
  | nil => rfl
  | cons d ds ih =>
      rw [List.filter_cons, List.filter_cons]
      cases hsupports : d.supports version with
      | false => simpa using ih
      | true =>
          rw [if_pos rfl, List.flatMap_cons, ih, candidatesOf_eq, Bool.and_true]
          cases d.isIdentifiable <;> rfl

/-- Look-up gives every candidate. -/
theorem Distinct.find?_of_mem_identify {c : Catalog} (h : c.Distinct) {shape : String}
    {version : GameVersion} {found : Candidate} (hfound : found ∈ c.identify shape version) :
    c.find? found.definition.id version = some found.definition := by
  obtain ⟨hmem, hsupports, -⟩ := form_of_mem_identify hfound
  exact h.find?_of_mem hmem hsupports

end Catalog

/-! ### The two tables

The table of numbers is changed before that of shapes, and its list is put back even for a command
that does not fit. -/

/-- The tables of a library. -/
structure Index where
  byId : Std.HashMap Nat (List Definition) := ∅
  byShape : Std.HashMap String (List Candidate) := ∅

namespace Index

open Catalog (Change candidatesOf)

/-- The command of a number in a version. -/
def find? (x : Index) (id : Nat) (version : GameVersion) : Option Definition :=
  x.byId[id]?.bind fun ds => ds.find? (·.supports version)

/-- The commands that a line of the given shape may stand for. -/
def identify (x : Index) (shape : String) (version : GameVersion) : List Candidate :=
  (x.byShape[shape]?.map fun found => found.filter (·.definition.supports version)).getD []

/-- The number of commands. -/
def size (x : Index) : Nat := tableSize x.byId

/-- Adds a command. The list of its number is put into the table before the command is known to fit. -/
def insert (x : Index) (d : Definition) : Index × Option Failure :=
  match d.arrange with
  | .error fault => (x, some (.invalidDefinition d.id fault))
  | .ok d =>
    let existing := x.byId.getD d.id []
    let touched := { x with byId := x.byId.insert d.id existing }
    if existing.any (·.overlaps d) then
      (touched, some (.invalidDefinition d.id .alreadyDefined))
    else
      ({ byId := tablePush touched.byId d.id d
         byShape := d.forms.foldl (fun m form => tablePush m form.shape ⟨d, form.omitsReturn⟩)
           touched.byShape }, none)

/-- Adds commands one by one and stops at the first that does not fit. -/
def extend (x : Index) : List Definition → Index × Option Failure
  | [] => (x, none)
  | d :: ds =>
    match x.insert d with
    | (x, some failure) => (x, some failure)
    | (x, none) => x.extend ds

/-- Adds the commands of a catalog in JSON. -/
def extendFromJson (x : Index) (json : String) : Index × Option Failure :=
  match Document.decodeText Definition.listOfJson json with
  | .error fault => (x, some (.json fault))
  | .ok ds => x.extend ds

/-- Makes a change. -/
def change (x : Index) : Change → Index × Option Failure
  | .insert d => x.insert d
  | .document json => x.extendFromJson json

/-- The index that changes make of the empty one. -/
def ofChanges (changes : List Change) : Index :=
  changes.foldl (fun x change => (x.change change).1) {}

/-- The tables answer as the catalog does. -/
structure Answers (x : Index) (c : Catalog) : Prop where
  find?_eq : ∀ id version, x.find? id version = c.find? id version
  identify_eq : ∀ shape version, x.identify shape version = c.identify shape version
  size_eq : x.size = c.size

/-! ### The tables hold what the list does

Putting back a list changes no answer, and otherwise both tables grow by what the new command adds
to the list. -/

/-- The tables hold the commands of the catalog, each list in the order of insertion. -/
structure Mirrors (x : Index) (c : Catalog) : Prop where
  byId_eq : ∀ id, x.byId.getD id [] = c.definitions.filter (·.id == id)
  byShape_eq : ∀ shape, x.byShape.getD shape [] = c.definitions.flatMap (candidatesOf shape)
  size_eq : x.size = c.size

theorem mirrors_empty : Mirrors {} Catalog.empty where
  byId_eq _ := Std.HashMap.getD_empty
  byShape_eq _ := Std.HashMap.getD_empty
  size_eq := by
    rw [size, tableSize, Std.HashMap.toList_empty]
    rfl

theorem getD_foldl_tablePush (d : Definition) (forms : List Form)
    (m : Std.HashMap String (List Candidate)) (shape : String) :
    (forms.foldl (fun m form => tablePush m form.shape ⟨d, form.omitsReturn⟩) m).getD shape []
      = m.getD shape []
        ++ (forms.filter (·.shape == shape)).map fun form => ⟨d, form.omitsReturn⟩ := by
  induction forms generalizing m with
  | nil => simp
  | cons form forms ih =>
      rw [List.foldl_cons, ih, getD_tablePush, List.append_assoc, List.filter_cons]
      cases form.shape == shape <;> simp

namespace Mirrors

variable {x : Index} {c : Catalog}

/-- The list under a number overlaps with a command when one of its number in the catalog does. -/
theorem any_overlaps (h : x.Mirrors c) (e : Definition) :
    (x.byId.getD e.id []).any (·.overlaps e)
      = c.definitions.any fun d => d.id == e.id && d.overlaps e := by
  rw [h.byId_eq, List.any_filter]

/-- Touching the list of a number changes nothing. -/
theorem touch (h : x.Mirrors c) (id : Nat) :
    Mirrors { x with byId := x.byId.insert id (x.byId.getD id []) } c where
  byId_eq other := by rw [getD_insert_getD, h.byId_eq]
  byShape_eq := h.byShape_eq
  size_eq := by
    have hsize := tableSize_insert x.byId id (x.byId.getD id [])
    exact (Nat.add_right_cancel hsize).trans h.size_eq

theorem push (h : x.Mirrors c) (e : Definition) :
    Mirrors
      { byId := tablePush x.byId e.id e
        byShape := e.forms.foldl (fun m form => tablePush m form.shape ⟨e, form.omitsReturn⟩)
          x.byShape }
      { entries := c.entries ++ [{ definition := e }] } where
  byId_eq id := by
    rw [getD_tablePush, h.byId_eq, Catalog.definitions, Catalog.definitions, List.map_append,
      List.filter_append, List.map_singleton, List.filter_singleton]
    cases e.id == id <;> rfl
  byShape_eq shape := by
    rw [getD_foldl_tablePush, h.byShape_eq, Catalog.definitions, Catalog.definitions,
      List.map_append, List.flatMap_append]
    simp [candidatesOf]
  size_eq := by
    have hold := h.size_eq
    unfold size Catalog.size at hold ⊢
    rw [tableSize_tablePush, List.length_append, hold]
    rfl

/-- Adding a command fails for both or for neither, and the tables still hold what the list does. -/
theorem insert (h : x.Mirrors c) (d : Definition) :
    (x.insert d).2 = (c.change (.insert d)).2 ∧
      (x.insert d).1.Mirrors (c.change (.insert d)).1 := by
  rw [Index.insert, Catalog.change, Catalog.insert]
  cases d.arrange with
  | error fault => exact ⟨rfl, h⟩
  | ok e =>
      dsimp only
      rw [h.any_overlaps]
      split
      · exact ⟨rfl, h.touch e.id⟩
      · exact ⟨rfl, (h.touch e.id).push e⟩

theorem extend (h : x.Mirrors c) (ds : List Definition) :
    (x.extend ds).2 = (c.extend ds).2 ∧ (x.extend ds).1.Mirrors (c.extend ds).1 := by
  induction ds generalizing x c with
  | nil => exact ⟨rfl, h⟩
  | cons d ds ih =>
      have hstep := h.insert d
      rw [Index.extend, Catalog.extend]
      generalize x.insert d = r at hstep ⊢
      obtain ⟨y, failure⟩ := r
      cases hd : c.insert d with
      | error fault =>
          rw [Catalog.change_of_insert_error hd] at hstep
          obtain ⟨rfl, hmirrors⟩ := hstep
          exact ⟨rfl, hmirrors⟩
      | ok c' =>
          rw [Catalog.change_of_insert hd] at hstep
          obtain ⟨rfl, hmirrors⟩ := hstep
          exact ih hmirrors

/-- A change fails for both or for neither, and the tables still hold what the list does. -/
theorem change (h : x.Mirrors c) (change : Change) :
    (x.change change).2 = (c.change change).2 ∧
      (x.change change).1.Mirrors (c.change change).1 := by
  cases change with
  | insert d => exact h.insert d
  | document json =>
      rw [Index.change, Catalog.change, Index.extendFromJson, Catalog.extendFromJson]
      cases Document.decodeText Definition.listOfJson json with
      | error fault => exact ⟨rfl, h⟩
      | ok ds => exact h.extend ds

/-! ### Answers -/

theorem find?_eq (h : x.Mirrors c) (id : Nat) (version : GameVersion) :
    x.find? id version = c.find? id version := by
  have hlist := h.byId_eq id
  rw [Std.HashMap.getD_eq_getD_getElem?] at hlist
  have hfind : x.find? id version = (x.byId[id]?.getD []).find? (·.supports version) := by
    rw [find?]
    cases x.byId[id]? <;> rfl
  rw [hfind, hlist, List.find?_filter, Catalog.find?]
  simp only [Bool.decide_and, Bool.decide_eq_true]

theorem identify_eq (h : x.Mirrors c) (shape : String) (version : GameVersion) :
    x.identify shape version = c.identify shape version := by
  have hlist := h.byShape_eq shape
  rw [Std.HashMap.getD_eq_getD_getElem?] at hlist
  have hfilter : x.identify shape version
      = (x.byShape[shape]?.getD []).filter (·.definition.supports version) := by
    rw [identify]
    cases x.byShape[shape]? <;> rfl
  rw [hfilter, hlist, Catalog.identify_eq_flatMap, Catalog.filter_flatMap_candidatesOf]

theorem answers (h : x.Mirrors c) : x.Answers c := ⟨h.find?_eq, h.identify_eq, h.size_eq⟩

end Mirrors

/-- Whatever changes are made, the tables hold what the list does. -/
theorem mirrors_ofChanges (changes : List Change) :
    (ofChanges changes).Mirrors (Catalog.ofChanges changes) := by
  have hfold : ∀ {x : Index} {c : Catalog}, x.Mirrors c →
      (changes.foldl (fun x change => (x.change change).1) x).Mirrors
        (changes.foldl (fun c change => (c.change change).1) c) := by
    induction changes with
    | nil => exact fun h => h
    | cons change changes ih => exact fun h => ih (h.change change).2
  exact hfold mirrors_empty

end Index

/-! ### A library after any changes -/

namespace Catalog

/-- What holds of a catalog, and of the tables that are kept for it, after any changes, whether or not
they failed. -/
theorem consistent_ofChanges (changes : List Change) :
    let c := ofChanges changes
    let x := Index.ofChanges changes
    -- the tables answer as the list does, and go on to do so, whether or not a change fails
    x.Answers c ∧
    (∀ change, (x.change change).2 = (c.change change).2 ∧
      (x.change change).1.Answers (c.change change).1) ∧
    -- at most one command of a number is there in a version, and look-up gives it if there is one
    (∀ id version, (c.definitions.filter fun d => d.id == id && d.supports version)
      = (c.find? id version).toList) ∧
    -- the candidates are the commands with the shape, and look-up gives each of them
    (∀ shape version, c.identify shape version =
      (c.definitions.filter fun d => d.isIdentifiable && d.supports version).flatMap fun d =>
        (if d.conditionalShape? = some shape then [⟨d, true⟩] else [])
          ++ if d.shape = shape then [⟨d, false⟩] else []) ∧
    (∀ shape version, ∀ found ∈ c.identify shape version,
      c.find? found.definition.id version = some found.definition) ∧
    -- an insertion adds one command at the end, or fails and changes no answer
    (∀ d c', c.insert d = .ok c' →
      ∃ e, d.arrange = .ok e ∧ c'.definitions = c.definitions ++ [e]) ∧
    (∀ d failure, (x.insert d).2 = some failure →
      c.insert d = .error failure ∧ (x.insert d).1.Answers c) ∧
    -- a document that fails at a command leaves what the commands before it make one by one, and a
    -- document that cannot be read leaves everything as it is
    ∀ json failure, (c.extendFromJson json).2 = some failure →
      (∃ fault, Document.decodeText Definition.listOfJson json = .error fault ∧
        failure = .json fault ∧ (c.extendFromJson json).1 = c) ∨
      ∃ before d after,
        Document.decodeText Definition.listOfJson json = .ok (before ++ d :: after) ∧
        before.foldlM Catalog.insert c = .ok (c.extendFromJson json).1 ∧
        (c.extendFromJson json).1.insert d = .error failure := by
  intro c x
  have hdistinct : c.Distinct := distinct_ofChanges changes
  have hmirrors : x.Mirrors c := Index.mirrors_ofChanges changes
  refine ⟨hmirrors.answers, fun change => ?_, hdistinct.filter_eq, c.identify_eq_filter,
    fun shape version found => hdistinct.find?_of_mem_identify, fun d c' => definitions_of_insert,
    fun d failure hfails => ?_, fun json failure => of_extendFromJson_eq_some⟩
  · obtain ⟨hfailure, hnext⟩ := hmirrors.change change
    exact ⟨hfailure, hnext.answers⟩
  · obtain ⟨hfailure, hnext⟩ := hmirrors.insert d
    rw [hfails] at hfailure
    cases hd : c.insert d with
    | error fault =>
        rw [change_of_insert_error hd] at hfailure hnext
        cases hfailure
        exact ⟨rfl, hnext.answers⟩
    | ok c' =>
        rw [change_of_insert hd] at hfailure
        cases hfailure

/-- A command with the number of another one, alone and in the middle of a document. -/
theorem consistent_ofChanges_clash :
    ∃ c x d json, c = ofChanges [.insert { id := 3, text := "go", versions := [.threat] }] ∧
      x = Index.ofChanges [.insert { id := 3, text := "go", versions := [.threat] }] ∧
      d = { id := 3, text := "run" } ∧
      json = "\x7b\"commands\": [\x7b\"id\": 7, \"text\": \"dock\"\x7d, "
        ++ "\x7b\"id\": 3, \"text\": \"run\"\x7d, \x7b\"id\": 8, \"text\": \"fly\"\x7d]\x7d" ∧
      (∃ found ∈ c.identify "go" .threat,
        c.find? found.definition.id .threat = some found.definition) ∧
      (x.insert d).2 = some (.invalidDefinition 3 .alreadyDefined) ∧ (x.insert d).1.Answers c ∧
      (c.extendFromJson json).2 = some (.invalidDefinition 3 .alreadyDefined) ∧
      (c.extendFromJson json).1.definitions.map (·.text) = ["go", "dock"] ∧
      ∃ before e after,
        Document.decodeText Definition.listOfJson json = .ok (before ++ e :: after) ∧
        before.foldlM Catalog.insert c = .ok (c.extendFromJson json).1 ∧
        (c.extendFromJson json).1.insert e = .error (.invalidDefinition 3 .alreadyDefined) := by
  obtain ⟨-, hchange, -, -, hfound, -, hinsert, hdocument⟩ :=
    consistent_ofChanges [.insert { id := 3, text := "go", versions := [.threat] }]
  obtain ⟨found, hmem⟩ := List.exists_mem_of_length_pos (show 0 < ((ofChanges
    [.insert { id := 3, text := "go", versions := [.threat] }]).identify "go" .threat).length by
      decide +kernel)
  have hclash : ((ofChanges [.insert { id := 3, text := "go", versions := [.threat] }]).change
      (.insert { id := 3, text := "run" })).2 = some (.invalidDefinition 3 .alreadyDefined) := by
    decide +kernel
  have hfails := (hchange (.insert { id := 3, text := "run" })).1.trans hclash
  have hbreaks := fun json => hdocument json (.invalidDefinition 3 .alreadyDefined)
  simp only [reduceCtorEq, false_and, and_false, exists_false, false_or] at hbreaks
  refine ⟨_, _, _, _, rfl, rfl, rfl, rfl, ⟨found, hmem, hfound _ _ found hmem⟩, hfails,
    (hinsert _ _ hfails).2, ?breaks, by decide +kernel, hbreaks _ ?breaks⟩
  decide +kernel

end Catalog

end MissionScript
