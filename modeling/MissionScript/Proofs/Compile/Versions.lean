import MissionScript.Proofs.Compile.Lookup

/-!
# MissionScript.Proofs.Compile.Versions

A version does not see the commands of the others.

Commands are inserted into one catalog whatever their versions are, and those that do not fit are skipped
(`insertEach`). Those that did fit and that a version has can be inserted without the others
(`extend_supported`). The catalog they make answers the version as the full one does, so every script is
compiled alike (`compile_supported`).
-/

namespace MissionScript

namespace Catalog

/-! ### Inserting many commands -/

/-- Inserts commands one by one and skips those that do not fit. -/
def insertEach (c : Catalog) : List Definition → Catalog
  | [] => c
  | d :: ds =>
    match c.insert d with
    | .error _ => c.insertEach ds
    | .ok c => c.insertEach ds

/-- The commands that fit, when they are inserted one by one and the others are skipped. -/
def fitting (c : Catalog) : List Definition → List Definition
  | [] => []
  | d :: ds =>
    match c.insert d with
    | .error _ => c.fitting ds
    | .ok c => d :: c.fitting ds

/-- An insertion adds the arranged command, which overlaps with none of its number. -/
theorem of_insert {c c' : Catalog} {d : Definition} (h : c.insert d = .ok c') :
    ∃ e, d.arrange = .ok e ∧ (∀ x ∈ c.definitions, x.id = e.id → x.overlaps e = false) ∧
      c'.entries = c.entries ++ [{ definition := e }] := by
  unfold insert at h
  split at h
  · cases h
  · next e harrange =>
    split at h
    · cases h
    · next hnone =>
      cases h
      exact ⟨e, harrange, by simpa using hnone, rfl⟩

/-- A command fits when it can be arranged and overlaps with none of its number. -/
theorem insert_of_arrange {c : Catalog} {d e : Definition} (harrange : d.arrange = .ok e)
    (hnone : ∀ x ∈ c.definitions, x.id = e.id → x.overlaps e = false) :
    c.insert d = .ok { entries := c.entries ++ [{ definition := e }] } := by
  have hany : ¬ (c.definitions.any fun x => x.id == e.id && x.overlaps e) = true := by
    simpa using hnone
  rw [insert, harrange]
  dsimp only
  rw [if_neg hany]

/-! ### The commands of one version -/

/-- The commands of a catalog that a version has. -/
def supported (c : Catalog) (version : GameVersion) : Catalog :=
  { entries := c.entries.filter (·.definition.supports version) }

section

variable {version : GameVersion} {c c' : Catalog} {d : Definition}

theorem definitions_supported (version : GameVersion) (c : Catalog) :
    (c.supported version).definitions = c.definitions.filter (·.supports version) := by
  rw [definitions, definitions, List.filter_map]
  rfl

theorem supports_of_arrange {e : Definition} (h : d.arrange = .ok e) :
    e.supports version = d.supports version := by
  obtain ⟨order, -, rfl⟩ := Definition.arrange_eq_ok h
  rfl

/-- A command that the version has fits among its commands as it does among all. -/
theorem insert_supported (h : c.insert d = .ok c') (hd : d.supports version = true) :
    (c.supported version).insert d = .ok (c'.supported version) := by
  obtain ⟨e, harrange, hnone, hentries⟩ := of_insert h
  have hnone' : ∀ x ∈ (c.supported version).definitions, x.id = e.id → x.overlaps e = false := by
    intro x hx
    rw [definitions_supported] at hx
    exact hnone x (List.mem_filter.mp hx).1
  rw [insert_of_arrange harrange hnone', supported, supported, hentries, List.filter_append,
    List.filter_singleton, supports_of_arrange harrange, hd]
  rfl

/-- A command that the version does not have changes nothing for it. -/
theorem supported_of_insert (h : c.insert d = .ok c') (hd : d.supports version = false) :
    c'.supported version = c.supported version := by
  obtain ⟨e, harrange, -, hentries⟩ := of_insert h
  rw [supported, hentries, List.filter_append, List.filter_singleton, supports_of_arrange harrange,
    hd, supported]
  simp

/-- Of the commands that fit, those of a version can be inserted alone, and make up what the version has
of the full catalog. -/
theorem extend_supported (version : GameVersion) (c : Catalog) (ds : List Definition) :
    (c.supported version).extend ((c.fitting ds).filter (·.supports version))
      = ((c.insertEach ds).supported version, none) := by
  induction ds generalizing c with
  | nil => rfl
  | cons d ds ih =>
      unfold insertEach fitting
      cases hinsert : c.insert d with
      | error failure => exact ih c
      | ok c' =>
          dsimp only
          cases hd : d.supports version with
          | true =>
              simp only [List.filter_cons, hd, if_true]
              rw [extend, insert_supported hinsert hd]
              exact ih c'
          | false =>
              simp only [List.filter_cons, hd, Bool.false_eq_true, if_false]
              rw [← supported_of_insert hinsert hd]
              exact ih c'

end

end Catalog

namespace Language

/-- A version asks for its own commands only. -/
theorem sameAnswers_supported (c : Catalog) (version : GameVersion) :
    SameAnswers ⟨c, version⟩ ⟨c.supported version, version⟩ where
  version_eq := rfl
  find?_eq id := by
    show (c.supported version).find? id version = c.find? id version
    rw [Catalog.find?, Catalog.find?, Catalog.definitions_supported, List.find?_filter]
    congr 1
    funext d
    cases d.supports version <;> cases d.id == id <;> rfl
  withShape_eq shape := by
    show (c.supported version).identify shape version = c.identify shape version
    rw [Catalog.identify, Catalog.identify, Catalog.supported, List.filter_filter]
    simp only [Bool.and_self]

/-- Whatever is inserted into a catalog, a version compiles every script as it does with its own commands
alone. -/
theorem compile_supported (ds : List Definition) (version : GameVersion) (lines : List String) :
    ∃ own, Catalog.empty.extend ((Catalog.empty.fitting ds).filter (·.supports version))
        = (own, none) ∧
      (⟨Catalog.empty.insertEach ds, version⟩ : Language).compile lines
        = (⟨own, version⟩ : Language).compile lines :=
  ⟨_, Catalog.extend_supported version .empty ds,
    ((sameAnswers_supported (Catalog.empty.insertEach ds) version).compile_eq lines).symm⟩

end Language

end MissionScript
