import MissionScript.Catalog

/-!
# MissionScript.Proofs.Catalog.Reachable

The catalogs that a program can build: the built-in one, and what insertions and documents make of
it.

A built-in command is there in every version, so nothing with its number can be inserted beside it.
Hence the commands that the compiler relies on are found in every such catalog and in every version,
and they are the built-in ones (`Reachable.find?_builtin`, `Reachable.mem_builtin`).
-/

namespace MissionScript

namespace Catalog

/-- The catalogs that come from the built-in one by inserting commands. A document may break off at a
command that does not fit; those before it stay. -/
inductive Reachable : Catalog → Prop
  | builtin : Reachable builtin
  | insert {c c' : Catalog} {d : Definition} (h : Reachable c) (hc : c.insert d = .ok c') :
      Reachable c'
  | extendFromJson {c : Catalog} (json : String) (h : Reachable c) :
      Reachable (c.extendFromJson json).1

/-! ### One insertion -/

/-- What has been inserted shares no version with an earlier command of its number. -/
theorem not_overlaps_of_insert {c c' : Catalog} {d : Definition} (h : c.insert d = .ok c') :
    ∃ new, c'.definitions = c.definitions ++ [new] ∧
      ∀ e ∈ c.definitions, e.id = new.id → e.overlaps new = false := by
  obtain ⟨new, harrange, heq⟩ := definitions_of_insert h
  refine ⟨new, heq, ?_⟩
  intro e he hid
  unfold Catalog.insert at h
  rw [harrange] at h
  dsimp only at h
  split at h
  · cases h
  · next hnone =>
    have hall : ∀ x ∈ c.definitions, x.id = new.id → x.overlaps new = false := by
      simpa using hnone
    exact hall e he hid

/-- What every insertion keeps, inserting one by one keeps. -/
theorem of_extend {P : Catalog → Prop}
    (hinsert : ∀ {c c' : Catalog} {d : Definition}, P c → c.insert d = .ok c' → P c')
    {c : Catalog} (h : P c) (ds : List Definition) : P (c.extend ds).1 := by
  induction ds generalizing c with
  | nil => exact h
  | cons d ds ih =>
      rw [Catalog.extend]
      cases hd : c.insert d with
      | error failure => exact h
      | ok c' => exact ih (hinsert h hd)

/-- What every insertion keeps holds of all catalogs that can be built. -/
theorem Reachable.of_insert {P : Catalog → Prop} {c : Catalog} (h : c.Reachable)
    (hbuiltin : P Catalog.builtin)
    (hinsert : ∀ {c c' : Catalog} {d : Definition}, P c → c.insert d = .ok c' → P c') : P c := by
  induction h with
  | builtin => exact hbuiltin
  | insert _ hc ih => exact hinsert ih hc
  | @extendFromJson c json _ ih =>
      rw [Catalog.extendFromJson]
      cases Document.decodeText Definition.listOfJson json with
      | error fault => exact ih
      | ok ds => exact of_extend hinsert ih ds

/-! ### The built-in commands stay -/

/-- The built-in commands are there, and nothing else has one of their numbers. -/
structure KeepsBuiltin (c : Catalog) : Prop where
  isPrefix : Catalog.builtin.definitions <+: c.definitions
  mem_of_id : ∀ d ∈ c.definitions, (∃ b ∈ Catalog.builtin.definitions, b.id = d.id) →
    d ∈ Catalog.builtin.definitions

/-- The built-in commands, with their display orders. -/
theorem definitions_builtin :
    builtin.definitions = List.zipWith (fun d order => { d with order }) coreDefinitions
      [[], [0], [1, 2, 0], [0], [0], [0], [0], [0], [], [], [], [], [], [0], [0, 1, 2, 3], [0, 1]] := by
  decide +kernel

theorem versions_builtin : ∀ d ∈ builtin.definitions, d.versions = [] := by
  rw [definitions_builtin]
  decide

theorem exists_builtin {id : Nat} (h : id ∈ coreDefinitions.map (·.id)) :
    ∃ b ∈ builtin.definitions, b.id = id := by
  have hids : builtin.definitions.map (·.id) = coreDefinitions.map (·.id) := by
    rw [definitions_builtin]
    rfl
  rw [← hids] at h
  exact List.mem_map.mp h

theorem KeepsBuiltin.insert {c c' : Catalog} {d : Definition} (h : c.KeepsBuiltin)
    (hc : c.insert d = .ok c') : c'.KeepsBuiltin := by
  obtain ⟨new, heq, hnew⟩ := not_overlaps_of_insert hc
  refine ⟨heq ▸ h.isPrefix.trans (List.prefix_append _ _), ?_⟩
  intro e he hid
  rw [heq] at he
  rcases List.mem_append.mp he with hold | hadded
  · exact h.mem_of_id e hold hid
  · obtain ⟨b, hb, hbid⟩ := hid
    rw [List.mem_singleton] at hadded
    subst hadded
    -- the built-in command has no versions of its own, so it overlaps with everything
    have hoverlap := hnew b (h.isPrefix.subset hb) hbid
    rw [Definition.overlaps, versions_builtin b hb] at hoverlap
    cases hoverlap

theorem Reachable.keepsBuiltin {c : Catalog} (h : c.Reachable) : c.KeepsBuiltin :=
  h.of_insert ⟨List.prefix_rfl, fun _ hd _ => hd⟩ KeepsBuiltin.insert

/-! ### What look-up gives -/

/-- Look-up gives a command of the catalog that has the number and is there in the version. -/
theorem of_find? {c : Catalog} {id : Nat} {version : GameVersion} {d : Definition}
    (h : c.find? id version = some d) :
    d ∈ c.definitions ∧ d.id = id ∧ d.supports version = true := by
  have hfound := List.find?_some h
  simp only [Bool.and_eq_true, beq_iff_eq] at hfound
  exact ⟨List.mem_of_find?_eq_some h, hfound⟩

/-- A command with the number of a built-in one is a built-in one. -/
theorem Reachable.mem_builtin {c : Catalog} (h : c.Reachable) {d : Definition}
    (hd : d ∈ c.definitions) (hid : ∃ b ∈ Catalog.builtin.definitions, b.id = d.id) :
    d ∈ Catalog.builtin.definitions :=
  h.keepsBuiltin.mem_of_id d hd hid

/-- A built-in command is found in every version. -/
theorem Reachable.find?_builtin {c : Catalog} (h : c.Reachable) {id : Nat}
    (hid : ∃ b ∈ Catalog.builtin.definitions, b.id = id) (version : GameVersion) :
    ∃ d ∈ Catalog.builtin.definitions, d.id = id ∧ c.find? id version = some d := by
  obtain ⟨b, hb, hbid⟩ := hid
  have hfound : (c.find? id version).isSome := by
    rw [Catalog.find?, List.find?_isSome]
    refine ⟨b, h.keepsBuiltin.isPrefix.subset hb, ?_⟩
    rw [Definition.supports, versions_builtin b hb]
    simp [hbid]
  obtain ⟨d, hd⟩ := Option.isSome_iff_exists.mp hfound
  obtain ⟨hmem, hdid, -⟩ := of_find? hd
  exact ⟨d, h.mem_builtin hmem ⟨b, hb, hbid.trans hdid.symm⟩, hdid, hd⟩

/-- A candidate for a line comes from a command of the catalog, by one of its forms. -/
theorem form_of_mem_identify {c : Catalog} {shape : String} {version : GameVersion}
    {found : Candidate} (h : found ∈ c.identify shape version) :
    found.definition ∈ c.definitions ∧ found.definition.supports version = true ∧
      ⟨shape, found.omitsReturn⟩ ∈ found.definition.forms := by
  rw [identify] at h
  obtain ⟨entry, hentry, hform⟩ := List.mem_flatMap.mp h
  obtain ⟨hmem, hsupports⟩ := List.mem_filter.mp hentry
  obtain ⟨form, hfiltered, rfl⟩ := List.mem_map.mp hform
  obtain ⟨hforms, hshape⟩ := List.mem_filter.mp hfiltered
  refine ⟨List.mem_map_of_mem hmem, hsupports, ?_⟩
  rw [← eq_of_beq hshape, ← entry.forms_eq]
  exact hforms

/-- A command with a form is recognised by its shape. -/
theorem isIdentifiable_of_mem_forms {d : Definition} {form : Form} (h : form ∈ d.forms) :
    d.isIdentifiable = true := by
  rw [Definition.forms] at h
  by_cases hid : d.isIdentifiable = true
  · exact hid
  · rw [if_neg hid] at h
    cases h

end Catalog

end MissionScript
