import MissionScript.Proofs.Catalog.Arrangement
import MissionScript.Proofs.Statement.Proper

/-!
# MissionScript.Proofs.Statement.Binding

How the values of a line come into the slots of its command.

Values come in display order, after the conditional where the return value is left out
(`Language.placed`), and leave in physical order. Arguments and nulls follow
(`bindParameters_eq_ok_iff`), so that the command has as many parameters as it declares
(`length_of_bindParameters`). When there is something for each slot, it gets there
(`Places.getElem?_arrangePlaced`, `getElem?_of_bindParameters`).

The model binds values by recursion over the tokens, and collects what is bound by going through the
slots. In between stands the list of what is placed, in display order; it is given a name here, so
that the two parts can be described apart: what is in this list, and where its members go.
-/

namespace MissionScript

/-! ### Parameters from tokens

The data type of a value can be told from the kind of its token. It is used for integers, since a
conditional is stored as one. -/

/-- Only numbers are read as integers. -/
theorem Parameter.dataType_eq_integer_iff {t : Token} {type : DataType} {value : Value}
    (h : Parameter.read t = .ok (type, value)) : type = .integer ↔ t.kind = .number := by
  unfold read at h
  split at h
  all_goals first
    | (next hkind => cases h; simp [hkind])
    | (next hkind =>
        split at h
        · cases h; simp [hkind]
        · cases h)
    | cases h

namespace Language

/-! ### Values in display order

The display position of a value is its place on the line, moved by one where the line leaves out the
return value. -/

/-- Each value is bound to the slot at its display position. -/
theorem of_bindValues {d : Definition} {line display : Nat} {ts : List Token} {ps : List Parameter}
    (h : bindValues d line display ts = .ok ps) :
    ps.length = ts.length ∧ ∀ i p, ps[i]? = some p →
      d.slotAtDisplay? (display + i) = some p.slot ∧
        ∃ t, ts[i]? = some t ∧ Parameter.ofToken p.slot t = .ok p := by
  induction ts generalizing display ps with
  | nil =>
      cases h
      exact ⟨rfl, fun i p hp => by simp at hp⟩
  | cons t ts ih =>
      rw [bindValues] at h
      split at h
      · cases h
      next slot hslot =>
      split at h
      · cases h
      next p hp =>
      obtain ⟨rest, hrest, h⟩ := bind_eq_ok.mp h
      rw [pure_eq_ok] at h
      subst h
      obtain ⟨hlength, hall⟩ := ih hrest
      refine ⟨by simp [hlength], ?_⟩
      intro i q hq
      cases i with
      | zero =>
          cases hq
          rw [(Parameter.of_ofToken hp).1]
          exact ⟨hslot, t, rfl, hp⟩
      | succ i =>
          rw [List.getElem?_cons_succ] at hq
          obtain ⟨hdisplay, u, hu, hread⟩ := hall i q hq
          rw [Nat.add_assoc, Nat.add_comm 1 i] at hdisplay
          exact ⟨hdisplay, u, hu, hread⟩

/-- Arguments are bound one by one. -/
theorem length_of_bindArguments {line index : Nat} {ts : List Token} {ps : List Parameter}
    (h : bindArguments line index ts = .ok ps) : ps.length = ts.length := by
  induction ts generalizing index ps with
  | nil =>
      cases h
      rfl
  | cons t ts ih =>
      rw [bindArguments] at h
      split at h
      · cases h
      · obtain ⟨rest, hrest, h⟩ := bind_eq_ok.mp h
        rw [pure_eq_ok] at h
        subst h
        simp [ih hrest]

/-- What fills the slots, in display order. -/
def placed (found : Candidate) (condition : Conditional) (shaped : List Token)
    (values : List Parameter) : List Parameter :=
  omittedReturn found condition shaped ++ values

/-- The values have been read from the tokens, and there is a slot for the conditional where it takes
the place of the return value. -/
structure Places (found : Candidate) (line : Nat) (shaped : List Token) (values : List Parameter) :
    Prop where
  values_eq : bindValues found.definition line (if found.omitsReturn then 1 else 0)
    (shaped.filter Token.isValue) = .ok values
  isSome_first : found.omitsReturn = true → (found.definition.slotAtDisplay? 0).isSome = true

namespace Places

variable {found : Candidate} {condition : Conditional} {line : Nat} {shaped : List Token}
  {values : List Parameter}

/-- Where the return value is left out, the slot that is displayed first takes the conditional. -/
theorem omittedReturn_eq (h : Places found line shaped values) (homits : found.omitsReturn = true)
    (condition : Conditional) :
    ∃ slot, found.definition.slotAtDisplay? 0 = some slot ∧
      omittedReturn found condition shaped
        = [Parameter.conditional slot condition (Token.extent shaped)] := by
  obtain ⟨slot, hslot⟩ := Option.isSome_iff_exists.mp (h.isSome_first homits)
  exact ⟨slot, hslot, by simp [omittedReturn, homits, hslot]⟩

/-- There is a parameter for each value, and one for the conditional where it takes a slot. -/
theorem length_placed (h : Places found line shaped values) :
    (placed found condition shaped values).length
      = shaped.countP Token.isValue + if found.omitsReturn then 1 else 0 := by
  have hlength := (of_bindValues h.values_eq).1
  rw [← List.countP_eq_length_filter] at hlength
  cases homits : found.omitsReturn with
  | false => simp [placed, omittedReturn, homits, hlength]
  | true =>
      obtain ⟨slot, -, heq⟩ := h.omittedReturn_eq homits condition
      rw [placed, heq, List.length_append, hlength, Nat.add_comm]
      rfl

/-- What is placed goes to the slot at its display position. -/
theorem slot_of_placed (h : Places found line shaped values) {j : Nat} {p : Parameter}
    (hp : (placed found condition shaped values)[j]? = some p) :
    found.definition.slotAtDisplay? j = some p.slot := by
  have hvalues := (of_bindValues h.values_eq).2
  cases homits : found.omitsReturn with
  | false =>
      rw [homits, if_neg Bool.false_ne_true] at hvalues
      simp only [placed, omittedReturn, homits, if_neg Bool.false_ne_true, List.nil_append] at hp
      rw [← (hvalues j p hp).1, Nat.zero_add]
  | true =>
      rw [homits, if_pos rfl] at hvalues
      obtain ⟨slot, hslot, heq⟩ := h.omittedReturn_eq homits condition
      rw [placed, heq] at hp
      cases j with
      | zero =>
          cases hp
          exact hslot
      | succ j =>
          rw [List.singleton_append, List.getElem?_cons_succ] at hp
          rw [← (hvalues j p hp).1, Nat.add_comm]

/-- What is placed after the conditional has been read from a token. -/
theorem token_of_placed (h : Places found line shaped values) {j : Nat} {p : Parameter}
    (hp : (placed found condition shaped values)[j + if found.omitsReturn then 1 else 0]? = some p) :
    ∃ t, (shaped.filter Token.isValue)[j]? = some t ∧ Parameter.ofToken p.slot t = .ok p := by
  have hvalue : values[j]? = some p := by
    cases homits : found.omitsReturn with
    | false => simpa [placed, omittedReturn, homits] using hp
    | true =>
        obtain ⟨slot, -, heq⟩ := h.omittedReturn_eq homits condition
        rw [homits, placed, heq] at hp
        exact hp
  exact ((of_bindValues h.values_eq).2 j p hvalue).2

/-- A slot is found by its physical position. -/
theorem find?_placed (h : Places found line shaped values) (hd : found.definition.Arranged) {j : Nat}
    {p : Parameter} (hp : (placed found condition shaped values)[j]? = some p) :
    (placed found condition shaped values).find? (·.slot.physical == p.slot.physical) = some p := by
  have hsome : ((placed found condition shaped values).find?
      (·.slot.physical == p.slot.physical)).isSome = true := by
    rw [List.find?_isSome]
    exact ⟨p, List.mem_of_getElem? hp, by simp⟩
  obtain ⟨q, hq⟩ := Option.isSome_iff_exists.mp hsome
  obtain ⟨k, hk⟩ := List.getElem?_of_mem (List.mem_of_find?_eq_some hq)
  have hphysical : q.slot.physical = p.slot.physical := by simpa using List.find?_some hq
  -- no physical position is displayed twice
  have hj := (Definition.of_slotAtDisplay? (h.slot_of_placed hp)).1
  have hk' := (Definition.of_slotAtDisplay? (h.slot_of_placed hk)).1
  rw [hphysical, ← hj] at hk'
  have hlt : k < found.definition.order.length := by
    by_contra hnot
    rw [List.getElem?_eq_none (Nat.le_of_not_lt hnot), hj] at hk'
    cases hk'
  have hkj : k = j := (List.getElem?_inj hlt hd.nodup_order).mp hk'
  subst hkj
  rw [hk] at hp
  rw [hq, hp]

end Places

/-! ### Parameters in physical order

The slots are gone through in physical order, and the parameter in each is looked up. A slot that
nothing has been placed in is passed over, and then what comes after it moves up. This is where a
line with too few values ends in the wrong slots, and the reason for `hroom` in what follows: with
something for every slot, none is passed over. -/

/-- The parameters of a command, from those that are placed. -/
def arrangePlaced (d : Definition) (params : List Parameter) : List Parameter :=
  (List.range d.parameters.length).filterMap fun physical =>
    params.find? (·.slot.physical == physical)

namespace Places

variable {found : Candidate} {condition : Conditional} {line : Nat} {shaped : List Token}
  {values : List Parameter}

/-- When there is something for each slot, it is placed at the display position of the slot. -/
theorem exists_placed (h : Places found line shaped values) (condition : Conditional)
    (hd : found.definition.Arranged)
    (hroom : found.definition.parameters.length
      ≤ shaped.countP Token.isValue + if found.omitsReturn then 1 else 0) {i : Nat}
    (hi : i < found.definition.parameters.length) :
    ∃ (j : Nat) (p : Parameter), found.definition.order[j]? = some i ∧
      found.definition.slot? i = some p.slot ∧ p.slot.physical = i ∧
      (placed found condition shaped values)[j]? = some p := by
  obtain ⟨j, hj⟩ := List.getElem?_of_mem (hd.mem_order hi)
  have hlt : j < (placed found condition shaped values).length := by
    rw [h.length_placed]
    obtain ⟨hlt, -⟩ := List.getElem?_eq_some_iff.mp hj
    rw [hd.length_order] at hlt
    omega
  have hp := List.getElem?_eq_getElem hlt
  obtain ⟨horder, hslot⟩ := Definition.of_slotAtDisplay? (h.slot_of_placed hp)
  have hphysical := Option.some.inj (hj.symm.trans horder)
  exact ⟨j, _, hj, by rw [hphysical]; exact hslot, hphysical.symm, hp⟩

/-- Nothing is left out, so the position of a parameter is its physical one. -/
theorem arrangePlaced_eq (h : Places found line shaped values) (hd : found.definition.Arranged)
    (hroom : found.definition.parameters.length
      ≤ shaped.countP Token.isValue + if found.omitsReturn then 1 else 0) :
    arrangePlaced found.definition (placed found condition shaped values)
      = (List.range found.definition.parameters.length).map fun i =>
          ((placed found condition shaped values).find? (·.slot.physical == i)).getD default := by
  rw [arrangePlaced, ← List.filterMap_eq_map]
  refine List.filterMap_congr ?_
  intro i hi
  obtain ⟨j, p, -, -, rfl, hp⟩ := h.exists_placed condition hd hroom (List.mem_range.mp hi)
  simp [h.find?_placed hd hp]

/-- With something for each slot there are as many parameters as slots. -/
theorem length_arrangePlaced (h : Places found line shaped values) (condition : Conditional)
    (hd : found.definition.Arranged)
    (hroom : found.definition.parameters.length
      ≤ shaped.countP Token.isValue + if found.omitsReturn then 1 else 0) :
    (arrangePlaced found.definition (placed found condition shaped values)).length
      = found.definition.parameters.length := by
  rw [h.arrangePlaced_eq hd hroom, List.length_map, List.length_range]

/-- What is placed gets to the physical position of its slot. -/
theorem getElem?_arrangePlaced (h : Places found line shaped values) (hd : found.definition.Arranged)
    (hroom : found.definition.parameters.length
      ≤ shaped.countP Token.isValue + if found.omitsReturn then 1 else 0) {j : Nat} {p : Parameter}
    (hp : (placed found condition shaped values)[j]? = some p) :
    (arrangePlaced found.definition (placed found condition shaped values))[p.slot.physical]?
      = some p := by
  have horder := (Definition.of_slotAtDisplay? (h.slot_of_placed hp)).1
  have hlt := hd.lt_of_mem _ (List.mem_of_getElem? horder)
  rw [h.arrangePlaced_eq hd hroom, List.getElem?_map, List.getElem?_range hlt, Option.map_some,
    h.find?_placed hd hp, Option.getD_some]

end Places

/-- The nulls that fill a command up to the number of parameters that it declares. -/
def padding (d : Definition) (count : Nat) : List Parameter :=
  (List.range' count (d.parameters.length + d.vargs - count)).map fun index =>
    Parameter.null (Slot.argument index)

/-- The parameters of a command are those that are placed, the arguments, and nulls up to the number that
the command declares. -/
theorem bindParameters_eq_ok_iff {found : Candidate} {condition : Conditional} {line : Nat}
    {shaped arguments : List Token} {ps : List Parameter} :
    bindParameters found condition line shaped arguments = .ok ps ↔
      ∃ values args bound,
        bindValues found.definition line (if found.omitsReturn then 1 else 0)
          (shaped.filter Token.isValue) = .ok values ∧
        bound = arrangePlaced found.definition (placed found condition shaped values) ∧
        bindArguments line bound.length arguments = .ok args ∧
        ps = bound ++ args ++ padding found.definition (bound.length + args.length) := by
  unfold bindParameters
  constructor
  · intro h
    obtain ⟨values, hvalues, h⟩ := bind_eq_ok.mp h
    obtain ⟨args, hargs, h⟩ := bind_eq_ok.mp h
    rw [pure_eq_ok] at h
    refine ⟨values, args, _, hvalues, rfl, hargs, ?_⟩
    rw [← h, padding, ← List.length_append]
    rfl
  · intro h
    obtain ⟨values, args, bound, hvalues, hbound, hargs, hps⟩ := h
    subst hbound hps
    refine bind_eq_ok.mpr ⟨values, hvalues, bind_eq_ok.mpr ⟨args, hargs, ?_⟩⟩
    rw [pure_eq_ok, padding, ← List.length_append]
    rfl

/-- There are never more parameters than slots. -/
theorem length_arrangePlaced_le (d : Definition) (params : List Parameter) :
    (arrangePlaced d params).length ≤ d.parameters.length := by
  have hlength := List.length_filterMap_le (fun physical =>
    params.find? (·.slot.physical == physical)) (List.range d.parameters.length)
  rwa [List.length_range] at hlength

/-- A command has as many parameters as it declares. -/
theorem length_of_bindParameters {found : Candidate} {condition : Conditional} {line : Nat}
    {shaped arguments : List Token} {ps : List Parameter}
    (h : bindParameters found condition line shaped arguments = .ok ps)
    (hlength : arguments.length ≤ found.definition.vargs) :
    ps.length = found.definition.parameters.length + found.definition.vargs := by
  obtain ⟨values, args, bound, -, rfl, hargs, rfl⟩ := bindParameters_eq_ok_iff.mp h
  have hle := length_arrangePlaced_le found.definition (placed found condition shaped values)
  have hargs := length_of_bindArguments hargs
  simp only [padding, List.length_append, List.length_map, List.length_range']
  omega

/-- When there is something for each slot, it gets there. -/
theorem getElem?_of_bindParameters {found : Candidate} {condition : Conditional} {line : Nat}
    {shaped arguments : List Token} {ps : List Parameter} (hd : found.definition.Arranged)
    (h : bindParameters found condition line shaped arguments = .ok ps)
    (hroom : found.definition.parameters.length
      ≤ shaped.countP Token.isValue + if found.omitsReturn then 1 else 0)
    (hfirst : found.omitsReturn = true → (found.definition.slotAtDisplay? 0).isSome = true) :
    ∃ values, Places found line shaped values ∧
      ∀ i < found.definition.parameters.length, ∃ (j : Nat) (p : Parameter),
        found.definition.order[j]? = some i ∧ found.definition.slot? i = some p.slot ∧
          (placed found condition shaped values)[j]? = some p ∧ ps[i]? = some p := by
  obtain ⟨values, args, bound, hvalues, rfl, -, rfl⟩ := bindParameters_eq_ok_iff.mp h
  have hplaces : Places found line shaped values := ⟨hvalues, hfirst⟩
  refine ⟨values, hplaces, ?_⟩
  intro i hi
  obtain ⟨j, p, horder, hslot, rfl, hplaced⟩ := hplaces.exists_placed condition hd hroom hi
  refine ⟨j, p, horder, hslot, hplaced, ?_⟩
  have hget := hplaces.getElem?_arrangePlaced hd hroom hplaced
  rw [List.append_assoc, List.getElem?_append_left (List.getElem?_eq_some_iff.mp hget).1, hget]

end Language

end MissionScript
