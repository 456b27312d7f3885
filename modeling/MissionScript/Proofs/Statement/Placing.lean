import MissionScript.Proofs.Catalog.DisplayOrder
import MissionScript.Proofs.Statement.ScriptCalls
import MissionScript.Proofs.Token.Numbers

/-!
# MissionScript.Proofs.Statement.Placing

Where each value of a line ends up, when the line has one for each slot of its command.

Values can be bound unless one of them is a number that does not fit (`exists_bindParameters_iff`). They
are placed in display order, the conditional first where it takes the place of the return value, and
what is placed gets to the physical position of its slot. The main result is
`bindParameters_places_values`.

Two orders of the slots are involved. Display order is the order in which a command shows its
values, and so the order in which a line has them. Physical order is the order in which the compiled
script stores them. `Definition.order` goes from the first to the second, and as it is a permutation
no two values compete for one slot.
-/

namespace MissionScript

namespace Language

/-! ### When values can be bound

What is read from a token is a value of any kind, and only numbers have a bound. Values are bound
from the left, so the first number that does not fit is the one that is reported; here it only
matters that there is one. -/

/-- Values in declared slots are bound as long as there is a slot for each. -/
theorem exists_bindValues_iff {d : Definition} (hd : d.Arranged) (line : Nat) {display : Nat}
    {ts : List Token} (hvalues : ∀ t ∈ ts, t.isValue = true)
    (hroom : display + ts.length ≤ d.parameters.length) :
    (∃ ps, bindValues d line display ts = .ok ps) ↔
      ∀ t ∈ ts, t.kind = .number → (Number.ofText? t.text).isSome = true := by
  induction ts generalizing display with
  | nil => exact ⟨fun _ => by simp, fun _ => ⟨[], rfl⟩⟩
  | cons t ts ih =>
      obtain ⟨ht, hvalues⟩ := List.forall_mem_cons.mp hvalues
      rw [List.length_cons] at hroom
      have hdisplay : display < d.parameters.length := by omega
      obtain ⟨slot, hslot⟩ := Option.isSome_iff_exists.mp (hd.isSome_slotAtDisplay? hdisplay)
      have hrest := @ih (display + 1) hvalues (by omega)
      rw [List.forall_mem_cons, ← exists_ofToken_iff ht slot, ← hrest, bindValues, hslot]
      cases hp : Parameter.ofToken slot t with
      | error error => simp [hp]
      | ok p => cases bindValues d line (display + 1) ts <;> simp [hp]

/-- Arguments are numbered from an index on, and bound one by one. -/
theorem bindArguments_eq_ok_iff {line index : Nat} {ts : List Token} {ps : List Parameter} :
    bindArguments line index ts = .ok ps ↔ ScriptCall.Passes index ts ps := by
  unfold ScriptCall.Passes
  induction ts generalizing index ps with
  | nil =>
      rw [bindArguments, List.zipIdx_nil, List.forall₂_nil_left_iff]
      exact ⟨fun h => by cases h; rfl, fun h => by rw [h]⟩
  | cons t ts ih =>
      rw [bindArguments, List.zipIdx_cons, List.forall₂_cons_left_iff]
      cases Parameter.ofToken (Slot.argument index) t with
      | error error => simp
      | ok p =>
          simp only [bind_eq_ok, pure_eq_ok, ih]
          constructor
          · intro h
            obtain ⟨rest, hrest, hps⟩ := h
            exact ⟨p, rest, rfl, hrest, hps.symm⟩
          · intro h
            obtain ⟨q, rest, hq, hrest, hps⟩ := h
            cases hq
            exact ⟨rest, hrest, hps.symm⟩

/-- Arguments are bound whatever their number, because there is no slot that they could lack. -/
theorem exists_bindArguments_iff (line index : Nat) {ts : List Token}
    (hvalues : ∀ t ∈ ts, t.isValue = true) :
    (∃ ps, bindArguments line index ts = .ok ps) ↔
      ∀ t ∈ ts, t.kind = .number → (Number.ofText? t.text).isSome = true := by
  simp only [bindArguments_eq_ok_iff]
  exact ScriptCall.exists_passes_iff index hvalues

/-- Values can be bound when each of them can be read: what is no number, and the numbers that fit. -/
theorem exists_bindParameters_iff {found : Candidate} (hd : found.definition.Arranged)
    (condition : Conditional) (line : Nat) {shaped arguments : List Token}
    (hroom : shaped.countP Token.isValue + (if found.omitsReturn then 1 else 0)
      ≤ found.definition.parameters.length)
    (harguments : ∀ t ∈ arguments, t.isValue = true) :
    (∃ ps, bindParameters found condition line shaped arguments = .ok ps) ↔
      ∀ t ∈ shaped ++ arguments, t.kind = .number → (Number.ofText? t.text).isSome = true := by
  have hvalues : ∀ t ∈ shaped.filter Token.isValue, t.isValue = true :=
    fun t ht => (List.mem_filter.mp ht).2
  rw [List.countP_eq_length_filter, Nat.add_comm] at hroom
  have hfirst := exists_bindValues_iff hd line hvalues hroom
  have hnumbers : (∀ t ∈ shaped.filter Token.isValue, t.kind = .number →
      (Number.ofText? t.text).isSome = true) ↔
        ∀ t ∈ shaped, t.kind = .number → (Number.ofText? t.text).isSome = true := by
    refine forall_congr' fun t => ?_
    rw [List.mem_filter]
    constructor
    · intro h ht hkind
      exact h ⟨ht, by simp [Token.isValue, hkind]⟩ hkind
    · intro h ht
      exact h ht.1
  rw [List.forall_mem_append, ← hnumbers, ← hfirst]
  constructor
  · intro h
    obtain ⟨ps, hps⟩ := h
    obtain ⟨values, args, bound, hvalues, -, hargs, -⟩ := bindParameters_eq_ok_iff.mp hps
    exact ⟨⟨values, hvalues⟩, (exists_bindArguments_iff line _ harguments).mp ⟨args, hargs⟩⟩
  · intro h
    obtain ⟨⟨values, hvalues⟩, hfits⟩ := h
    obtain ⟨args, hargs⟩ := (exists_bindArguments_iff line _ harguments).mpr hfits
    exact ⟨_, bindParameters_eq_ok_iff.mpr ⟨values, args, _, hvalues, rfl, hargs, rfl⟩⟩

/-! ### Where values are placed

The parameters are put together from three lists, and a position is looked up in the one it falls
in. The first list is as long as the command has slots only if every slot has its value, which is
why that is assumed throughout this section. -/

/-- The argument at an index is in the slot of this index. -/
theorem getElem?_of_passes {index : Nat} {values : List Token} {ps : List Parameter}
    (h : ScriptCall.Passes index values ps) {j : Nat} {t : Token} (ht : values[j]? = some t) :
    ∃ p, Parameter.ofToken (Slot.argument (index + j)) t = .ok p ∧ ps[j]? = some p := by
  obtain ⟨hlength, hall⟩ := List.forall₂_iff_get.mp h
  rw [List.length_zipIdx] at hlength
  obtain ⟨hj, rfl⟩ := List.getElem?_eq_some_iff.mp ht
  have hp := hall j (by simpa using hj) (hlength ▸ hj)
  simp only [List.get_eq_getElem, List.getElem_zipIdx] at hp
  exact ⟨_, hp, List.getElem?_eq_getElem (hlength ▸ hj)⟩

/-- The parameters of a line that has a value for each slot of its command, except for a return value
that is left out. -/
structure Bound (found : Candidate) (condition : Conditional) (shaped arguments : List Token)
    (ps : List Parameter) : Prop where
  length_eq : ps.length = found.definition.parameters.length + found.definition.vargs
  physical_eq : ∀ (i : Nat) (p : Parameter), ps[i]? = some p → p.slot.physical = i
  /-- A value gets to the slot at its display position, which is one further where the return value is
  left out. -/
  value : ∀ (k : Nat) (t : Token), (shaped.filter Token.isValue)[k]? = some t →
    ∃ slot p, found.definition.slotAtDisplay? (k + if found.omitsReturn then 1 else 0) = some slot ∧
      Parameter.ofToken slot t = .ok p ∧ ps[slot.physical]? = some p
  omitted : found.omitsReturn = true →
    ∃ slot p, found.definition.slotAtDisplay? 0 = some slot ∧ ps[slot.physical]? = some p ∧
      p.slot = slot ∧ p.dataType = .integer ∧ p.value = .int condition.code
  argument : ∀ (j : Nat) (t : Token), arguments[j]? = some t →
    ∃ p, Parameter.ofToken (Slot.argument (found.definition.parameters.length + j)) t = .ok p ∧
      ps[found.definition.parameters.length + j]? = some p
  null : ∀ i, found.definition.parameters.length + arguments.length ≤ i →
    i < found.definition.parameters.length + found.definition.vargs →
      ps[i]? = some (Parameter.null (Slot.argument i))

/-- The rest of the slots for arguments is null. -/
theorem getElem?_padding {d : Definition} {count i : Nat} (hle : count ≤ i)
    (hlt : i < d.parameters.length + d.vargs) :
    (padding d count)[i - count]? = some (Parameter.null (Slot.argument i)) := by
  have hindex : i - count < d.parameters.length + d.vargs - count := by omega
  rw [padding, List.getElem?_map, List.getElem?_range' hindex, Option.map_some, Nat.one_mul,
    Nat.add_sub_cancel' hle]

section

variable {found : Candidate} {condition : Conditional} {line : Nat} {shaped arguments : List Token}
  {ps : List Parameter}

/-- The parameters have three parts: what is placed, the arguments, and nulls. With a value for each slot
the first part is as long as the command declares. -/
theorem exists_parts (hd : found.definition.Arranged)
    (hcount : shaped.countP Token.isValue + (if found.omitsReturn then 1 else 0)
      = found.definition.parameters.length)
    (hps : bindParameters found condition line shaped arguments = .ok ps) :
    ∃ values args, Places found line shaped values ∧
      (arrangePlaced found.definition (placed found condition shaped values)).length
        = found.definition.parameters.length ∧
      ScriptCall.Passes found.definition.parameters.length arguments args ∧
      args.length = arguments.length ∧
      ps = arrangePlaced found.definition (placed found condition shaped values) ++ args
        ++ padding found.definition (found.definition.parameters.length + arguments.length) := by
  obtain ⟨values, args, bound, hvalues, rfl, hargs, heq⟩ := bindParameters_eq_ok_iff.mp hps
  have hplaces : Places found line shaped values := by
    refine ⟨hvalues, fun homits => hd.isSome_slotAtDisplay? ?_⟩
    rw [homits, if_pos rfl] at hcount
    omega
  have hlength := hplaces.length_arrangePlaced condition hd hcount.ge
  have hargslength := length_of_bindArguments hargs
  rw [hlength] at hargs heq
  rw [hargslength] at heq
  exact ⟨values, args, hplaces, hlength, bindArguments_eq_ok_iff.mp hargs, hargslength, heq⟩

/-- What has been bound is in the slots where it belongs. -/
theorem bound_of_bindParameters (hd : found.definition.Arranged)
    (hcount : shaped.countP Token.isValue + (if found.omitsReturn then 1 else 0)
      = found.definition.parameters.length)
    (hvargs : arguments.length ≤ found.definition.vargs)
    (hps : bindParameters found condition line shaped arguments = .ok ps) :
    Bound found condition shaped arguments ps := by
  obtain ⟨values, args, hplaces, hlength, hpasses, hargslength, heq⟩ := exists_parts hd hcount hps
  -- the three parts of the parameters, by position
  have hslot : ∀ (j : Nat) (p : Parameter), (placed found condition shaped values)[j]? = some p →
      ps[p.slot.physical]? = some p := by
    intro j p hp
    have hget := hplaces.getElem?_arrangePlaced hd hcount.ge hp
    rw [heq, List.append_assoc, List.getElem?_append_left (List.getElem?_eq_some_iff.mp hget).1, hget]
  have hargument : ∀ (j : Nat) (t : Token), arguments[j]? = some t →
      ∃ p, Parameter.ofToken (Slot.argument (found.definition.parameters.length + j)) t = .ok p ∧
        ps[found.definition.parameters.length + j]? = some p := by
    intro j t ht
    obtain ⟨p, hp, hget⟩ := getElem?_of_passes hpasses ht
    refine ⟨p, hp, ?_⟩
    rw [heq, List.append_assoc, List.getElem?_append_right (by omega), hlength, Nat.add_sub_cancel_left,
      List.getElem?_append_left (List.getElem?_eq_some_iff.mp hget).1, hget]
  have hnull : ∀ i, found.definition.parameters.length + arguments.length ≤ i →
      i < found.definition.parameters.length + found.definition.vargs →
        ps[i]? = some (Parameter.null (Slot.argument i)) := by
    intro i hle hlt
    rw [heq, List.getElem?_append_right (by simpa [hlength, hargslength] using hle),
      List.length_append, hlength, hargslength, getElem?_padding hle hlt]
  refine ⟨length_of_bindParameters hps hvargs, ?_, ?_, ?_, hargument, hnull⟩
  · intro i p hp
    by_cases hi : i < found.definition.parameters.length
    · obtain ⟨j, q, -, -, rfl, hq⟩ := hplaces.exists_placed condition hd hcount.ge hi
      cases hp.symm.trans (hslot j q hq)
      rfl
    by_cases hj : i - found.definition.parameters.length < arguments.length
    · obtain ⟨q, hq, hget⟩ := hargument _ _ (List.getElem?_eq_getElem hj)
      rw [Nat.add_sub_cancel' (Nat.le_of_not_lt hi)] at hq hget
      cases hp.symm.trans hget
      rw [(Parameter.of_ofToken hq).1]
      rfl
    · have hlt := (List.getElem?_eq_some_iff.mp hp).1
      rw [length_of_bindParameters hps hvargs] at hlt
      cases hp.symm.trans (hnull i (by omega) (by omega))
      rfl
  · intro k t ht
    have hk := (List.getElem?_eq_some_iff.mp ht).1
    rw [← List.countP_eq_length_filter] at hk
    have hp := List.getElem?_eq_getElem (l := placed found condition shaped values)
      (i := k + if found.omitsReturn then 1 else 0) (by rw [hplaces.length_placed]; omega)
    obtain ⟨u, hu, hread⟩ := hplaces.token_of_placed hp
    cases ht.symm.trans hu
    exact ⟨_, _, hplaces.slot_of_placed hp, hread, hslot _ _ hp⟩
  · intro homits
    obtain ⟨slot, hdisplay, homitted⟩ := hplaces.omittedReturn_eq homits condition
    have hp : (placed found condition shaped values)[0]?
        = some (Parameter.conditional slot condition (Token.extent shaped)) := by
      rw [placed, homitted]
      rfl
    exact ⟨slot, _, hdisplay, hslot 0 _ hp, rfl, rfl, rfl⟩

end

/-- Binding the values of a line to the slots of its command, with a value for each of them: it fails
exactly when a number does not fit, and otherwise every value gets to its slot. -/
theorem bindParameters_places_values {d : Definition} {found : Candidate}
    (harrange : d.arrange = .ok found.definition) (condition : Conditional) (line : Nat)
    {shaped arguments : List Token}
    (hcount : shaped.countP Token.isValue + (if found.omitsReturn then 1 else 0)
      = d.parameters.length)
    (harguments : ∀ t ∈ arguments, t.isValue = true) (hvargs : arguments.length ≤ d.vargs)
    (hlexed : ∀ t ∈ shaped ++ arguments, t.Lexed) :
    ((∃ problem, bindParameters found condition line shaped arguments = .error problem) ↔
        ∃ t ∈ shaped ++ arguments, t.OutOfRange) ∧
      ∀ ps, bindParameters found condition line shaped arguments = .ok ps →
        Bound found condition shaped arguments ps := by
  have hd := Definition.arranged_of_arrange harrange
  obtain ⟨hparameters, hvargs'⟩ : found.definition.parameters = d.parameters ∧
      found.definition.vargs = d.vargs := by
    obtain ⟨order, -, heq⟩ := Definition.arrange_eq_ok harrange
    rw [heq]
    exact ⟨rfl, rfl⟩
  rw [← hparameters] at hcount
  rw [← hvargs'] at hvargs
  refine ⟨?_, fun ps hps => bound_of_bindParameters hd hcount hvargs hps⟩
  have hok := exists_bindParameters_iff hd condition line hcount.le harguments
  have herror : (∃ problem, bindParameters found condition line shaped arguments = .error problem) ↔
      ¬ ∃ ps, bindParameters found condition line shaped arguments = .ok ps := by
    cases bindParameters found condition line shaped arguments <;> simp
  rw [herror, hok, not_forall]
  refine exists_congr fun t => ?_
  rw [Classical.not_imp]
  exact and_congr_right fun ht => (hlexed t ht).outOfRange_iff.symm

/-- A command that shows its return value first and stores it last, with room for two arguments. -/
def fetch : Definition where
  id := 500
  text := "$2 = $1 -> fetch $0"
  parameters := [.number, .refObj, .returnValueIf]
  vargs := 2
  order := [2, 1, 0]

/-- A conditional in the place of the return value, and one of two arguments. -/
theorem bindParameters_places_values_fetch :
    ∃ shaped arguments ps, { fetch with order := [] }.arrange = .ok fetch ∧
      shaped = tokens "[THIS] -> fetch -5" ∧ arguments = tokens "$a" ∧
      shaped.countP Token.isValue + 1 = fetch.parameters.length ∧
      (∀ t ∈ arguments, t.isValue = true) ∧ arguments.length ≤ fetch.vargs ∧
      (∀ t ∈ shaped ++ arguments, t.Lexed) ∧ (¬ ∃ t ∈ shaped ++ arguments, t.OutOfRange) ∧
      bindParameters ⟨fetch, true⟩ .ifNot 1 shaped arguments = .ok ps ∧
      ps.map (·.value) = [.int (-5), .str "THIS", .int 3, .str "a", .int 0] ∧
      Bound ⟨fetch, true⟩ .ifNot shaped arguments ps := by
  have horder : Definition.displayOrder 3 "$2 = $1 -> fetch $0" = .ok [2, 1, 0] :=
    Definition.displayOrder_eq_ok_iff.mpr (by decide +kernel)
  have harrange : { fetch with order := [] }.arrange = .ok fetch := congrArg _ horder
  have hcount : (tokens "[THIS] -> fetch -5").countP Token.isValue + 1 = 3 := by decide +kernel
  have harguments : ∀ t ∈ tokens "$a", t.isValue = true := by decide +kernel
  have hvargs : (tokens "$a").length ≤ 2 := by decide +kernel
  have hlexed : ∀ t ∈ tokens "[THIS] -> fetch -5" ++ tokens "$a", t.Lexed := by
    intro t ht
    rcases List.mem_append.mp ht with h | h <;> exact Token.lexed_of_mem_tokens h
  have hvalues : (bindParameters ⟨fetch, true⟩ .ifNot 1 (tokens "[THIS] -> fetch -5")
      (tokens "$a")).toOption.map (·.map (·.value))
        = some [.int (-5), .str "THIS", .int 3, .str "a", .int 0] := by decide +kernel
  obtain ⟨ps, hok, hvalues⟩ := Option.map_eq_some_iff.mp hvalues
  obtain ⟨herror, hbound⟩ := @bindParameters_places_values { fetch with order := [] } ⟨fetch, true⟩
    harrange .ifNot 1 _ _ hcount harguments hvargs hlexed
  cases hps : bindParameters ⟨fetch, true⟩ .ifNot 1 (tokens "[THIS] -> fetch -5") (tokens "$a") with
  | error problem =>
      rw [hps] at hok
      cases hok
  | ok found =>
      rw [hps] at hok herror
      cases hok
      refine ⟨_, _, ps, harrange, rfl, rfl, hcount, harguments, hvargs, hlexed, ?_, hps, hvalues,
        hbound ps hps⟩
      intro hrange
      obtain ⟨problem, hproblem⟩ := herror.mpr hrange
      cases hproblem

end Language

end MissionScript
