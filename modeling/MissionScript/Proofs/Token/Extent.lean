import MissionScript.Proofs.Token.LookBack

/-!
# MissionScript.Proofs.Token.Extent

Where the tokens of a line stand.

The tokens of a line come one after the other and lie on it (`follow_tokens`). Every part of a run of
tokens does so as well, and it covers characters of the line (`Token.Follow.extent`). The tokens of a
comment are those of its text, moved to where the comment stands, so they lie on the line too
(`follow_of_body`).
-/

namespace MissionScript

/-- The characters from `start` up to `stop` are characters of a line of the given length. -/
def Within (length start stop : Nat) : Prop := start ≤ stop ∧ stop ≤ length

theorem Within.zero (length : Nat) : Within length 0 0 := ⟨Nat.le_refl 0, Nat.zero_le length⟩

/-! ### Runs of tokens -/

namespace Token

/-- The token covers at least one character, and the line has them all. -/
def OnLine (length : Nat) (t : Token) : Prop := t.start < t.stop ∧ t.stop ≤ length

theorem OnLine.within {length : Nat} {t : Token} (h : t.OnLine length) :
    Within length t.start t.stop :=
  ⟨Nat.le_of_lt h.1, h.2⟩

/-- The tokens come one after the other on a line of the given length. -/
structure Follow (length : Nat) (ts : List Token) : Prop where
  ordered : ts.Pairwise fun t u => t.stop ≤ u.start
  onLine : ∀ t ∈ ts, t.OnLine length

namespace Follow

variable {length : Nat} {ts us : List Token}

theorem sublist (h : Follow length ts) (hsub : us.Sublist ts) : Follow length us where
  ordered := h.ordered.sublist hsub
  onLine t ht := h.onLine t (hsub.subset ht)

/-- A run of tokens covers characters of the line. -/
theorem extent (h : Follow length ts) : Within length (extent ts).1 (extent ts).2 := by
  cases ts with
  | nil => exact Within.zero length
  | cons first rest =>
      obtain ⟨hfirst, hrest⟩ := List.forall_mem_cons.mp h.onLine
      rw [Token.extent, List.head?_cons, List.getLast?_cons]
      cases hlast : rest.getLast? with
      | none => exact hfirst.within
      | some last =>
          have hmem := List.mem_of_getLast? hlast
          have hbefore := (List.pairwise_cons.mp h.ordered).1 last hmem
          obtain ⟨hlt, hle⟩ := hrest last hmem
          refine ⟨?_, hle⟩
          show first.start ≤ last.stop
          have hstart := hfirst.1
          omega

theorem map_shift (h : Follow length ts) (offset : Nat) :
    Follow (length + offset) (ts.map (shift offset)) where
  ordered := by
    rw [List.pairwise_map]
    exact h.ordered.imp fun hle => Nat.add_le_add_right hle offset
  onLine u hu := by
    obtain ⟨t, ht, rfl⟩ := List.mem_map.mp hu
    obtain ⟨hlt, hle⟩ := h.onLine t ht
    exact ⟨Nat.add_lt_add_right hlt offset, Nat.add_le_add_right hle offset⟩

theorem mono (h : Follow length ts) {length' : Nat} (hle : length ≤ length') : Follow length' ts where
  ordered := h.ordered
  onLine t ht := ⟨(h.onLine t ht).1, Nat.le_trans (h.onLine t ht).2 hle⟩

end Follow

end Token

/-! ### The tokens of a line -/

namespace Tiles

variable {line : List Char} {start : Nat} {ts : List Token}

theorem onLine (h : Tiles line start ts) :
    ∀ t ∈ ts, start ≤ t.start ∧ t.OnLine line.length ∧ t.stop = t.start + t.text.length := by
  induction ts generalizing start with
  | nil => exact List.forall_mem_nil _
  | cons t ts ih =>
      obtain ⟨rfl, hlt, htext, hrest⟩ := h
      have hle := hrest.le_length
      refine List.forall_mem_cons.mpr ⟨⟨Nat.le_refl _, ⟨hlt, hle⟩, ?_⟩, fun u hu => ?_⟩
      · rw [← String.length_toList, htext, List.extract_eq_take_drop, List.length_take,
          List.length_drop]
        omega
      · obtain ⟨hstart, hon⟩ := ih hrest u hu
        exact ⟨by omega, hon⟩

theorem follow (h : Tiles line start ts) : Token.Follow line.length ts where
  onLine t ht := (h.onLine t ht).2.1
  ordered := by
    induction ts generalizing start with
    | nil => exact List.Pairwise.nil
    | cons t ts ih =>
        obtain ⟨-, -, -, hrest⟩ := h
        exact List.pairwise_cons.mpr ⟨fun u hu => (hrest.onLine u hu).1, ih hrest⟩

end Tiles

theorem tokens_sublist_lex (text : String) : (tokens text).Sublist (lex text) := by
  rw [tokens, lexFrom_eq_filter]
  exact List.filter_sublist

/-- The tokens of a line come one after the other and lie on it. -/
theorem follow_tokens (text : String) : Token.Follow text.length (tokens text) := by
  have hfollow := (tiles_lex text).follow.sublist (tokens_sublist_lex text)
  rwa [String.length_toList] at hfollow

/-- The tokens of the text of a token, moved to where it stands, lie on the line. -/
theorem follow_of_body {text : String} {body : Token} (h : body ∈ tokens text) :
    Token.Follow text.length ((tokens body.text).map (Token.shift body.start)) := by
  obtain ⟨-, hon, hstop⟩ := (tiles_lex text).onLine body ((tokens_sublist_lex text).subset h)
  refine ((follow_tokens body.text).map_shift body.start).mono ?_
  rw [Nat.add_comm, ← hstop, ← String.length_toList]
  exact hon.2

end MissionScript
