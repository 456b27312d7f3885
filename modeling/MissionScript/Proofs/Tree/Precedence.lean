import MissionScript.Proofs.Tree.Order

/-!
# MissionScript.Proofs.Tree.Precedence

One node before another in the order of a tree.

* `Precedes t x y` — `y` comes later than `x`. It is transitive, what it holds of is what stands below
  or after `x` (`precedes_iff`), and a relation holds along the order when it holds of such pairs
  (`pairwise_preorder_iff`).
* `Grows.preorder_eq`, `Grows.precedes_iff` — nodes that are added leave the order of the others
  alone.
-/

namespace MissionScript

namespace Tree

/-- The node `y` comes later than the node `x`. -/
def Precedes (t : Tree) (x y : Nat) : Prop := ∃ rest, x :: rest <:+ t.preorder ∧ y ∈ rest

/-- A relation holds along a list when it holds between each entry and those after it. -/
theorem pairwise_iff_suffix {α : Type} {R : α → α → Prop} {l : List α} :
    l.Pairwise R ↔ ∀ x rest, x :: rest <:+ l → ∀ y ∈ rest, R x y := by
  induction l with
  | nil => simp
  | cons a l ih =>
      rw [List.pairwise_cons, ih]
      constructor
      · rintro ⟨hhead, htail⟩ x rest hsuffix y hy
        rcases List.suffix_cons_iff.mp hsuffix with heq | hbelow
        · cases heq
          exact hhead y hy
        · exact htail x rest hbelow y hy
      · intro h
        exact ⟨h a l List.suffix_rfl,
          fun x rest hsuffix => h x rest (hsuffix.trans (List.suffix_cons a l))⟩

theorem pairwise_preorder_iff {t : Tree} {R : Nat → Nat → Prop} :
    t.preorder.Pairwise R ↔ ∀ x y, t.Precedes x y → R x y := by
  rw [pairwise_iff_suffix]
  constructor
  · rintro h x y ⟨rest, hsuffix, hy⟩
    exact h x rest hsuffix y hy
  · intro h x rest hsuffix y hy
    exact h x y ⟨rest, hsuffix, hy⟩

namespace Precedes

variable {t : Tree} {x y z : Nat}

theorem mem_preorder (h : t.Precedes x y) : x ∈ t.preorder ∧ y ∈ t.preorder := by
  obtain ⟨rest, hsuffix, hy⟩ := h
  exact ⟨hsuffix.subset List.mem_cons_self, hsuffix.subset (List.mem_cons_of_mem _ hy)⟩

theorem ne (h : t.Precedes x y) : x ≠ y := by
  rintro rfl
  obtain ⟨rest, hsuffix, hx⟩ := h
  exact (List.nodup_cons.mp ((nodup_preorder _).sublist hsuffix.sublist)).1 hx

theorem trans (h : t.Precedes x y) (h' : t.Precedes y z) : t.Precedes x z := by
  obtain ⟨rest, hsuffix, hy⟩ := h
  obtain ⟨rest', hsuffix', hz⟩ := h'
  obtain ⟨before, after, rfl⟩ := List.append_of_mem hy
  -- the end that begins with `y` is part of the one that begins with `x`
  have hinner : y :: after <:+ t.preorder :=
    (List.suffix_append (x :: before) (y :: after)).trans hsuffix
  rw [eq_of_suffix (nodup_preorder _) hsuffix' hinner] at hz
  exact ⟨_, hsuffix, List.mem_append_right _ (List.mem_cons_of_mem _ hz)⟩

end Precedes

/-- What comes later than a node stands below it or after it. -/
theorem precedes_iff {t : Tree} (hs : t.Sound) {x y : Nat} (hpos : 0 < x) (hlt : x < t.size) :
    t.Precedes x y ↔ y ∈ (t.children x).flatMap t.subtree ++ t.after x := by
  have honward := onward_isSuffix hs hpos hlt
  rw [onward_eq_cons] at honward
  constructor
  · rintro ⟨rest, hsuffix, hy⟩
    rw [eq_of_suffix (nodup_preorder _) honward hsuffix]
    exact hy
  · exact fun hy => ⟨_, honward, hy⟩

namespace Grows

variable {t t' : Tree}

/-- Nodes that are added leave the order of those below a node alone. -/
theorem subtree_eq (h : t.Grows t') {id : Nat} (hid : id < t.size) :
    (t'.subtree id).filter (· < t.size) = t.subtree id := by
  induction id using induction_on_children (t := t) with
  | step id ih =>
      obtain ⟨added, hchildren, hadded⟩ := h.exists_children_eq id
      have hnone : (added.flatMap t'.subtree).filter (· < t.size) = [] := by
        rw [List.filter_eq_nil_iff]
        intro x hx
        obtain ⟨c, hc, hxc⟩ := List.mem_flatMap.mp hx
        have := hadded c hc
        have := (le_of_mem_subtree hxc).1
        simp only [decide_eq_true_eq]
        omega
      rw [Tree.subtree_eq, Tree.subtree_eq t, hchildren, List.filter_cons_of_pos (by simpa using hid),
        List.flatMap_append, List.filter_append, hnone, List.append_nil, List.filter_flatMap]
      exact congrArg _ (List.flatMap_congr fun c hc => ih c hc (mem_children.mp hc).1)

/-- Nodes that are added leave the order of the others alone. -/
theorem preorder_eq (h : t.Grows t') (hs : t.Sound) :
    t'.preorder.filter (· < t.size) = t.preorder := by
  have hroot := h.subtree_eq (show root < t.size from hs.size_pos)
  rw [Tree.subtree_eq, Tree.subtree_eq t,
    List.filter_cons_of_pos (by simpa using show root < t.size from hs.size_pos)] at hroot
  exact (List.cons.inj hroot).2

theorem precedes_iff (h : t.Grows t') (hs : t.Sound) (hs' : t'.Sound) {x y : Nat}
    (hx : x < t.size) (hy : y < t.size) : t'.Precedes x y ↔ t.Precedes x y := by
  have keep : ∀ {rest}, x :: rest <:+ t'.preorder →
      x :: rest.filter (· < t.size) <:+ t.preorder := by
    intro rest hsuffix
    have hfilter := hsuffix.filter (· < t.size)
    rwa [List.filter_cons_of_pos (by simpa using hx), h.preorder_eq hs] at hfilter
  constructor
  · rintro ⟨rest, hsuffix, hmem⟩
    exact ⟨_, keep hsuffix, List.mem_filter.mpr ⟨hmem, by simpa using hy⟩⟩
  · rintro ⟨rest, hsuffix, hmem⟩
    have hold := (mem_preorder_iff hs).mp (hsuffix.subset List.mem_cons_self)
    have honward := onward_isSuffix hs' hold.1 (Nat.lt_of_lt_of_le hx h.size_le)
    rw [onward_eq_cons] at honward
    refine ⟨_, honward, ?_⟩
    rw [eq_of_suffix (nodup_preorder _) hsuffix (keep honward)] at hmem
    exact (List.mem_filter.mp hmem).1

end Grows

end Tree

end MissionScript
