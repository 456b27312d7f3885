import MissionScript.Proofs.Lowering.Additions

/-!
# MissionScript.Proofs.Lowering.Frame

What lowering leaves as it is.

Every step adds nodes, or changes where nodes jump to and stand. So the statements that are there and the
symbols stay, whether or not lowering succeeds (`keeps_lower`).
-/

namespace MissionScript

namespace Tree

/-- The nodes of the one tree are in the other, with their statements, and the symbols are the same. -/
structure Keeps (t t' : Tree) : Prop extends t.Grows t' where
  symbols_eq : t'.symbols = t.symbols

namespace Keeps

variable {t t' t'' : Tree}

theorem refl (t : Tree) : t.Keeps t := ⟨Grows.refl t, rfl⟩

theorem trans (h : t.Keeps t') (h' : t'.Keeps t'') : t.Keeps t'' :=
  ⟨h.toGrows.trans h'.toGrows, h'.symbols_eq.trans h.symbols_eq⟩

end Keeps

theorem keeps_addNode (t : Tree) (p : Nat) (n : Node) : t.Keeps (t.addNode p n) where
  size_le := by rw [size_addNode]; omega
  parent_eq id hid := by rw [node_addNode_of_lt hid]
  statement_eq id hid := by rw [statement, node_addNode_of_lt hid, statement]
  symbols_eq := rfl

theorem keeps_setTarget (t : Tree) (id target : Nat) : t.Keeps (t.setTarget id target) :=
  ⟨(SameShape.setTarget t id target).grows, rfl⟩

theorem keeps_setIndex (t : Tree) (id index : Nat) : t.Keeps (t.setIndex id index) :=
  ⟨(SameShape.setIndex t id index).grows, rfl⟩

theorem keeps_foldl {α : Type} {f : Tree → α → Tree} (h : ∀ t x, Keeps t (f t x)) (xs : List α)
    (t : Tree) : t.Keeps (xs.foldl f t) := by
  induction xs generalizing t with
  | nil => exact Keeps.refl t
  | cons x xs ih => exact (h t x).trans (ih (f t x))

theorem keeps_addReturn {lang : Language} {t t' : Tree} (h : t.addReturn lang = .ok t') :
    t.Keeps t' := by
  rcases addReturn_cases h with rfl | ⟨s, -, rfl⟩
  · exact Keeps.refl t'
  · exact keeps_addNode t root { statement := s }

theorem keeps_addJumps {lang : Language} {t t' : Tree} (h : t.addJumps lang = .ok t') :
    t.Keeps t' := by
  unfold addJumps at h
  dsimp only at h
  split at h
  · cases h
    exact Keeps.refl t
  · obtain ⟨d, -, h⟩ := Language.bind_eq_ok.mp h
    obtain ⟨slot, -, h⟩ := Language.bind_eq_ok.mp h
    rw [Language.pure_eq_ok] at h
    subst h
    exact keeps_foldl (fun t _ => keeps_addNode t _ _) _ t

theorem keeps_setTargets (t : Tree) (ids : List Nat) : t.Keeps (t.setTargets ids).1 := by
  induction ids generalizing t with
  | nil => exact Keeps.refl t
  | cons id rest ih =>
      rw [setTargets]
      split
      · exact ih t
      · exact (keeps_setTarget t id _).trans (ih _)
      · exact Keeps.refl t

theorem keeps_assemble (t : Tree) : t.Keeps t.assemble.1 := by
  rw [assemble_eq_layout]
  exact keeps_foldl (fun t _ => keeps_setIndex t _ _) _ t

/-- Lowering keeps the statements of a tree and its symbols, even where it fails. -/
theorem keeps_lower (lang : Language) (t : Tree) : t.Keeps (t.lower lang).1 := by
  unfold lower
  split
  · exact Keeps.refl t
  · next t₁ hreturn =>
    have hfirst := keeps_addReturn hreturn
    split
    · exact hfirst
    · next t₂ hjumps =>
      have hsecond := hfirst.trans (keeps_addJumps hjumps)
      have hthird := hsecond.trans (keeps_setTargets t₂ t₂.preorder)
      split
      · next heq => exact (congrArg Prod.fst heq : _ = _) ▸ hthird
      · next heq => exact ((congrArg Prod.fst heq : _ = _) ▸ hthird).trans (keeps_assemble _)

end Tree

end MissionScript
