import MissionScript.Proofs.Lowering.Resolution
import MissionScript.Proofs.Lowering.Targets

/-!
# MissionScript.Proofs.Lowering.Success

Lowering a finished tree succeeds.

`lower_steps` puts the four steps together: the tree with its return, the one with its hidden jumps,
and the one with its targets, from which the compiled script is read off (`Steps`). What the proofs
about control flow need of them is `Lowered` (`lower_spec`).
-/

namespace MissionScript

namespace Tree

/-- The steps of lowering: `t` is the tree before, `t₁` has the return `r`, `t₂` has the hidden jumps
and `t₃` the targets. -/
structure Lowered (t t₁ t₂ t₃ : Tree) (r : Nat) : Prop where
  nested : t.Nested [] none
  returned : t.Returned t₁ r
  prepared : t₁.Prepared t₂ r
  shape : t₂.SameShape t₃
  target_eq : ∀ id ∈ t₂.preorder,
    (t₃.node id).target = (t₂.transfer? id).getD (t₂.node id).target

/-- The return that is added is not in the way of the bindings. -/
theorem Returned.bound {t t₁ : Tree} {r : Nat} (h : t.Returned t₁ r)
    (hsymbols : t₁.symbols = t.symbols) (hb : t.Bound) : t₁.Bound where
  target_eq id hid := by
    by_cases hold : id < t.size
    · rw [h.node_eq id hold]
      exact hb.target_eq id hold
    · have hsize := h.size_eq
      split at hsize
      · next hle =>
        have hr := h.eq_size hle
        rw [show id = r by omega]
        exact h.target_eq hle
      · omega
  label_eq id hpos hid hjump := by
    have hold : id < t.size := by
      by_contra hnot
      have hsize := h.size_eq
      split at hsize
      · next hle =>
        have hr := h.eq_size hle
        have hflow : (t₁.statement r).flow = .finish := h.final.flow_eq
        rw [show id = r by omega] at hjump
        simp [Statement.isLabelJump, hflow] at hjump
      · omega
    rw [h.grows.statement_eq id hold] at hjump
    obtain ⟨m, hmpos, hmlt, hlabel, htarget⟩ := hb.label_eq id hpos hold hjump
    refine ⟨m, hmpos, Nat.lt_of_lt_of_le hmlt h.grows.size_le, ?_, ?_⟩
    · rw [h.grows.statement_eq m hmlt]
      exact hlabel
    · rw [hsymbols]
      exact htarget

namespace Lowered

variable {t t₁ t₂ t₃ : Tree} {r : Nat}

theorem sound (h : Lowered t t₁ t₂ t₃ r) : t₃.Sound := h.shape.sound h.prepared.sound

/-- A target is one that a node of the source transfers to, or that of a hidden jump. -/
theorem leads_of_target (h : Lowered t t₁ t₂ t₃ r) {id y : Nat} (hid : id ∈ t₂.preorder)
    (hy : (t₃.node id).target = some y) : Prepared.Leads t₂ r y := by
  obtain ⟨hpos, hlt⟩ := (mem_preorder_iff h.prepared.sound).mp hid
  rw [h.target_eq id hid] at hy
  by_cases hold : id < t₁.size
  · rcases h.prepared.transfer?_source hpos hold with hnone | ⟨z, hz, hleads⟩
    · rw [hnone, Option.getD_none, h.prepared.jumped.node_eq id hold,
        h.prepared.bound.target_eq id hold] at hy
      cases hy
    · rw [hz, Option.getD_some] at hy
      rw [← Option.some.inj hy]
      exact hleads
  · have hle := Nat.le_of_not_lt hold
    obtain ⟨-, p, hp, jump, hjump, -, htarget⟩ := h.prepared.jumped.jump_of_added id hle hlt
    rw [h.prepared.transfer?_added hle hlt, Option.getD_none, htarget] at hy
    rw [← Option.some.inj hy]
    exact h.prepared.leads_of_hiddenJump? hp hjump

theorem executable_return (h : Lowered t t₁ t₂ t₃ r) :
    (t₃.statement r).isExecutable = true := by
  rw [h.shape.statement_eq, h.prepared.statement_eq h.prepared.lt_size]
  exact h.prepared.final.executable

/-- Where the final return is still to come, a jump lands on a command. -/
theorem landing?_of_leads (h : Lowered t t₁ t₂ t₃ r) {y : Nat} (hy : Prepared.Leads t₂ r y) :
    ∃ k, t₃.StartsAt k (t₃.onward y) ∧ t₃.layout.landing? y = some k := by
  obtain ⟨hpos, hlt, hmem⟩ := hy
  rw [← h.shape.onward_eq] at hmem
  have hlt' : y < t₃.size := by rw [h.shape.size_eq]; exact hlt
  obtain ⟨k, hk⟩ := StartsAt.of_suffix (onward_isSuffix h.sound hpos hlt')
  refine ⟨k, hk, ?_⟩
  rw [onward_eq_cons] at hk hmem
  exact landing?_of_startsAt (nodup_preorder _) hk hmem h.executable_return

theorem assemble_eq (h : Lowered t t₁ t₂ t₃ r) :
    t₃.assemble = (t₃.setIndices, .ok (t₃.emit t₃.layout)) := by
  refine Tree.assemble_eq fun id hid y hy => ?_
  have hmem : id ∈ t₂.preorder := h.shape.preorder_eq ▸ (List.mem_filter.mp hid).1
  obtain ⟨k, -, hk⟩ := h.landing?_of_leads (h.leads_of_target hmem hy)
  rw [hk]
  rfl

end Lowered

/-- The steps of lowering, with the functions that take them. -/
structure Steps (lang : Language) (t t₁ t₂ t₃ : Tree) (r : Nat) : Prop
    extends Lowered t t₁ t₂ t₃ r where
  addReturn_eq : t.addReturn lang = .ok t₁
  addJumps_eq : t₁.addJumps lang = .ok t₂

/-- A finished tree whose jumps are bound goes through all steps. -/
theorem lower_steps {lang : Language} (hcat : lang.catalog.Reachable) {t : Tree}
    (h : t.Nested [] none) (hb : t.Bound) :
    ∃ t₁ t₂ t₃ r, Steps lang t t₁ t₂ t₃ r ∧ t₁.symbols = t.symbols ∧
      t.lower lang = (t₃.setIndices, .ok (t₃.emit t₃.layout)) := by
  obtain ⟨t₁, r, hreturn, hreturned, hsymbols⟩ := addReturn_spec hcat h
  obtain ⟨t₂, hjumps, hjumped⟩ := addJumps_spec hcat hreturned.nested.sound
  have hprepared : t₁.Prepared t₂ r :=
    ⟨hreturned.nested, hreturned.final, hreturned.bound hsymbols hb, hjumped⟩
  obtain ⟨t₃, htargets, hshape, htarget, -⟩ := setTargets_spec hjumped.sound
    (nodup_preorder _) (fun id hid => ((mem_preorder_iff hjumped.sound).mp hid).2)
    fun id hid =>
      have hbounds := (mem_preorder_iff hjumped.sound).mp hid
      hprepared.transfer?_ne hbounds.1 hbounds.2
  have hlowered : Lowered t t₁ t₂ t₃ r := ⟨h, hreturned, hprepared, hshape, htarget⟩
  refine ⟨t₁, t₂, t₃, r, ⟨hlowered, hreturn, hjumps⟩, hsymbols, ?_⟩
  rw [lower, hreturn]
  dsimp only
  rw [hjumps]
  dsimp only
  rw [htargets]
  exact hlowered.assemble_eq

/-- Lowering a finished tree whose jumps are bound succeeds. -/
theorem lower_spec {lang : Language} (hcat : lang.catalog.Reachable) {t : Tree}
    (h : t.Nested [] none) (hb : t.Bound) :
    ∃ t₁ t₂ t₃ r, Lowered t t₁ t₂ t₃ r ∧ t₁.symbols = t.symbols ∧
      t.lower lang = (t₃.setIndices, .ok (t₃.emit t₃.layout)) := by
  obtain ⟨t₁, t₂, t₃, r, hsteps, hsymbols, hlower⟩ := lower_steps hcat h hb
  exact ⟨t₁, t₂, t₃, r, hsteps.toLowered, hsymbols, hlower⟩

end Tree

end MissionScript
