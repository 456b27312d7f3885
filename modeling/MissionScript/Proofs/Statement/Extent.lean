import MissionScript.Proofs.Expression.Extent
import MissionScript.Proofs.Statement.Conditions
import MissionScript.Proofs.Statement.Recognition

/-!
# MissionScript.Proofs.Statement.Extent

Where the statement of a line stands, and the problem with the line.

Every reader of a line ensures that its problem and the parameters that it reads cover characters of the
line (`ensures_readCommand`). The statement as a whole covers the characters between the blanks around it.
So whatever is read from a line stands on it (`onLine_readLine`), commented commands included.

All lemmas about readers have the form `Ensures P Q x`: if `x` goes wrong, it does with a problem
that satisfies `P`, and what it gives otherwise satisfies `Q`. For a reader of tokens that stand on
the line, both say that something stands on the line.

Three parts of a statement come from no single token, and need an argument of their own: the extent
of a run of tokens, from the first one to the last (it uses that tokens `Follow` each other), the
null of an empty slot, which covers nothing, and the minus sign that is split off a number.
-/

namespace MissionScript

/-! ### What stands on a line -/

/-- The problem is about characters of a line of the given length. -/
def Diagnostic.OnLine (length : Nat) (d : Diagnostic) : Prop := Within length d.start d.stop

/-- The statement and its parameters cover characters of a line of the given length. -/
structure Statement.OnLine (length : Nat) (s : Statement) : Prop where
  within : Within length s.start s.stop
  parameters : ∀ p ∈ s.parameters, p.OnLine length
  evaluated : ∀ p ∈ s.evaluated, p.OnLine length

theorem Parameter.onLine_null (length : Nat) (slot : Slot) : (Parameter.null slot).OnLine length :=
  Within.zero length

namespace Statement

/-- There are not more blanks in front of a line than it has characters. -/
theorem leadingBlanks_le (text : String) : leadingBlanks text ≤ text.length := by
  rw [← String.length_toList]
  exact (List.takeWhile_prefix _).length_le

theorem trimmedLength_le (text : String) : trimmedLength text ≤ text.length := by
  have hle := (List.dropWhile_suffix Text.isBlank (l := text.toList.reverse)).length_le
  rw [List.length_reverse, String.length_toList] at hle
  rwa [trimmedLength, Text.trimEnd, List.length_reverse]

theorem onLine_ofLine {text : String} {parameters : List Parameter}
    (h : ∀ p ∈ parameters, p.OnLine text.length) (command : Option Definition)
    (condition : Conditional) (line : Nat) :
    (ofLine command condition parameters line text).OnLine text.length where
  within := ⟨Nat.le_max_right _ _, Nat.max_le.mpr ⟨trimmedLength_le text, leadingBlanks_le text⟩⟩
  parameters := h
  evaluated := List.forall_mem_nil _

end Statement

namespace Language

open Token (Follow)

section

variable {length : Nat} {ts : List Token}

/-! ### Values in slots

A value covers what its token covers. A conditional covers the words in front of the command, which
are tokens in a row. -/

theorem ensures_bindToken {t : Token} (h : t.OnLine length) (slot : Slot) (line : Nat) :
    Ensures (Diagnostic.OnLine length) (Parameter.OnLine length) (bindToken slot line t) :=
  (Parameter.ensures_ofToken h.within slot).mapError fun _ _ => h.within

theorem ensures_bindValues (h : ∀ t ∈ ts, t.OnLine length) (d : Definition) (line display : Nat) :
    Ensures (Diagnostic.OnLine length) (fun ps => ∀ p ∈ ps, p.OnLine length)
      (bindValues d line display ts) := by
  induction ts generalizing display with
  | nil => exact .ok (List.forall_mem_nil _)
  | cons t ts ih =>
      obtain ⟨ht, hts⟩ := List.forall_mem_cons.mp h
      unfold bindValues
      cases d.slotAtDisplay? display with
      | none => exact .error ht.within
      | some slot =>
          have hread := Parameter.ensures_ofToken ht.within slot
          dsimp only
          generalize Parameter.ofToken slot t = x at hread ⊢
          cases hread with
          | error _ => exact .error ht.within
          | ok hp => exact (ih hts _).bind fun ps hps => .ok (List.forall_mem_cons.mpr ⟨hp, hps⟩)

theorem ensures_bindArguments (h : ∀ t ∈ ts, t.OnLine length) (line index : Nat) :
    Ensures (Diagnostic.OnLine length) (fun ps => ∀ p ∈ ps, p.OnLine length)
      (bindArguments line index ts) := by
  induction ts generalizing index with
  | nil => exact .ok (List.forall_mem_nil _)
  | cons t ts ih =>
      obtain ⟨ht, hts⟩ := List.forall_mem_cons.mp h
      have hread := Parameter.ensures_ofToken ht.within (Slot.argument index)
      unfold bindArguments
      generalize Parameter.ofToken (Slot.argument index) t = x at hread ⊢
      cases hread with
      | error _ => exact .error ht.within
      | ok hp => exact (ih hts _).bind fun ps hps => .ok (List.forall_mem_cons.mpr ⟨hp, hps⟩)

theorem ensures_bindParameters (hts : Follow length ts) {arguments : List Token}
    (harguments : ∀ t ∈ arguments, t.OnLine length) (found : Candidate) (condition : Conditional)
    (line : Nat) :
    Ensures (Diagnostic.OnLine length) (fun ps => ∀ p ∈ ps, p.OnLine length)
      (bindParameters found condition line ts arguments) := by
  have homitted : ∀ p ∈ omittedReturn found condition ts, p.OnLine length := by
    intro p hp
    unfold omittedReturn at hp
    split at hp
    · obtain ⟨slot, -, rfl⟩ := List.mem_map.mp hp
      exact hts.extent
    · cases hp
  refine (ensures_bindValues (fun t ht => hts.onLine t (List.mem_filter.mp ht).1) _ _ _).bind
    fun values hvalues => (ensures_bindArguments harguments _ _).bind fun args hargs => ?_
  refine .ok (List.forall_mem_append.mpr ⟨List.forall_mem_append.mpr ⟨?_, hargs⟩, ?_⟩)
  · intro p hp
    obtain ⟨physical, -, hfound⟩ := List.mem_filterMap.mp hp
    exact List.forall_mem_append.mpr ⟨homitted, hvalues⟩ p (List.mem_of_find?_eq_some hfound)
  · intro p hp
    obtain ⟨index, -, rfl⟩ := List.mem_map.mp hp
    exact Parameter.onLine_null length _

/-! ### Script calls

A call is read piece by piece: the return value and the object in front of the two words, the name,
the colon, and the arguments. Each piece is a token of the line or missing. -/

theorem ensures_readCallReturn (h : ∀ t ∈ ts, t.OnLine length) (d : Definition) (line : Nat) :
    Ensures (Diagnostic.OnLine length)
      (fun found => (∀ p, found.1 = some p → p.OnLine length) ∧ ∀ t ∈ found.2, t.OnLine length)
      (readCallReturn d line ts) := by
  have hnone : ∀ us : List Token, (∀ t ∈ us, t.OnLine length) →
      Ensures (Diagnostic.OnLine length)
        (fun found : Option Parameter × List Token =>
          (∀ p, found.1 = some p → p.OnLine length) ∧ ∀ t ∈ found.2, t.OnLine length)
        (.ok (none, us)) := by
    intro us hus
    refine .ok ⟨?_, hus⟩
    intro p hp
    cases hp
  unfold readCallReturn
  split
  · next t equals rest =>
    refine .ite (fun _ => ?_) fun _ => hnone _ h
    refine (ensures_bindToken (h t List.mem_cons_self) _ line).bind fun p hp => .ok ⟨?_, ?_⟩
    · intro q hq
      cases hq
      exact hp
    · exact fun u hu => h u (List.mem_cons_of_mem _ (List.mem_cons_of_mem _ hu))
  · exact hnone _ h

theorem ensures_readCallObject (h : ∀ t ∈ ts, t.OnLine length) (d : Definition) (line : Nat) :
    Ensures (Diagnostic.OnLine length) (fun found => ∀ p, found = some p → p.OnLine length)
      (readCallObject d line ts) := by
  unfold readCallObject
  split
  · exact .ok (by simp)
  · next t arrow =>
    have ht := h t List.mem_cons_self
    refine .ite (fun _ => ?_) fun _ => .error ht.within
    refine (ensures_bindToken ht _ line).bind fun p hp => .ok fun q hq => ?_
    cases hq
    exact hp
  · next t rest _ => exact .error (h t List.mem_cons_self).within

theorem ensures_readCallTarget (h : ∀ t ∈ ts, t.OnLine length) (d : Definition) (line : Nat) :
    Ensures (Diagnostic.OnLine length)
      (fun found => (∀ p, found.1 = some p → p.OnLine length) ∧
        ∀ p, found.2 = some p → p.OnLine length)
      (readCallTarget d line ts) := by
  rw [readCallTarget_eq]
  refine (ensures_readCallReturn h d line).bind fun found hfound => ?_
  exact (ensures_readCallObject hfound.2 d line).bind fun object hobject =>
    .ok ⟨hfound.1, hobject⟩

theorem ensures_readCallName (h : ∀ t ∈ ts, t.OnLine length) {word : Token}
    (hword : word.OnLine length) (d : Definition) (line : Nat) :
    Ensures (Diagnostic.OnLine length)
      (fun found => found.1.OnLine length ∧ ∀ t ∈ found.2, t.OnLine length)
      (readCallName d line word ts) := by
  unfold readCallName
  split
  · next t rest =>
    obtain ⟨ht, hrest⟩ := List.forall_mem_cons.mp h
    refine .ite (fun _ => ?_) fun _ => .ite (fun _ => .ok ⟨ht.within, hrest⟩) fun _ => ?_
    · exact (ensures_bindToken ht _ line).bind fun p hp => .ok ⟨hp, hrest⟩
    · exact .error hword.within
  · exact .error hword.within

theorem ensures_readArgument {t : Token} (h : t.OnLine length) (line index : Nat) :
    Ensures (Diagnostic.OnLine length) (Parameter.OnLine length) (readArgument line index t) :=
  .ite (fun _ => ensures_bindToken h _ line) fun _ => .error h.within

theorem ensures_readArguments (h : ∀ t ∈ ts, t.OnLine length) (line index : Nat) :
    Ensures (Diagnostic.OnLine length) (fun ps => ∀ p ∈ ps, p.OnLine length)
      (readArguments line index ts) := by
  fun_induction readArguments line index ts with
  | case1 => exact .ok (List.forall_mem_nil _)
  | case2 index t =>
      exact (ensures_readArgument (h t List.mem_cons_self) line index).bind fun p hp =>
        .ok (List.forall_mem_singleton.mpr hp)
  | case3 index t equals rest hname ih =>
      exact ih fun u hu => h u (List.mem_cons_of_mem _ (List.mem_cons_of_mem _ hu))
  | case4 index t equals rest hname ih =>
      obtain ⟨ht, hrest⟩ := List.forall_mem_cons.mp h
      exact (ensures_readArgument ht line index).bind fun p hp =>
        (ih hrest).bind fun ps hps => .ok (List.forall_mem_cons.mpr ⟨hp, hps⟩)

theorem ensures_skipColon (h : ∀ t ∈ ts, t.OnLine length) (line : Nat) :
    Ensures (Diagnostic.OnLine length) (fun us => ∀ t ∈ us, t.OnLine length) (skipColon line ts) := by
  unfold skipColon
  split
  · exact .ok (List.forall_mem_nil _)
  · next t rest =>
    obtain ⟨ht, hrest⟩ := List.forall_mem_cons.mp h
    exact .ite (fun _ => .ok hrest) fun _ => .error ht.within

/-- A line is split into what stands before the two words, the second of them, and what follows. -/
theorem eq_append_of_splitCall {before after : List Token} {word : Token}
    (h : splitCall ts = some (before, word, after)) :
    ∃ call, ts = before ++ call :: word :: after ∧ call.isWord "call" = true ∧
      word.isWord "script" = true := by
  fun_induction splitCall ts generalizing before with
  | case1 a b rest hcall =>
      cases h
      exact ⟨a, rfl, Bool.and_eq_true_iff.mp hcall⟩
  | case2 a b rest hcall ih =>
      obtain ⟨⟨before', word', after'⟩, hsplit, heq⟩ := Option.map_eq_some_iff.mp h
      cases heq
      obtain ⟨call, hrest, hwords⟩ := ih hsplit
      exact ⟨call, congrArg (a :: ·) hrest, hwords⟩
  | case3 => cases h

/-! ### Commands

Which reader a command goes to does not matter here: whatever it is, the problem or the statement
stands on the line. -/

/-- A command that the catalog lacks is reported at the start of the line. -/
theorem ensures_command (lang : Language) (id line : Nat) :
    Ensures (Diagnostic.OnLine length) (fun _ => True)
      ((lang.command id).mapError fun problem => (⟨problem, line, 0, 0⟩ : Diagnostic)) := by
  cases lang.command id with
  | error problem => exact .error (Within.zero length)
  | ok d => exact .ok trivial

/-- A command that nothing is recognised in is reported from its first token to its last. -/
theorem onLine_unreadable (hts : Follow length ts) (lang : Language) (condition : Conditional)
    (first : Token) (line : Nat) (text : String) :
    (lang.unreadable condition ts first line text).OnLine length := by
  unfold unreadable
  dsimp only
  split
  · exact hts.extent
  · exact hts.extent

end

section

variable {text : String} {ts : List Token}

theorem ensures_readArrayAccess (hts : Follow text.length ts) (lang : Language)
    (condition : Conditional) (line : Nat) :
    Ensures (Diagnostic.OnLine text.length) (Statement.OnLine text.length)
      (lang.readArrayAccess condition ts line text) := by
  unfold readArrayAccess
  split
  · exact .error hts.extent
  · next found _ =>
    exact (ensures_bindParameters hts (List.forall_mem_nil _) found condition line).bind
      fun ps hps => .ok (Statement.onLine_ofLine hps _ _ _)

theorem ensures_readExpression (hts : Follow text.length ts) (lang : Language)
    (condition : Conditional) (line : Nat) :
    Ensures (Diagnostic.OnLine text.length) (Statement.OnLine text.length)
      (lang.readExpression condition ts line text) := by
  -- whatever the target is, the operands are read alike
  have hparse : ∀ (d : Definition) (target : Parameter) (operands : List Token),
      target.OnLine text.length → (∀ t ∈ operands, t.OnLine text.length) →
      Ensures (Diagnostic.OnLine text.length) (Statement.OnLine text.length)
        (do
          let expression ← (Expression.parse operands 1).mapError fun e =>
            (⟨.expression e.fault, line, e.start, e.stop⟩ : Diagnostic)
          return { Statement.ofLine (some d) condition (target :: expression.written) line text with
            evaluated := expression.evaluated }) := by
    intro d target operands htarget hoperands
    refine Ensures.bind (R := Expression.OnLine text.length) ?_ fun x hx => ?_
    · exact (Expression.ensures_parse hoperands 1).mapError fun e he => he
    have hline := Statement.onLine_ofLine
      (List.forall_mem_cons.mpr ⟨htarget, hx.written⟩) (some d) condition line
    exact .ok { hline with evaluated := hx.evaluated }
  unfold readExpression
  refine (ensures_command lang _ line).bind fun d _ => ?_
  dsimp only
  split
  · exact hparse d _ ts hts.extent hts.onLine
  · rcases ts with _ | ⟨t, _ | ⟨equals, operands⟩⟩
    · exact .error hts.extent
    · exact .error hts.extent
    · obtain ⟨ht, hrest⟩ := List.forall_mem_cons.mp hts.onLine
      dsimp only
      have hread := Parameter.ensures_ofToken ht.within ((d.slot? 0).getD ⟨.returnValueIf, 0, 0⟩)
      generalize Parameter.ofToken ((d.slot? 0).getD ⟨.returnValueIf, 0, 0⟩) t = x at hread ⊢
      cases hread with
      | error _ => exact .error ht.within
      | ok htarget => exact hparse d _ operands htarget (List.forall_mem_cons.mp hrest).2

theorem ensures_readScriptCall (hts : Follow text.length ts) {before after : List Token}
    {word : Token} (hsplit : splitCall ts = some (before, word, after)) (lang : Language)
    (condition : Conditional) (line : Nat) :
    Ensures (Diagnostic.OnLine text.length) (Statement.OnLine text.length)
      (lang.readScriptCall condition ts before word after line text) := by
  obtain ⟨call, hcall, -⟩ := eq_append_of_splitCall hsplit
  have honLine := hts.onLine
  rw [hcall] at honLine
  obtain ⟨hbefore, hrest⟩ := List.forall_mem_append.mp honLine
  obtain ⟨-, hword, hafter⟩ := by simpa only [List.forall_mem_cons] using hrest
  have habsent : ∀ slot : Slot,
      (if condition = .unconditional then Parameter.null slot
        else Parameter.conditional slot condition (Token.extent ts)).OnLine text.length := by
    intro slot
    split
    · exact Parameter.onLine_null _ _
    · exact hts.extent
  -- what is not written is filled in
  have hfilled : ∀ {found : Option Parameter} {p : Parameter},
      (∀ q, found = some q → q.OnLine text.length) → p.OnLine text.length →
        (found.getD p).OnLine text.length := by
    intro found p hfound hp
    cases found with
    | none => exact hp
    | some q => exact hfound q rfl
  unfold readScriptCall
  refine (ensures_command lang _ line).bind fun d _ => ?_
  refine (ensures_readCallTarget hbefore d line).bind fun found hfound => ?_
  refine (ensures_readCallName hafter hword d line).bind fun name hname => ?_
  refine (ensures_skipColon hname.2 line).bind fun rest hrest => ?_
  refine (ensures_readArguments hrest line 3).bind fun arguments harguments => ?_
  refine .ok (Statement.onLine_ofLine ?_ _ _ _)
  simp only [List.forall_mem_cons]
  exact ⟨hname.1, hfilled hfound.1 (habsent _), hfilled hfound.2 (Parameter.onLine_null _ _),
    harguments⟩

/-- Whatever a command is read as, its problem and its parts stand on the line. -/
theorem ensures_readCommand (hts : Follow text.length ts) (lang : Language) (condition : Conditional)
    (line : Nat) :
    Ensures (Diagnostic.OnLine text.length) (Statement.OnLine text.length)
      (lang.readCommand condition ts line text) := by
  unfold readCommand
  split
  · exact .error ⟨Nat.zero_le _, Statement.trimmedLength_le text⟩
  · next first rest =>
    refine .ite (fun _ => ensures_readArrayAccess hts lang condition line) fun _ => ?_
    refine .ite (fun _ => ensures_readExpression hts lang condition line) fun _ => ?_
    split
    · next before word after hsplit => exact ensures_readScriptCall hts hsplit lang condition line
    · split
      · next found arguments hfound =>
        have hshaped := hts.sublist
          (List.take_sublist ((first :: rest).length - arguments.length) (first :: rest))
        have harguments : ∀ t ∈ arguments, t.OnLine text.length := by
          intro t ht
          refine hts.onLine t ?_
          rw [(of_findCommand hfound).2.1]
          exact List.mem_append_right _ ht
        exact (ensures_bindParameters hshaped harguments found condition line).bind fun ps hps =>
          .ok (Statement.onLine_ofLine hps _ _ _)
      · exact .error (onLine_unreadable hts lang condition first line text)

/-! ### Lines

The body of a comment is lexed again, as a line of its own, and its tokens are moved to where they
stand. So what is found in a commented command stands on the line as well. -/

theorem onLine_readCommented {body : Token} (hbody : body ∈ tokens text) {lang : Language}
    {line : Nat} {s : Statement} (h : lang.readCommented body line text = some s) :
    s.OnLine text.length := by
  unfold readCommented at h
  dsimp only at h
  split at h
  · cases h
  · next first rest hinner =>
    split at h
    · cases h
    · have hfollow := follow_of_body hbody
      rw [hinner] at hfollow h
      have hcommand := ensures_readCommand
        (hfollow.sublist (readConditional_isSuffix (first :: rest)).sublist) lang
        (readConditional (first :: rest)).1 line
      generalize lang.readCommand (readConditional (first :: rest)).1
        (readConditional (first :: rest)).2 line text = x at hcommand h
      cases hcommand with
      | error _ => cases h
      | ok hs =>
          cases h
          exact { hs with }

/-- Whatever is read from a line stands on it: its statement, and the problem with it. -/
theorem onLine_readLine (lang : Language) (line : Nat) (text : String) :
    (lang.readLine line text).1.OnLine text.length ∧
      ∀ d, (lang.readLine line text).2 = some d → d.OnLine text.length := by
  have hempty : ∀ p ∈ ([] : List Parameter), p.OnLine text.length := List.forall_mem_nil _
  -- a line that cannot be read keeps nothing but its place
  have hproblem : ∀ {condition : Conditional} {e : Diagnostic}, e.OnLine text.length →
      (problemLine condition e line text).1.OnLine text.length ∧
        ∀ d, (problemLine condition e line text).2 = some d → d.OnLine text.length := by
    intro condition e he
    refine ⟨Statement.onLine_ofLine hempty _ _ _, fun d hd => ?_⟩
    cases hd
    exact he
  have hfollow := follow_tokens text
  unfold readLine
  split
  · split
    · exact ⟨Statement.onLine_ofLine hempty _ _ _, by simp⟩
    · exact hproblem (Within.zero _)
  · next first rest htokens =>
    rw [htokens] at hfollow
    split
    · unfold readComment
      have hbody : ∀ body, rest.head?.filter (·.kind == .comment) = some body → body ∈ rest :=
        fun body hb => List.mem_of_head? (Option.eq_some_of_filter_eq_some hb)
      generalize rest.head?.filter (·.kind == .comment) = body at hbody ⊢
      split
      · next s hs =>
        obtain ⟨t, ht, hread⟩ := Option.bind_eq_some_iff.mp hs
        refine ⟨onLine_readCommented ?_ hread, by simp⟩
        rw [htokens]
        exact List.mem_cons_of_mem _ (hbody t ht)
      · split
        · refine hproblem (hfollow.sublist ?_).extent
          cases body with
          | none => exact List.Sublist.cons_cons _ (List.nil_sublist _)
          | some t => exact List.Sublist.cons_cons _ (List.singleton_sublist.mpr (hbody t rfl))
        · refine ⟨Statement.onLine_ofLine (List.forall_mem_singleton.mpr ?_) _ _ _,
            by simp⟩
          obtain ⟨hfirst, hrest⟩ := List.forall_mem_cons.mp hfollow.onLine
          cases body with
          | none => exact ⟨Nat.le_refl _, hfirst.2⟩
          | some t => exact (hrest t (hbody t rfl)).within
    · have hcommand := ensures_readCommand
        (hfollow.sublist (readConditional_isSuffix (first :: rest)).sublist) lang
        (readConditional (first :: rest)).1 line
      dsimp only
      generalize lang.readCommand (readConditional (first :: rest)).1
        (readConditional (first :: rest)).2 line text = x at hcommand ⊢
      cases hcommand with
      | error hd => exact hproblem hd
      | ok hs => exact ⟨hs, by simp⟩

end

end Language

end MissionScript
