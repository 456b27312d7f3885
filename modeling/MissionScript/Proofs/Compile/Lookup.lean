import MissionScript.Compile
import Mathlib.Data.List.Basic

/-!
# MissionScript.Proofs.Compile.Lookup

What compiling asks a language for.

A catalog is asked in two ways only: for the command of a number, and for the commands of a shape.
Languages that answer alike (`SameAnswers`) read every line alike (`SameAnswers.readLine_eq`), lower every
tree alike (`SameAnswers.lower_eq`) and compile every script alike (`SameAnswers.compile_eq`).

`compile_congr` asks for less: the lines of the script are read alike, and the two commands that the
compiler adds are the same.
-/

namespace MissionScript

/-! ### Lowering and compiling -/

namespace Tree

/-- Only the commands that the compiler adds are looked up while a tree is lowered. -/
theorem lower_congr {lang lang' : Language}
    (hfinish : addedCommand lang' CommandId.finish = addedCommand lang CommandId.finish)
    (hjump : addedCommand lang' CommandId.hiddenJump = addedCommand lang CommandId.hiddenJump)
    (t : Tree) : t.lower lang' = t.lower lang := by
  have hreturn : addReturn lang' t = addReturn lang t := by
    rw [addReturn, hfinish, ← addReturn]
  have hjumps : ∀ u : Tree, addJumps lang' u = addJumps lang u := by
    intro u
    rw [addJumps, hjump, ← addJumps]
  unfold lower
  rw [hreturn]
  cases addReturn lang t with
  | error failure => rfl
  | ok u => simp only [hjumps]

end Tree

namespace Script

theorem readLines_congr {lang lang' : Language} {lines : List String}
    (h : ∀ l ∈ lines.zipIdx 1, lang'.readLine l.2 l.1 = lang.readLine l.2 l.1) :
    readLines lang' lines = readLines lang lines := by
  unfold readLines
  refine List.foldl_ext _ _ _ fun s l hl => ?_
  rw [readLine, readLine, h l hl]

end Script

namespace Language

open MissionScript.Tree

/-- Scripts whose lines are read alike are compiled alike. -/
theorem compile_congr {lang lang' : Language} {lines : List String}
    (hread : ∀ l ∈ lines.zipIdx 1, lang'.readLine l.2 l.1 = lang.readLine l.2 l.1)
    (hfinish : addedCommand lang' CommandId.finish = addedCommand lang CommandId.finish)
    (hjump : addedCommand lang' CommandId.hiddenJump = addedCommand lang CommandId.hiddenJump) :
    lang'.compile lines = lang.compile lines := by
  unfold compile
  rw [Script.readLines_congr hread]
  simp only [lower_congr hfinish hjump]

/-! ### Languages that answer alike -/

/-- The languages give the same answers for one version. -/
structure SameAnswers (lang lang' : Language) : Prop where
  version_eq : lang'.version = lang.version
  find?_eq : ∀ id, lang'.find? id = lang.find? id
  withShape_eq : ∀ shape, lang'.withShape shape = lang.withShape shape

namespace SameAnswers

variable {lang lang' : Language}

theorem command_eq (h : lang.SameAnswers lang') (id : Nat) : lang'.command id = lang.command id := by
  rw [command, command, h.find?_eq, h.version_eq]

theorem candidates_eq (h : lang.SameAnswers lang') (condition : Conditional) (ts : List Token) :
    lang'.candidates condition ts = lang.candidates condition ts := by
  rw [candidates, candidates, h.withShape_eq]

theorem findCommand_eq (h : lang.SameAnswers lang') (condition : Conditional) (ts : List Token) :
    lang'.findCommand condition ts = lang.findCommand condition ts := by
  simp only [findCommand, h.candidates_eq]

theorem readCommand_eq (h : lang.SameAnswers lang') (condition : Conditional) (ts : List Token)
    (line : Nat) (text : String) :
    lang'.readCommand condition ts line text = lang.readCommand condition ts line text := by
  simp only [readCommand, readArrayAccess, readExpression, readScriptCall, unreadable,
    h.candidates_eq, h.command_eq, h.findCommand_eq, h.withShape_eq, h.version_eq]

/-- Every line is read alike. -/
theorem readLine_eq (h : lang.SameAnswers lang') (line : Nat) (text : String) :
    lang'.readLine line text = lang.readLine line text := by
  simp only [readLine, readComment, readCommented, h.command_eq, h.readCommand_eq]

theorem addedCommand_eq (h : lang.SameAnswers lang') (id : Nat) :
    addedCommand lang' id = addedCommand lang id := by
  rw [addedCommand, addedCommand, h.find?_eq, h.version_eq]

/-- Every script is compiled alike. -/
theorem compile_eq (h : lang.SameAnswers lang') (lines : List String) :
    lang'.compile lines = lang.compile lines :=
  compile_congr (fun l _ => h.readLine_eq l.2 l.1) (h.addedCommand_eq _) (h.addedCommand_eq _)

end SameAnswers

end Language

end MissionScript
