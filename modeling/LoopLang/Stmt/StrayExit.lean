import LoopLang.Node.Basic

/-! Exits that no loop takes in. Such an exit is a fault of the program's shape, found before the
program runs and whether or not the exit would ever be reached. The first one in the order of the
walk is reported, by the roles that lead to it from the root. -/
namespace LoopLang

/-- The roles from the root down to a node. -/
structure Path where
  roles : List Role
deriving DecidableEq, Repr

/-- Whether the path stays at the root. -/
def Path.isRoot (path : Path) : Bool := path.roles.isEmpty

/-- The roles with points between them. -/
def Path.text (path : Path) : String :=
  if path.isRoot then "<root>" else ".".intercalate (path.roles.map Role.text)

/-- An exit outside every loop. -/
structure StrayExit where
  path : Path
deriving DecidableEq, Repr

/-- The text shown to the user. -/
def StrayExit.message (stray : StrayExit) : String :=
  "loop exit outside of any loop at " ++ stray.path.text

namespace Stmt

mutual

/-- The roles that lead to the first exit outside every loop. -/
def strayRoles? : Stmt → Option (List Role)
  | block body => bodyStrayRoles? 0 body
  | assign _ _ => none
  | branch _ _ _ ifTrue ifFalse =>
    match ifTrue.strayRoles? with
    | some roles => some (.ifTrue :: roles)
    | none => ifFalse.strayRoles?.map (.ifFalse :: ·)
  | loop _ => none
  | exit => some []
  | print _ => none

/-- The same among the statements of a block, from the given position on. -/
def bodyStrayRoles? (position : Nat) : List Stmt → Option (List Role)
  | [] => none
  | stmt :: rest =>
    match stmt.strayRoles? with
    | some roles => some (.index position :: roles)
    | none => bodyStrayRoles? (position + 1) rest

end

/-- The first exit outside every loop, if there is one. -/
def strayExit? (program : Stmt) : Option StrayExit :=
  program.strayRoles?.map fun roles => ⟨⟨roles⟩⟩

/-- A conditional without a stray exit has none in either branch. -/
theorem strayRoles?_branch_eq_none {comparison : Comparison} {lhs rhs : Expr} {ifTrue ifFalse : Stmt} :
    (branch comparison lhs rhs ifTrue ifFalse).strayRoles? = none ↔
      ifTrue.strayRoles? = none ∧ ifFalse.strayRoles? = none := by
  rw [strayRoles?]
  cases ifTrue.strayRoles? <;> simp

/-- A sequence without a stray exit has none in any of its statements. -/
theorem bodyStrayRoles?_cons_eq_none {position : Nat} {stmt : Stmt} {rest : List Stmt} :
    bodyStrayRoles? position (stmt :: rest) = none ↔
      stmt.strayRoles? = none ∧ bodyStrayRoles? (position + 1) rest = none := by
  rw [bodyStrayRoles?]
  cases stmt.strayRoles? <;> simp

/-- A program passes the check when no roles lead to a stray exit. -/
theorem strayExit?_eq_none {program : Stmt} : program.strayExit? = none ↔ program.strayRoles? = none :=
  Option.map_eq_none_iff

end Stmt
end LoopLang
