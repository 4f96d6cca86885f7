import LoopLang.Stmt.Basic

/-! Where control can go after a statement, when nothing is known about the conditions: past its end,
or out of the nearest loop. What stands in a block behind a statement that cannot complete never
runs and can be cut away. -/
namespace LoopLang

/-- The ways in which a statement can end. -/
structure Ways where
  /-- Control can pass its end. -/
  completes : Bool
  /-- Control can leave the nearest loop around it. -/
  exits : Bool
deriving DecidableEq, Repr

namespace Ways

/-- Control passes the end. -/
def through : Ways := ⟨true, false⟩

/-- Control leaves the nearest loop. -/
def out : Ways := ⟨false, true⟩

/-- One statement after another: the second one counts only if the first one can complete. -/
def andThen (first second : Ways) : Ways :=
  ⟨first.completes && second.completes, first.exits || first.completes && second.exits⟩

/-- One of two statements. -/
def either (first second : Ways) : Ways :=
  ⟨first.completes || second.completes, first.exits || second.exits⟩

/-- A loop completes by an exit from its body, and takes that exit in. -/
def repeated (body : Ways) : Ways := ⟨body.exits, false⟩

end Ways

namespace Stmt

mutual

/-- The statement without what can never run, and the ways in which it can end. -/
def trim : Stmt → Stmt × Ways
  | block body =>
    let (kept, ways) := trimBody body
    (block kept, ways)
  | assign name value => (assign name value, .through)
  | branch comparison lhs rhs ifTrue ifFalse =>
    let (keptTrue, waysTrue) := ifTrue.trim
    let (keptFalse, waysFalse) := ifFalse.trim
    (branch comparison lhs rhs keptTrue keptFalse, waysTrue.either waysFalse)
  | loop body =>
    let (kept, ways) := body.trim
    (loop kept, ways.repeated)
  | exit => (exit, .out)
  | print value => (print value, .through)

/-- A sequence up to its first statement that cannot complete, and the ways in which it can end. -/
def trimBody : List Stmt → List Stmt × Ways
  | [] => ([], .through)
  | stmt :: rest =>
    let (kept, ways) := stmt.trim
    if ways.completes then
      let (keptRest, waysRest) := trimBody rest
      (kept :: keptRest, ways.andThen waysRest)
    else ([kept], ways)

end

/-- The ways in which a statement can end. -/
def ways (stmt : Stmt) : Ways := stmt.trim.2

/-- The statement with every block cut after its first statement that cannot complete. -/
def prune (stmt : Stmt) : Stmt := stmt.trim.1

/-- A sequence cut after its first statement that cannot complete, and pruned below. -/
def pruneBody (body : List Stmt) : List Stmt := (trimBody body).1

/-- The ways in which a sequence can end. -/
def bodyWays (body : List Stmt) : Ways := (trimBody body).2

/-! ### Ways by parts -/

@[simp] theorem ways_block (body : List Stmt) : (block body).ways = bodyWays body := rfl

@[simp] theorem ways_assign (name : String) (value : Expr) : (assign name value).ways = .through := rfl

@[simp] theorem ways_branch (comparison : Comparison) (lhs rhs : Expr) (ifTrue ifFalse : Stmt) :
    (branch comparison lhs rhs ifTrue ifFalse).ways = ifTrue.ways.either ifFalse.ways := rfl

@[simp] theorem ways_loop (body : Stmt) : (loop body).ways = body.ways.repeated := rfl

@[simp] theorem ways_exit : exit.ways = .out := rfl

@[simp] theorem ways_print (value : Expr) : (print value).ways = .through := rfl

@[simp] theorem bodyWays_nil : bodyWays [] = .through := rfl

/-- Behind a statement that cannot complete, the rest of a sequence adds no way to end. -/
@[simp] theorem bodyWays_cons (stmt : Stmt) (rest : List Stmt) :
    bodyWays (stmt :: rest) = stmt.ways.andThen (bodyWays rest) := by
  rw [bodyWays, trimBody]
  by_cases completes : stmt.ways.completes = true
  · rw [ways] at completes
    simp [completes, ways, bodyWays]
  · rw [ways] at completes
    cases ending : stmt.trim.2 with
    | mk completes' exits => simp_all [ways, Ways.andThen]

/-! ### Pruning by parts -/

@[simp] theorem prune_block (body : List Stmt) : (block body).prune = block (pruneBody body) := rfl

@[simp] theorem prune_assign (name : String) (value : Expr) :
    (assign name value).prune = assign name value := rfl

@[simp] theorem prune_branch (comparison : Comparison) (lhs rhs : Expr) (ifTrue ifFalse : Stmt) :
    (branch comparison lhs rhs ifTrue ifFalse).prune =
      branch comparison lhs rhs ifTrue.prune ifFalse.prune := rfl

@[simp] theorem prune_loop (body : Stmt) : (loop body).prune = loop body.prune := rfl

@[simp] theorem prune_exit : exit.prune = exit := rfl

@[simp] theorem prune_print (value : Expr) : (print value).prune = print value := rfl

@[simp] theorem pruneBody_nil : pruneBody [] = [] := rfl

/-- The rest of a sequence stays only behind a statement that can complete. -/
@[simp] theorem pruneBody_cons (stmt : Stmt) (rest : List Stmt) :
    pruneBody (stmt :: rest) =
      stmt.prune :: if stmt.ways.completes then pruneBody rest else [] := by
  rw [pruneBody, trimBody]
  by_cases completes : stmt.ways.completes = true
  · rw [ways] at completes
    simp [completes, ways, prune, pruneBody]
  · rw [ways] at completes
    simp [completes, ways, prune]

end Stmt
end LoopLang
