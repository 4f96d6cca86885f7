import LoopLang.Proofs.Paths

/-! The check for stray exits against the tree itself. An exit is stray if no node on the way to it is a
loop. Among all places of a tree in the order of the walk the check finds the first one with a stray
exit, and it passes a tree without any. -/
namespace LoopLang
namespace Node
variable {root child : Node} {role : Role} {roles : List Role}

/-- One of the nodes on the way that the roles lead is a loop. -/
def Looped (root : Node) (roles : List Role) : Prop := ∃ node ∈ root.above roles, node.kind = .loop

instance : Decidable (root.Looped roles) :=
  inferInstanceAs (Decidable (∃ node ∈ root.above roles, node.kind = .loop))

/-- Whether a place has an exit that no loop takes in. -/
def isStray (root : Node) (place : List Role × Node) : Bool :=
  place.2 == .stmt .exit && !decide (root.Looped place.1)

/-- The places with such exits in the order of the walk. -/
def strays (root : Node) : List (List Role × Node) := root.places.filter root.isStray

private theorem isStray_iff {node : Node} :
    root.isStray (roles, node) = true ↔ node = .stmt .exit ∧ ¬ root.Looped roles := by
  simp [isStray]

/-- The way to a place below a child begins at the parent. -/
private theorem looped_child (held : (role, child) ∈ root.children) :
    root.Looped (role :: roles) ↔ root.kind = .loop ∨ child.Looped roles := by
  simp [Looped, above, lookup_child.mpr held]

private theorem strays_exit : (stmt .exit).strays = [([], .stmt .exit)] := by
  rw [strays, places_eq]
  decide

/-- A loop takes in every exit below it. -/
private theorem strays_loop (body : Stmt) : (stmt (.loop body)).strays = [] := by
  rw [strays, List.filter_eq_nil_iff]
  rintro ⟨roles, node⟩ held
  rw [isStray_iff]
  rintro ⟨exit, free⟩
  cases roles with
  | nil =>
    rw [mem_places, at?, exit] at held
    cases held
  | cons role roles => exact free ⟨_, .head _, rfl⟩

/-- The stray exits of any other node are those of its children. -/
private theorem strays_eq (noExit : root.kind ≠ .exit) (noLoop : root.kind ≠ .loop) :
    root.strays = root.children.flatMap fun child =>
      child.2.strays.map fun place => (child.1 :: place.1, place.2) := by
  have here : ¬ root.isStray ([], root) = true := by
    rw [isStray_iff]
    rintro ⟨rfl, -⟩
    exact noExit rfl
  rw [strays, places_eq, List.filter_cons_of_neg here, List.filter_flatMap]
  refine List.flatMap_congr fun child held => ?_
  have below : root.isStray ∘ (fun place => (child.1 :: place.1, place.2)) = child.2.isStray := by
    funext place
    simp [isStray, looped_child held, noLoop]
  rw [List.filter_map, below, strays]

/-- There is no exit in an expression. -/
private theorem strays_expr (expression : Expr) : (expr expression).strays = [] := by
  induction expression with
  | binary operator lhs rhs left right =>
    rw [strays_eq (by simp [kind, Expr.kind]) (by simp [kind, Expr.kind])]
    simp [children, left, right]
  | _ =>
    rw [strays_eq (by simp [kind, Expr.kind]) (by simp [kind, Expr.kind])]
    simp [children]

end Node

namespace Stmt
open Node

mutual

/-- The check finds the first stray exit in the order of the walk. -/
theorem strays_head (statement : Stmt) : (Node.stmt statement).strays.head? =
    statement.strayRoles?.map fun roles => (roles, Node.stmt .exit) := by
  cases statement with
  | block body =>
    have all := bodyStrays_head 0 body
    simp only [Nat.zero_add] at all
    rw [strays_eq (by simp [Node.kind, kind]) (by simp [Node.kind, kind]), strayRoles?, ← all]
    rfl
  | branch comparison lhs rhs ifTrue ifFalse =>
    have inTrue := strays_head ifTrue
    have inFalse := strays_head ifFalse
    rw [strays_eq (by simp [Node.kind, kind]) (by simp [Node.kind, kind]), strayRoles?]
    simp only [children, List.flatMap_cons, List.flatMap_nil, strays_expr, List.map_nil, List.nil_append,
      List.append_nil, List.head?_append, List.head?_map, inTrue, inFalse]
    cases ifTrue.strayRoles? <;> cases ifFalse.strayRoles? <;> rfl
  | loop body =>
    rw [strays_loop]
    rfl
  | exit =>
    rw [strays_exit]
    rfl
  | _ =>
    rw [strays_eq (by simp [Node.kind, kind]) (by simp [Node.kind, kind])]
    simp [children, strays_expr, strayRoles?]

private theorem bodyStrays_head (position : Nat) (body : List Stmt) :
    ((body.mapIdx fun offset stmt => (Role.index (position + offset), Node.stmt stmt)).flatMap fun child =>
        child.2.strays.map fun place => (child.1 :: place.1, place.2)).head? =
      (bodyStrayRoles? position body).map fun roles => (roles, Node.stmt .exit) := by
  cases body with
  | nil => rfl
  | cons stmt rest =>
    have first := strays_head stmt
    have later := bodyStrays_head (position + 1) rest
    simp only [Nat.add_assoc, Nat.add_comm 1] at later
    rw [bodyStrayRoles?, List.mapIdx_cons, List.flatMap_cons, List.head?_append, later, List.head?_map, first]
    cases stmt.strayRoles? <;> rfl

end

private theorem find_stray (program : Stmt) :
    (Node.stmt program).places.find? (Node.stmt program).isStray =
    program.strayRoles?.map fun roles => (roles, Node.stmt .exit) := by
  rw [← List.head?_filter, ← strays_head, strays]

/-- A program passes the check if a loop takes in every exit of it. -/
theorem passes_iff (program : Stmt) : program.strayExit? = none ↔
    ∀ roles, (Node.stmt program).at? roles = some (.stmt .exit) → (Node.stmt program).Looped roles := by
  rw [strayExit?_eq_none, ← Option.map_eq_none_iff, ← find_stray, List.find?_eq_none]
  constructor
  · intro passed roles exit
    by_contra free
    exact passed _ (mem_places.mpr exit) (isStray_iff.mpr ⟨rfl, free⟩)
  · rintro covered ⟨roles, node⟩ held stray
    obtain ⟨rfl, free⟩ := isStray_iff.mp stray
    exact free (covered roles (mem_places.mp held))

/-- The roles that are found lead to an exit that no loop takes in, and the exits before it are taken in. -/
theorem found_is_first {program : Stmt} {roles : List Role} (found : program.strayRoles? = some roles) :
    ¬ (Node.stmt program).Looped roles ∧
      ∃ before after, (Node.stmt program).places = before ++ (roles, .stmt .exit) :: after ∧
        ∀ place ∈ before, place.2 = .stmt .exit → (Node.stmt program).Looped place.1 := by
  have first := find_stray program
  rw [found, Option.map_some, List.find?_eq_some_iff_append] at first
  obtain ⟨here, before, after, split, earlier⟩ := first
  refine ⟨(isStray_iff.mp here).2, before, after, split, ?_⟩
  rintro ⟨roles, node⟩ held exit
  have passed := earlier _ held
  by_contra free
  rw [isStray_iff.mpr ⟨exit, free⟩] at passed
  cases passed

/-- A program passes the check if a loop takes in every exit of it. Otherwise the check reports the first
exit that none takes in: the reported roles lead to it, and the exits that the walk meets before it all
have a loop above them. The reported text stands for this place of the program alone. -/
theorem check_reports_first_stray (program : Stmt) :
    let root := Node.stmt program
    root.visits = root.places.map (fun place => ⟨place.1.length, place.1.getLast?, place.2⟩) ∧
    (∀ roles node, (roles, node) ∈ root.places ↔ root.at? roles = some node) ∧
    (program.strayExit? = none ↔ ∀ roles, root.at? roles = some (.stmt .exit) → root.Looped roles) ∧
    ∀ stray, program.strayExit? = some stray →
      root.at? stray.path.roles = some (.stmt .exit) ∧
      (∀ node ∈ root.above stray.path.roles, node.kind ≠ .loop) ∧
      (∃ before after, root.places = before ++ (stray.path.roles, .stmt .exit) :: after ∧
        ∀ place ∈ before, place.2 = .stmt .exit → root.Looped place.1) ∧
      ∀ roles node, root.at? roles = some node → roles ≠ stray.path.roles →
        (Path.mk roles).text ≠ stray.path.text := by
  intro root
  refine ⟨?_, fun roles node => mem_places, passes_iff program, ?_⟩
  · rw [visits, walk, walkFrom_eq_places]
    simp
  · intro stray reported
    obtain ⟨roles, found, rfl⟩ := Option.map_eq_some_iff.mp reported
    obtain ⟨free, before, after, split, covered⟩ := found_is_first found
    refine ⟨mem_places.mp (split ▸ by simp), fun node above loop => free ⟨node, above, loop⟩,
      ⟨before, after, split, covered⟩, fun other node held different same => ?_⟩
    exact different (congrArg Path.roles (Path.text_injective same))

/-- The exit in the loop is passed, and of the two others the one in the first branch is reported. -/
theorem check_reports_exit_in_branch :
    let program := block [loop exit,
      branch .lt (.var "x") (.var "y") (block [print (.var "x"), exit]) exit]
    program.strayExit? = some ⟨⟨[.index 1, .ifTrue, .index 1]⟩⟩ ∧
    (Node.stmt program).at? [.index 1, .ifFalse] = some (.stmt exit) ∧
    (Path.mk [.index 1, .ifFalse]).text ≠ "1.ifTrue.1" ∧
    ¬ ∀ roles, (Node.stmt program).at? roles = some (.stmt .exit) → (Node.stmt program).Looped roles := by
  intro program
  obtain ⟨-, -, passes, reports⟩ := check_reports_first_stray program
  have reported : program.strayExit? = some ⟨⟨[.index 1, .ifTrue, .index 1]⟩⟩ := by decide
  have other : (Node.stmt program).at? [.index 1, .ifFalse] = some (.stmt exit) := by decide
  refine ⟨reported, other, (reports _ reported).2.2.2 _ _ other (by decide), fun covered => ?_⟩
  rw [passes.mpr covered] at reported
  cases reported

end Stmt
end LoopLang
