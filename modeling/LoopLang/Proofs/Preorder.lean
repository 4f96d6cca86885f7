import LoopLang.Proofs.Outline
import LoopLang.Proofs.Output
import LoopLang.Proofs.Visitors

/-! The order of the walk. What is below a node is told here by the parts of statements and expressions, without
the list of children: first the node, then its parts from left to right, each with the nodes that are above it. The
walk meets every node once in this order, all visitors log it, and the outline has a line for each node at the depth
of the node. Where some kinds stop the walk, exactly the nodes that are below a node of such a kind are missing. -/
namespace LoopLang

/-- A node of a tree and the nodes above it, the nearest first. -/
structure Occurrence where
  above : List Node
  node : Node

/-- An expression and the expressions in it, from left to right. -/
def Expr.occurrences (above : List Node) : Expr → List Occurrence
  | .constant number => [⟨above, .expr (.constant number)⟩]
  | .var name => [⟨above, .expr (.var name)⟩]
  | .binary operator lhs rhs =>
    let inside := .expr (.binary operator lhs rhs) :: above
    ⟨above, .expr (.binary operator lhs rhs)⟩ :: (lhs.occurrences inside ++ rhs.occurrences inside)

mutual

/-- A statement and all that is in it, from left to right. -/
def Stmt.occurrences (above : List Node) : Stmt → List Occurrence
  | .block body => ⟨above, .stmt (.block body)⟩ :: bodyOccurrences (.stmt (.block body) :: above) body
  | .assign name value =>
    ⟨above, .stmt (.assign name value)⟩ :: value.occurrences (.stmt (.assign name value) :: above)
  | .branch comparison lhs rhs ifTrue ifFalse =>
    let inside := .stmt (.branch comparison lhs rhs ifTrue ifFalse) :: above
    ⟨above, .stmt (.branch comparison lhs rhs ifTrue ifFalse)⟩ ::
      (lhs.occurrences inside ++ rhs.occurrences inside ++ ifTrue.occurrences inside ++ ifFalse.occurrences inside)
  | .loop body => ⟨above, .stmt (.loop body)⟩ :: body.occurrences (.stmt (.loop body) :: above)
  | .exit => [⟨above, .stmt .exit⟩]
  | .print value => ⟨above, .stmt (.print value)⟩ :: value.occurrences (.stmt (.print value) :: above)

/-- The statements of a block one after the other. -/
def Stmt.bodyOccurrences (above : List Node) : List Stmt → List Occurrence
  | [] => []
  | stmt :: rest => stmt.occurrences above ++ bodyOccurrences above rest

end

namespace Occurrence

/-- The number of nodes above. -/
def depth (occurrence : Occurrence) : Nat := occurrence.above.length

/-- No node above is of a kind that stops the walk. -/
def reached (stop : Kind → Bool) (occurrence : Occurrence) : Bool := occurrence.above.all fun node => !stop node.kind

end Occurrence

namespace Node
variable {root : Node} {stop : Kind → Bool}

/-- A node and all nodes below it, each before its parts and these from left to right. -/
def occurrences (above : List Node) : Node → List Occurrence
  | stmt statement => statement.occurrences above
  | expr expression => expression.occurrences above

/-! ### Children -/

private theorem body_occurrences (above : List Node) (body : List Stmt) :
    Stmt.bodyOccurrences above body = body.flatMap fun statement => (stmt statement).occurrences above := by
  induction body with
  | nil => rfl
  | cons statement rest later => rw [Stmt.bodyOccurrences, later, List.flatMap_cons, occurrences]

/-- The parts of a node are its children, none is left out, and they are in their order. -/
theorem occurrences_eq (above : List Node) (root : Node) : root.occurrences above =
    ⟨above, root⟩ :: root.children.flatMap fun child => child.2.occurrences (root :: above) := by
  match root with
  | stmt (.block body) =>
    rw [occurrences, Stmt.occurrences, body_occurrences, ← List.flatMap_map stmt, ← block_children, List.flatMap_map]
  | stmt (.branch _ _ _ _ _) => simp [occurrences, Stmt.occurrences, children]
  | stmt (.assign _ _) | stmt (.loop _) | stmt .exit | stmt (.print _) => simp [occurrences, Stmt.occurrences, children]
  | expr (.constant _) | expr (.var _) | expr (.binary _ _ _) => simp [occurrences, Expr.occurrences, children]

/-- What is below a node has the node above it. -/
private theorem above_occurrences (above : List Node) (root : Node) :
    ∀ occurrence ∈ root.occurrences above, above <:+ occurrence.above := by
  induction root using by_children generalizing above with
  | step root below =>
    rw [occurrences_eq]
    rintro occurrence (_ | ⟨_, held⟩)
    · exact List.suffix_refl above
    · obtain ⟨child, below_root, held⟩ := List.mem_flatMap.mp held
      exact (List.suffix_cons root above).trans (below child below_root _ occurrence held)

/-! ### Walks -/

/-- A walk meets the nodes that have no stop above them, in their order and each at its depth. -/
theorem walkFrom_eq_occurrences (above : List Node) (free : ∀ node ∈ above, stop node.kind = false)
    (role : Option Role) (root : Node) :
    (root.walkFrom stop above.length role).map (fun visit => (visit.depth, visit.node)) =
      ((root.occurrences above).filter (·.reached stop)).map fun occurrence => (occurrence.depth, occurrence.node) := by
  induction root using by_children generalizing above role with
  | step root below =>
    have here : Occurrence.reached stop ⟨above, root⟩ = true := by simpa [Occurrence.reached] using free
    rw [walkFrom_eq, occurrences_eq, List.filter_cons_of_pos here, List.map_cons, List.map_cons]
    refine congrArg (List.cons (above.length, root)) ?_
    split
    case isTrue stopped =>
      have none : (root.children.flatMap fun child => child.2.occurrences (root :: above)).filter (·.reached stop) =
          [] := by
        rw [List.filter_eq_nil_iff]
        intro occurrence held
        obtain ⟨child, -, held⟩ := List.mem_flatMap.mp held
        have inside := (above_occurrences _ _ occurrence held).subset List.mem_cons_self
        simpa [Occurrence.reached] using ⟨root, inside, stopped⟩
      rw [none]
      rfl
    case isFalse goes =>
      have free_below : ∀ node ∈ root :: above, stop node.kind = false :=
        List.forall_mem_cons.mpr ⟨Bool.eq_false_iff.mpr goes, free⟩
      rw [List.map_flatMap, List.filter_flatMap, List.map_flatMap]
      exact List.flatMap_congr fun child held => below child held (root :: above) free_below (some child.1)

theorem walk_eq_occurrences (stop : Kind → Bool) (root : Node) :
    (root.walk stop).map (fun visit => (visit.depth, visit.node)) =
      ((root.occurrences []).filter (·.reached stop)).map fun occurrence => (occurrence.depth, occurrence.node) :=
  walkFrom_eq_occurrences [] (by simp) none root

private theorem visits_eq_occurrences (root : Node) :
    root.visits.map (fun visit => (visit.depth, visit.node)) =
    (root.occurrences []).map fun occurrence => (occurrence.depth, occurrence.node) := by
  have all : (root.occurrences []).filter (·.reached fun _ => false) = root.occurrences [] := by
    rw [List.filter_eq_self]
    simp [Occurrence.reached]
  rw [visits, walk_eq_occurrences, all]

/-! ### Lines -/

/-- The number of blanks in front of a line. -/
def indentation (line : List Char) : Nat := (line.takeWhile (· == ' ')).length

/-- The line stands for the node: behind two blanks for each node above there is a role, if any, and the label. -/
def Shows (occurrence : Occurrence) (line : List Char) : Prop :=
  indentation line = 2 * occurrence.depth ∧ ∃ role, line =
    List.replicate (2 * occurrence.depth) ' ' ++ (Visit.roleText role ++ occurrence.node.label.toList)

private theorem indentation_line (visit : Visit) :
    indentation visit.line.toList = 2 * visit.depth := by
  have blanks : ∀ c ∈ List.replicate (2 * visit.depth) ' ', (c == ' ') = true := by
    intro c held
    rw [List.eq_of_mem_replicate held]
    rfl
  rw [indentation, Visit.toList_line, List.takeWhile_append_of_pos blanks, takeWhile_stops visit.not_blank]
  simp

/-- A line ends with a letter, a figure or a parenthesis. -/
private theorem line_last (visit : Visit) : visit.line.toList.getLast? ≠ some '\r' := by
  rw [Visit.toList_line, toList_label]
  cases visit.node.detail? with
  | some detail =>
    have ends : detailText (some detail) = (' ' :: '(' :: detail.toList) ++ [')'] := rfl
    rw [ends, ← List.append_assoc, ← List.append_assoc, ← List.append_assoc, List.getLast?_concat]
    simp
  | none => cases visit.node.kind <;> simp [detailText, Kind.text]

/-- The lines of an outline are those of the visits. -/
private theorem split_outline
    (whole : ∀ visit ∈ root.visits, ∀ name ∈ visit.node.name?, '\n' ∉ name.toList) :
    Lines.split root.outline.toList = root.visits.map (·.line.toList) := by
  have free : ∀ line ∈ root.visits.map (·.line.toList), '\n' ∉ line := by
    simpa using fun visit held => visit.line_whole (whole visit held)
  have text := root.toList_outline
  rw [← List.flatMap_map (fun visit : Visit => visit.line.toList) fun line => line ++ ['\n']] at text
  rw [text, Lines.split_ended free, List.map_map]
  refine List.map_congr_left fun visit _ => ?_
  simp [Lines.withoutReturn, line_last]

private theorem outline_shows
    (whole : ∀ occurrence ∈ root.occurrences [], ∀ name ∈ occurrence.node.name?, '\n' ∉ name.toList) :
    List.Forall₂ Shows (root.occurrences []) (Lines.split root.outline.toList) := by
  have same := root.visits_eq_occurrences
  have names : ∀ visit ∈ root.visits, ∀ name ∈ visit.node.name?, '\n' ∉ name.toList := by
    intro visit held
    have member : (visit.depth, visit.node) ∈
        (root.occurrences []).map fun occurrence => (occurrence.depth, occurrence.node) :=
      same ▸ List.mem_map_of_mem held
    obtain ⟨occurrence, listed, equal⟩ := List.mem_map.mp member
    exact (Prod.mk.inj equal).2 ▸ whole occurrence listed
  rw [split_outline names, List.forall₂_map_right_iff]
  rw [← List.forall₂_eq_eq_eq, List.forall₂_map_left_iff, List.forall₂_map_right_iff] at same
  refine same.flip.imp fun occurrence visit equal => ?_
  obtain ⟨depth, node⟩ := Prod.mk.inj equal
  rw [Shows, ← depth, ← node]
  exact ⟨indentation_line visit, visit.role, visit.toList_line⟩

/-! ### The order -/

/-- A visitor that logs nodes and stops at some kinds logs every node once, in order and without those that are below
such a kind, and so does the walk. Visitors that care for statements only, or for expressions only, log all of
these in the same order. If no name has a newline, then the lines of the outline show the nodes in the same order, each
behind two blanks for each node above it. -/
theorem walks_in_preorder (root : Node) (stop : Kind → Bool) :
    (Visitor.logging stop).visit root [] = ((root.occurrences []).filter (·.reached stop)).map Occurrence.node ∧
    (root.walk stop).map Visit.node = ((root.occurrences []).filter (·.reached stop)).map Occurrence.node ∧
    Visitor.loggingStatements.visit root [] = (root.occurrences []).filterMap (·.node.statement?) ∧
    root.statements = (root.occurrences []).filterMap (·.node.statement?) ∧
    Visitor.loggingExpressions.visit root [] = (root.occurrences []).filterMap (·.node.expression?) ∧
    root.expressions = (root.occurrences []).filterMap (·.node.expression?) ∧
    ((∀ occurrence ∈ root.occurrences [], ∀ name ∈ occurrence.node.name?, '\n' ∉ name.toList) →
      List.Forall₂ Shows (root.occurrences []) (Lines.split root.outline.toList)) := by
  have walk : (root.walk stop).map Visit.node = ((root.occurrences []).filter (·.reached stop)).map Occurrence.node := by
    have nodes := congrArg (List.map Prod.snd) (walk_eq_occurrences stop root)
    simpa [Function.comp_def] using nodes
  have visits : root.visits.map Visit.node = (root.occurrences []).map Occurrence.node := by
    have nodes := congrArg (List.map Prod.snd) root.visits_eq_occurrences
    simpa [Function.comp_def] using nodes
  have statements : root.statements = (root.occurrences []).filterMap (·.node.statement?) := by
    have listed := congrArg (List.filterMap statement?) visits
    simpa [statements_eq, List.filterMap_map, Function.comp_def] using listed
  have expressions : root.expressions = (root.occurrences []).filterMap (·.node.expression?) := by
    have listed := congrArg (List.filterMap expression?) visits
    simpa [expressions_eq, List.filterMap_map, Function.comp_def] using listed
  exact ⟨(Visitor.log_nodes stop root).trans walk, walk, (Visitor.log_statements root).trans statements, statements,
    (Visitor.log_expressions root).trans expressions, expressions, outline_shows⟩

/-- The variable that is assigned from is behind the stop, and has its line in the outline all the same. -/
theorem assignment_hides_variable :
    (Visitor.logging (· == .assign)).visit (stmt (.loop (.block [.assign "x" (.var "y"), .exit]))) [] =
        [stmt (.loop (.block [.assign "x" (.var "y"), .exit])), stmt (.block [.assign "x" (.var "y"), .exit]),
          stmt (.assign "x" (.var "y")), stmt .exit] ∧
      List.Forall₂ Shows ((stmt (.loop (.block [.assign "x" (.var "y"), .exit]))).occurrences [])
        (Lines.split (stmt (.loop (.block [.assign "x" (.var "y"), .exit]))).outline.toList) := by
  obtain ⟨logged, -, -, -, -, -, shown⟩ :=
    walks_in_preorder (stmt (.loop (.block [.assign "x" (.var "y"), .exit]))) (· == .assign)
  refine ⟨logged.trans rfl, shown ?_⟩
  simp [occurrences, Stmt.occurrences, Stmt.bodyOccurrences, Expr.occurrences, name?]

end Node
end LoopLang
