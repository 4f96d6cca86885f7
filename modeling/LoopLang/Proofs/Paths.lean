import LoopLang.Node.Walk
import LoopLang.Proofs.Labels
import LoopLang.Stmt.StrayExit
import Std.Data.String.ToNat

/-! Paths in a tree. The children of a node have different roles, so roles lead from the root to one node
at most, and every node is reached in one way. The walk over a tree meets all of these places, a node
before what is below it. A path written as text is still the same path: the names of roles are words
without points, and no two roles have the same one. -/
namespace LoopLang

/-! ### Paths as text -/

/-- A position is written in figures, and no other role is. -/
theorem Role.text_injective {first second : Role} (same : first.text = second.text) : first = second := by
  have figures (position : Nat) : ∀ c ∈ (index position).text.toList, c.isDigit = true := by
    intro c held
    rw [text, Nat.toString_eq_repr, Nat.toList_repr] at held
    exact Nat.isDigit_of_mem_toDigits (by decide) (by decide) held
  have word (role : Role) (other : ∀ position, role ≠ index position) :
      ∃ c ∈ role.text.toList, c.isDigit = false := by
    cases role with
    | index position => exact absurd rfl (other position)
    | _ => simp [text]
  have apart (position : Nat) (role : Role) (other : ∀ position, role ≠ index position) :
      (index position).text ≠ role.text := by
    intro same
    obtain ⟨c, held, letter⟩ := word role other
    rw [← same] at held
    exact Bool.noConfusion ((figures position c held).symm.trans letter)
  cases first with
  | index position =>
    cases second with
    | index position' => rw [Nat.repr_injective same]
    | _ => exact absurd same (apart position _ (by simp))
  | _ =>
    cases second with
    | index position' => exact absurd same.symm (apart position' _ (by simp))
    | _ =>
      revert same
      decide

/-- The points in the text of a path stand between its roles. -/
private theorem Path.splitOn_text (path : Path) : path.text.toList.splitOn '.' =
    if path.isRoot then ["<root>".toList] else path.roles.map fun role => role.text.toList := by
  rw [text]
  split
  case isTrue root => exact List.splitOn_eq_singleton (by simp)
  case isFalse below =>
    have words : ∀ word ∈ path.roles.map fun role => role.text.toList, '.' ∉ word := by
      intro word held point
      obtain ⟨role, -, rfl⟩ := List.mem_map.mp held
      exact absurd (role.text_letters '.' point) (by decide)
    have some : path.roles.map (fun role => role.text.toList) ≠ [] := by
      simpa [isRoot] using below
    have pieces := List.splitOn_intercalate '.' words some
    simpa [Function.comp_def] using pieces

/-- Different paths have different texts. -/
theorem Path.text_injective {first second : Path} (same : first.text = second.text) : first = second := by
  have unnamed (role : Role) : role.text.toList ≠ "<root>".toList := by
    intro same
    have letters := role.text_letters '<' (by simp [same])
    exact absurd letters (by decide)
  have pieces := congrArg (fun text => text.toList.splitOn '.') same
  simp only [splitOn_text] at pieces
  obtain ⟨_ | ⟨role, rest⟩⟩ := first
  · obtain ⟨_ | ⟨role, rest⟩⟩ := second
    · rfl
    · exact absurd (List.cons.inj pieces).1.symm (unnamed role)
  · obtain ⟨_ | ⟨role', rest'⟩⟩ := second
    · exact absurd (List.cons.inj pieces).1 (unnamed role)
    · have roles := List.map_injective_iff.mpr
        (fun _ _ same => Role.text_injective (String.toList_inj.mp same)) pieces
      exact congrArg Path.mk roles

namespace Node

/-! ### Places -/

/-- The node to which the roles lead, if each of them is the role of a child. -/
def at? : Node → List Role → Option Node
  | root, [] => some root
  | root, role :: roles => (root.children.lookup role).bind (at? · roles)

/-- The nodes on the way that the roles lead, without the one at its end. -/
def above : Node → List Role → List Node
  | _, [] => []
  | root, role :: roles => root :: (root.children.lookup role).elim [] (above · roles)

/-- Every node of a tree with the roles that lead to it, each before its children. -/
def places (root : Node) : List (List Role × Node) :=
  ([], root) :: root.children.attach.flatMap fun ⟨child, _held⟩ =>
    child.2.places.map fun place => (child.1 :: place.1, place.2)
termination_by sizeOf root
decreasing_by exact sizeOf_child_lt root child _held

theorem places_eq (root : Node) : root.places = ([], root) ::
    root.children.flatMap fun child =>
      child.2.places.map fun place => (child.1 :: place.1, place.2) := by
  conv_rhs => rw [← List.attach_map_subtype_val root.children, List.flatMap_map]
  rw [places]

/-- No two children of a node have the same role. -/
theorem children_roles_nodup (root : Node) : (root.children.map (·.1)).Nodup := by
  match root with
  | stmt (.block body) =>
    have roles : (stmt (.block body)).children.map (·.1) = (List.range body.length).map Role.index :=
      List.ext_getElem (by simp [children]) (by simp [children])
    rw [roles]
    exact List.Pairwise.map _ (by simp) List.nodup_range
  | stmt (.branch _ _ _ _ _) => simp [children]
  | stmt (.assign _ _) | stmt (.loop _) | stmt .exit | stmt (.print _) => simp [children]
  | expr (.constant _) | expr (.var _) | expr (.binary _ _ _) => simp [children]

/-- So the role of a child leads to this child. -/
theorem lookup_child {root : Node} {role : Role} {child : Node} :
    root.children.lookup role = some child ↔ (role, child) ∈ root.children := by
  rw [List.lookup_eq_some_iff]
  constructor
  · rintro ⟨before, after, split, -⟩
    simp [split]
  · intro held
    obtain ⟨before, after, split⟩ := List.append_of_mem held
    refine ⟨before, after, split, fun other earlier => ?_⟩
    have different := root.children_roles_nodup
    rw [split, List.map_append, List.nodup_append] at different
    have apart := different.2.2 other.1 (List.mem_map_of_mem earlier) role (by simp)
    simpa using apart.symm

/-- The places of a tree are where roles lead. -/
theorem mem_places {root node : Node} {roles : List Role} :
    (roles, node) ∈ root.places ↔ root.at? roles = some node := by
  induction roles generalizing root with
  | nil =>
    rw [places_eq, at?]
    simp [eq_comm]
  | cons role roles ih =>
    rw [places_eq, at?, Option.bind_eq_some_iff]
    simp only [lookup_child, ← ih]
    simp

/-- A visit of the walk tells how far down a place is and in which role the node stands there. -/
theorem walkFrom_eq_places (depth : Nat) (role : Option Role) (root : Node) :
    root.walkFrom (fun _ => false) depth role = root.places.map fun place =>
      ⟨depth + place.1.length, place.1.getLast?.or role, place.2⟩ := by
  induction root using by_children generalizing depth role with
  | step root inside =>
    rw [walkFrom_eq, places_eq, List.map_cons, List.map_flatMap]
    refine congrArg (List.cons _) (List.flatMap_congr fun child held => ?_)
    rw [inside child held, List.map_map]
    refine List.map_congr_left fun place _ => ?_
    simp [List.getLast?_cons]
    omega

end Node
end LoopLang
