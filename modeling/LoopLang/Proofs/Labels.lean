import LoopLang.Node.Walk
import LoopLang.Proofs.NumberText

/-! Trees and their labels. A node is its label together with its children: the label begins with the name of
the kind, which is one word, and the rest of it is exactly what the node holds besides its children. So a
printed form that shows the labels and how the nodes are nested has lost nothing of the tree, provided that
no constant is a NaN, whose bits are not printed. -/
namespace LoopLang

/-- Nothing is taken of a text that does not begin with such a character. -/
theorem takeWhile_stops {α : Type} {inside : α → Bool} {rest : List α} (ends : ∀ c ∈ rest.head?, inside c = false) :
    rest.takeWhile inside = [] := by
  cases rest with
  | nil => rfl
  | cons c rest => exact List.takeWhile_cons_of_neg (by simp [ends c rfl])

/-- There is one way to cut a text into a part of one class of characters and a rest that does not go on with
that class. -/
theorem split_unique {α : Type} {inside : α → Bool} {first second rest rest' : List α}
    (all : ∀ c ∈ first, inside c = true) (all' : ∀ c ∈ second, inside c = true)
    (ends : ∀ c ∈ rest.head?, inside c = false) (ends' : ∀ c ∈ rest'.head?, inside c = false)
    (same : first ++ rest = second ++ rest') : first = second ∧ rest = rest' := by
  have front := congrArg (List.takeWhile inside) same
  rw [List.takeWhile_append_of_pos all, List.takeWhile_append_of_pos all',
    takeWhile_stops ends, takeWhile_stops ends', List.append_nil, List.append_nil] at front
  exact ⟨front, List.append_cancel_left (front ▸ same)⟩

/-! ### Words -/

theorem Operator.symbol_injective {first second : Operator} (same : first.symbol = second.symbol) :
    first = second := by
  revert same
  cases first <;> cases second <;> decide

theorem Comparison.symbol_injective {first second : Comparison} (same : first.symbol = second.symbol) :
    first = second := by
  revert same
  cases first <;> cases second <;> decide

theorem Kind.text_injective {first second : Kind} (same : first.text = second.text) : first = second := by
  revert same
  cases first <;> cases second <;> decide

/-- The names of kinds are single words, -/
theorem Kind.text_letters (kind : Kind) : ∀ c ∈ kind.text.toList, c.isAlphanum = true := by
  cases kind <;> simp [text]

/-- and so are those of roles. -/
theorem Role.text_letters (role : Role) : ∀ c ∈ role.text.toList, c.isAlphanum = true := by
  cases role with
  | index position =>
    intro c held
    rw [text, Nat.toString_eq_repr, Nat.toList_repr] at held
    have digit : c.isDigit = true := Nat.isDigit_of_mem_toDigits (by decide) (by decide) held
    simp [Char.isAlphanum, digit]
  | _ => simp [text]

/-! ### Trees by their children -/

/-- The names are made of such letters only, and no constant is a NaN. -/
def Expr.Printable (letter : Char → Prop) : Expr → Prop
  | .constant number => number.meaning ≠ .nan
  | .var name => ∀ c ∈ name.toList, letter c
  | .binary _ lhs rhs => lhs.Printable letter ∧ rhs.Printable letter

mutual

/-- The names are made of such letters only, and no constant is a NaN. -/
def Stmt.Printable (letter : Char → Prop) : Stmt → Prop
  | .block body => BodyPrintable letter body
  | .assign name value => (∀ c ∈ name.toList, letter c) ∧ value.Printable letter
  | .branch _ lhs rhs ifTrue ifFalse =>
    lhs.Printable letter ∧ rhs.Printable letter ∧ ifTrue.Printable letter ∧ ifFalse.Printable letter
  | .loop body => body.Printable letter
  | .exit => True
  | .print value => value.Printable letter

/-- This holds of every statement of a sequence. -/
def Stmt.BodyPrintable (letter : Char → Prop) : List Stmt → Prop
  | [] => True
  | stmt :: rest => stmt.Printable letter ∧ BodyPrintable letter rest

end

private theorem Stmt.bodyPrintable_iff {letter : Char → Prop} {body : List Stmt} :
    BodyPrintable letter body ↔ ∀ stmt ∈ body, stmt.Printable letter := by
  induction body with
  | nil => simp [BodyPrintable]
  | cons stmt rest inside => simp [BodyPrintable, inside]

namespace Node

/-- The names are made of such letters only, and no constant is a NaN. -/
def Printable (letter : Char → Prop) : Node → Prop
  | stmt statement => statement.Printable letter
  | expr expression => expression.Printable letter

variable {letter : Char → Prop} {root first second : Node}

/-- What holds of a tree holds of the trees below it. -/
theorem Printable.children (printable : root.Printable letter) :
    ∀ child ∈ root.children, child.2.Printable letter := by
  match root with
  | stmt (.block body) =>
    intro child held
    obtain ⟨position, bound, rfl⟩ := List.mem_mapIdx.mp held
    exact Stmt.bodyPrintable_iff.mp printable _ (List.getElem_mem bound)
  | stmt (.assign _ value) => simpa [Node.children, Printable] using printable.2
  | stmt (.branch _ lhs rhs ifTrue ifFalse) => simpa [Node.children, Printable, Stmt.Printable] using printable
  | stmt (.loop body) => simpa [Node.children, Printable, Stmt.Printable] using printable
  | stmt .exit => simp [Node.children]
  | stmt (.print value) => simpa [Node.children, Printable, Stmt.Printable] using printable
  | expr (.constant _) => simp [Node.children]
  | expr (.var _) => simp [Node.children]
  | expr (.binary _ lhs rhs) => simpa [Node.children, Printable, Expr.Printable] using printable

/-- The children of a block are its statements. -/
theorem block_children (body : List Stmt) : (stmt (.block body)).children.map (·.2) = body.map stmt :=
  List.ext_getElem (by simp [Node.children]) (by simp [Node.children])

/-- A child is smaller than its parent, -/
theorem sizeOf_child_lt (root : Node) : ∀ child ∈ root.children, sizeOf child.2 < sizeOf root := by
  match root with
  | stmt (.block body) =>
    intro child held
    obtain ⟨position, bound, rfl⟩ := List.mem_mapIdx.mp held
    have smaller := List.sizeOf_lt_of_mem (List.getElem_mem bound)
    simp only [stmt.sizeOf_spec, Stmt.block.sizeOf_spec]
    omega
  | stmt (.branch _ lhs rhs ifTrue ifFalse) =>
    simp [Node.children]
    omega
  | stmt (.assign _ _) | stmt (.loop _) | stmt .exit | stmt (.print _) => simp [Node.children]
  | expr (.constant _) | expr (.var _) => simp [Node.children]
  | expr (.binary _ lhs rhs) =>
    simp [Node.children]
    omega

/-- so there is an induction over a tree through the children of its nodes. -/
theorem by_children {Holds : Node → Prop}
    (step : ∀ root : Node, (∀ child ∈ root.children, Holds child.2) → Holds root) (root : Node) :
    Holds root :=
  step root fun child _held => by_children step child.2
termination_by sizeOf root
decreasing_by exact sizeOf_child_lt root child _held

/-! ### Labels -/

/-- A node is its kind, what it holds besides its children, and its children. -/
theorem eq_of_parts (real : first.Printable letter) (kind : first.kind = second.kind)
    (detail : first.detail? = second.detail?)
    (children : first.children.map (·.2) = second.children.map (·.2)) : first = second := by
  match first, second, kind with
  | stmt (.block body), stmt (.block body'), _ =>
    rw [block_children, block_children] at children
    have same : body = body' := (List.map_inj_right fun _ _ equal => by cases equal; rfl).mp children
    rw [same]
  | stmt (.assign _ _), stmt (.assign _ _), _ => simp_all [detail?, Node.children]
  | stmt (.branch _ _ _ _ _), stmt (.branch _ _ _ _ _), _ =>
    have symbol := Comparison.symbol_injective (Option.some.inj detail)
    simp_all [Node.children]
  | stmt (.loop _), stmt (.loop _), _ => simp_all [Node.children]
  | stmt .exit, stmt .exit, _ => rfl
  | stmt (.print _), stmt (.print _), _ => simp_all [Node.children]
  | expr (.constant _), expr (.constant _), _ =>
    have number := Number.write_injective numberStyle_readable real (Option.some.inj detail)
    rw [number]
  | expr (.var _), expr (.var _), _ => simp_all [detail?]
  | expr (.binary _ _ _), expr (.binary _ _ _), _ =>
    have symbol := Operator.symbol_injective (Option.some.inj detail)
    simp_all [Node.children]
  | stmt statement, expr expression, kind => cases statement <;> cases expression <;> cases kind
  | expr expression, stmt statement, kind => cases statement <;> cases expression <;> cases kind

/-- A label behind the name of the kind: the detail in parentheses, if there is one. -/
def detailText : Option String → List Char
  | some detail => ' ' :: '(' :: (detail.toList ++ [')'])
  | none => []

/-- It does not go on with the word before it, -/
theorem detailText_head (detail : Option String) :
    ∀ c ∈ (detailText detail).head?, c.isAlphanum = false := by
  cases detail <;> simp [detailText]

/-- and it shows all of the detail, whatever parentheses and blanks are in it. -/
private theorem detailText_injective {detail detail' : Option String}
    (same : detailText detail = detailText detail') : detail = detail' := by
  cases detail <;> cases detail' <;> simp_all [detailText, String.toList_inj]

theorem toList_label (node : Node) :
    node.label.toList = node.kind.text.toList ++ detailText node.detail? := by
  unfold label
  split <;> simp [*, detailText]

/-- A label tells the kind of a node and what it holds. -/
theorem label_injective (same : first.label = second.label) :
    first.kind = second.kind ∧ first.detail? = second.detail? := by
  have texts := congrArg String.toList same
  rw [toList_label, toList_label] at texts
  obtain ⟨kinds, details⟩ := split_unique first.kind.text_letters second.kind.text_letters
    (detailText_head _) (detailText_head _) texts
  exact ⟨Kind.text_injective (String.toList_inj.mp kinds), detailText_injective details⟩

/-- The details are spelled with the letters of the names, figures, other letters and a few signs. -/
theorem detail_characters {Allowed : Char → Prop} (names : ∀ name ∈ root.name?, ∀ c ∈ name.toList, Allowed c)
    (letters : ∀ c : Char, c.isAlphanum = true → Allowed c) (signs : ∀ c ∈ ".+-*/^=<>!".toList, Allowed c) :
    ∀ detail ∈ root.detail?, ∀ c ∈ detail.toList, Allowed c := by
  match root with
  | stmt (.assign _ _) => exact names
  | stmt (.branch comparison _ _ _ _) =>
    have sign : ∀ c ∈ comparison.symbol.toList, c ∈ ".+-*/^=<>!".toList := by
      cases comparison <;> simp [Comparison.symbol]
    simpa [detail?] using fun c held => signs c (sign c held)
  | stmt (.block _) | stmt (.loop _) | stmt .exit | stmt (.print _) => simp [detail?]
  | expr (.constant number) =>
    have word : ∀ word ∈ [numberStyle.nan, numberStyle.infinity, numberStyle.minusInfinity],
        ∀ c ∈ word.toList, c.isAlphanum = true ∨ c = '-' := by simp [numberStyle]
    intro detail held
    cases held
    refine Number.write_characters (fun c digit => letters c (by simp [Char.isAlphanum, digit])) ?_ ?_
    · intro c held
      have known : c = '.' ∨ c = '-' ∨ c = 'e' := by simpa [numberStyle] using held
      rcases known with rfl | rfl | rfl
      · exact signs _ (by decide)
      · exact signs _ (by decide)
      · exact letters _ (by decide)
    · intro text held c member
      exact (word text held c member).elim (letters c) fun sign => signs c (by simp [sign])
  | expr (.var _) => exact names
  | expr (.binary operator _ _) =>
    have sign : ∀ c ∈ operator.symbol.toList, c ∈ ".+-*/^=<>!".toList := by
      cases operator <;> simp [Operator.symbol]
    simpa [detail?] using fun c held => signs c (sign c held)

/-- The name that a node holds is spelled with the letters of the tree. -/
theorem Printable.names (printable : root.Printable letter) : ∀ name ∈ root.name?, ∀ c ∈ name.toList, letter c := by
  match root with
  | stmt (.assign _ _) => simpa [name?] using printable.1
  | expr (.var _) => simpa [name?, Printable, Expr.Printable] using printable
  | stmt (.block _) | stmt (.branch _ _ _ _ _) | stmt (.loop _) | stmt .exit | stmt (.print _) => simp [name?]
  | expr (.constant _) | expr (.binary _ _ _) => simp [name?]

end Node
end LoopLang
