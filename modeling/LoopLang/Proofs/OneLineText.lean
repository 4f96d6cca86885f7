import LoopLang.Node.OneLine
import LoopLang.Proofs.Labels

/-! The one-line form shows its tree and no other one, as long as no name has a closing parenthesis. Then a label
ends where it seems to end: at the parenthesis behind its detail, or where the name of its kind does. Behind it
there is an opening brace if the node has children. Otherwise there is a comma, a closing brace or nothing, as there
is behind a whole tree. So every tree in a text is found from its beginning, whatever follows it. -/
namespace LoopLang

namespace Node
/-- A child behind its role. -/
def childText (child : Role × Node) : List Char := child.1.text.toList ++ ':' :: ' ' :: child.2.oneLine.toList

/-- Children behind others, each after a comma. -/
def siblingsText (siblings : List (Role × Node)) : List Char :=
  siblings.flatMap fun child => ',' :: ' ' :: childText child

/-- The children of a node in braces, if there are any. -/
def bracesText : List (Role × Node) → List Char
  | [] => []
  | child :: siblings => ' ' :: '\x7b' :: ' ' :: (childText child ++ siblingsText siblings ++ [' ', '\x7d'])

private theorem toList_oneLine (root : Node) :
    root.oneLine.toList = root.label.toList ++ bracesText root.children := by
  have joined (child : List Char) (siblings : List (List Char)) :
      [',', ' '].intercalate (child :: siblings) = child ++ siblings.flatMap fun sibling => ',' :: ' ' :: sibling := by
    induction siblings generalizing child with
    | nil => simp
    | cons next siblings later => simp [List.intercalate_cons_cons, later]
  rw [oneLine_eq, String.toList_append]
  cases root.children with
  | nil => simp [bracesText]
  | cons child siblings => simp [bracesText, siblingsText, childText, childLine, joined, List.flatMap_map]

/-! ### What stands behind a tree -/

/-- The text behind a tree: nothing, the next sibling, or the end of its parent. -/
inductive Closes : List Char → Prop where
  | nothing : Closes []
  | comma : Closes (',' :: more)
  | brace : Closes (' ' :: '\x7d' :: more)

/-- The text behind a label: the children of the node, or what stands behind the tree. -/
inductive Behind : List Char → Prop where
  | opens : Behind (' ' :: '\x7b' :: more)
  | closes (ends : Closes more) : Behind more

section
variable {rest rest' tail tail' : List Char}

private theorem behind_braces (children : List (Role × Node)) (closes : Closes rest) :
    Behind (bracesText children ++ rest) := by
  cases children with
  | nil => exact .closes closes
  | cons child siblings => exact .opens

private theorem closes_siblings (siblings : List (Role × Node)) (rest : List Char) :
    Closes (siblingsText siblings ++ ' ' :: '\x7d' :: rest) := by
  cases siblings with
  | nil => exact .brace
  | cons child siblings => exact .comma

/-- Behind a label no word goes on, -/
theorem Behind.head (behind : Behind tail) : ∀ c ∈ tail.head?, c.isAlphanum = false := by
  rcases behind with _ | (_ | _ | _) <;> simp

/-- and no detail begins. -/
theorem Behind.not_detail (behind : Behind tail) (detail : String) (more : List Char) :
    tail ≠ detailText (some detail) ++ more := by
  rcases behind with _ | (_ | _ | _) <;> simp [detailText]

/-- The detail in a label ends at the first closing parenthesis. -/
private theorem detail_of_text {detail detail' : Option String}
    (free : ∀ text ∈ detail, ')' ∉ text.toList)
    (free' : ∀ text ∈ detail', ')' ∉ text.toList) (behind : Behind tail) (behind' : Behind tail')
    (same : detailText detail ++ tail = detailText detail' ++ tail') : detail = detail' ∧ tail = tail' := by
  cases detail with
  | none =>
    cases detail' with
    | none => exact ⟨rfl, same⟩
    | some text' => exact absurd same (behind.not_detail _ _)
  | some text =>
    cases detail' with
    | none => exact absurd same.symm (behind'.not_detail _ _)
    | some text' =>
      have inside (text : String) (free : ')' ∉ text.toList) : ∀ c ∈ text.toList, (c != ')') = true := by
        rintro c held
        rw [bne_iff_ne]
        rintro rfl
        exact free held
      simp only [detailText, List.cons_append, List.append_assoc, List.cons.injEq, true_and] at same
      obtain ⟨texts, tails⟩ := split_unique (inside text (free text rfl)) (inside text' (free' text' rfl))
        (by simp) (by simp) same
      exact ⟨congrArg some (String.toList_inj.mp texts), (List.cons.inj tails).2⟩

end

/-! ### Trees -/

section
variable {first second : Node} {letter : Char → Prop} {rest rest' : List Char}

/-- The text of a tree shows where it ends, and which tree it is. -/
def Unambiguous (letter : Char → Prop) (root : Node) : Prop :=
  ∀ (other : Node) (rest rest' : List Char), other.Printable letter → Closes rest → Closes rest' →
    root.oneLine.toList ++ rest = other.oneLine.toList ++ rest' → root = other ∧ rest = rest'

/-- A child ends where its tree does. -/
private theorem child_of_text {child child' : Role × Node} (own : child.2.Unambiguous letter)
    (printable : child'.2.Printable letter) (closes : Closes rest) (closes' : Closes rest')
    (same : childText child ++ rest = childText child' ++ rest') : child.2 = child'.2 ∧ rest = rest' := by
  have colon (more : List Char) : ∀ c ∈ (':' :: more).head?, c.isAlphanum = false := by
    rintro c ⟨⟩
    rfl
  simp only [childText, List.append_assoc, List.cons_append] at same
  obtain ⟨-, behind⟩ := split_unique child.1.text_letters child'.1.text_letters (colon _) (colon _) same
  exact own _ _ _ printable closes closes' (List.cons.inj (List.cons.inj behind).2).2

/-- A comma goes on with another child, and a brace does not. -/
private theorem siblings_of_text {siblings others : List (Role × Node)}
    (each : ∀ child ∈ siblings, child.2.Unambiguous letter) (printable : ∀ child ∈ others, child.2.Printable letter)
    (same : siblingsText siblings ++ ' ' :: '\x7d' :: rest = siblingsText others ++ ' ' :: '\x7d' :: rest') :
    siblings.map (·.2) = others.map (·.2) ∧ rest = rest' := by
  induction siblings generalizing others with
  | nil =>
    cases others with
    | nil => simpa [siblingsText] using same
    | cons other others => simp [siblingsText] at same
  | cons child siblings later =>
    cases others with
    | nil => simp [siblingsText] at same
    | cons other others =>
      simp only [siblingsText, List.flatMap_cons, List.cons_append, List.append_assoc, List.cons.injEq,
        true_and] at same
      obtain ⟨node, more⟩ := child_of_text (each child (.head _)) (printable other (.head _))
        (closes_siblings siblings rest) (closes_siblings others rest') same
      obtain ⟨nodes, equal⟩ := later (fun child held => each child (.tail _ held))
        (fun child held => printable child (.tail _ held)) more
      exact ⟨by rw [List.map_cons, List.map_cons, node, nodes], equal⟩

/-- The first child stands as all others do, but for the comma before it. -/
private theorem children_of_text {children others : List (Role × Node)}
    (each : ∀ child ∈ children, child.2.Unambiguous letter) (printable : ∀ child ∈ others, child.2.Printable letter)
    (closes : Closes rest) (closes' : Closes rest')
    (same : bracesText children ++ rest = bracesText others ++ rest') :
    children.map (·.2) = others.map (·.2) ∧ rest = rest' := by
  have not_opened {rest more : List Char} (closes : Closes rest) : rest ≠ ' ' :: '\x7b' :: more := by
    rcases closes with _ | _ | _ <;> simp
  cases children with
  | nil =>
    cases others with
    | nil => exact ⟨rfl, same⟩
    | cons other others => exact absurd same (not_opened closes)
  | cons child siblings =>
    cases others with
    | nil => exact absurd same.symm (not_opened closes')
    | cons other others =>
      refine siblings_of_text each printable ?_
      simpa [bracesText, siblingsText] using same

/-- Every tree is recovered from its text, in which kind, detail and children follow each other. -/
theorem unambiguous (apart : ¬ letter ')') (root : Node) (printable : root.Printable letter) :
    root.Unambiguous letter := by
  have free {node : Node} (printable : node.Printable letter) : ∀ text ∈ node.detail?, ')' ∉ text.toList := by
    have named (name : String) (held : name ∈ node.name?) (c : Char) (member : c ∈ name.toList) : c ≠ ')' := by
      rintro rfl
      exact apart (printable.names name held _ member)
    have alphanum (c : Char) (held : c.isAlphanum = true) : c ≠ ')' := by
      rintro rfl
      cases held
    have characters : ∀ text ∈ node.detail?, ∀ c ∈ text.toList, c ≠ ')' :=
      detail_characters named alphanum (by simp)
    exact fun text held parenthesis => characters text held _ parenthesis rfl
  induction root using by_children with
  | step root below =>
    intro other rest rest' printable' closes closes' same
    rw [toList_oneLine, toList_oneLine, toList_label, toList_label] at same
    simp only [List.append_assoc] at same
    have behind := behind_braces root.children closes
    have behind' := behind_braces other.children closes'
    have word (node : Node) {tail : List Char} (behind : Behind tail) :
        ∀ c ∈ (detailText node.detail? ++ tail).head?, c.isAlphanum = false := by
      cases node.detail? with
      | none => exact behind.head
      | some text => simp [detailText]
    obtain ⟨kind, same⟩ := split_unique root.kind.text_letters other.kind.text_letters (word root behind)
      (word other behind') same
    obtain ⟨detail, same⟩ := detail_of_text (free printable) (free printable') behind behind' same
    have each : ∀ child ∈ root.children, child.2.Unambiguous letter :=
      fun child held => below child held (printable.children child held)
    obtain ⟨children, equal⟩ := children_of_text each printable'.children closes closes' same
    exact ⟨eq_of_parts printable (Kind.text_injective (String.toList_inj.mp kind)) detail children, equal⟩

/-- Two trees have the same one-line form exactly if they are the same tree. The names may be spelled with any
letters but the closing parenthesis; all NaNs look the same. -/
theorem oneLine_eq_iff (apart : ¬ letter ')') (printable : first.Printable letter)
    (printable' : second.Printable letter) : first.oneLine = second.oneLine ↔ first = second := by
  refine ⟨fun same => ?_, fun same => same ▸ rfl⟩
  exact (unambiguous apart first printable second [] [] printable' .nothing .nothing (by rw [same])).1

/-- With names of letters, figures and underscores: the exit stands in the inner block or behind it. -/
theorem exit_told_by_line :
    (stmt (.block [.block [.assign "x_1" (.constant ⟨0⟩), .exit]])).oneLine ≠
      (stmt (.block [.block [.assign "x_1" (.constant ⟨0⟩)], .exit])).oneLine := by
  have number : (⟨0⟩ : Number).meaning ≠ .nan := by decide
  have name : ∀ c ∈ "x_1".toList, c.isAlphanum = true ∨ c = '_' := by simp
  let letter (c : Char) : Prop := c.isAlphanum = true ∨ c = '_'
  have apart : ¬ letter ')' := by simp [letter]
  refine (oneLine_eq_iff apart ?_ ?_).not.mpr (by decide)
  · exact ⟨⟨⟨name, number⟩, trivial, trivial⟩, trivial⟩
  · exact ⟨⟨⟨name, number⟩, trivial⟩, trivial, trivial⟩

/-- With a closing parenthesis in its name one variable can look like two. -/
example : (stmt (.block [.print (.var "x) \x7d, 1: Print \x7b value: Variable (y")])).oneLine =
    (stmt (.block [.print (.var "x"), .print (.var "y")])).oneLine := by decide +kernel

end

end Node
end LoopLang
