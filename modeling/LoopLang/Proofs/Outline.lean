import LoopLang.Node.Walk
import LoopLang.Proofs.Labels

/-! An outline shows its tree and no other one. Each line tells a depth and a label: the blanks in front end at a
word, a role ends at the first colon behind it, and whatever a name looks like comes later. The depths
then tell the nesting. A tree ends where a line stands no deeper than its root, so the trees below a
node are found one after the other, and an induction over the children of nodes gives the whole tree. -/
namespace LoopLang

/-! ### Lines -/

/-- Lines without newlines are told apart after they have been ended by newlines. -/
private theorem lines_unique {first second : List (List Char)} (all : ∀ line ∈ first, '\n' ∉ line)
    (all' : ∀ line ∈ second, '\n' ∉ line)
    (same : first.flatMap (· ++ ['\n']) = second.flatMap (· ++ ['\n'])) : first = second := by
  induction first generalizing second with
  | nil => cases second <;> simp_all
  | cons line first later =>
    cases second with
    | nil => simp at same
    | cons line' second =>
      simp only [List.flatMap_cons, List.append_assoc, List.singleton_append] at same
      have inside (line : List Char) (free : '\n' ∉ line) : ∀ c ∈ line, (c != '\n') = true := by
        rintro c held
        rw [bne_iff_ne]
        rintro rfl
        exact free held
      obtain ⟨rfl, more⟩ := split_unique (inside line (all line (.head _)))
        (inside line' (all' line' (.head _))) (by simp) (by simp) same
      rw [later (fun line held => all line (.tail _ held)) (fun line held => all' line (.tail _ held))
        (List.cons.inj more).2]

namespace Visit
variable {visit other : Visit}

/-- What a line of the outline tells of a visit: the depth and the label, and not the role. -/
def row (visit : Visit) : Nat × String := (visit.depth, visit.node.label)

/-- The role of a visit, as it stands before the label. -/
def roleText : Option Role → List Char
  | some role => role.text.toList ++ [':', ' ']
  | none => []

theorem toList_line (visit : Visit) : visit.line.toList =
    List.replicate (2 * visit.depth) ' ' ++ (roleText visit.role ++ visit.node.label.toList) := by
  unfold line
  cases visit.role <;> simp [roleText]

/-- The blanks in front end at the role or at the label. -/
theorem not_blank (visit : Visit) :
    ∀ c ∈ (roleText visit.role ++ visit.node.label.toList).head?, (c == ' ') = false := by
  cases visit.role with
  | none =>
    rw [Node.toList_label]
    cases visit.node.kind <;> simp [roleText, Kind.text]
  | some role =>
    have letters := role.text_letters
    rw [roleText]
    cases text : role.text.toList with
    | nil => simp
    | cons c text =>
      have letter := letters c (by simp [text])
      have no_blank : c ≠ ' ' := by
        rintro rfl
        cases letter
      simpa using no_blank

private theorem colon_ends (more : List Char) :
    ∀ c ∈ (':' :: more).head?, c.isAlphanum = false := by
  rintro c ⟨⟩
  rfl

/-- A role before the label does not look like a label: it ends at a colon, and the name of a kind does not. -/
private theorem role_ne_label (role : Role) (more : List Char) (node : Node) :
    roleText (some role) ++ more ≠ node.label.toList := by
  intro same
  rw [roleText, List.append_assoc, List.cons_append, Node.toList_label] at same
  have behind := (split_unique role.text_letters node.kind.text_letters (colon_ends _)
    (Node.detailText_head _) same).2
  unfold Node.detailText at behind
  split at behind
  · cases behind
  · cases behind

/-- Behind the blanks, a line tells the label. A role ends at the first colon, whatever the names are. -/
private theorem label_of_roled {role role' : Option Role} {node node' : Node}
    (same : roleText role ++ node.label.toList = roleText role' ++ node'.label.toList) :
    node.label = node'.label := by
  cases role with
  | none =>
    cases role' with
    | none => exact String.toList_inj.mp same
    | some role' => exact absurd same.symm (role_ne_label role' _ node)
  | some role =>
    cases role' with
    | none => exact absurd same (role_ne_label role _ node')
    | some role' =>
      rw [roleText, roleText, List.append_assoc, List.append_assoc, List.cons_append, List.cons_append] at same
      have behind := (split_unique role.text_letters role'.text_letters (colon_ends _) (colon_ends _) same).2
      exact String.toList_inj.mp (List.cons.inj (List.cons.inj behind).2).2

/-- A line tells the depth and the label. -/
private theorem row_of_line (same : visit.line = other.line) : visit.row = other.row := by
  have texts := congrArg String.toList same
  rw [toList_line, toList_line] at texts
  have blank (count : Nat) : ∀ c ∈ List.replicate count ' ', (c == ' ') = true := by
    intro c held
    rw [List.eq_of_mem_replicate held]
    rfl
  obtain ⟨indent, roled⟩ := split_unique (blank _) (blank _) visit.not_blank other.not_blank texts
  have depth : visit.depth = other.depth := by
    have lengths := congrArg List.length indent
    simp only [List.length_replicate] at lengths
    omega
  rw [row, row, depth, label_of_roled roled]

/-- The lines of a walk tell its rows. -/
private theorem rows_of_lines {visits others : List Visit}
    (same : visits.map (·.line.toList) = others.map (·.line.toList)) :
    visits.map row = others.map row := by
  induction visits generalizing others with
  | nil => cases others <;> simp_all
  | cons visit visits later =>
    cases others with
    | nil => simp at same
    | cons other others =>
      obtain ⟨line, lines⟩ := List.cons.inj same
      rw [List.map_cons, List.map_cons, row_of_line (String.toList_inj.mp line), later lines]

end Visit

/-- A label has no newline in it if the name in it has none, -/
private theorem Node.label_whole {node : Node} (whole : ∀ name ∈ node.name?, '\n' ∉ name.toList) :
    '\n' ∉ node.label.toList := by
  have letter (c : Char) (alphanum : c.isAlphanum = true) : c ≠ '\n' := by
    rintro rfl
    cases alphanum
  have details : ∀ detail ∈ node.detail?, ∀ c ∈ detail.toList, c ≠ '\n' :=
    detail_characters (fun name held c member => ne_of_mem_of_not_mem member (whole name held)) letter (by simp)
  have kind : '\n' ∉ node.kind.text.toList :=
    fun newline => letter _ (node.kind.text_letters _ newline) rfl
  have detail : '\n' ∉ detailText node.detail? := by
    cases text : node.detail? with
    | none => simp [detailText]
    | some detail => simpa [detailText] using fun newline => details detail text _ newline rfl
  rw [toList_label]
  simp [kind, detail]

/-- and then the line of the node has none. -/
theorem Visit.line_whole (visit : Visit) (whole : ∀ name ∈ visit.node.name?, '\n' ∉ name.toList) :
    '\n' ∉ visit.line.toList := by
  have role : '\n' ∉ roleText visit.role := by
    cases visit.role with
    | none => simp [roleText]
    | some role =>
      have word : '\n' ∉ role.text.toList := by
        intro newline
        cases role.text_letters _ newline
      simpa [roleText] using word
  rw [toList_line]
  simp [Node.label_whole whole, role]

/-! ### Trees -/

namespace Node
variable {root first second : Node} {letter : Char → Prop} {depth : Nat} {rest rest' : List (Nat × String)}

/-- What the outline tells of a tree that stands at a depth. -/
def rows (depth : Nat) (root : Node) : List (Nat × String) :=
  (root.walkFrom (fun _ => false) depth none).map Visit.row

/-- The rows do not depend on the role. -/
private theorem walk_rows (depth : Nat) (role : Option Role) (root : Node) :
    (root.walkFrom (fun _ => false) depth role).map Visit.row = root.rows depth := by
  rw [rows, walkFrom_eq, walkFrom_eq _ _ none]
  rfl

private theorem rows_eq (depth : Nat) (root : Node) : root.rows depth =
    (depth, root.label) :: (root.children.map (·.2)).flatMap (rows (depth + 1)) := by
  rw [rows, walkFrom_eq]
  simp [Visit.row, List.map_flatMap, List.flatMap_map, walk_rows]

/-- Rows that do not go on below a depth. -/
def EndsAbove (depth : Nat) (rest : List (Nat × String)) : Prop := ∀ row ∈ rest.head?, row.1 ≤ depth

/-- The rows of a tree show where it ends, and which tree it is. -/
def Legible (root : Node) : Prop :=
  ∀ (other : Node) (depth : Nat) (rest rest' : List (Nat × String)),
    EndsAbove depth rest → EndsAbove depth rest' →
      root.rows depth ++ rest = other.rows depth ++ rest' → root = other ∧ rest = rest'

/-- Trees in front of such rows go on one level below. -/
theorem EndsAbove.forest (ends : EndsAbove depth rest) (nodes : List Node) :
    EndsAbove (depth + 1) (nodes.flatMap (rows (depth + 1)) ++ rest) := by
  cases nodes with
  | nil => exact fun row held => Nat.le_succ_of_le (ends row held)
  | cons node nodes => simp [EndsAbove, rows_eq]

/-- Such rows do not begin with a tree one level below. -/
theorem EndsAbove.not_below {more : List (Nat × String)} {node : Node} (ends : EndsAbove depth rest) :
    rest ≠ node.rows (depth + 1) ++ more := by
  rintro rfl
  have below := ends (depth + 1, node.label) (by simp [rows_eq])
  exact Nat.not_succ_le_self _ below

/-- Trees side by side are told apart if each of them is. For the first one, the siblings behind it are part of
the rest. -/
theorem forest_legible {nodes others : List Node} (each : ∀ node ∈ nodes, node.Legible)
    (ends : EndsAbove depth rest) (ends' : EndsAbove depth rest')
    (same : nodes.flatMap (rows (depth + 1)) ++ rest = others.flatMap (rows (depth + 1)) ++ rest') :
    nodes = others ∧ rest = rest' := by
  induction nodes generalizing others with
  | nil =>
    cases others with
    | nil => exact ⟨rfl, same⟩
    | cons other others =>
      rw [List.flatMap_cons, List.append_assoc] at same
      exact absurd same ends.not_below
  | cons node nodes later =>
    cases others with
    | nil =>
      rw [List.flatMap_cons, List.append_assoc] at same
      exact absurd same.symm ends'.not_below
    | cons other others =>
      rw [List.flatMap_cons, List.append_assoc, List.flatMap_cons, List.append_assoc] at same
      obtain ⟨rfl, more⟩ := each node (.head _) other _ _ _ (ends.forest nodes) (ends'.forest others) same
      obtain ⟨rfl, equal⟩ := later (fun node held => each node (.tail _ held)) more
      exact ⟨rfl, equal⟩

/-- Every tree is recovered from its rows. Behind the root come those of its children, and no later row is as
deep. -/
theorem legible (root : Node) (printable : root.Printable letter) : root.Legible := by
  induction root using by_children with
  | step root below =>
    intro other depth rest rest' ends ends' same
    rw [rows_eq, rows_eq, List.cons_append, List.cons_append, List.cons.injEq, Prod.mk.injEq] at same
    obtain ⟨⟨-, label⟩, same⟩ := same
    obtain ⟨kind, detail⟩ := label_injective label
    have each : ∀ node ∈ root.children.map (·.2), node.Legible := by
      intro node held
      obtain ⟨child, below_root, rfl⟩ := List.mem_map.mp held
      exact below child below_root (printable.children child below_root)
    obtain ⟨children, equal⟩ := forest_legible each ends ends' same
    exact ⟨eq_of_parts printable kind detail children, equal⟩

/-! ### The outline -/

/-- The outline is the lines of the visits, each ended by a newline. -/
theorem toList_outline (root : Node) :
    root.outline.toList = root.visits.flatMap fun visit => visit.line.toList ++ ['\n'] := by
  have folded (visits : List Visit) (text : String) :
      (visits.foldl (fun text visit => (text ++ visit.line).push '\n') text).toList =
        text.toList ++ visits.flatMap fun visit => visit.line.toList ++ ['\n'] := by
    induction visits generalizing text with
    | nil => simp
    | cons visit visits later => simp [later]
  simp [outline, folded]

/-- The names in a tree are spelled with the letters of the tree. -/
private theorem visits_names {letter : Char → Prop} (printable : root.Printable letter)
    (depth : Nat) (role : Option Role) : ∀ visit ∈ root.walkFrom (fun _ => false) depth role,
      ∀ name ∈ visit.node.name?, ∀ c ∈ name.toList, letter c := by
  induction root using by_children generalizing depth role with
  | step root below =>
    rw [walkFrom_eq]
    rintro visit (_ | ⟨_, held⟩)
    · exact printable.names
    · obtain ⟨child, below_root, held⟩ := List.mem_flatMap.mp held
      exact below child below_root (printable.children child below_root) _ _ visit held

/-- No line has a newline in it if no name has one. -/
private theorem line_free (printable : root.Printable (· ≠ '\n')) :
    ∀ visit ∈ root.visits, '\n' ∉ visit.line.toList := by
  intro visit held
  exact visit.line_whole fun name named newline => visits_names printable 0 none visit held name named _ newline rfl

/-- Two trees have the same outline exactly if they are the same tree: they agree in the kinds of all nodes, in
names and operators, in the bits of the constants and in the order of children. A newline in a name could
look like another line, and all NaNs look the same; apart from that the names are arbitrary. -/
theorem outline_eq_iff (printable : first.Printable (· ≠ '\n'))
    (printable' : second.Printable (· ≠ '\n')) : first.outline = second.outline ↔ first = second := by
  refine ⟨fun same => ?_, fun same => same ▸ rfl⟩
  have texts := congrArg String.toList same
  rw [toList_outline, toList_outline] at texts
  have lines : first.visits.map (·.line.toList) = second.visits.map (·.line.toList) := by
    refine lines_unique ?_ ?_ (by simpa [List.flatMap_map] using texts)
    · simpa using line_free printable
    · simpa using line_free printable'
  have rows : first.rows 0 = second.rows 0 := by
    simpa [Node.rows, visits, walk] using Visit.rows_of_lines lines
  exact (legible first printable second 0 [] [] (by simp [EndsAbove]) (by simp [EndsAbove]) (by simp [rows])).1

/-- Two trees with the same labels in the same order, and with a name that looks like another line. Only the
place of the exit tells them apart, and their outlines show it. -/
theorem similar_outlines_differ :
    (stmt (.block [.block [.assign "x)  1: LoopExit (" (.constant ⟨0⟩)], .exit])).outline ≠
      (stmt (.block [.block [.assign "x)  1: LoopExit (" (.constant ⟨0⟩), .exit]])).outline := by
  have number : (⟨0⟩ : Number).meaning ≠ .nan := by decide
  have name : ∀ c ∈ "x)  1: LoopExit (".toList, c ≠ '\n' := by simp
  refine (outline_eq_iff ?_ ?_).not.mpr (by decide)
  · exact ⟨⟨⟨name, number⟩, trivial⟩, trivial, trivial⟩
  · exact ⟨⟨⟨name, number⟩, trivial, trivial⟩, trivial⟩

end Node
end LoopLang
