import LoopLang.Java.Program
import Mathlib.Data.Finset.Card

/-! The name of the parameter. A search for a name that is not taken puts one underscore after another behind
a name and looks again. However many such names are taken, it stops at the first one that is not, and it never
takes more underscores to get there than there are taken names. -/
namespace LoopLang.Java

/-- A name with so many underscores behind it. -/
def underscored (name : String) (count : Nat) : String := name ++ String.ofList (List.replicate count '_')

section
variable {taken : List String} {name : String}

theorem toList_underscored (name : String) (count : Nat) :
    (underscored name count).toList = name.toList ++ List.replicate count '_' := by
  simp [underscored]

@[simp] theorem underscored_zero (name : String) : underscored name 0 = name := by
  simp [underscored]

private theorem underscored_push (name : String) (count : Nat) :
    underscored (name.push '_') count = underscored name (count + 1) := by
  refine String.toList_injective ?_
  simp [toList_underscored, List.replicate_succ]

/-- More underscores make another name. -/
private theorem underscored_injective (name : String) : Function.Injective (underscored name) := by
  intro count count' same
  have lists := congrArg String.toList same
  rw [toList_underscored, toList_underscored] at lists
  simpa using congrArg List.length (List.append_cancel_left lists)

/-- The search stops at a name that is not taken, -/
private theorem freeName_of_free (free : name ∉ taken) : freeName taken name = name := by
  rw [freeName, if_neg (by simpa using free)]

/-- and at a taken one it puts an underscore behind it. -/
private theorem freeName_of_taken (held : name ∈ taken) :
    freeName taken name = freeName taken (name.push '_') := by
  rw [freeName, if_pos (by simpa using held)]

/-- The search finds a name that is not taken, and has seen that all before it are. After each round what is left
of it starts an underscore further on. -/
theorem freeName_is_first (taken : List String) (name : String) : ∃ count,
    freeName taken name = underscored name count ∧ underscored name count ∉ taken ∧
      ∀ fewer < count, underscored name fewer ∈ taken := by
  induction name using freeName.induct taken with
  | case1 name contained found =>
    have held : name ∈ taken := List.contains_iff_mem.mp contained
    obtain ⟨count, ends, free, passed⟩ := found
    rw [underscored_push] at ends free
    refine ⟨count + 1, (freeName_of_taken held).trans ends, free, fun fewer less => ?_⟩
    cases fewer with
    | zero => simpa using held
    | succ fewer => exact underscored_push name fewer ▸ passed fewer (Nat.lt_of_succ_lt_succ less)
  | case2 name missing =>
    have free : name ∉ taken := fun held => missing (List.contains_iff_mem.mpr held)
    exact ⟨0, by simp [freeName_of_free free], by simpa using free, by simp⟩

/-- Different numbers of underscores make different names, so the search passes no more of them than there are taken
names. -/
private theorem passed_le_card {count : Nat}
    (passed : ∀ fewer < count, underscored name fewer ∈ taken) :
    count ≤ taken.toFinset.card := by
  calc count = (Finset.range count).card := (Finset.card_range count).symm
    _ ≤ taken.toFinset.card := Finset.card_le_card_of_injOn (underscored name)
        (fun fewer held => by simpa using passed fewer (Finset.mem_range.mp held))
        (underscored_injective name).injOn

end
end LoopLang.Java

namespace LoopLang.Stmt

/-- Whatever names are taken, the parameter gets the shortest free one: `args` with so many underscores behind it that
the name is not taken, while with any smaller number it is. There are never more underscores than taken names. -/
theorem parameter_is_shortest_free (names : List String) : ∃ count ≤ names.toFinset.card,
    freeParameter names = Java.underscored "args" count ∧ freeParameter names ∉ names ∧
      ∀ fewer < count, Java.underscored "args" fewer ∈ names := by
  obtain ⟨count, ends, free, passed⟩ := Java.freeName_is_first names "args"
  rw [freeParameter, ends]
  exact ⟨count, Java.passed_le_card passed, rfl, free, passed⟩

/-- The bound is reached, and a gap ends the search. -/
example : freeParameter ["args_", "args"] = "args__" ∧ freeParameter ["args", "x", "args__"] = "args_" := by
  decide +kernel

end LoopLang.Stmt
