import Std.Data.ExtTreeMap
import LoopLang.Expr.Basic

/-! The variables of a running program. A store is a finite map from names to doubles: the last
write to a name wins, no write removes a name, and its listing is ordered by the names' characters.
Stores with the same bindings are equal, whatever writes led to them. -/
namespace LoopLang

/-- The bound variables with their values. -/
structure Store where
  bindings : Std.ExtTreeMap String Float

namespace Store

/-- No variable is bound. -/
def empty : Store := ⟨∅⟩

instance : EmptyCollection Store := ⟨empty⟩
instance : Inhabited Store := ⟨empty⟩

/-- The value of a variable, if it is bound. -/
def get? (store : Store) (name : String) : Option Float := store.bindings[name]?

/-- The value of a variable, for a program that reads it. -/
def lookup (store : Store) (name : String) : Except RunError Float :=
  match store.get? name with
  | some value => .ok value
  | none => .error (.undefinedVariable name)

/-- Binds a name to a value. -/
def insert (store : Store) (name : String) (value : Float) : Store :=
  ⟨store.bindings.insert name value⟩

/-- Binds a name and hands back the value it had before. -/
def set (store : Store) (name : String) (value : Float) : Option Float × Store :=
  (store.get? name, store.insert name value)

/-- Whether a name is bound. -/
def contains (store : Store) (name : String) : Bool := (store.get? name).isSome

/-- The number of bound names. -/
def size (store : Store) : Nat := store.bindings.size

/-- Whether no name is bound. -/
def isEmpty (store : Store) : Bool := store.size == 0

/-- Each bound name once with its value, in increasing order of names. -/
def toList (store : Store) : List (String × Float) := store.bindings.toList

/-- Writes the pairs in order, so that a later pair wins. -/
def insertAll (store : Store) (pairs : List (String × Float)) : Store :=
  pairs.foldl (fun store pair => store.insert pair.1 pair.2) store

/-- The store written by the pairs alone. -/
def ofList (pairs : List (String × Float)) : Store := insertAll ∅ pairs

/-- Whether two stores bind the same names to values that compare equal as doubles: the two zeros
do, and a NaN does not even equal itself. -/
def same (first second : Store) : Bool :=
  first.size == second.size &&
    first.toList.all fun (name, value) =>
      match second.get? name with
      | some other => value == other
      | none => false

@[simp] theorem get_empty (name : String) : (∅ : Store).get? name = none :=
  Std.ExtTreeMap.getElem?_empty

/-- A program that reads a variable gets the value that is bound, -/
theorem lookup_eq_ok_iff {store : Store} {name : String} {value : Float} :
    store.lookup name = .ok value ↔ store.get? name = some value := by
  rw [lookup]
  cases store.get? name <;> simp

/-- and misses it if there is none. -/
theorem lookup_eq_error_iff {store : Store} {name : String} {cause : RunError} :
    store.lookup name = .error cause ↔ store.get? name = none ∧ cause = .undefinedVariable name := by
  rw [lookup]
  cases store.get? name <;> simp [eq_comm]

/-- A write is seen under its own name and under no other. -/
theorem get_insert (store : Store) (name probe : String) (value : Float) :
    (store.insert name value).get? probe = if name = probe then some value else store.get? probe := by
  simp [get?, insert, Std.ExtTreeMap.getElem?_insert]

/-- Writes follow one another. -/
theorem insertAll_append (store : Store) (pairs more : List (String × Float)) :
    store.insertAll (pairs ++ more) = (store.insertAll pairs).insertAll more := List.foldl_append

/-- Of several writes the last one under a name is seen. -/
theorem get_insertAll (store : Store) (pairs : List (String × Float)) (name : String) :
    (store.insertAll pairs).get? name = (pairs.reverse.lookup name).or (store.get? name) := by
  induction pairs generalizing store with
  | nil => rfl
  | cons pair rest ih =>
    obtain ⟨first, value⟩ := pair
    have seen : (store.insert first value).get? name =
        ([(first, value)].lookup name).or (store.get? name) := by
      rw [get_insert, List.lookup_cons]
      by_cases same : first = name
      · simp [same]
      · simp [same, beq_false_of_ne (Ne.symm same)]
    rw [insertAll, List.foldl_cons, ← insertAll, ih, seen, List.reverse_cons, List.lookup_append,
      Option.or_assoc]

/-- Where zeros are written under some names, every one of these has the value zero. -/
theorem get_insertAll_zeros (store : Store) (names : List String) (name : String) :
    (store.insertAll (names.map fun name => (name, 0.0))).get? name =
      if name ∈ names then some 0.0 else store.get? name := by
  induction names generalizing store with
  | nil => simp [insertAll]
  | cons first rest ih =>
    rw [List.map_cons, insertAll, List.foldl_cons, ← insertAll, ih, get_insert]
    by_cases later : name ∈ rest
    · simp [later]
    · simp [later, eq_comm]

/-- What no write touches stays as it was. -/
theorem get_insertAll_untouched {pairs : List (String × Float)} {name : String} (store : Store)
    (untouched : ∀ value, (name, value) ∉ pairs) :
    (store.insertAll pairs).get? name = store.get? name := by
  have never : pairs.reverse.lookup name = none := by
    rw [List.lookup_eq_none_iff]
    rintro ⟨target, value⟩ held
    refine bne_iff_ne.mpr fun same => untouched value ?_
    exact same ▸ List.mem_reverse.mp held
  rw [get_insertAll, never, Option.none_or]

/-- A bound variable stays bound. -/
theorem bound_insertAll {store : Store} {name : String} (pairs : List (String × Float))
    (bound : (store.get? name).isSome) : ((store.insertAll pairs).get? name).isSome := by
  rw [get_insertAll, Option.isSome_or, bound, Bool.or_true]

/-- Stores are equal when they answer every lookup alike. -/
@[ext] theorem ext {first second : Store}
    (agree : ∀ name, first.get? name = second.get? name) : first = second := by
  cases first with
  | mk one =>
    cases second with
    | mk two => exact congrArg mk (Std.ExtTreeMap.ext_getElem? fun {name} => agree name)

end Store
end LoopLang
