import LoopLang.Proofs.Doubles
import LoopLang.Store
import Mathlib.Data.Finset.Card

/-! Stores and the writes that led to them. However a store came about, every answer it gives depends on the last
write to each name alone, and a name that was never written is unbound. So two stores compare equal if the last writes
to all names do as doubles, whatever the order of the writes was and whatever they replaced. -/
namespace LoopLang.Store

/-- A store and the writes that have led to it: from nothing or from a list of pairs, by binding names, with the
replaced value handed back or not. -/
inductive Written : Store → List (String × Float) → Prop where
  | empty : Written ∅ []
  | collected (pairs : List (String × Float)) : Written (ofList pairs) pairs
  | bound (before : Written store writes) (name : String) (value : Float) :
      Written (store.insert name value) (writes ++ [(name, value)])
  | replaced (before : Written store writes) (name : String) (value : Float) :
      Written (store.set name value).2 (writes ++ [(name, value)])

/-- One of the writes binds the name to the value, and no later one is to this name. -/
def LastWrite (writes : List (String × Float)) (name : String) (value : Float) : Prop :=
  ∃ before after, writes = before ++ (name, value) :: after ∧ ∀ later ∈ after, later.1 ≠ name

/-- One of the writes is to the name. -/
def Touches (writes : List (String × Float)) (name : String) : Prop := ∃ write ∈ writes, write.1 = name

/-! ### Single names -/

section
variable {store : Store} {writes : List (String × Float)} {name : String} {value : Float}

/-- Only the writes matter, not the way in which they were made. -/
theorem Written.eq_insertAll (written : Written store writes) : store = insertAll ∅ writes := by
  induction written with
  | empty => rfl
  | collected pairs => rfl
  | bound _ name value ih | replaced _ name value ih =>
    rw [insertAll_append, ← ih]
    rfl

private theorem lookup_reverse_eq_some_iff :
    writes.reverse.lookup name = some value ↔ LastWrite writes name value := by
  rw [List.lookup_eq_some_iff]
  constructor
  · rintro ⟨after, before, split, apart⟩
    refine ⟨before.reverse, after.reverse, by simpa using congrArg List.reverse split, fun later held same => ?_⟩
    simpa [same] using apart later (List.mem_reverse.mp held)
  · rintro ⟨before, after, rfl, apart⟩
    refine ⟨after.reverse, before.reverse, by simp, fun later held => ?_⟩
    simpa using (apart later (List.mem_reverse.mp held)).symm

private theorem lookup_reverse_eq_none_iff :
    writes.reverse.lookup name = none ↔ ¬ Touches writes name := by
  rw [List.lookup_eq_none_iff, Touches]
  constructor
  · rintro apart ⟨write, held, same⟩
    simpa [same] using apart write (List.mem_reverse.mpr held)
  · intro untouched write held
    exact bne_iff_ne.mpr fun same => untouched ⟨write, List.mem_reverse.mp held, same.symm⟩

/-- A name has the value that was written last, -/
theorem Written.get_eq_some_iff (written : Written store writes) :
    store.get? name = some value ↔ LastWrite writes name value := by
  rw [written.eq_insertAll, get_insertAll, get_empty, Option.or_none, lookup_reverse_eq_some_iff]

/-- and no value if it was never written. -/
theorem Written.get_eq_none_iff (written : Written store writes) : store.get? name = none ↔ ¬ Touches writes name := by
  rw [written.eq_insertAll, get_insertAll, get_empty, Option.or_none, lookup_reverse_eq_none_iff]

theorem Written.contains_iff (written : Written store writes) : store.contains name = true ↔ Touches writes name := by
  rw [contains, Option.isSome_iff_ne_none, ne_eq, written.get_eq_none_iff, not_not]

/-! ### All names -/

private theorem mem_toList : (name, value) ∈ store.toList ↔ store.get? name = some value :=
  Std.ExtTreeMap.mem_toList_iff_getElem?_eq_some

/-- The listing is in the order of names, none of which comes twice. -/
theorem toList_increasing (store : Store) : store.toList.Pairwise fun first second => first.1 < second.1 := by
  have ordered : store.toList.Pairwise fun first second => compare first.1 second.1 = .lt :=
    Std.ExtTreeMap.ordered_keys_toList
  exact ordered.imp fun increasing => compareOfLessAndEq_eq_lt.mp increasing

/-- The bound names. -/
def names (store : Store) : Finset String := (store.toList.map Prod.fst).toFinset

theorem mem_names : name ∈ store.names ↔ store.contains name = true := by
  simp [names, mem_toList, contains, Option.isSome_iff_exists]

theorem size_eq_card (store : Store) : store.size = store.names.card := by
  have once : (store.toList.map Prod.fst).Nodup := by
    rw [toList, Std.ExtTreeMap.map_fst_toList_eq_keys]
    exact Std.ExtTreeMap.nodup_keys
  rw [names, List.toFinset_card_of_nodup once, List.length_map, toList, Std.ExtTreeMap.length_toList, size]

end

/-! ### Two stores -/

section
variable {first second : Store}

/-- The comparison looks up the bindings of the first store in the second one. -/
private theorem same_eq_true_iff : first.same second = true ↔ first.size = second.size ∧
    ∀ name value, first.get? name = some value →
      ∃ value', second.get? name = some value' ∧ (value == value') = true := by
  rw [same, Bool.and_eq_true, beq_iff_eq, List.all_eq_true]
  refine and_congr_right fun _ => ?_
  constructor
  · intro all name value bound
    have here := all (name, value) (mem_toList.mpr bound)
    cases found : second.get? name with
    | none => simp [found] at here
    | some value' => exact ⟨value', rfl, by simpa [found] using here⟩
  · rintro all ⟨name, value⟩ listed
    obtain ⟨value', found, equal⟩ := all name value (mem_toList.mp listed)
    simpa [found] using equal

/-- Stores compare equal if they bind the same names to values that do. As many names, all of them bound in the
other store, are the same names. -/
theorem same_iff : first.same second = true ↔ first.names = second.names ∧
    ∀ name value value', first.get? name = some value → second.get? name = some value' → (value == value') = true := by
  have bound (store : Store) (name : String) : name ∈ store.names ↔ ∃ value, store.get? name = some value := by
    rw [mem_names, contains, Option.isSome_iff_exists]
  rw [same_eq_true_iff, size_eq_card, size_eq_card]
  constructor
  · rintro ⟨sizes, found⟩
    have inside : first.names ⊆ second.names := by
      intro name held
      obtain ⟨value, here⟩ := (bound first name).mp held
      obtain ⟨value', there, -⟩ := found name value here
      exact (bound second name).mpr ⟨value', there⟩
    refine ⟨Finset.eq_of_subset_of_card_le inside sizes.ge, fun name value value' here there => ?_⟩
    obtain ⟨other, found_there, equal⟩ := found name value here
    rw [there, Option.some.injEq] at found_there
    rwa [found_there]
  · rintro ⟨names, equal⟩
    refine ⟨congrArg Finset.card names, fun name value here => ?_⟩
    have held : name ∈ second.names := names ▸ (bound first name).mpr ⟨value, here⟩
    obtain ⟨value', there⟩ := (bound second name).mp held
    exact ⟨value', there, equal name value value' here there⟩

end

/-! ### Answers -/

/-- What a store answers, told by the writes alone. -/
structure Answers (store : Store) (writes : List (String × Float)) : Prop where
  /-- A name has the value that was written last. -/
  get : ∀ name value, store.get? name = some value ↔ LastWrite writes name value
  unbound : ∀ name, store.get? name = none ↔ ¬ Touches writes name
  /-- A program that reads the name gets this value, or misses the variable. -/
  lookup : ∀ name value, store.lookup name = .ok value ↔ LastWrite writes name value
  missing : ∀ name cause, store.lookup name = .error cause ↔
    ¬ Touches writes name ∧ cause = .undefinedVariable name
  contains : ∀ name, store.contains name = true ↔ Touches writes name
  /-- The next write hands back the value that it replaces. -/
  replaced : ∀ name next value, (store.set name next).1 = some value ↔ LastWrite writes name value
  fresh : ∀ name next, (store.set name next).1 = none ↔ ¬ Touches writes name
  /-- Every written name counts once. -/
  size : store.size = (writes.map Prod.fst).toFinset.card
  isEmpty : store.isEmpty = true ↔ (writes.map Prod.fst).toFinset.card = 0
  /-- The listing goes up from name to name, and has the last write to each of them. -/
  increasing : store.toList.Pairwise fun first second => first.1 < second.1
  listed : ∀ name value, (name, value) ∈ store.toList ↔ LastWrite writes name value

section
variable {store other : Store} {writes others : List (String × Float)}

theorem Written.names_eq (written : Written store writes) : store.names = (writes.map Prod.fst).toFinset := by
  ext name
  rw [mem_names, written.contains_iff, Touches, List.mem_toFinset, List.mem_map]

theorem Written.answers (written : Written store writes) : Answers store writes := by
  have get (name : String) (value : Float) : store.get? name = some value ↔ LastWrite writes name value :=
    written.get_eq_some_iff
  have unbound (name : String) : store.get? name = none ↔ ¬ Touches writes name := written.get_eq_none_iff
  have size : store.size = (writes.map Prod.fst).toFinset.card := by rw [size_eq_card, written.names_eq]
  exact
    { get, unbound, size
      lookup := fun name value => lookup_eq_ok_iff.trans (get name value)
      missing := fun name cause => lookup_eq_error_iff.trans (and_congr_left' (unbound name))
      contains := fun name => written.contains_iff
      replaced := fun name next value => get name value
      fresh := fun name next => unbound name
      isEmpty := by rw [isEmpty, beq_iff_eq, size]
      increasing := store.toList_increasing
      listed := fun name value => mem_toList.trans (get name value) }

/-- Whatever writes have led to a store, it answers by the last write to each name. Two stores compare equal if the same
names were written and the last values of each name are equal as doubles: no NaN among them, and either the same
double twice or two zeros. -/
theorem last_write_wins (written : Written store writes) (written' : Written other others) :
    Answers store writes ∧
    (store.same other = true ↔ (∀ name, Touches writes name ↔ Touches others name) ∧
      ∀ name value value', LastWrite writes name value → LastWrite others name value' →
        value.isNaN = false ∧ (value = value' ∨ Double.IsZero value ∧ Double.IsZero value')) := by
  refine ⟨written.answers, ?_⟩
  rw [same_iff, Finset.ext_iff]
  refine and_congr (forall_congr' fun name => ?_) ?_
  · rw [mem_names, mem_names, written.contains_iff, written'.contains_iff]
  · refine forall_congr' fun name => forall_congr' fun value => forall_congr' fun value' => ?_
    rw [written.get_eq_some_iff, written'.get_eq_some_iff, Double.beq_iff]

/-- A negative zero that was written last equals a zero, and a NaN does not equal itself. -/
theorem zeros_equal_nan_apart :
    ((ofList [("x", 1.0)]).set "x" (-0.0)).2.same (insert ∅ "x" 0.0) = true ∧
      (ofList [("x", 0.0 / 0.0)]).same (ofList [("x", 0.0 / 0.0)]) = false := by
  constructor
  · have written := Written.replaced (.collected [("x", 1.0)]) "x" (-0.0)
    have written' := Written.bound .empty "x" 0.0
    refine (last_write_wins written written').2.mpr ⟨fun name => ?_, fun name value value' last last' => ?_⟩
    · simp [Touches]
    · rw [← lookup_reverse_eq_some_iff] at last last'
      by_cases here : name = "x"
      · subst here
        have negative : -0.0 = value := Option.some.inj (List.lookup_cons_self.symm.trans last)
        have positive : 0.0 = value' := Option.some.inj (List.lookup_cons_self.symm.trans last')
        subst negative positive
        exact ⟨rfl, .inr ⟨.inr rfl, .inl rfl⟩⟩
      · have unwritten : ¬ Touches [("x", (0.0 : Float))] name := by simpa [Touches] using Ne.symm here
        exact nomatch last'.symm.trans (lookup_reverse_eq_none_iff.mpr unwritten)
  · have written := Written.collected [("x", 0.0 / 0.0)]
    refine Bool.eq_false_iff.mpr fun same => ?_
    have last : LastWrite [("x", (0.0 / 0.0 : Float))] "x" (0.0 / 0.0) := ⟨[], [], rfl, by simp⟩
    have number := (((last_write_wins written written).2.mp same).2 _ _ _ last last).1
    exact Bool.noConfusion number

end

end LoopLang.Store
