import AssertionExecution.Library.OrderedTree

/-!
# Draining two trees by the keys of one

An index is emptied over a range of keys, the first key first, and each key that is taken from
it is also removed from a second tree. What is left of both trees, and what the second tree held
under the keys in their order, do not change while the loop runs.
-/

namespace OrderedTree

variable {κ V W : Type} [LinearOrder κ]

def outside (range : κ → Bool) (index : OrderedTree κ V) : OrderedTree κ V :=
  index.restrict fun k => !range k

/-- The tree without the keys of a range that an index has. -/
def unindexed (range : κ → Bool) (index : OrderedTree κ V) (t : OrderedTree κ W) :
    OrderedTree κ W :=
  t.restrict fun k => !(range k && (index.get k).isSome)

/-- What a tree of lists holds under the keys of a range that an index has, in key order. -/
def collect (range : κ → Bool) (index : OrderedTree κ V) (t : OrderedTree κ (List W)) : List W :=
  (index.entries.filter fun e => range e.1).flatMap fun e => (t.get e.1).getD []

variable {range : κ → Bool} {index : OrderedTree κ V} {k : κ} {v : V}

/-! ### Taking a key -/

lemma outside_remove (hrange : range k = true) :
    outside range (index.remove k) = outside range index := by
  apply ext_get
  intro k'
  unfold outside
  rw [get_restrict, get_restrict, get_remove]
  by_cases h : k' = k
  · rw [h, hrange]
    rfl
  · rw [if_neg h]

lemma unindexed_remove (hrange : range k = true) (hget : index.get k = some v)
    (t : OrderedTree κ W) :
    unindexed range (index.remove k) (t.remove k) = unindexed range index t := by
  apply ext_get
  intro k'
  unfold unindexed
  rw [get_restrict, get_restrict, get_remove, get_remove]
  by_cases h : k' = k
  · subst h
    rw [if_pos rfl, if_pos rfl, hrange, hget]
    rfl
  · rw [if_neg h, if_neg h]

lemma collect_remove {e : κ × V} (h : index.firstInRange range = some e)
    (t : OrderedTree κ (List W)) :
    collect range index t =
      (t.get e.1).getD [] ++ collect range (index.remove e.1) (t.remove e.1) := by
  unfold collect
  rw [firstInRange_eq_some _ _ _ h, List.flatMap_cons]
  congr 1
  apply List.flatMap_congr
  intro e' he'
  have hget := (get_eq_some_iff _ e'.1 e'.2).mpr (List.mem_filter.mp he').1
  have hne : e'.1 ≠ e.1 := by
    intro heq
    rw [get_remove, if_pos heq] at hget
    exact Option.some_ne_none _ hget.symm
  rw [get_remove, if_neg hne]

/-! ### An empty range -/

lemma range_eq_false (h : index.firstInRange range = none) (hget : (index.get k).isSome) :
    range k = false := by
  obtain ⟨v, hv⟩ := Option.isSome_iff_exists.mp hget
  have hmem := (get_eq_some_iff _ k v).mp hv
  simpa using List.filter_eq_nil_iff.mp (firstInRange_eq_none _ _ h) (k, v) hmem

lemma outside_eq_self (h : index.firstInRange range = none) : outside range index = index := by
  apply restrict_eq_self
  intro k hget
  rw [range_eq_false h hget]
  rfl

lemma unindexed_eq_self (h : index.firstInRange range = none) (t : OrderedTree κ W) :
    unindexed range index t = t := by
  apply restrict_eq_self
  intro k _
  cases hget : (index.get k).isSome with
  | false => rw [Bool.and_false, Bool.not_false]
  | true => rw [range_eq_false h hget, Bool.false_and, Bool.not_false]

lemma collect_eq_nil (h : index.firstInRange range = none) (t : OrderedTree κ (List W)) :
    collect range index t = [] := by
  rw [collect, firstInRange_eq_none _ _ h, List.flatMap_nil]

/-! ### Collecting by key -/

lemma collect_eq (t : OrderedTree κ (List W)) :
    collect range index t = ((index.entries.map Prod.fst).filter range).flatMap
      fun k => (t.get k).getD [] := by
  rw [collect, List.filter_map, List.flatMap_map]
  rfl

/-- What is collected over the numbers below a bound, number by number. -/
theorem collect_below {key : Nat → κ} {valid : Nat → Prop} (hkey : NumberKeys key valid)
    (hkeys : ∀ k, (index.get k).isSome → ∃ m, valid m ∧ k = key m) {upTo : Nat}
    (hupTo : valid upTo) (hrange : ∀ m, valid m → range (key m) = decide (m < upTo))
    (t : OrderedTree κ (List W)) :
    collect range index t = (List.range upTo).flatMap fun n =>
      if (index.get (key n)).isSome then (t.get (key n)).getD [] else [] := by
  calc collect range index t
      = ((index.entries.map Prod.fst).filter range).flatMap fun k => (t.get k).getD [] :=
        collect_eq t
    _ = ((List.range upTo).filter fun n => (index.get (key n)).isSome).flatMap
          fun n => (t.get (key n)).getD [] := by
        rw [keys_below hkey index hkeys hupTo hrange, List.flatMap_map]
    _ = (List.range upTo).flatMap fun n =>
          if (index.get (key n)).isSome then (t.get (key n)).getD [] else [] := by
        induction List.range upTo with
        | nil => rfl
        | cons n ns ih =>
          rw [List.flatMap_cons, ← ih, List.filter_cons]
          split <;> simp

end OrderedTree
