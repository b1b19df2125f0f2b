import Mathlib.Data.List.Nodup

/-!
# Linearizable histories

A history lists the invocations and the returns of calls to a shared object. It is
linearizable when the calls that took effect have an order, consistent with real time, in
which the object run by one client gives each of them the result that it returned.
-/

namespace Linearization

variable {Id Op Res State : Type}

/-- What the clients see. A call that fails returns nothing. -/
inductive Event (Id Op Res : Type) where
  | invoked (id : Id) (op : Op)
  | returned (id : Id) (result : Option Res)

structure Call (Id Op Res : Type) where
  id : Id
  op : Op
  result : Res

/-- The calls one after the other, each with the result it has there. -/
inductive Runs (perform : Op → State → Res × State) :
    State → List (Call Id Op Res) → State → Prop
  | nil (s : State) : Runs perform s [] s
  | snoc {s s' : State} {calls : List (Call Id Op Res)} (h : Runs perform s calls s') (id : Id)
      (op : Op) : Runs perform s (calls ++ [⟨id, op, (perform op s').1⟩]) (perform op s').2

/-- One call has returned when the other is invoked. -/
def ReturnedBefore (history : List (Event Id Op Res)) (i j : Id) : Prop :=
  ∃ earlier later, history = earlier ++ later ∧
    (∃ r, .returned i r ∈ earlier) ∧ ∃ op, .invoked j op ∈ later

def Event.invokedId : Event Id Op Res → Option Id
  | invoked id _ => some id
  | returned _ _ => none

/-- The order of the calls explains the history. Calls that have not returned yet may have
taken effect or not. -/
structure Linearizes (perform : Op → State → Res × State) (s : State)
    (history : List (Event Id Op Res)) (calls : List (Call Id Op Res)) (s' : State) : Prop where
  runs : Runs perform s calls s'
  distinct : (history.filterMap Event.invokedId).Nodup
  once : (calls.map Call.id).Nodup
  invoked : ∀ c ∈ calls, .invoked c.id c.op ∈ history
  returned : ∀ id r, .returned id (some r) ∈ history → ∃ op, ⟨id, op, r⟩ ∈ calls
  failed : ∀ id, .returned id none ∈ history → id ∉ calls.map Call.id
  realTime : ∀ i j, ReturnedBefore history i j → i ∈ calls.map Call.id → j ∈ calls.map Call.id →
    [i, j].Sublist (calls.map Call.id)

variable {perform : Op → State → Res × State} {s s' : State} {history : List (Event Id Op Res)}
  {calls : List (Call Id Op Res)}

lemma returnedBefore_snoc {e : Event Id Op Res} {i j : Id}
    (h : ReturnedBefore (history ++ [e]) i j) :
    ReturnedBefore history i j ∨ ∃ op, e = .invoked j op := by
  obtain ⟨earlier, later, heq, hreturned, op, hinvoked⟩ := h
  rcases List.eq_nil_or_concat later with rfl | ⟨later, last, rfl⟩
  · cases hinvoked
  · rw [List.concat_eq_append, ← List.append_assoc] at heq
    obtain ⟨hinit, hlast⟩ := List.append_inj' heq rfl
    rw [List.concat_eq_append] at hinvoked
    rcases List.mem_append.mp hinvoked with hmem | hmem
    · exact Or.inl ⟨earlier, later, hinit, hreturned, op, hmem⟩
    · have hop : Event.invoked j op = last := List.mem_singleton.mp hmem
      cases hlast
      exact Or.inr ⟨op, hop.symm⟩

namespace Linearizes

lemma nil (perform : Op → State → Res × State) (s : State) :
    Linearizes perform s ([] : List (Event Id Op Res)) [] s where
  runs := .nil s
  distinct := List.nodup_nil
  once := List.nodup_nil
  invoked _ h := (List.not_mem_nil h).elim
  returned _ _ h := (List.not_mem_nil h).elim
  failed _ h := (List.not_mem_nil h).elim
  realTime _ _ _ h := (List.not_mem_nil h).elim

lemma notMem_of_not_invoked (h : Linearizes perform s history calls s') {id : Id}
    (hid : ∀ op, .invoked id op ∉ history) : id ∉ calls.map Call.id := by
  intro hmem
  obtain ⟨c, hc, rfl⟩ := List.mem_map.mp hmem
  exact hid c.op (h.invoked c hc)

theorem invoke (h : Linearizes perform s history calls s') {id : Id}
    (hid : ∀ op, .invoked id op ∉ history) (op : Op) :
    Linearizes perform s (history ++ [.invoked id op]) calls s' where
  runs := h.runs
  distinct := by
    rw [List.filterMap_append, List.nodup_append]
    refine ⟨h.distinct, List.nodup_singleton id, ?_⟩
    intro i hi j hj
    have hj : j = id := List.mem_singleton.mp hj
    obtain ⟨e, he, hinvoked⟩ := List.mem_filterMap.mp hi
    cases e with
    | invoked i' op' =>
      cases hinvoked
      intro heq
      rw [heq, hj] at he
      exact hid op' he
    | returned i' r => cases hinvoked
  once := h.once
  invoked c hc := List.mem_append_left _ (h.invoked c hc)
  returned i r hmem := by
    rcases List.mem_append.mp hmem with hmem | hmem
    · exact h.returned i r hmem
    · cases List.mem_singleton.mp hmem
  failed i hmem := by
    rcases List.mem_append.mp hmem with hmem | hmem
    · exact h.failed i hmem
    · cases List.mem_singleton.mp hmem
  realTime i j hbefore hi hj := by
    rcases returnedBefore_snoc hbefore with hbefore | ⟨op', hop⟩
    · exact h.realTime i j hbefore hi hj
    · cases hop
      exact absurd hj (h.notMem_of_not_invoked hid)

/-- A call takes effect: its place in the order is after all calls that did before. -/
theorem takeEffect (h : Linearizes perform s history calls s') {id : Id} {op : Op}
    (hinvoked : .invoked id op ∈ history) (hpending : ∀ r, .returned id r ∉ history)
    (hid : id ∉ calls.map Call.id) :
    Linearizes perform s history (calls ++ [⟨id, op, (perform op s').1⟩]) (perform op s').2 where
  runs := h.runs.snoc id op
  distinct := h.distinct
  once := by
    rw [List.map_append, List.nodup_append]
    refine ⟨h.once, List.nodup_singleton id, ?_⟩
    intro i hi j hj heq
    rw [heq, List.mem_singleton.mp hj] at hi
    exact hid hi
  invoked c hc := by
    rcases List.mem_append.mp hc with hc | hc
    · exact h.invoked c hc
    · rw [List.mem_singleton.mp hc]
      exact hinvoked
  returned i r hmem := by
    obtain ⟨op', hop⟩ := h.returned i r hmem
    exact ⟨op', List.mem_append_left _ hop⟩
  failed i hmem := by
    rw [List.map_append, List.mem_append, not_or]
    refine ⟨h.failed i hmem, ?_⟩
    intro hi
    rw [List.mem_singleton.mp hi] at hmem
    exact hpending none hmem
  realTime i j hbefore hi hj := by
    rw [List.map_append] at hi hj ⊢
    have hi : i ∈ calls.map Call.id := by
      rcases List.mem_append.mp hi with hi | hi
      · exact hi
      · obtain ⟨earlier, later, rfl, ⟨r, hr⟩, -⟩ := hbefore
        rw [List.mem_singleton.mp hi] at hr
        exact absurd (List.mem_append_left _ hr) (hpending r)
    rcases List.mem_append.mp hj with hj | hj
    · exact (h.realTime i j hbefore hi hj).trans (List.sublist_append_left ..)
    · rw [List.mem_singleton.mp hj]
      exact (List.singleton_sublist.mpr hi).append (List.Sublist.refl [id])

lemma returns (h : Linearizes perform s history calls s') {id : Id} {result : Option Res}
    (hsome : ∀ r, result = some r → ∃ op, ⟨id, op, r⟩ ∈ calls)
    (hnone : result = none → id ∉ calls.map Call.id) :
    Linearizes perform s (history ++ [.returned id result]) calls s' where
  runs := h.runs
  distinct := by
    rw [List.filterMap_append]
    exact (List.append_nil _).symm ▸ h.distinct
  once := h.once
  invoked c hc := List.mem_append_left _ (h.invoked c hc)
  returned i r hmem := by
    rcases List.mem_append.mp hmem with hmem | hmem
    · exact h.returned i r hmem
    · cases List.mem_singleton.mp hmem
      exact hsome r rfl
  failed i hmem := by
    rcases List.mem_append.mp hmem with hmem | hmem
    · exact h.failed i hmem
    · cases List.mem_singleton.mp hmem
      exact hnone rfl
  realTime i j hbefore hi hj := by
    rcases returnedBefore_snoc hbefore with hbefore | ⟨op, hop⟩
    · exact h.realTime i j hbefore hi hj
    · cases hop

end Linearizes

end Linearization
