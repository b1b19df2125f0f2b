import AssertionExecution.Model.AssertionStore

/-!
# What a batch of modifications leaves in the store

Grouping by adopter, the order of the groups and the retries of the compare-and-swap
loop leave no trace: a batch that is applied at all is applied in list order.
-/

namespace AssertionExecution

open EffectLogic

namespace AssertionStore

variable {fault : Nat → Bool} {d : OrderedTree Address (List AssertionState)}

def applyOne (d : OrderedTree Address (List AssertionState)) (m : PendingModification) :
    OrderedTree Address (List AssertionState) :=
  d.insert m.assertionAdopter (applyModification (assertions d m.assertionAdopter) m)

/-- Applies modifications to the stored content one by one, in list order. -/
def applyAll (d : OrderedTree Address (List AssertionState)) (ms : List PendingModification) :
    OrderedTree Address (List AssertionState) :=
  ms.foldl applyOne d

lemma applyAll_append (ms ms' : List PendingModification) :
    applyAll d (ms ++ ms') = applyAll (applyAll d ms) ms' :=
  List.foldl_append

@[simp] lemma exec_operation (s : AssertionStore) :
    exec (operation fault) s =
      (.ok (fault s.operations), { s with operations := s.operations + 1 }) := rfl

/-! ### Tree operations -/

theorem dbGet_spec (adopter : Address) (s₀ : AssertionStore) :
    Triple (fun s => s = s₀) (dbGet fault adopter)
      (fun r s => r = s₀.db.get adopter ∧ s.db = s₀.db)
      (fun e s => e = .error .sledError ∧ fault s₀.operations = true ∧ s.db = s₀.db) := by
  rintro s rfl
  unfold dbGet
  rw [exec_bind, exec_operation]
  cases h : fault s.operations
  · exact ⟨rfl, rfl⟩
  · exact ⟨rfl, rfl, rfl⟩

theorem compareAndSwap_spec (adopter : Address) (new : List AssertionState)
    (s₀ : AssertionStore) :
    Triple (fun s => s = s₀) (compareAndSwap fault adopter (s₀.db.get adopter) new)
      (fun r s => (r = .swapped ∧ s.db = s₀.db.insert adopter new) ∨
        (r = .sledError ∧ fault s₀.operations = true ∧ s.db = s₀.db))
      (fun _ _ => False) := by
  rintro s rfl
  unfold compareAndSwap
  rw [exec_bind, exec_operation]
  cases h : fault s.operations
  · simp [exec_bind, Except.map]
  · exact Or.inr ⟨rfl, rfl, rfl⟩

/-- One adopter's modifications are applied as a whole or not at all. -/
theorem applyPendingModification_spec (adopter : Address) (ms : List PendingModification)
    (fuel : Nat) :
    Triple (fun s => s.db = d) (applyPendingModification fault adopter ms fuel)
      (fun _ s => s.db = d.insert adopter (ms.foldl applyModification (assertions d adopter)))
      (fun _ s => s.db = d ∧ ((∃ t, fault t = true) ∨ fuel = 0)) := by
  induction fuel with
  | zero => exact Triple.throw fun s hs => ⟨hs, Or.inr rfl⟩
  | succ fuel ih =>
    intro s hs
    unfold applyPendingModification
    rw [exec_bind]
    have hget := @dbGet_spec fault adopter s s rfl
    rcases hrun : exec (dbGet fault adopter) s with ⟨e | r, s₁⟩
    · rw [hrun] at hget
      exact ⟨hget.2.2.trans hs, Or.inl ⟨_, hget.2.1⟩⟩
    · rw [hrun] at hget
      obtain ⟨rfl, hs₁⟩ := hget
      rw [← hs₁] at hrun ⊢
      dsimp only
      rw [exec_bind]
      have hswap := @compareAndSwap_spec fault adopter
        (ms.foldl applyModification ((s₁.db.get adopter).getD [])) s₁ s₁ rfl
      rcases hrun₂ : exec (compareAndSwap fault adopter (s₁.db.get adopter)
          (ms.foldl applyModification ((s₁.db.get adopter).getD []))) s₁ with ⟨e | r, s₂⟩
      · rw [hrun₂] at hswap
        exact hswap.elim
      · rw [hrun₂] at hswap
        rcases hswap with ⟨rfl, hs₂⟩ | ⟨rfl, hfault, hs₂⟩
        · rw [hs₁, hs] at hs₂
          exact hs₂
        · have hrest := ih s₂ (hs₂.trans (hs₁.trans hs))
          dsimp only
          rcases hrun₃ : exec (applyPendingModification fault adopter ms fuel) s₂ with ⟨e | r, s₃⟩
          · rw [hrun₃] at hrest
            exact ⟨hrest.1, Or.inl ⟨_, hfault⟩⟩
          · rw [hrun₃] at hrest
            exact hrest

/-! ### Grouping by adopter -/

def forAdopter (adopter : Address) (ms : List PendingModification) : List PendingModification :=
  ms.filter (fun m => m.assertionAdopter = adopter)

lemma get_applyAll (ms : List PendingModification) (adopter : Address) :
    (applyAll d ms).get adopter =
      if forAdopter adopter ms = [] then d.get adopter
      else some ((forAdopter adopter ms).foldl applyModification (assertions d adopter)) := by
  induction ms generalizing d with
  | nil => rfl
  | cons m ms ih =>
    change (applyAll (applyOne d m) ms).get adopter = _
    rw [ih]
    by_cases h : m.assertionAdopter = adopter
    · have hcons : forAdopter adopter (m :: ms) = m :: forAdopter adopter ms := by
        simp [forAdopter, h]
      have hget : (applyOne d m).get adopter =
          some (applyModification (assertions d adopter) m) := by simp [applyOne, h]
      rw [hcons, if_neg (List.cons_ne_nil _ _), List.foldl_cons]
      by_cases hnil : forAdopter adopter ms = []
      · rw [if_pos hnil, hget, hnil, List.foldl_nil]
      · rw [if_neg hnil, assertions, hget, Option.getD_some]
    · have hcons : forAdopter adopter (m :: ms) = forAdopter adopter ms := by
        simp [forAdopter, h]
      have hget : (applyOne d m).get adopter = d.get adopter := by
        simp [applyOne, Ne.symm h]
      rw [hcons, assertions, assertions, hget]

lemma assertions_applyAll (ms : List PendingModification) (adopter : Address) :
    assertions (applyAll d ms) adopter =
      (forAdopter adopter ms).foldl applyModification (assertions d adopter) := by
  unfold assertions
  rw [get_applyAll]
  by_cases h : forAdopter adopter ms = []
  · rw [if_pos h, h, List.foldl_nil]
  · rw [if_neg h, Option.getD_some]
    rfl

lemma lookup_groupByAdopter (ms : List PendingModification) (adopter : Address) :
    (groupByAdopter ms).lookup adopter =
      if forAdopter adopter ms = [] then none else some (forAdopter adopter ms) := by
  have hgen : ∀ (map : HashMap Address (List PendingModification)),
      (ms.foldl (fun map m => HashMap.modifyOrDefault map m.assertionAdopter [] (· ++ [m]))
        map).lookup adopter =
      if forAdopter adopter ms = [] then map.lookup adopter
      else some ((map.lookup adopter).getD [] ++ forAdopter adopter ms) := by
    induction ms with
    | nil => exact fun map => rfl
    | cons m ms ih =>
      intro map
      rw [List.foldl_cons, ih, HashMap.modifyOrDefault, HashMap.lookup_insert_ite]
      by_cases h : m.assertionAdopter = adopter
      · have hcons : forAdopter adopter (m :: ms) = m :: forAdopter adopter ms := by
          simp [forAdopter, h]
        rw [hcons, if_pos h.symm, if_neg (List.cons_ne_nil _ _), h]
        by_cases hnil : forAdopter adopter ms = []
        · rw [if_pos hnil, hnil]
        · rw [if_neg hnil, Option.getD_some, List.append_assoc, List.singleton_append]
      · have hcons : forAdopter adopter (m :: ms) = forAdopter adopter ms := by
          simp [forAdopter, h]
        rw [hcons, if_neg (Ne.symm h)]
  unfold groupByAdopter
  rw [hgen]
  simp

def applyAllGroups (d : OrderedTree Address (List AssertionState))
    (groups : List (Address × List PendingModification)) :
    OrderedTree Address (List AssertionState) :=
  groups.foldl (fun d g => d.insert g.1 (g.2.foldl applyModification (assertions d g.1))) d

lemma get_applyAllGroups_of_notMem (groups : List (Address × List PendingModification))
    (adopter : Address) (h : adopter ∉ groups.map Prod.fst) :
    (applyAllGroups d groups).get adopter = d.get adopter := by
  induction groups generalizing d with
  | nil => rfl
  | cons g groups ih =>
    simp only [List.map_cons, List.mem_cons, not_or] at h
    change (applyAllGroups (d.insert g.1 _) groups).get adopter = _
    rw [ih h.2, OrderedTree.get_insert, if_neg h.1]

lemma get_applyAllGroups_of_mem (groups : List (Address × List PendingModification))
    (hnodup : (groups.map Prod.fst).Nodup) {adopter : Address} {ms : List PendingModification}
    (h : (adopter, ms) ∈ groups) :
    (applyAllGroups d groups).get adopter =
      some (ms.foldl applyModification (assertions d adopter)) := by
  induction groups generalizing d with
  | nil => simp at h
  | cons g groups ih =>
    rw [List.map_cons, List.nodup_cons] at hnodup
    change (applyAllGroups (d.insert g.1 _) groups).get adopter = _
    rcases List.mem_cons.mp h with rfl | h
    · rw [get_applyAllGroups_of_notMem _ _ hnodup.1, OrderedTree.get_insert, if_pos rfl]
    · have hne : adopter ≠ g.1 := fun heq =>
        hnodup.1 (heq ▸ List.mem_map.mpr ⟨(adopter, ms), h, rfl⟩)
      rw [ih hnodup.2 h]
      simp only [assertions, OrderedTree.get_insert, if_neg hne]

/-- The groups, in whatever order the hash map yields them, amount to the whole list. -/
theorem applyAllGroups_groupByAdopter (it : Iteration) (ms : List PendingModification) :
    applyAllGroups d (HashMap.iter it (groupByAdopter ms)) = applyAll d ms := by
  apply OrderedTree.ext_get
  intro adopter
  rw [get_applyAll]
  have hlookup := lookup_groupByAdopter ms adopter
  by_cases h : forAdopter adopter ms = []
  · rw [if_pos h] at hlookup ⊢
    apply get_applyAllGroups_of_notMem
    intro hmem
    obtain ⟨⟨a, group⟩, hgroup, rfl⟩ := List.mem_map.mp hmem
    rw [HashMap.mem_iter_iff, hlookup] at hgroup
    exact Option.some_ne_none _ hgroup.symm
  · rw [if_neg h] at hlookup ⊢
    exact get_applyAllGroups_of_mem _ (HashMap.iter_keys_nodup it _)
      ((HashMap.mem_iter_iff it _ _ _).mpr hlookup)

lemma applyGroups_spec (groups : List (Address × List PendingModification)) (fuel : Nat) :
    Triple (fun s => s.db = d) (applyGroups fault fuel groups)
      (fun _ s => s.db = applyAllGroups d groups)
      (fun _ _ => (∃ t, fault t = true) ∨ fuel = 0) := by
  induction groups generalizing d with
  | nil => exact Triple.pure fun s hs => hs
  | cons g groups ih =>
    exact Triple.bind ((applyPendingModification_spec g.1 g.2 fuel).consequence (fun _ h => h)
      (fun _ _ h => h) (fun _ _ h => h.2)) (fun _ => ih)

/-- A batch that is applied is applied in list order, whatever the order of its groups. -/
theorem applyPendingModifications_spec (it : Iteration) (fuel : Nat)
    (ms : List PendingModification) :
    Triple (fun s => s.db = d) (applyPendingModifications fault it fuel ms)
      (fun _ s => s.db = applyAll d ms)
      (fun _ _ => (∃ t, fault t = true) ∨ fuel = 0) := by
  unfold applyPendingModifications
  rw [← applyAllGroups_groupByAdopter it ms]
  exact applyGroups_spec _ fuel

end AssertionStore

end AssertionExecution
