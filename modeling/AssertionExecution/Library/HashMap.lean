import Mathlib.Data.List.AList

/-!
# Hash maps and hash sets

A hash map lists its entries in the order of its buckets. Code that iterates over a
hash map sees its entries in some order, which `Iteration` leaves open.
-/

abbrev HashMap (K V : Type) := AList (fun _ : K => V)

abbrev HashSet (K : Type) := HashMap K Unit

/-- The order in which hash maps and hash sets hand out their elements. -/
structure Iteration where
  order : {α : Type} → List α → List α
  perm : ∀ {α : Type} (l : List α), (order l).Perm l

namespace Iteration

def buckets : Iteration := ⟨id, fun _ => List.Perm.refl _⟩

@[simp] lemma mem_order (it : Iteration) {α : Type} (l : List α) (a : α) :
    a ∈ it.order l ↔ a ∈ l :=
  (it.perm l).mem_iff

end Iteration

namespace HashMap

variable {K V W : Type}

def pairs (m : HashMap K V) : List (K × V) := m.entries.map (fun e => (e.1, e.2))

def iter (it : Iteration) (m : HashMap K V) : List (K × V) := it.order (pairs m)

def mapValues (f : V → W) (m : HashMap K V) : HashMap K W :=
  ⟨m.entries.map (fun e => ⟨e.1, f e.2⟩), by
    have h := m.nodupKeys
    unfold List.NodupKeys List.keys at h ⊢
    simpa [Function.comp_def] using h⟩

lemma pairs_keys_nodup (m : HashMap K V) : ((pairs m).map Prod.fst).Nodup := by
  have h := m.nodupKeys
  unfold List.NodupKeys List.keys at h
  simpa [pairs, Function.comp_def] using h

lemma iter_keys_nodup (it : Iteration) (m : HashMap K V) : ((iter it m).map Prod.fst).Nodup :=
  ((it.perm (pairs m)).map Prod.fst).nodup_iff.mpr (pairs_keys_nodup m)

variable [DecidableEq K]

/-- Inserts the entries of the second map over the first. -/
def extend (m other : HashMap K V) : HashMap K V := other ∪ m

/-- Replaces the value of a key by a function of it, starting from a default. -/
def modifyOrDefault (m : HashMap K V) (k : K) (default : V) (f : V → V) : HashMap K V :=
  m.insert k (f ((m.lookup k).getD default))

lemma lookup_insert_ite (m : HashMap K V) (k k' : K) (v : V) :
    (m.insert k v).lookup k' = if k' = k then some v else m.lookup k' := by
  by_cases h : k' = k
  · subst h
    rw [if_pos rfl, AList.lookup_insert]
  · rw [if_neg h, AList.lookup_insert_ne h]

lemma lookup_extend (m other : HashMap K V) (k : K) :
    (extend m other).lookup k = (other.lookup k).or (m.lookup k) := by
  unfold extend
  by_cases h : k ∈ other
  · obtain ⟨v, hv⟩ := Option.isSome_iff_exists.mp (AList.lookup_isSome.mpr h)
    rw [AList.lookup_union_left h, hv, Option.some_or]
  · rw [AList.lookup_union_right h, AList.lookup_eq_none.mpr h, Option.none_or]

lemma mem_pairs_iff (m : HashMap K V) (k : K) (v : V) :
    (k, v) ∈ pairs m ↔ m.lookup k = some v := by
  rw [← Option.mem_def, AList.mem_lookup_iff]
  unfold pairs
  constructor
  · intro h
    obtain ⟨e, he, heq⟩ := List.mem_map.mp h
    cases heq
    exact he
  · intro h
    exact List.mem_map.mpr ⟨⟨k, v⟩, h, rfl⟩

lemma mem_iter_iff (it : Iteration) (m : HashMap K V) (k : K) (v : V) :
    (k, v) ∈ iter it m ↔ m.lookup k = some v := by
  rw [iter, it.mem_order, mem_pairs_iff]

lemma lookup_mapValues (f : V → W) (m : HashMap K V) (k : K) :
    (mapValues f m).lookup k = (m.lookup k).map f := by
  apply Option.ext
  intro w
  rw [← mem_pairs_iff, Option.map_eq_some_iff]
  constructor
  · intro h
    simp only [pairs, mapValues, List.map_map, List.mem_map, Function.comp_apply] at h
    obtain ⟨e, he, heq⟩ := h
    cases heq
    exact ⟨e.2, (mem_pairs_iff m _ _).mp (List.mem_map.mpr ⟨e, he, rfl⟩), rfl⟩
  · rintro ⟨v, hv, rfl⟩
    obtain ⟨e, he, heq⟩ := List.mem_map.mp ((mem_pairs_iff m k v).mpr hv)
    cases heq
    simp only [pairs, mapValues, List.map_map, List.mem_map, Function.comp_apply]
    exact ⟨e, he, rfl⟩

lemma mem_extend (m other : HashMap K V) (k : K) : k ∈ extend m other ↔ k ∈ m ∨ k ∈ other := by
  rw [extend, AList.mem_union, or_comm]

lemma mem_ite_extend (c : Prop) [Decidable c] (m other : HashMap K V) (k : K) :
    k ∈ (if c then extend m other else m) ↔ k ∈ m ∨ (k ∈ other ∧ c) := by
  by_cases h : c
  · simp [h, mem_extend]
  · simp [h]

lemma flatMap_iter_key {W : Type} (it : Iteration) (m : HashMap K V) (k : K) (g : V → List W) :
    ((iter it m).flatMap fun e => if e.1 = k then g e.2 else []) =
      ((m.lookup k).map g).getD [] := by
  have hlist : ∀ l : List (K × V), (l.map Prod.fst).Nodup →
      (k ∉ l.map Prod.fst → (l.flatMap fun e => if e.1 = k then g e.2 else []) = []) ∧
      ∀ v, (k, v) ∈ l → (l.flatMap fun e => if e.1 = k then g e.2 else []) = g v := by
    intro l hl
    induction l with
    | nil => simp
    | cons e l ih =>
      rw [List.map_cons, List.nodup_cons] at hl
      obtain ⟨ihnone, ihsome⟩ := ih hl.2
      rw [List.flatMap_cons]
      constructor
      · intro h
        rw [List.map_cons, List.mem_cons, not_or] at h
        rw [if_neg (Ne.symm h.1), ihnone h.2, List.append_nil]
      · intro v h
        rcases List.mem_cons.mp h with rfl | h
        · rw [if_pos rfl, ihnone hl.1, List.append_nil]
        · have hne : e.1 ≠ k := by
            rintro rfl
            exact hl.1 (List.mem_map.mpr ⟨_, h, rfl⟩)
          rw [if_neg hne, ihsome v h, List.nil_append]
  obtain ⟨hnone, hsome⟩ := hlist (iter it m) (iter_keys_nodup it m)
  cases h : m.lookup k with
  | some v => exact hsome v ((mem_iter_iff it m k v).mpr h)
  | none =>
    refine hnone fun hmem => ?_
    obtain ⟨⟨k, v⟩, he, rfl⟩ := List.mem_map.mp hmem
    rw [mem_iter_iff, h] at he
    exact Option.some_ne_none v he.symm

lemma mem_iter_keys_iff (it : Iteration) (m : HashMap K V) (k : K) :
    k ∈ (iter it m).map Prod.fst ↔ k ∈ m := by
  rw [← AList.lookup_isSome, Option.isSome_iff_exists, List.mem_map]
  constructor
  · rintro ⟨⟨k, v⟩, h, rfl⟩
    exact ⟨v, (mem_iter_iff it m k v).mp h⟩
  · rintro ⟨v, h⟩
    exact ⟨(k, v), (mem_iter_iff it m k v).mpr h, rfl⟩

/-- A fold over the entries, as a view sees it that only the entry of one key changes. -/
theorem foldl_iter_key {σ τ : Type} (it : Iteration) (m : HashMap K V) (k : K)
    {f : σ → K × V → σ} (view : σ → τ) (g : τ → V → τ)
    (hf : ∀ s e, view (f s e) = if e.1 = k then g (view s) e.2 else view s) (s : σ) :
    view ((iter it m).foldl f s) = (m.lookup k).elim (view s) (g (view s)) := by
  have hnone : ∀ (l : List (K × V)) (s : σ), k ∉ l.map Prod.fst →
      view (l.foldl f s) = view s := by
    intro l
    induction l with
    | nil => exact fun s _ => rfl
    | cons e l ih =>
      intro s h
      rw [List.map_cons, List.mem_cons, not_or] at h
      rw [List.foldl_cons, ih _ h.2, hf, if_neg (Ne.symm h.1)]
  have hsome : ∀ (l : List (K × V)) (s : σ) (v : V), (l.map Prod.fst).Nodup → (k, v) ∈ l →
      view (l.foldl f s) = g (view s) v := by
    intro l
    induction l with
    | nil => exact fun s v _ h => (List.not_mem_nil h).elim
    | cons e l ih =>
      intro s v hl h
      rw [List.map_cons, List.nodup_cons] at hl
      rw [List.foldl_cons]
      rcases List.mem_cons.mp h with rfl | h
      · rw [hnone _ _ hl.1, hf, if_pos rfl]
      · have hne : e.1 ≠ k := by
          rintro rfl
          exact hl.1 (List.mem_map.mpr ⟨_, h, rfl⟩)
        rw [ih _ v hl.2 h, hf, if_neg hne]
  cases h : m.lookup k with
  | none =>
    apply hnone
    rw [mem_iter_keys_iff, ← AList.lookup_eq_none, h]
  | some v => exact hsome _ s v (iter_keys_nodup it m) ((mem_iter_iff it m k v).mpr h)

/-! ### Maps to sets -/

/-- The set of a key has the element. -/
def Holds (m : HashMap K (HashSet V)) (k : K) (v : V) : Prop := ∃ s, m.lookup k = some s ∧ v ∈ s

lemma not_holds_empty (k : K) (v : V) : ¬Holds (∅ : HashMap K (HashSet V)) k v := by
  rintro ⟨s, h, -⟩
  rw [AList.lookup_empty] at h
  exact Option.some_ne_none s h.symm

lemma holds_iff_mem_getD (m : HashMap K (HashSet V)) (k : K) (v : V) :
    Holds m k v ↔ v ∈ (m.lookup k).getD ∅ := by
  unfold Holds
  cases h : m.lookup k with
  | none => simp [AList.notMem_empty]
  | some s => simp

def NoEmptySets (m : HashMap K (HashSet V)) : Prop := ∀ k s, m.lookup k = some s → ∃ v, v ∈ s

lemma noEmptySets_empty : NoEmptySets (∅ : HashMap K (HashSet V)) := by
  intro k s h
  rw [AList.lookup_empty] at h
  exact (Option.some_ne_none s h.symm).elim

lemma NoEmptySets.exists_lookup_iff {m : HashMap K (HashSet V)} (h : NoEmptySets m) (k : K) :
    (∃ s, m.lookup k = some s) ↔ ∃ v, Holds m k v := by
  constructor
  · rintro ⟨s, hs⟩
    obtain ⟨v, hv⟩ := h k s hs
    exact ⟨v, s, hs, hv⟩
  · rintro ⟨-, s, hs, -⟩
    exact ⟨s, hs⟩

variable [DecidableEq V]

/-- `m.entry(k).or_default().insert(v)` -/
def insertInto (m : HashMap K (HashSet V)) (k : K) (v : V) : HashMap K (HashSet V) :=
  modifyOrDefault m k ∅ (fun s => s.insert v ())

lemma holds_insertInto (m : HashMap K (HashSet V)) (k k' : K) (v v' : V) :
    Holds (insertInto m k v) k' v' ↔ Holds m k' v' ∨ (k' = k ∧ v' = v) := by
  rw [holds_iff_mem_getD, insertInto, modifyOrDefault, lookup_insert_ite]
  by_cases h : k' = k
  · subst h
    rw [if_pos rfl, Option.getD_some, AList.mem_insert, ← holds_iff_mem_getD]
    simp [or_comm]
  · rw [if_neg h, ← holds_iff_mem_getD]
    simp [h]

lemma NoEmptySets.insertInto {m : HashMap K (HashSet V)} (h : NoEmptySets m) (k : K) (v : V) :
    NoEmptySets (insertInto m k v) := by
  intro k' s hs
  rw [HashMap.insertInto, modifyOrDefault, lookup_insert_ite] at hs
  by_cases hk : k' = k
  · rw [if_pos hk] at hs
    cases hs
    exact ⟨v, (AList.mem_insert _).mpr (Or.inl rfl)⟩
  · rw [if_neg hk] at hs
    exact h k' s hs

end HashMap
