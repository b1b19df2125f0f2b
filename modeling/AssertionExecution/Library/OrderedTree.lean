import Mathlib.Order.Lattice
import Mathlib.Data.Nat.Basic
import Mathlib.Data.List.Nodup
import Mathlib.Data.List.Pairwise
import Mathlib.Data.List.Perm.Basic

/-!
# Ordered key/value trees

An embedded key/value tree keeps its entries in strictly increasing key order. Every
operation is described by the bindings it leaves behind, and a tree is determined by
its bindings, so later files reason about `get` alone.
-/

/-- A finite map whose entries are listed in strictly increasing key order. -/
structure OrderedTree (κ V : Type) [LinearOrder κ] where
  entries : List (κ × V)
  sorted : entries.Pairwise (fun a b => a.1 < b.1)

namespace OrderedTree

variable {κ V : Type} [LinearOrder κ]

instance [DecidableEq V] : DecidableEq (OrderedTree κ V) := fun t t' =>
  decidable_of_iff (t.entries = t'.entries) (by cases t; cases t'; simp)

def empty : OrderedTree κ V := ⟨[], List.Pairwise.nil⟩

instance : Inhabited (OrderedTree κ V) := ⟨empty⟩

def get (t : OrderedTree κ V) (k : κ) : Option V :=
  (t.entries.find? (fun e => e.1 = k)).map Prod.snd

def restrict (p : κ → Bool) (t : OrderedTree κ V) : OrderedTree κ V :=
  ⟨t.entries.filter (fun e => p e.1), t.sorted.filter _⟩

def remove (t : OrderedTree κ V) (k : κ) : OrderedTree κ V :=
  t.restrict (fun k' => k' ≠ k)

lemma insert_sorted (t : OrderedTree κ V) (k : κ) (v : V) :
    (t.entries.filter (fun e => e.1 < k) ++ (k, v) :: t.entries.filter (fun e => k < e.1)).Pairwise
      (fun a b => a.1 < b.1) := by
  rw [List.pairwise_append, List.pairwise_cons]
  refine ⟨t.sorted.filter _, ⟨?_, t.sorted.filter _⟩, ?_⟩
  · intro b hb
    simpa using (List.mem_filter.mp hb).2
  · intro a ha b hb
    have hak : a.1 < k := by simpa using (List.mem_filter.mp ha).2
    rcases List.mem_cons.mp hb with rfl | hb
    · exact hak
    · exact hak.trans (by simpa using (List.mem_filter.mp hb).2)

/-- Binds a key, replacing an earlier binding. -/
def insert (t : OrderedTree κ V) (k : κ) (v : V) : OrderedTree κ V :=
  ⟨t.entries.filter (fun e => e.1 < k) ++ (k, v) :: t.entries.filter (fun e => k < e.1),
    t.insert_sorted k v⟩

/-- Binds the keys of a batch in order. -/
def applyBatch (t : OrderedTree κ V) (batch : List (κ × V)) : OrderedTree κ V :=
  batch.foldl (fun t e => t.insert e.1 e.2) t

def firstInRange (t : OrderedTree κ V) (range : κ → Bool) : Option (κ × V) :=
  t.entries.find? (fun e => range e.1)

def values (t : OrderedTree κ V) : List V := t.entries.map Prod.snd

/-! ### Bindings -/

lemma keys_nodup (t : OrderedTree κ V) : (t.entries.map Prod.fst).Nodup := by
  rw [List.Nodup, List.pairwise_map]
  exact t.sorted.imp (fun h => h.ne)

lemma entries_nodup (t : OrderedTree κ V) : t.entries.Nodup :=
  t.keys_nodup.of_map

lemma value_unique (t : OrderedTree κ V) {k : κ} {v v' : V}
    (h : (k, v) ∈ t.entries) (h' : (k, v') ∈ t.entries) : v = v' := by
  have heq := List.inj_on_of_nodup_map t.keys_nodup h h' rfl
  exact congrArg Prod.snd heq

theorem get_eq_some_iff (t : OrderedTree κ V) (k : κ) (v : V) :
    t.get k = some v ↔ (k, v) ∈ t.entries := by
  unfold get
  rw [Option.map_eq_some_iff]
  constructor
  · rintro ⟨⟨k', v'⟩, hfind, rfl⟩
    have hk : k' = k := by simpa using List.find?_some hfind
    subst hk
    exact List.mem_of_find?_eq_some hfind
  · intro hmem
    have hsome : (t.entries.find? (fun e => e.1 = k)).isSome := by
      rw [List.find?_isSome]
      exact ⟨(k, v), hmem, by simp⟩
    obtain ⟨⟨k', v'⟩, hfind⟩ := Option.isSome_iff_exists.mp hsome
    have hk : k' = k := by simpa using List.find?_some hfind
    subst hk
    exact ⟨_, hfind, t.value_unique (List.mem_of_find?_eq_some hfind) hmem⟩

lemma get_eq_none_iff (t : OrderedTree κ V) (k : κ) :
    t.get k = none ↔ ∀ v, (k, v) ∉ t.entries := by
  rw [Option.eq_none_iff_forall_ne_some]
  exact forall_congr' fun v => not_congr (t.get_eq_some_iff k v)

/-- A tree is determined by its bindings. -/
theorem ext_get {t t' : OrderedTree κ V} (h : ∀ k, t.get k = t'.get k) : t = t' := by
  have hmem : ∀ e, e ∈ t.entries ↔ e ∈ t'.entries := by
    rintro ⟨k, v⟩
    rw [← get_eq_some_iff, ← get_eq_some_iff, h k]
  have hperm : t.entries.Perm t'.entries :=
    (List.perm_ext_iff_of_nodup t.entries_nodup t'.entries_nodup).mpr hmem
  have heq : t.entries = t'.entries :=
    hperm.eq_of_pairwise (fun a b _ _ hab hba => absurd hba hab.not_gt) t.sorted t'.sorted
  cases t
  cases t'
  simpa using heq

@[simp] lemma get_empty (k : κ) : (empty : OrderedTree κ V).get k = none := rfl

@[simp] lemma get_restrict (t : OrderedTree κ V) (p : κ → Bool) (k : κ) :
    (t.restrict p).get k = if p k then t.get k else none := by
  apply Option.ext
  intro v
  rw [get_eq_some_iff]
  by_cases hp : p k
  · rw [if_pos hp, get_eq_some_iff]
    simp [restrict, hp]
  · rw [if_neg hp]
    simp [restrict, hp]

lemma restrict_eq_self {t : OrderedTree κ V} {p : κ → Bool}
    (h : ∀ k, (t.get k).isSome → p k = true) : t.restrict p = t := by
  apply ext_get
  intro k
  rw [get_restrict]
  cases hget : t.get k with
  | none => exact ite_self none
  | some v => rw [if_pos (h k (by rw [hget]; rfl))]

@[simp] lemma get_remove (t : OrderedTree κ V) (k k' : κ) :
    (t.remove k).get k' = if k' = k then none else t.get k' := by
  by_cases h : k' = k <;> simp [remove, h]

@[simp] lemma get_insert (t : OrderedTree κ V) (k : κ) (v : V) (k' : κ) :
    (t.insert k v).get k' = if k' = k then some v else t.get k' := by
  apply Option.ext
  intro w
  rw [get_eq_some_iff]
  simp only [insert, List.mem_append, List.mem_cons, List.mem_filter, decide_eq_true_eq,
    Prod.mk.injEq]
  by_cases h : k' = k
  · subst h
    simp [eq_comm]
  · rw [if_neg h, get_eq_some_iff]
    simp only [h, false_and, false_or]
    constructor
    · rintro (⟨hm, _⟩ | ⟨hm, _⟩) <;> exact hm
    · intro hm
      rcases lt_or_gt_of_ne h with hlt | hgt
      · exact Or.inl ⟨hm, hlt⟩
      · exact Or.inr ⟨hm, hgt⟩

/-! ### Batches -/

lemma get_applyBatch_of_notMem (t : OrderedTree κ V) (batch : List (κ × V)) (k : κ)
    (h : k ∉ batch.map Prod.fst) : (t.applyBatch batch).get k = t.get k := by
  induction batch generalizing t with
  | nil => rfl
  | cons e batch ih =>
    simp only [List.map_cons, List.mem_cons, not_or] at h
    change ((t.insert e.1 e.2).applyBatch batch).get k = _
    rw [ih _ h.2, get_insert, if_neg h.1]

lemma get_applyBatch_of_mem (t : OrderedTree κ V) (batch : List (κ × V))
    (hnodup : (batch.map Prod.fst).Nodup) {k : κ} {v : V} (h : (k, v) ∈ batch) :
    (t.applyBatch batch).get k = some v := by
  induction batch generalizing t with
  | nil => simp at h
  | cons e batch ih =>
    rw [List.map_cons, List.nodup_cons] at hnodup
    change ((t.insert e.1 e.2).applyBatch batch).get k = _
    rcases List.mem_cons.mp h with rfl | h
    · rw [get_applyBatch_of_notMem _ _ _ hnodup.1, get_insert, if_pos rfl]
    · exact ih _ hnodup.2 h

/-- A binding after a batch was there before it or is one of its own. -/
lemma get_applyBatch_or_mem (t : OrderedTree κ V) (batch : List (κ × V)) {k : κ} {v : V}
    (h : (t.applyBatch batch).get k = some v) : t.get k = some v ∨ (k, v) ∈ batch := by
  induction batch generalizing t with
  | nil => exact Or.inl h
  | cons e batch ih =>
    rcases ih (t.insert e.1 e.2) h with h | h
    · rw [get_insert] at h
      by_cases hk : k = e.1
      · rw [if_pos hk] at h
        cases h
        subst hk
        exact Or.inr (List.mem_cons_self ..)
      · rw [if_neg hk] at h
        exact Or.inl h
    · exact Or.inr (List.mem_cons_of_mem e h)

/-! ### Draining a range from its first entry on -/

lemma firstInRange_eq_none (t : OrderedTree κ V) (range : κ → Bool)
    (h : t.firstInRange range = none) : t.entries.filter (fun e => range e.1) = [] := by
  rw [List.filter_eq_nil_iff]
  exact List.find?_eq_none.mp h

/-- Popping the first entry of a range leaves the later entries of the range. -/
theorem firstInRange_eq_some (t : OrderedTree κ V) (range : κ → Bool) (e : κ × V)
    (h : t.firstInRange range = some e) :
    t.entries.filter (fun e => range e.1) =
      e :: (t.remove e.1).entries.filter (fun e => range e.1) := by
  obtain ⟨hp, before, after, hsplit, hbefore⟩ := List.find?_eq_some_iff_append.mp h
  have hsorted := t.sorted
  rw [hsplit, List.pairwise_append, List.pairwise_cons] at hsorted
  have hafter : after.filter (fun e' => decide (e'.1 ≠ e.1)) = after :=
    List.filter_eq_self.mpr (fun e' he' => by simpa using (hsorted.2.1.1 e' he').ne')
  have hdrop : before.filter (fun e' => range e'.1) = [] :=
    List.filter_eq_nil_iff.mpr (fun e' he' => by simpa using hbefore e' he')
  have hdrop' : (before.filter (fun e' => decide (e'.1 ≠ e.1))).filter
      (fun e' => range e'.1) = [] :=
    List.filter_eq_nil_iff.mpr
      (fun e' he' => by simpa using hbefore e' (List.mem_filter.mp he').1)
  simp only [remove, restrict, hsplit, List.filter_append, List.filter_cons, hp, if_true, hdrop,
    hdrop', hafter, List.nil_append, ne_eq, not_true_eq_false, decide_false, Bool.false_eq_true,
    if_false]

lemma firstInRange_mem (t : OrderedTree κ V) (range : κ → Bool) (e : κ × V)
    (h : t.firstInRange range = some e) : range e.1 = true ∧ t.get e.1 = some e.2 :=
  ⟨by simpa using List.find?_some h,
    (t.get_eq_some_iff e.1 e.2).mpr (List.mem_of_find?_eq_some h)⟩

lemma remove_length_lt (t : OrderedTree κ V) {k : κ} {v : V} (h : t.get k = some v) :
    (t.remove k).entries.length < t.entries.length := by
  have hmem := (t.get_eq_some_iff k v).mp h
  exact List.length_filter_lt_length_iff_exists.mpr ⟨(k, v), hmem, by simp⟩

/-! ### Keys that are numbers -/

lemma mem_keys_iff (t : OrderedTree κ V) (k : κ) :
    k ∈ t.entries.map Prod.fst ↔ (t.get k).isSome := by
  rw [Option.isSome_iff_exists]
  simp [get_eq_some_iff]

lemma keys_sorted (t : OrderedTree κ V) : (t.entries.map Prod.fst).Pairwise (· < ·) :=
  List.pairwise_map.mpr t.sorted

lemma eq_of_sorted {l l' : List κ} (hl : l.Pairwise (· < ·)) (hl' : l'.Pairwise (· < ·))
    (h : ∀ k, k ∈ l ↔ k ∈ l') : l = l' := by
  have hperm : l.Perm l' :=
    (List.perm_ext_iff_of_nodup (hl.imp fun h => h.ne) (hl'.imp fun h => h.ne)).mpr h
  exact hperm.eq_of_pairwise (fun a b _ _ hab hba => absurd hba hab.not_gt) hl hl'

/-- Keys that stand for the valid numbers, in the order of the numbers. -/
structure NumberKeys (key : Nat → κ) (valid : Nat → Prop) : Prop where
  lt_iff : ∀ {m n}, valid m → valid n → (key m < key n ↔ m < n)
  down : ∀ {m n}, m < n → valid n → valid m

lemma NumberKeys.id : NumberKeys (fun n : Nat => n) fun _ => True :=
  ⟨fun _ _ => Iff.rfl, fun _ _ => True.intro⟩

lemma NumberKeys.inj {key : Nat → κ} {valid : Nat → Prop} (hkey : NumberKeys key valid) {m n : Nat}
    (hm : valid m) (hn : valid n) (h : key m = key n) : m = n := by
  apply Nat.le_antisymm
  · exact Nat.not_lt.mp fun hlt => absurd h ((hkey.lt_iff hn hm).mpr hlt).ne'
  · exact Nat.not_lt.mp fun hlt => absurd h ((hkey.lt_iff hm hn).mpr hlt).ne

lemma get_applyBatch_key {β : Type} {key : Nat → κ} {valid : Nat → Prop}
    (hkey : NumberKeys key valid) (number : β → Nat) (value : β → V) (batch : List β)
    (hbatch : ∀ b ∈ batch, valid (number b)) {t : OrderedTree κ V} {u : OrderedTree Nat V} {n : Nat}
    (hn : valid n) (h : t.get (key n) = u.get n) :
    (t.applyBatch (batch.map fun b => (key (number b), value b))).get (key n) =
      (u.applyBatch (batch.map fun b => (number b, value b))).get n := by
  induction batch generalizing t u with
  | nil => exact h
  | cons b batch ih =>
    apply ih fun b' hb' => hbatch b' (List.mem_cons_of_mem _ hb')
    rw [get_insert, get_insert]
    by_cases heq : n = number b
    · rw [if_pos heq, if_pos (congrArg key heq)]
    · rw [if_neg heq, if_neg fun hk => heq (hkey.inj hn (hbatch b List.mem_cons_self) hk)]
      exact h

/-- The keys of a range that holds the numbers below a bound, in order. -/
theorem keys_below {key : Nat → κ} {valid : Nat → Prop} (hkey : NumberKeys key valid)
    (t : OrderedTree κ V) (hkeys : ∀ k, (t.get k).isSome → ∃ m, valid m ∧ k = key m) {upTo : Nat}
    (hupTo : valid upTo) {range : κ → Bool}
    (hrange : ∀ m, valid m → range (key m) = decide (m < upTo)) :
    (t.entries.map Prod.fst).filter range =
      ((List.range upTo).filter fun n => (t.get (key n)).isSome).map key := by
  apply eq_of_sorted (t.keys_sorted.filter _)
  · rw [List.pairwise_map]
    apply List.Pairwise.imp_of_mem _ (List.pairwise_lt_range.filter _)
    intro m n hm hn hmn
    have hm' := List.mem_range.mp (List.mem_filter.mp hm).1
    have hn' := List.mem_range.mp (List.mem_filter.mp hn).1
    exact (hkey.lt_iff (hkey.down hm' hupTo) (hkey.down hn' hupTo)).mpr hmn
  · intro k
    rw [List.mem_filter, mem_keys_iff, List.mem_map]
    constructor
    · rintro ⟨hget, hin⟩
      obtain ⟨m, hm, rfl⟩ := hkeys k hget
      rw [hrange m hm] at hin
      have hmem : m ∈ List.range upTo := List.mem_range.mpr (of_decide_eq_true hin)
      exact ⟨m, List.mem_filter.mpr ⟨hmem, hget⟩, rfl⟩
    · rintro ⟨m, hm, rfl⟩
      obtain ⟨hmem, hget⟩ := List.mem_filter.mp hm
      have hlt := List.mem_range.mp hmem
      exact ⟨hget, (hrange m (hkey.down hlt hupTo)).trans (decide_eq_true hlt)⟩

end OrderedTree
