import Mathlib.Data.List.Induction
import AssertionExecution.Library.HashMap

/-!
# Read-through caches

A cache in front of a fixed source. Reads fill it with what the source holds, writes go to
the cache only, and entries may be dropped at any time. What a key reads as depends on the
writes that have not been dropped and on the source, not on which reads filled the cache.
-/

namespace ReadThrough

variable {K V : Type}

inductive Event (K V : Type) where
  | write (k : K) (v : V)
  | fill (k : K)
  | drop (k : K)
  | clear

variable [DecidableEq K] (source : K → Option V)

/-- A read looks into the cache first and caches what it finds in the source. -/
def fill (m : HashMap K V) (k : K) : HashMap K V :=
  match m.lookup k with
  | some _ => m
  | none =>
    match source k with
    | some v => m.insert k v
    | none => m

def apply (m : HashMap K V) : Event K V → HashMap K V
  | .write k v => m.insert k v
  | .fill k => fill source m k
  | .drop k => m.erase k
  | .clear => ∅

def applyAll (m : HashMap K V) (events : List (Event K V)) : HashMap K V :=
  events.foldl (apply source) m

/-- The written value of a key, as long as it has not been dropped. -/
def keep (k : K) (kept : Option V) : Event K V → Option V
  | .write k' v => if k = k' then some v else kept
  | .fill _ => kept
  | .drop k' => if k = k' then none else kept
  | .clear => none

def keptValue (events : List (Event K V)) (k : K) : Option V :=
  events.foldl (keep k) none

/-- Every entry is a write that has been kept or comes from the source, and no kept write is
missing. -/
def Faithful (m : HashMap K V) (kept : K → Option V) : Prop :=
  ∀ k, m.lookup k = kept k ∨ (kept k = none ∧ m.lookup k = source k)

lemma lookup_fill (m : HashMap K V) (k k' : K) :
    (fill source m k).lookup k' = if k' = k then (m.lookup k).or (source k) else m.lookup k' := by
  unfold fill
  by_cases h : k' = k
  · subst h
    rw [if_pos rfl]
    cases hm : m.lookup k' with
    | some v => exact hm
    | none =>
      cases hs : source k' with
      | some v => exact AList.lookup_insert m
      | none => exact hm
  · rw [if_neg h]
    cases m.lookup k with
    | some v => rfl
    | none =>
      cases source k with
      | some v => exact AList.lookup_insert_ne h
      | none => rfl

variable {source}

lemma Faithful.apply {m : HashMap K V} {kept : K → Option V} (h : Faithful source m kept)
    (e : Event K V) : Faithful source (apply source m e) (fun k => keep k (kept k) e) := by
  intro k
  cases e with
  | write k' v =>
    simp only [ReadThrough.apply, keep]
    rw [HashMap.lookup_insert_ite]
    by_cases hk : k = k'
    · rw [if_pos hk, if_pos hk]
      exact Or.inl rfl
    · rw [if_neg hk, if_neg hk]
      exact h k
  | fill k' =>
    simp only [ReadThrough.apply, keep]
    rw [lookup_fill]
    by_cases hk : k = k'
    · subst hk
      rw [if_pos rfl]
      rcases h k with hm | ⟨hnone, hm⟩
      · rw [hm]
        cases kept k with
        | some v => exact Or.inl rfl
        | none => exact Or.inr ⟨rfl, rfl⟩
      · rw [hm, Option.or_self]
        exact Or.inr ⟨hnone, rfl⟩
    · rw [if_neg hk]
      exact h k
  | drop k' =>
    simp only [ReadThrough.apply, keep]
    by_cases hk : k = k'
    · subst hk
      rw [if_pos rfl, AList.lookup_erase]
      exact Or.inl rfl
    · rw [if_neg hk, AList.lookup_erase_ne hk]
      exact h k
  | clear => exact Or.inl rfl

theorem faithful_applyAll (events : List (Event K V)) :
    Faithful source (applyAll source ∅ events) (keptValue events) := by
  induction events using List.reverseRecOn with
  | nil => exact fun k => Or.inl rfl
  | append_singleton events e ih =>
    have hstep := ih.apply e
    unfold applyAll keptValue at hstep ⊢
    simpa only [List.foldl_append, List.foldl_cons, List.foldl_nil] using hstep

/-- A read sees the kept write, and else the source. -/
theorem Faithful.view {m : HashMap K V} {kept : K → Option V} (h : Faithful source m kept)
    (k : K) : (m.lookup k).or (source k) = (kept k).or (source k) := by
  rcases h k with hm | ⟨hnone, hm⟩
  · rw [hm]
  · rw [hm, hnone, Option.none_or, Option.or_self]

theorem forall_applyAll {P : K → V → Prop} (hsource : ∀ k v, source k = some v → P k v)
    {events : List (Event K V)} (hwrites : ∀ k v, .write k v ∈ events → P k v) {k : K} {v : V}
    (h : (applyAll source ∅ events).lookup k = some v) : P k v := by
  have hkept : ∀ (events : List (Event K V)) (kept : Option V),
      (∀ k v, .write k v ∈ events → P k v) → (∀ v, kept = some v → P k v) →
      ∀ v, events.foldl (keep k) kept = some v → P k v := by
    intro events
    induction events with
    | nil => exact fun kept _ hkept => hkept
    | cons e events ih =>
      intro kept hwrites hkept
      apply ih
      · exact fun k v hmem => hwrites k v (List.mem_cons_of_mem _ hmem)
      · intro v hv
        cases e with
        | write k' v' =>
          rw [keep] at hv
          split_ifs at hv with hk
          · cases hv
            rw [hk]
            exact hwrites k' v (List.mem_cons_self ..)
          · exact hkept v hv
        | fill k' => exact hkept v hv
        | drop k' =>
          rw [keep] at hv
          split_ifs at hv
          exact hkept v hv
        | clear => exact (Option.some_ne_none v hv.symm).elim
  rcases faithful_applyAll events k with hm | ⟨-, hm⟩
  · exact hkept events none hwrites (fun v hv => (Option.some_ne_none v hv.symm).elim) v
      (hm.symm.trans h)
  · exact hsource k v (hm.symm.trans h)

end ReadThrough
