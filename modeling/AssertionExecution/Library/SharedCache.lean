import Mathlib.Data.List.Induction
import AssertionExecution.Library.HashMap

/-!
# Shared caches

Readers with sources of their own share one cache. A read that finds nothing in the cache takes
what its source holds and puts it there later; other reads, writes and evictions may come in
between.
-/

namespace SharedCache

variable {S K V : Type}

inductive Event (S K V : Type) where
  /-- A read finds nothing. -/
  | miss (s : S) (k : K)
  /-- A read that has missed puts what its source holds. -/
  | put (s : S) (k : K)
  | write (k : K) (v : V)
  | drop (k : K)
  | clear

/-- The cache and the reads that have missed and not put yet. -/
structure State (S K V : Type) where
  cache : HashMap K V
  fetching : List (S × K)

def State.start : State S K V := ⟨∅, []⟩

variable [DecidableEq K] (source : S → K → Option V)

def put (m : HashMap K V) (s : S) (k : K) : HashMap K V :=
  match source s k with
  | some v => m.insert k v
  | none => m

inductive Step : State S K V → Event S K V → State S K V → Prop
  | miss {c : State S K V} (s : S) (k : K) (h : c.cache.lookup k = none) :
      Step c (.miss s k) ⟨c.cache, (s, k) :: c.fetching⟩
  | put {c : State S K V} {before after : List (S × K)} (s : S) (k : K)
      (h : c.fetching = before ++ (s, k) :: after) :
      Step c (.put s k) ⟨put source c.cache s k, before ++ after⟩
  | write {c : State S K V} (k : K) (v : V) : Step c (.write k v) ⟨c.cache.insert k v, c.fetching⟩
  | drop {c : State S K V} (k : K) : Step c (.drop k) ⟨c.cache.erase k, c.fetching⟩
  | clear {c : State S K V} : Step c .clear ⟨∅, c.fetching⟩

inductive Run : State S K V → List (Event S K V) → State S K V → Prop
  | refl (c : State S K V) : Run c [] c
  | step {c c' c'' : State S K V} {events : List (Event S K V)} {e : Event S K V}
      (h : Run c events c') (hstep : Step source c' e c'') : Run c (events ++ [e]) c''

/-! ### Where an entry comes from -/

inductive Origin (S V : Type) where
  | written (v : V)
  | filled (s : S)

def Origin.value (k : K) : Origin S V → Option V
  | written v => some v
  | filled s => source s k

/-- The latest write or successful put of the key, as long as it has not been dropped. -/
def nextOrigin (k : K) (o : Option (Origin S V)) : Event S K V → Option (Origin S V)
  | .miss _ _ => o
  | .put s k' => if k = k' ∧ (source s k').isSome then some (.filled s) else o
  | .write k' v => if k = k' then some (.written v) else o
  | .drop k' => if k = k' then none else o
  | .clear => none

def origin (events : List (Event S K V)) (k : K) : Option (Origin S V) :=
  events.foldl (nextOrigin source k) none

/-- The source that put the entry of the key. -/
def filler (events : List (Event S K V)) (k : K) : Option S :=
  match origin source events k with
  | some (.filled s) => some s
  | _ => none

/-- The cache without what the reads put there. -/
def applyWrite (m : HashMap K V) : Event S K V → HashMap K V
  | .miss _ _ => m
  | .put _ _ => m
  | .write k v => m.insert k v
  | .drop k => m.erase k
  | .clear => ∅

def onlyWrites (events : List (Event S K V)) : HashMap K V := events.foldl applyWrite ∅

variable {source} {c c' : State S K V} {events : List (Event S K V)} {k : K} {s : S} {v : V}

lemma origin_snoc (events : List (Event S K V)) (e : Event S K V) (k : K) :
    origin source (events ++ [e]) k = nextOrigin source k (origin source events k) e := by
  unfold origin
  rw [List.foldl_append]
  rfl

lemma onlyWrites_snoc (events : List (Event S K V)) (e : Event S K V) :
    onlyWrites (events ++ [e]) = applyWrite (onlyWrites events) e := by
  unfold onlyWrites
  rw [List.foldl_append]
  rfl

lemma filler_eq_some_iff :
    filler source events k = some s ↔ origin source events k = some (.filled s) := by
  unfold filler
  cases origin source events k with
  | none => simp
  | some o => cases o <;> simp

lemma lookup_put (m : HashMap K V) (s : S) (k k' : K) :
    (put source m s k).lookup k' =
      if k' = k then (source s k).or (m.lookup k) else m.lookup k' := by
  unfold put
  by_cases h : k' = k
  · subst h
    rw [if_pos rfl]
    cases source s k' with
    | none => rfl
    | some v => exact AList.lookup_insert m
  · rw [if_neg h]
    cases source s k with
    | none => rfl
    | some v => exact AList.lookup_insert_ne h

lemma lookup_applyWrite (m : HashMap K V) (e : Event S K V) (k : K) :
    (applyWrite m e).lookup k = match e with
      | .write k' v => if k = k' then some v else m.lookup k
      | .drop k' => if k = k' then none else m.lookup k
      | .clear => none
      | _ => m.lookup k := by
  cases e with
  | miss | put => rfl
  | clear => rfl
  | write k' v => exact HashMap.lookup_insert_ite m k' k v
  | drop k' =>
    unfold applyWrite
    dsimp only
    by_cases h : k = k'
    · rw [if_pos h, h, AList.lookup_erase]
    · rw [if_neg h, AList.lookup_erase_ne h]

/-- An entry has the value of its origin. -/
theorem Run.lookup (h : Run source .start events c) (k : K) :
    c.cache.lookup k = (origin source events k).bind (Origin.value source k) := by
  induction h with
  | refl => rfl
  | @step c' c'' events e h hstep ih =>
    rw [origin_snoc]
    cases hstep with
    | miss => exact ih
    | put s k' =>
      unfold nextOrigin
      dsimp only
      rw [lookup_put]
      by_cases hk : k = k'
      · subst hk
        rw [if_pos rfl, ih]
        cases hsource : source s k with
        | none => simp
        | some v => simp [Origin.value, hsource]
      · rw [if_neg hk, if_neg (fun hand => hk hand.1), ih]
    | write k' v =>
      unfold nextOrigin
      dsimp only
      rw [HashMap.lookup_insert_ite]
      by_cases hk : k = k'
      · rw [if_pos hk, if_pos hk]
        rfl
      · rw [if_neg hk, if_neg hk, ih]
    | drop k' =>
      unfold nextOrigin
      dsimp only
      by_cases hk : k = k'
      · rw [if_pos hk, hk, AList.lookup_erase]
        rfl
      · rw [if_neg hk, AList.lookup_erase_ne hk, ih]
    | clear => rfl

lemma isSome_of_filled (h : origin source events k = some (.filled s)) : (source s k).isSome := by
  induction events using List.reverseRecOn with
  | nil => cases h
  | append_singleton events e ih =>
    rw [origin_snoc] at h
    cases e with
    | miss => exact ih h
    | put s' k' =>
      unfold nextOrigin at h
      dsimp only at h
      split_ifs at h with hk
      · cases h
        rw [hk.1]
        exact hk.2
      · exact ih h
    | write k' v =>
      unfold nextOrigin at h
      dsimp only at h
      split_ifs at h
      · cases h
      · exact ih h
    | drop k' =>
      unfold nextOrigin at h
      dsimp only at h
      split_ifs at h
      exact ih h
    | clear => cases h

/-- What was written and not dropped is still there, or was overwritten by a put. -/
lemma lookup_onlyWrites (events : List (Event S K V)) (k : K) :
    match origin source events k with
    | some (.written v) => (onlyWrites events).lookup k = some v
    | some (.filled _) => True
    | none => (onlyWrites events).lookup k = none := by
  induction events using List.reverseRecOn with
  | nil => rfl
  | append_singleton events e ih =>
    rw [origin_snoc, onlyWrites_snoc, lookup_applyWrite]
    cases e with
    | miss => exact ih
    | put s k' =>
      unfold nextOrigin
      dsimp only
      by_cases hk : k = k' ∧ (source s k').isSome
      · rw [if_pos hk]
        trivial
      · rw [if_neg hk]
        exact ih
    | write k' v =>
      unfold nextOrigin
      dsimp only
      by_cases hk : k = k'
      · rw [if_pos hk, if_pos hk]
      · rw [if_neg hk, if_neg hk]
        exact ih
    | drop k' =>
      unfold nextOrigin
      dsimp only
      by_cases hk : k = k'
      · rw [if_pos hk, if_pos hk]
      · rw [if_neg hk, if_neg hk]
        exact ih
    | clear => rfl

/-! ### Puts that overwrite writes -/

lemma mem_of_lookup_foldl {m : HashMap K V} {events : List (Event S K V)}
    (h : (events.foldl applyWrite m).lookup k = some v) (hm : m.lookup k = none) :
    .write k v ∈ events := by
  induction events using List.reverseRecOn with
  | nil =>
    rw [List.foldl_nil, hm] at h
    cases h
  | append_singleton events e ih =>
    rw [List.foldl_append, List.foldl_cons, List.foldl_nil, lookup_applyWrite] at h
    cases e with
    | miss | put => exact List.mem_append_left _ (ih h)
    | write k' v' =>
      dsimp only at h
      split_ifs at h with hk
      · cases h
        rw [hk]
        exact List.mem_append_right _ (List.mem_singleton_self _)
      · exact List.mem_append_left _ (ih h)
    | drop k' =>
      dsimp only at h
      split_ifs at h
      exact List.mem_append_left _ (ih h)
    | clear => cases h

/-- A read that has not put yet missed when nothing was written. -/
lemma Run.missed (h : Run source .start events c) (hmem : (s, k) ∈ c.fetching) :
    ∃ before after, events = before ++ .miss s k :: after ∧
      (onlyWrites before).lookup k = none := by
  induction h with
  | refl => cases hmem
  | @step c' c'' events e h hstep ih =>
    have hsnoc : (s, k) ∈ c'.fetching → ∃ before after,
        events ++ [e] = before ++ .miss s k :: after ∧ (onlyWrites before).lookup k = none := by
      intro hmem'
      obtain ⟨before, after, rfl, hnone⟩ := ih hmem'
      exact ⟨before, after ++ [e], by simp, hnone⟩
    cases hstep with
    | miss s' k' hmiss =>
      rcases List.mem_cons.mp hmem with heq | hmem'
      · cases heq
        refine ⟨events, [], rfl, ?_⟩
        have hlookup := h.lookup k
        rw [hmiss] at hlookup
        have hwrites := @lookup_onlyWrites S K V _ source events k
        cases horigin : origin source events k with
        | none =>
          rw [horigin] at hwrites
          exact hwrites
        | some o =>
          rw [horigin] at hlookup
          cases o with
          | written v => cases hlookup
          | filled s' =>
            have hsome := isSome_of_filled horigin
            have hnone : none = source s' k := hlookup
            rw [← hnone] at hsome
            cases hsome
      · exact hsnoc hmem'
    | put s' k' hsplit =>
      apply hsnoc
      rw [hsplit]
      rcases List.mem_append.mp hmem with hbefore | hafter
      · exact List.mem_append_left _ hbefore
      · exact List.mem_append_right _ (List.mem_cons_of_mem _ hafter)
    | write | drop | clear => exact hsnoc hmem

/-- A read overwrites a write only if it missed before the write. -/
theorem Run.raced (h : Run source .start events c) (hfilled : filler source events k = some s)
    (hwritten : (onlyWrites events).lookup k = some v) :
    ∃ before between after, events = before ++ .miss s k :: (between ++ .put s k :: after) ∧
      .write k v ∈ between := by
  rw [filler_eq_some_iff] at hfilled
  induction h with
  | refl => cases hfilled
  | @step c' c'' events e h hstep ih =>
    have hsnoc : origin source events k = some (.filled s) → (onlyWrites events).lookup k = some v →
        ∃ before between after, events ++ [e] =
          before ++ .miss s k :: (between ++ .put s k :: after) ∧ .write k v ∈ between := by
      intro hfilled' hwritten'
      obtain ⟨before, between, after, rfl, hmem⟩ := ih hfilled' hwritten'
      exact ⟨before, between, after ++ [e], by simp, hmem⟩
    rw [origin_snoc] at hfilled
    rw [onlyWrites_snoc, lookup_applyWrite] at hwritten
    cases hstep with
    | miss => exact hsnoc hfilled hwritten
    | put s' k' hsplit =>
      unfold nextOrigin at hfilled
      dsimp only at hfilled hwritten
      split_ifs at hfilled with hk
      · obtain ⟨rfl, -⟩ := hk
        cases hfilled
        have hmem : (s, k) ∈ c'.fetching := by
          rw [hsplit]
          exact List.mem_append_right _ List.mem_cons_self
        obtain ⟨before, after, rfl, hnone⟩ := h.missed hmem
        refine ⟨before, after, [], by simp, ?_⟩
        unfold onlyWrites at hwritten
        rw [List.foldl_append, List.foldl_cons] at hwritten
        exact mem_of_lookup_foldl hwritten hnone
      · exact hsnoc hfilled hwritten
    | write k' v' =>
      unfold nextOrigin at hfilled
      dsimp only at hfilled hwritten
      split_ifs at hfilled with hk
      · cases hfilled
      · rw [if_neg hk] at hwritten
        exact hsnoc hfilled hwritten
    | drop k' =>
      unfold nextOrigin at hfilled
      dsimp only at hfilled hwritten
      split_ifs at hfilled with hk
      rw [if_neg hk] at hwritten
      exact hsnoc hfilled hwritten
    | clear => cases hfilled

end SharedCache
