import Mathlib.Data.List.Basic

/-!
# Collecting fallible results

`List.mapM` in `Except` returns all results or some error; it drops no element.
-/

namespace Collect

variable {ε α β : Type} {f : α → Except ε β}

lemma mapM_cons_ok {a : α} {as : List α} {bs : List β} :
    (a :: as).mapM f = .ok bs ↔ ∃ b bs', f a = .ok b ∧ as.mapM f = .ok bs' ∧ bs = b :: bs' := by
  rw [List.mapM_cons]
  cases f a with
  | error e => simp [bind, Except.bind]
  | ok b =>
    cases as.mapM f with
    | error e => simp [bind, Except.bind]
    | ok bs' => simp [bind, Except.bind, pure, Except.pure, eq_comm]

theorem exists_ok_of_mapM {as : List α} {bs : List β} (h : as.mapM f = .ok bs) {a : α}
    (ha : a ∈ as) : ∃ b, f a = .ok b := by
  induction as generalizing bs with
  | nil => exact (List.not_mem_nil ha).elim
  | cons a' as ih =>
    obtain ⟨b, bs', hb, hbs, -⟩ := mapM_cons_ok.mp h
    rcases List.mem_cons.mp ha with rfl | ha
    · exact ⟨b, hb⟩
    · exact ih hbs ha

/-- The collected results are the results of the elements. -/
theorem mem_iff_of_mapM {as : List α} {bs : List β} (h : as.mapM f = .ok bs) (b : β) :
    b ∈ bs ↔ ∃ a ∈ as, f a = .ok b := by
  induction as generalizing bs with
  | nil =>
    cases h
    simp
  | cons a as ih =>
    obtain ⟨b', bs', hb, hbs, rfl⟩ := mapM_cons_ok.mp h
    rw [List.mem_cons, List.exists_mem_cons_iff, ih hbs, hb, Except.ok.injEq, eq_comm]

theorem exists_error_of_mapM {as : List α} {e : ε} (h : as.mapM f = .error e) :
    ∃ a ∈ as, f a = .error e := by
  induction as with
  | nil => simp [pure, Except.pure] at h
  | cons a as ih =>
    rw [List.mapM_cons] at h
    cases hf : f a with
    | error e' =>
      rw [hf] at h
      cases h
      exact ⟨a, List.mem_cons_self .., hf⟩
    | ok b =>
      rw [hf] at h
      cases has : as.mapM f with
      | error e' =>
        rw [has] at h
        cases h
        obtain ⟨a', ha', hfa'⟩ := ih has
        exact ⟨a', List.mem_cons_of_mem _ ha', hfa'⟩
      | ok bs =>
        rw [has] at h
        cases h

lemma length_of_mapM {as : List α} {bs : List β} (h : as.mapM f = .ok bs) :
    bs.length = as.length := by
  induction as generalizing bs with
  | nil =>
    cases h
    rfl
  | cons a as ih =>
    obtain ⟨b, bs', -, hbs, rfl⟩ := mapM_cons_ok.mp h
    rw [List.length_cons, List.length_cons, ih hbs]

/-- A function of the results may be applied after they are collected. -/
lemma mapM_except_map {γ : Type} (f : α → Except ε β) (g : β → γ) (as : List α) :
    as.mapM (fun a => (f a).map g) = (as.mapM f).map (List.map g) := by
  induction as with
  | nil => rfl
  | cons a as ih =>
    rw [List.mapM_cons, List.mapM_cons, ih]
    cases f a with
    | error e => rfl
    | ok b => cases as.mapM f <;> rfl

lemma mapM_eq_ofFn {as : List α} {b : Fin as.length → β} (h : ∀ i, f (as.get i) = .ok (b i)) :
    as.mapM f = .ok (List.ofFn b) := by
  induction as with
  | nil => rfl
  | cons a as ih =>
    rw [List.ofFn_succ]
    exact mapM_cons_ok.mpr ⟨_, _, h 0, ih fun i => h i.succ, rfl⟩

variable {g : α → Option β}

lemma mapM_option_of_eq {b : α → β} {as : List α} (h : ∀ a ∈ as, g a = some (b a)) :
    as.mapM g = some (as.map b) := by
  induction as with
  | nil => rfl
  | cons a as ih =>
    rw [List.mapM_cons, h a List.mem_cons_self, ih fun a' ha' => h a' (List.mem_cons_of_mem a ha')]
    rfl

lemma isSome_of_mapM_option {as : List α} {bs : List β} (h : as.mapM g = some bs) {a : α}
    (ha : a ∈ as) : (g a).isSome := by
  induction as generalizing bs with
  | nil => exact (List.not_mem_nil ha).elim
  | cons a' as ih =>
    rw [List.mapM_cons] at h
    cases hg : g a' with
    | none =>
      rw [hg] at h
      cases h
    | some b =>
      cases has : as.mapM g with
      | none =>
        rw [hg, has] at h
        cases h
      | some bs' =>
        rcases List.mem_cons.mp ha with rfl | ha
        · rw [hg]
          rfl
        · exact ih has ha

end Collect
