import Mathlib.Data.List.Basic

/-!
# Updating the first match of a list

A list searched by key is updated at its first match, or extended when there is none.
The update is local to the elements with that key: it commutes with filtering by any key.
-/

namespace FirstMatch

variable {α : Type}

/-- Applies `f` to the first element that satisfies `p`, or appends `extra`. -/
def modifyFirstOrAppend (p : α → Bool) (f : α → α) (extra : List α) : List α → List α
  | [] => extra
  | a :: as => if p a then f a :: as else a :: modifyFirstOrAppend p f extra as

theorem modifyFirstOrAppend_eq_append (p : α → Bool) (f : α → α) (extra l : List α)
    (h : ∀ a ∈ l, p a = false) : modifyFirstOrAppend p f extra l = l ++ extra := by
  induction l with
  | nil => rfl
  | cons a l ih =>
    have ha : p a = false := h a List.mem_cons_self
    simp [modifyFirstOrAppend, ha, ih fun b hb => h b (List.mem_cons_of_mem a hb)]

theorem modifyFirstOrAppend_of_find (p : α → Bool) (f : α → α) (extra : List α) {l : List α} {a : α}
    (h : l.find? p = some a) : ∃ before after, l = before ++ a :: after ∧
      (∀ b ∈ before, p b = false) ∧ modifyFirstOrAppend p f extra l = before ++ f a :: after := by
  induction l with
  | nil => exact (Option.some_ne_none a h.symm).elim
  | cons b l ih =>
    by_cases hb : p b = true
    · rw [List.find?_cons_of_pos hb] at h
      obtain rfl := Option.some.inj h
      exact ⟨[], l, rfl, fun _ hmem => absurd hmem List.not_mem_nil, if_pos hb⟩
    · rw [List.find?_cons_of_neg hb] at h
      obtain ⟨before, after, hl, hbefore, hmodify⟩ := ih h
      refine ⟨b :: before, after, ?_, ?_, ?_⟩
      · rw [hl, List.cons_append]
      · intro b' hmem
        cases hmem with
        | head => exact Bool.eq_false_iff.mpr hb
        | tail _ hmem => exact hbefore b' hmem
      · rw [modifyFirstOrAppend, if_neg hb, hmodify, List.cons_append]

theorem mem_modifyFirstOrAppend (p : α → Bool) (f : α → α) (extra l : List α) {b : α}
    (h : b ∈ modifyFirstOrAppend p f extra l) :
    b ∈ l ∨ (∃ a ∈ l, p a = true ∧ b = f a) ∨ b ∈ extra := by
  cases hfind : l.find? p with
  | none =>
    have hnone : ∀ a ∈ l, p a = false := by simpa using hfind
    rw [modifyFirstOrAppend_eq_append p f extra l hnone, List.mem_append] at h
    exact h.imp id Or.inr
  | some a =>
    obtain ⟨before, after, hl, -, hmodify⟩ := modifyFirstOrAppend_of_find p f extra hfind
    rw [hmodify, List.mem_append, List.mem_cons] at h
    rw [hl]
    simp only [List.mem_append, List.mem_cons]
    rcases h with h | rfl | h
    · exact Or.inl (Or.inl h)
    · exact Or.inr (Or.inl ⟨a, Or.inr (Or.inl rfl), List.find?_some hfind, rfl⟩)
    · exact Or.inl (Or.inr (Or.inr h))

/-- A first match that is the only match leaves none after it. -/
lemma filter_after_eq_nil (p : α → Bool) {before after : List α} {a : α} (ha : p a = true)
    (h : ((before ++ a :: after).filter p).length ≤ 1) : after.filter p = [] := by
  rw [List.filter_append, List.filter_cons_of_pos ha, List.length_append, List.length_cons] at h
  exact List.length_eq_zero_iff.mp (by omega)

/-- Among the elements that satisfy `p`, the update is the update of these elements alone. -/
theorem filter_modifyFirstOrAppend_same (p : α → Bool) (f : α → α) (extra l : List α)
    (hf : ∀ a, p a = true → p (f a) = true) (hextra : ∀ a ∈ extra, p a = true) :
    (modifyFirstOrAppend p f extra l).filter p =
      modifyFirstOrAppend p f extra (l.filter p) := by
  induction l with
  | nil => exact List.filter_eq_self.mpr hextra
  | cons a l ih =>
    by_cases h : p a = true
    · simp [modifyFirstOrAppend, h, hf a h]
    · simp [modifyFirstOrAppend, h, ih]

theorem filter_modifyFirstOrAppend_other (p q : α → Bool) (f : α → α) (extra l : List α)
    (hpq : ∀ a, p a = true → q a = false) (hf : ∀ a, p a = true → q (f a) = false)
    (hextra : ∀ a ∈ extra, q a = false) :
    (modifyFirstOrAppend p f extra l).filter q = l.filter q := by
  induction l with
  | nil => simpa [modifyFirstOrAppend, List.filter_eq_nil_iff] using hextra
  | cons a l ih =>
    by_cases h : p a = true
    · simp [modifyFirstOrAppend, h, hpq a h, hf a h]
    · by_cases hq : q a = true <;> simp [modifyFirstOrAppend, h, hq, ih]

theorem length_modifyFirstOrAppend_le_one (p : α → Bool) (f : α → α) (extra l : List α)
    (hl : l.length ≤ 1) (hp : ∀ a ∈ l, p a = true) (hextra : extra.length ≤ 1) :
    (modifyFirstOrAppend p f extra l).length ≤ 1 := by
  match l, hl with
  | [], _ => exact hextra
  | [a], _ => simp [modifyFirstOrAppend, hp a]

end FirstMatch
