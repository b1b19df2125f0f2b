import Mathlib.Algebra.Group.Nat.Defs
import Mathlib.Data.List.Induction
import Mathlib.Data.List.Lex
import Mathlib.Order.Lattice

/-!
# Positional notation

Numerals of one length, most significant digit first, are in lexicographic order as the numbers
they spell are in numeric order.
-/

namespace Positional

variable {α : Type} {base : Nat} {digit : α → Nat}

def value (base : Nat) (digit : α → Nat) (numeral : List α) : Nat :=
  numeral.foldl (fun n a => n * base + digit a) 0

lemma value_append_singleton (numeral : List α) (a : α) :
    value base digit (numeral ++ [a]) = value base digit numeral * base + digit a := by
  unfold value
  rw [List.foldl_append, List.foldl_cons, List.foldl_nil]

lemma value_cons (a : α) (numeral : List α) :
    value base digit (a :: numeral) =
      digit a * base ^ numeral.length + value base digit numeral := by
  induction numeral using List.reverseRecOn with
  | nil =>
    change 0 * base + digit a = digit a * 1 + 0
    omega
  | append_singleton numeral last ih =>
    have hcons : value base digit (a :: (numeral ++ [last])) =
        value base digit (a :: numeral) * base + digit last :=
      value_append_singleton (a :: numeral) last
    rw [hcons, ih, value_append_singleton, List.length_append, List.length_singleton,
      Nat.pow_succ, ← Nat.mul_assoc, Nat.add_mul, Nat.add_assoc]

lemma value_lt (hdigit : ∀ a, digit a < base) (numeral : List α) :
    value base digit numeral < base ^ numeral.length := by
  induction numeral with
  | nil => exact Nat.one_pos
  | cons a numeral ih =>
    have hmul := Nat.mul_le_mul_right (base ^ numeral.length) (hdigit a)
    rw [Nat.succ_mul] at hmul
    rw [value_cons, List.length_cons, Nat.pow_succ']
    omega

/-- A greater first digit outweighs all later digits. -/
lemma value_cons_lt (hdigit : ∀ a, digit a < base) {a b : α} (h : digit a < digit b)
    {numeral numeral' : List α} (hlength : numeral.length = numeral'.length) :
    value base digit (a :: numeral) < value base digit (b :: numeral') := by
  have hmul := Nat.mul_le_mul_right (base ^ numeral'.length) h
  have hlt := value_lt hdigit numeral
  rw [Nat.succ_mul] at hmul
  rw [hlength] at hlt
  rw [value_cons, value_cons, hlength]
  omega

variable [LinearOrder α]

/-- Numerals of one length are ordered as the numbers they spell. -/
theorem lt_iff_value_lt (hdigit : ∀ a, digit a < base)
    (hmono : ∀ a b, a < b ↔ digit a < digit b) (numeral numeral' : List α)
    (hlength : numeral.length = numeral'.length) :
    numeral < numeral' ↔ value base digit numeral < value base digit numeral' := by
  induction numeral generalizing numeral' with
  | nil =>
    have hnil : numeral' = [] := List.length_eq_zero_iff.mp hlength.symm
    rw [hnil]
    exact iff_of_false (lt_irrefl _) (lt_irrefl _)
  | cons a numeral ih =>
    cases numeral' with
    | nil => exact absurd hlength (Nat.succ_ne_zero _)
    | cons b numeral' =>
      have htail : numeral.length = numeral'.length := Nat.succ.inj hlength
      rw [List.cons_lt_cons_iff]
      rcases lt_trichotomy a b with hab | rfl | hba
      · have hvalue := value_cons_lt hdigit ((hmono a b).mp hab) htail
        exact iff_of_true (Or.inl hab) hvalue
      · rw [value_cons, value_cons, htail, Nat.add_lt_add_iff_left, ← ih numeral' htail]
        exact ⟨fun h => (h.resolve_left (lt_irrefl a)).2, fun h => Or.inr ⟨rfl, h⟩⟩
      · have hvalue := value_cons_lt hdigit ((hmono b a).mp hba) htail.symm
        apply iff_of_false
        · rintro (hab | ⟨rfl, -⟩)
          · exact absurd hab hba.not_gt
          · exact lt_irrefl _ hba
        · exact hvalue.not_gt

lemma append_lt_append_iff (p l l' : List α) : p ++ l < p ++ l' ↔ l < l' := by
  constructor
  · intro h
    rcases lt_trichotomy l l' with hlt | rfl | hgt
    · exact hlt
    · exact absurd h (lt_irrefl _)
    · exact absurd h (List.append_left_lt hgt).not_gt
  · exact List.append_left_lt

end Positional
