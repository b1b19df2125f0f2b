import Mathlib.Logic.Function.Basic
import Mathlib.Data.List.Basic

/-!
# Nested frames over two undo logs

Every write to a memory is logged with the value it replaces, in one of two logs. A log is
a list of lists, so that an open frame can name the place where it began in both. Undoing
one of the logs from there on brings the memory of the frame's beginning back, as long as
the other log has nothing to undo.
-/

namespace UndoLog

variable {α K V : Type}

/-- The entries from a list of a log on. -/
def since (n : Nat) (log : List (List α)) : List α := (log.drop n).flatten

def pushLast (e : α) : List (List α) → List (List α)
  | [] => []
  | [l] => [l ++ [e]]
  | l :: ls => l :: pushLast e ls

lemma pushLast_cons (e : α) (l l' : List α) (ls : List (List α)) :
    pushLast e (l :: l' :: ls) = l :: pushLast e (l' :: ls) :=
  rfl

lemma length_pushLast (e : α) (log : List (List α)) : (pushLast e log).length = log.length := by
  fun_induction pushLast e log with
  | case1 => rfl
  | case2 l => rfl
  | case3 l ls hne ih => rw [List.length_cons, ih, List.length_cons]

lemma mem_pushLast {e : α} {log : List (List α)} {entries : List α}
    (h : entries ∈ pushLast e log) : entries ∈ log ∨ ∃ l ∈ log, entries = l ++ [e] := by
  fun_induction pushLast e log with
  | case1 => exact (List.not_mem_nil h).elim
  | case2 l => exact Or.inr ⟨l, List.mem_singleton_self l, List.mem_singleton.mp h⟩
  | case3 l ls hne ih =>
    rcases List.mem_cons.mp h with rfl | h
    · exact Or.inl (List.mem_cons_self ..)
    · rcases ih h with h | ⟨l', hl', rfl⟩
      · exact Or.inl (List.mem_cons_of_mem _ h)
      · exact Or.inr ⟨l', List.mem_cons_of_mem _ hl', rfl⟩

lemma take_pushLast {n : Nat} (e : α) {log : List (List α)} (h : n < log.length) :
    (pushLast e log).take n = log.take n := by
  induction log generalizing n with
  | nil => rfl
  | cons l ls ih =>
    cases n with
    | zero => rw [List.take_zero, List.take_zero]
    | succ n =>
      have hn : n < ls.length := Nat.lt_of_succ_lt_succ h
      cases ls with
      | nil => exact (Nat.not_lt_zero n hn).elim
      | cons l' ls => rw [pushLast_cons, List.take_succ_cons, ih hn, List.take_succ_cons]

lemma since_pushLast {n : Nat} (e : α) {log : List (List α)} (h : n < log.length) :
    since n (pushLast e log) = since n log ++ [e] := by
  unfold since
  induction log generalizing n with
  | nil => exact (Nat.not_lt_zero n h).elim
  | cons l ls ih =>
    cases ls with
    | nil =>
      obtain rfl : n = 0 := Nat.lt_one_iff.mp h
      simp [pushLast]
    | cons l' ls =>
      rw [pushLast_cons]
      cases n with
      | zero =>
        have htail := ih (Nat.succ_pos ls.length)
        rw [List.drop_zero, List.drop_zero] at htail ⊢
        rw [List.flatten_cons, htail]
        simp
      | succ n =>
        rw [List.drop_succ_cons, List.drop_succ_cons]
        exact ih (Nat.lt_of_succ_lt_succ h)

lemma since_append_replicate (n r : Nat) (log : List (List α)) :
    since n (log ++ List.replicate r []) = since n log := by
  unfold since
  rw [List.drop_append, List.drop_replicate, List.flatten_append]
  simp

lemma since_take_append {n m : Nat} (h : n ≤ m) (log : List (List α)) :
    since n (log.take m) ++ since m log = since n log := by
  unfold since
  have hdrop : log.drop m = (log.drop n).drop (m - n) := by
    rw [List.drop_drop, Nat.add_sub_cancel' h]
  rw [List.drop_take, hdrop, ← List.flatten_append, List.take_append_drop]

variable [DecidableEq K]

/-- Undoes entries, each a key with the value it had, the last entry first. -/
def restore (entries : List (K × V)) (memory : K → V) : K → V :=
  entries.foldr (fun e memory => Function.update memory e.1 e.2) memory

lemma restore_append (entries entries' : List (K × V)) (memory : K → V) :
    restore (entries ++ entries') memory = restore entries (restore entries' memory) :=
  List.foldr_append

/-- An open frame: where it began in both logs, and the memory it began with. -/
structure Frame (K V : Type) where
  start : Nat
  memory : K → V

/-- The entries of either log lead back from a memory to an earlier one if the other log has
none. -/
def LeadBack (a b : List (K × V)) (earlier memory : K → V) : Prop :=
  (b = [] → earlier = restore a memory) ∧ (a = [] → earlier = restore b memory)

/-- Both logs lead from each open frame to the frame it is nested in. -/
def Nested (A B : List (List (K × V))) (memory : K → V) : List (Frame K V) → Prop
  | [] => True
  | f :: frames =>
    LeadBack (since f.start A) (since f.start B) f.memory memory ∧
      Nested (A.take f.start) (B.take f.start) f.memory frames

variable {A B : List (List (K × V))} {memory : K → V} {f : Frame K V} {frames : List (Frame K V)}

lemma LeadBack.append {a b a' b' : List (K × V)} {earlier middle : K → V}
    (h : LeadBack a b earlier middle) (h' : LeadBack a' b' middle memory) :
    LeadBack (a ++ a') (b ++ b') earlier memory := by
  constructor
  · intro hb
    rw [List.append_eq_nil_iff] at hb
    rw [restore_append, ← h'.1 hb.2]
    exact h.1 hb.1
  · intro ha
    rw [List.append_eq_nil_iff] at ha
    rw [restore_append, ← h'.2 ha.2]
    exact h.2 ha.1

lemma Nested.symm (h : Nested A B memory frames) : Nested B A memory frames := by
  induction frames generalizing A B memory with
  | nil => trivial
  | cons f frames ih => exact ⟨⟨h.1.2, h.1.1⟩, ih h.2⟩

lemma Nested.pad (h : Nested A B memory frames) (r : Nat) :
    Nested (A ++ List.replicate r []) B memory frames := by
  induction frames generalizing A B memory r with
  | nil => trivial
  | cons f frames ih =>
    constructor
    · rw [since_append_replicate]
      exact h.1
    · rw [List.take_append, List.take_replicate]
      exact ih h.2 _

/-- Nor do the entries of a log after the last frame began, if there are none. -/
lemma nested_take_iff {m : Nat} (hB : since m B = []) (hstart : ∀ f ∈ frames, f.start ≤ m) :
    Nested A (B.take m) memory frames ↔ Nested A B memory frames := by
  cases frames with
  | nil => exact Iff.rfl
  | cons f frames =>
    have hle : f.start ≤ m := hstart f (List.mem_cons_self ..)
    unfold Nested
    rw [← since_take_append hle B, hB, List.append_nil, List.take_take, Nat.min_eq_left hle]

/-- A write logs the value it replaces. -/
lemma Nested.write (h : Nested A B memory frames)
    (hstart : ∀ f ∈ frames, f.start < A.length) (k : K) (v : V) :
    Nested (pushLast (k, memory k) A) B (Function.update memory k v) frames := by
  cases frames with
  | nil => trivial
  | cons f frames =>
    have hlt : f.start < A.length := hstart f (List.mem_cons_self ..)
    unfold Nested
    rw [since_pushLast _ hlt, take_pushLast _ hlt]
    refine ⟨⟨fun hB => ?_, fun hA => ?_⟩, h.2⟩
    · rw [restore_append, h.1.1 hB]
      simp [restore]
    · exact (List.cons_ne_nil _ _ (List.append_eq_nil_iff.mp hA).2).elim

/-- A frame is entered where the first log ends, if the other log has no entries from there. -/
lemma Nested.enter (h : Nested A B memory frames) (hB : since A.length B = [])
    (hstart : ∀ f ∈ frames, f.start ≤ A.length) :
    Nested (A ++ [[]]) B memory (⟨A.length, memory⟩ :: frames) := by
  constructor
  · have hA : since A.length (A ++ [[]]) = [] := by
      unfold since
      rw [List.drop_left]
      rfl
    dsimp only
    rw [hA, hB]
    exact ⟨fun _ => rfl, fun _ => rfl⟩
  · dsimp only
    rw [List.take_left, nested_take_iff hB hstart]
    exact h

/-- A frame that is kept becomes a part of the frame around it. -/
lemma Nested.leave (h : Nested A B memory (f :: frames))
    (hstart : ∀ g ∈ frames, g.start ≤ f.start) : Nested A B memory frames := by
  cases frames with
  | nil => trivial
  | cons g frames =>
    have hle : g.start ≤ f.start := hstart g (List.mem_cons_self ..)
    obtain ⟨hback, hback', hnested⟩ := h
    rw [List.take_take, List.take_take, Nat.min_eq_left hle] at hnested
    refine ⟨?_, hnested⟩
    rw [← since_take_append hle A, ← since_take_append hle B]
    exact hback'.append hback

/-- A frame is undone with the first log, if the other log has no entries from where it began. -/
lemma Nested.undo (h : Nested A B memory (f :: frames)) (hB : since f.start B = [])
    (hstart : ∀ g ∈ frames, g.start ≤ f.start) :
    restore (since f.start A) memory = f.memory ∧
      Nested (A.take f.start) B f.memory frames := by
  refine ⟨(h.1.1 hB).symm, ?_⟩
  rw [← nested_take_iff hB hstart]
  exact h.2

end UndoLog
