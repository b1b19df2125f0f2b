import Mathlib.Order.Defs.Unbundled
import Mathlib.Tactic.Common

/-!
# A program logic for fallible stateful programs

A program of type `Eff ε σ α` reads and writes a state `σ` and either returns a value
or stops with an error. What it wrote before the error stays written. `Triple P x Q E`
states what holds after `x` in both cases, so that one proof of a program serves the
theorems about its successful runs and those about what a failure leaves behind.
-/

namespace EffectLogic

/-- Programs whose writes survive their own failure. -/
abbrev Eff (ε σ α : Type) := ExceptT ε (StateM σ) α

variable {ε σ α β : Type}

def exec (x : Eff ε σ α) (s : σ) : Except ε α × σ := x.run.run s

/-- From a state in `P`, the program ends in `Q` when it returns and in `E` when it fails. -/
def Triple (P : σ → Prop) (x : Eff ε σ α) (Q : α → σ → Prop) (E : ε → σ → Prop) : Prop :=
  ∀ s, P s → match exec x s with
    | (.ok a, s') => Q a s'
    | (.error e, s') => E e s'

@[simp] lemma exec_get (s : σ) : exec (get : Eff ε σ σ) s = (.ok s, s) := rfl

@[simp] lemma exec_set (s s' : σ) : exec (set s' : Eff ε σ PUnit) s = (.ok ⟨⟩, s') := rfl

@[simp] lemma exec_modify (f : σ → σ) (s : σ) :
    exec (modify f : Eff ε σ PUnit) s = (.ok ⟨⟩, f s) := rfl

theorem exec_bind (x : Eff ε σ α) (f : α → Eff ε σ β) (s : σ) :
    exec (x >>= f) s = match exec x s with
      | (.ok a, s') => exec (f a) s'
      | (.error e, s') => (.error e, s') := by
  change (match x.run.run s with | (r, s') => (ExceptT.bindCont f r).run s') = _
  unfold exec
  rcases x.run.run s with ⟨r, s'⟩
  cases r <;> rfl

@[simp] lemma exec_map (f : α → β) (x : Eff ε σ α) (s : σ) :
    exec (f <$> x) s = ((exec x s).1.map f, (exec x s).2) := by
  rw [← bind_pure_comp, exec_bind]
  rcases exec x s with ⟨_ | a, s'⟩ <;> rfl

lemma exists_exec_ok {x : Eff ε σ α} {s : σ} {a : α} (h : (exec x s).1 = .ok a) :
    ∃ s', exec x s = (.ok a, s') :=
  ⟨(exec x s).2, Prod.ext h rfl⟩

namespace Triple

variable {P P' : σ → Prop} {Q Q' : α → σ → Prop} {E E' : ε → σ → Prop}

theorem pure {a : α} (h : ∀ s, P s → Q a s) : Triple P (Pure.pure a : Eff ε σ α) Q E :=
  fun s hs => h s hs

theorem throw {e : ε} (h : ∀ s, P s → E e s) : Triple P (throw e : Eff ε σ α) Q E :=
  fun s hs => h s hs

theorem modify {f : σ → σ} {Q : PUnit → σ → Prop} (h : ∀ s, P s → Q ⟨⟩ (f s)) :
    Triple P (modify f : Eff ε σ PUnit) Q E :=
  fun s hs => h s hs

theorem trivial (x : Eff ε σ α) : Triple P x (fun _ _ => True) (fun _ _ => True) := by
  intro s _
  rcases exec x s with ⟨_ | _, _⟩ <;> exact True.intro

theorem bind {x : Eff ε σ α} {f : α → Eff ε σ β} {R : α → σ → Prop} {Q : β → σ → Prop}
    (hx : Triple P x R E) (hf : ∀ a, Triple (R a) (f a) Q E) : Triple P (x >>= f) Q E := by
  intro s hs
  have hxs := hx s hs
  rw [exec_bind]
  rcases hrun : exec x s with ⟨_ | a, s'⟩
  · rw [hrun] at hxs
    exact hxs
  · rw [hrun] at hxs
    exact hf a s' hxs

theorem consequence {x : Eff ε σ α} (h : Triple P x Q E) (hP : ∀ s, P' s → P s)
    (hQ : ∀ a s, Q a s → Q' a s) (hE : ∀ e s, E e s → E' e s) : Triple P' x Q' E' := by
  intro s hs
  have hspec := h s (hP s hs)
  rcases hrun : exec x s with ⟨e | a, s'⟩
  · rw [hrun] at hspec
    exact hE e s' hspec
  · rw [hrun] at hspec
    exact hQ a s' hspec

theorem mono_error {x : Eff ε σ α} (h : Triple P x Q E) (hE : ∀ e s, E e s → E' e s) :
    Triple P x Q E' :=
  h.consequence (fun _ hs => hs) (fun _ _ hq => hq) hE

theorem of_forall {x : Eff ε σ α} (h : ∀ s₀, P s₀ → Triple (fun s => s = s₀) x Q E) :
    Triple P x Q E :=
  fun s hs => h s hs s rfl

/-- Facts of the precondition that do not depend on the state. -/
theorem of_fact {F : Prop} {x : Eff ε σ α} (h : F → Triple P x Q E) :
    Triple (fun s => F ∧ P s) x Q E :=
  fun s hs => h hs.1 s hs.2

theorem ite {c : Prop} [Decidable c] {x y : Eff ε σ α} (hx : c → Triple P x Q E)
    (hy : ¬c → Triple P y Q E) : Triple P (if c then x else y) Q E := by
  by_cases h : c
  · rw [if_pos h]
    exact hx h
  · rw [if_neg h]
    exact hy h

theorem ok {x : Eff ε σ α} (h : Triple P x Q E) {s s' : σ} {a : α} (hs : P s)
    (hrun : exec x s = (.ok a, s')) : Q a s' := by
  have hspec := h s hs
  rw [hrun] at hspec
  exact hspec

theorem error {x : Eff ε σ α} (h : Triple P x Q E) {s s' : σ} {e : ε} (hs : P s)
    (hrun : exec x s = (.error e, s')) : E e s' := by
  have hspec := h s hs
  rw [hrun] at hspec
  exact hspec

theorem final {x : Eff ε σ α} {I : σ → Prop} (h : Triple P x (fun _ => I) (fun _ => I)) {s : σ}
    (hs : P s) : I (exec x s).2 := by
  have hspec := h s hs
  rcases hrun : exec x s with ⟨_ | _, s'⟩ <;>
    · rw [hrun] at hspec
      exact hspec

/-- A program that cannot fail returns. -/
theorem exists_ok {x : Eff ε σ α} (h : Triple P x Q E) {s : σ} (hs : P s)
    (hE : ∀ e s', ¬E e s') : ∃ a s', exec x s = (.ok a, s') ∧ Q a s' := by
  have hspec := h s hs
  rcases hrun : exec x s with ⟨e | a, s'⟩
  · rw [hrun] at hspec
    exact (hE e s' hspec).elim
  · rw [hrun] at hspec
    exact ⟨a, s', rfl, hspec⟩

theorem and {x : Eff ε σ α} (h : Triple P x Q E) (h' : Triple P' x Q' E') :
    Triple (fun s => P s ∧ P' s) x (fun a s => Q a s ∧ Q' a s) (fun e s => E e s ∧ E' e s) := by
  intro s hs
  have hspec := h s hs.1
  have hspec' := h' s hs.2
  rcases hrun : exec x s with ⟨_ | _, s'⟩ <;>
    · rw [hrun] at hspec hspec'
      exact ⟨hspec, hspec'⟩

end Triple

/-! ### Invariants -/

/-- The program keeps the invariant, however it ends. -/
def Keeps (I : σ → Prop) (x : Eff ε σ α) : Prop := Triple I x (fun _ => I) (fun _ => I)

namespace Keeps

variable {I : σ → Prop}

theorem pure (a : α) : Keeps I (Pure.pure a : Eff ε σ α) := fun _ hs => hs

theorem throw (e : ε) : Keeps I (throw e : Eff ε σ α) := fun _ hs => hs

theorem get : Keeps I (get : Eff ε σ σ) := fun _ hs => hs

theorem bind {x : Eff ε σ α} {f : α → Eff ε σ β} (hx : Keeps I x) (hf : ∀ a, Keeps I (f a)) :
    Keeps I (x >>= f) :=
  Triple.bind hx hf

theorem ite {c : Prop} [Decidable c] {x y : Eff ε σ α} (hx : Keeps I x) (hy : Keeps I y) :
    Keeps I (if c then x else y) :=
  Triple.ite (fun _ => hx) fun _ => hy

end Keeps

variable {τ : Type}

def Preserves (view : σ → τ) (x : Eff ε σ α) : Prop := ∀ s, view (exec x s).2 = view s

namespace Preserves

variable {view : σ → τ}

theorem pure (a : α) : Preserves view (Pure.pure a : Eff ε σ α) := fun _ => rfl

theorem throw (e : ε) : Preserves view (throw e : Eff ε σ α) := fun _ => rfl

theorem get : Preserves view (get : Eff ε σ σ) := fun _ => rfl

theorem modify {f : σ → σ} (h : ∀ s, view (f s) = view s) :
    Preserves view (modify f : Eff ε σ PUnit) :=
  h

theorem bind {x : Eff ε σ α} {f : α → Eff ε σ β} (hx : Preserves view x)
    (hf : ∀ a, Preserves view (f a)) : Preserves view (x >>= f) := by
  intro s
  have hxs := hx s
  rw [exec_bind]
  rcases hrun : exec x s with ⟨_ | a, s'⟩
  · rw [hrun] at hxs
    exact hxs
  · rw [hrun] at hxs
    exact (hf a s').trans hxs

theorem ite {c : Prop} [Decidable c] {x y : Eff ε σ α} (hx : Preserves view x)
    (hy : Preserves view y) : Preserves view (if c then x else y) := by
  by_cases h : c
  · rw [if_pos h]
    exact hx
  · rw [if_neg h]
    exact hy

theorem keeps {x : Eff ε σ α} (h : Preserves view x) (I : τ → Prop) :
    Keeps (fun s => I (view s)) x := by
  intro s hs
  have hview := h s
  rcases hrun : exec x s with ⟨_ | _, s'⟩ <;>
    · rw [hrun] at hview
      change I (view s')
      rw [hview]
      exact hs

end Preserves

/-! ### Progress -/

/-- However it ends, the program leads from a state to a related one. -/
def Moves (R : σ → σ → Prop) (x : Eff ε σ α) : Prop := ∀ s, R s (exec x s).2

namespace Moves

variable {R : σ → σ → Prop}

theorem modify {f : σ → σ} (h : ∀ s, R s (f s)) : Moves R (modify f : Eff ε σ PUnit) := h

theorem keeps {x : Eff ε σ α} (h : Moves R x) {I : σ → Prop} (hI : ∀ s s', R s s' → I s → I s') :
    Keeps I x := by
  intro s hs
  have hmoved := hI s _ (h s) hs
  rcases hrun : exec x s with ⟨_ | _, s'⟩ <;>
    · rw [hrun] at hmoved
      exact hmoved

theorem ite {c : Prop} [Decidable c] {x y : Eff ε σ α} (hx : Moves R x) (hy : Moves R y) :
    Moves R (if c then x else y) := by
  by_cases h : c
  · rw [if_pos h]
    exact hx
  · rw [if_neg h]
    exact hy

variable [IsPreorder σ R]

theorem pure (a : α) : Moves R (Pure.pure a : Eff ε σ α) := fun s => refl_of R s

theorem throw (e : ε) : Moves R (throw e : Eff ε σ α) := fun s => refl_of R s

theorem get : Moves R (get : Eff ε σ σ) := fun s => refl_of R s

theorem bind {x : Eff ε σ α} {f : α → Eff ε σ β} (hx : Moves R x) (hf : ∀ a, Moves R (f a)) :
    Moves R (x >>= f) := by
  intro s
  have hxs := hx s
  rw [exec_bind]
  rcases hrun : exec x s with ⟨_ | a, s'⟩
  · rw [hrun] at hxs
    exact hxs
  · rw [hrun] at hxs
    exact trans_of R hxs (hf a s')

end Moves

end EffectLogic
