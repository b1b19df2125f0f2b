import AssertionExecution.Library.Drain
import AssertionExecution.Model.Indexer
import AssertionExecution.Proofs.StoreContents

/-!
# Steps on the indexer's trees

Specifications over the contents of the trees, which forget how many steps were taken.
-/

namespace AssertionExecution

open EffectLogic

structure Contents where
  hashes : OrderedTree Nat B256
  latest : Option BlockNumHash
  pending : OrderedTree Nat (List PendingModification)
  db : OrderedTree Address (List AssertionState)
  trace : List TraceEvent

def IndexerState.contents (s : IndexerState) : Contents :=
  ⟨s.blockHashTree, s.latestBlockTree, s.pendingModificationsTree, s.store.db, s.trace⟩

/-- At least as many steps have been taken. -/
def IndexerState.Later (s s' : IndexerState) : Prop := s.steps ≤ s'.steps

instance : IsPreorder IndexerState IndexerState.Later where
  refl _ := Nat.le_refl _
  trans _ _ _ h h' := Nat.le_trans h h'

def Env.Disturbed (env : Env) : Prop :=
  (∃ t, env.fault t = true) ∨ ∃ t, env.storeFault t = true

lemma Env.not_disturbed {env : Env} (hfault : ∀ t, env.fault t = false)
    (hstore : ∀ t, env.storeFault t = false) : ¬env.Disturbed := by
  rintro (⟨t, h⟩ | ⟨t, h⟩)
  · exact Bool.false_ne_true ((hfault t).symm.trans h)
  · exact Bool.false_ne_true ((hstore t).symm.trans h)

namespace Contents

/-- Drops the block hashes of a range and the modifications pending for them. -/
def prune (range : Nat → Bool) (c : Contents) : Contents :=
  { c with
    hashes := c.hashes.restrict (fun n => !range n)
    pending := c.pending.restrict fun n => !(range n && (c.hashes.get n).isSome) }

/-- The modifications pending for the block hashes of a range, by block number. -/
def pendingIn (range : Nat → Bool) (c : Contents) : List PendingModification :=
  (c.hashes.entries.filter (fun e => range e.1)).flatMap fun e => (c.pending.get e.1).getD []

/-- The modifications of a block that a move up to it would take. -/
def due (c : Contents) (n : Nat) : List PendingModification :=
  if (c.hashes.get n).isSome then (c.pending.get n).getD [] else []

lemma pendingIn_eq (range : Nat → Bool) (c : Contents) :
    c.pendingIn range = ((c.hashes.entries.map Prod.fst).filter range).flatMap
      fun n => (c.pending.get n).getD [] :=
  OrderedTree.collect_eq c.pending

lemma pendingIn_below (c : Contents) (upTo : Nat) :
    c.pendingIn (· < upTo) = (List.range upTo).flatMap c.due :=
  OrderedTree.collect_below OrderedTree.NumberKeys.id (fun k _ => ⟨k, True.intro, rfl⟩) True.intro
    (fun _ _ => rfl) c.pending

/-- Drops one block hash and the modifications pending for it. -/
def drop (n : Nat) (c : Contents) : Contents :=
  { c with hashes := c.hashes.remove n, pending := c.pending.remove n }

lemma prune_drop {range : Nat → Bool} {c : Contents} {n : Nat} {hash : B256}
    (h : c.hashes.get n = some hash) (hrange : range n = true) :
    (c.drop n).prune range = c.prune range := by
  unfold prune drop
  congr 1
  · exact OrderedTree.outside_remove hrange
  · exact OrderedTree.unindexed_remove hrange h c.pending

lemma pendingIn_drop {range : Nat → Bool} {c : Contents} {e : Nat × B256}
    (h : c.hashes.firstInRange range = some e) :
    c.pendingIn range = (c.pending.get e.1).getD [] ++ (c.drop e.1).pendingIn range :=
  OrderedTree.collect_remove h c.pending

lemma prune_eq_self {range : Nat → Bool} {c : Contents} (h : c.hashes.firstInRange range = none) :
    c.prune range = c ∧ c.pendingIn range = [] := by
  constructor
  · unfold prune
    rw [show c.hashes.restrict (fun n => !range n) = c.hashes from OrderedTree.outside_eq_self h,
      show c.pending.restrict (fun n => !(range n && (c.hashes.get n).isSome)) = c.pending from
        OrderedTree.unindexed_eq_self h c.pending]
  · exact OrderedTree.collect_eq_nil h c.pending

end Contents

namespace Indexer

variable {env : Env} {c : Contents}

/-! ### Steps -/

lemma step_spec (e : IndexerError) :
    Triple (fun s => s.contents = c) (step env e) (fun _ s => s.contents = c)
      (fun _ _ => env.Disturbed) := by
  intro s hs
  unfold step
  rw [exec_bind, exec_get]
  dsimp only
  rw [exec_bind, exec_set]
  dsimp only
  cases h : env.fault s.steps
  · exact hs
  · exact Or.inl ⟨_, h⟩

/-- An answer is one of the node's at some step. -/
lemma request_spec {α : Type} (ask : Node → α) (e : IndexerError) :
    Triple (fun s => s.contents = c) (request env ask e)
      (fun a s => s.contents = c ∧ ∃ t, a = ask (env.node t)) (fun _ _ => env.Disturbed) :=
  Triple.bind (step_spec e) fun t => Triple.pure fun _ hs => ⟨hs, t, rfl⟩

/-- A tree operation acts on the contents and returns its result. -/
lemma treeOperation_spec {α : Type} (f : IndexerState → α × IndexerState) {P : α → Contents → Prop}
    (hf : ∀ s, s.contents = c → P (f s).1 (f s).2.contents) :
    Triple (fun s => s.contents = c) (treeOperation env f) (fun a s => P a s.contents)
      (fun _ _ => env.Disturbed) :=
  Triple.bind (step_spec .sledError) fun _ => fun s hs => hf s hs

lemma treeWrite_spec (f : IndexerState → IndexerState) (g : Contents → Contents)
    (hfg : ∀ s, (f s).contents = g s.contents) :
    Triple (fun s => s.contents = c) (treeOperation env fun s => ((), f s))
      (fun _ s => s.contents = g c) (fun _ _ => env.Disturbed) :=
  treeOperation_spec (P := fun _ c' => c' = g c) _ fun s hs => by rw [hfg, hs]

lemma okOr_spec {α : Type} {a : Option α} {e : IndexerError} {P : IndexerState → Prop} :
    Triple P (okOr a e) (fun r s => a = some r ∧ P s) (fun _ _ => a = none) := by
  cases a with
  | none => exact Triple.throw fun _ _ => rfl
  | some a => exact Triple.pure fun _ hs => ⟨rfl, hs⟩

/-! ### Invariants of the contents -/

section Keeps

variable {P : Contents → Prop}

lemma step_keeps (e : IndexerError) : Keeps (fun s => P s.contents) (step env e) := by
  intro s hs
  unfold step
  rw [exec_bind, exec_get]
  dsimp only
  rw [exec_bind, exec_set]
  cases h : env.fault s.steps <;> exact hs

lemma treeOperation_keeps {α : Type} {f : IndexerState → α × IndexerState}
    (hf : ∀ s, P s.contents → P (f s).2.contents) :
    Keeps (fun s => P s.contents) (treeOperation env f) :=
  Keeps.bind (step_keeps .sledError) fun _ => fun s hs => hf s hs

lemma popBlockHash_keeps {range : Nat → Bool}
    (hremove : ∀ c n, range n = true → P c → P { c with hashes := c.hashes.remove n }) :
    Keeps (fun s => P s.contents) (popBlockHash env range) := by
  apply treeOperation_keeps
  intro s hs
  cases h : s.blockHashTree.firstInRange range with
  | none => exact hs
  | some e => exact hremove s.contents e.1 (OrderedTree.firstInRange_mem _ _ _ h).1 hs

lemma removePending_keeps (key : Nat)
    (hremove : ∀ c, P c → P { c with pending := c.pending.remove key }) :
    Keeps (fun s => P s.contents) (removePending env key) :=
  treeOperation_keeps fun s hs => hremove s.contents hs

end Keeps

/-! ### Relations that every step respects -/

section Moves

variable {self : Indexer} {fuel : Nat} {R : IndexerState → IndexerState → Prop}
  [IsPreorder IndexerState R]

lemma okOr_moves {α : Type} (a : Option α) (e : IndexerError) : Moves R (okOr a e) := by
  cases a with
  | none => exact Moves.throw _
  | some a => exact Moves.pure a

lemma checkedAdd_moves (a b : Nat) : Moves R (checkedAdd a b) :=
  Moves.ite (Moves.pure _) (Moves.throw _)

variable (hsteps : ∀ s : IndexerState, R s { s with steps := s.steps + 1 })

include hsteps

omit [IsPreorder IndexerState R] in
lemma step_moves (e : IndexerError) : Moves R (step env e) := by
  intro s
  unfold step
  rw [exec_bind, exec_get]
  dsimp only
  rw [exec_bind, exec_set]
  cases env.fault s.steps <;> exact hsteps s

lemma request_moves {α : Type} (ask : Node → α) (e : IndexerError) :
    Moves R (request env ask e) :=
  Moves.bind (step_moves hsteps e) fun _ => Moves.pure _

lemma treeOperation_moves {α : Type} {f : IndexerState → α × IndexerState}
    (hf : ∀ s : IndexerState, R s (f s).2) : Moves R (treeOperation env f) :=
  Moves.bind (step_moves hsteps .sledError) fun _ s => hf s

lemma extractPendingModifications_moves (topics : List B256) (data : Bytes) (logIndex : Nat) :
    Moves R (self.extractPendingModifications env topics data logIndex) := by
  unfold extractPendingModifications
  refine Moves.ite ?_ (Moves.ite ?_ (Moves.pure _))
  · refine Moves.bind (okOr_moves _ _) fun event => ?_
    refine Moves.bind (step_moves hsteps _) fun _ => ?_
    refine Moves.bind (okOr_moves _ _) fun response => ?_
    cases env.services.extractAssertionContract
      (response.bytecode ++ response.encodedConstructorArgs) self.executorConfig with
    | none => exact Moves.pure _
    | some r => exact Moves.ite (Moves.throw _) (Moves.pure _)
  · refine Moves.bind (okOr_moves _ _) fun event => ?_
    exact Moves.ite (Moves.throw _) (Moves.pure _)

lemma processLogs_moves (logs : List RpcLog) (pending : OrderedModifications) :
    Moves R (self.processLogs env logs pending) := by
  induction logs generalizing pending with
  | nil => exact Moves.pure _
  | cons log logs ih =>
    refine Moves.bind (okOr_moves _ _) fun logIndex => ?_
    refine Moves.bind (okOr_moves _ _) fun blockNumber => ?_
    refine Moves.bind (extractPendingModifications_moves hsteps _ _ _) fun r => ?_
    cases r with
    | none => exact ih pending
    | some m => exact ih _

lemma fetchBlockHashes_moves (numbers : List Nat) : Moves R (fetchBlockHashes env numbers) := by
  induction numbers with
  | nil => exact Moves.pure _
  | cons i rest ih =>
    refine Moves.bind (request_moves hsteps _ _) fun block => ?_
    refine Moves.bind (okOr_moves _ _) fun header => ?_
    exact Moves.bind ih fun _ => Moves.pure _

lemma checkIfReorged_moves (updateBlock : UpdateBlock) (lastIndexed : BlockNumHash) :
    Moves R (checkIfReorged env fuel updateBlock lastIndexed) := by
  have hloop : ∀ fuel hash, Moves R (checkIfReorgedLoop env lastIndexed fuel hash) := by
    intro fuel
    induction fuel with
    | zero => exact fun _ => Moves.throw _
    | succ fuel ih =>
      intro hash
      refine Moves.bind (request_moves hsteps _ _) fun cursor => ?_
      refine Moves.bind (okOr_moves _ _) fun header => ?_
      exact Moves.ite (ih _) (Moves.pure _)
  exact Moves.ite (Moves.pure _) (hloop fuel _)

lemma findCommonAncestor_moves (hash : B256) : Moves R (findCommonAncestor env fuel hash) := by
  induction fuel generalizing hash with
  | zero => exact Moves.throw _
  | succ fuel ih =>
    refine Moves.bind (request_moves hsteps _ _) fun cursor => ?_
    refine Moves.bind (okOr_moves _ _) fun header => ?_
    refine Moves.bind (treeOperation_moves hsteps fun s => refl_of R s) fun stored => ?_
    cases stored with
    | none => exact Moves.throw _
    | some stored => exact Moves.ite (Moves.pure _) (ih _)

section Removals

variable (hhash : ∀ (s : IndexerState) (n : Nat),
    R s { s with blockHashTree := s.blockHashTree.remove n })
  (hpending : ∀ (s : IndexerState) (n : Nat),
    R s { s with pendingModificationsTree := s.pendingModificationsTree.remove n })

include hhash in
lemma popBlockHash_moves (range : Nat → Bool) : Moves R (popBlockHash env range) := by
  refine treeOperation_moves hsteps fun s => ?_
  cases s.blockHashTree.firstInRange range with
  | none => exact refl_of R s
  | some e => exact hhash s e.1

include hpending in
lemma removePending_moves (key : Nat) : Moves R (removePending env key) :=
  treeOperation_moves hsteps fun s => hpending s key

include hhash hpending

lemma pruneTo_moves (upTo : Nat) : Moves R (pruneTo env upTo) := by
  have hloop : ∀ fuel acc, Moves R (pruneToLoop env upTo fuel acc) := by
    intro fuel
    induction fuel with
    | zero => exact fun _ => Moves.throw _
    | succ fuel ih =>
      intro acc
      refine Moves.bind (popBlockHash_moves hsteps hhash _) fun r => ?_
      cases r with
      | none => exact Moves.pure acc
      | some key =>
        refine Moves.bind (removePending_moves hsteps hpending key) fun r => ?_
        cases r with
        | none => exact ih acc
        | some mods => exact Moves.bind (step_moves hsteps _) fun _ => ih _
  exact Moves.bind Moves.get fun s => hloop _ []

lemma pruneFrom_moves (start : Nat) : Moves R (pruneFrom env start) := by
  have hloop : ∀ fuel, Moves R (pruneFromLoop env start fuel) := by
    intro fuel
    induction fuel with
    | zero => exact Moves.throw _
    | succ fuel ih =>
      refine Moves.bind (popBlockHash_moves hsteps hhash _) fun r => ?_
      cases r with
      | none => exact Moves.pure ()
      | some key => exact Moves.bind (removePending_moves hsteps hpending key) fun _ => ih
  exact Moves.bind Moves.get fun s => hloop _

end Removals

end Moves

/-! ### Steps in time -/

section Later

open IndexerState

variable {since : Nat}

lemma Later.next (s : IndexerState) : s.Later { s with steps := s.steps + 1 } := Nat.le_succ _

lemma later_spec {α : Type} {x : IndexerM α} (h : Moves Later x) :
    Triple (fun s => since ≤ s.steps) x (fun _ s => since ≤ s.steps) (fun _ _ => True) :=
  (h.keeps fun _ _ hlater hs => Nat.le_trans hs hlater).mono_error fun _ _ _ => trivial

/-- A request is answered by the node as it is at a step that the request takes. -/
lemma request_later {α : Type} (ask : Node → α) (e : IndexerError) :
    Triple (fun s => since ≤ s.steps) (request env ask e)
      (fun a s => ∃ t, since ≤ t ∧ t < s.steps ∧ a = ask (env.node t)) (fun _ _ => True) := by
  refine Triple.bind (R := fun t s => since ≤ t ∧ t < s.steps) (E := fun _ _ => True) ?_ fun t => ?_
  · intro s hs
    unfold step
    rw [exec_bind, exec_get]
    dsimp only
    rw [exec_bind, exec_set]
    cases env.fault s.steps with
    | true => trivial
    | false => exact ⟨hs, Nat.lt_succ_self _⟩
  · exact Triple.pure fun s hs => ⟨t, hs.1, hs.2, rfl⟩

end Later

/-! ### Pruning -/

lemma popBlockHash_spec (range : Nat → Bool) :
    Triple (fun s => s.contents = c) (popBlockHash env range)
      (fun r s => match r with
        | none => c.hashes.firstInRange range = none ∧ s.contents = c
        | some key => ∃ hash, c.hashes.firstInRange range = some (key, hash) ∧
          s.contents = { c with hashes := c.hashes.remove key })
      (fun _ _ => env.Disturbed) := by
  refine treeOperation_spec (P := fun r c' => match r with
    | none => c.hashes.firstInRange range = none ∧ c' = c
    | some key => ∃ hash, c.hashes.firstInRange range = some (key, hash) ∧
      c' = { c with hashes := c.hashes.remove key }) _ ?_
  rintro s rfl
  cases h : s.blockHashTree.firstInRange range with
  | none => exact ⟨h, rfl⟩
  | some e => exact ⟨e.2, h, rfl⟩

lemma removePending_spec (key : Nat) :
    Triple (fun s => s.contents = c) (removePending env key)
      (fun r s => r = c.pending.get key ∧
        s.contents = { c with pending := c.pending.remove key })
      (fun _ _ => env.Disturbed) :=
  treeOperation_spec (P := fun r c' => r = c.pending.get key ∧
    c' = { c with pending := c.pending.remove key }) _ (by rintro s rfl; exact ⟨rfl, rfl⟩)

lemma drop_length_lt {range : Nat → Bool} {e : Nat × B256}
    (h : c.hashes.firstInRange range = some e) {fuel : Nat}
    (hfuel : c.hashes.entries.length < fuel + 1) :
    (c.drop e.1).hashes.entries.length < fuel := by
  have hlt := OrderedTree.remove_length_lt _ (OrderedTree.firstInRange_mem _ _ _ h).2
  exact Nat.lt_of_lt_of_le hlt (Nat.le_of_lt_succ hfuel)

lemma pruneToLoop_spec (upTo : Nat) (fuel : Nat) (acc : List PendingModification)
    (hfuel : c.hashes.entries.length < fuel) :
    Triple (fun s => s.contents = c) (pruneToLoop env upTo fuel acc)
      (fun r s => r = acc ++ c.pendingIn (· < upTo) ∧ s.contents = c.prune (· < upTo))
      (fun _ _ => env.Disturbed) := by
  induction fuel generalizing c acc with
  | zero => exact (Nat.not_lt_zero _ hfuel).elim
  | succ fuel ih =>
    refine Triple.bind (popBlockHash_spec _) fun r => ?_
    cases r with
    | none =>
      refine Triple.pure ?_
      rintro s ⟨hfirst, hs⟩
      obtain ⟨hprune, hnil⟩ := Contents.prune_eq_self hfirst
      rw [hnil, List.append_nil, hprune]
      exact ⟨rfl, hs⟩
    | some key =>
      rintro s ⟨hash, hfirst, hs⟩
      refine Triple.bind (removePending_spec key) (fun r => ?_) s hs
      obtain ⟨hmem, hget⟩ := OrderedTree.firstInRange_mem _ _ _ hfirst
      have hrest := fun acc => ih (c := c.drop key) acc (drop_length_lt hfirst hfuel)
      rw [Contents.prune_drop hget hmem] at hrest
      have hpending := Contents.pendingIn_drop hfirst
      cases r with
      | none =>
        rintro s' ⟨hr, hs'⟩
        refine (hrest acc).consequence (fun _ h => h) ?_ (fun _ _ h => h) s' hs'
        rintro r s'' ⟨rfl, hs''⟩
        rw [hpending, ← hr]
        exact ⟨rfl, hs''⟩
      | some mods =>
        rintro s' ⟨hr, hs'⟩
        refine Triple.bind (step_spec _) (fun _ => ?_) s' hs'
        refine (hrest (acc ++ mods)).consequence (fun _ h => h) ?_ (fun _ _ h => h)
        rintro r s'' ⟨rfl, hs''⟩
        rw [hpending, ← hr, List.append_assoc]
        exact ⟨rfl, hs''⟩

theorem pruneTo_spec (upTo : Nat) :
    Triple (fun s => s.contents = c) (pruneTo env upTo)
      (fun r s => r = c.pendingIn (· < upTo) ∧ s.contents = c.prune (· < upTo))
      (fun _ _ => env.Disturbed) := by
  rintro s rfl
  have hloop := @pruneToLoop_spec env s.contents upTo _ [] (Nat.lt_succ_self _)
  exact hloop s rfl

theorem pruneTo_keeps {P : Contents → Prop} (upTo : Nat)
    (hhash : ∀ c n, n < upTo → P c → P { c with hashes := c.hashes.remove n })
    (hpending : ∀ c n, P c → P { c with pending := c.pending.remove n }) :
    Keeps (fun s => P s.contents) (pruneTo env upTo) := by
  have hloop : ∀ fuel acc, Keeps (fun s => P s.contents) (pruneToLoop env upTo fuel acc) := by
    intro fuel
    induction fuel with
    | zero => exact fun _ => Keeps.throw _
    | succ fuel ih =>
      intro acc
      refine Keeps.bind (popBlockHash_keeps fun c n hn => hhash c n (of_decide_eq_true hn))
        fun r => ?_
      cases r with
      | none => exact Keeps.pure acc
      | some key =>
        refine Keeps.bind (removePending_keeps key fun c => hpending c key) fun r => ?_
        cases r with
        | none => exact ih acc
        | some mods => exact Keeps.bind (step_keeps _) fun _ => ih _
  exact Keeps.bind Keeps.get fun s => hloop _ []

theorem pruneFrom_keeps {P : Contents → Prop} (start : Nat)
    (hhash : ∀ c n, start ≤ n → P c → P { c with hashes := c.hashes.remove n })
    (hpending : ∀ c n, P c → P { c with pending := c.pending.remove n }) :
    Keeps (fun s => P s.contents) (pruneFrom env start) := by
  have hloop : ∀ fuel, Keeps (fun s => P s.contents) (pruneFromLoop env start fuel) := by
    intro fuel
    induction fuel with
    | zero => exact Keeps.throw _
    | succ fuel ih =>
      refine Keeps.bind (popBlockHash_keeps fun c n hn => hhash c n (of_decide_eq_true hn))
        fun r => ?_
      cases r with
      | none => exact Keeps.pure ()
      | some key => exact Keeps.bind (removePending_keeps key fun c => hpending c key) fun _ => ih
  exact Keeps.bind Keeps.get fun s => hloop _

lemma pruneFromLoop_spec (start : Nat) (fuel : Nat) (hfuel : c.hashes.entries.length < fuel) :
    Triple (fun s => s.contents = c) (pruneFromLoop env start fuel)
      (fun _ s => s.contents = c.prune (start ≤ ·)) (fun _ _ => env.Disturbed) := by
  induction fuel generalizing c with
  | zero => exact (Nat.not_lt_zero _ hfuel).elim
  | succ fuel ih =>
    refine Triple.bind (popBlockHash_spec _) fun r => ?_
    cases r with
    | none =>
      refine Triple.pure ?_
      rintro s ⟨hfirst, hs⟩
      rw [(Contents.prune_eq_self hfirst).1]
      exact hs
    | some key =>
      rintro s ⟨hash, hfirst, hs⟩
      refine Triple.bind (removePending_spec key) (fun r => ?_) s hs
      obtain ⟨hmem, hget⟩ := OrderedTree.firstInRange_mem _ _ _ hfirst
      rintro s' ⟨-, hs'⟩
      rw [← Contents.prune_drop hget hmem]
      exact ih (c := c.drop key) (drop_length_lt hfirst hfuel) s' hs'

theorem pruneFrom_spec (start : Nat) :
    Triple (fun s => s.contents = c) (pruneFrom env start)
      (fun _ s => s.contents = c.prune (start ≤ ·)) (fun _ _ => env.Disturbed) := by
  rintro s rfl
  have hloop := @pruneFromLoop_spec env s.contents start _ (Nat.lt_succ_self _)
  exact hloop s rfl

end Indexer

end AssertionExecution
