import AssertionExecution.Proofs.AbortedAttempts
import AssertionExecution.Proofs.TreeFailures

/-!
# The coupling of the trees

Pruning finds pending modifications through the block hashes. The tree operations of a call
fall into sections: after each the trees are coupled, but not within one.
-/

namespace AssertionExecution

open EffectLogic

/-- Every indexed block from `pruned` on has a block hash, and so has every indexed block with
pending modifications. Blocks that are not indexed have none. -/
structure Trees.Coupled (T : Trees) (pruned : Nat) : Prop where
  pending : ∀ n ms, T.pending.get n = some ms → n < T.next → (T.hashes.get n).isSome
  hashes : ∀ n, pruned ≤ n → n < T.next → (T.hashes.get n).isSome
  bounded : ∀ n, (T.hashes.get n).isSome → n < T.next

lemma isSome_applyBatch_hashes (hashes : OrderedTree Nat B256) {blockHashes : List BlockNumHash}
    {first : Nat} (hnumbers : blockHashes.map (·.number) = List.range' first blockHashes.length)
    (n : Nat) :
    ((hashes.applyBatch (blockHashes.map fun b => (b.number, b.hash))).get n).isSome ↔
      first ≤ n ∧ n < first + blockHashes.length ∨ (hashes.get n).isSome := by
  have hkeys : (blockHashes.map fun b => (b.number, b.hash)).map Prod.fst =
      List.range' first blockHashes.length := by
    rw [List.map_map, ← hnumbers]
    rfl
  by_cases hn : first ≤ n ∧ n < first + blockHashes.length
  · have hmem : n ∈ blockHashes.map (·.number) := by
      rw [hnumbers, List.mem_range'_1]
      exact hn
    obtain ⟨b, hb, rfl⟩ := List.mem_map.mp hmem
    have hentry : (b.number, b.hash) ∈ blockHashes.map fun b => (b.number, b.hash) :=
      List.mem_map.mpr ⟨b, hb, rfl⟩
    rw [OrderedTree.get_applyBatch_of_mem hashes _ (hkeys ▸ List.nodup_range') hentry]
    exact iff_of_true rfl (Or.inl hn)
  · rw [OrderedTree.get_applyBatch_of_notMem, or_iff_right hn]
    rwa [hkeys, List.mem_range'_1]

def Trees.drop (n : Nat) (T : Trees) : Trees :=
  { T with hashes := T.hashes.remove n, pending := T.pending.remove n }

/-- The node lists logs of the range it is asked for. -/
def Env.LogsInRange (env : Env) : Prop :=
  ∀ t filter l n, l ∈ (env.node t).getLogs filter → l.blockNumber = some n →
    filter.fromBlock ≤ n ∧ n ≤ filter.toBlock

namespace Indexer

/-- Pops a block hash of a range and removes the modifications pending for it. -/
def popPending (env : Env) (range : Nat → Bool) :
    IndexerM (Option (Option (List PendingModification))) := do
  match ← popBlockHash env range with
  | none => return none
  | some key => return some (← removePending env key)

/-- The sections of a call: the batch of pending modifications, the last indexed block with the
block hashes, one round of `prune_to`, and the rollback to a common ancestor. -/
inductive Section where
  | stage (pending : OrderedModifications)
  | record (lastIndexed : BlockNumHash) (blockHashes : List BlockNumHash)
  | prune (upTo : Nat)
  | rollBack (commonAncestor : Nat) (hash : B256)

namespace Section

def run (env : Env) : Section → IndexerM Unit
  | stage pending => writePendingModifications env pending
  | record lastIndexed blockHashes => do
    insertLastIndexedBlockNumHash env lastIndexed
    writeBlockNumHashBatch env blockHashes
  | prune upTo => do
    let _ ← popPending env (· < upTo)
  | rollBack commonAncestor hash => do
    pruneFrom env (commonAncestor + 1)
    insertLastIndexedBlockNumHash env ⟨commonAncestor, hash⟩

/-- What a call makes sure of before the section. -/
def Enabled (T : Trees) : Section → Prop
  | stage pending => ∀ n t, pending.get n = some t → T.next ≤ n
  | record lastIndexed blockHashes => blockHashes.getLast? = some lastIndexed ∧
    blockHashes.map (·.number) = List.range' T.next blockHashes.length
  | prune _ => True
  | rollBack commonAncestor _ => (T.hashes.get commonAncestor).isSome

/-- The number below which `prune_to` has been asked to prune. -/
def pruned (p : Nat) : Section → Nat
  | prune upTo => max p upTo
  | _ => p

def effect (T : Trees) : Section → Trees
  | stage pending => { T with
      pending := T.pending.applyBatch (pending.entries.map fun e => (e.1, e.2.values)) }
  | record lastIndexed blockHashes => { T with
      latest := some lastIndexed
      hashes := T.hashes.applyBatch (blockHashes.map fun b => (b.number, b.hash)) }
  | prune upTo => match T.hashes.firstInRange (· < upTo) with
    | none => T
    | some e => T.drop e.1
  | rollBack commonAncestor hash => {
      hashes := T.hashes.restrict fun n => !(commonAncestor + 1 ≤ n)
      latest := some ⟨commonAncestor, hash⟩
      pending := T.pending.restrict fun n =>
        !((commonAncestor + 1 ≤ n) && (T.hashes.get n).isSome) }

end Section

end Indexer

open Indexer

namespace Trees.Coupled

variable {T : Trees} {p : Nat}

lemma stage (h : T.Coupled p) {pending : OrderedModifications}
    (henabled : ∀ n t, pending.get n = some t → T.next ≤ n) :
    ((Section.stage pending).effect T).Coupled p := by
  refine ⟨fun n ms hms hn => ?_, h.hashes, h.bounded⟩
  refine h.pending n ms ?_ hn
  rw [← hms]
  refine (OrderedTree.get_applyBatch_of_notMem _ _ _ ?_).symm
  intro hmem
  obtain ⟨e, he, rfl⟩ := List.mem_map.mp hmem
  obtain ⟨⟨n, t⟩, ht, rfl⟩ := List.mem_map.mp he
  have hle := henabled n t ((OrderedTree.get_eq_some_iff _ n t).mpr ht)
  change n < T.next at hn
  omega

lemma prune (h : T.Coupled p) (upTo : Nat) :
    ((Section.prune upTo).effect T).Coupled (max p upTo) := by
  unfold Section.effect
  dsimp only
  cases hfirst : T.hashes.firstInRange (· < upTo) with
  | none => exact ⟨h.pending, fun n hn => h.hashes n (by omega), h.bounded⟩
  | some e =>
    have hlt : e.1 < upTo := of_decide_eq_true (OrderedTree.firstInRange_mem _ _ _ hfirst).1
    refine ⟨fun n ms hms hn => ?_, fun n hle hn => ?_, fun n hsome => ?_⟩
    · unfold drop at hms ⊢
      rw [OrderedTree.get_remove] at hms ⊢
      split_ifs at hms ⊢ with hne
      exact h.pending n ms hms hn
    · unfold drop
      rw [OrderedTree.get_remove, if_neg (by omega)]
      exact h.hashes n (by omega) hn
    · unfold drop at hsome
      rw [OrderedTree.get_remove] at hsome
      split_ifs at hsome with hne
      · cases hsome
      · exact h.bounded n hsome

lemma record (h : T.Coupled p) {lastIndexed : BlockNumHash} {blockHashes : List BlockNumHash}
    (henabled : (Section.record lastIndexed blockHashes).Enabled T) :
    ((Section.record lastIndexed blockHashes).effect T).Coupled p := by
  obtain ⟨hlast, hnumbers⟩ := henabled
  have hsome := isSome_applyBatch_hashes T.hashes hnumbers
  have hlength : 0 < blockHashes.length := List.length_pos_of_mem (List.mem_of_getLast? hlast)
  have hrange : blockHashes.map (·.number) =
      List.range' T.next (T.next + blockHashes.length - 1 + 1 - T.next) := by
    rw [hnumbers]
    congr 1
    omega
  obtain ⟨b, -, hb, hnumber⟩ := getLast?_of_numbers hrange (by omega)
  rw [hlast] at hb
  cases hb
  refine ⟨fun n ms hms hn => ?_, fun n hle hn => ?_, fun n hn => ?_⟩
  · change n < lastIndexed.number + 1 at hn
    apply (hsome n).mpr
    by_cases hnew : T.next ≤ n
    · exact Or.inl ⟨hnew, by omega⟩
    · exact Or.inr (h.pending n ms hms (by omega))
  · change n < lastIndexed.number + 1 at hn
    apply (hsome n).mpr
    by_cases hnew : T.next ≤ n
    · exact Or.inl ⟨hnew, by omega⟩
    · exact Or.inr (h.hashes n hle (by omega))
  · change n < lastIndexed.number + 1
    rcases (hsome n).mp hn with hn | hn
    · omega
    · have := h.bounded n hn
      omega

lemma rollBack (h : T.Coupled p) {commonAncestor : Nat} (hash : B256)
    (henabled : (T.hashes.get commonAncestor).isSome) :
    ((Section.rollBack commonAncestor hash).effect T).Coupled p := by
  have hindexed := h.bounded commonAncestor henabled
  refine ⟨fun n ms hms hn => ?_, fun n hle hn => ?_, fun n hn => ?_⟩
  · change n < commonAncestor + 1 at hn
    change ((T.hashes.restrict _).get n).isSome
    change (T.pending.restrict _).get n = some ms at hms
    rw [OrderedTree.get_restrict] at hms ⊢
    rw [if_pos (by simp; omega)] at hms
    rw [if_pos (by simp; omega)]
    exact h.pending n ms hms (by omega)
  · change n < commonAncestor + 1 at hn
    change ((T.hashes.restrict _).get n).isSome
    rw [OrderedTree.get_restrict, if_pos (by simp; omega)]
    exact h.hashes n hle (by omega)
  · change n < commonAncestor + 1
    change ((T.hashes.restrict _).get n).isSome at hn
    rw [OrderedTree.get_restrict] at hn
    split_ifs at hn with hlt
    · simpa using hlt
    · cases hn

/-- Every section that a call can run keeps the trees coupled. -/
theorem effect (h : T.Coupled p) {x : Section} (henabled : x.Enabled T) :
    (x.effect T).Coupled (x.pruned p) := by
  cases x with
  | stage pending => exact h.stage henabled
  | record lastIndexed blockHashes => exact h.record henabled
  | prune upTo => exact h.prune upTo
  | rollBack commonAncestor hash => exact h.rollBack hash henabled

end Trees.Coupled

namespace Indexer

open IndexerState

section Runs

variable {self : Indexer} {env : Env} {it : Iteration} {fuel : Nat} {T : Trees} {p : Nat}
  {s s' : IndexerState}

/-! ### Sections as they run -/

lemma popPending_trees (upTo : Nat) :
    Triple (fun s => s.trees = T) (popPending env (· < upTo))
      (fun _ s => s.trees = (Section.prune upTo).effect T) (fun _ _ => True) := by
  intro s hs
  refine Triple.bind ((popBlockHash_spec (c := s.contents) _).mono_error fun _ _ _ => trivial)
    (fun r => ?_) s rfl
  cases r with
  | none =>
    refine Triple.pure ?_
    rintro s' ⟨hfirst, hs'⟩
    have htrees : s'.trees = T := (congrArg Contents.trees hs').trans hs
    rw [htrees, Section.effect]
    rw [show T.hashes.firstInRange (· < upTo) = none by rw [← hs]; exact hfirst]
  | some key =>
    rintro s' ⟨hash, hfirst, hs'⟩
    refine Triple.bind ((removePending_spec (c := s'.contents) key).mono_error
      fun _ _ _ => trivial) (fun mods => Triple.pure ?_) s' rfl
    rintro s'' ⟨-, hs''⟩
    have htrees : s''.trees = T.drop key := by
      rw [← hs]
      exact congrArg Contents.trees (hs''.trans (by rw [hs']))
    rw [htrees, Section.effect]
    rw [show T.hashes.firstInRange (· < upTo) = some (key, hash) by rw [← hs]; exact hfirst]

lemma Section.run_trees (x : Section) :
    Triple (fun s => s.trees = T) (x.run env) (fun _ s => s.trees = x.effect T)
      (fun _ _ => True) := by
  cases x with
  | stage pending => exact (writePendingModifications_trees pending).mono_error fun _ _ _ => trivial
  | record lastIndexed blockHashes =>
    exact Triple.bind ((insertLastIndexedBlockNumHash_trees lastIndexed).mono_error
      fun _ _ _ => trivial) fun _ => (writeBlockNumHashBatch_trees blockHashes).mono_error
        fun _ _ _ => trivial
  | prune upTo => exact Triple.bind (popPending_trees upTo) fun _ => Triple.pure fun _ hs => hs
  | rollBack commonAncestor hash =>
    intro s hs
    refine Triple.bind ((pruneFrom_spec (c := s.contents) (commonAncestor + 1)).mono_error
      fun _ _ _ => trivial) (fun _ => ?_) s rfl
    intro s' hs'
    refine ((insertLastIndexedBlockNumHash_trees (T := s'.trees) _).consequence (fun _ h => h)
      (fun _ s'' hs'' => ?_) fun _ _ _ => trivial) s' rfl
    have htrees : s'.trees = (s.contents.prune (commonAncestor + 1 ≤ ·)).trees :=
      congrArg Contents.trees hs'
    rw [hs'', htrees, ← hs]
    rfl

lemma exec_treeOperation_fault {α : Type} (f : IndexerState → α × IndexerState)
    (h : env.fault s.steps = true) :
    exec (treeOperation env f) s =
      (.error (.error .sledError), { s with steps := s.steps + 1 }) := by
  unfold treeOperation step
  rw [exec_bind, exec_bind, exec_get]
  dsimp only
  rw [exec_bind, exec_set]
  dsimp only
  rw [h]
  rfl

/-- A section whose first step fails leaves the trees alone. -/
lemma Section.run_fault (x : Section) (h : env.fault s.steps = true) :
    (exec (x.run env) s).2.trees = s.trees := by
  cases x with
  | stage pending =>
    rw [run, writePendingModifications, exec_treeOperation_fault _ h]
    rfl
  | record lastIndexed blockHashes =>
    rw [run, exec_bind, insertLastIndexedBlockNumHash, exec_treeOperation_fault _ h]
    rfl
  | prune upTo =>
    rw [run, exec_bind, popPending, exec_bind, popBlockHash, exec_treeOperation_fault _ h]
    rfl
  | rollBack commonAncestor hash =>
    rw [run, exec_bind, pruneFrom, exec_bind, exec_get]
    dsimp only
    rw [pruneFromLoop, exec_bind, popBlockHash, exec_treeOperation_fault _ h]
    rfl

/-! ### Runs of whole sections -/

/-- The states of an indexer whose sections all run to their end, and the number below which
they have pruned. -/
inductive TreeRun : Nat → IndexerState → Prop
  | start {s : IndexerState} (h : s.trees = ⟨.empty, none, .empty⟩) : TreeRun 0 s
  | idle {p : Nat} {s s' : IndexerState} (h : TreeRun p s) (htrees : s'.trees = s.trees) :
      TreeRun p s'
  | complete {p : Nat} {s s' : IndexerState} (h : TreeRun p s) (env : Env) (x : Section)
      (henabled : x.Enabled s.trees) (hrun : exec (x.run env) s = (.ok (), s')) :
      TreeRun (x.pruned p) s'

lemma TreeRun.coupled (h : TreeRun p s) : s.trees.Coupled p := by
  induction h with
  | start h =>
    rw [h]
    exact ⟨fun _ _ _ hn => absurd hn (Nat.not_lt_zero _),
      fun _ _ hn => absurd hn (Nat.not_lt_zero _), fun _ hsome => by cases hsome⟩
  | idle h htrees ih =>
    rw [htrees]
    exact ih
  | complete h env x henabled hrun ih =>
    rw [(x.run_trees).ok rfl hrun]
    exact ih.effect henabled

/-- The last step was a failure within a section, after its first step. -/
def Torn (env : Env) (s' : IndexerState) : Prop :=
  ∃ (p : Nat) (s : IndexerState) (x : Section) (e : Failure IndexerError), TreeRun p s ∧
    x.Enabled s.trees ∧ exec (x.run env) s = (.error e, s') ∧ env.fault s.steps = false

/-- A section fails only where something fails. -/
lemma Section.run_disturbed (x : Section) :
    Triple (fun _ => True) (x.run env) (fun _ _ => True) (fun _ _ => env.Disturbed) := by
  have hoperation : ∀ {α : Type} (f : IndexerState → α × IndexerState),
      Triple (fun _ => True) (treeOperation env f) (fun _ _ => True)
        (fun _ _ => env.Disturbed) := by
    intro α f s _
    exact (treeOperation_spec (c := s.contents) (P := fun _ _ => True) f fun _ _ => trivial) s rfl
  cases x with
  | stage pending => exact hoperation _
  | record lastIndexed blockHashes => exact Triple.bind (hoperation _) fun _ => hoperation _
  | prune upTo =>
    refine Triple.bind (Triple.bind (hoperation _) fun r => ?_) fun _ => Triple.pure fun _ h => h
    cases r with
    | none => exact Triple.pure fun _ h => h
    | some key => exact Triple.bind (hoperation _) fun _ => Triple.pure fun _ h => h
  | rollBack commonAncestor hash =>
    refine Triple.bind (R := fun _ _ => True) ?_ fun _ => hoperation _
    intro s _
    exact ((pruneFrom_spec (c := s.contents) _).consequence (fun _ h => h)
      (fun _ _ _ => trivial) fun _ _ h => h) s rfl

lemma not_torn_of_calm (hcalm : ¬env.Disturbed) : ¬Torn env s' := by
  rintro ⟨p, s, x, e, -, -, hexec, -⟩
  exact hcalm (x.run_disturbed.error trivial hexec)

/-- What a call that started at step `since` has pruned in addition: nothing, or the blocks up to
one that the node has had under the await tag. -/
def Prunes (self : Indexer) (env : Env) (since now p p' : Nat) : Prop :=
  p' = p ∨ ∃ n, n ≠ 0 ∧ self.AwaitedIn env since now n ∧ p' = max p (n + 1)

lemma Prunes.mono {since now now' p' : Nat} (h : self.Prunes env since now p p')
    (hle : now ≤ now') : self.Prunes env since now' p p' :=
  h.imp_right fun ⟨n, hn, hawaited, hp'⟩ => ⟨n, hn, hawaited.mono hle, hp'⟩

lemma Prunes.prune {since now p' n : Nat} (h : self.Prunes env since now p p') (hn : n ≠ 0)
    (hawaited : self.AwaitedIn env since now n) :
    self.Prunes env since now p (max p' (n + 1)) := by
  rcases h with rfl | ⟨n', hn', hawaited', rfl⟩
  · exact Or.inr ⟨n, hn, hawaited, rfl⟩
  · rcases Nat.le_total n' n with hle | hle
    · exact Or.inr ⟨n, hn, hawaited, by omega⟩
    · exact Or.inr ⟨n', hn', hawaited', by omega⟩

/-- A call of `sync` in a run of sections: what had been pruned when it started, and the step it
started at. -/
structure Call where
  indexer : Indexer
  env : Env
  pruned : Nat
  since : Nat

namespace Call

def Reaches (call : Call) (s : IndexerState) : Prop :=
  ∃ p, TreeRun p s ∧ call.indexer.Prunes call.env call.since s.steps call.pruned p

/-- The call has come past a step with trees that satisfy the predicate. -/
structure RunsTo (call : Call) (now : Nat) (P : Trees → Prop) (s : IndexerState) : Prop where
  reaches : call.Reaches s
  past : now ≤ s.steps
  trees : P s.trees

/-- How a failing call ends. -/
def Halted (call : Call) (s : IndexerState) : Prop := call.Reaches s ∨ Torn call.env s

variable {call : Call} {now : Nat} {P Q : Trees → Prop}

lemma Reaches.idles (h : call.Reaches s) (hs : s.Idles s') : call.Reaches s' := by
  obtain ⟨p, hrun, hprunes⟩ := h
  exact ⟨p, hrun.idle hs.trees, hprunes.mono hs.steps⟩

lemma RunsTo.idles (h : call.RunsTo now P s) (hs : s.Idles s') : call.RunsTo now P s' :=
  ⟨h.reaches.idles hs, Nat.le_trans h.past hs.steps, hs.trees ▸ h.trees⟩

end Call

section Rules

variable {call : Call} {now : Nat} {P Q : Trees → Prop}

lemma Section.run_later (x : Section) : Moves Later (x.run env) := by
  cases x with
  | stage pending => exact treeOperation_moves Later.next fun _ => Nat.le_refl _
  | record lastIndexed blockHashes =>
    exact Moves.bind (treeOperation_moves Later.next fun _ => Nat.le_refl _)
      fun _ => treeOperation_moves Later.next fun _ => Nat.le_refl _
  | prune upTo =>
    refine Moves.bind (Moves.bind (popBlockHash_moves Later.next (fun _ _ => Nat.le_refl _) _)
      fun r => ?_) fun _ => Moves.pure _
    cases r with
    | none => exact Moves.pure _
    | some key =>
      exact Moves.bind (removePending_moves Later.next (fun _ _ => Nat.le_refl _) key)
        fun _ => Moves.pure _
  | rollBack commonAncestor hash =>
    exact Moves.bind (pruneFrom_moves Later.next (fun _ _ => Nat.le_refl _)
      (fun _ _ => Nat.le_refl _) _) fun _ => treeOperation_moves Later.next fun _ => Nat.le_refl _

/-- A section goes on with the run if the call may prune what it prunes. -/
lemma Section.spec (x : Section) (henabled : ∀ T, P T → x.Enabled T)
    (heffect : ∀ T, P T → Q (x.effect T))
    (hpruned : ∀ k p, now ≤ k → call.indexer.Prunes call.env call.since k call.pruned p →
      call.indexer.Prunes call.env call.since k call.pruned (x.pruned p)) :
    Triple (call.RunsTo now P) (x.run call.env) (fun _ => call.RunsTo now Q)
      (fun _ => call.Halted) := by
  rintro s ⟨⟨p, hrun, hprunes⟩, hpast, hP⟩
  have hlater : s.Later (exec (x.run call.env) s).2 := x.run_later s
  rcases hexec : exec (x.run call.env) s with ⟨e | u, s'⟩
  · rw [hexec] at hlater
    cases hfault : call.env.fault s.steps with
    | true =>
      have htrees := x.run_fault hfault
      rw [hexec] at htrees
      exact Or.inl ⟨p, hrun.idle htrees, hprunes.mono hlater⟩
    | false => exact Or.inr ⟨p, s, x, e, hrun, henabled _ hP, hexec, hfault⟩
  · rw [hexec] at hlater
    have hnow : now ≤ s'.steps := Nat.le_trans hpast hlater
    refine ⟨⟨_, hrun.complete call.env x (henabled _ hP) hexec,
      hpruned _ p hnow (hprunes.mono hlater)⟩, hnow, ?_⟩
    rw [(x.run_trees).ok rfl hexec]
    exact heffect _ hP

lemma reads_spec {α : Type} {x : IndexerM α} {F : α → Prop} (h : Moves Idles x)
    (hF : ∀ T, P T → Triple (fun s => s.trees = T) x (fun r _ => F r) (fun _ _ => True)) :
    Triple (call.RunsTo now P) x (fun r s => F r ∧ call.RunsTo now P s)
      (fun _ => call.Halted) := by
  intro s hs
  have hidles := h s
  have hresult := hF _ hs.trees s rfl
  rcases hexec : exec x s with ⟨e | r, s'⟩
  · rw [hexec] at hidles
    exact Or.inl (hs.reaches.idles hidles)
  · rw [hexec] at hidles hresult
    exact ⟨hresult, hs.idles hidles⟩

lemma only_reads {α : Type} {x : IndexerM α} (h : Moves Idles x) :
    Triple (call.RunsTo now P) x (fun _ => call.RunsTo now P) (fun _ => call.Halted) :=
  (reads_spec (F := fun _ => True) h fun _ _ s _ => by
    rcases exec x s with ⟨_ | _, _⟩ <;> trivial).consequence (fun _ h => h) (fun _ _ h => h.2)
      fun _ _ h => h

/-- A request is answered at a step that the call comes past. -/
lemma request_runs {α : Type} (ask : Node → α) (e : IndexerError) :
    Triple (call.RunsTo now P) (request call.env ask e)
      (fun a s => ∃ t, now ≤ t ∧ a = ask (call.env.node t) ∧ call.RunsTo (t + 1) P s)
      (fun _ => call.Halted) := by
  have hreads : Triple (call.RunsTo now P) (request call.env ask e)
      (fun _ => call.RunsTo now P) (fun _ => call.Halted) :=
    only_reads (request_moves Idles.next ask e)
  refine ((request_later ask e).and hreads).consequence (fun s hs => ⟨hs.past, hs⟩) ?_
    fun _ _ h => h.2
  rintro a s ⟨⟨t, hle, hlt, ha⟩, hs⟩
  exact ⟨t, hle, ha, hs.reaches, hlt, hs.trees⟩

end Rules

/-! ### Calls as runs of sections -/

section Calls

variable {call : Call} {now : Nat}

/-- The trees hold blocks up to the one before `k`. -/
def NextIs (k : Nat) (T : Trees) : Prop := T.next = k

lemma popPending_spec {n : Nat} (hn : n ≠ 0)
    (hawaited : call.indexer.AwaitedIn call.env call.since now n) (k : Nat) :
    Triple (call.RunsTo now (NextIs k)) (popPending call.env (· < n + 1))
      (fun _ => call.RunsTo now (NextIs k)) (fun _ => call.Halted) := by
  have hnext : ∀ T, NextIs k T → NextIs k ((Section.prune (n + 1)).effect T) := by
    intro T hT
    unfold Section.effect
    dsimp only
    cases T.hashes.firstInRange (· < n + 1) <;> exact hT
  intro s hs
  have hspec : Triple (call.RunsTo now (NextIs k)) ((Section.prune (n + 1)).run call.env)
      (fun _ => call.RunsTo now (NextIs k)) (fun _ => call.Halted) :=
    (Section.prune (n + 1)).spec (fun _ _ => trivial) hnext
      fun _ _ hle hprunes => hprunes.prune hn (hawaited.mono hle)
  have hsection := hspec s hs
  rw [Section.run, exec_bind] at hsection
  rcases hexec : exec (popPending call.env (· < n + 1)) s with ⟨e | r, s'⟩ <;>
    · rw [hexec] at hsection
      exact hsection

lemma pruneToLoop_succ (upTo fuel : Nat) (pendingModifications : List PendingModification) :
    pruneToLoop env upTo (fuel + 1) pendingModifications = (do
      match ← popPending env (· < upTo) with
      | none => return pendingModifications
      | some none => pruneToLoop env upTo fuel pendingModifications
      | some (some pendingMods) => do
        let _ ← step env .bincodeError
        pruneToLoop env upTo fuel (pendingModifications ++ pendingMods)) := by
  rw [pruneToLoop, popPending, bind_assoc]
  congr 1
  funext r
  cases r with
  | none => rfl
  | some key =>
    dsimp only
    rw [bind_assoc]
    congr 1
    funext mods
    cases mods <;> rfl

lemma pruneTo_runs {n : Nat} (hn : n ≠ 0)
    (hawaited : call.indexer.AwaitedIn call.env call.since now n) (k : Nat) :
    Triple (call.RunsTo now (NextIs k)) (pruneTo call.env (n + 1))
      (fun _ => call.RunsTo now (NextIs k)) (fun _ => call.Halted) := by
  have hloop : ∀ fuel ms, Triple (call.RunsTo now (NextIs k))
      (pruneToLoop call.env (n + 1) fuel ms) (fun _ => call.RunsTo now (NextIs k))
      (fun _ => call.Halted) := by
    intro fuel
    induction fuel with
    | zero => exact fun _ => Triple.throw fun _ hs => Or.inl hs.reaches
    | succ fuel ih =>
      intro ms
      rw [pruneToLoop_succ]
      refine Triple.bind (popPending_spec hn hawaited k) fun r => ?_
      rcases r with _ | _ | mods
      · exact Triple.pure fun _ hs => hs
      · exact ih ms
      · exact Triple.bind (only_reads (step_moves Idles.next _)) fun _ => ih _
  exact Triple.bind (only_reads Moves.get) fun s => hloop _ []

lemma movePendingModificationsToStore_runs {n : Nat}
    (hawaited : call.indexer.AwaitedIn call.env call.since now n) (k : Nat) :
    Triple (call.RunsTo now (NextIs k)) (movePendingModificationsToStore call.env it fuel n)
      (fun _ => call.RunsTo now (NextIs k)) (fun _ => call.Halted) := by
  refine Triple.ite (fun _ => Triple.pure fun _ hs => hs) fun hn => ?_
  refine Triple.bind ((checkedAdd_returns n 1).mono_error fun _ _ hs => Or.inl hs.reaches)
    fun upTo => Triple.of_fact ?_
  rintro rfl
  refine Triple.bind (pruneTo_runs hn hawaited k) fun ms => ?_
  exact Triple.ite (fun _ => Triple.pure fun _ hs => hs) fun _ => only_reads (onStore_idles _)

lemma indexRange_end_runs (hsince : call.since ≤ now) (k : Nat) :
    Triple (call.RunsTo now (NextIs k)) (do
      let block ← request call.env (·.getBlockByTag call.indexer.awaitTag)
      let blockToMove ← okOr block .parentBlockNotFound
      movePendingModificationsToStore call.env it fuel blockToMove.number
      trace (.pendingModificationsMoved blockToMove.number))
      (fun _ => call.RunsTo now (NextIs k)) (fun _ => call.Halted) := by
  refine Triple.bind (request_runs _ _) fun block => ?_
  rintro s ⟨t, hle, rfl, hs⟩
  refine Triple.bind ((okOr_spec (P := call.RunsTo (t + 1) (NextIs k))).and
    (only_reads (okOr_moves _ _)) |>.consequence (fun _ h => ⟨h, h⟩) (fun _ _ h => h.1)
      fun _ _ h => h.2) (fun header => Triple.of_fact fun hheader => ?_) s hs
  have hawaited : call.indexer.AwaitedIn call.env call.since (t + 1) header.number :=
    ⟨t, header, Nat.le_trans hsince hle, Nat.lt_succ_self t, hheader, rfl⟩
  refine Triple.bind (movePendingModificationsToStore_runs hawaited k) fun _ => ?_
  refine (only_reads (trace_idles _)).consequence (fun _ h => h) ?_ fun _ _ h => h
  exact fun _ _ h => ⟨h.reaches, Nat.le_trans (Nat.le_succ_of_le hle) h.past, h.trees⟩

/-- What a program returns, from its specification over the contents. -/
lemma result_spec {α : Type} {x : IndexerM α} {F : α → Prop}
    {Q : Contents → α → IndexerState → Prop} {E : Failure IndexerError → IndexerState → Prop}
    (h : ∀ c, Triple (fun s => s.contents = c) x (Q c) E) (hQ : ∀ c a s, Q c a s → F a) :
    Triple (fun s => s.trees = T) x (fun r _ => F r) (fun _ _ => True) := by
  intro s _
  exact ((h s.contents).consequence (fun _ h => h) (fun a s' h => hQ _ a s' h)
    fun _ _ _ => trivial) s rfl

lemma keys_collect {services : Services} {logs : List RpcLog}
    {pending pending' : OrderedModifications}
    (h : self.collect services logs pending = .ok pending') {n : Nat}
    {t : OrderedTree Nat PendingModification} (hn : pending'.get n = some t) :
    (∃ t, pending.get n = some t) ∨ ∃ l ∈ logs, l.blockNumber = some n := by
  induction logs generalizing pending with
  | nil =>
    cases h
    exact Or.inl ⟨t, hn⟩
  | cons log logs ih =>
    obtain ⟨number, index, r, hnumber, -, -, hrest⟩ := collect_cons.mp h
    rcases ih hrest with ⟨t', ht'⟩ | ⟨l, hl, hlnumber⟩
    · cases r with
      | none => exact Or.inl ⟨t', ht'⟩
      | some m =>
        change (insertModification pending number index m).get n = some t' at ht'
        unfold insertModification at ht'
        rw [OrderedTree.get_insert] at ht'
        split_ifs at ht' with hnumber'
        · exact Or.inr ⟨log, List.mem_cons_self .., by rw [hnumber, hnumber']⟩
        · exact Or.inl ⟨t', ht'⟩
    · exact Or.inr ⟨l, List.mem_cons_of_mem _ hl, hlnumber⟩

lemma indexRange_runs (hlogs : call.env.LogsInRange) (hsince : call.since ≤ now) {first last : Nat}
    (hle : first ≤ last + 1) :
    Triple (call.RunsTo now (NextIs first)) (call.indexer.indexRange call.env it fuel first last)
      (fun _ => call.RunsTo now (NextIs (last + 1))) (fun _ => call.Halted) := by
  unfold indexRange
  refine Triple.bind (only_reads (trace_idles _)) fun _ => ?_
  refine Triple.bind (reads_spec (request_moves Idles.next _ _) fun T _ => result_spec
    (fun c => request_spec (c := c) _ _) fun _ _ _ h => h.2) fun logs => Triple.of_fact ?_
  rintro ⟨t, rfl⟩
  refine Triple.bind (reads_spec (processLogs_moves Idles.next _ _) fun T _ => result_spec
    (fun c => processLogs_spec (c := c) _ _) fun _ _ _ h => h.1) fun pending =>
      Triple.of_fact fun hcollect => ?_
  have hkeys : ∀ n t, pending.get n = some t → first ≤ n := by
    intro n t hn
    rcases keys_collect hcollect hn with ⟨t', ht'⟩ | ⟨l, hl, hnumber⟩
    · cases ht'
    · exact (hlogs _ _ l n hl hnumber).1
  refine Triple.bind ((Section.stage pending).spec (P := NextIs first) (Q := NextIs first)
    (fun T hT n t hn => hT.trans_le (hkeys n t hn)) (fun T hT => hT)
      fun _ _ _ h => h) fun _ => ?_
  refine Triple.bind (reads_spec (fetchBlockHashes_moves Idles.next _) fun T _ => result_spec
    (fun c => fetchBlockHashes_spec (c := c) _) fun _ _ _ h => h.1.1) fun blockHashes =>
      Triple.of_fact fun hnumbers => ?_
  have hlength : blockHashes.length = last + 1 - first := by
    rw [← List.length_map (f := (·.number)), hnumbers, List.length_range']
  cases hlast : blockHashes.getLast? with
  | none =>
    obtain rfl := List.getLast?_eq_none_iff.mp hlast
    have hnext : first = last + 1 := by
      rw [List.length_nil] at hlength
      omega
    rw [← hnext]
    exact Triple.bind (only_reads (treeRead_idles fun _ => ()))
      fun _ => indexRange_end_runs hsince first
  | some lastIndexed =>
    have hnonempty := List.length_pos_of_mem (List.mem_of_getLast? hlast)
    obtain ⟨b, -, hb, hnumber⟩ := getLast?_of_numbers hnumbers (by omega)
    rw [hlast] at hb
    cases hb
    dsimp only
    rw [← bind_assoc]
    refine Triple.bind ((Section.record lastIndexed blockHashes).spec (P := NextIs first)
      (Q := NextIs (last + 1)) (fun T hT => ⟨hlast, ?_⟩) (fun T hT => congrArg Nat.succ hnumber)
        fun _ _ _ h => h) fun _ => indexRange_end_runs hsince (last + 1)
    rw [hnumbers, show T.next = first from hT, hlength]

/-! ### Whole calls -/

lemma findCommonAncestor_known (hash : B256) :
    Triple (fun s => s.trees = T) (findCommonAncestor env fuel hash)
      (fun r _ => (T.hashes.get r).isSome) (fun _ _ => True) := by
  induction fuel generalizing hash with
  | zero => exact Triple.throw fun _ _ => trivial
  | succ fuel ih =>
    refine Triple.bind (keeps_of_idles (request_moves Idles.next _ _) (· = T) |>.mono_error
      fun _ _ _ => trivial) fun cursor => ?_
    refine Triple.bind (keeps_of_idles (okOr_moves _ _) (· = T) |>.mono_error fun _ _ _ => trivial)
      fun header => ?_
    refine Triple.bind ((treeOperation_trees (T := T)
      (P := fun r T' => r = T.hashes.get header.number ∧ T' = T) _ fun s hs => by
        rw [← hs]; exact ⟨rfl, rfl⟩).mono_error fun _ _ _ => trivial) fun stored =>
      Triple.of_fact fun hstored => ?_
    cases stored with
    | none => exact Triple.throw fun _ _ => trivial
    | some stored =>
      refine Triple.ite (fun _ => Triple.pure fun _ _ => ?_) fun _ => ih _
      rw [← hstored]
      rfl

lemma getLastIndexedBlockNumHash_known :
    Triple (fun s => s.trees = T) (getLastIndexedBlockNumHash env) (fun r _ => r = T.latest)
      (fun _ _ => True) :=
  (treeOperation_trees (P := fun r _ => r = T.latest) _ fun s hs => by rw [← hs]; rfl).mono_error
    fun _ _ _ => trivial

lemma syncStart_runs (updateBlock : UpdateBlock) :
    Triple (call.RunsTo now fun _ => True) (syncStart call.env fuel updateBlock)
      (fun start => call.RunsTo now (NextIs start)) (fun _ => call.Halted) := by
  rintro s hs
  refine Triple.bind (R := fun r s' => r = s.trees.latest ∧ call.RunsTo now (· = s.trees) s')
    (reads_spec (treeRead_idles _) ?_) (fun r => Triple.of_fact ?_) s ⟨hs.reaches, hs.past, rfl⟩
  · rintro T rfl
    exact getLastIndexedBlockNumHash_known
  rintro rfl
  generalize s.trees = T
  cases hlatest : T.latest with
  | none =>
    refine Triple.pure ?_
    rintro s' ⟨hreaches, hpast, rfl⟩
    exact ⟨hreaches, hpast, by rw [NextIs, Trees.next, hlatest]⟩
  | some lastIndexed =>
    refine Triple.bind (only_reads (checkIfReorged_moves Idles.next _ _)) fun reorged => ?_
    refine Triple.ite (fun _ => ?_) fun _ => ?_
    · refine Triple.bind (reads_spec (F := fun r => (T.hashes.get r).isSome)
        (findCommonAncestor_moves Idles.next _) ?_) fun r => Triple.of_fact fun hknown => ?_
      · rintro T rfl
        exact findCommonAncestor_known _
      refine Triple.bind ((checkedAdd_returns r 1).mono_error fun _ _ hs => Or.inl hs.reaches)
        fun start => Triple.of_fact ?_
      rintro rfl
      rw [← bind_assoc]
      refine Triple.bind ((Section.rollBack r updateBlock.parentHash).spec
        (Q := NextIs (r + 1)) ?_ (fun _ _ => rfl) fun _ _ _ h => h)
          fun _ => Triple.pure fun _ hs => hs
      rintro T rfl
      exact hknown
    · refine (checkedAdd_returns lastIndexed.number 1).consequence (fun _ h => h) ?_
        fun _ _ hs => Or.inl hs.reaches
      rintro start s' ⟨rfl, hreaches, hpast, rfl⟩
      exact ⟨hreaches, hpast, by rw [NextIs, Trees.next, hlatest]⟩

lemma syncLoop_runs (hlogs : call.env.LogsInRange) (hsince : call.since ≤ now)
    (u m chunks first : Nat) :
    Triple (call.RunsTo now (NextIs first))
      (call.indexer.syncLoop call.env it fuel u m chunks first)
      (fun _ => call.RunsTo now fun _ => True) (fun _ => call.Halted) := by
  refine (syncLoop_induct (I := fun k => call.RunsTo now (NextIs k))
    (fun first last hle _ => indexRange_runs hlogs hsince hle) (fun _ _ _ hs => Or.inl hs.reaches)
      chunks first).consequence (fun _ hs => hs) ?_ fun _ _ hs => hs
  rintro - s ⟨k, hreaches, hpast, -⟩
  exact ⟨hreaches, hpast, trivial⟩

lemma sync_runs (call : Call) (it : Iteration) (fuel : Nat) (hlogs : call.env.LogsInRange)
    (updateBlock : UpdateBlock) (m : Nat) :
    Triple (call.RunsTo call.since fun _ => True)
      (call.indexer.sync call.env it fuel updateBlock m)
      (fun _ => call.RunsTo call.since fun _ => True) (fun _ => call.Halted) :=
  Triple.bind (syncStart_runs updateBlock)
    fun start => syncLoop_runs hlogs (Nat.le_refl _) _ m _ start

end Calls

/-- A call goes on with a run, or it tears a section. -/
lemma TreeRun.sync (h : TreeRun p s) (self : Indexer) (it : Iteration) (fuel : Nat)
    (updateBlock : UpdateBlock) (m : Nat) (hlogs : env.LogsInRange) :
    (∃ p', TreeRun p' (exec (self.sync env it fuel updateBlock m) s).2 ∧
      self.Prunes env s.steps (exec (self.sync env it fuel updateBlock m) s).2.steps p p') ∨
    Torn env (exec (self.sync env it fuel updateBlock m) s).2 := by
  have hspec := sync_runs ⟨self, env, p, s.steps⟩ it fuel hlogs updateBlock m
  rcases hexec : exec (self.sync env it fuel updateBlock m) s with ⟨e | u, s'⟩
  · exact hspec.error ⟨⟨p, h, Or.inl rfl⟩, Nat.le_refl _, trivial⟩ hexec
  · exact Or.inl (hspec.ok ⟨⟨p, h, Or.inl rfl⟩, Nat.le_refl _, trivial⟩ hexec).reaches

/-- As long as no section is torn by a failure after its first step, every indexed block that
has pending modifications has a block hash, and so has every indexed block that has not been
pruned. A call that starts in such a state ends in one, in which it has pruned nothing new or the
blocks up to one that was awaited during the call, or it tears a section. -/
theorem coupled_unless_torn (h : TreeRun p s) :
    (∀ lastIndexed, s.latestBlockTree = some lastIndexed →
      (∀ n ms, s.pendingModificationsTree.get n = some ms → n ≤ lastIndexed.number →
        (s.blockHashTree.get n).isSome) ∧
      ∀ n, p ≤ n → n ≤ lastIndexed.number → (s.blockHashTree.get n).isSome) ∧
    ∀ (self : Indexer) (env : Env) (it : Iteration) (fuel : Nat) (updateBlock : UpdateBlock)
      (m : Nat), env.LogsInRange →
      let s' := (exec (self.sync env it fuel updateBlock m) s).2
      (∃ p', TreeRun p' s' ∧ self.Prunes env s.steps s'.steps p p') ∨ Torn env s' := by
  refine ⟨fun lastIndexed hlatest => ?_, fun self env it fuel updateBlock m hlogs => ?_⟩
  · have hcoupled := h.coupled
    have hnext : s.trees.next = lastIndexed.number + 1 := by
      unfold Trees.next
      rw [show s.trees.latest = some lastIndexed from hlatest]
    refine ⟨fun n ms hms hn => hcoupled.pending n ms hms ?_, fun n hp hn => hcoupled.hashes n hp ?_⟩
    · rw [hnext]
      exact Nat.lt_succ_of_le hn
    · rw [hnext]
      exact Nat.lt_succ_of_le hn
  · exact h.sync self it fuel updateBlock m hlogs

end Runs

open Sample

lemma env_logsInRange (chain : Chain Sample.blockOf) (awaited : Nat) (fault : Nat → Bool) :
    (env chain awaited fault).LogsInRange := by
  intro t filter l n hl hn
  obtain ⟨b, hb, hlog⟩ := List.mem_flatMap.mp (List.mem_filter.mp hl).1
  obtain ⟨log, -, rfl⟩ := List.mem_map.mp hlog
  cases hn
  exact of_decide_eq_true (List.mem_filter.mp hb).2

/-- The states after block 1 has been indexed, and after block 2 has been while block 1 is moved
to the store. -/
def pendingRemoval : IndexerState :=
  (exec (indexer.sync (env removalChain 0 fun _ => false) .buckets 5 removalBlock.updateBlock
    50000) initial).2

def movedRemoval : IndexerState :=
  (exec (indexer.sync (env secondChain 1 fun _ => false) .buckets 5 secondBlock.updateBlock
    50000) pendingRemoval).2

lemma pendingRemoval_run : TreeRun 0 pendingRemoval := by
  have hcalm : ¬(env removalChain 0 fun _ => false).Disturbed :=
    Env.not_disturbed (fun _ => rfl) fun _ => rfl
  have hstart : TreeRun 0 initial := .start rfl
  have hsync := hstart.sync indexer .buckets 5 removalBlock.updateBlock 50000
    (env_logsInRange removalChain 0 fun _ => false)
  obtain ⟨p, hrun, hprunes⟩ := hsync.resolve_right (not_torn_of_calm hcalm)
  rcases hprunes with rfl | ⟨n, hn, hawaited, -⟩
  · exact hrun
  · obtain ⟨-, -, -, h⟩ :=
      hawaited.exists_eq fun _ => Chain.node_serves removalChain _ (by decide)
    exact absurd h hn

/-- The modifications of block 1 have been moved and its hash is gone. Block 2, whose
modifications are pending, has one. -/
theorem coupled_unless_torn_moved :
    movedRemoval.blockHashTree.get 1 = none ∧
      (movedRemoval.pendingModificationsTree.get 2).isSome ∧
      (movedRemoval.blockHashTree.get 2).isSome := by
  have hcalm : ¬(env secondChain 1 fun _ => false).Disturbed :=
    Env.not_disturbed (fun _ => rfl) fun _ => rfl
  have hsync := (coupled_unless_torn pendingRemoval_run).2 indexer _ .buckets 5
    secondBlock.updateBlock 50000 (env_logsInRange secondChain 1 fun _ => false)
  obtain ⟨p, hrun, hprunes⟩ := hsync.resolve_right (not_torn_of_calm hcalm)
  have hmoved : TreeRun p movedRemoval := hrun
  have hp : p ≤ 2 := by
    rcases hprunes with rfl | ⟨n, -, hawaited, rfl⟩
    · exact Nat.zero_le 2
    · obtain ⟨-, -, -, rfl⟩ :=
        hawaited.exists_eq fun _ => Chain.node_serves secondChain _ (by decide)
      exact Nat.le_refl 2
  have hlatest : movedRemoval.latestBlockTree = some ⟨2, 13⟩ := by decide +kernel
  refine ⟨by decide +kernel, by decide +kernel, ?_⟩
  exact ((coupled_unless_torn hmoved).1 ⟨2, 13⟩ hlatest).2 2 hp (Nat.le_refl 2)

/-- Block 1 is marked as indexed, and then its hash is not written. -/
def hashNotWritten : IndexerState :=
  (exec (indexer.sync (env removalChain 0 fun t => t = 13) .buckets 5 removalBlock.updateBlock
    50000) StaleEntry.started).2

/-- The modifications pending for the block cannot be found. -/
theorem unlisted_modifications :
    ¬∀ s, indexer.Attempted s → ∀ lastIndexed, s.latestBlockTree = some lastIndexed →
      ∀ n ms, s.pendingModificationsTree.get n = some ms → n ≤ lastIndexed.number →
        (s.blockHashTree.get n).isSome := by
  intro h
  have hattempted : indexer.Attempted hashNotWritten :=
    .sync _ _ _ _ _ (.sync _ _ _ _ _ (.start rfl))
  have hlisted := h hashNotWritten hattempted ⟨1, 11⟩ (by decide) 1
    (removalChain.modifications indexer services 1) rfl (Nat.le_refl 1)
  exact absurd hlisted (by decide)

end Indexer

end AssertionExecution
