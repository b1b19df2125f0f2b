import AssertionExecution.Model.ConcurrentValidation
import AssertionExecution.Proofs.LaterModifications
import AssertionExecution.Proofs.ParallelAgreement
import AssertionExecution.Proofs.StoreLinearization

/-!
# Validation while the indexer moves modifications

As long as what the other threads apply takes effect later, a transaction is validated as if they
had not been there, however their steps fall between the reads and the calls of the executor.
-/

namespace AssertionExecution

open EffectLogic HashMap Linearization

/-! ### What a read makes of an adopter -/

lemma matchedSelectors_congr {a a' : AssertionState} (h : a.triggerRecorder = a'.triggerRecorder)
    (it : Iteration) (triggers : HashSet TriggerType) :
    AssertionStore.matchedSelectors it a triggers =
      AssertionStore.matchedSelectors it a' triggers := by
  have hrecorded : a.recorded = a'.recorded := by
    funext trigger
    unfold AssertionState.recorded
    rw [h]
  have hmatch : AssertionStore.matchTrigger a = AssertionStore.matchTrigger a' := by
    funext m trigger
    unfold AssertionStore.matchTrigger
    rw [hrecorded]
  unfold AssertionStore.matchedSelectors
  rw [hmatch, hrecorded]

namespace ConcurrentStore

/-- A read depends on what the block sees of the adopter. -/
lemma matchedFrom_congr {block : Nat} {as as' : List AssertionState}
    (h : seenAt block as = seenAt block as') (it : Iteration) (adopter : Address)
    (triggers : HashSet TriggerType) :
    matchedFrom it block adopter triggers as = matchedFrom it block adopter triggers as' := by
  have hseen : ∀ as, matchedFrom it block adopter triggers as =
      (seenAt block as).map fun x => ⟨x.1, (HashMap.iter it (AssertionStore.matchedSelectors it
        ⟨0, none, x.1, x.2⟩ triggers)).map Prod.fst, adopter⟩ := by
    intro as
    unfold matchedFrom seenAt
    rw [List.map_map]
    apply List.map_congr_left
    intro a _
    dsimp only [Function.comp]
    rw [@matchedSelectors_congr a ⟨0, none, a.assertionContract, a.triggerRecorder⟩ rfl]
  rw [hseen, hseen, h]

/-! ### Steps of the other threads -/

variable {Thread Stored : Type} [DecidableEq Thread] {de : Stored → List AssertionState}
  {d₀ d d' : OrderedTree Address (List AssertionState)} {w w' : System Thread Stored}
  {calls : List (Call (Thread × Nat) Operation Response)} {block : Nat}

def Operation.Later (block : Nat) (d : OrderedTree Address (List AssertionState)) :
    Operation → Prop
  | insert _ _ => False
  | applyPendingModification adopter modifications =>
    ∀ m ∈ modifications, AssertionExecution.Later block (AssertionStore.assertions d adopter) m
  | readAdopter _ => True

/-- All calls that are going on are later than the block. -/
def Quiet (block : Nat) (d : OrderedTree Address (List AssertionState))
    (w : System Thread Stored) : Prop :=
  ∀ t op, (w.phase t).pending = some op → op.Later block d

/-- The block sees of every adopter what it sees in `d`. -/
def SteadyContent (de : Stored → List AssertionState) (block : Nat)
    (d : OrderedTree Address (List AssertionState)) (w : System Thread Stored) : Prop :=
  ∀ adopter, Steady block (AssertionStore.assertions d adopter) (decoded de (w.db.get adopter))

lemma SteadyContent.step (hblock : block < u64Max) (h : SteadyContent de block d w)
    (hquiet : Quiet block d w) (htracks : Tracks de d₀ w calls d') (hstep : Step de w w') :
    SteadyContent de block d w' := by
  cases hstep with
  | @insert t adopter assertion hphase value hvalue =>
    exact (hquiet t (.insert adopter assertion) (by rw [hphase]; rfl)).elim
  | @swap t adopter ms assertions hphase value hvalue =>
    have hlater := hquiet t (.applyPendingModification adopter ms) (by rw [hphase]; rfl)
    have hcopied := (htracks.follows t).copied _ _ _ _ hphase
    intro a
    change Steady block _ (decoded de ((w.db.insert adopter value).get a))
    rw [OrderedTree.get_insert]
    by_cases ha : a = adopter
    · subst ha
      rw [if_pos rfl]
      change Steady block _ (de value)
      rw [hvalue, hcopied]
      exact (h a).foldl_applyModification hblock hlater
    · rw [if_neg ha]
      exact h a
  | invoke | get | retry | read | fail | «return» => exact h

lemma SteadyContent.run (hblock : block < u64Max) (h : SteadyContent de block d w)
    (htracks : Tracks de d₀ w calls d') (hrun : RunWithin de (Quiet block d) w w') :
    SteadyContent de block d w' ∧ Quiet block d w' ∧ ∃ calls d', Tracks de d₀ w' calls d' := by
  induction hrun with
  | refl hquiet => exact ⟨h, hquiet, calls, d', htracks⟩
  | step _ hstep hquiet' ih =>
    obtain ⟨hsteady, hquiet, calls', d'', htracks'⟩ := ih
    obtain ⟨calls'', d''', htracks''⟩ := htracks'.step hstep
    exact ⟨hsteady.step hblock hquiet htracks' hstep, hquiet', calls'', d''', htracks''⟩

lemma ReadsAmid.eq (hblock : block < u64Max) {it : Iteration}
    {es : List (Address × HashSet TriggerType)} {result : List AssertionsForExecution}
    (hread : ReadsAmid de (Quiet block d) it block w es result)
    (h : SteadyContent de block d w) (htracks : Tracks de d₀ w calls d') :
    result = es.flatMap fun e => AssertionStore.matchedAssertions it d block e.1 e.2 := by
  induction hread generalizing calls d' with
  | nil => rfl
  | cons hrun adopter triggers _ ih =>
    obtain ⟨hsteady, -, calls', d'', htracks'⟩ := h.run hblock htracks hrun
    rw [List.flatMap_cons, ih hsteady htracks', matchedFrom_congr (hsteady adopter).seen]
    rfl

lemma ReadsAmid.exists {P : System Thread Stored → Prop} {it : Iteration}
    (es : List (Address × HashSet TriggerType)) (hrun : RunWithin de P w w') :
    ∃ assertions, ReadsAmid de P it block w es assertions := by
  induction es generalizing w with
  | nil => exact ⟨[], .nil w⟩
  | cons e es ih =>
    have hw' : P w' := by
      cases hrun with
      | refl hw => exact hw
      | step _ _ hw => exact hw
    obtain ⟨assertions, h⟩ := ih (.refl w' hw')
    exact ⟨_, .cons hrun e.1 e.2 h⟩

lemma ReadsAmid.length_selectors {P : System Thread Stored → Prop} {it : Iteration}
    {es : List (Address × HashSet TriggerType)} {assertions : List AssertionsForExecution}
    (hread : ReadsAmid de P it block w es assertions) :
    ∀ a ∈ assertions, a.selectors.length < 2 ^ 64 := by
  induction hread with
  | nil => exact fun a ha => absurd ha List.not_mem_nil
  | cons _ adopter triggers _ ih =>
    intro a ha
    rcases List.mem_append.mp ha with hmatched | hrest
    · obtain ⟨state, -, rfl⟩ := List.mem_map.mp hmatched
      exact length_selectors_lt it _
    · exact ih a hrest

end ConcurrentStore

namespace AssertionExecutor

open ConcurrentStore ParallelMap

variable {Thread Stored : Type} [DecidableEq Thread] {de : Stored → List AssertionState}
  {w : System Thread Stored} {ExtDb ExtErr Active ActiveErr : Type} {self : AssertionExecutor}
  {evm : Evm ExtDb ExtErr Active ActiveErr} {it : Iteration} {blockEnv : BlockEnv}

lemma read_alone (tracer : CallTracer) (hblock : blockEnv.number.toNat ≤ u64Max) :
    (exec (AssertionStore.read (fun _ => false) it tracer blockEnv.number) self.store).1 =
      .ok (AssertionStore.readResult it self.store.db tracer blockEnv.number.toNat) := by
  have hread := @AssertionStore.read_spec (fun _ => false) self.store.db it tracer
    blockEnv.number self.store rfl
  rcases hrun : exec (AssertionStore.read (fun _ => false) it tracer blockEnv.number)
    self.store with ⟨e | assertions, s⟩
  · rw [hrun] at hread
    rcases hread with ⟨-, hlt⟩ | ⟨-, t, ht⟩
    · omega
    · cases ht
  · rw [hrun] at hread
    rw [hread.2.2]

/-- A validation that returns a result returns it for every execution that agrees. -/
lemma validateWith_of_ok {txEnv : TxEnv} {forkDb : ForkDb Active} {externalDb : ExtDb}
    {execute execute' : MultiForkDb (ForkDb Active) → LogsAndTraces →
      Except ExecutorError (List AssertionContractExecution)}
    (h : ∀ multiForkDb logsAndTraces executions,
      execute multiForkDb logsAndTraces = .ok executions →
        execute' multiForkDb logsAndTraces = .ok executions) {result : TxValidationResult}
    (hok : (self.validateWith evm it blockEnv txEnv forkDb externalDb execute).1 = .ok result) :
    self.validateWith evm it blockEnv txEnv forkDb externalDb execute =
      self.validateWith evm it blockEnv txEnv forkDb externalDb execute' := by
  unfold validateWith at hok ⊢
  rcases hrun : self.executeForkedTxExtDb evm it blockEnv txEnv forkDb externalDb with
    ⟨e | ⟨txTraces, resultAndState⟩, postTxDb, externalDb'⟩
  · rfl
  rw [hrun] at hok
  dsimp only at hok ⊢
  by_cases hsuccess : (!resultAndState.result.isSuccess) = true
  · rw [if_pos hsuccess, if_pos hsuccess]
  rw [if_neg hsuccess] at hok
  rw [if_neg hsuccess, if_neg hsuccess]
  cases hexecute : execute (MultiForkDb.new forkDb postTxDb)
      ⟨resultAndState.result.logs, txTraces⟩ with
  | error e =>
    rw [hexecute] at hok
    cases hok
  | ok executions => rw [h _ _ _ hexecute]

/-- While everything that other threads apply is later than the block, a validation that returns a
result returns what the executor alone would have returned on the store as it was, with the same
fork database. -/
theorem validation_amid_indexing {db : OrderedTree Address Stored}
    {d₀ : OrderedTree Address (List AssertionState)}
    (hdb : ∀ adopter, (db.get adopter).map de = d₀.get adopter)
    (hrun : Run de (initial db) w)
    (hstore : ∀ adopter, (w.db.get adopter).map de = self.store.db.get adopter)
    (hblock : blockEnv.number.toNat < u64Max) (txEnv : TxEnv) (forkDb : ForkDb Active)
    (externalDb : ExtDb)
    {outcome : Except ExecutorError TxValidationResult × ForkDb Active × ExtDb}
    (h : self.ValidatesAmid evm de (Quiet blockEnv.number.toNat self.store.db) w it blockEnv txEnv
      forkDb externalDb outcome) {result : TxValidationResult} (hok : outcome.1 = .ok result) :
    outcome =
      self.validateTransactionExtDb evm (fun _ => false) it blockEnv txEnv forkDb externalDb := by
  obtain ⟨calls, d', htracks⟩ := (Tracks.initial db hdb).run hrun
  have hsteady : SteadyContent de blockEnv.number.toNat self.store.db w := by
    intro adopter
    have hsame : decoded de (w.db.get adopter) =
        AssertionStore.assertions self.store.db adopter := by
      unfold decoded AssertionStore.assertions
      rw [hstore]
    rw [hsame]
    exact Steady.refl _ _
  obtain ⟨execute, hexecute, rfl⟩ := h
  rw [validateTransactionExtDb_eq]
  apply validateWith_of_ok _ hok
  intro multiForkDb logsAndTraces executions hexecuted
  have hamid := hexecute multiForkDb logsAndTraces
  rw [hexecuted] at hamid
  generalize hresult : (Except.ok executions : Except ExecutorError _) = result at hamid
  cases hamid with
  | unread e => cases hresult
  | @collected assertions hle hread moves hcomplete =>
    have hsame : (exec (AssertionStore.read (fun _ => false) it logsAndTraces.callTraces
        blockEnv.number) self.store).1 = .ok assertions := by
      rw [read_alone logsAndTraces.callTraces hle, hread.eq hblock hsteady htracks]
      rfl
    rw [← hresult]
    exact ((ExecutesInParallel.collected hsame moves hcomplete).ok_iff executions).mp hresult.symm

/-- Assertion 9 of adopter 7 is active from block 1 on. -/
def indexedTree : OrderedTree Address (List AssertionState) :=
  OrderedTree.empty.insert 7 (stored 1 none)

/-- The indexer has called for its removal at block 5. -/
def removalInvoked : System Bool (List AssertionState) :=
  { (initial indexedTree).setPhase false (removeAt 5).entry with
    history := [.invoked (false, 0) (removeAt 5)] }

lemma removalInvoked_run : Run id (initial indexedTree) removalInvoked :=
  .step (.refl _) (.invoke false (removeAt 5) rfl)

lemma quiet_of_idle {w : System Bool (List AssertionState)} (hidle : w.phase true = .idle)
    (h : ∀ op, (w.phase false).pending = some op → op = removeAt 5) : Quiet 4 indexedTree w := by
  intro t op hop
  cases t with
  | true =>
    rw [hidle] at hop
    cases hop
  | false =>
    rw [h op hop]
    intro m hm
    rw [List.mem_singleton.mp hm]
    refine ⟨by decide, fun a ha _ hended => ?_⟩
    rw [List.mem_singleton.mp ha] at hended
    exact absurd hended.2 (by decide)

lemma removal_during :
    ∃ w', RunWithin id (Quiet 4 indexedTree) removalInvoked w' ∧
      w'.db.get 7 = some (stored 1 (some 5)) := by
  have hrun : RunWithin id (Quiet 4 indexedTree) removalInvoked removalInvoked :=
    .refl _ (quiet_of_idle rfl fun op hop => (Option.some.inj hop).symm)
  have hrun := hrun.step (.get false rfl)
    (quiet_of_idle rfl fun op hop => (Option.some.inj hop).symm)
  have hrun := hrun.step (.swap false rfl (stored 1 (some 5)) rfl)
    (quiet_of_idle rfl fun op hop => (nomatch hop))
  exact ⟨_, hrun, rfl⟩

theorem validation_amid_indexing_removal :
    let self : AssertionExecutor := ⟨⟨0, 1, 1000⟩, ⟨indexedTree, 0⟩⟩
    let tracer : CallTracer := CallTracer.default.recordCall ⟨[], 0, 7, 7, 0, 0⟩
    let evm := constantEvm tracer ⟨.success 0 [] [], ∅⟩ (.revert 0 [])
    ∃ outcome, self.ValidatesAmid evm id (Quiet 4 indexedTree) removalInvoked .buckets ⟨4, 0⟩
        ⟨0, 0, 0, .call 7, 0, []⟩ (.new ()) () outcome ∧
      outcome = self.validateTransactionExtDb evm (fun _ => false) .buckets ⟨4, 0⟩
        ⟨0, 0, 0, .call 7, 0, []⟩ (.new ()) () := by
  intro self tracer evm
  obtain ⟨w', hduring, -⟩ := removal_during
  have hexecutes : ∀ multiForkDb logsAndTraces, ∃ executions, self.ExecutesAmid evm id
      (Quiet 4 indexedTree) removalInvoked .buckets ⟨4, 0⟩ multiForkDb logsAndTraces
      (.ok executions) := by
    intro multiForkDb logsAndTraces
    obtain ⟨assertions, hread⟩ : ∃ assertions, ReadsAmid id (Quiet 4 indexedTree) .buckets 4
        removalInvoked (HashMap.iter .buckets (logsAndTraces.callTraces.triggers .buckets))
        assertions := ReadsAmid.exists _ hduring
    have hjobs := @assertionJobs_computes _ _ _ _ self evm .buckets ⟨4, 0⟩ multiForkDb
      logsAndTraces assertions hread.length_selectors
    obtain ⟨moves, hcomplete⟩ := Collection.exists_complete hjobs []
    have hcollected : self.ExecutesAmid evm id (Quiet 4 indexedTree) removalInvoked .buckets
        ⟨4, 0⟩ multiForkDb logsAndTraces _ := .collected (by decide) hread moves hcomplete
    rcases hcollect : (Collection.run (self.assertionJobs evm .buckets ⟨4, 0⟩ multiForkDb
        logsAndTraces assertions) moves).collect with e | xs
    · obtain ⟨i, hi⟩ := Collection.collect_error hjobs hcollect
      obtain ⟨f, -, hf⟩ := runAssertionContract_error hi
      cases hf
    · rw [hcollect] at hcollected
      exact ⟨xs, hcollected⟩
  choose executions hexecutions using hexecutes
  have hvalidates : self.ValidatesAmid evm id (Quiet 4 indexedTree) removalInvoked .buckets ⟨4, 0⟩
      ⟨0, 0, 0, .call 7, 0, []⟩ (.new ()) () _ := ⟨_, hexecutions, rfl⟩
  refine ⟨_, hvalidates, ?_⟩
  have hok : ∃ result, (self.validateWith evm .buckets ⟨4, 0⟩ ⟨0, 0, 0, .call 7, 0, []⟩ (.new ())
      () fun multiForkDb logsAndTraces => .ok (executions multiForkDb logsAndTraces)).1 =
        .ok result := by
    unfold validateWith
    split
    next h => cases congrArg Prod.fst h
    next h =>
      split
      · exact ⟨_, rfl⟩
      · dsimp only
        split
        · exact ⟨_, rfl⟩
        · exact ⟨_, rfl⟩
  obtain ⟨result, hresult⟩ := hok
  exact self.validation_amid_indexing (fun _ => Option.map_id') removalInvoked_run
    (fun _ => Option.map_id') (by decide) _ _ _ hvalidates hresult

end AssertionExecutor

end AssertionExecution
