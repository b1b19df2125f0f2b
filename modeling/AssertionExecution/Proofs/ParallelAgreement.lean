import Mathlib.Algebra.BigOperators.Fin
import AssertionExecution.Model.ParallelExecution
import AssertionExecution.Proofs.Verdict

/-!
# Schedules do not matter

Whatever the order in which the workers run the functions, the executor returns what it would
return if it ran one after the other.
-/

namespace AssertionExecution

/-- A set of selectors has fewer elements than a counter can hold. -/
lemma length_selectors_lt (it : Iteration) (selectors : HashSet Selector) :
    ((HashMap.iter it selectors).map Prod.fst).length < 2 ^ 64 := by
  have hnodup := HashMap.iter_keys_nodup it selectors
  have hsub :
      ((HashMap.iter it selectors).map Prod.fst).map BitVec.toNat ⊆ List.range (2 ^ 32) := by
    intro n hn
    obtain ⟨f, -, rfl⟩ := List.mem_map.mp hn
    exact List.mem_range.mpr f.isLt
  have hle := ((hnodup.map (f := BitVec.toNat) BitVec.toNat_injective).subperm hsub).length_le
  rw [List.length_map, List.length_range] at hle
  omega

namespace AssertionExecutor

open EffectLogic ParallelMap Collect

variable {ExtDb ExtErr Active ActiveErr : Type} {self : AssertionExecutor}
  {evm : Evm ExtDb ExtErr Active ActiveErr} {fault : Nat → Bool} {it : Iteration}
  {blockEnv : BlockEnv} {multiForkDb : MultiForkDb (ForkDb Active)}
  {logsAndTraces : LogsAndTraces}

/-! ### One assertion -/

section Contract

variable {contract : AssertionContract} {context : PhEvmContext} {fs : List Selector}

lemma fnTask_adds_length (f : Selector) :
    (self.fnTask evm contract blockEnv multiForkDb context f).adds.length + 2 ≤ 4 := by
  unfold fnTask
  cases self.executeAssertionFn evm contract f blockEnv multiForkDb context with
  | error e =>
    change 2 ≤ 4
    omega
  | ok r => exact Nat.le_refl 4

lemma fnTask_result (f : Selector) :
    (self.fnTask evm contract blockEnv multiForkDb context f).result =
      (self.executeAssertionFn evm contract f blockEnv multiForkDb context).map Prod.fst := by
  unfold fnTask
  cases self.executeAssertionFn evm contract f blockEnv multiForkDb context <;> rfl

lemma sum_adds_of_ok {rs : List (AssertionFunctionResult × Nat)}
    (h : fs.mapM (fun f => self.executeAssertionFn evm contract f blockEnv multiForkDb context) =
      .ok rs) :
    (fs.map fun f => (self.fnTask evm contract blockEnv multiForkDb context f).adds.sum).sum =
      (BitVec.ofNat 64 (rs.map Prod.snd).sum, BitVec.ofNat 64 rs.length) := by
  induction fs generalizing rs with
  | nil =>
    cases h
    rfl
  | cons f fs ih =>
    obtain ⟨⟨result, gasUsed⟩, rs', hf, hfs, rfl⟩ := mapM_cons_ok.mp h
    have hadds : (self.fnTask evm contract blockEnv multiForkDb context f).adds.sum =
        (BitVec.ofNat 64 gasUsed, 1) := by
      unfold fnTask
      rw [hf]
      simp
    rw [List.map_cons, List.sum_cons, ih hfs, hadds, List.map_cons, List.sum_cons,
      List.length_cons, Nat.add_comm rs'.length 1, BitVec.ofNat_add, BitVec.ofNat_add]
    rfl

def contractWork (self : AssertionExecutor) (evm : Evm ExtDb ExtErr Active ActiveErr)
    (it : Iteration) (contract : AssertionContract) (fs : List Selector) (blockEnv : BlockEnv)
    (multiForkDb : MultiForkDb (ForkDb Active)) (context : PhEvmContext) (j : Fin fs.length) :
    Task Counters (Except ExecutorError AssertionFunctionResult) :=
  self.fnTask evm contract blockEnv (insertAssertionContract it contract multiForkDb) context
    (fs.get j)

/-- Once every function has returned, the outcome is the sequential one. -/
lemma contractOutcome_of_complete (hfs : fs.length < 2 ^ 64) {schedule : List (Fin fs.length)}
    (h : (Pool.run (self.contractWork evm it contract fs blockEnv multiForkDb context)
      schedule).Complete) :
    contractOutcome (Pool.run (self.contractWork evm it contract fs blockEnv multiForkDb context)
        schedule) =
      some (self.runAssertionContract evm it contract fs blockEnv multiForkDb context) := by
  let forks := insertAssertionContract it contract multiForkDb
  let call f := self.executeAssertionFn evm contract f blockEnv forks context
  have hcounter := Pool.counter_of_complete h
  have hresults := mapM_option_of_eq fun j (_ : j ∈ List.finRange fs.length) =>
    Pool.result_of_complete h j
  have hsum : ∑ j, (self.contractWork evm it contract fs blockEnv multiForkDb context j).adds.sum =
      (fs.map fun f => (self.fnTask evm contract blockEnv forks context f).adds.sum).sum :=
    Fin.sum_univ_fun_getElem fs fun f =>
      (self.fnTask evm contract blockEnv forks context f).adds.sum
  have hmap : (List.finRange fs.length).map
      (fun j => (self.contractWork evm it contract fs blockEnv multiForkDb context j).result) =
      fs.map fun f => (call f).map Prod.fst := by
    have hget := congrArg (List.map fun f => (call f).map Prod.fst) (List.map_get_finRange fs)
    rw [List.map_map] at hget
    rw [← hget]
    apply List.map_congr_left
    intro j _
    exact fnTask_result _
  unfold contractOutcome runAssertionContract
  rw [hresults, Option.map_some, hmap, hcounter, hsum, List.mapM_map]
  congr 1
  change fs.mapM (fun f => (call f).map Prod.fst) >>= _ = (fs.map call).mapM id >>= _
  rw [mapM_except_map, List.mapM_map]
  change (fs.mapM call).map (List.map Prod.fst) >>= _ = fs.mapM call >>= _
  cases hruns : fs.mapM call with
  | error e => rfl
  | ok rs =>
    have hlength : rs.length % 2 ^ 64 = rs.length :=
      Nat.mod_eq_of_lt (length_of_mapM hruns ▸ hfs)
    rw [sum_adds_of_ok hruns]
    dsimp only
    rw [BitVec.toNat_ofNat, BitVec.toNat_ofNat, hlength]
    rfl

/-- No outcome is taken before every function has returned. -/
lemma complete_of_contractOutcome {pool : FnPool fs}
    {outcome : Except ExecutorError AssertionContractExecution}
    (h : contractOutcome pool = some outcome) : pool.Complete := by
  unfold contractOutcome at h
  obtain ⟨resultsVec, hresults, -⟩ := Option.map_eq_some_iff.mp h
  intro j
  exact isSome_of_mapM_option hresults (List.mem_finRange j)

end Contract

/-! ### All assertions -/

def runAssertion (self : AssertionExecutor) (evm : Evm ExtDb ExtErr Active ActiveErr)
    (it : Iteration) (blockEnv : BlockEnv) (multiForkDb : MultiForkDb (ForkDb Active))
    (logsAndTraces : LogsAndTraces) (assertion : AssertionsForExecution) :
    Except ExecutorError AssertionContractExecution :=
  self.runAssertionContract evm it assertion.assertionContract assertion.selectors blockEnv
    multiForkDb ⟨logsAndTraces, assertion.adopter⟩

/-- However its functions are scheduled, the job of an assertion comes to the sequential outcome. -/
lemma assertionJobs_computes {assertions : List AssertionsForExecution}
    (hlength : ∀ a ∈ assertions, a.selectors.length < 2 ^ 64) :
    (self.assertionJobs evm it blockEnv multiForkDb logsAndTraces assertions).Computes
      fun i => self.runAssertion evm it blockEnv multiForkDb logsAndTraces (assertions.get i) where
  outcome_eq i schedule outcome h := by
    have hcomplete := complete_of_contractOutcome h
    have hsequential :=
      contractOutcome_of_complete (hlength _ (List.get_mem assertions i)) hcomplete
    exact Option.some.inj (h.symm.trans hsequential)
  exists_outcome i schedule := by
    have hbound : ∀ j, (self.contractWork evm it (assertions.get i).assertionContract
        (assertions.get i).selectors blockEnv multiForkDb
        ⟨logsAndTraces, (assertions.get i).adopter⟩ j).adds.length + 2 ≤ 4 :=
      fun j => fnTask_adds_length _
    obtain ⟨rest, hcomplete⟩ := Pool.exists_complete_run hbound schedule
    refine ⟨rest, ?_⟩
    have hsequential :=
      contractOutcome_of_complete (hlength _ (List.get_mem assertions i)) hcomplete
    exact Option.isSome_iff_exists.mpr ⟨_, hsequential⟩

lemma length_selectors_of_read {assertions : List AssertionsForExecution}
    (h : (exec (AssertionStore.read fault it logsAndTraces.callTraces blockEnv.number)
      self.store).1 = .ok assertions) :
    ∀ a ∈ assertions, a.selectors.length < 2 ^ 64 := by
  have hread := @AssertionStore.read_spec fault self.store.db it
    logsAndTraces.callTraces blockEnv.number self.store rfl
  obtain ⟨s, hrun⟩ := exists_exec_ok h
  rw [hrun] at hread
  obtain ⟨-, -, rfl⟩ := hread
  intro a ha
  obtain ⟨⟨adopter, triggers⟩, -, hmatched⟩ := List.mem_flatMap.mp ha
  obtain ⟨state, -, rfl⟩ := List.mem_map.mp hmatched
  exact length_selectors_lt it _

lemma executeAssertions_of_read {assertions : List AssertionsForExecution}
    (h : (exec (AssertionStore.read fault it logsAndTraces.callTraces blockEnv.number)
      self.store).1 = .ok assertions) :
    self.executeAssertions evm fault it blockEnv multiForkDb logsAndTraces =
      assertions.mapM (self.runAssertion evm it blockEnv multiForkDb logsAndTraces) := by
  unfold executeAssertions
  rw [h]
  cases assertions <;> rfl

/-- Workers collect what the sequential execution collects. -/
lemma ExecutesInParallel.ok_iff {result : Except ExecutorError (List AssertionContractExecution)}
    (h : self.ExecutesInParallel evm fault it blockEnv multiForkDb logsAndTraces result)
    (executions : List AssertionContractExecution) :
    result = .ok executions ↔
      self.executeAssertions evm fault it blockEnv multiForkDb logsAndTraces = .ok executions := by
  cases h with
  | unread hread =>
    unfold executeAssertions
    rw [hread]
  | @collected assertions hread moves hcomplete =>
    have hjobs := @assertionJobs_computes _ _ _ _ self evm it blockEnv multiForkDb logsAndTraces
      assertions (length_selectors_of_read hread)
    rw [executeAssertions_of_read hread]
    have hsequential : ∀ xs, (Collection.run (self.assertionJobs evm it blockEnv multiForkDb
        logsAndTraces assertions) moves).collect = .ok xs →
        assertions.mapM (self.runAssertion evm it blockEnv multiForkDb logsAndTraces) = .ok xs := by
      intro xs hcollect
      obtain ⟨x, hx, rfl⟩ := Collection.collect_ok hjobs hcomplete hcollect
      exact mapM_eq_ofFn hx
    constructor
    · exact hsequential executions
    · intro hmapM
      cases hcollect : (Collection.run (self.assertionJobs evm it blockEnv multiForkDb
          logsAndTraces assertions) moves).collect with
      | ok xs => rw [← hmapM, ← hsequential xs hcollect]
      | error e =>
        obtain ⟨i, hi⟩ := Collection.collect_error hjobs hcollect
        obtain ⟨x, hx⟩ := exists_ok_of_mapM hmapM (List.get_mem assertions i)
        rw [hi] at hx
        cases hx

lemma validateTransactionExtDb_eq (txEnv : TxEnv) (forkDb : ForkDb Active) (externalDb : ExtDb) :
    self.validateTransactionExtDb evm fault it blockEnv txEnv forkDb externalDb =
      self.validateWith evm it blockEnv txEnv forkDb externalDb
        (self.executeAssertions evm fault it blockEnv) := rfl

/-- A validation depends on its execution of the assertions only by what that returns. -/
lemma validateWith_agrees (txEnv : TxEnv) (forkDb : ForkDb Active) (externalDb : ExtDb)
    {execute execute' : MultiForkDb (ForkDb Active) → LogsAndTraces →
      Except ExecutorError (List AssertionContractExecution)}
    (h : ∀ multiForkDb logsAndTraces executions,
      execute multiForkDb logsAndTraces = .ok executions ↔
        execute' multiForkDb logsAndTraces = .ok executions) :
    (self.validateWith evm it blockEnv txEnv forkDb externalDb execute).2 =
        (self.validateWith evm it blockEnv txEnv forkDb externalDb execute').2 ∧
      ∀ result, (self.validateWith evm it blockEnv txEnv forkDb externalDb execute).1 = .ok result ↔
        (self.validateWith evm it blockEnv txEnv forkDb externalDb execute').1 = .ok result := by
  unfold validateWith
  rcases self.executeForkedTxExtDb evm it blockEnv txEnv forkDb externalDb with
    ⟨e | ⟨txTraces, resultAndState⟩, postTxDb, externalDb'⟩
  · exact ⟨rfl, fun _ => Iff.rfl⟩
  dsimp only
  by_cases hsuccess : (!resultAndState.result.isSuccess) = true
  · rw [if_pos hsuccess, if_pos hsuccess]
    exact ⟨rfl, fun _ => Iff.rfl⟩
  rw [if_neg hsuccess, if_neg hsuccess]
  have hexecute := h (MultiForkDb.new forkDb postTxDb) ⟨resultAndState.result.logs, txTraces⟩
  cases hleft :
      execute (MultiForkDb.new forkDb postTxDb) ⟨resultAndState.result.logs, txTraces⟩ with
  | ok executions =>
    rw [(hexecute executions).mp hleft]
    exact ⟨rfl, fun _ => Iff.rfl⟩
  | error e =>
    cases hright : execute' (MultiForkDb.new forkDb postTxDb)
        ⟨resultAndState.result.logs, txTraces⟩ with
    | ok executions =>
      rw [(hexecute executions).mpr hright] at hleft
      cases hleft
    | error e' =>
      refine ⟨rfl, fun result => ⟨fun h => ?_, fun h => ?_⟩⟩
      · cases h
      · cases h

/-! ### Totals -/

structure Totalled (x : AssertionContractExecution) : Prop where
  gas : x.totalAssertionGas =
    (x.assertionFnsResults.map (·.asResult.gasUsed)).sum % 2 ^ 64
  funcs : x.totalAssertionFuncsRan = x.assertionFnsResults.length

lemma totalled_runAssertion {assertion : AssertionsForExecution} {x : AssertionContractExecution}
    (h : self.runAssertion evm it blockEnv multiForkDb logsAndTraces assertion = .ok x) :
    Totalled x := by
  unfold runAssertion at h
  rw [runAssertionContract_eq] at h
  cases hruns : assertion.selectors.mapM (self.runFn evm it blockEnv multiForkDb logsAndTraces
      assertion.adopter assertion.assertionContract) with
  | error e =>
    rw [hruns] at h
    cases h
  | ok rs =>
    rw [hruns] at h
    cases h
    refine ⟨?_, (List.length_map _).symm⟩
    dsimp only
    rw [List.map_map]
    congr 2
    apply List.map_congr_left
    rintro ⟨r, gasUsed⟩ hr
    obtain ⟨f, -, hf⟩ := (mem_iff_of_mapM hruns _).mp hr
    unfold runFn executeAssertionFn at hf
    dsimp only at hf
    split at hf
    · cases hf
    · cases hf
      rfl

lemma totalled_executeAssertions {xs : List AssertionContractExecution}
    (h : self.executeAssertions evm fault it blockEnv multiForkDb logsAndTraces = .ok xs) :
    ∀ x ∈ xs, Totalled x := by
  cases hread : (exec (AssertionStore.read fault it logsAndTraces.callTraces blockEnv.number)
      self.store).1 with
  | error e =>
    unfold executeAssertions at h
    rw [hread] at h
    cases h
  | ok assertions =>
    rw [executeAssertions_of_read hread] at h
    intro x hx
    obtain ⟨assertion, -, hrun⟩ := (mem_iff_of_mapM h x).mp hx
    exact totalled_runAssertion hrun

lemma validateWith_executions {txEnv : TxEnv} {forkDb : ForkDb Active} {externalDb : ExtDb}
    {execute : MultiForkDb (ForkDb Active) → LogsAndTraces →
      Except ExecutorError (List AssertionContractExecution)} {result : TxValidationResult}
    (h : (self.validateWith evm it blockEnv txEnv forkDb externalDb execute).1 = .ok result) :
    result.assertionsExecutions = [] ∨ ∃ multiForkDb logsAndTraces,
      execute multiForkDb logsAndTraces = .ok result.assertionsExecutions := by
  unfold validateWith at h
  split at h
  · cases h
  · split at h
    · cases h
      exact .inl rfl
    · split at h
      · cases h
      next hexecute =>
        split at h
        · cases h
          exact .inl rfl
        · cases h
          exact .inr ⟨_, _, hexecute⟩

lemma sum_totals {xs : List AssertionContractExecution} (h : ∀ x ∈ xs, Totalled x) :
    (xs.map (·.totalAssertionGas)).sum % 2 ^ 64 =
        ((xs.flatMap (·.assertionFnsResults)).map (·.asResult.gasUsed)).sum % 2 ^ 64 ∧
      (xs.map (·.totalAssertionFuncsRan)).sum =
        (xs.flatMap (·.assertionFnsResults)).length := by
  induction xs with
  | nil => exact ⟨rfl, rfl⟩
  | cons x xs ih =>
    obtain ⟨hgas, hfuncs⟩ := ih fun y hy => h y (List.mem_cons_of_mem x hy)
    have hx := h x List.mem_cons_self
    rw [List.map_cons, List.sum_cons, List.map_cons, List.sum_cons, List.flatMap_cons,
      List.map_append, List.sum_append, List.length_append, hfuncs, hx.funcs, Nat.add_mod, hgas,
      hx.gas, Nat.mod_mod, ← Nat.add_mod]
    exact ⟨rfl, rfl⟩

/-- However far the workers have come, they can finish, and however they interleave, the validation
returns what the sequential one returns and leaves the same fork database, or fails when that one
fails. Its totals are the sums over all functions that ran. -/
theorem parallel_validation_agrees (self : AssertionExecutor)
    (evm : Evm ExtDb ExtErr Active ActiveErr) (fault : Nat → Bool) (it : Iteration)
    (blockEnv : BlockEnv) (txEnv : TxEnv) (forkDb : ForkDb Active) (externalDb : ExtDb) :
    (∀ multiForkDb logsAndTraces assertions,
      (exec (AssertionStore.read fault it logsAndTraces.callTraces blockEnv.number)
        self.store).1 = .ok assertions →
      ∀ moves, ∃ rest, (Collection.run (self.assertionJobs evm it blockEnv multiForkDb
        logsAndTraces assertions) (moves ++ rest)).Complete) ∧
    ∀ outcome, self.ValidatesInParallel evm fault it blockEnv txEnv forkDb externalDb outcome →
      outcome.2 =
        (self.validateTransactionExtDb evm fault it blockEnv txEnv forkDb externalDb).2 ∧
      (∀ result, outcome.1 = .ok result ↔
        (self.validateTransactionExtDb evm fault it blockEnv txEnv forkDb externalDb).1 =
          .ok result) ∧
      ∀ result, outcome.1 = .ok result →
        result.totalAssertionsGas = ((result.assertionsExecutions.flatMap
          (·.assertionFnsResults)).map (·.asResult.gasUsed)).sum % 2 ^ 64 ∧
        result.totalAssertionFuncsRan =
          (result.assertionsExecutions.flatMap (·.assertionFnsResults)).length % 2 ^ 64 := by
  constructor
  · intro multiForkDb logsAndTraces assertions hread moves
    exact Collection.exists_complete (assertionJobs_computes (length_selectors_of_read hread)) moves
  · rintro _ ⟨execute, hexecute, rfl⟩
    have hiff := fun multiForkDb logsAndTraces => (hexecute multiForkDb logsAndTraces).ok_iff
    rw [validateTransactionExtDb_eq]
    obtain ⟨hdbs, hresult⟩ := validateWith_agrees txEnv forkDb externalDb hiff
    refine ⟨hdbs, hresult, fun result hok => ?_⟩
    have htotalled : ∀ x ∈ result.assertionsExecutions, Totalled x := by
      rcases validateWith_executions hok with hnil | ⟨multiForkDb, logsAndTraces, hexecuted⟩
      · rw [hnil]
        exact fun x hx => absurd hx List.not_mem_nil
      · exact totalled_executeAssertions ((hiff multiForkDb logsAndTraces _).mp hexecuted)
    obtain ⟨hgas, hfuncs⟩ := sum_totals htotalled
    exact ⟨hgas, congrArg (· % 2 ^ 64) hfuncs⟩

end AssertionExecutor

end AssertionExecution
