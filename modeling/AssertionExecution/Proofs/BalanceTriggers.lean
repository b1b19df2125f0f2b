import AssertionExecution.Proofs.StoreRead

/-!
# Balance changes

The journal entries that move ETH, and the addresses at which the tracer reports a balance
change. A transfer is reported at both ends, the destruction of an account is not.
-/

namespace AssertionExecution

open EffectLogic HashMap

/-- The journaled operation changes the balance of the address. The balance that a destroyed
account had goes to the target. -/
def JournalEntry.ChangesBalance (a : Address) : JournalEntry → Prop
  | .balanceTransfer source target balance =>
    source ≠ target ∧ balance ≠ 0 ∧ (a = source ∨ a = target)
  | .accountDestroyed address target _ hadBalance => hadBalance ≠ 0 ∧ (a = address ∨ a = target)
  | _ => False

namespace CallTracer

/-- The address is an end of a journaled transfer. -/
def Transfers (tracer : CallTracer) (a : Address) : Prop :=
  ∃ source target balance, .balanceTransfer source target balance ∈ tracer.journalEntries ∧
    (a = source ∨ a = target)

/-- Every read returns the active assertions of the adopter that registered a function on balance
changes, with that function. -/
def RunsOnBalanceChange (tracer : CallTracer) (it : Iteration) (adopter : Address) : Prop :=
  ∀ (fault : Nat → Bool) (s s' : AssertionStore) (block : U256) (a : AssertionState) (f : Selector)
    (result : List AssertionsForExecution), a ∈ AssertionStore.assertions s.db adopter →
    a.isActiveAt block.toNat → f ∈ a.recorded .balanceChange →
    exec (AssertionStore.read fault it tracer block) s = (.ok result, s') →
    ∃ x ∈ result, x.adopter = adopter ∧ x.assertionContract = a.assertionContract ∧
      f ∈ x.selectors

variable {it : Iteration} {tracer : CallTracer} {a : Address}

lemma holds_balanceChange_iff :
    Holds (tracer.triggers it) a .balanceChange ↔ tracer.Transfers a := by
  rw [holds_triggers]
  constructor
  · rintro (⟨selector, h, -⟩ | ⟨entry, hentry, h⟩)
    · cases h
    · cases entry with
      | balanceTransfer source target balance => exact ⟨source, target, balance, hentry, h.1⟩
      | storageChanged address key hadValue => cases h.2
      | _ => exact h.elim
  · rintro ⟨source, target, balance, hentry, ha⟩
    exact Or.inr ⟨_, hentry, ha, rfl⟩

/-- An address at which a balance change is reported is read, and the functions registered on
balance changes match. -/
lemma runsOnBalanceChange_of_holds (h : Holds (tracer.triggers it) a .balanceChange) :
    tracer.RunsOnBalanceChange it a := by
  intro fault s s' block assertion f result hassertion hactive hf hrun
  have hmem := (holds_iff_mem_getD _ _ _).mp h
  obtain ⟨triggers, htriggers⟩ :=
    ((noEmptySets_triggers it tracer).exists_lookup_iff a).mpr ⟨_, h⟩
  rw [htriggers, Option.getD_some] at hmem
  obtain ⟨-, -, hresult⟩ :=
    (AssertionStore.read_spec (d := s.db) it tracer block).ok rfl hrun
  have hreturned := AssertionStore.filter_readResult (d := s.db) it tracer block.toNat a
  rw [← hresult, htriggers, Option.map_some, Option.getD_some] at hreturned
  have hmatched : (⟨assertion.assertionContract, (HashMap.iter it
      (AssertionStore.matchedSelectors it assertion triggers)).map Prod.fst, a⟩ :
        AssertionsForExecution) ∈ AssertionStore.matchedAssertions it s.db block.toNat a triggers :=
    List.mem_map.mpr ⟨assertion, List.mem_filter.mpr ⟨hassertion, hactive⟩, rfl⟩
  rw [← hreturned] at hmatched
  refine ⟨_, (List.mem_filter.mp hmatched).1, rfl, rfl, ?_⟩
  rw [mem_iter_keys_iff, AssertionStore.mem_matchedSelectors]
  exact Or.inl ⟨_, hmem, hf⟩

/-- Every balance change of the journal is reported and runs the assertions registered on it if
and only if each destroyed account that had a balance, and the account the balance went to, are
ends of a transfer as well. -/
theorem balance_changes_trigger_iff (it : Iteration) (tracer : CallTracer) :
    (∀ entry ∈ tracer.journalEntries, ∀ a, entry.ChangesBalance a →
      Holds (tracer.triggers it) a .balanceChange ∧ tracer.RunsOnBalanceChange it a) ↔
    ∀ address target wasDestroyed hadBalance,
      .accountDestroyed address target wasDestroyed hadBalance ∈ tracer.journalEntries →
      hadBalance ≠ 0 → tracer.Transfers address ∧ tracer.Transfers target := by
  constructor
  · intro h address target wasDestroyed hadBalance hentry hbalance
    have haddress := h _ hentry address ⟨hbalance, Or.inl rfl⟩
    have htarget := h _ hentry target ⟨hbalance, Or.inr rfl⟩
    exact ⟨holds_balanceChange_iff.mp haddress.1, holds_balanceChange_iff.mp htarget.1⟩
  · intro h entry hentry a hchanges
    have htransfers : tracer.Transfers a := by
      cases entry with
      | balanceTransfer source target balance =>
        exact ⟨source, target, balance, hentry, hchanges.2.2⟩
      | accountDestroyed address target wasDestroyed hadBalance =>
        obtain ⟨haddress, htarget⟩ := h _ _ _ _ hentry hchanges.1
        obtain ⟨-, rfl | rfl⟩ := hchanges
        · exact haddress
        · exact htarget
      | _ => exact hchanges.elim
    have hholds : Holds (tracer.triggers it) a .balanceChange :=
      holds_balanceChange_iff.mpr htransfers
    exact ⟨hholds, runsOnBalanceChange_of_holds hholds⟩

/-- A transaction creates a contract at an address that holds 5 wei. The contract destroys itself
in its constructor and leaves the balance to another account. -/
def destroyingTracer : CallTracer :=
  let journaledState := JournaledState.new []
  ⟨∅, some { journaledState with journal :=
    [[.accountWarmed 1, .accountWarmed 2, .accountTouched 2, .nonceChange 1],
      [.accountWarmed 3, .accountCreated 3, .accountTouched 3, .balanceTransfer 2 3 0,
        .accountWarmed 4, .accountTouched 4, .accountDestroyed 3 4 false 5]] }⟩

/-- The balance moves to the other account, and no balance change is reported there. -/
theorem beneficiary_not_reported :
    ¬∀ (it : Iteration) (tracer : CallTracer), ∀ entry ∈ tracer.journalEntries, ∀ a,
      entry.ChangesBalance a → Holds (tracer.triggers it) a .balanceChange := by
  intro h
  have hholds := h .buckets destroyingTracer (.accountDestroyed 3 4 false 5) (by decide) 4
    ⟨by decide, Or.inr rfl⟩
  obtain ⟨source, target, balance, hentry, ha⟩ := holds_balanceChange_iff.mp hholds
  simp only [journalEntries, destroyingTracer, Option.map_some, Option.getD_some,
    List.flatten_cons, List.flatten_nil, List.append_nil, List.cons_append, List.nil_append,
    List.mem_cons, List.not_mem_nil, or_false, reduceCtorEq, false_or,
    JournalEntry.balanceTransfer.injEq] at hentry
  obtain ⟨rfl, rfl, -⟩ := hentry
  exact absurd ha (by decide)

end CallTracer

end AssertionExecution
