import AssertionExecution.Proofs.StoreContents

/-!
# What a read returns

The triggers of a transaction, the selectors an assertion recorded for them, and the
assertions a read returns for them, as functions of the stored content.
-/

namespace AssertionExecution

open EffectLogic HashMap

/-! ### The triggers of a transaction -/

/-- The journal entry sets off the trigger at the address. -/
def JournalEntry.Triggers (a : Address) (t : TriggerType) : JournalEntry → Prop
  | .balanceTransfer source target _ => (a = source ∨ a = target) ∧ t = .balanceChange
  | .storageChanged address key _ => a = address ∧ t = .storageChange key
  | _ => False

namespace CallTracer

def journalEntries (tracer : CallTracer) : List JournalEntry :=
  (tracer.journaledState.map (·.journal.flatten)).getD []

variable {result : HashMap Address (HashSet TriggerType)} {a : Address} {t : TriggerType}

lemma holds_insertJournalTriggers (entry : JournalEntry) :
    Holds (insertJournalTriggers result entry) a t ↔ Holds result a t ∨ entry.Triggers a t := by
  cases entry with
  | balanceTransfer source target balance =>
    simp only [insertJournalTriggers, List.foldl_cons, List.foldl_nil, insertTrigger,
      holds_insertInto, JournalEntry.Triggers]
    tauto
  | storageChanged address key hadValue =>
    exact holds_insertInto result address a (.storageChange key) t
  | _ => exact (or_iff_left id).symm

lemma holds_foldl_insertJournalTriggers (entries : List JournalEntry) :
    Holds (entries.foldl insertJournalTriggers result) a t ↔
      Holds result a t ∨ ∃ entry ∈ entries, entry.Triggers a t := by
  induction entries generalizing result with
  | nil => simp
  | cons entry entries ih =>
    rw [List.foldl_cons, ih, holds_insertJournalTriggers, List.exists_mem_cons_iff, or_assoc]

lemma holds_foldl_insertTrigger (keys : List (Address × Selector)) :
    Holds (keys.foldl (fun result key => insertTrigger result key.1 (.call key.2)) result) a t ↔
      Holds result a t ∨ ∃ key ∈ keys, a = key.1 ∧ t = .call key.2 := by
  induction keys generalizing result with
  | nil => simp
  | cons key keys ih =>
    rw [List.foldl_cons, ih, insertTrigger, holds_insertInto, List.exists_mem_cons_iff, or_assoc]

lemma foldl_callInputs (it : Iteration) (tracer : CallTracer) :
    (HashMap.iter it tracer.callInputs).foldl
        (fun result entry => insertTrigger result entry.1.1 (.call entry.1.2)) result =
      ((HashMap.iter it tracer.callInputs).map Prod.fst).foldl
        (fun result key => insertTrigger result key.1 (.call key.2)) result := by
  rw [List.foldl_map]

lemma triggers_eq (it : Iteration) (tracer : CallTracer) :
    tracer.triggers it = tracer.journalEntries.foldl insertJournalTriggers
      (((HashMap.iter it tracer.callInputs).map Prod.fst).foldl
        (fun result key => insertTrigger result key.1 (.call key.2)) ∅) := by
  unfold triggers journalEntries
  rw [foldl_callInputs]
  cases tracer.journaledState <;> rfl

/-- The transaction's calls or its journal set off the trigger at the address. -/
def HasTrigger (tracer : CallTracer) (a : Address) (t : TriggerType) : Prop :=
  (∃ selector, t = .call selector ∧ (a, selector) ∈ tracer.callInputs) ∨
    ∃ entry ∈ tracer.journalEntries, entry.Triggers a t

/-- The triggers at an address are its recorded call keys and those of its journal entries. -/
theorem holds_triggers (it : Iteration) (tracer : CallTracer) (a : Address) (t : TriggerType) :
    Holds (tracer.triggers it) a t ↔ tracer.HasTrigger a t := by
  rw [HasTrigger, triggers_eq, holds_foldl_insertJournalTriggers, holds_foldl_insertTrigger]
  refine or_congr ?_ Iff.rfl
  constructor
  · rintro (h | ⟨⟨address, selector⟩, hkey, rfl, rfl⟩)
    · exact (not_holds_empty a t h).elim
    · exact ⟨selector, rfl, (mem_iter_keys_iff it _ _).mp hkey⟩
  · rintro ⟨selector, rfl, hkey⟩
    exact Or.inr ⟨(a, selector), (mem_iter_keys_iff it _ _).mpr hkey, rfl, rfl⟩

lemma noEmptySets_insertJournalTriggers (h : NoEmptySets result) (entry : JournalEntry) :
    NoEmptySets (insertJournalTriggers result entry) := by
  cases entry with
  | balanceTransfer source target balance => exact (h.insertInto _ _).insertInto _ _
  | storageChanged address key hadValue => exact h.insertInto _ _
  | _ => exact h

lemma noEmptySets_triggers (it : Iteration) (tracer : CallTracer) :
    NoEmptySets (tracer.triggers it) := by
  rw [triggers_eq]
  refine List.foldlRecOn _ _ (List.foldlRecOn _ _ noEmptySets_empty ?_) ?_
  · exact fun result h key _ => h.insertInto _ _
  · exact fun result h entry _ => noEmptySets_insertJournalTriggers h entry

end CallTracer

/-! ### The selectors recorded for them -/

namespace AssertionStore

lemma matchTrigger_spec (a : AssertionState) (m : MatchedTriggers) (t : TriggerType)
    (f : Selector) :
    (f ∈ (matchTrigger a m t).allSelectors ↔ f ∈ m.allSelectors ∨ f ∈ a.recorded t) ∧
    ((matchTrigger a m t).hasCallTrigger ↔ m.hasCallTrigger ∨ ∃ selector, t = .call selector) ∧
    ((matchTrigger a m t).hasStorageTrigger ↔
      m.hasStorageTrigger ∨ ∃ slot, t = .storageChange slot) := by
  cases t <;> simp [matchTrigger, mem_extend]

lemma foldl_matchTrigger_spec (a : AssertionState) (ts : List TriggerType) (m : MatchedTriggers)
    (f : Selector) :
    (f ∈ (ts.foldl (matchTrigger a) m).allSelectors ↔
      f ∈ m.allSelectors ∨ ∃ t ∈ ts, f ∈ a.recorded t) ∧
    ((ts.foldl (matchTrigger a) m).hasCallTrigger ↔
      m.hasCallTrigger ∨ ∃ selector, .call selector ∈ ts) ∧
    ((ts.foldl (matchTrigger a) m).hasStorageTrigger ↔
      m.hasStorageTrigger ∨ ∃ slot, .storageChange slot ∈ ts) := by
  induction ts generalizing m with
  | nil => simp
  | cons t ts ih =>
    obtain ⟨hselectors, hcall, hstorage⟩ := matchTrigger_spec a m t f
    obtain ⟨ihselectors, ihcall, ihstorage⟩ := ih (matchTrigger a m t)
    refine ⟨?_, ?_, ?_⟩
    · rw [List.foldl_cons, ihselectors, hselectors, List.exists_mem_cons_iff, or_assoc]
    · rw [List.foldl_cons, ihcall, hcall, or_assoc, ← exists_or]
      simp only [List.mem_cons, eq_comm]
    · rw [List.foldl_cons, ihstorage, hstorage, or_assoc, ← exists_or]
      simp only [List.mem_cons, eq_comm]

/-- A selector matches when it was recorded for one of the triggers, or for all calls or all
storage changes and one of the triggers is of that kind. -/
theorem mem_matchedSelectors (it : Iteration) (a : AssertionState) (ts : HashSet TriggerType)
    (f : Selector) :
    f ∈ matchedSelectors it a ts ↔
      (∃ t ∈ ts, f ∈ a.recorded t) ∨
      (f ∈ a.recorded .allCalls ∧ ∃ selector, .call selector ∈ ts) ∨
      (f ∈ a.recorded .allStorageChanges ∧ ∃ slot, .storageChange slot ∈ ts) := by
  obtain ⟨hselectors, hcall, hstorage⟩ := foldl_matchTrigger_spec a
    ((HashMap.iter it ts).map Prod.fst) ⟨∅, false, false⟩ f
  simp only [mem_iter_keys_iff, AList.notMem_empty, Bool.false_eq_true, false_or]
    at hselectors hcall hstorage
  unfold matchedSelectors
  dsimp only
  rw [mem_ite_extend, mem_ite_extend, hselectors, hcall, hstorage, or_assoc]

/-! ### The assertions returned -/

/-- The assertions one adopter contributes to a read. -/
def matchedAssertions (it : Iteration) (d : OrderedTree Address (List AssertionState))
    (block : Nat) (adopter : Address) (triggers : HashSet TriggerType) :
    List AssertionsForExecution :=
  ((assertions d adopter).filter (·.isActiveAt block)).map fun a =>
    ⟨a.assertionContract, (HashMap.iter it (matchedSelectors it a triggers)).map Prod.fst, adopter⟩

def readResult (it : Iteration) (d : OrderedTree Address (List AssertionState))
    (traces : CallTracer) (block : Nat) : List AssertionsForExecution :=
  (HashMap.iter it (traces.triggers it)).flatMap fun e => matchedAssertions it d block e.1 e.2

variable {fault : Nat → Bool} {d : OrderedTree Address (List AssertionState)}

lemma readAdopter_spec (it : Iteration) (adopter : Address) (triggers : HashSet TriggerType)
    (block : Nat) :
    Triple (fun s => s.db = d) (readAdopter fault it adopter triggers block)
      (fun r s => s.db = d ∧
        r.map (fun c => (⟨c.1, c.2, adopter⟩ : AssertionsForExecution)) =
          matchedAssertions it d block adopter triggers)
      (fun e _ => e = .error .sledError ∧ ∃ t, fault t = true) := by
  refine Triple.of_forall fun s₀ hs₀ => ?_
  refine Triple.bind ((dbGet_spec adopter s₀).consequence (fun _ h => h) (fun _ _ h => h)
    (fun _ _ h => ⟨h.1, _, h.2.1⟩)) ?_
  intro r
  refine Triple.pure ?_
  rintro s ⟨rfl, hs⟩
  refine ⟨hs.trans hs₀, ?_⟩
  unfold matchedAssertions assertions
  rw [List.map_map, hs₀]
  rfl

lemma readAdopters_spec (it : Iteration) (block : Nat)
    (adopters : List (Address × HashSet TriggerType)) :
    Triple (fun s => s.db = d) (readAdopters fault it block adopters)
      (fun r s => s.db = d ∧ r = adopters.flatMap fun e => matchedAssertions it d block e.1 e.2)
      (fun e _ => e = .error .sledError ∧ ∃ t, fault t = true) := by
  induction adopters with
  | nil => exact Triple.pure fun s hs => ⟨hs, rfl⟩
  | cons e adopters ih =>
    refine Triple.bind (readAdopter_spec it e.1 e.2 block) fun r => ?_
    refine Triple.of_forall fun s₀ h₀ => ?_
    refine Triple.bind (ih.consequence (fun s hs => hs ▸ h₀.1) (fun _ _ h => h)
      (fun _ _ h => h)) fun rest => ?_
    refine Triple.pure ?_
    rintro s ⟨hs, rfl⟩
    exact ⟨hs, by rw [List.flatMap_cons, ← h₀.2]⟩

/-- A read that succeeds returns the matched assertions and writes nothing. -/
theorem read_spec (it : Iteration) (traces : CallTracer) (blockNum : U256) :
    Triple (fun s => s.db = d) (AssertionStore.read fault it traces blockNum)
      (fun r s => s.db = d ∧ blockNum.toNat ≤ u64Max ∧
        r = readResult it d traces blockNum.toNat)
      (fun e _ => (e = .error .blockNumberExceedsU64 ∧ u64Max < blockNum.toNat) ∨
        (e = .error .sledError ∧ ∃ t, fault t = true)) := by
  unfold AssertionStore.read
  by_cases h : u64Max < blockNum.toNat
  · rw [if_pos h]
    exact fun s hs => Or.inl ⟨rfl, h⟩
  · rw [if_neg h]
    exact (readAdopters_spec it blockNum.toNat _).consequence (fun _ hs => hs)
      (fun _ _ hr => ⟨hr.1, Nat.le_of_not_lt h, hr.2⟩) (fun _ _ he => Or.inr he)

/-- The assertions returned for an adopter are its active ones, if it is touched at all. -/
theorem filter_readResult (it : Iteration) (traces : CallTracer) (block : Nat)
    (adopter : Address) :
    (readResult it d traces block).filter (fun x => x.adopter = adopter) =
      (((traces.triggers it).lookup adopter).map
        (matchedAssertions it d block adopter)).getD [] := by
  rw [← HashMap.flatMap_iter_key it, readResult, List.filter_flatMap]
  refine List.flatMap_congr fun e _ => ?_
  by_cases h : e.1 = adopter
  · subst h
    rw [if_pos rfl, List.filter_eq_self]
    intro x hx
    obtain ⟨-, -, rfl⟩ := List.mem_map.mp hx
    exact decide_eq_true rfl
  · rw [if_neg h, List.filter_eq_nil_iff]
    intro x hx
    obtain ⟨-, -, rfl⟩ := List.mem_map.mp hx
    simpa using h

end AssertionStore

end AssertionExecution
