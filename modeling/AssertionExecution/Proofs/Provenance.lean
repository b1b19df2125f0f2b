import AssertionExecution.Model.IndexerService
import AssertionExecution.Proofs.LastIndexedMarker
import AssertionExecution.Proofs.StoreRecords

/-!
# Where the assertions of the store come from

Whatever fails and however often the service is restarted, a record of the store stems from
logs that the node reported for blocks at or below a block that it later reported under the
await tag.
-/

namespace AssertionExecution

open EffectLogic FirstMatch

/-! ### Reported and final modifications -/

namespace Indexer

/-- At step `t` the node listed a log of block `n` that extracts to the modification. -/
def Reported (self : Indexer) (env : Env) (t n : Nat) (m : PendingModification) : Prop :=
  ∃ first last i, self.Extracts env.services
    ((env.node t).getLogs ⟨self.stateOracle, first, last⟩) n i m

/-- At step `t` the node had a block at or above `n` under the await tag. -/
def Awaits (self : Indexer) (env : Env) (t n : Nat) : Prop :=
  ∃ header, (env.node t).getBlockByTag self.awaitTag = some header ∧ n ≤ header.number

/-- Before step `now` the modification was reported for a block, and after that report a block
at or above it was awaited. -/
def Final (self : Indexer) (env : Env) (now : Nat) (m : PendingModification) : Prop :=
  ∃ n t t', self.Reported env t n m ∧ self.Awaits env t' n ∧ t < t' ∧ t' < now

lemma Final.mono {self : Indexer} {env : Env} {now now' : Nat} {m : PendingModification}
    (h : self.Final env now m) (hle : now ≤ now') : self.Final env now' m := by
  obtain ⟨n, t, t', hreported, hawaits, hlt, hnow⟩ := h
  exact ⟨n, t, t', hreported, hawaits, hlt, Nat.lt_of_lt_of_le hnow hle⟩

end Indexer

namespace AssertionStore

/-- The contract and the triggers of a record, its activation and its deactivation stem from
modifications of a set. -/
structure StemsFrom (F : PendingModification → Prop) (adopter : Address) (a : AssertionState) :
    Prop where
  contract : ∃ activeAtBlock logIndex,
    F (.add adopter a.assertionContract a.triggerRecorder activeAtBlock logIndex)
  active : ∃ contract recorder logIndex, contract.id = a.assertionContract.id ∧
    F (.add adopter contract recorder a.activeAtBlock logIndex)
  inactive : ∀ inactiveAtBlock, a.inactiveAtBlock = some inactiveAtBlock → ∃ logIndex,
    F (.remove adopter a.assertionContract.id inactiveAtBlock logIndex)

def AllStemFrom (F : PendingModification → Prop) (d : OrderedTree Address (List AssertionState)) :
    Prop :=
  ∀ adopter, ∀ a ∈ assertions d adopter, StemsFrom F adopter a

variable {F F' : PendingModification → Prop} {adopter : Address} {a : AssertionState}
  {d : OrderedTree Address (List AssertionState)} {fault : Nat → Bool}

lemma StemsFrom.mono (h : StemsFrom F adopter a) (hF : ∀ m, F m → F' m) :
    StemsFrom F' adopter a := by
  obtain ⟨activeAt, i, hadd⟩ := h.contract
  obtain ⟨contract, recorder, j, hid, hactive⟩ := h.active
  refine ⟨⟨activeAt, i, hF _ hadd⟩, ⟨contract, recorder, j, hid, hF _ hactive⟩, ?_⟩
  intro inactiveAt hinactive
  obtain ⟨k, hremove⟩ := h.inactive inactiveAt hinactive
  exact ⟨k, hF _ hremove⟩

lemma StemsFrom.update (h : StemsFrom F adopter a) {m : PendingModification} (hm : F m)
    (hadopter : m.assertionAdopter = adopter)
    (hid : m.assertionContractId = a.assertionContractId) : StemsFrom F adopter (m.update a) := by
  cases m with
  | add adopter' contract recorder activeAt logIndex =>
    cases hadopter
    exact ⟨h.contract, ⟨contract, recorder, logIndex, hid, hm⟩, h.inactive⟩
  | remove adopter' id inactiveAt logIndex =>
    cases hadopter
    refine ⟨h.contract, h.active, ?_⟩
    intro inactiveAt' hinactive
    cases hinactive
    have hid' : id = a.assertionContract.id := hid
    rw [hid'] at hm
    exact ⟨logIndex, hm⟩

lemma stemsFrom_fresh {m : PendingModification} (hm : F m) (hadopter : m.assertionAdopter = adopter)
    (ha : a ∈ m.fresh) : StemsFrom F adopter a := by
  cases m with
  | add adopter' contract recorder activeAt logIndex =>
    cases hadopter
    rw [List.mem_singleton.mp ha]
    exact ⟨⟨activeAt, logIndex, hm⟩, ⟨contract, recorder, logIndex, rfl, hm⟩, fun _ h => by cases h⟩
  | remove => exact absurd ha List.not_mem_nil

lemma stemsFrom_applyModification {l : List AssertionState}
    (hl : ∀ a ∈ l, StemsFrom F adopter a) {m : PendingModification} (hm : F m)
    (hadopter : m.assertionAdopter = adopter) (ha : a ∈ applyModification l m) :
    StemsFrom F adopter a := by
  rw [applyModification_eq] at ha
  rcases mem_modifyFirstOrAppend _ _ _ _ ha with ha | ⟨b, hb, hisOf, rfl⟩ | ha
  · exact hl a ha
  · exact (hl b hb).update hm hadopter (of_decide_eq_true hisOf).symm
  · exact stemsFrom_fresh hm hadopter ha

lemma stemsFrom_foldl {ms : List PendingModification} {l : List AssertionState}
    (hl : ∀ a ∈ l, StemsFrom F adopter a) (hms : ∀ m ∈ ms, F m ∧ m.assertionAdopter = adopter)
    (ha : a ∈ ms.foldl applyModification l) : StemsFrom F adopter a := by
  induction ms generalizing l with
  | nil => exact hl a ha
  | cons m ms ih =>
    obtain ⟨hm, hadopter⟩ := hms m (List.mem_cons_self ..)
    exact ih (fun b hb => stemsFrom_applyModification hl hm hadopter hb)
      (fun m' hm' => hms m' (List.mem_cons_of_mem m hm')) ha

lemma allStemFrom_empty : AllStemFrom F .empty := fun _ _ ha => absurd ha List.not_mem_nil

lemma AllStemFrom.mono (h : AllStemFrom F d) (hF : ∀ m, F m → F' m) : AllStemFrom F' d :=
  fun adopter a ha => (h adopter a ha).mono hF

lemma AllStemFrom.insert_group (h : AllStemFrom F d) {ms : List PendingModification}
    (hms : ∀ m ∈ ms, F m ∧ m.assertionAdopter = adopter) :
    AllStemFrom F (d.insert adopter (ms.foldl applyModification (assertions d adopter))) := by
  intro adopter' a ha
  unfold assertions at ha
  rw [OrderedTree.get_insert] at ha
  by_cases heq : adopter' = adopter
  · rw [if_pos heq] at ha
    subst heq
    exact stemsFrom_foldl (h adopter') hms ha
  · rw [if_neg heq] at ha
    exact h adopter' a ha

lemma applyGroups_keeps_allStemFrom (fuel : Nat)
    (groups : List (Address × List PendingModification))
    (hgroups : ∀ g ∈ groups, ∀ m ∈ g.2, F m ∧ m.assertionAdopter = g.1) :
    Keeps (fun s => AllStemFrom F s.db) (applyGroups fault fuel groups) := by
  induction groups with
  | nil => exact Keeps.pure ()
  | cons g groups ih =>
    refine Keeps.bind ?_ fun _ => ih fun g' hg' => hgroups g' (List.mem_cons_of_mem g hg')
    apply Triple.of_forall
    intro s hs
    apply (applyPendingModification_spec (d := s.db) g.1 g.2 fuel).consequence
    · rintro _ rfl
      rfl
    · intro _ s' hs'
      rw [hs']
      exact AllStemFrom.insert_group hs (hgroups g (List.mem_cons_self ..))
    · rintro _ s' ⟨hs', -⟩
      rw [hs']
      exact hs

/-- A batch leaves records that stem from its modifications, also where it stops half way. -/
theorem applyPendingModifications_keeps_allStemFrom (it : Iteration) (fuel : Nat)
    {ms : List PendingModification} (hms : ∀ m ∈ ms, F m) :
    Keeps (fun s => AllStemFrom F s.db) (applyPendingModifications fault it fuel ms) := by
  apply applyGroups_keeps_allStemFrom
  rintro ⟨adopter, group⟩ hgroup m hm
  have hlookup := (HashMap.mem_iter_iff it _ _ _).mp hgroup
  rw [lookup_groupByAdopter] at hlookup
  split_ifs at hlookup
  cases hlookup
  obtain ⟨hmem, hadopter⟩ := List.mem_filter.mp hm
  exact ⟨hms m hmem, of_decide_eq_true hadopter⟩

end AssertionStore

/-! ### The invariant of the trees -/

namespace IndexerState

structure Elapses (s s' : IndexerState) : Prop where
  pending : s'.pendingModificationsTree = s.pendingModificationsTree
  db : s'.store.db = s.store.db
  steps : s.steps ≤ s'.steps

instance : IsPreorder IndexerState Elapses where
  refl _ := ⟨rfl, rfl, Nat.le_refl _⟩
  trans _ _ _ h h' := ⟨h'.pending.trans h.pending, h'.db.trans h.db, Nat.le_trans h.steps h'.steps⟩

lemma Elapses.next (s : IndexerState) : s.Elapses { s with steps := s.steps + 1 } :=
  ⟨rfl, rfl, Nat.le_succ _⟩

/-- Step `now` has been reached, pending modifications were reported for their blocks before
step `since`, and the records of the store stem from final modifications. -/
structure Sourced (indexer : Indexer) (env : Env) (since now : Nat) (s : IndexerState) : Prop where
  pending : ∀ n ms, s.pendingModificationsTree.get n = some ms → ∀ m ∈ ms,
    ∃ t < since, indexer.Reported env t n m
  stored : AssertionStore.AllStemFrom (indexer.Final env s.steps) s.store.db
  reached : now ≤ s.steps

def SourcedNow (indexer : Indexer) (env : Env) (s : IndexerState) : Prop :=
  s.Sourced indexer env s.steps s.steps

variable {self : Indexer} {env : Env} {since now : Nat} {s s' : IndexerState}

lemma Sourced.elapses (h : s.Sourced self env since now) (hs : s.Elapses s') :
    s'.Sourced self env since now where
  pending n ms hms := h.pending n ms (hs.pending ▸ hms)
  stored := by
    rw [hs.db]
    exact h.stored.mono fun _ hm => hm.mono hs.steps
  reached := Nat.le_trans h.reached hs.steps

lemma Sourced.present (h : s.Sourced self env since now) (hle : since ≤ now) :
    s.SourcedNow self env where
  pending n ms hms m hm := by
    obtain ⟨t, ht, hreported⟩ := h.pending n ms hms m hm
    have hreached := h.reached
    exact ⟨t, by omega, hreported⟩
  stored := h.stored
  reached := Nat.le_refl _

lemma SourcedNow.elapses (h : s.SourcedNow self env) (hs : s.Elapses s') :
    s'.SourcedNow self env :=
  (Sourced.elapses h hs).present (Nat.le_refl _)

end IndexerState

namespace Indexer

open IndexerState

variable {self : Indexer} {env : Env} {it : Iteration} {fuel since now : Nat} {s : IndexerState}

/-! ### Programs that leave modifications alone -/

lemma trace_elapses (event : TraceEvent) : Moves Elapses (trace event) :=
  Moves.modify fun _ => ⟨rfl, rfl, Nat.le_refl _⟩

lemma popBlockHash_elapses (range : Nat → Bool) : Moves Elapses (popBlockHash env range) :=
  popBlockHash_moves Elapses.next (fun _ _ => ⟨rfl, rfl, Nat.le_refl _⟩) range

lemma keeps_of_elapses {α : Type} {x : IndexerM α} (h : Moves Elapses x) :
    Keeps (Sourced self env since now) x :=
  h.keeps fun _ _ helapses hs => hs.elapses helapses

lemma keepsNow_of_elapses {α : Type} {x : IndexerM α} (h : Moves Elapses x) :
    Keeps (SourcedNow self env) x :=
  h.keeps fun _ _ helapses hs => hs.elapses helapses

/-- A step that is taken comes after those that have been reached. -/
lemma step_sourced (e : IndexerError) :
    Triple (Sourced self env since now) (step env e)
      (fun t s => now ≤ t ∧ s.Sourced self env since (t + 1))
      (fun _ => Sourced self env since now) := by
  intro s hs
  have hnext : ({ s with steps := s.steps + 1 } : IndexerState).Sourced self env since now :=
    hs.elapses ⟨rfl, rfl, Nat.le_succ _⟩
  unfold step
  rw [exec_bind, exec_get]
  dsimp only
  rw [exec_bind, exec_set]
  cases env.fault s.steps with
  | true => exact hnext
  | false => exact ⟨hs.reached, hnext.pending, hnext.stored, Nat.le_refl _⟩

lemma request_sourced {α : Type} (ask : Node → α) (e : IndexerError) :
    Triple (Sourced self env since now) (request env ask e)
      (fun a s => ∃ t, now ≤ t ∧ a = ask (env.node t) ∧ s.Sourced self env since (t + 1))
      (fun _ => Sourced self env since now) :=
  Triple.bind (step_sourced e) fun t => Triple.pure fun _ hs => ⟨t, hs.1, rfl, hs.2⟩

lemma treeOperation_sourced {α : Type} {f : IndexerState → α × IndexerState} {P : α → Prop}
    (hf : ∀ s, s.Sourced self env since now → P (f s).1 ∧ (f s).2.Sourced self env since now) :
    Triple (Sourced self env since now) (treeOperation env f)
      (fun a s => P a ∧ s.Sourced self env since now) (fun _ => Sourced self env since now) :=
  Triple.bind (keeps_of_elapses (step_moves Elapses.next .sledError)) fun _ s hs => hf s hs

/-! ### Recording -/

/-- What is collected from logs is what they extract to. -/
lemma extracts_of_collect {services : Services} {logs : List RpcLog}
    {pending pending' : OrderedModifications} {R : Nat → PendingModification → Prop}
    (hpending : ∀ n i m, modificationAt pending n i = some m → R n m)
    (hlogs : ∀ n i m, self.Extracts services logs n i m → R n m)
    (h : self.collect services logs pending = .ok pending') (n i : Nat) (m : PendingModification)
    (hm : modificationAt pending' n i = some m) : R n m := by
  induction logs generalizing pending with
  | nil =>
    cases h
    exact hpending n i m hm
  | cons log logs ih =>
    obtain ⟨number, index, r, hnumber, hindex, hextract, h⟩ := collect_cons.mp h
    refine ih ?_ (fun n i m ⟨l, hl, h⟩ => hlogs n i m ⟨l, List.mem_cons_of_mem _ hl, h⟩) h
    intro n' i' m' hm'
    cases r with
    | none => exact hpending n' i' m' hm'
    | some inserted =>
      change modificationAt (insertModification pending number index inserted) n' i' = _ at hm'
      rw [modificationAt_insert] at hm'
      split_ifs at hm' with hat
      · cases hm'
        rw [hat.1]
        exact hlogs number index _ ⟨log, List.mem_cons_self .., hnumber, hindex, hextract⟩
      · exact hpending n' i' m' hm'

/-- Modifications that are written come from logs of a step that has been taken. -/
lemma writePendingModifications_sourced {t first last : Nat} {pending : OrderedModifications}
    (hcollect : self.collect env.services
      ((env.node t).getLogs ⟨self.stateOracle, first, last⟩) .empty = .ok pending)
    (ht : t < now) (hsince : since ≤ now) :
    Triple (Sourced self env since now) (writePendingModifications env pending)
      (fun _ => Sourced self env now now) (fun _ => Sourced self env since now) := by
  apply Triple.bind (keeps_of_elapses (step_moves Elapses.next _))
  intro _ s hs
  refine ⟨fun n ms hms m hm => ?_, hs.stored, hs.reached⟩
  rcases OrderedTree.get_applyBatch_or_mem _ _ hms with hms | hms
  · obtain ⟨t₀, ht₀, hreported⟩ := hs.pending n ms hms m hm
    exact ⟨t₀, Nat.lt_of_lt_of_le ht₀ hsince, hreported⟩
  · obtain ⟨⟨n', tree⟩, htree, heq⟩ := List.mem_map.mp hms
    cases heq
    obtain ⟨⟨i, m'⟩, hentry, rfl⟩ := List.mem_map.mp hm
    refine ⟨t, ht, extracts_of_collect (R := fun n m => self.Reported env t n m) ?_ ?_ hcollect
      n' i m' ?_⟩
    · intro n i m hempty
      cases hempty
    · exact fun n i m hextracts => ⟨first, last, i, hextracts⟩
    · unfold modificationAt
      rw [(OrderedTree.get_eq_some_iff _ _ _).mpr htree, Option.bind_some,
        (OrderedTree.get_eq_some_iff _ _ _).mpr hentry]

/-! ### Moving -/

lemma removePending_sourced (key : Nat) :
    Triple (Sourced self env since now) (removePending env key)
      (fun r s => (∀ ms, r = some ms → ∀ m ∈ ms, ∃ t < since, self.Reported env t key m) ∧
        s.Sourced self env since now)
      (fun _ => Sourced self env since now) := by
  apply treeOperation_sourced
  intro s hs
  refine ⟨hs.pending key, fun n ms hms => ?_, hs.stored, hs.reached⟩
  change (s.pendingModificationsTree.remove key).get n = some ms at hms
  rw [OrderedTree.get_remove] at hms
  split_ifs at hms
  exact hs.pending n ms hms

lemma popBlockHash_sourced (range : Nat → Bool) :
    Triple (Sourced self env since now) (popBlockHash env range)
      (fun r s => (∀ key, r = some key → range key = true) ∧ s.Sourced self env since now)
      (fun _ => Sourced self env since now) := by
  apply treeOperation_sourced (P := fun r => ∀ key, r = some key → range key = true)
  intro s hs
  cases hfirst : s.blockHashTree.firstInRange range with
  | none => exact ⟨fun key h => (nomatch h), hs⟩
  | some e =>
    refine ⟨fun key h => ?_, hs.elapses ⟨rfl, rfl, Nat.le_refl _⟩⟩
    cases h
    exact (OrderedTree.firstInRange_mem _ _ _ hfirst).1

lemma pruneToLoop_sourced {F : PendingModification → Prop} {upTo : Nat}
    (hF : ∀ n t m, n < upTo → t < since → self.Reported env t n m → F m) (fuel : Nat)
    {acc : List PendingModification} (hacc : ∀ m ∈ acc, F m) :
    Triple (Sourced self env since now) (pruneToLoop env upTo fuel acc)
      (fun ms s => (∀ m ∈ ms, F m) ∧ s.Sourced self env since now)
      (fun _ => Sourced self env since now) := by
  induction fuel generalizing acc with
  | zero => exact Triple.throw fun _ hs => hs
  | succ fuel ih =>
    apply Triple.bind (popBlockHash_sourced _)
    intro r
    apply Triple.of_fact
    intro hr
    cases r with
    | none => exact Triple.pure fun _ hs => ⟨hacc, hs⟩
    | some key =>
      have hkey : key < upTo := of_decide_eq_true (hr key rfl)
      apply Triple.bind (removePending_sourced key)
      intro removed
      apply Triple.of_fact
      intro hremoved
      cases removed with
      | none => exact ih hacc
      | some ms =>
        apply Triple.bind (keeps_of_elapses (step_moves Elapses.next _))
        intro _
        apply ih
        intro m hm
        rcases List.mem_append.mp hm with hm | hm
        · exact hacc m hm
        · obtain ⟨t, ht, hreported⟩ := hremoved ms rfl m hm
          exact hF key t m hkey ht hreported

lemma pruneFrom_sourced (start : Nat) :
    Keeps (Sourced self env since now) (pruneFrom env start) := by
  have hloop : ∀ fuel, Keeps (Sourced self env since now) (pruneFromLoop env start fuel) := by
    intro fuel
    induction fuel with
    | zero => exact Keeps.throw _
    | succ fuel ih =>
      apply Keeps.bind (keeps_of_elapses (popBlockHash_elapses _))
      intro r
      cases r with
      | none => exact Keeps.pure ()
      | some key =>
        apply Keeps.bind
        · exact (removePending_sourced key).consequence (fun _ h => h) (fun _ _ h => h.2)
            fun _ _ h => h
        · exact fun _ => ih
  exact Keeps.bind Keeps.get fun _ => hloop _

/-- A move up to an awaited block gives the store final modifications only. -/
lemma movePendingModificationsToStore_sourced {t upperBound : Nat} (hsince : since ≤ t)
    (hawaits : ∀ n, n ≤ upperBound → self.Awaits env t n) :
    Keeps (Sourced self env since (t + 1))
      (movePendingModificationsToStore env it fuel upperBound) := by
  unfold movePendingModificationsToStore
  apply Keeps.ite (Keeps.pure _)
  apply Triple.bind (checkedAdd_returns upperBound 1)
  intro upTo
  apply Triple.of_fact
  rintro rfl
  apply Triple.bind (R := fun ms s => (∀ m ∈ ms, self.Final env (t + 1) m) ∧
    s.Sourced self env since (t + 1))
  · apply Triple.bind Keeps.get
    intro s
    apply pruneToLoop_sourced
    · intro n t₀ m hn ht₀ hreported
      exact ⟨n, t₀, t, hreported, hawaits n (Nat.le_of_lt_succ hn), by omega, Nat.lt_succ_self t⟩
    · exact fun m hm => absurd hm List.not_mem_nil
  · intro ms
    apply Triple.of_fact
    intro hfinal
    apply Keeps.ite (Keeps.pure _)
    apply onStore_keeps
    intro s hs
    refine ⟨hs.pending, ?_, hs.reached⟩
    apply (AssertionStore.applyPendingModifications_keeps_allStemFrom it fuel _).final hs.stored
    exact fun m hm => (hfinal m hm).mono hs.reached

/-! ### One call of `sync` -/

lemma now_of_sourced {α : Type} {x : IndexerM α} {Q : α → IndexerState → Prop}
    {E : Failure IndexerError → IndexerState → Prop}
    (h : ∀ now, Triple (Sourced self env now now) x Q E) : Triple (SourcedNow self env) x Q E :=
  fun s hs => h s.steps s hs

lemma markRange_sourced (first last : Nat) :
    Keeps (SourcedNow self env) (self.markRange env first last) := by
  unfold markRange
  apply Keeps.bind (keepsNow_of_elapses (trace_elapses _))
  intro _
  apply now_of_sourced
  intro now
  have hpresent : ∀ (_ : Failure IndexerError) (s : IndexerState), s.Sourced self env now now →
      s.SourcedNow self env := fun _ s hs => hs.present (Nat.le_refl now)
  apply Triple.bind ((request_sourced _ _).mono_error hpresent)
  rintro logs s ⟨t, ht, rfl, hs⟩
  have hle : now ≤ t + 1 := Nat.le_succ_of_le ht
  have hpresent' : ∀ (_ : Failure IndexerError) (s : IndexerState),
      s.Sourced self env now (t + 1) → s.SourcedNow self env := fun _ s hs => hs.present hle
  refine Triple.bind (R := fun pending s => self.collect env.services
    ((env.node t).getLogs ⟨self.stateOracle, first, last⟩) .empty = .ok pending ∧
      s.Sourced self env now (t + 1)) ?_ (fun pending => ?_) s hs
  · intro s hs
    refine (((processLogs_spec (c := s.contents) _ _).and (keeps_of_elapses
      (processLogs_moves Elapses.next _ _))).consequence (fun _ h => h) (fun _ _ h => ⟨h.1.1, h.2⟩)
        fun e s' h => hpresent' e s' h.2) s ⟨rfl, hs⟩
  · apply Triple.of_fact
    intro hcollect
    apply Triple.bind ((writePendingModifications_sourced hcollect (Nat.lt_succ_self t)
      hle).mono_error hpresent')
    intro _
    apply Triple.consequence (P := SourcedNow self env) (Q := fun _ => SourcedNow self env)
      (E := fun _ => SourcedNow self env) ?_ (fun s hs => hs.present (Nat.le_refl _))
      (fun _ _ h => h) fun _ _ h => h
    apply Keeps.bind (keepsNow_of_elapses (fetchBlockHashes_moves Elapses.next _))
    intro blockHashes
    cases blockHashes.getLast? with
    | none => exact Keeps.pure _
    | some lastIndexed =>
      apply Keeps.bind (keepsNow_of_elapses
        (treeOperation_moves Elapses.next fun _ => ⟨rfl, rfl, le_refl _⟩))
      exact fun _ => Keeps.pure _

lemma finishRange_sourced (blockHashes : List BlockNumHash) :
    Keeps (SourcedNow self env) (self.finishRange env it fuel blockHashes) := by
  unfold finishRange
  apply Keeps.bind (keepsNow_of_elapses
    (treeOperation_moves Elapses.next fun _ => ⟨rfl, rfl, le_refl _⟩))
  intro _
  apply now_of_sourced
  intro now
  apply Triple.bind ((request_sourced _ _).mono_error
    fun _ _ hs => hs.present (Nat.le_refl now))
  rintro block s ⟨t, ht, rfl, hs⟩
  have hle : now ≤ t + 1 := Nat.le_succ_of_le ht
  cases hblock : (env.node t).getBlockByTag self.awaitTag with
  | none => exact hs.present hle
  | some header =>
    refine Triple.consequence (P := Sourced self env now (t + 1)) ?_ (fun _ h => h)
      (fun _ s hs => Sourced.present hs hle) (fun _ s hs => Sourced.present hs hle) s hs
    rw [okOr, pure_bind]
    apply Keeps.bind (movePendingModificationsToStore_sourced ht
      fun n hn => ⟨header, hblock, hn⟩)
    exact fun _ => keeps_of_elapses (trace_elapses _)

lemma syncStart_sourced (updateBlock : UpdateBlock) :
    Keeps (SourcedNow self env) (syncStart env fuel updateBlock) := by
  unfold syncStart
  apply Keeps.bind (keepsNow_of_elapses
    (treeOperation_moves Elapses.next fun _ => refl_of Elapses _))
  intro lastIndexed
  cases lastIndexed with
  | none => exact Keeps.pure _
  | some lastIndexed =>
    apply Keeps.bind (keepsNow_of_elapses (checkIfReorged_moves Elapses.next _ _))
    intro reorged
    apply Keeps.ite
    · apply Keeps.bind (keepsNow_of_elapses (findCommonAncestor_moves Elapses.next _))
      intro commonAncestor
      apply Keeps.bind (keepsNow_of_elapses (checkedAdd_moves _ _))
      intro start
      apply Keeps.bind (now_of_sourced fun now => (pruneFrom_sourced start).consequence
        (fun _ h => h) (fun _ _ hs => hs.present (le_refl now)) fun _ _ hs =>
          hs.present (le_refl now))
      intro _
      apply Keeps.bind (keepsNow_of_elapses
        (treeOperation_moves Elapses.next fun _ => ⟨rfl, rfl, le_refl _⟩))
      exact fun _ => Keeps.pure _
    · exact keepsNow_of_elapses (checkedAdd_moves _ _)

/-- Whatever a call of `sync` fails on, everything stays sourced. -/
theorem sync_sourced (updateBlock : UpdateBlock) (m : Nat) :
    Keeps (SourcedNow self env) (self.sync env it fuel updateBlock m) := by
  unfold sync
  apply Keeps.bind (syncStart_sourced updateBlock)
  intro start
  apply (syncLoop_induct (I := fun _ => SourcedNow self env) ?_ (fun _ _ _ h => h) _
    start).consequence (fun _ h => h) (fun _ s ⟨_, hs⟩ => hs) fun _ _ h => h
  intro first last _ _
  rw [indexRange_eq]
  apply Keeps.bind (markRange_sourced first last)
  exact fun blockHashes => finishRange_sourced blockHashes

end Indexer

/-! ### Runs of the service -/

namespace IndexerService

variable {self : Indexer} {env : Env} {it : Nat → Iteration} {fuel : Nat}

/-- What a service goes through, from a new indexer on empty trees on. Every operation may fail,
at any step, and the trees are used again afterwards. -/
inductive Reachable (indexer : Indexer) (env : Env) (it : Nat → Iteration) (fuel : Nat) :
    IndexerService → Prop
  | new : Reachable indexer env it fuel (new ⟨.empty, none, .empty, .newEphemeral, 0, []⟩)
  | restart {s : IndexerService} (h : Reachable indexer env it fuel s) :
      Reachable indexer env it fuel (new s.trees)
  | syncToHead {s : IndexerService} (h : Reachable indexer env it fuel s) :
      Reachable indexer env it fuel (exec (syncToHead indexer env it fuel) s).2
  | handleLatestBlock {s : IndexerService} (h : Reachable indexer env it fuel s)
      (header : Header) :
      Reachable indexer env it fuel (exec (handleLatestBlock indexer env it fuel header) s).2
  | run {s : IndexerService} (h : Reachable indexer env it fuel s) (stream : List StreamItem) :
      Reachable indexer env it fuel (exec (run indexer env it fuel stream) s).2

lemma onTrees_keeps {α : Type} {x : IndexerM α} {I : IndexerState → Prop} (hx : Keeps I x) :
    Keeps (fun s => I s.trees) (onTrees x) := by
  intro s hs
  have htrees := hx.final hs
  unfold onTrees
  rw [exec_bind, exec_get]
  dsimp only
  rcases hrun : exec x s.trees with ⟨e | a, trees⟩
  · rw [hrun] at htrees
    cases e <;> exact htrees
  · rw [hrun] at htrees
    exact htrees

section

variable {I : IndexerState → Prop}
  (hI : ∀ it header m, Keeps I (self.sync env it fuel header m))
  (hstep : ∀ e, Keeps I (Indexer.step env e))

include hI

lemma syncTo_keeps (header : Header) :
    Keeps (fun s => I s.trees) (syncTo self env it fuel header) :=
  Keeps.bind Keeps.get fun _ => onTrees_keeps (hI _ _ _)

lemma runLoop_keeps (stream : List StreamItem) :
    Keeps (fun s => I s.trees) (runLoop self env it fuel stream) := by
  induction stream with
  | nil => exact Keeps.pure ()
  | cons item stream ih =>
    cases item with
    | recvError => exact Keeps.throw _
    | block header => exact Keeps.bind (syncTo_keeps hI header) fun _ => ih

include hstep

lemma syncToHead_keeps : Keeps (fun s => I s.trees) (syncToHead self env it fuel) := by
  apply Keeps.bind
  · exact onTrees_keeps (Keeps.bind (hstep _) fun _ => Keeps.pure _)
  · intro block
    cases block with
    | none => exact Keeps.pure ()
    | some header => exact Keeps.bind (syncTo_keeps hI header) fun _ => Triple.modify fun _ hs => hs

lemma run_keeps (stream : List StreamItem) :
    Keeps (fun s => I s.trees) (run self env it fuel stream) := by
  have hrest : Keeps (fun s => I s.trees) (do
      let _ ← onTrees (Indexer.step env .transportError)
      runLoop self env it fuel stream) :=
    Keeps.bind (onTrees_keeps (hstep _)) fun _ => runLoop_keeps hI stream
  apply Keeps.bind Keeps.get
  intro s
  exact Keeps.ite (Keeps.bind (Keeps.throw _) fun _ => hrest) hrest

/-- What holds of new trees and is kept by steps and by calls of `sync` holds in every run. -/
theorem reachable_induct (hnew : I ⟨.empty, none, .empty, .newEphemeral, 0, []⟩)
    {s : IndexerService} (h : Reachable self env it fuel s) : I s.trees := by
  induction h with
  | new => exact hnew
  | restart h ih => exact ih
  | syncToHead h ih => exact (syncToHead_keeps hI hstep).final ih
  | handleLatestBlock h header ih => exact (syncTo_keeps hI header).final ih
  | run h stream ih => exact (run_keeps hI hstep stream).final ih

end

/-- In every run, whatever fails and however often the service is restarted: the contract, the
activation and the deactivation of each record of the store were reported in logs of a block
at or below one that the node had under the await tag later on. -/
theorem stored_stem_from_final {s : IndexerService} (h : Reachable self env it fuel s) :
    AssertionStore.AllStemFrom (self.Final env s.trees.steps) s.trees.store.db := by
  have hsourced : s.trees.SourcedNow self env := by
    apply reachable_induct (fun _ _ _ => Indexer.sync_sourced _ _)
      (fun e => Indexer.keepsNow_of_elapses (Indexer.step_moves IndexerState.Elapses.next e)) ?_ h
    refine ⟨?_, AssertionStore.allStemFrom_empty, Nat.le_refl _⟩
    intro n ms hms
    cases hms
  exact hsourced.stored

open Sample

/-- Services that know one assertion, and the chain with the block that adds it. -/
def additionServices : Services where
  assertionAdded := ⟨1, fun _ data => if data = removedData then some ⟨7, 8, 5⟩ else none⟩
  assertionRemoved := ⟨2, fun _ _ => none⟩
  fetchAssertion _ := some ⟨[], []⟩
  extractAssertionContract _ _ :=
    some (⟨9, [], 0, ∅, {}⟩, TriggerRecorder.default.addTrigger .allCalls 3)

def additionBlock : Block := ⟨⟨1, 11, 10⟩, [⟨1, [1], removedData, 0⟩], by simp⟩

def additionBlockOf (hash : B256) : Option Block :=
  [genesis, additionBlock].find? fun b => b.header.hash = hash

lemma genesis_number : genesis.header.number = 0 := rfl

def additionChain : Chain additionBlockOf :=
  (Chain.ofGenesis genesis rfl genesis_number rfl).extend additionBlock rfl rfl rfl (by decide)

def additionEnv : Env :=
  ⟨fun _ => additionChain.node 1, fun _ => false, fun _ => false, additionServices⟩

/-- The service after it has synced to the block that adds the assertion. -/
def additionService : IndexerService :=
  (newSynced indexer additionEnv (fun _ => .buckets) 5
    ⟨.empty, none, .empty, .newEphemeral, 0, []⟩).2

theorem stored_stem_from_final_added :
    (AssertionStore.assertions additionService.trees.store.db 7).map (·.activeAtBlock) = [5] ∧
      AssertionStore.AllStemFrom (indexer.Final additionEnv additionService.trees.steps)
        additionService.trees.store.db :=
  ⟨by decide +kernel, @stored_stem_from_final indexer additionEnv (fun _ => .buckets) 5 _
    (.syncToHead .new)⟩

end IndexerService

end AssertionExecution
