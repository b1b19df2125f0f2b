import AssertionExecution.Model.Chain
import AssertionExecution.Proofs.IndexerTrees

/-!
# From the logs of a range to its modifications

The order in which a node lists the logs does not matter: the modifications of each block
come out in log order.
-/

namespace AssertionExecution

open EffectLogic

namespace Indexer

variable {self : Indexer} {env : Env} {c : Contents}

/-! ### What extraction returns -/

/-- The check that an effective block fits into 64 bits, and what follows it. -/
lemma checkBlockNumber_spec {m : PendingModification} {n : Nat} {P : IndexerState → Prop}
    {E : Failure IndexerError → IndexerState → Prop}
    (hE : ∀ s, u64Max < n → E (.error .blockNumberExceedsU64) s) :
    Triple P (do
      if u64Max < n then throw (Failure.error IndexerError.blockNumberExceedsU64)
      return some m : IndexerM (Option PendingModification))
      (fun r s => n ≤ u64Max ∧ r = some m ∧ P s) E := by
  by_cases h : u64Max < n
  · rw [if_pos h]
    exact fun s _ => hE s h
  · rw [if_neg h]
    exact fun s hs => ⟨Nat.le_of_not_lt h, rfl, hs⟩

lemma extractPendingModifications_spec (topics : List B256) (data : Bytes) (logIndex : Nat) :
    Triple (fun s => s.contents = c) (self.extractPendingModifications env topics data logIndex)
      (fun r s => self.extract env.services topics data logIndex = .ok r ∧ s.contents = c)
      (fun _ _ => env.Disturbed ∨
        ∃ e, self.extract env.services topics data logIndex = .error e) := by
  unfold extractPendingModifications extract
  refine Triple.ite (fun hadded => ?_) fun hadded =>
    Triple.ite (fun hremoved => ?_) fun hremoved => ?_
  · rw [if_pos hadded]
    cases hdecode : env.services.assertionAdded.decode topics data with
    | none => exact Triple.throw fun _ _ => Or.inr ⟨_, rfl⟩
    | some event =>
      rw [okOr, pure_bind]
      refine Triple.bind ((step_spec .daClientError).consequence (fun _ h => h) (fun _ _ h => h)
        fun _ _ h => Or.inl h) fun _ => ?_
      dsimp only
      cases hfetch : env.services.fetchAssertion event.assertionId with
      | none => exact Triple.throw fun _ _ => Or.inr ⟨_, rfl⟩
      | some response =>
        rw [okOr, pure_bind]
        dsimp only
        cases hextract : env.services.extractAssertionContract
            (response.bytecode ++ response.encodedConstructorArgs) self.executorConfig with
        | none => exact Triple.pure fun _ hs => ⟨rfl, hs⟩
        | some r =>
          refine (checkBlockNumber_spec fun _ h => Or.inr ⟨_, if_pos h⟩).consequence (fun _ h => h)
            ?_ fun _ _ h => h
          rintro _ s ⟨h, rfl, hs⟩
          exact ⟨if_neg (Nat.not_lt.mpr h), hs⟩
  · rw [if_neg hadded, if_pos hremoved]
    cases hdecode : env.services.assertionRemoved.decode topics data with
    | none => exact Triple.throw fun _ _ => Or.inr ⟨_, rfl⟩
    | some event =>
      rw [okOr, pure_bind]
      refine (checkBlockNumber_spec fun _ h => Or.inr ⟨_, if_pos h⟩).consequence (fun _ h => h)
        ?_ fun _ _ h => h
      rintro _ s ⟨h, rfl, hs⟩
      exact ⟨if_neg (Nat.not_lt.mpr h), hs⟩
  · rw [if_neg hadded, if_neg hremoved]
    exact Triple.pure fun _ hs => ⟨rfl, hs⟩

/-- The modifications of logs, inserted in the order of the logs. -/
def collect (self : Indexer) (services : Services) :
    List RpcLog → OrderedModifications → Except IndexerError OrderedModifications
  | [], pending => .ok pending
  | log :: logs, pending =>
    match log.logIndex with
    | none => .error .logIndexMissing
    | some logIndex =>
      match log.blockNumber with
      | none => .error .blockNumberMissing
      | some blockNumber =>
        match self.extract services log.topics log.data logIndex with
        | .error e => .error e
        | .ok none => collect self services logs pending
        | .ok (some m) =>
          collect self services logs (insertModification pending blockNumber logIndex m)

lemma processLogs_spec (logs : List RpcLog) (pending : OrderedModifications) :
    Triple (fun s => s.contents = c) (self.processLogs env logs pending)
      (fun r s => self.collect env.services logs pending = .ok r ∧ s.contents = c)
      (fun _ _ => env.Disturbed ∨ ∃ e, self.collect env.services logs pending = .error e) := by
  induction logs generalizing pending with
  | nil => exact Triple.pure fun _ hs => ⟨rfl, hs⟩
  | cons log logs ih =>
    unfold processLogs collect
    cases hindex : log.logIndex with
    | none => exact Triple.throw fun _ _ => Or.inr ⟨_, rfl⟩
    | some logIndex =>
      cases hnumber : log.blockNumber with
      | none => exact Triple.throw fun _ _ => Or.inr ⟨_, rfl⟩
      | some blockNumber =>
        dsimp only
        refine Triple.bind (R := fun r s =>
          self.extract env.services log.topics log.data logIndex = .ok r ∧ s.contents = c) ?_ ?_
        · refine (extractPendingModifications_spec _ _ _).consequence (fun _ h => h)
            (fun _ _ h => h) ?_
          rintro e s (h | ⟨e', he'⟩)
          · exact Or.inl h
          · exact Or.inr ⟨e', by rw [he']⟩
        · rintro (_ | m) s ⟨hextract, hs⟩
          · rw [hextract]
            exact ih pending s hs
          · rw [hextract]
            exact ih _ s hs

/-! ### What the collected modifications are -/

def modificationAt (pending : OrderedModifications) (blockNumber logIndex : Nat) :
    Option PendingModification :=
  (pending.get blockNumber).bind (·.get logIndex)

lemma modificationAt_insert (pending : OrderedModifications) (n i n' i' : Nat)
    (m : PendingModification) :
    modificationAt (insertModification pending n i m) n' i' =
      if n' = n ∧ i' = i then some m else modificationAt pending n' i' := by
  unfold modificationAt insertModification
  rw [OrderedTree.get_insert]
  by_cases hn : n' = n
  · subst hn
    rw [if_pos rfl, Option.bind_some, OrderedTree.get_insert]
    cases hget : pending.get n' <;> simp
  · rw [if_neg hn, if_neg (fun h => hn h.1)]

def NoEmptyBlocks (pending : OrderedModifications) : Prop :=
  ∀ n t, pending.get n = some t → t.entries ≠ []

lemma NoEmptyBlocks.insertModification {pending : OrderedModifications} (h : NoEmptyBlocks pending)
    (n i : Nat) (m : PendingModification) : NoEmptyBlocks (insertModification pending n i m) := by
  intro n' t ht
  rw [Indexer.insertModification, OrderedTree.get_insert] at ht
  by_cases hn : n' = n
  · rw [if_pos hn] at ht
    cases ht
    simp [OrderedTree.insert]
  · rw [if_neg hn] at ht
    exact h n' t ht

/-- One of the logs, at the given block number and log index, extracts to the modification. -/
def Extracts (self : Indexer) (services : Services) (logs : List RpcLog) (n i : Nat)
    (m : PendingModification) : Prop :=
  ∃ log ∈ logs, log.blockNumber = some n ∧ log.logIndex = some i ∧
    self.extract services log.topics log.data i = .ok (some m)

variable {services : Services} {logs : List RpcLog} {pending pending' : OrderedModifications}

lemma extracts_cons {log : RpcLog} {number index : Nat} (hnumber : log.blockNumber = some number)
    (hindex : log.logIndex = some index) (n i : Nat) (m : PendingModification) :
    self.Extracts services (log :: logs) n i m ↔
      (number = n ∧ index = i ∧ self.extract services log.topics log.data i = .ok (some m)) ∨
        self.Extracts services logs n i m := by
  simp [Extracts, hindex, hnumber]

lemma collect_cons {log : RpcLog} :
    self.collect services (log :: logs) pending = .ok pending' ↔
      ∃ number index r, log.blockNumber = some number ∧ log.logIndex = some index ∧
        self.extract services log.topics log.data index = .ok r ∧
        self.collect services logs (r.elim pending (insertModification pending number index)) =
          .ok pending' := by
  rw [collect]
  cases hindex : log.logIndex with
  | none => simp
  | some index =>
    cases hnumber : log.blockNumber with
    | none => simp
    | some number =>
      cases hextract : self.extract services log.topics log.data index with
      | error e => simp [hextract]
      | ok r => cases r <;> simp [hextract]

/-- Where no two modifications share a block number and a log index, each is collected. -/
lemma modificationAt_collect {R : Nat → Nat → PendingModification → Prop}
    (hunique : ∀ n i m m', R n i m → R n i m' → m = m')
    (hlogs : ∀ n i m, self.Extracts services logs n i m → R n i m)
    (hpending : ∀ n i m, modificationAt pending n i = some m → R n i m)
    (h : self.collect services logs pending = .ok pending') (n i : Nat) (m : PendingModification) :
    modificationAt pending' n i = some m ↔
      modificationAt pending n i = some m ∨ self.Extracts services logs n i m := by
  induction logs generalizing pending with
  | nil =>
    cases h
    simp [Extracts]
  | cons log logs ih =>
    have hrest : ∀ n i m, self.Extracts services logs n i m → R n i m := fun n i m ⟨l, hl, h⟩ =>
      hlogs n i m ⟨l, List.mem_cons_of_mem _ hl, h⟩
    obtain ⟨number, index, r, hnumber, hindex, hextract, h⟩ := collect_cons.mp h
    rw [extracts_cons hnumber hindex]
    cases r with
    | none =>
      rw [ih hrest hpending h]
      have hnone : ¬(number = n ∧ index = i ∧
          self.extract services log.topics log.data i = .ok (some m)) := by
        rintro ⟨-, rfl, hsome⟩
        simp [hextract] at hsome
      rw [or_iff_right hnone]
    | some m' =>
      have hhead : R number index m' :=
        hlogs _ _ _ ⟨log, List.mem_cons_self .., hnumber, hindex, hextract⟩
      have hinsert : ∀ n i m, modificationAt (insertModification pending number index m') n i =
          some m → R n i m := by
        intro n i m hat
        rw [modificationAt_insert] at hat
        by_cases hat' : n = number ∧ i = index
        · rw [if_pos hat'] at hat
          cases hat
          rw [hat'.1, hat'.2]
          exact hhead
        · rw [if_neg hat'] at hat
          exact hpending _ _ _ hat
      rw [ih hrest hinsert h, modificationAt_insert]
      by_cases hat : n = number ∧ i = index
      · -- The entry that the insertion replaces is the same modification.
        obtain ⟨rfl, rfl⟩ := hat
        have hsame : modificationAt pending n i = some m → m' = m :=
          fun hm => hunique _ _ _ _ hhead (hpending _ _ _ hm)
        simp only [hextract, true_and, Except.ok.injEq, Option.some.injEq, and_self, if_true]
        rw [← or_assoc, or_iff_right_of_imp hsame]
      · rw [if_neg hat]
        have hother : ¬(number = n ∧ index = i ∧
            self.extract services log.topics log.data i = .ok (some m)) :=
          fun h => hat ⟨h.1.symm, h.2.1.symm⟩
        rw [or_iff_right hother]

lemma noEmptyBlocks_collect (hpending : NoEmptyBlocks pending)
    (h : self.collect services logs pending = .ok pending') : NoEmptyBlocks pending' := by
  induction logs generalizing pending with
  | nil =>
    cases h
    exact hpending
  | cons log logs ih =>
    obtain ⟨number, index, r, -, -, -, h⟩ := collect_cons.mp h
    cases r with
    | none => exact ih hpending h
    | some m => exact ih (hpending.insertModification number index m) h

/-- The collection fails on the first log it cannot extract. -/
lemma collect_ok_iff :
    (∃ pending', self.collect services logs pending = .ok pending') ↔
      ∀ log ∈ logs, ∃ n i m, log.blockNumber = some n ∧ log.logIndex = some i ∧
        self.extract services log.topics log.data i = .ok m := by
  induction logs generalizing pending with
  | nil => simp [collect]
  | cons log logs ih =>
    rw [List.forall_mem_cons]
    constructor
    · rintro ⟨pending', h⟩
      obtain ⟨n, i, m, hnumber, hindex, hextract, h⟩ := collect_cons.mp h
      exact ⟨⟨n, i, m, hnumber, hindex, hextract⟩, ih.mp ⟨pending', h⟩⟩
    · rintro ⟨⟨n, i, m, hnumber, hindex, hextract⟩, hrest⟩
      obtain ⟨pending', h⟩ := ih.mpr hrest
      exact ⟨pending', collect_cons.mpr ⟨n, i, m, hnumber, hindex, hextract, h⟩⟩

/-! ### The logs of a chain -/

variable {blockOf : B256 → Option Block} {chain : Chain blockOf}

lemma mem_logs {filter : Filter} {log : RpcLog} :
    log ∈ chain.logs filter ↔ ∃ n b, chain.blocks[n]? = some b ∧ filter.fromBlock ≤ n ∧
      n ≤ filter.toBlock ∧ ∃ l ∈ b.logs, l.address = filter.address ∧
        log = ⟨l.address, l.topics, l.data, some l.logIndex, some n⟩ := by
  simp only [Chain.logs, Block.rpcLogs, List.mem_filter, List.mem_flatMap, List.mem_map,
    decide_eq_true_eq]
  constructor
  · rintro ⟨⟨b, ⟨hb, hfrom, hto⟩, l, hl, rfl⟩, haddress⟩
    obtain ⟨n, hn⟩ := List.mem_iff_getElem?.mp hb
    have hnumber := chain.numbered n b hn
    rw [hnumber] at hfrom hto ⊢
    exact ⟨n, b, hn, hfrom, hto, l, hl, haddress, rfl⟩
  · rintro ⟨n, b, hn, hfrom, hto, l, hl, haddress, rfl⟩
    have hnumber := chain.numbered n b hn
    refine ⟨⟨b, ⟨List.mem_iff_getElem?.mpr ⟨n, hn⟩, ?_⟩, l, hl, ?_⟩, haddress⟩
    · rw [hnumber]
      exact ⟨hfrom, hto⟩
    · rw [hnumber]

lemma mem_blockEntries {b : Block} {i : Nat} {m : PendingModification} :
    (i, m) ∈ self.blockEntries services b ↔ ∃ l ∈ b.logs, l.address = self.stateOracle ∧
      l.logIndex = i ∧ self.extract services l.topics l.data i = .ok (some m) := by
  unfold blockEntries modificationOf
  simp only [List.mem_filterMap, List.mem_filter, decide_eq_true_eq, Option.map_eq_some_iff,
    Prod.mk.injEq]
  constructor
  · rintro ⟨l, ⟨hl, haddress⟩, m', hm', rfl, rfl⟩
    refine ⟨l, hl, haddress, rfl, ?_⟩
    split at hm'
    · next hextract => rw [hextract, hm']
    · cases hm'
  · rintro ⟨l, hl, haddress, rfl, hextract⟩
    exact ⟨l, ⟨hl, haddress⟩, m, by rw [hextract], rfl, rfl⟩

lemma blockEntries_sorted (b : Block) :
    (self.blockEntries services b).Pairwise (fun a a' => a.1 < a'.1) := by
  have hsorted : (b.logs.filter fun l => l.address = self.stateOracle).Pairwise
      (fun l l' => l.logIndex < l'.logIndex) :=
    (List.pairwise_map.mp b.logs_sorted).filter _
  refine hsorted.filterMap _ ?_
  intro l l' hlt a ha a' ha'
  obtain ⟨m, -, rfl⟩ := Option.map_eq_some_iff.mp ha
  obtain ⟨m', -, rfl⟩ := Option.map_eq_some_iff.mp ha'
  exact hlt

def blockTree (self : Indexer) (services : Services) (b : Block) :
    OrderedTree Nat PendingModification :=
  ⟨self.blockEntries services b, blockEntries_sorted b⟩

/-- The logs are those a chain has in a range of blocks, in any order. -/
def LogsOf (self : Indexer) (chain : Chain blockOf) (first last : Nat) (logs : List RpcLog) :
    Prop :=
  ∀ log, log ∈ logs ↔ log ∈ chain.logs ⟨self.stateOracle, first, last⟩

variable {first last : Nat}

lemma extracts_iff (hlogs : self.LogsOf chain first last logs) {n i : Nat}
    {m : PendingModification} :
    self.Extracts services logs n i m ↔ first ≤ n ∧ n ≤ last ∧
      ∃ b, chain.blocks[n]? = some b ∧ (self.blockTree services b).get i = some m := by
  have hmem : ∀ b, (self.blockTree services b).get i = some m ↔
      (i, m) ∈ self.blockEntries services b := fun b => OrderedTree.get_eq_some_iff _ i m
  simp only [hmem, mem_blockEntries]
  constructor
  · rintro ⟨log, hlog, hnumber, hindex, hextract⟩
    obtain ⟨n', b, hn', hfrom, hto, l, hl, haddress, rfl⟩ := mem_logs.mp ((hlogs log).mp hlog)
    cases hnumber
    cases hindex
    exact ⟨hfrom, hto, b, hn', l, hl, haddress, rfl, hextract⟩
  · rintro ⟨hfrom, hto, b, hn, l, hl, haddress, rfl, hextract⟩
    exact ⟨_, (hlogs _).mpr (mem_logs.mpr ⟨n, b, hn, hfrom, hto, l, hl, haddress, rfl⟩), rfl, rfl,
      hextract⟩

section Collected

variable (hlogs : self.LogsOf chain first last logs)
  (h : self.collect services logs .empty = .ok pending')

include hlogs h

lemma modificationAt_collected (n i : Nat) (m : PendingModification) :
    modificationAt pending' n i = some m ↔ first ≤ n ∧ n ≤ last ∧
      ∃ b, chain.blocks[n]? = some b ∧ (self.blockTree services b).get i = some m := by
  have hunique : ∀ n i m m', self.Extracts services logs n i m →
      self.Extracts services logs n i m' → m = m' := by
    intro n i m m' hm hm'
    obtain ⟨-, -, b, hb, hm⟩ := (extracts_iff hlogs).mp hm
    obtain ⟨-, -, b', hb', hm'⟩ := (extracts_iff hlogs).mp hm'
    rw [hb] at hb'
    cases hb'
    exact Option.some.inj (hm.symm.trans hm')
  rw [modificationAt_collect hunique (fun _ _ _ h => h) (by simp [modificationAt]) h,
    ← extracts_iff hlogs]
  simp [modificationAt]

lemma block_of_collected {n : Nat} {t : OrderedTree Nat PendingModification}
    (ht : pending'.get n = some t) : first ≤ n ∧ n ≤ last ∧
      ∃ b, chain.blocks[n]? = some b ∧ t = self.blockTree services b := by
  have hat := modificationAt_collected hlogs h n
  have hne : t.entries ≠ [] := noEmptyBlocks_collect (fun n t ht => by simp at ht) h n t ht
  obtain ⟨⟨i, m⟩, hmem⟩ := List.exists_mem_of_ne_nil _ hne
  have hm : modificationAt pending' n i = some m := by
    rw [modificationAt, ht]
    exact (t.get_eq_some_iff i m).mpr hmem
  obtain ⟨hfrom, hto, b, hb, -⟩ := (hat i m).mp hm
  refine ⟨hfrom, hto, b, hb, OrderedTree.ext_get fun j => Option.ext fun m' => ?_⟩
  have hj := hat j m'
  rw [modificationAt, ht, Option.bind_some] at hj
  rw [hj, hb]
  simp [hfrom, hto]

/-- The logs of a range amount to the pending entries of its blocks. -/
theorem values_collect (n : Nat) :
    (pending'.get n).map OrderedTree.values =
      if first ≤ n ∧ n ≤ last then chain.pendingEntry self services n else none := by
  cases hget : pending'.get n with
  | some t =>
    obtain ⟨hfrom, hto, b, hb, rfl⟩ := block_of_collected hlogs h hget
    have hne : self.blockModifications services b ≠ [] := by
      have hentries := noEmptyBlocks_collect (fun n t ht => by simp at ht) h n _ hget
      change (self.blockTree services b).entries.map Prod.snd ≠ []
      simpa using hentries
    have hmods : chain.modifications self services n = self.blockModifications services b := by
      rw [Chain.modifications, hb, Option.map_some, Option.getD_some]
    rw [if_pos ⟨hfrom, hto⟩, Chain.pendingEntry, hmods, if_neg hne]
    rfl
  | none =>
    by_cases hrange : first ≤ n ∧ n ≤ last
    · have hmods : chain.modifications self services n = [] := by
        unfold Chain.modifications
        cases hb : chain.blocks[n]? with
        | none => rfl
        | some b =>
          change (self.blockTree services b).values = []
          have hnil : self.blockTree services b = .empty := by
            refine OrderedTree.ext_get fun i => Option.ext fun m => ?_
            have hat := modificationAt_collected hlogs h n i m
            rw [modificationAt, hget, hb] at hat
            simpa [hrange] using hat.symm
          rw [hnil]
          rfl
      rw [if_pos hrange, Chain.pendingEntry, if_pos hmods, Option.map_none]
    · rw [if_neg hrange, Option.map_none]

end Collected

theorem collect_ok_iff_extractable (hlogs : self.LogsOf chain first last logs) :
    (∃ pending', self.collect services logs pending = .ok pending') ↔
      ∀ n b, chain.blocks[n]? = some b → first ≤ n → n ≤ last → self.Extractable services b := by
  rw [collect_ok_iff]
  constructor
  · intro h n b hb hfrom hto l hl haddress
    obtain ⟨_, i, m, -, hindex, hextract⟩ := h _ ((hlogs _).mpr
      (mem_logs.mpr ⟨n, b, hb, hfrom, hto, l, hl, haddress, rfl⟩))
    cases hindex
    exact ⟨m, hextract⟩
  · intro h log hlog
    obtain ⟨n, b, hb, hfrom, hto, l, hl, haddress, rfl⟩ := mem_logs.mp ((hlogs log).mp hlog)
    obtain ⟨m, hextract⟩ := h n b hb hfrom hto l hl haddress
    exact ⟨n, l.logIndex, m, rfl, rfl, hextract⟩

end Indexer

end AssertionExecution
