import AssertionExecution.Proofs.ReorgDetection

/-!
# Walking down the parents of a block

`find_common_ancestor` and `check_if_reorged` follow parent hashes on a provider that holds a
tree of blocks down to genesis. The one stops at the first number without an entry, the
other only at the number of the last indexed block.
-/

namespace AssertionExecution

open EffectLogic

/-- The blocks a provider knows by hash: with each of them its parent, down to number 0. -/
structure HeaderTree (getBlock : B256 → Option Header) : Prop where
  hash : ∀ hash x, getBlock hash = some x → x.hash = hash
  parent : ∀ hash x, getBlock hash = some x → x.number ≠ 0 →
    ∃ p, getBlock x.parentHash = some p ∧ x.number = p.number + 1
  genesis : ∀ hash x, getBlock hash = some x → x.number = 0 → getBlock x.parentHash = none

/-- The block with a hash, and those below it. -/
inductive Reaches (getBlock : B256 → Option Header) : B256 → Header → Prop
  | here {hash : B256} {x : Header} (h : getBlock hash = some x) : Reaches getBlock hash x
  | parent {hash : B256} {x y : Header} (h : getBlock hash = some x)
      (hy : Reaches getBlock x.parentHash y) : Reaches getBlock hash y

section Walks

variable {getBlock : B256 → Option Header} {hash : B256} {x y : Header}

lemma reaches_iff (h : getBlock hash = some x) :
    Reaches getBlock hash y ↔ y = x ∨ Reaches getBlock x.parentHash y := by
  constructor
  · intro hy
    cases hy with
    | here h' =>
      rw [h] at h'
      exact Or.inl (Option.some_inj.mp h').symm
    | parent h' hy =>
      rw [h] at h'
      cases h'
      exact Or.inr hy
  · rintro (rfl | hy)
    · exact .here h
    · exact .parent h hy

lemma not_reaches_of_none (h : getBlock hash = none) : ¬Reaches getBlock hash y := by
  intro hy
  cases hy with
  | here h' => exact Option.some_ne_none _ (h'.symm.trans h)
  | parent h' => exact Option.some_ne_none _ (h'.symm.trans h)

namespace HeaderTree

lemma number_lt (htree : HeaderTree getBlock) (h : getBlock hash = some x)
    (hy : Reaches getBlock x.parentHash y) : y.number < x.number := by
  generalize hparent : x.parentHash = parent at hy
  induction hy generalizing hash x with
  | here hp =>
    subst hparent
    rcases Nat.eq_zero_or_pos x.number with hzero | hpos
    · exact (Option.some_ne_none _ (hp.symm.trans (htree.genesis hash x h hzero))).elim
    · obtain ⟨p, hp', hnumber⟩ := htree.parent hash x h hpos.ne'
      rw [hp] at hp'
      cases hp'
      omega
  | @parent _ p _ hp _ ih =>
    subst hparent
    have hlt := ih hp rfl
    rcases Nat.eq_zero_or_pos x.number with hzero | hpos
    · exact (Option.some_ne_none _ (hp.symm.trans (htree.genesis hash x h hzero))).elim
    · obtain ⟨p', hp', hnumber⟩ := htree.parent hash x h hpos.ne'
      rw [hp] at hp'
      cases hp'
      omega

lemma exists_number (htree : HeaderTree getBlock) {n : Nat} (h : getBlock hash = some x)
    (hn : n ≤ x.number) : ∃ y, Reaches getBlock hash y ∧ y.number = n := by
  generalize hx : x.number = k at hn
  induction k generalizing hash x with
  | zero => exact ⟨x, .here h, by omega⟩
  | succ k ih =>
    rcases Nat.lt_succ_iff_lt_or_eq.mp (Nat.lt_succ_of_le hn) with hlt | heq
    · obtain ⟨p, hp, hnumber⟩ := htree.parent hash x h (by omega)
      obtain ⟨y, hy, hyn⟩ := ih hp (by omega) (by omega)
      exact ⟨y, .parent h hy, hyn⟩
    · exact ⟨x, .here h, by omega⟩

lemma eq_of_number_eq (htree : HeaderTree getBlock) {z : Header} (hy : Reaches getBlock hash y)
    (hz : Reaches getBlock hash z) (heq : y.number = z.number) : y = z := by
  induction hy with
  | here h =>
    rcases (reaches_iff h).mp hz with rfl | hz
    · rfl
    · have := htree.number_lt h hz
      omega
  | parent h hy ih =>
    rcases (reaches_iff h).mp hz with rfl | hz
    · have := htree.number_lt h hy
      omega
    · exact ih hz heq

end HeaderTree

lemma Chain.headerTree {blockOf : B256 → Option Block} (chain : Chain blockOf) :
    HeaderTree (chain.node 0).getBlockByHash := by
  have hserves := chain.node_serves .latest (List.length_pos_iff.mpr chain.nonempty)
  have hblock : ∀ hash x, (chain.node 0).getBlockByHash hash = some x →
      ∃ (n : Nat) (b : Block), chain.blocks[n]? = some b ∧ b.header = x ∧ b.header.hash = hash := by
    intro hash x h
    obtain ⟨b, hb, hx⟩ := Option.map_eq_some_iff.mp h
    obtain ⟨n, hn⟩ := List.getElem?_of_mem (List.mem_of_find?_eq_some hb)
    exact ⟨n, b, hn, hx, by simpa using List.find?_some hb⟩
  constructor
  case hash =>
    intro hash x h
    obtain ⟨-, b, -, rfl, hhash⟩ := hblock hash x h
    exact hhash
  case parent =>
    intro hash x h hne
    obtain ⟨n, b, hb, rfl, -⟩ := hblock hash x h
    have hnumber := chain.numbered n b hb
    cases n with
    | zero => exact absurd hnumber hne
    | succ n =>
      obtain ⟨p, hp, hparent⟩ := exists_parent hb
      refine ⟨p.header, ?_, by rw [hnumber, chain.numbered n p hp]⟩
      rw [hparent]
      exact hserves.getBlockByHash p (List.mem_of_getElem? hp)
  case genesis =>
    intro hash x h hzero
    obtain ⟨n, b, hb, rfl, -⟩ := hblock hash x h
    have hn : n = 0 := (chain.numbered n b hb).symm.trans hzero
    subst hn
    exact hserves.unknown _ (chain.genesis b hb)

end Walks

namespace Indexer

variable {env : Env} {getBlock : B256 → Option Header} {hash : B256}
  {hashes : OrderedTree Nat B256} {lastIndexed : BlockNumHash}

/-! ### Steps that do not fail -/

lemma exec_step (hquiet : ∀ t, env.fault t = false) (e : IndexerError) (s : IndexerState) :
    exec (step env e) s = (.ok s.steps, { s with steps := s.steps + 1 }) := by
  unfold step
  rw [exec_bind, exec_get]
  dsimp only
  rw [exec_bind, exec_set]
  dsimp only
  rw [hquiet]
  rfl

lemma exec_request_header (hquiet : ∀ t, env.fault t = false)
    (hnode : ∀ t hash, (env.node t).getBlockByHash hash = getBlock hash) (hash : B256)
    (e : IndexerError) (s : IndexerState) :
    exec (request env (·.getBlockByHash hash) e) s =
      (.ok (getBlock hash), { s with steps := s.steps + 1 }) := by
  unfold request
  rw [exec_bind, exec_step hquiet]
  dsimp only
  rw [hnode]
  rfl

lemma exec_treeOperation {α : Type} (hquiet : ∀ t, env.fault t = false)
    (f : IndexerState → α × IndexerState) (s : IndexerState) :
    exec (treeOperation env f) s =
      (.ok (f { s with steps := s.steps + 1 }).1, (f { s with steps := s.steps + 1 }).2) := by
  unfold treeOperation
  rw [exec_bind, exec_step hquiet]
  rfl

/-! ### Finding the common ancestor -/

/-- How the walk of `find_common_ancestor` ends. -/
inductive AncestorOutcome (getBlock : B256 → Option Header) (hashes : OrderedTree Nat B256)
    (hash : B256) : Except (Failure IndexerError) Nat → Prop
  /-- At the first block that is stored; every number above has an entry. -/
  | found {x : Header} (hx : Reaches getBlock hash x) (hstored : hashes.get x.number = some x.hash)
      (habove : ∀ y, Reaches getBlock hash y → x.number < y.number →
        hashes.get y.number ≠ none ∧ hashes.get y.number ≠ some y.hash) :
      AncestorOutcome getBlock hashes hash (.ok x.number)
  /-- At the first number without an entry, above every block that is stored. -/
  | gap {y : Header} (hy : Reaches getBlock hash y) (hnone : hashes.get y.number = none)
      (hbelow : ∀ x, Reaches getBlock hash x → hashes.get x.number = some x.hash →
        x.number < y.number) :
      AncestorOutcome getBlock hashes hash (.error (.error .noCommonAncestor))
  /-- Below the genesis block; nothing is stored. -/
  | exhausted (hnone : ∀ x, Reaches getBlock hash x → hashes.get x.number ≠ some x.hash) :
      AncestorOutcome getBlock hashes hash (.error (.error .parentBlockNotFound))

/-- One step of the walk, past a block that has another hash. -/
lemma AncestorOutcome.parent {x : Header} (h : getBlock hash = some x)
    (hentry : hashes.get x.number ≠ none)
    (hne : hashes.get x.number ≠ some x.hash) {r : Except (Failure IndexerError) Nat}
    (hr : AncestorOutcome getBlock hashes x.parentHash r) :
    AncestorOutcome getBlock hashes hash r := by
  cases hr with
  | found hy hstored habove =>
    refine .found (.parent h hy) hstored ?_
    intro z hz hlt
    rcases (reaches_iff h).mp hz with rfl | hz
    · exact ⟨hentry, hne⟩
    · exact habove z hz hlt
  | gap hy hnone hbelow =>
    refine .gap (.parent h hy) hnone ?_
    intro z hz hstored
    rcases (reaches_iff h).mp hz with rfl | hz
    · exact absurd hstored hne
    · exact hbelow z hz hstored
  | exhausted hnone =>
    refine .exhausted ?_
    intro z hz
    rcases (reaches_iff h).mp hz with rfl | hz
    · exact hne
    · exact hnone z hz

theorem findCommonAncestor_outcome (htree : HeaderTree getBlock)
    (hquiet : ∀ t, env.fault t = false)
    (hnode : ∀ t hash, (env.node t).getBlockByHash hash = getBlock hash) {fuel : Nat}
    (hpos : 0 < fuel) (hfuel : ∀ x, getBlock hash = some x → x.number + 1 < fuel)
    (s : IndexerState) :
    AncestorOutcome getBlock s.blockHashTree hash
      (exec (findCommonAncestor env fuel hash) s).1 := by
  induction fuel generalizing hash s with
  | zero => omega
  | succ fuel ih =>
    unfold findCommonAncestor
    rw [exec_bind, exec_request_header hquiet hnode]
    dsimp only
    cases h : getBlock hash with
    | none => exact .exhausted fun x hx => absurd hx (not_reaches_of_none h)
    | some x =>
      rw [okOr, pure_bind, exec_bind, exec_treeOperation hquiet]
      dsimp only
      have hx := htree.hash hash x h
      cases hstored : s.blockHashTree.get x.number with
      | none =>
        refine .gap (.here h) hstored ?_
        intro y hy hy'
        rcases (reaches_iff h).mp hy with rfl | hy
        · rw [hstored] at hy'
          cases hy'
        · exact htree.number_lt h hy
      | some stored =>
        dsimp only
        by_cases heq : stored = x.hash
        · rw [if_pos heq]
          refine .found (.here h) (by rw [hstored, heq]) ?_
          intro y hy hlt
          rcases (reaches_iff h).mp hy with rfl | hy
          · omega
          · have := htree.number_lt h hy
            omega
        · rw [if_neg heq]
          have hnumber := hfuel x h
          have hfuel' : ∀ p, getBlock x.parentHash = some p → p.number + 1 < fuel := by
            intro p hp
            have hlt := htree.number_lt h (.here hp)
            omega
          exact .parent h (by simp [hstored]) (by simpa [hstored] using heq)
            (ih (by omega) hfuel' { s with steps := s.steps + 1 + 1 })

/-- The answer is the highest stored block below, or there is none. -/
def FindsHighest (getBlock : B256 → Option Header) (hashes : OrderedTree Nat B256) (hash : B256) :
    Except (Failure IndexerError) Nat → Prop
  | .ok r => ∃ x, Reaches getBlock hash x ∧ hashes.get x.number = some x.hash ∧ x.number = r ∧
      ∀ y, Reaches getBlock hash y → hashes.get y.number = some y.hash → y.number ≤ r
  | .error _ => ∀ x, Reaches getBlock hash x → hashes.get x.number ≠ some x.hash

/-- A stored block is below, and every number above it has an entry. -/
def Contiguous (getBlock : B256 → Option Header) (hashes : OrderedTree Nat B256) (hash : B256) :
    Prop :=
  ∃ x, Reaches getBlock hash x ∧ hashes.get x.number = some x.hash ∧
    ∀ y, Reaches getBlock hash y → x.number < y.number → hashes.get y.number ≠ none

/-- `find_common_ancestor` always ends. It finds the highest stored ancestor exactly if the
numbers from a stored ancestor up to the update block all have entries, or none is stored. -/
theorem common_ancestor_found_iff (htree : HeaderTree getBlock)
    (hquiet : ∀ t, env.fault t = false)
    (hnode : ∀ t hash, (env.node t).getBlockByHash hash = getBlock hash) {fuel : Nat}
    (hpos : 0 < fuel) (parentHash : B256)
    (hfuel : ∀ x, getBlock parentHash = some x → x.number + 1 < fuel) (s : IndexerState) :
    (exec (findCommonAncestor env fuel parentHash) s).1 ≠ .error .diverged ∧
    (FindsHighest getBlock s.blockHashTree parentHash
        (exec (findCommonAncestor env fuel parentHash) s).1 ↔
      ((∃ x, Reaches getBlock parentHash x ∧ s.blockHashTree.get x.number = some x.hash) →
        Contiguous getBlock s.blockHashTree parentHash)) := by
  have houtcome := findCommonAncestor_outcome htree hquiet hnode hpos hfuel s
  generalize (exec (findCommonAncestor env fuel parentHash) s).1 = result at houtcome
  cases houtcome with
  | @found x hx hstored habove =>
    refine ⟨nofun, iff_of_true ⟨x, hx, hstored, rfl, ?_⟩ fun _ => ⟨x, hx, hstored, ?_⟩⟩
    · intro y hy hy'
      exact Nat.le_of_not_lt fun hlt => (habove y hy hlt).2 hy'
    · intro y hy hlt
      exact (habove y hy hlt).1
  | @gap y hy hnone hbelow =>
    refine ⟨nofun, ?_, ?_⟩
    · rintro hfinds ⟨x, hx, hstored⟩
      exact absurd hstored (hfinds x hx)
    · intro h x hx hstored
      obtain ⟨x', hx', hstored', hentries⟩ := h ⟨x, hx, hstored⟩
      exact hentries y hy (hbelow x' hx' hstored') hnone
  | exhausted hnone =>
    refine ⟨nofun, iff_of_true hnone ?_⟩
    rintro ⟨x, hx, hstored⟩
    exact absurd hstored (hnone x hx)

open Sample in
/-- Blocks 0 to 3 of which the trees know the given numbers and hashes. -/
def knowing (hashes : List (Nat × B256)) : IndexerState :=
  { initial with blockHashTree := OrderedTree.empty.applyBatch hashes }

open Sample in
/-- Blocks 2 and 3 were replaced; block 1 is the common ancestor. -/
theorem common_ancestor_found_replaced :
    FindsHighest (thirdChain.node 0).getBlockByHash
      (knowing [(0, 10), (1, 11), (2, 21), (3, 31)]).blockHashTree 15
      (exec (findCommonAncestor (Sample.env thirdChain 0 fun _ => false) 5 15)
        (knowing [(0, 10), (1, 11), (2, 21), (3, 31)])).1 := by
  have htree := thirdChain.headerTree
  have hthird : (thirdChain.node 0).getBlockByHash 15 = some ⟨3, 15, 13⟩ := by decide
  have hsecond : (thirdChain.node 0).getBlockByHash 13 = some ⟨2, 13, 11⟩ := by decide
  have hfuel : ∀ x, (thirdChain.node 0).getBlockByHash 15 = some x → x.number + 1 < 5 := by
    intro x hx
    rw [hthird] at hx
    cases hx
    decide
  refine (common_ancestor_found_iff htree (fun _ => rfl) (fun _ _ => rfl) (by decide) 15 hfuel
    (knowing [(0, 10), (1, 11), (2, 21), (3, 31)])).2.mpr fun _ => ?_
  refine ⟨⟨1, 11, 10⟩, .parent hthird (.parent hsecond (.here (by decide))), by decide, ?_⟩
  intro y hy hlt
  have hle : y.number ≤ 3 := by
    rcases (reaches_iff hthird).mp hy with rfl | hy
    · exact le_refl 3
    · exact (htree.number_lt hthird hy).le
  have hy : y.number = 2 ∨ y.number = 3 := by
    change 1 < y.number at hlt
    omega
  rcases hy with hy | hy
  · rw [hy]
    decide
  · rw [hy]
    decide

open Sample in
/-- Blocks 0 and 1 are known, and the update block is number 4: number 3 has no entry. -/
theorem gap_hides_ancestor :
    (exec (findCommonAncestor (Sample.env thirdChain 0 fun _ => false) 5 15)
      (knowing [(0, 10), (1, 11)])).1 = .error (.error .noCommonAncestor) ∧
    ¬FindsHighest (thirdChain.node 0).getBlockByHash (knowing [(0, 10), (1, 11)]).blockHashTree 15
      (exec (findCommonAncestor (Sample.env thirdChain 0 fun _ => false) 5 15)
        (knowing [(0, 10), (1, 11)])).1 := by
  have hresult : (exec (findCommonAncestor (Sample.env thirdChain 0 fun _ => false) 5 15)
      (knowing [(0, 10), (1, 11)])).1 = .error (.error .noCommonAncestor) := by decide
  refine ⟨hresult, ?_⟩
  rw [hresult]
  intro hnone
  have hthird : (thirdChain.node 0).getBlockByHash 15 = some ⟨3, 15, 13⟩ := by decide
  have hsecond : (thirdChain.node 0).getBlockByHash 13 = some ⟨2, 13, 11⟩ := by decide
  exact hnone ⟨1, 11, 10⟩ (.parent hthird (.parent hsecond (.here (by decide)))) (by decide)

/-! ### Comparing the last indexed block -/

/-- How `check_if_reorged` ends when the update block has another number. -/
inductive CheckOutcome (getBlock : B256 → Option Header) (lastIndexed : BlockNumHash)
    (hash : B256) : Except (Failure IndexerError) Bool → Prop
  /-- At the block with the last indexed number. -/
  | compared {x : Header} (hx : Reaches getBlock hash x) (hnumber : x.number = lastIndexed.number) :
      CheckOutcome getBlock lastIndexed hash (.ok (decide (x.hash ≠ lastIndexed.hash)))
  /-- Below the genesis block: no block has that number. -/
  | exhausted (hnone : ∀ x, Reaches getBlock hash x → x.number ≠ lastIndexed.number) :
      CheckOutcome getBlock lastIndexed hash
        (.error (.error (.checkIfReorgedError .parentBlockNotFound)))

theorem checkIfReorgedLoop_outcome (htree : HeaderTree getBlock)
    (hquiet : ∀ t, env.fault t = false)
    (hnode : ∀ t hash, (env.node t).getBlockByHash hash = getBlock hash) {fuel : Nat}
    (hpos : 0 < fuel) (hfuel : ∀ x, getBlock hash = some x → x.number + 1 < fuel)
    (s : IndexerState) :
    CheckOutcome getBlock lastIndexed hash
      (exec (checkIfReorgedLoop env lastIndexed fuel hash) s).1 := by
  induction fuel generalizing hash s with
  | zero => omega
  | succ fuel ih =>
    unfold checkIfReorgedLoop
    rw [exec_bind, exec_request_header hquiet hnode]
    dsimp only
    cases h : getBlock hash with
    | none => exact .exhausted fun x hx => absurd hx (not_reaches_of_none h)
    | some x =>
      rw [okOr, pure_bind]
      by_cases hnumber : x.number = lastIndexed.number
      · rw [if_neg (not_not.mpr hnumber)]
        exact .compared (.here h) hnumber
      · rw [if_pos hnumber]
        have hlt := hfuel x h
        have hfuel' : ∀ p, getBlock x.parentHash = some p → p.number + 1 < fuel := by
          intro p hp
          have := htree.number_lt h (.here hp)
          omega
        have hrest := ih (by omega) hfuel' { s with steps := s.steps + 1 }
        generalize (exec (checkIfReorgedLoop env lastIndexed fuel x.parentHash)
          { s with steps := s.steps + 1 }).1 = result at hrest
        cases hrest with
        | compared hy hy' => exact .compared (.parent h hy) hy'
        | exhausted hnone =>
          refine .exhausted ?_
          intro y hy
          rcases (reaches_iff h).mp hy with rfl | hy
          · exact hnumber
          · exact hnone y hy

/-- The update block is the last indexed block or has it below. -/
def Includes (getBlock : B256 → Option Header) (b : Header) (lastIndexed : BlockNumHash) : Prop :=
  ∃ x, Reaches getBlock b.hash x ∧ x.number = lastIndexed.number ∧ x.hash = lastIndexed.hash

/-- `check_if_reorged` always ends. It decides ancestry exactly if the update block is not below
the last indexed number. -/
theorem ancestry_decided_iff (htree : HeaderTree getBlock) (hquiet : ∀ t, env.fault t = false)
    (hnode : ∀ t hash, (env.node t).getBlockByHash hash = getBlock hash) {b : Header}
    (hb : getBlock b.hash = some b) {fuel : Nat} (hfuel : b.number < fuel)
    (lastIndexed : BlockNumHash) (s : IndexerState) :
    let result := (exec (checkIfReorged env fuel ⟨b.number, b.hash, b.parentHash⟩ lastIndexed) s).1
    result ≠ .error .diverged ∧
    ((∃ r, result = .ok r ∧ (r = false ↔ Includes getBlock b lastIndexed)) ↔
      lastIndexed.number ≤ b.number) := by
  unfold checkIfReorged Includes
  dsimp only
  by_cases hnumber : b.number = lastIndexed.number
  · rw [if_pos hnumber]
    refine ⟨nofun, iff_of_true ⟨_, rfl, ?_⟩ hnumber.ge⟩
    rw [decide_eq_false_iff_not, not_not]
    constructor
    · intro hhash
      exact ⟨b, .here hb, hnumber, hhash⟩
    · rintro ⟨x, hx, hx', hhash⟩
      rw [htree.eq_of_number_eq (.here hb) hx (hnumber.trans hx'.symm), hhash]
  · rw [if_neg hnumber]
    have hfuel' : ∀ p, getBlock b.parentHash = some p → p.number + 1 < fuel := by
      intro p hp
      have := htree.number_lt hb (.here hp)
      omega
    have houtcome := @checkIfReorgedLoop_outcome env getBlock b.parentHash lastIndexed htree hquiet
      hnode fuel (Nat.zero_lt_of_lt hfuel) hfuel' s
    generalize (exec (checkIfReorgedLoop env lastIndexed fuel b.parentHash) s).1 = result
      at houtcome
    cases houtcome with
    | @compared x hx hx' =>
      have hlt := htree.number_lt hb hx
      refine ⟨nofun, iff_of_true ⟨_, rfl, ?_⟩ (by omega)⟩
      rw [decide_eq_false_iff_not, not_not]
      constructor
      · intro hhash
        exact ⟨x, .parent hb hx, hx', hhash⟩
      · rintro ⟨y, hy, hy', hhash⟩
        rw [htree.eq_of_number_eq (.parent hb hx) hy (hx'.trans hy'.symm), hhash]
    | exhausted hnone =>
      refine ⟨nofun, iff_of_false (fun ⟨r, hr, _⟩ => by cases hr) ?_⟩
      intro hle
      obtain ⟨x, hx, hx'⟩ := htree.exists_number hb hle
      rcases (reaches_iff hb).mp hx with rfl | hx
      · exact hnumber hx'
      · exact hnone x hx hx'

open Sample in
/-- The last indexed block is two below the update block. -/
theorem ancestry_decided_below :
    ∃ r, (exec (checkIfReorged (Sample.env thirdChain 0 fun _ => false) 4 ⟨3, 15, 13⟩ ⟨1, 11⟩)
        initial).1 = .ok r ∧
      (r = false ↔ Includes (thirdChain.node 0).getBlockByHash ⟨3, 15, 13⟩ ⟨1, 11⟩) := by
  have hb : (thirdChain.node 0).getBlockByHash (Header.hash ⟨3, 15, 13⟩) = some ⟨3, 15, 13⟩ := by
    decide
  exact (ancestry_decided_iff thirdChain.headerTree (fun _ => rfl) (fun _ _ => rfl) hb
    (by decide) ⟨1, 11⟩ initial).2.mpr (by decide)

open Sample in
/-- The update block is two below the last indexed block: there is no answer. -/
theorem lower_block_undecided :
    (exec (checkIfReorged (Sample.env thirdChain 0 fun _ => false) 4 ⟨1, 11, 10⟩ ⟨3, 15⟩)
      initial).1 = .error (.error (.checkIfReorgedError .parentBlockNotFound)) ∧
    ¬∃ r, (exec (checkIfReorged (Sample.env thirdChain 0 fun _ => false) 4 ⟨1, 11, 10⟩ ⟨3, 15⟩)
        initial).1 = .ok r ∧
      (r = false ↔ Includes (thirdChain.node 0).getBlockByHash ⟨1, 11, 10⟩ ⟨3, 15⟩) := by
  have hresult : (exec (checkIfReorged (Sample.env thirdChain 0 fun _ => false) 4 ⟨1, 11, 10⟩
      ⟨3, 15⟩) initial).1 = .error (.error (.checkIfReorgedError .parentBlockNotFound)) := by decide
  refine ⟨hresult, ?_⟩
  rintro ⟨r, hr, -⟩
  cases hresult.symm.trans hr

end Indexer

end AssertionExecution
