import Mathlib.Data.Fintype.BigOperators

/-!
# Parallel maps

Workers run the tasks of a map in any interleaving. On the way to its result a task adds to a
counter that all of them share. Fallible jobs are collected as soon as they are all joined, and may
be skipped once one of them has failed.
-/

namespace ParallelMap

open Function

variable {ι M β : Type}

/-! ### Tasks that share a counter -/

/-- What a task adds to the counter, one atomic addition after the other, and its result. -/
structure Task (M β : Type) where
  adds : List M
  result : β

inductive Stage (M β : Type) where
  | waiting
  | adding (left : List M) (result : β)
  | done (result : β)

namespace Stage

def next (task : Task M β) : Stage M β → Stage M β
  | waiting => adding task.adds task.result
  | adding [] result => done result
  | adding (_ :: left) result => adding left result
  | done result => done result

/-- What a task still has to add. -/
def left (task : Task M β) : Stage M β → List M
  | waiting => task.adds
  | adding left _ => left
  | done _ => []

def result : Stage M β → Option β
  | done result => some result
  | _ => none

lemma iterate_next_adding (task : Task M β) (l : List M) (r : β) (n : Nat) :
    (next task)^[n] (adding l r) = if n ≤ l.length then adding (l.drop n) r else done r := by
  induction n generalizing l with
  | zero => simp
  | succ n ih =>
    rw [iterate_succ_apply]
    cases l with
    | nil =>
      have hdone : ∀ k, (next task)^[k] (done r) = done r := by
        intro k
        induction k with
        | zero => rfl
        | succ k ih => rw [iterate_succ_apply', ih, next]
      rw [if_neg (by simp), next, hdone]
    | cons m l =>
      rw [next, ih, List.drop_succ_cons, List.length_cons]
      simp only [Nat.add_le_add_iff_right]

/-- After the first turn and one for each addition, one more leaves the result. -/
lemma result_iterate_next (task : Task M β) (n : Nat) :
    ((next task)^[n] waiting).result =
      if task.adds.length + 2 ≤ n then some task.result else none := by
  cases n with
  | zero => rfl
  | succ n =>
    rw [iterate_succ_apply, next, iterate_next_adding]
    by_cases h : n ≤ task.adds.length
    · rw [if_pos h, if_neg (by omega)]
      rfl
    · rw [if_neg h, if_pos (by omega)]
      rfl

end Stage

/-- The shared counter and where each task is. -/
structure Pool (ι M β : Type) where
  counter : M
  stage : ι → Stage M β

namespace Pool

variable [DecidableEq ι] [AddCommMonoid M] {work : ι → Task M β}

def start : Pool ι M β := ⟨0, fun _ => .waiting⟩

def turn (work : ι → Task M β) (pool : Pool ι M β) (i : ι) : Pool ι M β :=
  match pool.stage i with
  | .adding (m :: left) result => ⟨pool.counter + m, update pool.stage i (.adding left result)⟩
  | stage => ⟨pool.counter, update pool.stage i (stage.next (work i))⟩

/-- The tasks take turns in the order of a schedule. -/
def run (work : ι → Task M β) (schedule : List ι) : Pool ι M β := schedule.foldl (turn work) start

def Complete (pool : Pool ι M β) : Prop := ∀ i, (pool.stage i).result.isSome

lemma run_append (schedule rest : List ι) :
    run work (schedule ++ rest) = rest.foldl (turn work) (run work schedule) :=
  List.foldl_append ..

lemma stage_turn (pool : Pool ι M β) (i : ι) :
    (pool.turn work i).stage = update pool.stage i ((pool.stage i).next (work i)) := by
  unfold turn
  cases hstage : pool.stage i with
  | waiting => rfl
  | done => rfl
  | adding left result => cases left <;> rfl

lemma stage_run (schedule : List ι) (i : ι) :
    (run work schedule).stage i = (Stage.next (work i))^[schedule.count i] .waiting := by
  induction schedule using List.reverseRecOn with
  | nil => rfl
  | append_singleton schedule j ih =>
    rw [run_append, List.foldl_cons, List.foldl_nil, stage_turn, List.count_append]
    by_cases h : j = i
    · rw [h, update_self, ih, List.count_singleton_self, iterate_succ_apply']
    · rw [update_of_ne (Ne.symm h), ih, List.count_singleton, if_neg (by simpa using h),
        Nat.add_zero]

/-- A schedule completes the tasks exactly when each one has enough turns. -/
theorem complete_run_iff (schedule : List ι) :
    (run work schedule).Complete ↔ ∀ i, (work i).adds.length + 2 ≤ schedule.count i := by
  apply forall_congr'
  intro i
  rw [stage_run, Stage.result_iterate_next]
  by_cases h : (work i).adds.length + 2 ≤ schedule.count i
  · simp [h]
  · simp [h]

lemma result_of_complete {schedule : List ι} (h : (run work schedule).Complete) (i : ι) :
    ((run work schedule).stage i).result = some (work i).result := by
  rw [stage_run, Stage.result_iterate_next, if_pos ((complete_run_iff schedule).mp h i)]

section Sum

variable [Fintype ι]

/-- Every run of tasks with boundedly many additions can be completed. -/
lemma exists_complete_run {bound : Nat} (hbound : ∀ i, (work i).adds.length + 2 ≤ bound)
    (schedule : List ι) : ∃ rest, (run work (schedule ++ rest)).Complete := by
  refine ⟨(List.replicate bound Finset.univ.toList).flatten, ?_⟩
  rw [complete_run_iff]
  intro i
  have honce : Finset.univ.toList.count i = 1 :=
    List.count_eq_one_of_mem (Finset.nodup_toList _) (Finset.mem_toList.mpr (Finset.mem_univ i))
  have hrest : (List.replicate bound Finset.univ.toList).flatten.count i = bound := by
    rw [List.count_flatten, List.map_replicate, honce]
    simp
  rw [List.count_append, hrest]
  exact (hbound i).trans (Nat.le_add_left ..)

lemma sum_left_update (stage : ι → Stage M β) (i : ι) (s : Stage M β) :
    ∑ j, ((update stage i s j).left (work j)).sum =
      (s.left (work i)).sum + ∑ j ∈ Finset.univ.erase i, ((stage j).left (work j)).sum := by
  rw [← Finset.add_sum_erase _ _ (Finset.mem_univ i), update_self]
  congr 1
  apply Finset.sum_congr rfl
  intro j hj
  rw [update_of_ne (Finset.ne_of_mem_erase hj)]

/-- No turn changes what the counter and the additions that are left come to. -/
lemma counter_turn (pool : Pool ι M β) (i : ι) :
    (pool.turn work i).counter + ∑ j, (((pool.turn work i).stage j).left (work j)).sum =
      pool.counter + ∑ j, ((pool.stage j).left (work j)).sum := by
  have hsum := (Finset.add_sum_erase Finset.univ
    (fun j => ((pool.stage j).left (work j)).sum) (Finset.mem_univ i)).symm
  rw [stage_turn, sum_left_update, hsum]
  unfold turn
  cases hstage : pool.stage i with
  | waiting => rfl
  | done => rfl
  | adding left result =>
    cases left with
    | nil => rfl
    | cons m left =>
      change (pool.counter + m) + (left.sum + _) = pool.counter + ((m :: left).sum + _)
      rw [List.sum_cons, add_assoc, add_assoc]

lemma counter_run (schedule : List ι) :
    (run work schedule).counter + ∑ i, (((run work schedule).stage i).left (work i)).sum =
      ∑ i, (work i).adds.sum := by
  induction schedule using List.reverseRecOn with
  | nil => exact zero_add _
  | append_singleton schedule i ih =>
    rw [run_append, List.foldl_cons, List.foldl_nil, counter_turn, ih]

/-- Whatever the schedule, the counter ends with the sum of all additions. -/
theorem counter_of_complete {schedule : List ι} (h : (run work schedule).Complete) :
    (run work schedule).counter = ∑ i, (work i).adds.sum := by
  have hleft : ∑ i, (((run work schedule).stage i).left (work i)).sum = 0 := by
    apply Finset.sum_eq_zero
    intro i _
    have hresult := result_of_complete h i
    cases hstage : (run work schedule).stage i with
    | done => rfl
    | waiting =>
      rw [hstage] at hresult
      cases hresult
    | adding =>
      rw [hstage] at hresult
      cases hresult
  rw [← counter_run schedule, hleft, add_zero]

end Sum

end Pool

/-! ### Fallible jobs that are collected -/

/-- Jobs of an index: how they start, what a turn does and when they have an outcome. -/
structure Jobs (ι : Type) (S T : ι → Type) (ε β : Type) where
  start (i : ι) : S i
  turn (i : ι) : S i → T i → S i
  outcome (i : ι) : S i → Option (Except ε β)

def Jobs.run {S T : ι → Type} {ε : Type} (jobs : Jobs ι S T ε β) (i : ι) (ts : List (T i)) : S i :=
  ts.foldl (jobs.turn i) (jobs.start i)

/-- The only outcomes of the jobs are the given ones, and each job gets to one. -/
structure Jobs.Computes {S T : ι → Type} {ε : Type} (jobs : Jobs ι S T ε β)
    (value : ι → Except ε β) : Prop where
  outcome_eq : ∀ i ts r, jobs.outcome i (jobs.run i ts) = some r → r = value i
  exists_outcome : ∀ i ts, ∃ rest, (jobs.outcome i (jobs.run i (ts ++ rest))).isSome

inductive Progress (S ε β : Type) where
  | waiting
  | running (state : S)
  | joined (outcome : Except ε β)
  | skipped

def Progress.Finished {S ε β : Type} : Progress S ε β → Prop
  | joined _ => True
  | skipped => True
  | _ => False

inductive Move (ι : Type) (T : ι → Type) where
  | begin (i : ι)
  | turn (i : ι) (t : T i)
  | join (i : ι)
  | skip (i : ι)

/-- The first error that was saved and where each job is. -/
structure Collection (ι : Type) (S : ι → Type) (ε β : Type) where
  saved : Option ε
  progress (i : ι) : Progress (S i) ε β

namespace Collection

variable [DecidableEq ι] {S T : ι → Type} {ε : Type} {jobs : Jobs ι S T ε β}
  {value : ι → Except ε β}

def start : Collection ι S ε β := ⟨none, fun _ => .waiting⟩

def set (c : Collection ι S ε β) (i : ι) (p : Progress (S i) ε β) : Collection ι S ε β :=
  { c with progress := update c.progress i p }

lemma progress_set_self (c : Collection ι S ε β) (i : ι) (p : Progress (S i) ε β) :
    (c.set i p).progress i = p := update_self ..

lemma progress_set_of_ne (c : Collection ι S ε β) {i j : ι} (h : j ≠ i) (p : Progress (S i) ε β) :
    (c.set i p).progress j = c.progress j := update_of_ne h ..

def failure : Except ε β → Option ε
  | .ok _ => none
  | .error e => some e

/-- A step. Jobs are skipped only after an error was saved, and what a job cannot do changes
nothing. -/
def move (jobs : Jobs ι S T ε β) (c : Collection ι S ε β) : Move ι T → Collection ι S ε β
  | .begin i =>
    match c.progress i with
    | .waiting => c.set i (.running (jobs.start i))
    | _ => c
  | .turn i t =>
    match c.progress i with
    | .running state => c.set i (.running (jobs.turn i state t))
    | _ => c
  | .join i =>
    match c.progress i with
    | .running state =>
      match jobs.outcome i state with
      | some outcome => { c.set i (.joined outcome) with saved := c.saved.or (failure outcome) }
      | none => c
    | _ => c
  | .skip i =>
    match c.progress i, c.saved with
    | .waiting, some _ => c.set i .skipped
    | _, _ => c

def run (jobs : Jobs ι S T ε β) (moves : List (Move ι T)) : Collection ι S ε β :=
  moves.foldl (move jobs) start

def Complete (c : Collection ι S ε β) : Prop := ∀ i, (c.progress i).Finished

/-- The values that were collected, in the order of the jobs, or the saved error. -/
def collect {n : Nat} {S : Fin n → Type} (c : Collection (Fin n) S ε β) : Except ε (List β) :=
  match c.saved with
  | some e => .error e
  | none => .ok ((List.finRange n).filterMap fun i =>
      match c.progress i with
      | .joined (.ok b) => some b
      | _ => none)

inductive MoveCases (jobs : Jobs ι S T ε β) (c : Collection ι S ε β) (m : Move ι T) : Prop
  | stays (h : c.move jobs m = c)
  | begins (i : ι) (hi : c.progress i = .waiting)
      (h : c.move jobs m = c.set i (.running (jobs.start i)))
  | turns (i : ι) (state : S i) (t : T i) (hi : c.progress i = .running state)
      (h : c.move jobs m = c.set i (.running (jobs.turn i state t)))
  | joins (i : ι) (state : S i) (outcome : Except ε β) (hi : c.progress i = .running state)
      (houtcome : jobs.outcome i state = some outcome)
      (h : c.move jobs m =
        { c.set i (.joined outcome) with saved := c.saved.or (failure outcome) })
  | skips (i : ι) (hi : c.progress i = .waiting) (hsaved : c.saved.isSome)
      (h : c.move jobs m = c.set i .skipped)

lemma move_cases (jobs : Jobs ι S T ε β) (c : Collection ι S ε β) (m : Move ι T) :
    MoveCases jobs c m := by
  cases m with
  | begin i =>
    cases hi : c.progress i with
    | waiting => exact .begins i hi (by simp only [move, hi])
    | running | joined | skipped => exact .stays (by simp only [move, hi])
  | turn i t =>
    cases hi : c.progress i with
    | running state => exact .turns i state t hi (by simp only [move, hi])
    | waiting | joined | skipped => exact .stays (by simp only [move, hi])
  | join i =>
    cases hi : c.progress i with
    | running state =>
      cases houtcome : jobs.outcome i state with
      | none => exact .stays (by simp only [move, hi, houtcome])
      | some outcome =>
        exact .joins i state outcome hi houtcome (by simp only [move, hi, houtcome])
    | waiting | joined | skipped => exact .stays (by simp only [move, hi])
  | skip i =>
    cases hi : c.progress i with
    | waiting =>
      cases hsaved : c.saved with
      | none => exact .stays (by simp only [move, hi, hsaved])
      | some e => exact .skips i hi (hsaved ▸ rfl) (by simp only [move, hi, hsaved])
    | running | joined | skipped => exact .stays (by simp only [move, hi])

/-- What every run keeps. -/
structure Sound (jobs : Jobs ι S T ε β) (value : ι → Except ε β) (c : Collection ι S ε β) :
    Prop where
  running : ∀ i state, c.progress i = .running state → ∃ ts, state = jobs.run i ts
  joined : ∀ i outcome, c.progress i = .joined outcome → outcome = value i
  saved_of_joined : ∀ i e, c.progress i = .joined (.error e) → c.saved.isSome
  saved_of_skipped : ∀ i, c.progress i = .skipped → c.saved.isSome
  saved : ∀ e, c.saved = some e → ∃ i, value i = .error e

omit [DecidableEq ι] in
lemma sound_start : Sound jobs value start where
  running _ _ h := by cases h
  joined _ _ h := by cases h
  saved_of_joined _ _ h := by cases h
  saved_of_skipped _ h := by cases h
  saved _ h := by cases h

/-- Progress other than joining keeps what is sound. -/
lemma Sound.set {c : Collection ι S ε β} (h : Sound jobs value c) (i : ι)
    {p : Progress (S i) ε β} (hrunning : ∀ state, p = .running state → ∃ ts, state = jobs.run i ts)
    (hjoined : ∀ outcome, p ≠ .joined outcome) (hskipped : p = .skipped → c.saved.isSome) :
    Sound jobs value (c.set i p) := by
  have hat := c.progress_set_self i p
  have helse : ∀ j, j ≠ i → (c.set i p).progress j = c.progress j :=
    fun j hj => c.progress_set_of_ne hj p
  constructor
  · intro j state hj
    by_cases hji : j = i
    · subst hji
      exact hrunning state (hat.symm.trans hj)
    · exact h.running j state ((helse j hji).symm.trans hj)
  · intro j outcome hj
    by_cases hji : j = i
    · subst hji
      exact absurd (hat.symm.trans hj) (hjoined outcome)
    · exact h.joined j outcome ((helse j hji).symm.trans hj)
  · intro j e hj
    by_cases hji : j = i
    · subst hji
      exact absurd (hat.symm.trans hj) (hjoined _)
    · exact h.saved_of_joined j e ((helse j hji).symm.trans hj)
  · intro j hj
    by_cases hji : j = i
    · subst hji
      exact hskipped (hat.symm.trans hj)
    · exact h.saved_of_skipped j ((helse j hji).symm.trans hj)
  · exact h.saved

lemma Sound.join {c : Collection ι S ε β} (h : Sound jobs value c) (i : ι)
    {outcome : Except ε β} (houtcome : outcome = value i) :
    Sound jobs value { c.set i (.joined outcome) with saved := c.saved.or (failure outcome) } := by
  have hat := c.progress_set_self i (.joined outcome)
  have helse : ∀ j, j ≠ i → (c.set i (.joined outcome)).progress j = c.progress j :=
    fun j hj => c.progress_set_of_ne hj (.joined outcome)
  have hsaved : c.saved.isSome → (c.saved.or (failure outcome)).isSome := by
    intro hsome
    rw [Option.or_of_isSome hsome]
    exact hsome
  constructor
  · intro j state hj
    by_cases hji : j = i
    · subst hji
      exact absurd (hat.symm.trans hj) (nomatch ·)
    · exact h.running j state ((helse j hji).symm.trans hj)
  · intro j outcome' hj
    by_cases hji : j = i
    · subst hji
      cases hat.symm.trans hj
      exact houtcome
    · exact h.joined j outcome' ((helse j hji).symm.trans hj)
  · intro j e hj
    by_cases hji : j = i
    · subst hji
      cases hat.symm.trans hj
      cases hc : c.saved <;> rfl
    · exact hsaved (h.saved_of_joined j e ((helse j hji).symm.trans hj))
  · intro j hj
    by_cases hji : j = i
    · subst hji
      exact absurd (hat.symm.trans hj) (nomatch ·)
    · exact hsaved (h.saved_of_skipped j ((helse j hji).symm.trans hj))
  · intro e he
    change c.saved.or (failure outcome) = some e at he
    rcases Option.or_eq_some_iff.mp he with hsome | ⟨-, hfailure⟩
    · exact h.saved e hsome
    · cases outcome with
      | ok b => cases hfailure
      | error e' =>
        cases hfailure
        exact ⟨i, houtcome.symm⟩

lemma Sound.move {c : Collection ι S ε β} (h : Sound jobs value c) (hjobs : jobs.Computes value)
    (m : Move ι T) : Sound jobs value (c.move jobs m) := by
  cases move_cases jobs c m with
  | stays hmove =>
    rw [hmove]
    exact h
  | begins i _ hmove =>
    rw [hmove]
    apply h.set i (p := .running (jobs.start i)) _ (fun _ => (nomatch ·)) (nomatch ·)
    intro state hstate
    cases hstate
    exact ⟨[], rfl⟩
  | turns i state t hi hmove =>
    rw [hmove]
    obtain ⟨ts, rfl⟩ := h.running i state hi
    apply h.set i (p := .running (jobs.turn i (jobs.run i ts) t)) _ (fun _ => (nomatch ·))
      (nomatch ·)
    intro state hstate
    cases hstate
    refine ⟨ts ++ [t], ?_⟩
    unfold Jobs.run
    rw [List.foldl_append, List.foldl_cons, List.foldl_nil]
  | joins i state outcome hi houtcome hmove =>
    rw [hmove]
    obtain ⟨ts, rfl⟩ := h.running i state hi
    exact h.join i (hjobs.outcome_eq i ts outcome houtcome)
  | skips i _ hsaved hmove =>
    rw [hmove]
    exact h.set i (p := .skipped) (fun _ => (nomatch ·)) (fun _ => (nomatch ·)) fun _ => hsaved

lemma sound_run (hjobs : jobs.Computes value) (moves : List (Move ι T)) :
    Sound jobs value (run jobs moves) := by
  unfold run
  induction moves using List.reverseRecOn with
  | nil => exact sound_start
  | append_singleton moves m ih =>
    rw [List.foldl_append, List.foldl_cons, List.foldl_nil]
    exact ih.move hjobs m

lemma finished_move {c : Collection ι S ε β} {j : ι} (h : (c.progress j).Finished)
    (m : Move ι T) : ((c.move jobs m).progress j).Finished := by
  have helse : ∀ (i : ι) (p : Progress (S i) ε β), ¬(c.progress i).Finished →
      ((c.set i p).progress j).Finished := by
    intro i p hi
    have hne : j ≠ i := by
      rintro rfl
      exact hi h
    rwa [c.progress_set_of_ne hne]
  cases move_cases jobs c m with
  | stays hmove =>
    rw [hmove]
    exact h
  | begins i hi hmove =>
    rw [hmove]
    exact helse i _ (by rw [hi]; exact id)
  | turns i state t hi hmove =>
    rw [hmove]
    exact helse i _ (by rw [hi]; exact id)
  | joins i state outcome hi _ hmove =>
    rw [hmove]
    exact helse i _ (by rw [hi]; exact id)
  | skips i hi _ hmove =>
    rw [hmove]
    exact helse i _ (by rw [hi]; exact id)

lemma finished_foldl {c : Collection ι S ε β} {j : ι} (h : (c.progress j).Finished)
    (moves : List (Move ι T)) : ((moves.foldl (move jobs) c).progress j).Finished := by
  induction moves generalizing c with
  | nil => exact h
  | cons m moves ih => exact ih (finished_move h m)

lemma progress_turns (jobs : Jobs ι S T ε β) {c : Collection ι S ε β} {i : ι} {state : S i}
    (h : c.progress i = .running state) (ts : List (T i)) :
    ((ts.map (Move.turn i)).foldl (move jobs) c).progress i =
      .running (ts.foldl (jobs.turn i) state) := by
  induction ts generalizing c state with
  | nil => exact h
  | cons t ts ih =>
    apply ih
    simp only [move, h, progress_set_self]

lemma exists_finished (hjobs : jobs.Computes value) {c : Collection ι S ε β}
    (h : Sound jobs value c) (i : ι) :
    ∃ moves : List (Move ι T), ((moves.foldl (move jobs) c).progress i).Finished := by
  have hrunning : ∀ {c : Collection ι S ε β} (ts : List (T i)),
      c.progress i = .running (jobs.run i ts) →
        ∃ moves : List (Move ι T), ((moves.foldl (move jobs) c).progress i).Finished := by
    intro c ts hi
    obtain ⟨rest, hsome⟩ := hjobs.exists_outcome i ts
    obtain ⟨outcome, houtcome⟩ := Option.isSome_iff_exists.mp hsome
    refine ⟨rest.map (Move.turn i) ++ [.join i], ?_⟩
    have hturns := progress_turns jobs hi rest
    unfold Jobs.run at hturns houtcome
    rw [← List.foldl_append] at hturns
    rw [List.foldl_append, List.foldl_cons, List.foldl_nil]
    simp only [move, hturns, houtcome, progress_set_self]
    trivial
  cases hi : c.progress i with
  | waiting =>
    have hbegin : (c.move jobs (.begin i)).progress i = .running (jobs.run i []) := by
      simp only [move, hi, progress_set_self]
      rfl
    obtain ⟨moves, hmoves⟩ := hrunning [] hbegin
    exact ⟨.begin i :: moves, hmoves⟩
  | running state =>
    obtain ⟨ts, rfl⟩ := h.running i state hi
    exact hrunning ts hi
  | joined outcome =>
    refine ⟨[], ?_⟩
    rw [List.foldl_nil, hi]
    trivial
  | skipped =>
    refine ⟨[], ?_⟩
    rw [List.foldl_nil, hi]
    trivial

/-- Every run can be brought to its end. -/
theorem exists_complete [Fintype ι] (hjobs : jobs.Computes value) (moves : List (Move ι T)) :
    ∃ rest, (run jobs (moves ++ rest)).Complete := by
  have hall : ∀ is : Finset ι, ∃ rest,
      ∀ i ∈ is, ((run jobs (moves ++ rest)).progress i).Finished := by
    intro is
    induction is using Finset.induction_on with
    | empty => exact ⟨[], fun i hi => absurd hi (Finset.notMem_empty i)⟩
    | insert j is _ ih =>
      obtain ⟨rest, hrest⟩ := ih
      obtain ⟨more, hmore⟩ := exists_finished hjobs (sound_run hjobs (moves ++ rest)) j
      refine ⟨rest ++ more, ?_⟩
      intro i hi
      rw [← List.append_assoc, run, List.foldl_append]
      rcases Finset.mem_insert.mp hi with rfl | hi
      · exact hmore
      · exact finished_foldl (hrest i hi) more
  obtain ⟨rest, hrest⟩ := hall Finset.univ
  exact ⟨rest, fun i => hrest i (Finset.mem_univ i)⟩

section Collect

variable {n : Nat} {S T : Fin n → Type} {jobs : Jobs (Fin n) S T ε β} {value : Fin n → Except ε β}
  {moves : List (Move (Fin n) T)}

/-- Values are collected only when no job fails, and then all of them, in order. -/
theorem collect_ok (hjobs : jobs.Computes value) (hcomplete : (run jobs moves).Complete)
    {bs : List β} (h : (run jobs moves).collect = .ok bs) :
    ∃ b : Fin n → β, (∀ i, value i = .ok (b i)) ∧ bs = List.ofFn b := by
  have hsound := sound_run hjobs moves
  unfold collect at h
  cases hsaved : (run jobs moves).saved with
  | some e =>
    rw [hsaved] at h
    cases h
  | none =>
    rw [hsaved] at h
    have hjoined : ∀ i, ∃ b, value i = .ok b ∧ (run jobs moves).progress i = .joined (.ok b) := by
      intro i
      have hfinished := hcomplete i
      cases hi : (run jobs moves).progress i with
      | waiting | running =>
        rw [hi] at hfinished
        exact hfinished.elim
      | skipped => exact absurd (hsound.saved_of_skipped i hi) (by rw [hsaved]; exact nofun)
      | joined outcome =>
        cases outcome with
        | error e => exact absurd (hsound.saved_of_joined i e hi) (by rw [hsaved]; exact nofun)
        | ok b => exact ⟨b, (hsound.joined i _ hi).symm, rfl⟩
    choose b hvalue hprogress using hjoined
    refine ⟨b, hvalue, ?_⟩
    cases h
    rw [List.ofFn_eq_map, ← List.filterMap_eq_map]
    congr 1
    funext i
    rw [hprogress i]
    rfl

theorem collect_error (hjobs : jobs.Computes value) {e : ε}
    (h : (run jobs moves).collect = .error e) : ∃ i, value i = .error e := by
  unfold collect at h
  cases hsaved : (run jobs moves).saved with
  | none =>
    rw [hsaved] at h
    cases h
  | some e' =>
    rw [hsaved] at h
    cases h
    exact (sound_run hjobs moves).saved e hsaved

end Collect

end Collection

end ParallelMap
