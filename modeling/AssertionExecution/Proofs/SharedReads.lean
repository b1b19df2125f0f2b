import AssertionExecution.Model.SharedOverlays

/-!
# Reads of a shared cache

What an overlay or a fork reads is what it would read with the cache to itself, unless the entry
was put there by a read through another database that answers otherwise.
-/

namespace AssertionExecution

open SharedCache

variable {Db Err ActiveDb ActiveErr : Type} [DatabaseRef Db Err] [DatabaseRef ActiveDb ActiveErr]

/-! ### Replies -/

def cachedReply : Query → TableValue → Except (Failure NotFoundError) Reply
  | .basicRef _, value => .ok (.basic value.asBasic)
  | .codeByHashRef _, value => (unwrap value.asCodeByHash).map .codeByHash
  | .storageRef _ _, value => ((unwrap value.asStorage).map u256OfB256).map .storage
  | .blockHashRef _, value => (unwrap value.asBlockHash).map .blockHash

def Handle.reply (self : Handle Db ActiveDb) (q : Query) : Except (Failure NotFoundError) Reply :=
  ask (CachedHandle.mk self ∅) q

lemma readThrough_of_lookup {α : Type} {overlay : OverlayCache} {key : TableKey}
    {value : TableValue} (h : overlay.lookup key = some value)
    (cached : TableValue → Except (Failure NotFoundError) α) (fetched : Fetched α) :
    (readThrough overlay key cached fetched).1 = cached value := by
  unfold readThrough
  rw [h]

lemma readThrough_of_lookup_none {α : Type} {overlay : OverlayCache} {key : TableKey}
    (h : overlay.lookup key = none) (cached : TableValue → Except (Failure NotFoundError) α)
    (fetched : Fetched α) :
    (readThrough overlay key cached fetched).1 = fetched.map Prod.fst := by
  unfold readThrough
  rw [h]
  rcases fetched with e | ⟨a, _ | value⟩
  · rfl
  · rfl
  · rfl

lemma ask_of_lookup (handle : Handle Db ActiveDb) {overlay : OverlayCache} {q : Query}
    {value : TableValue} (h : overlay.lookup q.key = some value) :
    ask (CachedHandle.mk handle overlay) q = cachedReply q value := by
  cases q with
  | basicRef address =>
    cases handle <;> exact congrArg (Except.map Reply.basic) (readThrough_of_lookup h _ _)
  | codeByHashRef codeHash =>
    cases handle <;> exact congrArg (Except.map Reply.codeByHash) (readThrough_of_lookup h _ _)
  | storageRef address slot =>
    cases handle <;> exact congrArg (Except.map Reply.storage) (readThrough_of_lookup h _ _)
  | blockHashRef number =>
    cases handle <;> exact congrArg (Except.map Reply.blockHash) (readThrough_of_lookup h _ _)

lemma ask_of_lookup_none (handle : Handle Db ActiveDb) {overlay : OverlayCache} {q : Query}
    (h : overlay.lookup q.key = none) :
    ask (CachedHandle.mk handle overlay) q = handle.reply q := by
  have hempty : (∅ : OverlayCache).lookup q.key = none := AList.lookup_empty _
  -- The overlays answer what they fetch, with the cache as with an empty one.
  have hsame : ∀ {α : Type} (cached : TableValue → Except (Failure NotFoundError) α)
      (fetched : Fetched α), (readThrough overlay q.key cached fetched).1 =
        (readThrough ∅ q.key cached fetched).1 := by
    intro α cached fetched
    rw [readThrough_of_lookup_none h, readThrough_of_lookup_none hempty]
  cases q with
  | basicRef address =>
    cases handle <;> exact congrArg (Except.map Reply.basic) (hsame (fun v => .ok v.asBasic) _)
  | codeByHashRef codeHash =>
    cases handle <;> exact congrArg (Except.map Reply.codeByHash)
      (hsame (fun v => unwrap v.asCodeByHash) _)
  | storageRef address slot =>
    cases handle <;> exact congrArg (Except.map Reply.storage)
      (hsame (fun v => (unwrap v.asStorage).map u256OfB256) _)
  | blockHashRef number =>
    cases handle <;> exact congrArg (Except.map Reply.blockHash)
      (hsame (fun v => unwrap v.asBlockHash) _)

/-- The value that is cached for a reply stands for it. -/
lemma cachedReply_of_sourceEntry {db : Db} {q : Query} {value : TableValue}
    (h : sourceEntry db q.key = some value) :
    cachedReply q value = mapNotFound (ask db q) := by
  cases q with
  | basicRef address =>
    change (fetchBasic db address).entry = some value at h
    unfold fetchBasic at h
    change cachedReply _ value = mapNotFound ((basicRef db address).map Reply.basic)
    rcases hdb : basicRef db address with e | _ | info
    · rw [hdb] at h
      cases h
    · rw [hdb] at h
      cases h
    · rw [hdb] at h
      cases h
      rfl
  | codeByHashRef codeHash =>
    change (fetchCodeByHash db codeHash).entry = some value at h
    unfold fetchCodeByHash at h
    change cachedReply _ value = mapNotFound ((codeByHashRef db codeHash).map Reply.codeByHash)
    cases hdb : codeByHashRef db codeHash with
    | error e =>
      rw [hdb] at h
      cases h
    | ok code =>
      rw [hdb] at h
      cases h
      rfl
  | storageRef address slot =>
    change (fetchStorage db address slot).entry = some value at h
    unfold fetchStorage at h
    change cachedReply _ value = mapNotFound ((storageRef db address slot).map Reply.storage)
    cases hdb : storageRef db address slot with
    | error e =>
      rw [hdb] at h
      cases h
    | ok stored =>
      rw [hdb] at h
      cases h
      exact congrArg (fun v => Except.ok (Reply.storage v)) (u256OfB256_b256OfU256 stored)
  | blockHashRef number =>
    change (fetchBlockHash db number).entry = some value at h
    unfold fetchBlockHash at h
    change cachedReply _ value = mapNotFound ((blockHashRef db number).map Reply.blockHash)
    cases hdb : blockHashRef db number with
    | error e =>
      rw [hdb] at h
      cases h
    | ok hash =>
      rw [hdb] at h
      cases h
      rfl

omit [DatabaseRef Db Err] in
lemma mapNotFound_map {α : Type} (r : Except Err α) (f : α → Reply) :
    mapNotFound (r.map f) = (mapNotFound r).map f := by
  cases r <;> rfl

/-- Both kinds of overlays report what their database answers. -/
lemma Handle.reply_activeOverlay (db : ActiveDb) (q : Query) :
    (activeOverlay db : Handle Db ActiveDb).reply q = mapNotFound (ask db q) := by
  have hempty : (∅ : OverlayCache).lookup q.key = none := AList.lookup_empty _
  cases q with
  | basicRef address =>
    unfold ask
    rw [mapNotFound_map, ← fetchBasic_fst]
    exact congrArg (Except.map Reply.basic)
      (readThrough_of_lookup_none hempty (fun value => .ok value.asBasic) _)
  | codeByHashRef codeHash =>
    unfold ask
    rw [mapNotFound_map, ← fetchCodeByHash_fst]
    exact congrArg (Except.map Reply.codeByHash)
      (readThrough_of_lookup_none hempty (fun value => unwrap value.asCodeByHash) _)
  | storageRef address slot =>
    unfold ask
    rw [mapNotFound_map, ← fetchStorage_fst]
    exact congrArg (Except.map Reply.storage) (readThrough_of_lookup_none hempty
      (fun value => (unwrap value.asStorage).map u256OfB256) _)
  | blockHashRef number =>
    unfold ask
    rw [mapNotFound_map, ← fetchBlockHash_fst]
    exact congrArg (Except.map Reply.blockHash)
      (readThrough_of_lookup_none hempty (fun value => unwrap value.asBlockHash) _)

lemma Handle.reply_overlayDb (db : Db) (q : Query) :
    (overlayDb (some db) : Handle Db ActiveDb).reply q =
      (activeOverlay db : Handle Db Db).reply q := by
  cases q <;> rfl

lemma Handle.reply_of_entry {self : Handle Db ActiveDb} {q : Query} {value : TableValue}
    (h : self.entry q.key = some value) : self.reply q = cachedReply q value := by
  cases self with
  | overlayDb db =>
    cases db with
    | none => cases h
    | some db =>
      rw [reply_overlayDb, reply_activeOverlay]
      exact (cachedReply_of_sourceEntry h).symm
  | activeOverlay db =>
    rw [reply_activeOverlay]
    exact (cachedReply_of_sourceEntry h).symm

/-- What a read on its own makes of the cache. -/
def Handle.query (self : Handle Db ActiveDb) (overlay : OverlayCache) (q : Query) : OverlayCache :=
  match self with
  | overlayDb db => ((OverlayDb.mk db overlay).query q).overlay
  | activeOverlay db => ((ActiveOverlay.mk db overlay).query q).overlay

lemma Handle.query_eq (self : Handle Db ActiveDb) (overlay : OverlayCache) (q : Query) :
    self.query overlay q = ReadThrough.fill self.entry overlay q.key := by
  cases self with
  | overlayDb db =>
    cases db with
    | none =>
      have hnone : ∀ {α : Type} (cached : TableValue → Except (Failure NotFoundError) α)
          (fetched : Fetched α), fetched.entry = none →
          (readThrough overlay q.key cached fetched).2 =
            ReadThrough.fill (fun _ => none) overlay q.key :=
        fun cached fetched h => readThrough_overlay overlay q.key cached fetched h
      cases q with
      | basicRef address => exact hnone _ (.ok (none, none)) rfl
      | codeByHashRef codeHash => exact hnone _ (.error (.error ⟨⟩)) rfl
      | storageRef address slot => exact hnone _ (.ok (0, none)) rfl
      | blockHashRef number => exact hnone _ (.error (.error ⟨⟩)) rfl
    | some db => cases q <;> exact readThrough_overlay _ _ _ _ rfl
  | activeOverlay db => cases q <;> exact readThrough_overlay _ _ _ _ rfl

/-! ### Forks -/

lemma ForkDb.ask_of_answersAlone {self : ForkDb (Handle Db ActiveDb)} {q : Query}
    (h : self.AnswersAlone q) (overlay overlay' : OverlayCache) :
    ask (self.withCache overlay) q = ask (self.withCache overlay') q := by
  cases q with
  | basicRef address =>
    obtain ⟨info, hinfo⟩ := Option.isSome_iff_exists.mp h
    have hown : ∀ overlay, ask (self.withCache overlay) (.basicRef address) =
        .ok (.basic (some info)) := by
      intro overlay
      simp only [ask, basicRef, withCache, hinfo]
      rfl
    rw [hown, hown]
  | codeByHashRef codeHash =>
    obtain ⟨code, hcode⟩ := Option.isSome_iff_exists.mp h
    have hown : ∀ overlay, ask (self.withCache overlay) (.codeByHashRef codeHash) =
        .ok (.codeByHash code) := by
      intro overlay
      simp only [ask, codeByHashRef, withCache, hcode]
      rfl
    rw [hown, hown]
  | storageRef address slot =>
    obtain ⟨s, hs, hidden⟩ := h
    have hown : ∀ overlay, ask (self.withCache overlay) (.storageRef address slot) =
        .ok (.storage ((s.map.lookup slot).getD 0)) := by
      intro overlay
      simp only [ask, storageRef, withCache, hs]
      rcases hidden with hflag | hslot
      · rw [if_pos hflag]
        rfl
      · obtain ⟨v, hv⟩ := Option.isSome_iff_exists.mp hslot
        rw [hv]
        split_ifs <;> rfl
    rw [hown, hown]
  | blockHashRef number => exact h.elim

lemma ForkDb.ask_inner {self : ForkDb (Handle Db ActiveDb)} {q : Query}
    (h : ¬self.AnswersAlone q) (overlay : OverlayCache) :
    ask (self.withCache overlay) q = ask (CachedHandle.mk self.innerDb overlay) q := by
  cases q with
  | basicRef address =>
    have hnone : self.basic.lookup address = none := by
      cases hlookup : self.basic.lookup address with
      | none => rfl
      | some info => exact absurd (show (self.basic.lookup address).isSome by rw [hlookup]; rfl) h
    simp only [ask, basicRef, withCache, hnone]
  | codeByHashRef codeHash =>
    have hnone : self.codeByHash.lookup codeHash = none := by
      cases hlookup : self.codeByHash.lookup codeHash with
      | none => rfl
      | some code =>
        exact absurd (show (self.codeByHash.lookup codeHash).isSome by rw [hlookup]; rfl) h
    simp only [ask, codeByHashRef, withCache, hnone]
  | storageRef address slot =>
    cases hs : self.storage.lookup address with
    | none => simp only [ask, storageRef, withCache, hs]
    | some s =>
      have hflag : ¬s.dontReadFromInnerDb = true := fun hflag => h ⟨s, hs, .inl hflag⟩
      have hslot : s.map.lookup slot = none := by
        cases hlookup : s.map.lookup slot with
        | none => rfl
        | some v => exact absurd ⟨s, hs, .inr (by rw [hlookup]; rfl)⟩ h
      simp only [ask, storageRef, withCache, hs, hslot]
      rw [if_neg hflag]
  | blockHashRef number => rfl

/-! ### Runs -/

namespace SharedOverlays

variable {it : Iteration} {w w' : SharedOverlays Db ActiveDb}
  {events : List (Event (Handle Db ActiveDb) TableKey TableValue)}

omit [DatabaseRef Db Err] [DatabaseRef ActiveDb ActiveErr] in
def cacheState (w : SharedOverlays Db ActiveDb) : State (Handle Db ActiveDb) TableKey TableValue :=
  ⟨w.overlay, w.fetching⟩

/-- What the overlays and forks do to the cache is what its readers and writers can do. -/
lemma Run.cache (h : Run it w events w') :
    SharedCache.Run Handle.entry w.cacheState events w'.cacheState := by
  induction h with
  | refl => exact .refl _
  | step _ hstep ih =>
    cases hstep with
    | miss hmem q hmiss => exact ih.step (.miss _ _ hmiss)
    | forkMiss hmem q hinner hmiss => exact ih.step (.miss _ _ hmiss)
    | put handle key hsplit => exact ih.step (.put _ _ hsplit)
    | write key value hsplit => exact ih.step (.write _ _)
    | evict key => exact ih.step (.drop _)
    | invalidateAll => exact ih.step .clear
    | commit | clone | createOverlay | replaceUnderlying | fork | forkClone | forkCommit =>
      rw [Option.toList_none, List.append_nil]
      exact ih

lemma Run.trans {w'' : SharedOverlays Db ActiveDb}
    {events' : List (Event (Handle Db ActiveDb) TableKey TableValue)} (h : Run it w events w')
    (h' : Run it w' events' w'') : Run it w (events ++ events') w'' := by
  induction h' with
  | refl =>
    rw [List.append_nil]
    exact h
  | step _ hstep ih =>
    rw [← List.append_assoc]
    exact ih.step hstep

/-- A read on its own is a run: it misses and puts what it found. -/
theorem query_run {handle : Handle Db ActiveDb} (h : handle ∈ w.handles) (q : Query) :
    ∃ events, Run it w events { w with overlay := handle.query w.overlay q } := by
  rw [handle.query_eq]
  unfold ReadThrough.fill
  cases hlookup : w.overlay.lookup q.key with
  | some value => exact ⟨[], .refl w⟩
  | none =>
    have hmissed : Run it w _ _ := (Run.refl w).step (.miss h q hlookup)
    exact ⟨_, hmissed.step (@Step.put _ _ _ _ _ _ _ _ [] w.fetching handle q.key rfl)⟩

/-- So is a commit: it makes its inserts one after the other. -/
theorem commit_run {handle : Handle Db ActiveDb} (h : handle ∈ w.handles) (changes : EvmState) :
    ∃ events w', Run it w events w' ∧ w'.overlay = commitAllToOverlay it w.overlay changes := by
  have hwrites : ∀ (writes : List (TableKey × TableValue)) (w : SharedOverlays Db ActiveDb) rest,
      w.committing = writes :: rest →
      ∃ events w', Run it w events w' ∧ w'.overlay = writeAll w.overlay writes := by
    intro writes
    induction writes with
    | nil => exact fun w rest _ => ⟨[], w, .refl w, rfl⟩
    | cons e writes ih =>
      intro w rest hcommitting
      have hfirst : Run it w _ _ := (Run.refl w).step
        (@Step.write _ _ _ _ _ _ it w [] rest writes e.1 e.2 hcommitting)
      obtain ⟨events, w', hrun, hoverlay⟩ := ih
        { w with overlay := w.overlay.insert e.1 e.2, committing := writes :: rest } rest rfl
      exact ⟨_, w', hfirst.trans hrun, hoverlay⟩
  rw [commitAllToOverlay_eq]
  have hstarted : Run it w _ _ := (Run.refl w).step (.commit h changes)
  obtain ⟨events, w', hrun, hoverlay⟩ := hwrites (commitWrites it changes)
    { w with committing := commitWrites it changes :: w.committing } w.committing rfl
  exact ⟨_, w', hstarted.trans hrun, hoverlay⟩

/-- A handle replies as with its own cache unless another database has filled the entry. -/
lemma ask_shared_iff (hrun : SharedCache.Run Handle.entry .start events w.cacheState)
    (handle : Handle Db ActiveDb) (q : Query) :
    ask (CachedHandle.mk handle w.overlay) q = ask (CachedHandle.mk handle (onlyWrites events)) q ↔
      ∀ handle', filler Handle.entry events q.key = some handle' →
        handle'.reply q = ask (CachedHandle.mk handle (onlyWrites events)) q := by
  have hlookup : w.overlay.lookup q.key = _ := hrun.lookup q.key
  have hwrites := @lookup_onlyWrites _ _ _ _ Handle.entry events q.key
  simp only [filler_eq_some_iff]
  cases horigin : origin Handle.entry events q.key with
  | none =>
    rw [horigin] at hlookup hwrites
    rw [ask_of_lookup_none handle hlookup, ask_of_lookup_none handle hwrites]
    simp
  | some o =>
    rw [horigin] at hlookup hwrites
    cases o with
    | written value =>
      rw [ask_of_lookup handle hlookup, ask_of_lookup handle hwrites]
      simp
    | filled handle' =>
      obtain ⟨value, hvalue⟩ := Option.isSome_iff_exists.mp (isSome_of_filled horigin)
      have hcached : w.overlay.lookup q.key = some value := hlookup.trans hvalue
      rw [ask_of_lookup handle hcached, ← Handle.reply_of_entry hvalue]
      simp

/-- However threads interleave, an overlay or a fork reads what it would read with the cache to
itself, under the same commits and evictions, exactly when the fork has the answer itself or the
entry was not put there by a read whose database answers otherwise. Such a read hides a commit only
if it missed before the commit inserted its value. -/
theorem shared_reads {handles : List (Handle Db ActiveDb)} (hrun : Run it (start handles) events w)
    (q : Query) :
    (∀ handle : Handle Db ActiveDb, ask (CachedHandle.mk handle w.overlay) q =
        ask (CachedHandle.mk handle (onlyWrites events)) q ↔
      ∀ handle', filler Handle.entry events q.key = some handle' →
        handle'.reply q = ask (CachedHandle.mk handle (onlyWrites events)) q) ∧
    (∀ fork : ForkDb (Handle Db ActiveDb),
      ask (fork.withCache w.overlay) q = ask (fork.withCache (onlyWrites events)) q ↔
        fork.AnswersAlone q ∨ ∀ handle', filler Handle.entry events q.key = some handle' →
          handle'.reply q = ask (CachedHandle.mk fork.innerDb (onlyWrites events)) q) ∧
    ∀ handle value, filler Handle.entry events q.key = some handle →
      (onlyWrites events).lookup q.key = some value →
      ∃ before between after,
        events = before ++ .miss handle q.key :: (between ++ .put handle q.key :: after) ∧
          .write q.key value ∈ between := by
  have hcache : SharedCache.Run Handle.entry .start events w.cacheState := hrun.cache
  refine ⟨fun handle => @ask_shared_iff _ _ _ _ _ _ w events hcache handle q, fun fork => ?_, ?_⟩
  · by_cases halone : fork.AnswersAlone q
    · exact iff_of_true (fork.ask_of_answersAlone halone _ _) (.inl halone)
    · rw [fork.ask_inner halone, fork.ask_inner halone, ask_shared_iff hcache fork.innerDb q,
        or_iff_right halone]
  · intro handle value hfilled hwritten
    exact hcache.raced hfilled hwritten

/-- A read of a slot misses, and a commit to the slot comes before it puts the old value. -/
theorem shared_reads_raced :
    ∃ events w, Run .buckets (start [(.overlayDb (some ()) : Handle Unit Unit)]) events w ∧
      (onlyWrites events).lookup (.storage 7 0) = some (.storage 5) ∧
      ¬ask (CachedHandle.mk (.activeOverlay () : Handle Unit Unit) w.overlay) (.storageRef 7 0) =
        .ok (.storage 5) := by
  have hrun : Run .buckets (start [(.overlayDb (some ()) : Handle Unit Unit)]) _ _ := .refl _
  have hrun := hrun.step (.miss (List.mem_singleton_self _) (.storageRef 7 0) rfl)
  have hrun := hrun.step (.commit (List.mem_singleton_self _)
    ((∅ : EvmState).insert 7 storedAccount))
  have hrun := hrun.step (@Step.write _ _ _ _ _ _ _ _ [] [] _ (.basic 7) (.basic .default) rfl)
  have hrun := hrun.step (@Step.write _ _ _ _ _ _ _ _ [] [] _ (.codeByHash _) (.codeByHash []) rfl)
  have hrun := hrun.step (@Step.write _ _ _ _ _ _ _ _ [] [] _ (.storage 7 0) (.storage 5) rfl)
  have hrun := hrun.step (@Step.put _ _ _ _ _ _ _ _ [] [] (.overlayDb (some ())) (.storage 7 0) rfl)
  refine ⟨_, _, hrun, rfl, ?_⟩
  have hreads := (shared_reads hrun (.storageRef 7 0)).1 (.activeOverlay ())
  intro hread
  have hfiller := hreads.mp hread (.overlayDb (some ())) rfl
  exact absurd hfiller (by decide)

end SharedOverlays

end AssertionExecution
