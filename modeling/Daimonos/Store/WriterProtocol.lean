import Daimonos.Store.SessionStore

namespace Daimonos.Store

open Framework Providers Session List SessionStore Option

namespace SessionStore

variable {s s' : SessionStore}

structure Wrote (id : String) (row : SessionRow) (s s' : SessionStore) : Prop where
  rows : ∀ id', s'.sessions.get? id' = if id'=id then some row else s.sessions.get? id'
  writers : s'.writers=s.writers

variable {record : PersistedSession}

theorem of_insertRecord {hsafe : validId record.sessionId = true}
    {preview : Option String} {updatedAtUnixNs : Nat}
    (h : s.insertRecord record hsafe preview updatedAtUnixNs = .ok s') :
    ∃ row, row.generation = record.generation ∧ Wrote record.sessionId row s s' := by
  unfold insertRecord at h
  dsimp only at h
  split_ifs at h
  split at h
  · cases h
  next sessions hput =>
    cases h
    exact ⟨_,rfl,fun id' => SessionTable.get?_put hput id',rfl⟩

/-- The epoch a write needs: its own, or none to be in force. -/
def Entitled (writer : Option SessionWriter) (id : String) (s : SessionStore) : Prop :=
  s.writerEpoch? id = writer.map SessionWriter.epoch

/-- A write that is not refused meets the epoch in force and raises the generation. -/
theorem of_writeRecord {hsafe : validId record.sessionId = true}
    {maxPreviewBytes : Nat} {requestedGeneration : Option Nat} {writer : Option SessionWriter}
    {now : Nat} {outcome : SessionWriteOutcome}
    (h : s.writeRecord record hsafe maxPreviewBytes requestedGeneration writer now =
      .ok (outcome, s')) :
    ((∀ write, outcome ≠ .saved write) ∧ s'=s ∧
      (outcome=.superseded → ¬ Entitled writer record.sessionId s)) ∨
    (∃ write row, outcome = .saved write ∧ Entitled writer record.sessionId s ∧
      (∀ stored, s.generation? record.sessionId = some stored → stored < row.generation) ∧
      (∀ generation, requestedGeneration = some generation → row.generation=generation) ∧
      Wrote record.sessionId row s s') := by
  unfold writeRecord at h
  dsimp only at h
  split_ifs at h with hepoch hstale
  · cases h
    cases writer with
    | none => simpa [Entitled,isSome_iff_ne_none] using hepoch
    | some writer => simpa [Entitled] using hepoch
  · cases h
    exact Or.inl ⟨fun _ hsaved => (by cases hsaved),rfl,fun hsuperseded => (by cases hsuperseded)⟩
  · split at h
    · cases h
    next s'' hinsert =>
      cases h
      obtain ⟨row,hrow,hwrote⟩ := of_insertRecord hinsert
      refine Or.inr ⟨_,row,rfl,?_,?_,?_,hwrote⟩
      · cases writer with
        | none | some writer => simpa [Entitled] using hepoch
      · intro stored hstored
        rw [hrow]
        simpa [hstored] using hstale
      · intro generation hgeneration
        rw [hrow,hgeneration]
        rfl

theorem of_claimWriter {sessionId epoch : String} {expectedGeneration : Option Nat}
    {writer : SessionWriter}
    (h : s.claimWriter sessionId expectedGeneration epoch = .ok (writer, s')) :
    writer = ⟨sessionId,epoch⟩ ∧ s.generation? sessionId = expectedGeneration ∧
    s' = { s with writers := s.writers.insert sessionId epoch } := by
  unfold claimWriter at h
  cases expectedGeneration with
  | some expected =>
    dsimp only at h
    split_ifs at h with hsafe hgeneration
    cases h
    exact ⟨rfl,not_not.mp hgeneration,rfl⟩
  | none =>
    split_ifs at h with hsafe hgeneration
    cases h
    exact ⟨rfl,not_isSome_iff_eq_none.mp hgeneration,rfl⟩

theorem of_importIfAbsent {maxPreviewBytes now : Nat}
    (h : s.importIfAbsent record maxPreviewBytes now = .ok s') :
    s.sessions.get? record.sessionId = none ∧ s.writerEpoch? record.sessionId = none ∧
    ∃ row, row.generation=1 ∧ Wrote record.sessionId row s s' := by
  unfold importIfAbsent at h
  cases hvalid : validatePersistedSession record with
  | error error =>
    rw [hvalid] at h
    cases h
  | ok =>
    rw [hvalid] at h
    change (if hsafe : validId record.sessionId = true then _ else _) = _ at h
    split_ifs at h with hsafe hexists
    obtain ⟨row,hrow,hwrote⟩ := of_insertRecord h
    rw [Bool.or_eq_true,not_or] at hexists
    exact ⟨not_isSome_iff_eq_none.mp hexists.1,not_isSome_iff_eq_none.mp hexists.2,
      row,hrow,hwrote⟩

end SessionStore

/-- The store with the writers that were ever handed out. `issued` lists them in claim order;
`outdated` are those whose session has been claimed again or deleted since. -/
structure StoreRun where
  store : SessionStore
  issued : List SessionWriter
  outdated : List SessionWriter

inductive StoreAction where
  | claimWriter (sessionId : String) (expectedGeneration : Option Nat) (epoch : String)
  | save (id : String) (content : SessionContent) (now : Nat)
  | saveGeneration (writer : SessionWriter) (generation : Nat) (content : SessionContent)
      (maxPreviewBytes now : Nat)
  | importIfAbsent (record : PersistedSession) (maxPreviewBytes now : Nat)
  | deleteWriter (writer : SessionWriter)
  | deleteUnconditionally (id : String)

namespace StoreAction

def writer? : StoreAction → Option SessionWriter
  | .saveGeneration writer .. | .deleteWriter writer => some writer
  | _ => none

def writes? : StoreAction → Option String
  | .save id _ _ => some id
  | .saveGeneration writer .. => some writer.sessionId
  | .importIfAbsent record _ _ => some record.sessionId
  | _ => none

end StoreAction

namespace StoreRun

def row? (id : String) (run : StoreRun) : Option SessionRow := run.store.sessions.get? id

def holders (id : String) (run : StoreRun) : List SessionWriter :=
  run.issued.filter fun w => decide (w.sessionId=id)

def latest? (id : String) (run : StoreRun) : Option SessionWriter :=
  (run.holders id).getLast?

def written (run : StoreRun) :
    Except SessionStoreError (SessionWriteOutcome × SessionStore) → Bool × StoreRun
  | .ok (.saved _, store) => (true, { run with store })
  | .ok (_, store) => (false, { run with store })
  | .error _ => (false, run)

/-- One transaction: whether it succeeded, and the state after it. An epoch is drawn at random, so it
is none that was drawn before; writers come from claims. -/
def attempt (run : StoreRun) : StoreAction → Option (Bool × StoreRun)
  | .claimWriter sessionId expectedGeneration epoch =>
    if epoch ∈ run.issued.map SessionWriter.epoch then none
    else
      match run.store.claimWriter sessionId expectedGeneration epoch with
      | .error _ => some (false, run)
      | .ok (writer, store) =>
        some (true,
          { store, issued := run.issued ++ [writer],
            outdated := run.outdated ++ run.holders sessionId })
  | .save id content now => some (run.written (run.store.saveRecord id content now))
  | .saveGeneration writer generation content maxPreviewBytes now =>
    if writer∈run.issued then
      some (run.written
        (run.store.saveAcpGenerationResult writer generation content maxPreviewBytes now))
    else none
  | .importIfAbsent record maxPreviewBytes now =>
    match run.store.importIfAbsent record maxPreviewBytes now with
    | .error _ => some (false, run)
    | .ok store => some (true, { run with store })
  | .deleteWriter writer =>
    if writer∈run.issued then
      match run.store.deleteWriter writer with
      | (none, store) => some (false, { run with store })
      | (some _, store) =>
        some (true, { run with store, outdated := run.outdated ++ run.holders writer.sessionId })
    else none
  | .deleteUnconditionally id =>
    if validId id = false then some (false, run)
    else
      some (true,
        { run with
          store := (run.store.deleteUnconditionally id).2
          outdated := run.outdated ++ run.holders id })

def step (run : StoreRun) (action : StoreAction) : Option StoreRun :=
  (run.attempt action).map Prod.snd

def system : System StoreRun StoreAction :=
  { init := { store := .empty, issued := [], outdated := [] }, step }

/-- A write by `writer` to the row of `id`: it met the epoch in force and raised the generation. -/
structure Raised (writer : Option SessionWriter) (id : String) (row : SessionRow)
    (s s' : SessionStore) : Prop where
  entitled : s.Entitled writer id
  raised : ∀ old, s.sessions.get? id = some old → old.generation < row.generation
  wrote : s.Wrote id row s'

/-- All that a transaction can do. -/
inductive Effect (run : StoreRun) : StoreAction → Bool → StoreRun → Prop
  | refused (action : StoreAction) : Effect run action false run
  | claimed {id epoch : String} {expected : Option Nat}
      (fresh : epoch ∉ run.issued.map SessionWriter.epoch)
      (generation : run.store.generation? id = expected) :
      Effect run (.claimWriter id expected epoch) true
        { store := { run.store with writers := run.store.writers.insert id epoch },
          issued := run.issued ++ [⟨id,epoch⟩], outdated := run.outdated ++ run.holders id }
  | saved {id : String} {content : SessionContent} {now : Nat} {row : SessionRow}
      {store : SessionStore} (raised : Raised none id row run.store store) :
      Effect run (.save id content now) true { run with store }
  | savedBy {writer : SessionWriter} {generation : Nat} {content : SessionContent}
      {maxPreviewBytes now : Nat} {row : SessionRow} {store : SessionStore}
      (raised : Raised (some writer) writer.sessionId row run.store store) :
      Effect run (.saveGeneration writer generation content maxPreviewBytes now) true
        { run with store }
  | imported {record : PersistedSession} {maxPreviewBytes now : Nat} {row : SessionRow}
      {store : SessionStore} (absent : run.row? record.sessionId = none)
      (wrote : run.store.Wrote record.sessionId row store) :
      Effect run (.importIfAbsent record maxPreviewBytes now) true { run with store }
  | deletedBy {writer : SessionWriter}
      (held : run.store.writerEpoch? writer.sessionId = some writer.epoch) :
      Effect run (.deleteWriter writer) true
        { run with
          store :=
            { sessions := run.store.sessions.delete writer.sessionId,
              writers := run.store.writers.erase writer.sessionId }
          outdated := run.outdated ++ run.holders writer.sessionId }
  | deleted (id : String) :
      Effect run (.deleteUnconditionally id) true
        { run with
          store :=
            { sessions := run.store.sessions.delete id, writers := run.store.writers.erase id }
          outdated := run.outdated ++ run.holders id }

theorem written_cases (run : StoreRun) (record : PersistedSession)
    (hsafe : validId record.sessionId = true) (maxPreviewBytes : Nat)
    (requestedGeneration : Option Nat) (writer : Option SessionWriter) (now : Nat) :
    run.written (run.store.writeRecord record hsafe maxPreviewBytes requestedGeneration writer now) =
      (false, run) ∨
    ∃ row store,
      run.written
        (run.store.writeRecord record hsafe maxPreviewBytes requestedGeneration writer now) =
        (true, { run with store }) ∧ Raised writer record.sessionId row run.store store := by
  cases hwrite : run.store.writeRecord record hsafe maxPreviewBytes requestedGeneration writer now with
  | error error => exact Or.inl rfl
  | ok result =>
    obtain ⟨outcome,store⟩ := result
    rcases of_writeRecord hwrite with
      ⟨hnot,rfl,-⟩ | ⟨write,row,rfl,he,hraise,-,hwrote⟩
    · cases outcome with
      | saved write => exact absurd rfl (hnot write)
      | stale | superseded => exact Or.inl rfl
    · refine Or.inr ⟨row,store,rfl,he,fun old hold => hraise _ ?_,hwrote⟩
      rw [generation?,hold]
      rfl

variable {run run' : StoreRun}

theorem attempt_effect {action : StoreAction} {succeeded : Bool}
    (h : run.attempt action = some (succeeded, run')) : Effect run action succeeded run' := by
  cases action with
  | claimWriter id expected epoch =>
    simp only [attempt] at h
    split_ifs at h with hfresh
    cases hclaim : run.store.claimWriter id expected epoch with
    | error error =>
      rw [hclaim] at h
      cases h
      exact .refused _
    | ok result =>
      obtain ⟨writer,store⟩ := result
      obtain ⟨rfl,hgeneration,rfl⟩ := of_claimWriter hclaim
      rw [hclaim] at h
      cases h
      exact .claimed hfresh hgeneration
  | save id content now =>
    simp only [attempt,saveRecord] at h
    split_ifs at h with hsafe
    · rcases written_cases run (recordOf id 0 content) hsafe u64Max none none now with
        heq | ⟨row,store,heq,hraised⟩
      · rw [heq] at h
        cases h
        exact .refused _
      · rw [heq] at h
        cases h
        exact .saved hraised
    · cases h
      exact .refused _
  | saveGeneration writer generation content maxPreviewBytes now =>
    simp only [attempt,saveAcpGenerationResult] at h
    split_ifs at h with hissued hsafe
    · rcases written_cases run (recordOf writer.sessionId generation content) hsafe
        maxPreviewBytes (some generation) (some writer) now with heq | ⟨row,store,heq,hraised⟩
      · rw [heq] at h
        cases h
        exact .refused _
      · rw [heq] at h
        cases h
        exact .savedBy hraised
    · cases h
      exact .refused _
  | importIfAbsent record maxPreviewBytes now =>
    simp only [attempt] at h
    cases himport : run.store.importIfAbsent record maxPreviewBytes now with
    | error error =>
      rw [himport] at h
      cases h
      exact .refused _
    | ok store =>
      obtain ⟨habsent,-,row,-,hwrote⟩ := of_importIfAbsent himport
      rw [himport] at h
      cases h
      exact .imported habsent hwrote
  | deleteWriter =>
    simp only [attempt,deleteWriter] at h
    split_ifs at h with hissued hepoch
    · cases h
      exact .refused _
    · cases h
      exact .deletedBy (not_not.mp hepoch)
  | deleteUnconditionally id =>
    simp only [attempt,deleteUnconditionally] at h
    split_ifs at h
    · cases h
      exact .refused _
    · cases h
      exact .deleted id

/-- The epoch in force belongs to the latest writer, and every other writer is outdated. -/
structure EpochsOk (run : StoreRun) : Prop where
  latest : ∀ id epoch, run.store.writerEpoch? id = some epoch →
    run.latest? id = some ⟨id,epoch⟩ ∧ ⟨id,epoch⟩ ∉ run.outdated
  others : ∀ w∈run.issued, w∈run.outdated ∨ run.store.writerEpoch? w.sessionId = some w.epoch
  known : ∀ w∈run.outdated, w∈run.issued

theorem EpochsOk.congr (h : EpochsOk run)
    (hwriters : run'.store.writers = run.store.writers) (hissued : run'.issued=run.issued)
    (houtdated : run'.outdated=run.outdated) : EpochsOk run' := by
  have hepoch : ∀ id, run'.store.writerEpoch? id = run.store.writerEpoch? id := by
    intro id
    rw [writerEpoch?,hwriters]
    rfl
  have hlatest : ∀ id, run'.latest? id = run.latest? id := by
    intro id
    rw [latest?,holders,hissued]
    rfl
  refine ⟨fun id epoch he => ?_,fun w hw => ?_,fun w hw => ?_⟩
  · rw [hlatest,houtdated]
    exact h.latest id epoch (hepoch id ▸ he)
  · rw [houtdated,hepoch]
    exact h.others w (hissued ▸ hw)
  · rw [hissued]
    exact h.known w (houtdated ▸ hw)

theorem EpochsOk.deleted (h : EpochsOk run) (id : String)
    (hwriters : run'.store.writers = run.store.writers.erase id) (hissued : run'.issued=run.issued)
    (houtdated : run'.outdated = run.outdated ++ run.holders id) : EpochsOk run' := by
  have hepoch : ∀ id', run'.store.writerEpoch? id' =
      if id'=id then none else run.store.writerEpoch? id' := by
    intro id'
    rw [writerEpoch?,hwriters]
    split_ifs with hid
    · rw [hid,AList.lookup_erase]
    · exact AList.lookup_erase_ne hid
  have hlatest : ∀ id', run'.latest? id' = run.latest? id' := by
    intro id'
    rw [latest?,holders,hissued]
    rfl
  refine ⟨fun id' epoch he => ?_,fun w hw => ?_,fun w hw => ?_⟩
  · rw [hepoch] at he
    split_ifs at he with hid
    obtain ⟨hlast,hnot⟩ := h.latest id' epoch he
    refine ⟨(hlatest id').trans hlast,?_⟩
    rw [houtdated,mem_append,not_or]
    refine ⟨hnot,fun hmem => hid ?_⟩
    exact of_decide_eq_true (mem_filter.mp hmem).2
  · rw [hissued] at hw
    rw [houtdated,mem_append,hepoch]
    by_cases hid : w.sessionId=id
    · exact Or.inl (Or.inr (mem_filter.mpr ⟨hw,decide_eq_true hid⟩))
    · rw [if_neg hid]
      exact (h.others w hw).imp Or.inl fun he => he
  · rw [hissued]
    rw [houtdated] at hw
    rcases mem_append.mp hw with hold | hnew
    · exact h.known w hold
    · exact (mem_filter.mp hnew).1

theorem EpochsOk.claimed (h : EpochsOk run) {id epoch : String}
    (hfresh : epoch ∉ run.issued.map SessionWriter.epoch)
    (hwriters : run'.store.writers = run.store.writers.insert id epoch)
    (hissued : run'.issued = run.issued ++ [⟨id,epoch⟩])
    (houtdated : run'.outdated = run.outdated ++ run.holders id) : EpochsOk run' := by
  have hepoch : ∀ id', run'.store.writerEpoch? id' =
      if id'=id then some epoch else run.store.writerEpoch? id' := by
    intro id'
    rw [writerEpoch?,hwriters]
    split_ifs with hid
    · rw [hid,AList.lookup_insert]
    · exact AList.lookup_insert_ne hid
  have hholders : ∀ id', run'.holders id' =
      run.holders id' ++ if id'=id then [SessionWriter.mk id epoch] else [] := by
    intro id'
    rw [holders,hissued,filter_append]
    congr 1
    by_cases hid : id'=id
    · simp [hid]
    · simp [hid,Ne.symm hid]
  have hunissued : ∀ w : SessionWriter, w.epoch=epoch → w ∉ run.issued := by
    intro w hw hmem
    exact hfresh (hw ▸ mem_map_of_mem hmem)
  refine ⟨fun id' epoch' he => ?_,fun w hw => ?_,fun w hw => ?_⟩
  · rw [hepoch] at he
    rw [latest?,hholders,houtdated,mem_append,not_or]
    split_ifs at he ⊢ with hid
    · obtain rfl := some.inj he
      subst hid
      refine ⟨getLast?_concat,fun hold => ?_,fun hold => ?_⟩
      · exact hunissued _ rfl (h.known _ hold)
      · exact hunissued _ rfl (mem_filter.mp hold).1
    · obtain ⟨hlast,hnot⟩ := h.latest id' epoch' he
      rw [append_nil]
      exact ⟨hlast,hnot,fun hold => hid (of_decide_eq_true (mem_filter.mp hold).2)⟩
  · rw [hissued] at hw
    rw [houtdated,mem_append,hepoch]
    rcases mem_append.mp hw with hold | hnew
    · by_cases hid : w.sessionId=id
      · exact Or.inl (Or.inr (mem_filter.mpr ⟨hold,decide_eq_true hid⟩))
      · rw [if_neg hid]
        exact (h.others w hold).imp Or.inl fun he => he
    · obtain rfl := mem_singleton.mp hnew
      exact Or.inr (if_pos rfl)
  · rw [hissued,mem_append]
    rw [houtdated] at hw
    rcases mem_append.mp hw with hold | hnew
    · exact Or.inl (h.known w hold)
    · exact Or.inl (mem_filter.mp hnew).1

theorem EpochsOk.attempt {action : StoreAction} {succeeded : Bool}
    (h : EpochsOk run) (ha : run.attempt action = some (succeeded, run')) : EpochsOk run' := by
  cases attempt_effect ha with
  | refused => exact h
  | claimed fresh => exact h.claimed fresh rfl rfl rfl
  | saved raised | savedBy raised => exact h.congr raised.wrote.writers rfl rfl
  | imported absent wrote => exact h.congr wrote.writers rfl rfl
  | @deletedBy writer held => exact h.deleted writer.sessionId rfl rfl rfl
  | deleted id => exact h.deleted id rfl rfl rfl

theorem epochsOk_of_reaches (h : system.Reaches (fun _ _ => True) run) :
    EpochsOk run := by
  have hinit : EpochsOk system.init :=
    ⟨fun _ _ he => (by cases he),fun _ hw => (by cases hw),fun _ hw => (by cases hw)⟩
  refine h.invariant hinit ?_
  intro s action s' hs _ hstep
  obtain ⟨⟨succeeded,run'⟩,ha,rfl⟩ := map_eq_some_iff.mp hstep
  exact hs.attempt ha

theorem EpochsOk.outdated_of_none (h : EpochsOk run) {id : String}
    (hnone : run.store.writerEpoch? id = none) :
    ∀ w∈run.issued, w.sessionId=id → w∈run.outdated := by
  intro w hw hid
  refine (h.others w hw).resolve_right fun he => ?_
  rw [hid,hnone] at he
  cases he

theorem eq_of_wrote {id id' : String} {row row' : SessionRow} {store : SessionStore}
    (hwrote : run.store.Wrote id row store) (hold : run.row? id' = some row')
    (hne : StoreRun.row? id' { run with store } ≠ some row') : id'=id := by
  by_contra hid
  exact hne ((hwrote.rows id').trans ((if_neg hid).trans hold))

theorem eq_of_deleted {id id' : String} {row' : SessionRow} (hold : run.row? id' = some row')
    (hne : (run.store.sessions.delete id).get? id' ≠ some row') : id'=id := by
  by_contra hid
  exact hne ((SessionTable.get?_delete ..).trans ((if_neg hid).trans hold))

theorem Raised.generation_lt {writer : Option SessionWriter} {id : String} {row old new : SessionRow}
    {store : SessionStore} (h : Raised writer id row run.store store) (hold : run.row? id = some old)
    (hnew : StoreRun.row? id { run with store } = some new) : old.generation<new.generation := by
  obtain rfl := some.inj (((h.wrote.rows id).trans (if_pos rfl)).symm.trans hnew)
  exact h.raised old hold

/-- What each transaction keeps to. -/
structure WriterContract (run : StoreRun) (action : StoreAction) (succeeded : Bool)
    (run' : StoreRun) : Prop where
  /-- A successful write of an existing row raises its generation. -/
  raised : ∀ id old new, succeeded=true → action.writes? = some id → run.row? id = some old →
    run'.row? id = some new → old.generation<new.generation
  /-- A row changes or goes only by the holder of the latest claimed epoch, by an unconditional
  deletion, or by a save without an epoch while no epoch of the session is in force. -/
  held : ∀ id row, run.row? id = some row → run'.row? id ≠ some row →
    (∃ w, action.writer? = some w ∧ run.latest? id = some w) ∨
    action = .deleteUnconditionally id ∨
    ((∃ content now, action = .save id content now) ∧
      ∀ w∈run.issued, w.sessionId=id → w∈run.outdated)
  /-- A claim with an expected generation finds exactly that one. -/
  claimed : ∀ id expected epoch, action = .claimWriter id (some expected) epoch →
    succeeded=true → (run.row? id).map SessionRow.generation = some expected
  /-- A writer whose session has been claimed again or deleted since changes nothing; in particular
  its writes do not bring the session back. -/
  fenced : ∀ w∈run.outdated, action.writer? = some w → succeeded=false ∧ run'=run

/-- Whatever writers and administrators have done before, every transaction keeps the contract. -/
theorem attempt_contract {run run' : StoreRun} {action : StoreAction} {succeeded : Bool}
    (h : system.Reaches (fun _ _ => True) run) (ha : run.attempt action = some (succeeded, run')) :
    WriterContract run action succeeded run' := by
  have hok := epochsOk_of_reaches h
  -- the holder of the epoch in force is the latest writer, and not outdated
  have hholder : ∀ w : SessionWriter, run.store.writerEpoch? w.sessionId = some w.epoch →
      run.latest? w.sessionId = some w ∧ w ∉ run.outdated := fun w he => hok.latest _ _ he
  cases attempt_effect ha with
  | refused =>
    exact ⟨fun _ _ _ hs => (by cases hs),fun _ _ hrow hne => absurd hrow hne,
      fun _ _ _ _ hs => (by cases hs),fun _ _ _ => ⟨rfl,rfl⟩⟩
  | claimed fresh generation =>
    refine ⟨fun _ _ _ _ hw => (by cases hw),fun _ _ hrow hne => absurd hrow hne,?_,
      fun _ _ hw => (by cases hw)⟩
    intro id expected epoch heq _
    cases heq
    exact generation
  | @saved id content now row store raised =>
    refine ⟨fun id' old new _ hw hold hnew => ?_,fun id' row' hold hne => ?_,
      fun _ _ _ heq => (by cases heq),fun _ _ hw => (by cases hw)⟩
    · obtain rfl := Option.some.inj hw
      exact raised.generation_lt hold hnew
    · obtain rfl := eq_of_wrote raised.wrote hold hne
      exact Or.inr (Or.inr ⟨⟨content,now,rfl⟩,hok.outdated_of_none raised.entitled⟩)
  | @savedBy writer generation content maxPreviewBytes now row store raised =>
    obtain ⟨hlatest,hcurrent⟩ := hholder writer raised.entitled
    refine ⟨fun id' old new _ hw hold hnew => ?_,fun id' row' hold hne => ?_,
      fun _ _ _ heq => (by cases heq),fun w hw heq => ?_⟩
    · obtain rfl := Option.some.inj hw
      exact raised.generation_lt hold hnew
    · obtain rfl := eq_of_wrote raised.wrote hold hne
      exact Or.inl ⟨writer,rfl,hlatest⟩
    · obtain rfl := Option.some.inj heq
      exact absurd hw hcurrent
  | @imported record maxPreviewBytes now row store absent wrote =>
    refine ⟨fun id' old new _ hw hold _ => ?_,fun id' row' hold hne => ?_,
      fun _ _ _ heq => (by cases heq),fun _ _ hw => (by cases hw)⟩
    · obtain rfl := Option.some.inj hw
      rw [absent] at hold
      cases hold
    · rw [eq_of_wrote wrote hold hne,absent] at hold
      cases hold
  | @deletedBy writer held =>
    obtain ⟨hlatest,hcurrent⟩ := hholder writer held
    refine ⟨fun _ _ _ _ hw => (by cases hw),fun id' row' hold hne => ?_,
      fun _ _ _ heq => (by cases heq),fun w hw heq => ?_⟩
    · obtain rfl := eq_of_deleted hold hne
      exact Or.inl ⟨writer,rfl,hlatest⟩
    · obtain rfl := Option.some.inj heq
      exact absurd hw hcurrent
  | deleted =>
    refine ⟨fun _ _ _ _ hw => (by cases hw),fun id' row' hold hne => ?_,
      fun _ _ _ heq => (by cases heq),fun _ _ hw => (by cases hw)⟩
    obtain rfl := eq_of_deleted hold hne
    exact Or.inr (Or.inl rfl)

/-- A writer saves, another claims the session at that generation, and the first one saves again. -/
theorem attempt_contract_superseded :
    ∃ run run', system.replay (fun _ _ => True)
        [.claimWriter "s" none "e1", .saveGeneration ⟨"s","e1"⟩ 1 ⟨"m",none,[],none,[],[]⟩ 0 0,
          .claimWriter "s" (some 1) "e2"] = some run ∧
      run.attempt (.saveGeneration ⟨"s","e1"⟩ 2 ⟨"m",none,[],none,[],[]⟩ 0 0) =
        some (false, run') ∧
      WriterContract run (.saveGeneration ⟨"s","e1"⟩ 2 ⟨"m",none,[],none,[],[]⟩ 0 0) false
        run' := by
  obtain ⟨run,hrun,hreach,hfails⟩ := System.exists_of_replay system (fun _ _ => True)
    [.claimWriter "s" none "e1", .saveGeneration ⟨"s","e1"⟩ 1 ⟨"m",none,[],none,[],[]⟩ 0 0,
      .claimWriter "s" (some 1) "e2"]
    (fun run => (run.attempt (.saveGeneration ⟨"s","e1"⟩ 2 ⟨"m",none,[],none,[],[]⟩ 0 0)).map
      Prod.fst = some false) (by decide +kernel)
  obtain ⟨⟨_,run'⟩,hattempt,rfl⟩ := Option.map_eq_some_iff.mp hfails
  exact ⟨run,run',hrun,hattempt,attempt_contract hreach hattempt⟩

/-- The rule without the two exceptions: only the holder of the latest epoch touches a row. -/
def OnlyHolder (run : StoreRun) (action : StoreAction) (run' : StoreRun) : Prop :=
  ∀ id row, run.row? id = some row → run'.row? id ≠ some row →
    ∃ w, action.writer? = some w ∧ run.latest? id = some w

/-- An unconditional deletion breaks it although the session has a writer, and so does a save without
an epoch over a row that was saved without one. -/
theorem not_onlyHolder :
    (∃ run run', system.Reaches (fun _ _ => True) run ∧
      run.attempt (.deleteUnconditionally "s") = some (true, run') ∧
      ¬ OnlyHolder run (.deleteUnconditionally "s") run') ∧
    (∃ run run', system.Reaches (fun _ _ => True) run ∧
      run.attempt (.save "s" ⟨"m",none,[],none,[],[]⟩ 0) = some (true, run') ∧
      ¬ OnlyHolder run (.save "s" ⟨"m",none,[],none,[],[]⟩ 0) run') := by
  have hbroken : ∀ (acts : List StoreAction) (action : StoreAction), action.writer?=none →
      ((system.replay (fun _ _ => True) acts).bind fun run =>
        (run.attempt action).filter fun result =>
          result.1 && (run.row? "s").isSome && decide (result.2.row? "s" ≠ run.row? "s")).isSome =
        true →
      ∃ run run', system.Reaches (fun _ _ => True) run ∧
        run.attempt action = some (true, run') ∧ ¬ OnlyHolder run action run' := by
    intro acts action hwriter hsome
    obtain ⟨⟨succeeded,run'⟩,hresult⟩ := Option.isSome_iff_exists.mp hsome
    obtain ⟨run,hrun,hattempt⟩ := Option.bind_eq_some_iff.mp hresult
    obtain ⟨hattempt,hchecks⟩ := Option.filter_eq_some_iff.mp hattempt
    simp only [Bool.and_eq_true,decide_eq_true_eq] at hchecks
    obtain ⟨⟨rfl,hrow⟩,hchanged⟩ := hchecks
    obtain ⟨row,hrow⟩ := Option.isSome_iff_exists.mp hrow
    refine ⟨run,run',System.reaches_of_replay hrun,hattempt,fun honly => ?_⟩
    obtain ⟨w,hw,-⟩ := honly "s" row hrow (hrow ▸ hchanged)
    rw [hwriter] at hw
    cases hw
  exact ⟨hbroken [.claimWriter "s" none "e1",
      .saveGeneration ⟨"s","e1"⟩ 1 ⟨"m",none,[],none,[],[]⟩ 0 0] _ rfl (by decide +kernel),
    hbroken [.save "s" ⟨"m",none,[],none,[],[]⟩ 0] _ rfl (by decide +kernel)⟩

end StoreRun

end Daimonos.Store
