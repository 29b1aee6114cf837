import Daimonos.Framework.Text
import Daimonos.Framework.Transition
import Daimonos.Providers.Message
import Daimonos.Session.EventRouter
import Daimonos.Session.Protocol

namespace Daimonos.Store

open Framework Providers Session

def i64Max : Nat := 2 ^ 63 - 1

def byteLength (text : List Char) : Nat := (text.map Char.utf8Size).sum

def floorCharBoundary (remaining : Nat) : List Char → List Char
  | [] => []
  | c::rest =>
    if c.utf8Size ≤ remaining then c :: floorCharBoundary (remaining-c.utf8Size) rest else []

def pushWords (maxBytes : Nat) (preview : List Char) : List (List Char) → List Char
  | [] => preview
  | word::rest =>
    let separator := if preview.isEmpty then 0 else 1
    let remaining := maxBytes - byteLength preview
    if remaining ≤ separator then preview
    else
      let preview := if separator=1 then preview ++ [' '] else preview
      let remaining := maxBytes - byteLength preview
      let fitting := floorCharBoundary remaining word
      let preview := preview++fitting
      if byteLength fitting < byteLength word then preview else pushWords maxBytes preview rest

def normalizePreview (line : List Char) (maxBytes : Nat) : Option String :=
  let words := (line.splitOnP isWhitespace).filter fun word => !word.isEmpty
  let preview := pushWords maxBytes [] words
  if preview.isEmpty then none else some (String.ofList preview)

def textPreview (maxBytes : Nat) : ContentBlock → Option String
  | .text text => normalizePreview (text.toList.takeWhile fun c => c ≠ '\n') maxBytes
  | _ => none

def firstUserPreview (messages : List Message) (maxBytes : Nat) : Option String :=
  if maxBytes=0 then none
  else
    (messages.find? fun m => decide (m.role=.user)).bind fun m =>
      m.content.findSome? (textPreview maxBytes)

def sessionPersistVersion : Nat := 1

structure PersistedSession where
  version : Nat
  generation : Nat
  sessionId : String
  model : String
  thinking : Option String
  cwd : Option String
  clientUserMessageIds : List String
  assistantOutcomes : List AssistantOutcome
  messages : List Message
  deriving DecidableEq

inductive Payload where
  | json (record : PersistedSession)
  | corrupt
  deriving DecidableEq

inductive SessionStoreError where
  | unsafeId
  | alreadyExists
  | writerChanged (expected : Nat) (found : Option Nat)
  | notFound
  | futureVersion (found supported : Nat)
  | unsupportedVersion (found supported : Nat)
  | corrupt
  | database

def validatePersistedSession (record : PersistedSession) : Except SessionStoreError Unit :=
  if record.version > sessionPersistVersion then
    .error (.futureVersion record.version sessionPersistVersion)
  else if record.version ≠ sessionPersistVersion then
    .error (.unsupportedVersion record.version sessionPersistVersion)
  else .ok ()

def decodePersistedSession : Payload → Except SessionStoreError PersistedSession
  | .corrupt => .error .corrupt
  | .json record => do
    validatePersistedSession record
    return record

structure SessionRow where
  recordVersion : Nat
  generation : Nat
  payload : Payload
  model : String
  cwd : Option String
  messageCount : Nat
  preview : Option String
  updatedAtUnixNs : Nat
  deriving DecidableEq

def validId (id : String) : Bool :=
  !id.toList.isEmpty && id.toList.all fun c => c.isAlphanum || c = '-' || c = '_'

def Payload.names (id : String) : Payload → Prop
  | .json record => record.sessionId=id
  | .corrupt => True

/-- The `sessions` table: ids are safe, no row holds the record of another session, and there are no
more rows than row ids. -/
structure SessionTable where
  rows : AList fun _ : String => SessionRow
  safe : ∀ id row, rows.lookup id = some row → validId id = true
  named : ∀ id row, rows.lookup id = some row → row.payload.names id
  fits : rows.keys.length ≤ i64Max

namespace SessionTable

def empty : SessionTable where
  rows := ∅
  safe _ _ h := by cases h
  named _ _ h := by cases h
  fits := Nat.zero_le _

def get? (id : String) (t : SessionTable) : Option SessionRow := t.rows.lookup id

def put (id : String) (row : SessionRow) (hsafe : validId id = true) (hnamed : row.payload.names id)
    (t : SessionTable) : Option SessionTable :=
  if hroom : id∈t.rows ∨ t.rows.keys.length < i64Max then
    some
      { rows := t.rows.insert id row
        safe := by
          intro id' row' h
          by_cases hid : id'=id
          · rw [hid]
            exact hsafe
          · rw [AList.lookup_insert_ne hid] at h
            exact t.safe id' row' h
        named := by
          intro id' row' h
          by_cases hid : id'=id
          · subst hid
            rw [AList.lookup_insert] at h
            rw [← Option.some.inj h]
            exact hnamed
          · rw [AList.lookup_insert_ne hid] at h
            exact t.named id' row' h
        fits := by
          have hlength := t.fits
          rw [AList.keys_insert,List.length_cons]
          by_cases hmem : id∈t.rows
          · have hpos := List.length_pos_of_mem (AList.mem_keys.mp hmem)
            have herase := List.length_erase_of_mem (AList.mem_keys.mp hmem)
            omega
          · have herase := List.erase_of_not_mem (fun h => hmem (AList.mem_keys.mpr h))
            rw [herase]
            have := hroom.resolve_left hmem
            omega }
  else none

def delete (id : String) (t : SessionTable) : SessionTable where
  rows := t.rows.erase id
  safe id' row h := by
    by_cases hid : id'=id
    · rw [hid,AList.lookup_erase] at h
      cases h
    · rw [AList.lookup_erase_ne hid] at h
      exact t.safe id' row h
  named id' row h := by
    by_cases hid : id'=id
    · rw [hid,AList.lookup_erase] at h
      cases h
    · rw [AList.lookup_erase_ne hid] at h
      exact t.named id' row h
  fits := by
    rw [AList.keys_erase]
    exact Nat.le_trans (List.length_erase_le) t.fits

theorem get?_put {id : String} {row : SessionRow} {hsafe : validId id = true}
    {hnamed : row.payload.names id} {t t' : SessionTable} (h : t.put id row hsafe hnamed = some t')
    (id' : String) : t'.get? id' = if id'=id then some row else t.get? id' := by
  unfold put at h
  split_ifs at h
  cases h
  split_ifs with hid
  · rw [hid]
    exact AList.lookup_insert _
  · exact AList.lookup_insert_ne hid

theorem get?_delete (id id' : String) (t : SessionTable) :
    (t.delete id).get? id' = if id'=id then none else t.get? id' := by
  split_ifs with hid
  · rw [hid]
    exact AList.lookup_erase _ _
  · exact AList.lookup_erase_ne hid

end SessionTable

structure SessionWriter where
  sessionId : String
  epoch : String
  deriving DecidableEq

structure SessionSummary where
  id : String
  model : String
  messageCount : Nat
  cwd : Option String
  updatedAt : Option Nat
  firstUserLine : Option String

structure PersistedWrite where
  summary : SessionSummary
  updatedAtUnixNs : Nat

inductive SessionWriteOutcome where
  | saved (write : PersistedWrite)
  | stale (storedGeneration : Nat)
  | superseded

structure SessionContent where
  model : String
  thinking : Option String
  messages : List Message
  cwd : Option String
  clientUserMessageIds : List String
  assistantOutcomes : List AssistantOutcome
  deriving DecidableEq

/-- The two tables. Each operation below is one immediate transaction. -/
structure SessionStore where
  sessions : SessionTable
  writers : AList fun _ : String => String

namespace SessionStore

def empty : SessionStore := { sessions := .empty, writers := ∅ }

def generation? (id : String) (s : SessionStore) : Option Nat :=
  (s.sessions.get? id).map SessionRow.generation

def writerEpoch? (id : String) (s : SessionStore) : Option String := s.writers.lookup id

/-- `epoch` is the id drawn for this claim. -/
def claimWriter (sessionId : String) (expectedGeneration : Option Nat) (epoch : String)
    (s : SessionStore) : Except SessionStoreError (SessionWriter × SessionStore) :=
  if validId sessionId = false then .error .unsafeId
  else
    let claimed := { s with writers := s.writers.insert sessionId epoch }
    match expectedGeneration with
    | some expected =>
      if s.generation? sessionId ≠ some expected then
        .error (.writerChanged expected (s.generation? sessionId))
      else .ok ({ sessionId, epoch }, claimed)
    | none =>
      if (s.generation? sessionId).isSome then .error .alreadyExists
      else .ok ({ sessionId, epoch }, claimed)

def insertRecord (record : PersistedSession) (hsafe : validId record.sessionId = true)
    (preview : Option String) (updatedAtUnixNs : Nat) (s : SessionStore) :
    Except SessionStoreError SessionStore :=
  let row : SessionRow :=
    { recordVersion := record.version, generation := record.generation, payload := .json record,
      model := record.model, cwd := record.cwd, messageCount := record.messages.length, preview,
      updatedAtUnixNs }
  if record.generation > i64Max ∨ record.messages.length > i64Max ∨ updatedAtUnixNs > i64Max then
    .error .database
  else
    match s.sessions.put record.sessionId row hsafe rfl with
    | none => .error .database
    | some sessions => .ok { s with sessions }

def writeRecord (record : PersistedSession) (hsafe : validId record.sessionId = true)
    (maxPreviewBytes : Nat) (requestedGeneration : Option Nat) (writer : Option SessionWriter)
    (now : Nat) (s : SessionStore) : Except SessionStoreError (SessionWriteOutcome × SessionStore) :=
  let activeEpoch := s.writerEpoch? record.sessionId
  let epochMatches :=
    match writer with
    | some writer => decide (activeEpoch = some writer.epoch)
    | none => activeEpoch.isNone
  if epochMatches=false then .ok (.superseded, s)
  else
    let storedGeneration := s.generation? record.sessionId
    let generation :=
      requestedGeneration.getD (min (storedGeneration.getD 0 + 1) u64Max)
    if storedGeneration.any fun stored => decide (generation ≤ stored) then
      .ok (.stale (storedGeneration.getD 0), s)
    else
      let updatedAtUnixNs := min now u64Max
      let preview := firstUserPreview record.messages maxPreviewBytes
      match s.insertRecord { record with generation } hsafe preview updatedAtUnixNs with
      | .error error => .error error
      | .ok s =>
        let summary : SessionSummary :=
          { id := record.sessionId, model := record.model, messageCount := record.messages.length,
            cwd := record.cwd, updatedAt := some now, firstUserLine := preview }
        .ok (.saved { summary, updatedAtUnixNs }, s)

def recordOf (id : String) (generation : Nat) (content : SessionContent) : PersistedSession :=
  { version := sessionPersistVersion, generation, sessionId := id, model := content.model,
    thinking := content.thinking, cwd := content.cwd,
    clientUserMessageIds := content.clientUserMessageIds,
    assistantOutcomes := content.assistantOutcomes, messages := content.messages }

def saveRecord (id : String) (content : SessionContent) (now : Nat) (s : SessionStore) :
    Except SessionStoreError (SessionWriteOutcome × SessionStore) :=
  if hsafe : validId id = true then
    s.writeRecord (recordOf id 0 content) hsafe u64Max none none now
  else .error .unsafeId

/-- Save by the holder of an epoch, under a generation of its own. -/
def saveAcpGenerationResult (writer : SessionWriter) (generation : Nat) (content : SessionContent)
    (maxPreviewBytes now : Nat) (s : SessionStore) :
    Except SessionStoreError (SessionWriteOutcome × SessionStore) :=
  if hsafe : validId writer.sessionId = true then
    s.writeRecord (recordOf writer.sessionId generation content) hsafe maxPreviewBytes
      (some generation) (some writer) now
  else .error .unsafeId

/-- An import starts a lineage of its own, at generation one. -/
def importIfAbsent (record : PersistedSession) (maxPreviewBytes now : Nat) (s : SessionStore) :
    Except SessionStoreError SessionStore := do
  validatePersistedSession record
  if hsafe : validId record.sessionId = true then
    if (s.sessions.get? record.sessionId).isSome || (s.writerEpoch? record.sessionId).isSome then
      .error .alreadyExists
    else
      s.insertRecord { record with generation := 1 } hsafe
        (firstUserPreview record.messages maxPreviewBytes) (min now u64Max)
  else .error .unsafeId

def deleteUnconditionally (id : String) (s : SessionStore) : Bool × SessionStore :=
  if validId id = false then (false, s)
  else
    ((s.sessions.get? id).isSome,
      { sessions := s.sessions.delete id, writers := s.writers.erase id })

def deleteWriter (writer : SessionWriter) (s : SessionStore) : Option Bool × SessionStore :=
  if s.writerEpoch? writer.sessionId ≠ some writer.epoch then (none, s)
  else
    (some (s.sessions.get? writer.sessionId).isSome,
      { sessions := s.sessions.delete writer.sessionId,
        writers := s.writers.erase writer.sessionId })

def loadResult (id : String) (s : SessionStore) : Except SessionStoreError PersistedSession := do
  if validId id = false then throw .unsafeId
  match s.sessions.get? id with
  | none => throw .notFound
  | some row =>
    let record ← decodePersistedSession row.payload
    if record.sessionId≠id then throw .database
    return { record with generation := row.generation }

end SessionStore

end Daimonos.Store
