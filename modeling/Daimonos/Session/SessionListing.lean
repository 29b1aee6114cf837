import Mathlib
import Daimonos.Session.Protocol

namespace Daimonos.Session

open List

structure SessionWorkspace where
  id : String
  label : String

structure SessionListEntry where
  sessionId : String
  active : Bool
  attachedClients : Nat
  model : Option String := none
  updatedAtUnixMs : Option Nat := none
  preview : Option String := none
  messageCount : Option Nat := none
  turnStatus : Option TurnStatus := none
  deriving DecidableEq

/-- The `SessionList` answer of the protocol. -/
structure SessionList where
  requestId : String
  workspace : Option SessionWorkspace
  sessions : List SessionListEntry
  nextCursor : Option String
  incomplete : Bool

inductive ConnectionTrust where
  | localOwner
  | remotePaired

inductive SessionListPageError where
  | invalidCursor
  | capacityExceeded
  | tooLarge (message : String)
  deriving DecidableEq

/-- A connection's listing in progress; its `valid` flag is shared with the daemon and read at each
call. -/
structure ConnectionListingSnapshot where
  rows : List SessionListEntry
  offset : Nat
  expectedCursor : Option String
  expiresAt : Nat
  incomplete : Bool
  deriving DecidableEq

/-- The daemon's settings; `with_factory` makes the page size positive. -/
structure ListingConfig where
  sessionListPageSize : Nat
  sessionListSnapshotTtl : Nat
  workspaceIdentity : Option SessionWorkspace
  pageSize_pos : 0 < sessionListPageSize

/-- What one call finds: the rows (asked for only by a call without a cursor), the clock when the
snapshot is made and when it is checked, the shared flag, the id drawn for the next cursor, and the
transport's frame limit. -/
structure ListingEnv where
  listingRows : Except SessionListPageError (List SessionListEntry × Bool)
  createdAt : Nat
  now : Nat
  valid : Bool
  uuid : String
  maxFrameBytes : Nat

def renderListingRow (trust : ConnectionTrust) (row : SessionListEntry) : SessionListEntry :=
  match trust with
  | .localOwner => row
  | .remotePaired =>
    { row with
      model := none
      updatedAtUnixMs := none
      preview := none
      messageCount := none
      turnStatus := none }

def renderListingRows (rows : List SessionListEntry) (trust : ConnectionTrust) :
    List SessionListEntry :=
  rows.map (renderListingRow trust)

def SessionList.page (requestId : String) (workspace : Option SessionWorkspace)
    (sessions : List SessionListEntry) (remaining : Nat) (cursor : String) (incomplete : Bool)
    (n : Nat) : SessionList :=
  { requestId, workspace, incomplete
    sessions := sessions.take n
    nextCursor := if n < remaining then some cursor else none }

/-- The loop of `fit_session_list_to_frame` with `n` rows not popped yet; `encoded` is the length of
a message's encoding. -/
def fitRows (encoded : SessionList → Except String Nat) (page : Nat → SessionList)
    (maxFrameBytes n : Nat) : Except String (SessionList × Nat) :=
  match encoded (page n) with
  | .error error => .error s!"session list serialization failed: {error}"
  | .ok length =>
    if length ≤ maxFrameBytes then .ok (page n, n)
    else
      match n with
      | 0 | 1 =>
        .error s!"one session entry exceeds the configured {maxFrameBytes}-byte frame limit"
      | n+2 => fitRows encoded page maxFrameBytes (n+1)

def fitSessionListToFrame (encoded : SessionList → Except String Nat) (requestId : String)
    (workspace : Option SessionWorkspace) (sessions : List SessionListEntry) (remaining : Nat)
    (cursor : String) (maxFrameBytes : Nat) (incomplete : Bool) :
    Except String (SessionList × Nat) :=
  fitRows encoded (SessionList.page requestId workspace sessions remaining cursor incomplete)
    maxFrameBytes sessions.length

namespace ConnectionListingSnapshot

def nextPage (cfg : ListingConfig) (encoded : SessionList → Except String Nat) (env : ListingEnv)
    (requestId : String) (trust : ConnectionTrust) (listing : ConnectionListingSnapshot) :
    Except SessionListPageError SessionList × Option ConnectionListingSnapshot :=
  let finish := min (listing.offset + cfg.sessionListPageSize) listing.rows.length
  let rows :=
    renderListingRows ((listing.rows.drop listing.offset).take (finish-listing.offset)) trust
  let remaining := listing.rows.length - listing.offset
  let workspace :=
    match trust with
    | .localOwner => cfg.workspaceIdentity
    | .remotePaired => none
  match fitSessionListToFrame encoded requestId workspace rows remaining ("v1_" ++ env.uuid)
      env.maxFrameBytes listing.incomplete with
  | .error message => (.error (.tooLarge message), some listing)
  | .ok (message, sent) =>
    let listing :=
      { listing with offset := listing.offset+sent, expectedCursor := message.nextCursor }
    (.ok message, if listing.expectedCursor.isNone then none else some listing)

def accepts (env : ListingEnv) (cursor : Option String) (listing : ConnectionListingSnapshot) :
    Bool :=
  env.valid && decide (env.now < listing.expiresAt) &&
    (cursor.isNone || decide (listing.expectedCursor=cursor))

end ConnectionListingSnapshot

/-- A call reads on in the connection's listing, or gives it up. -/
def readListing (cfg : ListingConfig) (encoded : SessionList → Except String Nat)
    (env : ListingEnv) (requestId : String) (cursor : Option String) (trust : ConnectionTrust) :
    Option ConnectionListingSnapshot →
      Except SessionListPageError SessionList × Option ConnectionListingSnapshot
  | none => (.error .invalidCursor, none)
  | some listing =>
    if listing.accepts env cursor then listing.nextPage cfg encoded env requestId trust
    else (.error .invalidCursor, none)

def listSessionsForConnection (cfg : ListingConfig) (encoded : SessionList → Except String Nat)
    (env : ListingEnv) (requestId : String) (cursor : Option String) (trust : ConnectionTrust)
    (snapshot : Option ConnectionListingSnapshot) :
    Except SessionListPageError SessionList × Option ConnectionListingSnapshot :=
  match cursor with
  | some _ => readListing cfg encoded env requestId cursor trust snapshot
  | none =>
    match env.listingRows with
    | .error error => (.error error, snapshot)
    | .ok (rows, incomplete) =>
      readListing cfg encoded env requestId cursor trust (some
        { rows, incomplete
          offset := 0
          expectedCursor := none
          expiresAt := env.createdAt + cfg.sessionListSnapshotTtl })

/-- How a client's walk over the pages ends: with the last page, with a call that fails (the cursor
it used and what the connection keeps), or not within the calls counted. -/
inductive WalkEnd where
  | complete
  | failed (error : SessionListPageError) (cursor : Option String)
      (snapshot : Option ConnectionListingSnapshot)
  | unfinished
  deriving DecidableEq

/-- A client that follows `next_cursor`; call `i` is made in `env i`. -/
def followPages (cfg : ListingConfig) (encoded : SessionList → Except String Nat)
    (env : Nat → ListingEnv) (requestId : Nat → String) (trust : ConnectionTrust) :
    Nat → Nat → Option String → Option ConnectionListingSnapshot → List SessionList × WalkEnd
  | 0, _, _, _ => ([], .unfinished)
  | calls+1, i, cursor, snapshot =>
    match listSessionsForConnection cfg encoded (env i) (requestId i) cursor trust snapshot with
    | (.error error, snapshot) => ([], .failed error cursor snapshot)
    | (.ok page, snapshot) =>
      match page.nextCursor with
      | none => ([page], .complete)
      | some next =>
        let (pages, finish) :=
          followPages cfg encoded env requestId trust calls (i+1) (some next) snapshot
        (page::pages, finish)

section Fit

variable {encoded : SessionList → Except String Nat} {page : Nat → SessionList}
  {maxFrameBytes : Nat}

def Fits (encoded : SessionList → Except String Nat) (maxFrameBytes : Nat) (m : SessionList) :
    Prop :=
  ∃ length, encoded m = .ok length ∧ length ≤ maxFrameBytes

theorem fitRows_ok {n sent : Nat} {m : SessionList}
    (h : fitRows encoded page maxFrameBytes n = .ok (m, sent)) :
    m = page sent ∧ sent≤n ∧ (0<n → 0 < sent) ∧ Fits encoded maxFrameBytes m := by
  induction n using Nat.strong_induction_on with
  | _ n ih =>
    rw [fitRows.eq_def] at h
    split at h
    · cases h
    · rename_i length hlength
      split_ifs at h with hfits
      · cases h
        exact ⟨rfl,le_rfl,id,length,hlength,hfits⟩
      · split at h
        · cases h
        · cases h
        · rename_i k
          obtain ⟨hm,hle,hpos,hfits⟩ := ih (k+1) (by omega) h
          exact ⟨hm,by omega,fun _ => hpos (by omega),hfits⟩

theorem fitRows_error {n : Nat} {error : String}
    (h : fitRows encoded page maxFrameBytes n = .error error) :
    (∃ k e, encoded (page k) = .error e) ∨ ¬ Fits encoded maxFrameBytes (page (min 1 n)) := by
  induction n using Nat.strong_induction_on with
  | _ n ih =>
    rw [fitRows.eq_def] at h
    split at h
    · rename_i e he
      exact .inl ⟨n,e,he⟩
    · rename_i length hlength
      split_ifs at h with hfits
      have hunfit : ¬ Fits encoded maxFrameBytes (page n) := by
        rintro ⟨length',hlength',hle⟩
        rw [hlength] at hlength'
        cases hlength'
        exact hfits hle
      split at h
      · exact .inr hunfit
      · exact .inr hunfit
      · rename_i k
        rcases ih (k+1) (by omega) h with herror | hone
        · exact .inl herror
        · right
          rwa [show min 1 (k+2) = min 1 (k+1) by omega]

end Fit

section Walk

variable {cfg : ListingConfig} {encoded : SessionList → Except String Nat} {env : ListingEnv}
  {requestId : String} {trust : ConnectionTrust} {listing : ConnectionListingSnapshot}
  {snapshot : Option ConnectionListingSnapshot}

/-- The page with one row of what is left, or with none if nothing is. -/
def ConnectionListingSnapshot.onePage (cfg : ListingConfig) (env : ListingEnv) (requestId : String)
    (trust : ConnectionTrust) (listing : ConnectionListingSnapshot) : SessionList :=
  { requestId
    workspace :=
      match trust with
      | .localOwner => cfg.workspaceIdentity
      | .remotePaired => none
    sessions := renderListingRows ((listing.rows.drop listing.offset).take 1) trust
    nextCursor :=
      if 1 < listing.rows.length - listing.offset then some ("v1_" ++ env.uuid) else none
    incomplete := listing.incomplete }

open ConnectionListingSnapshot

/-- A page that is sent takes up where the listing stands, and the listing moves on by just what was
sent. -/
theorem nextPage_ok {m : SessionList} (hoffset : listing.offset ≤ listing.rows.length)
    (h : listing.nextPage cfg encoded env requestId trust = (.ok m, snapshot)) :
    ∃ sent, m.sessions = renderListingRows ((listing.rows.drop listing.offset).take sent) trust ∧
      listing.offset+sent ≤ listing.rows.length ∧
      (listing.offset < listing.rows.length → 0 < sent) ∧
      Fits encoded env.maxFrameBytes m ∧
      (m.nextCursor=none ∧ listing.offset+sent=listing.rows.length ∨
        ∃ next, m.nextCursor = some next ∧ listing.offset+sent < listing.rows.length ∧
          snapshot=some
            { listing with offset := listing.offset+sent, expectedCursor := some next }) := by
  have hpos := cfg.pageSize_pos
  simp only [nextPage,fitSessionListToFrame] at h
  split at h
  · cases h
  · rename_i message sent hfit
    obtain ⟨hm,hsent,hsome,hfits⟩ := fitRows_ok hfit
    simp only [renderListingRows,length_map,length_take,length_drop] at hsent hsome
    cases h
    refine ⟨sent,?_,by omega,fun hlt => hsome (by omega),hfits,?_⟩
    · rw [hm]
      simp only [SessionList.page,renderListingRows,← map_take,take_take]
      rw [Nat.min_eq_left (by omega)]
    · have hnext : m.nextCursor =
          if sent < listing.rows.length - listing.offset then some ("v1_" ++ env.uuid)
          else none := by
        rw [hm,SessionList.page]
      by_cases hmore : sent < listing.rows.length - listing.offset
      · rw [if_pos hmore] at hnext
        refine .inr ⟨_,hnext,by omega,?_⟩
        simp [hnext]
      · rw [if_neg hmore] at hnext
        exact .inl ⟨hnext,by omega⟩

theorem nextPage_error {error : SessionListPageError}
    (hoffset : listing.offset ≤ listing.rows.length)
    (h : listing.nextPage cfg encoded env requestId trust = (.error error, snapshot)) :
    snapshot = some listing ∧ (∃ message, error = .tooLarge message) ∧
      ((∃ m e, encoded m = .error e) ∨
        ¬ Fits encoded env.maxFrameBytes (listing.onePage cfg env requestId trust)) := by
  have hpos := cfg.pageSize_pos
  simp only [nextPage,fitSessionListToFrame] at h
  split at h
  · rename_i message hfit
    cases h
    refine ⟨rfl,⟨message,rfl⟩,?_⟩
    rcases fitRows_error hfit with ⟨k,e,he⟩ | hunfit
    · exact .inl ⟨_,e,he⟩
    · right
      convert hunfit using 2
      simp only [onePage,SessionList.page,renderListingRows,
        length_map,length_take,length_drop,← map_take,take_take]
      by_cases hleft : listing.offset < listing.rows.length
      · have hone : min 1 (min (min (listing.offset + cfg.sessionListPageSize) listing.rows.length -
            listing.offset) (listing.rows.length - listing.offset)) = 1 := by omega
        rw [hone,Nat.min_eq_left (by omega)]
      · have hnone : listing.rows.length-listing.offset=0 := by omega
        have hdrop : listing.rows.drop listing.offset = [] := by
          rw [drop_eq_nil_iff]
          omega
        simp [hnone,hdrop]
  · cases h

end Walk

section Follow

variable {cfg : ListingConfig} {encoded : SessionList → Except String Nat}
  {env : Nat → ListingEnv} {requestId : Nat → String} {trust : ConnectionTrust}

/-- What a walk over `listing`, with call `i` as its first, has delivered when it ends: `sent` rows
from where the listing stood. A page that was too large leaves the listing after those rows, waiting
for the cursor that was used. -/
structure Walked (cfg : ListingConfig) (encoded : SessionList → Except String Nat)
    (env : Nat → ListingEnv) (requestId : Nat → String) (trust : ConnectionTrust)
    (listing : ConnectionListingSnapshot) (i sent : Nat) (pages : List SessionList)
    (finish : WalkEnd) : Prop where
  rows : pages.flatMap SessionList.sessions =
    renderListingRows ((listing.rows.drop listing.offset).take sent) trust
  within : listing.offset+sent ≤ listing.rows.length
  nonempty : listing.offset < listing.rows.length → ∀ page∈pages, page.sessions ≠ []
  fits : ∀ k page, pages[k]? = some page → Fits encoded (env (i+k)).maxFrameBytes page
  finish :
    match finish with
    | .complete => listing.offset+sent=listing.rows.length
    | .failed (.tooLarge _) cursor snapshot =>
      let kept := { listing with offset := listing.offset+sent, expectedCursor := cursor }
      let last := i+pages.length
      snapshot = some kept ∧
        ((∃ m e, encoded m = .error e) ∨
          ¬ Fits encoded (env last).maxFrameBytes
            (kept.onePage cfg (env last) (requestId last) trust))
    | .failed .invalidCursor _ _ =>
      (env (i+pages.length)).valid = false ∨
        listing.expiresAt ≤ (env (i+pages.length)).now
    | .failed .capacityExceeded _ _ | .unfinished => False

theorem Walked.cons {listing : ConnectionListingSnapshot} {i first sent : Nat} {m : SessionList}
    {pages : List SessionList} {finish : WalkEnd} {next : String} (hsessions : m.sessions =
      renderListingRows ((listing.rows.drop listing.offset).take first) trust)
    (hfirst : 0<first) (hmore : listing.offset+first < listing.rows.length)
    (hfits : Fits encoded (env i).maxFrameBytes m)
    (h : Walked cfg encoded env requestId trust
      { listing with offset := listing.offset+first, expectedCursor := some next } (i+1) sent
      pages finish) :
    Walked cfg encoded env requestId trust listing i (first+sent) (m::pages) finish := by
  have hlast : i + (m::pages).length = i+1+pages.length := by
    rw [length_cons]
    omega
  refine ⟨?_,?_,?_,?_,?_⟩
  · rw [flatMap_cons,hsessions,h.rows,renderListingRows,renderListingRows,
      renderListingRows,← map_append,← drop_drop,take_add]
  · have hwithin := h.within
    dsimp only at hwithin
    omega
  · intro _ page hpage
    rcases mem_cons.mp hpage with rfl | hpage
    · rw [hsessions,renderListingRows,Ne,map_eq_nil_iff,take_eq_nil_iff,drop_eq_nil_iff]
      omega
    · exact h.nonempty hmore page hpage
  · intro k page hk
    cases k with
    | zero =>
      cases hk
      exact hfits
    | succ k =>
      rw [Nat.add_comm k 1,← Nat.add_assoc]
      exact h.fits k page hk
  · rw [hlast,← Nat.add_assoc]
    exact h.finish

theorem walked_of_call {calls : Nat} (i : Nat) (listing : ConnectionListingSnapshot)
    (snapshot : Option ConnectionListingSnapshot) (hoffset : listing.offset ≤ listing.rows.length)
    (hcalls : listing.rows.length - listing.offset < calls)
    (hcall : listSessionsForConnection cfg encoded (env i) (requestId i) listing.expectedCursor
        trust snapshot =
      readListing cfg encoded (env i) (requestId i) listing.expectedCursor trust (some listing)) :
    ∃ sent, Walked cfg encoded env requestId trust listing i sent
      (followPages cfg encoded env requestId trust calls i listing.expectedCursor snapshot).1
      (followPages cfg encoded env requestId trust calls i listing.expectedCursor snapshot).2 := by
  -- Induction on the calls that are left: every page but an only one moves the offset.
  induction calls generalizing i listing snapshot with
  | zero => omega
  | succ calls ih =>
    simp only [followPages,hcall,readListing]
    by_cases haccepts : listing.accepts (env i) listing.expectedCursor = true
    · rw [if_pos haccepts]
      cases hpage : listing.nextPage cfg encoded (env i) (requestId i) trust with
      | mk answer snapshot' =>
        cases answer with
        | error error =>
          obtain ⟨hsnapshot,⟨message,rfl⟩,hunfit⟩ := nextPage_error hoffset hpage
          exact ⟨0,by simp [renderListingRows],by simpa using hoffset,by simp,by simp,
            hsnapshot,hunfit⟩
        | ok m =>
          obtain ⟨sent,hsessions,hwithin,hpos,hfits,hnext⟩ := nextPage_ok hoffset hpage
          rcases hnext with ⟨hnone,hend⟩ | ⟨next,hnext,hmore,hsnapshot⟩
          · dsimp only
            rw [hnone]
            refine ⟨sent,by simpa using hsessions,hwithin,?_,?_,hend⟩
            · intro hlt page hin
              obtain rfl := mem_singleton.mp hin
              rw [hsessions,renderListingRows,Ne,map_eq_nil_iff,take_eq_nil_iff,
                drop_eq_nil_iff]
              omega
            · intro k page hk
              cases k with
              | zero =>
                cases hk
                exact hfits
              | succ k => cases hk
          · have hsent : 0 < sent := hpos (by omega)
            let after : ConnectionListingSnapshot :=
              { listing with offset := listing.offset+sent, expectedCursor := some next }
            have hleft : after.rows.length-after.offset < calls := by
              show listing.rows.length - (listing.offset+sent) < calls
              omega
            dsimp only
            rw [hnext,hsnapshot]
            obtain ⟨rest,hrest⟩ := ih (i+1) after (some after) hmore.le hleft rfl
            exact ⟨sent+rest,hrest.cons hsessions hsent hmore hfits⟩
    · rw [if_neg haccepts]
      refine ⟨0,by simp [renderListingRows],by simpa using hoffset,by simp,by simp,?_⟩
      simp only [ConnectionListingSnapshot.accepts,decide_true,Bool.or_true,Bool.and_true,
        Bool.and_eq_true,decide_eq_true_eq,not_and_or,Bool.not_eq_true,Nat.not_lt] at haccepts
      exact haccepts

/-- From the first page on, a client that follows the cursors receives the rows of the snapshot in
order and each once, in pages that fit their frames and are not empty while there are rows, after
at most one call for each row; a page that is too large keeps the position. A cursor other than
the one last issued is refused. -/
theorem listing_walk {rows : List SessionListEntry} {incomplete : Bool}
    (hrows : (env 0).listingRows = .ok (rows, incomplete))
    (old : Option ConnectionListingSnapshot) :
    (∃ sent, Walked cfg encoded env requestId trust
      { rows, incomplete
        offset := 0
        expectedCursor := none
        expiresAt := (env 0).createdAt + cfg.sessionListSnapshotTtl } 0 sent
      (followPages cfg encoded env requestId trust (rows.length+1) 0 none old).1
      (followPages cfg encoded env requestId trust (rows.length+1) 0 none old).2) ∧
    ∀ (now : ListingEnv) (id cursor : String) (snapshot : Option ConnectionListingSnapshot),
      snapshot.bind (fun listing => listing.expectedCursor) ≠ some cursor →
      listSessionsForConnection cfg encoded now id (some cursor) trust snapshot =
        (.error .invalidCursor, none) := by
  refine ⟨?_,?_⟩
  · refine walked_of_call 0 _ old (Nat.zero_le _) (Nat.lt_succ_self _) ?_
    simp only [listSessionsForConnection,hrows]
  · intro now id cursor snapshot hcursor
    cases snapshot with
    | none => rfl
    | some listing =>
      have hrefused : listing.accepts now (some cursor) = false := by
        simp only [Option.bind_some] at hcursor
        simp [ConnectionListingSnapshot.accepts,hcursor]
      simp [listSessionsForConnection,readListing,hrefused]

def steadyListing (rows : List SessionListEntry) (maxFrameBytes : Nat) : Nat → ListingEnv :=
  fun _ =>
    { listingRows := .ok (rows, false)
      createdAt := 0
      now := 1
      valid := true
      uuid := "4f1c"
      maxFrameBytes }

/-- Three rows of which a frame holds two come in two pages. -/
theorem listing_walk_twoPages :
    ∃ (cfg : ListingConfig) (rows : List SessionListEntry),
      (followPages cfg (fun m => .ok (100*m.sessions.length)) (steadyListing rows 250)
        (fun _ => "list") .localOwner (rows.length+1) 0 none none).2 = .complete ∧
      ∃ sent, Walked cfg (fun m => .ok (100*m.sessions.length)) (steadyListing rows 250)
        (fun _ => "list") .localOwner
        { rows, offset := 0, expectedCursor := none, incomplete := false
          expiresAt := 0+cfg.sessionListSnapshotTtl } 0 sent
        (followPages cfg (fun m => .ok (100*m.sessions.length)) (steadyListing rows 250)
          (fun _ => "list") .localOwner (rows.length+1) 0 none none).1
        (followPages cfg (fun m => .ok (100*m.sessions.length)) (steadyListing rows 250)
          (fun _ => "list") .localOwner (rows.length+1) 0 none none).2 := by
  let cfg : ListingConfig :=
    { sessionListPageSize := 5
      sessionListSnapshotTtl := 60
      workspaceIdentity := none
      pageSize_pos := by decide }
  let rows : List SessionListEntry :=
    ["session-a", "session-b", "session-c"].map fun sessionId =>
      { sessionId, active := true, attachedClients := 0 }
  exact ⟨cfg,rows,by decide +kernel,(listing_walk rfl none).1⟩

end Follow

end Daimonos.Session
