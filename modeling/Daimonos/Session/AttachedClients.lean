import Daimonos.Framework.Keyed
import Daimonos.Framework.Transition
import Daimonos.Session.Protocol

namespace Daimonos.Session

open Framework List

structure ClientAttachment where
  capabilities : List ClientCapability
  attachmentId : Nat

structure AttachedSession where
  clientId : String
  attachmentId : Nat
  deriving DecidableEq

/-- The clients of a session with the two counters of its approvals. `attached` are the attachments
handed out and not dropped; the ids are drawn from a counter of the daemon. -/
structure SessionEntry where
  clients : List (String × ClientAttachment) := []
  stopped : Bool := false
  approveOnceClients : Nat := 0
  approveAlwaysClients : Nat := 0
  nextAttachmentId : Nat := 0
  attached : List AttachedSession := []

inductive AttachError where
  | sessionStopped
  | duplicateClient (client : String)
  | clientLimitReached (max : Nat)

inductive ClientAction where
  | attach (client : String) (capabilities : List ClientCapability) (replaceExisting : Bool)
  | drop (attachment : AttachedSession)
  | elsewhere
  | stop
  | finishRemoved

namespace SessionEntry

variable {maxClients : Nat} {e e' : SessionEntry}

def holders (capability : ClientCapability) (e : SessionEntry) : Nat :=
  e.clients.countP fun c => decide (capability∈c.2.capabilities)

def setEligibleClientCounts (e : SessionEntry) : SessionEntry :=
  { e with
    approveOnceClients := e.holders .approveOnce
    approveAlwaysClients := e.holders .approveAlways }

/-- The lock on the clients spans the body. -/
def attachInternal (maxClients : Nat) (client : String) (capabilities : List ClientCapability)
    (replaceExisting : Bool) (e : SessionEntry) :
    Except AttachError (AttachedSession × SessionEntry) :=
  let present := (lookupKey client e.clients).isSome
  if e.stopped then .error .sessionStopped
  else if present && !replaceExisting then .error (.duplicateClient client)
  else if !present && decide (e.clients.length ≥ maxClients) then
    .error (.clientLimitReached maxClients)
  else
    let attachmentId := e.nextAttachmentId
    -- what the client had before is replaced
    let clients := insertKey client { capabilities, attachmentId } e.clients
    let attachment : AttachedSession := { clientId := client, attachmentId }
    .ok (attachment,
      { setEligibleClientCounts { e with clients } with
        nextAttachmentId := attachmentId+1, attached := attachment::e.attached })

def drop (attachment : AttachedSession) (e : SessionEntry) : SessionEntry :=
  let e := { e with attached := e.attached.erase attachment }
  if (lookupKey attachment.clientId e.clients).all fun client =>
      decide (client.attachmentId ≠ attachment.attachmentId) then e
  else setEligibleClientCounts { e with clients := removeKey attachment.clientId e.clients }

/-- `elsewhere` is an attachment to another session. A session that was stopped is taken out of the
daemon, and its clients are forgotten. -/
def step (maxClients : Nat) (e : SessionEntry) : ClientAction → Option SessionEntry
  | .attach client capabilities replaceExisting =>
    match e.attachInternal maxClients client capabilities replaceExisting with
    | .error _ => some e
    | .ok (_, e) => some e
  | .drop attachment => if attachment∈e.attached then some (e.drop attachment) else none
  | .elsewhere => some { e with nextAttachmentId := e.nextAttachmentId+1 }
  | .stop => some { e with stopped := true }
  | .finishRemoved => if e.stopped then some { e with clients := [] } else none

def system (maxClients : Nat) : System SessionEntry ClientAction :=
  { init := {}, step := step maxClients }

structure Counted (maxClients : Nat) (e : SessionEntry) : Prop where
  counts : e.stopped=false → e.approveOnceClients = e.holders .approveOnce ∧
    e.approveAlwaysClients = e.holders .approveAlways
  limit : e.clients.length ≤ maxClients
  keys : (e.clients.map Prod.fst).Nodup
  held : ∀ c∈e.clients, ⟨c.1,c.2.attachmentId⟩ ∈ e.attached
  fresh : ∀ attachment∈e.attached, attachment.attachmentId < e.nextAttachmentId
  distinct : e.attached.Nodup

namespace Counted

theorem attach (h : Counted maxClients e) {client : String} {capabilities : List ClientCapability}
    {replaceExisting : Bool} {attachment : AttachedSession}
    (hs : e.attachInternal maxClients client capabilities replaceExisting = .ok (attachment, e')) :
    Counted maxClients e' := by
  unfold attachInternal at hs
  dsimp only at hs
  split_ifs at hs with hstopped hduplicate hfull
  cases hs
  refine ⟨fun _ => ⟨rfl,rfl⟩,?_,?_,?_,?_,?_⟩
  · refine length_insertKey_le h.keys h.limit (fun hnone => ?_) _
    simpa [hnone] using hfull
  · exact nodup_insertKey h.keys client _
  · intro c hc
    rcases mem_insertKey.mp hc with rfl | ⟨hc,-⟩
    · exact mem_cons_self
    · exact mem_cons_of_mem _ (h.held c hc)
  · intro attachment hattachment
    rcases mem_cons.mp hattachment with rfl | hattachment
    · exact Nat.lt_succ_self _
    · exact (h.fresh attachment hattachment).trans (Nat.lt_succ_self _)
  · refine nodup_cons.mpr ⟨fun hmem => ?_,h.distinct⟩
    exact Nat.lt_irrefl _ (h.fresh _ hmem)

theorem drop (h : Counted maxClients e) (attachment : AttachedSession) :
    Counted maxClients (e.drop attachment) := by
  have hfresh : ∀ a ∈ e.attached.erase attachment, a.attachmentId < e.nextAttachmentId :=
    fun a ha => h.fresh a (mem_of_mem_erase ha)
  have hdistinct := h.distinct.erase attachment
  unfold SessionEntry.drop
  dsimp only
  split_ifs with hreplaced
  · refine ⟨h.counts,h.limit,h.keys,fun c hc => ?_,hfresh,hdistinct⟩
    refine (h.distinct.mem_erase_iff).mpr ⟨?_,h.held c hc⟩
    rintro rfl
    rw [lookupKey_of_mem h.keys (show (c.1, c.2) ∈ e.clients from hc)] at hreplaced
    simp at hreplaced
  · refine ⟨fun _ => ⟨rfl,rfl⟩,?_,nodup_removeKey h.keys,fun c hc => ?_,hfresh,hdistinct⟩
    · exact (length_removeKey_le _ _).trans h.limit
    · obtain ⟨hc,hne⟩ := mem_removeKey.mp hc
      refine (h.distinct.mem_erase_iff).mpr ⟨?_,h.held c hc⟩
      rintro rfl
      exact hne rfl

theorem step (h : Counted maxClients e) {a : ClientAction} (hs : e.step maxClients a = some e') :
    Counted maxClients e' := by
  cases a with
  | attach =>
    simp only [SessionEntry.step] at hs
    split at hs
    · cases hs
      exact h
    · rename_i hattach
      cases hs
      exact h.attach hattach
  | drop attachment =>
    simp only [SessionEntry.step,Option.ite_none_right_eq_some] at hs
    obtain ⟨-,hs⟩ := hs
    cases hs
    exact h.drop attachment
  | elsewhere =>
    cases hs
    exact ⟨h.counts,h.limit,h.keys,h.held,
      fun a ha => (h.fresh a ha).trans (Nat.lt_succ_self _),h.distinct⟩
  | stop =>
    cases hs
    exact ⟨nofun,h.limit,h.keys,h.held,h.fresh,h.distinct⟩
  | finishRemoved =>
    simp only [SessionEntry.step,Option.ite_none_right_eq_some] at hs
    obtain ⟨hstopped,hs⟩ := hs
    cases hs
    refine ⟨fun hnot => ?_,Nat.zero_le _,nodup_nil,nofun,h.fresh,h.distinct⟩
    exact absurd (hstopped.symm.trans hnot) nofun

theorem of_reaches (h : (system maxClients).Reaches (fun _ _ => True) e) : Counted maxClients e :=
  h.invariant
    ⟨fun _ => ⟨rfl,rfl⟩,Nat.zero_le _,nodup_nil,nofun,nofun,nodup_nil⟩
    fun _ _ _ he _ hs => he.step hs

end Counted

/-- What holds of the clients of a session. An attachment that is dropped takes away no client but
its own: not the one that has replaced it, and no other. -/
structure ClientsCounted (maxClients : Nat) (e : SessionEntry) : Prop where
  counts : e.stopped=false → e.approveOnceClients = e.holders .approveOnce ∧
    e.approveAlwaysClients = e.holders .approveAlways
  limit : e.clients.length ≤ maxClients
  current : ∀ c∈e.clients, ⟨c.1,c.2.attachmentId⟩ ∈ e.attached
  distinct : e.attached.Nodup
  successor : ∀ attachment∈e.attached, ∀ c∈e.clients,
    (⟨c.1,c.2.attachmentId⟩ : AttachedSession) ≠ attachment → c ∈ (e.drop attachment).clients

/-- However clients attach, are replaced and leave, the counts are those of the attached clients. -/
theorem clients_counted (h : (system maxClients).Reaches (fun _ _ => True) e) :
    ClientsCounted maxClients e := by
  have he := Counted.of_reaches h
  refine ⟨he.counts,he.limit,he.held,he.distinct,fun attachment _ c hc hne => ?_⟩
  unfold SessionEntry.drop
  dsimp only
  split_ifs with hreplaced
  · exact hc
  · refine mem_removeKey.mpr ⟨hc,fun heq => hreplaced ?_⟩
    rw [← heq,lookupKey_of_mem he.keys (show (c.1, c.2) ∈ e.clients from hc),Option.all_some,
      decide_eq_true_eq]
    rintro hid
    exact hne (by rw [heq,hid])

/-- A client attaches again with another capability before its first attachment is dropped. -/
def replacedThenDropped : List ClientAction :=
  [.attach "c" [.approveOnce] true, .attach "c" [.approveAlways] true, .drop ⟨"c",0⟩]

/-- An attachment is dropped after another has taken its place. -/
theorem clients_counted_replaced : ∃ e, (system 1).replay (fun _ _ => True)
      replacedThenDropped = some e ∧ e.approveAlwaysClients=1 ∧ ClientsCounted 1 e := by
  refine System.exists_replay_and (fun e => e.approveAlwaysClients=1) (by decide) ?_
  exact fun e hreach hcount => ⟨hcount,clients_counted hreach⟩

end SessionEntry

end Daimonos.Session
