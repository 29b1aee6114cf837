import Daimonos.Remote.RegistryInvariants

namespace Daimonos.Remote

open Daimonos.Framework Daimonos.Session List

/-- The ticket of the device's most recent approval, if no revocation has come after it; the log is
newest first. -/
def currentApproval (deviceId : String) : List AccessEvent → Option String
  | [] => none
  | .approved _ grant :: rest =>
    if grant.deviceId=deviceId then some grant.ticket else currentApproval deviceId rest
  | .revoked d :: rest => if d=deviceId then none else currentApproval deviceId rest
  | .claimCreated .. :: rest | .submitted .. :: rest | .finished _ :: rest
  | .authenticated .. :: rest => currentApproval deviceId rest

/-- No approval of the device since a pairing of it was last finished. -/
def settled (deviceId : String) : List AccessEvent → Bool
  | [] => true
  | .approved _ grant :: rest => decide (grant.deviceId≠deviceId) && settled deviceId rest
  | .finished grant :: rest => decide (grant.deviceId=deviceId) || settled deviceId rest
  | .claimCreated .. :: rest | .submitted .. :: rest | .revoked _ :: rest
  | .authenticated .. :: rest => settled deviceId rest

/-- The ticket is that of the device's most recent approval, which no revocation has followed and
which has been finished. -/
def Latest (deviceId ticket : String) (log : List AccessEvent) : Prop :=
  ∃ since before request grant, log = since ++ .approved request grant :: before ∧
    grant.deviceId=deviceId ∧ grant.ticket=ticket ∧
    (∀ request' grant', .approved request' grant' ∈ since → grant'.deviceId≠deviceId) ∧
    .revoked deviceId ∉ since ∧
    ∃ grant', .finished grant' ∈ since ∧ grant'.deviceId=deviceId ∧ grant'.ticket=ticket

section Log

variable {deviceId ticket : String} {log : List AccessEvent}

/-- An approval that is current stands in the log, with no approval and no revocation after it. -/
theorem split_of_currentApproval (h : currentApproval deviceId log = some ticket) :
    ∃ since before request grant, log = since ++ .approved request grant :: before ∧
      grant.deviceId=deviceId ∧ grant.ticket=ticket ∧
      (∀ request' grant', .approved request' grant' ∈ since → grant'.deviceId≠deviceId) ∧
      .revoked deviceId ∉ since := by
  induction log with
  | nil => cases h
  | cons e rest ih =>
    have hskip : currentApproval deviceId rest = some ticket →
        (∀ request' grant', e = .approved request' grant' → grant'.deviceId≠deviceId) →
        e ≠ .revoked deviceId →
        ∃ since before request grant, e::rest = since ++ .approved request grant :: before ∧
          grant.deviceId=deviceId ∧ grant.ticket=ticket ∧
          (∀ request' grant', .approved request' grant' ∈ since →
            grant'.deviceId≠deviceId) ∧
          .revoked deviceId ∉ since := by
      intro hrest happroved hrevoked
      obtain ⟨since,before,request,grant,rfl,hdevice,hticket,hsince,hkept⟩ := ih hrest
      refine ⟨e::since,before,request,grant,rfl,hdevice,hticket,?_,?_⟩
      · intro request' grant' he
        rcases mem_cons.mp he with he | he
        · exact happroved request' grant' he.symm
        · exact hsince request' grant' he
      · rw [mem_cons,not_or]
        exact ⟨hrevoked.symm,hkept⟩
    cases e with
    | approved request grant =>
      rw [currentApproval] at h
      split_ifs at h with hdevice
      · exact ⟨[],rest,request,grant,rfl,hdevice,Option.some.inj h,by simp,by simp⟩
      · refine hskip h ?_ (by simp)
        intro request' grant' heq
        cases heq
        exact hdevice
    | revoked d =>
      rw [currentApproval] at h
      split_ifs at h with hd
      exact hskip h (by simp) fun heq => hd (AccessEvent.revoked.inj heq)
    | claimCreated | submitted | finished | authenticated =>
      exact hskip h (by simp) (by simp)

theorem currentApproval_of_latest (h : Latest deviceId ticket log) :
    currentApproval deviceId log = some ticket := by
  obtain ⟨since,before,request,grant,rfl,hdevice,hticket,hsince,hkept,-⟩ := h
  induction since with
  | nil => rw [nil_append,currentApproval,if_pos hdevice,hticket]
  | cons e rest ih =>
    rw [mem_cons,not_or] at hkept
    have ih' := ih (fun r g he => hsince r g (mem_cons_of_mem e he)) hkept.2
    cases e with
    | approved request' grant' =>
      rw [cons_append,currentApproval,if_neg (hsince request' grant' mem_cons_self)]
      exact ih'
    | revoked d =>
      have hd : d≠deviceId := fun heq => hkept.1 (congrArg _ heq.symm)
      rw [cons_append,currentApproval,if_neg hd]
      exact ih'
    | claimCreated | submitted | finished | authenticated => exact ih'

/-- Once settled, the device has no approval after its last finished pairing. -/
theorem not_approved_of_settled {since before : List AccessEvent} {grant : TicketGrant}
    (h : settled deviceId (since ++ .finished grant :: before) = true)
    (hsince : ∀ grant', .finished grant' ∈ since → grant'.deviceId≠deviceId) :
    ∀ request' grant', .approved request' grant' ∈ since → grant'.deviceId≠deviceId := by
  induction since with
  | nil => simp
  | cons e rest ih =>
    have hrest : ∀ grant', .finished grant' ∈ rest → grant'.deviceId≠deviceId :=
      fun g he => hsince g (mem_cons_of_mem e he)
    intro request' grant' he
    cases e with
    | approved r g =>
      rw [cons_append,settled,Bool.and_eq_true,decide_eq_true_eq] at h
      rcases mem_cons.mp he with he | he
      · cases he
        exact h.1
      · exact ih h.2 hrest request' grant' he
    | finished g =>
      have hg := hsince g mem_cons_self
      rw [cons_append,settled,decide_eq_false hg,Bool.false_or] at h
      exact ih h hrest request' grant' ((mem_cons.mp he).resolve_left (by simp))
    | claimCreated | submitted | revoked | authenticated =>
      exact ih h hrest request' grant' ((mem_cons.mp he).resolve_left (by simp))

/-- The ticket was installed by the device's last finished pairing, for which it had been issued, and
the device has not been revoked since. -/
def InForce (deviceId ticket : String) (log : List AccessEvent) : Prop :=
  ∃ since before grant, log = since ++ .finished grant :: before ∧
    grant.deviceId=deviceId ∧ grant.ticket=ticket ∧
    (∃ capabilities, Registry.Issued before ticket deviceId capabilities) ∧
    (∀ grant', .finished grant' ∈ since → grant'.deviceId≠deviceId) ∧ .revoked deviceId ∉ since

theorem InForce.cons (h : InForce deviceId ticket log) {e : AccessEvent}
    (hfinished : ∀ grant, e = .finished grant → grant.deviceId≠deviceId)
    (hrevoked : e ≠ .revoked deviceId) : InForce deviceId ticket (e::log) := by
  obtain ⟨since,before,grant,rfl,hdevice,hticket,hissued,hsince,hkept⟩ := h
  refine ⟨e::since,before,grant,rfl,hdevice,hticket,hissued,?_,?_⟩
  · intro grant' he
    rcases mem_cons.mp he with he | he
    · exact hfinished grant' he.symm
    · exact hsince grant' he
  · rw [mem_cons,not_or]
    exact ⟨hrevoked.symm,hkept⟩

/-- A ticket in force is that of the latest approval if its approval was current when the pairing was
finished and the device has had no approval since. -/
theorem InForce.latest (h : InForce deviceId ticket log)
    (hcurrent : ∀ grant before, .finished grant :: before <:+ log →
      currentApproval grant.deviceId before = some grant.ticket)
    (hsettled : settled deviceId log = true) : Latest deviceId ticket log := by
  obtain ⟨since,before,grant,rfl,rfl,rfl,-,hsince,hkept⟩ := h
  have hnone := not_approved_of_settled hsettled hsince
  obtain ⟨since',before',request,grant',rfl,hdevice,hticket,hsince',hkept'⟩ :=
    split_of_currentApproval (hcurrent grant before (suffix_append since _))
  refine ⟨since ++ .finished grant :: since',before',request,grant',?_,hdevice,hticket,
    ?_,?_,grant,by simp,rfl,rfl⟩
  · rw [append_assoc,cons_append]
  · intro request'' grant'' he
    simp only [mem_append,mem_cons,reduceCtorEq,false_or] at he
    rcases he with he | he
    · exact hnone request'' grant'' he
    · exact hsince' request'' grant'' he
  · simp [hkept,hkept']

end Log

namespace Registry

variable {κ σ : Type} {crypto : DeviceCrypto κ σ} {cfg : PairingConfig}

structure InForceOnly (s : Registry κ) : Prop where
  held : ∀ c∈s.state.tickets, InForce c.2.deviceId c.1 s.log
  answered : ∀ ticket device earlier, .authenticated ticket device :: earlier <:+ s.log →
    InForce device.deviceId ticket earlier

namespace InForceOnly

variable {s s' : Registry κ}

theorem answered_cons (h : InForceOnly s) {e : AccessEvent}
    (he : ∀ ticket device, e ≠ .authenticated ticket device) (ticket : String)
    (device : AuthenticatedDevice) (earlier : List AccessEvent)
    (hsuffix : .authenticated ticket device :: earlier <:+ e::s.log) :
    InForce device.deviceId ticket earlier := by
  rcases suffix_cons_iff.mp hsuffix with heq | hsuffix
  · exact absurd (List.cons.inj heq).1.symm (he ticket device)
  · exact h.answered ticket device earlier hsuffix

theorem changes {call : RegistryCall} (h : InForceOnly s) (hgrants : GrantsAsked s)
    (hs : Changes cfg s call s') : InForceOnly s' := by
  cases hs with
  | created | submitted | approved =>
    exact ⟨fun c hc => (h.held c hc).cons (by simp) (by simp),h.answered_cons (by simp)⟩
  | @finished pairingId p grant ticket hfound hresolved hpicked =>
    obtain ⟨hissued,hdevice,-⟩ := (hgrants.pending _ hfound).issued grant ticket hresolved
    obtain ⟨rest,hrest,hsub,hothers⟩ :=
      AuthorityState.install_tickets (s.state.abortPairing pairingId) grant ticket
    refine ⟨?_,h.answered_cons (by simp)⟩
    intro c hc
    rw [hrest,mem_cons] at hc
    rcases hc with rfl | hc
    · exact ⟨[],s.log,grant,rfl,hdevice.symm,rfl,⟨_,hissued⟩,by simp,by simp⟩
    · refine (h.held c (hsub.subset hc)).cons ?_ (by simp)
      intro grant' heq
      cases heq
      exact (hothers c hc).symm
  | @authenticated ticket _ _ _ t hfound =>
    refine ⟨fun c hc => (h.held c hc).cons (by simp) (by simp),?_⟩
    intro ticket' device earlier hsuffix
    rcases suffix_cons_iff.mp hsuffix with heq | hsuffix
    · cases heq
      exact h.held _ (mem_of_lookup hfound)
    · exact h.answered ticket' device earlier hsuffix
  | @revoked deviceId =>
    refine ⟨?_,h.answered_cons (by simp)⟩
    intro c hc
    obtain ⟨hin,hother⟩ := mem_filter.mp hc
    refine (h.held c hin).cons (by simp) ?_
    intro heq
    exact of_decide_eq_true hother (AccessEvent.revoked.inj heq).symm
  | spent | denied | removed | same => exact ⟨h.held,h.answered⟩

end InForceOnly

theorem inForceOnly_of_reaches [DecidableEq κ] {ok : Registry κ → RegistryCall → Prop}
    {s : Registry κ} (h : (system crypto cfg).Reaches ok s) : InForceOnly s := by
  have hinit : Sound cfg ({} : Registry κ) := sound_init
  have hinv : GrantsAsked s ∧ InForceOnly s := by
    refine System.Reaches.invariant (I := fun s => GrantsAsked s ∧ InForceOnly s) ?_ ?_ h
    · exact ⟨hinit.grants,by simp [system],by simp [system]⟩
    · intro s call s' hI _ hs
      have hchanges := changes_of_step hs
      exact ⟨hI.1.changes hchanges,hI.2.changes hI.1 hchanges⟩
  exact hinv.2

/-- A pairing is finished only while its approval is the device's current one, and a device
authenticates only while none of its approvals waits to be finished. -/
def stepOk (s : Registry κ) : RegistryCall → Bool
  | .finishPairing pairingId =>
    match s.state.approvedGrant pairingId with
    | some (grant, _) => decide (currentApproval grant.deviceId s.log = some grant.ticket)
    | none => true
  | .authenticate ticket _ _ _ =>
    match s.state.tickets.lookup ticket with
    | some t => settled t.deviceId s.log
    | none => true
  | .createClaim .. | .submitPairing .. | .approve .. | .deny _ | .abortPairing _
  | .revokeDevice _ => true

/-- What the condition says of the record. -/
structure InOrder (log : List AccessEvent) : Prop where
  finished : ∀ grant before, .finished grant :: before <:+ log →
    currentApproval grant.deviceId before = some grant.ticket
  answered : ∀ ticket device before, .authenticated ticket device :: before <:+ log →
    settled device.deviceId before = true

theorem InOrder.cons {log : List AccessEvent} (h : InOrder log) {e : AccessEvent}
    (hfinished : ∀ grant, e = .finished grant →
      currentApproval grant.deviceId log = some grant.ticket)
    (hanswered : ∀ ticket device, e = .authenticated ticket device →
      settled device.deviceId log = true) : InOrder (e::log) where
  finished := by
    intro grant before hsuffix
    rcases suffix_cons_iff.mp hsuffix with heq | hsuffix
    · obtain ⟨rfl,rfl⟩ := List.cons.inj heq
      exact hfinished grant rfl
    · exact h.finished grant before hsuffix
  answered := by
    intro ticket device before hsuffix
    rcases suffix_cons_iff.mp hsuffix with heq | hsuffix
    · obtain ⟨rfl,rfl⟩ := List.cons.inj heq
      exact hanswered ticket device rfl
    · exact h.answered ticket device before hsuffix

theorem InOrder.changes {s s' : Registry κ} {call : RegistryCall} (h : InOrder s.log)
    (hok : s.stepOk call = true) (hs : Changes cfg s call s') : InOrder s'.log := by
  cases hs with
  | created | submitted | approved | revoked => exact h.cons (by simp) (by simp)
  | @finished pairingId p grant ticket _ _ hpicked =>
    rw [stepOk,hpicked] at hok
    refine h.cons ?_ (by simp)
    intro grant' heq
    cases heq
    exact of_decide_eq_true hok
  | @authenticated ticket _ _ _ t hfound =>
    rw [stepOk,hfound] at hok
    refine h.cons (by simp) ?_
    intro ticket' device heq
    cases heq
    exact hok
  | spent | denied | removed | same => exact h

/-- In every run whose calls meet the condition, a device is let in only with the ticket of its most
recent approval, finished and not followed by a revocation. -/
theorem authenticated_latest_of_reaches [DecidableEq κ] {s : Registry κ}
    (h : (system crypto cfg).Reaches (fun s call => s.stepOk call = true) s) {ticket : String}
    {device : AuthenticatedDevice} {earlier : List AccessEvent}
    (hanswer : .authenticated ticket device :: earlier <:+ s.log) :
    Latest device.deviceId ticket earlier := by
  have horder : InOrder s.log := by
    refine System.Reaches.invariant (I := fun s => InOrder s.log) ?_ ?_ h
    · exact ⟨by simp [system],by simp [system]⟩
    · intro s call s' horder hok hs
      exact horder.changes hok (changes_of_step hs)
  have hforce := (inForceOnly_of_reaches h).answered ticket device earlier hanswer
  have hearlier : earlier <:+ s.log := (suffix_cons _ earlier).trans hanswer
  refine hforce.latest ?_ (horder.answered ticket device earlier hanswer)
  intro grant before hsuffix
  exact horder.finished grant before (hsuffix.trans hearlier)

/-- In every run a device is let in only with the ticket of its pairing that was finished last, and
after a revocation only once a pairing of it has been finished again. -/
theorem authenticated_inForce_of_reaches [DecidableEq κ] {s : Registry κ}
    (h : (system crypto cfg).Reaches (fun _ _ => True) s) {ticket : String}
    {device : AuthenticatedDevice} {earlier : List AccessEvent}
    (hanswer : .authenticated ticket device :: earlier <:+ s.log) :
    InForce device.deviceId ticket earlier :=
  (inForceOnly_of_reaches h).answered ticket device earlier hanswer

/-- A device that is paired, revoked and paired again is let in with its second ticket. -/
theorem authenticated_inForce_repaired :
    ∃ (s : Registry String) (device : AuthenticatedDevice) (earlier : List AccessEvent),
      (system plainCrypto { claimTtl := 300, maxDevices := 1 }).Reaches (fun _ _ => True) s ∧
      .authenticated "ticket-2" device::earlier <:+ s.log ∧
      InForce device.deviceId "ticket-2" earlier := by
  obtain ⟨s,-,hreach,hhead⟩ :=
    (system plainCrypto { claimTtl := 300, maxDevices := 1 }).exists_of_replay (fun _ _ => True)
      [.createClaim "claim-1" 0, .createClaim "claim-2" 10,
        .submitPairing "claim-1" "phone" "phone" [.observe] 20 "pairing-1",
        .approve "pairing-1" [.observe] "ticket-1", .finishPairing "pairing-1",
        .authenticate "ticket-1" "phone" "challenge-1" "phone",
        .revokeDevice (hexEncode (plainCrypto.digest "phone")),
        .submitPairing "claim-2" "phone" "phone" [.observe] 40 "pairing-2",
        .approve "pairing-2" [.observe] "ticket-2", .finishPairing "pairing-2",
        .authenticate "ticket-2" "phone" "challenge-2" "phone"]
      (fun s => s.log.head? = some (.authenticated "ticket-2"
        { deviceId := hexEncode (plainCrypto.digest "phone")
          label := "phone"
          capabilities := [.observe] })) (by decide +kernel)
  obtain ⟨earlier,hlog⟩ := head?_eq_some_iff.mp hhead
  have hanswer : _::earlier <:+ s.log := ⟨[],hlog.symm⟩
  exact ⟨s,_,earlier,hreach,hanswer,authenticated_inForce_of_reaches hreach hanswer⟩

/-- A run of one device that ends in its being let in with "ticket-1", `revoked` before or not,
although that ticket's approval is not current. -/
theorem not_latest_of_replay (acts : List RegistryCall) (revoked : Bool)
    (hrun : (((system plainCrypto { claimTtl := 300, maxDevices := 64 }).replay (fun _ _ => True)
        acts).any fun s => decide <|
      s.log.head? = some (.authenticated "ticket-1"
        { deviceId := hexEncode (plainCrypto.digest "phone")
          label := "phone"
          capabilities := [.observe] }) ∧
      currentApproval (hexEncode (plainCrypto.digest "phone")) s.log.tail ≠ some "ticket-1" ∧
      decide (.revoked (hexEncode (plainCrypto.digest "phone")) ∈ s.log.tail) =
        revoked) = true) :
    ∃ (s : Registry String) (device : AuthenticatedDevice) (earlier : List AccessEvent),
      (system plainCrypto { claimTtl := 300, maxDevices := 64 }).Reaches (fun _ _ => True) s ∧
      .authenticated "ticket-1" device::earlier <:+ s.log ∧
      decide (.revoked device.deviceId ∈ earlier) = revoked ∧
      ¬ Latest device.deviceId "ticket-1" earlier := by
  obtain ⟨s,-,hreach,hhead,hcurrent,hrevoked⟩ := System.exists_of_replay _ _ acts _ hrun
  obtain ⟨earlier,hlog⟩ := head?_eq_some_iff.mp hhead
  rw [hlog,tail_cons] at hcurrent hrevoked
  refine ⟨s,_,earlier,hreach,⟨[],hlog.symm⟩,hrevoked,?_⟩
  intro hlatest
  exact hcurrent (currentApproval_of_latest hlatest)

/-- A device is let in with its first ticket while its second approval waits to be finished; and one
is let in that was revoked between an approval and the finish, with no approval since. -/
theorem authenticated_not_latest :
    (∃ (s : Registry String) (device : AuthenticatedDevice) (earlier : List AccessEvent),
      (system plainCrypto { claimTtl := 300, maxDevices := 64 }).Reaches (fun _ _ => True) s ∧
      .authenticated "ticket-1" device::earlier <:+ s.log ∧
      decide (.revoked device.deviceId ∈ earlier) = false ∧
      ¬ Latest device.deviceId "ticket-1" earlier) ∧
    ∃ (s : Registry String) (device : AuthenticatedDevice) (earlier : List AccessEvent),
      (system plainCrypto { claimTtl := 300, maxDevices := 64 }).Reaches (fun _ _ => True) s ∧
      .authenticated "ticket-1" device::earlier <:+ s.log ∧
      decide (.revoked device.deviceId ∈ earlier) = true ∧
      ¬ Latest device.deviceId "ticket-1" earlier := by
  have happroved := not_latest_of_replay
    [.createClaim "claim-1" 0, .createClaim "claim-2" 10,
      .submitPairing "claim-1" "phone" "phone" [.observe] 20 "pairing-1",
      .approve "pairing-1" [.observe] "ticket-1", .finishPairing "pairing-1",
      .submitPairing "claim-2" "phone" "phone" [.observe] 40 "pairing-2",
      .approve "pairing-2" [.observe] "ticket-2",
      .authenticate "ticket-1" "phone" "challenge" "phone"] false (by decide +kernel)
  have hrevoked := not_latest_of_replay
    [.createClaim "claim-1" 0,
      .submitPairing "claim-1" "phone" "phone" [.observe] 20 "pairing-1",
      .approve "pairing-1" [.observe] "ticket-1",
      .revokeDevice (hexEncode (plainCrypto.digest "phone")), .finishPairing "pairing-1",
      .authenticate "ticket-1" "phone" "challenge" "phone"] true (by decide +kernel)
  exact ⟨happroved,hrevoked⟩

end Registry

end Daimonos.Remote
