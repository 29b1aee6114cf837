import Daimonos.Remote.PairingAuthority

namespace Daimonos.Remote

open Daimonos.Framework Daimonos.Session List AuthorityState AccessEvent

variable {κ σ : Type} {crypto : DeviceCrypto κ σ} {cfg : PairingConfig}

theorem mem_deduplicateCapabilities {c : ClientCapability} (l : List ClientCapability) :
    c ∈ deduplicateCapabilities l ↔ c∈l := by
  suffices h : ∀ (l seen : List ClientCapability),
      c ∈ l.foldl (fun seen c => if c∈seen then seen else seen ++ [c]) seen ↔ c∈seen ∨ c∈l by
    rw [deduplicateCapabilities,h]
    simp
  intro l
  induction l with
  | nil => simp
  | cons a rest ih =>
    intro seen
    rw [foldl_cons,ih,mem_cons]
    split_ifs with ha
    · refine ⟨?_,?_⟩
      · rintro (h | h)
        · exact .inl h
        · exact .inr (.inr h)
      · rintro (h | rfl | h)
        · exact .inl h
        · exact .inl ha
        · exact .inr h
    · rw [mem_append,mem_singleton,or_assoc]

namespace AuthorityState

variable {s : AuthorityState κ} {grant : TicketGrant} {ticket : TicketState κ}

@[simp] theorem install_claims : (s.install grant ticket).claims = s.claims := by
  unfold install
  split_ifs <;> rfl

@[simp] theorem install_pending : (s.install grant ticket).pending = s.pending := by
  unfold install
  split_ifs <;> rfl

theorem install_tickets (s : AuthorityState κ) (grant : TicketGrant) (ticket : TicketState κ) :
    ∃ rest, (s.install grant ticket).tickets = (grant.ticket, ticket) :: rest ∧
      rest.Sublist s.tickets ∧ ∀ c∈rest, c.2.deviceId≠grant.deviceId := by
  unfold install
  split
  · refine ⟨_,rfl,filter_sublist.trans filter_sublist,?_⟩
    intro c hc
    exact of_decide_eq_true (mem_filter.mp (mem_removeKey.mp hc).1).2
  · rename_i hreplaces
    refine ⟨_,rfl,filter_sublist,?_⟩
    intro c hc hdevice
    obtain ⟨hin,hne⟩ := mem_removeKey.mp hc
    exact hreplaces (any_eq_true.mpr ⟨c,hin,decide_eq_true ⟨hne,hdevice⟩⟩)

theorem mem_install_deviceNotifiers {d : String} :
    d ∈ (s.install grant ticket).deviceNotifiers ↔ d=grant.deviceId ∨ d∈s.deviceNotifiers := by
  unfold install
  split_ifs with hreplaces hin
  · by_cases hd : d=grant.deviceId <;> simp [hd]
  · constructor
    · exact .inr
    · rintro (rfl | h)
      · exact hin
      · exact h
  · exact mem_cons

theorem mem_knownDevices {d : String} :
    d∈s.knownDevices ↔
      d∈s.deviceNotifiers ∨ ∃ c∈s.pending, c.2.approvedDevice = some d := by
  simp [knownDevices]

theorem knownDevices_subset {s' : AuthorityState κ}
    (hnotifiers : s'.deviceNotifiers ⊆ s.deviceNotifiers)
    (hpending : ∀ c∈s'.pending, c∈s.pending ∨ c.2.approvedDevice=none) :
    s'.knownDevices ⊆ s.knownDevices := by
  intro d hd
  rw [mem_knownDevices] at hd ⊢
  rcases hd with hd | ⟨c,hc,hd⟩
  · exact .inl (hnotifiers hd)
  · rcases hpending c hc with hc | hnone
    · exact .inr ⟨c,hc,hd⟩
    · rw [hnone] at hd
      cases hd

theorem of_authenticate_eq_ok [DecidableEq κ] {ticket key challenge signature : String}
    {device : AuthenticatedDevice}
    (h : s.authenticate crypto ticket key challenge signature = .ok device) :
    ∃ t, s.tickets.lookup ticket = some t ∧
      device = { deviceId := t.deviceId, label := t.label, capabilities := t.capabilities } := by
  unfold authenticate at h
  split at h
  · cases h
  split at h
  · cases h
  rename_i t ht
  split_ifs at h
  split at h
  · cases h
  split_ifs at h
  exact ⟨t,ht,(Except.ok.inj h).symm⟩

end AuthorityState

namespace Registry

inductive Changes (cfg : PairingConfig) (s : Registry κ) : RegistryCall → Registry κ → Prop
  | created {secret : String} {now : Nat} (fresh : s.Fresh secret) :
    Changes cfg s (.createClaim secret now)
      { state := s.state.createClaimAt cfg.claimTtl secret now
        log := .claimCreated secret now :: s.log }
  | spent {claim key label id : String} {requested : List ClientCapability} {now : Nat} :
    Changes cfg s (.submitPairing claim key label requested now id)
      { s with state := { s.state with claims := removeKey claim s.state.claims } }
  | submitted {claim key label : String} {requested : List ClientCapability} {now expiresAt : Nat}
      {p : PendingState κ} (fresh : s.Fresh p.request.id)
      (held : (claim, expiresAt) ∈ s.state.claims) (early : now<expiresAt)
      (asked : p.request.requestedCapabilities = deduplicateCapabilities requested)
      (open_ : p.resolution=.pending) :
    Changes cfg s (.submitPairing claim key label requested now p.request.id)
      { state :=
          { s.state with
            claims := removeKey claim s.state.claims
            pending := insertKey p.request.id p s.state.pending }
        log := .submitted claim now requested p.request :: s.log }
  | approved {pairingId ticket : String} {capabilities granted : List ClientCapability}
      {p : PendingState κ} (fresh : s.Fresh ticket) (found : (pairingId, p) ∈ s.state.pending)
      (room : p.request.deviceId ∈ s.state.knownDevices ∨
        s.state.knownDevices.card < cfg.maxDevices)
      (within : granted ⊆ p.request.requestedCapabilities) :
    Changes cfg s (.approve pairingId capabilities ticket)
      { state :=
          { s.state with pending := insertKey pairingId (p.approve ticket granted) s.state.pending }
        log := .approved p.request (p.grant ticket granted) :: s.log }
  | denied {pairingId : String} {p : PendingState κ} (found : (pairingId, p) ∈ s.state.pending) :
    Changes cfg s (.deny pairingId)
      { s with
        state :=
          { s.state with
            pending := insertKey pairingId { p with resolution := .denied } s.state.pending } }
  | finished {pairingId : String} {p : PendingState κ} {grant : TicketGrant}
      {ticket : TicketState κ} (found : (pairingId, p) ∈ s.state.pending)
      (resolved : p.resolution = .approved grant ticket)
      (picked : s.state.approvedGrant pairingId = some (grant, ticket)) :
    Changes cfg s (.finishPairing pairingId)
      { state := (s.state.abortPairing pairingId).install grant ticket
        log := .finished grant :: s.log }
  | removed {call : RegistryCall} {pairingId : String} :
    Changes cfg s call { s with state := s.state.abortPairing pairingId }
  | authenticated {ticket key challenge signature : String} {t : TicketState κ}
      (found : s.state.tickets.lookup ticket = some t) :
    Changes cfg s (.authenticate ticket key challenge signature)
      { s with
        log := .authenticated ticket
          { deviceId := t.deviceId, label := t.label, capabilities := t.capabilities } :: s.log }
  | revoked {deviceId : String} :
    Changes cfg s (.revokeDevice deviceId)
      { state := (s.state.revokeDevice deviceId).2, log := .revoked deviceId :: s.log }
  | same {call : RegistryCall} : Changes cfg s call s

theorem changes_submitPairing {s : Registry κ} {claim key label id : String}
    {requested : List ClientCapability} {now : Nat} (hfresh : s.Fresh id) :
    Changes cfg s (.submitPairing claim key label requested now id)
      (s.record (.submitted claim now requested)
        (s.state.submitPairingAt crypto claim key label requested now id)) := by
  unfold submitPairingAt
  cases crypto.decodeVerifyingKey key with
  | none => exact .same
  | some verifyingKey =>
    cases hclaim : s.state.claims.lookup claim with
    | none => exact .same
    | some expiresAt =>
      dsimp only
      split_ifs with hexpired
      · exact .spent
      · let p : PendingState κ :=
          { request := crypto.pairingRequest id verifyingKey label requested
            verifyingKey
            resolution := .pending }
        exact .submitted (p := p) hfresh (mem_of_lookup hclaim) (Nat.lt_of_not_le hexpired) rfl rfl

variable {capabilities : List ClientCapability}

theorem changes_approve {s : Registry κ} {pairingId ticket : String} {p : PendingState κ}
    (hfresh : s.Fresh ticket) (hp : s.state.pending.lookup pairingId = some p) :
    Changes cfg s (.approve pairingId capabilities ticket) (s.record (.approved p.request)
        (s.state.approve cfg.maxDevices pairingId capabilities ticket)) := by
  simp only [approve,hp]
  split_ifs with hlimit hresolved hwithin
  · exact .same
  · exact .same
  · exact .same
  · refine .approved hfresh (mem_of_lookup hp) ?_ ?_
    · rw [not_and_or,not_not,Nat.not_le] at hlimit
      exact hlimit
    · intro c hc
      rw [any_eq_true] at hwithin
      by_contra hnot
      exact hwithin ⟨c,hc,decide_eq_true hnot⟩

theorem changes_of_step [DecidableEq κ] {s s' : Registry κ} {call : RegistryCall}
    (hs : s.step crypto cfg call = some s') : Changes cfg s call s' := by
  cases call with
  | createClaim secret now =>
    simp only [step] at hs
    split_ifs at hs with hfresh
    cases hs
    exact .created hfresh
  | submitPairing claim key label requested now id =>
    simp only [step] at hs
    split_ifs at hs with hfresh
    cases hs
    exact changes_submitPairing hfresh
  | approve pairingId capabilities ticket =>
    simp only [step] at hs
    split_ifs at hs with hfresh
    split at hs
    · cases hs
      exact .same
    · rename_i p hp
      cases hs
      exact changes_approve hfresh hp
  | deny pairingId =>
    cases hs
    unfold deny
    split
    · exact .same
    · rename_i p hp
      split_ifs
      · exact .same
      · exact .denied (mem_of_lookup hp)
  | finishPairing pairingId =>
    simp only [step,finishPairing] at hs
    cases hgrant : s.state.approvedGrant pairingId with
    | none =>
      rw [hgrant] at hs
      cases hs
      exact .removed
    | some picked =>
      have hpicked := hgrant
      unfold approvedGrant at hgrant
      split at hgrant
      · rename_i request verifyingKey g t hp
        cases hgrant
        rw [hpicked] at hs
        cases hs
        exact .finished (mem_of_lookup hp) rfl hpicked
      · cases hgrant
  | abortPairing pairingId =>
    cases hs
    exact .removed
  | authenticate ticket key challenge signature =>
    simp only [step] at hs
    split at hs
    · rename_i device hdevice
      cases hs
      obtain ⟨t,ht,rfl⟩ := of_authenticate_eq_ok hdevice
      exact .authenticated ht
    · cases hs
      exact .same
  | revokeDevice deviceId =>
    cases hs
    exact .revoked

/-- Claims are taken out of the map when they are used: what is there was created and not used,
and what was used was used once and in time. -/
structure ClaimsSpent (cfg : PairingConfig) (s : Registry κ) : Prop where
  held : ∀ c∈s.state.claims,
    ∃ createdAt, .claimCreated c.1 createdAt ∈ s.log ∧ c.2=createdAt+cfg.claimTtl
  unspent : ∀ c∈s.state.claims, c.1 ∉ s.log.filterMap acceptedClaim
  once : (s.log.filterMap acceptedClaim).Nodup
  inTime : ∀ claim now requested request, .submitted claim now requested request ∈ s.log →
    ∃ createdAt, .claimCreated claim createdAt ∈ s.log ∧ now < createdAt+cfg.claimTtl

namespace ClaimsSpent

variable {s s' : Registry κ}

theorem created_mono {log log' : List AccessEvent} {claim : String} {p : Nat → Prop}
    (h : ∃ createdAt, .claimCreated claim createdAt ∈ log ∧ p createdAt) (hlog : log ⊆ log') :
    ∃ createdAt, .claimCreated claim createdAt ∈ log' ∧ p createdAt := by
  obtain ⟨createdAt,hcreated,hp⟩ := h
  exact ⟨createdAt,hlog hcreated,hp⟩

theorem mono (h : ClaimsSpent cfg s) (hclaims : s'.state.claims ⊆ s.state.claims)
    (hlog : ∃ events, s'.log=events++s.log ∧ ∀ e∈events, e.acceptedClaim=none) :
    ClaimsSpent cfg s' := by
  obtain ⟨events,hlog,hnone⟩ := hlog
  have haccepted : s'.log.filterMap acceptedClaim =
      s.log.filterMap acceptedClaim := by
    rw [hlog,filterMap_append,filterMap_eq_nil_iff.mpr hnone,nil_append]
  have hkept : s.log ⊆ s'.log := hlog ▸ subset_append_right events s.log
  refine ⟨?_,?_,?_,?_⟩
  · exact fun c hc => created_mono (h.held c (hclaims hc)) hkept
  · intro c hc
    rw [haccepted]
    exact h.unspent c (hclaims hc)
  · rw [haccepted]
    exact h.once
  · intro claim now requested request he
    rw [hlog,mem_append] at he
    rcases he with he | he
    · exact absurd (hnone _ he) (by simp [acceptedClaim])
    · exact created_mono (h.inTime claim now requested request he) hkept

theorem drawn (h : ClaimsSpent cfg s) {claim : String}
    (hc : claim ∈ s.log.filterMap acceptedClaim) : ¬ s.Fresh claim := by
  obtain ⟨e,he,hclaim⟩ := mem_filterMap.mp hc
  cases e with
  | submitted claim' now requested request =>
    obtain rfl : claim'=claim := Option.some.inj hclaim
    obtain ⟨createdAt,hcreated,-⟩ := h.inTime claim' now requested request he
    exact fun hfresh => hfresh (mem_filterMap.mpr ⟨_,hcreated,rfl⟩)
  | _ => cases hclaim

theorem created (h : ClaimsSpent cfg s) {secret : String} {now : Nat} (hfresh : s.Fresh secret) :
    ClaimsSpent cfg
      { state := s.state.createClaimAt cfg.claimTtl secret now
        log := .claimCreated secret now :: s.log } := by
  refine ⟨?_,?_,h.once,?_⟩
  · intro c hc
    rcases mem_insertKey.mp hc with rfl | ⟨hc,-⟩
    · exact ⟨now,mem_cons_self,rfl⟩
    · exact created_mono (h.held c (mem_filter.mp hc).1) (subset_cons_self _ _)
  · intro c hc
    rcases mem_insertKey.mp hc with rfl | ⟨hc,-⟩
    · exact fun hspent => h.drawn hspent hfresh
    · exact h.unspent c (mem_filter.mp hc).1
  · intro claim at_ requested request he
    rcases mem_cons.mp he with he | he
    · cases he
    · exact created_mono (h.inTime claim at_ requested request he) (subset_cons_self _ _)

theorem submitted (h : ClaimsSpent cfg s) {claim : String} {now expiresAt : Nat}
    {requested : List ClientCapability} {p : PendingState κ}
    (hheld : (claim, expiresAt) ∈ s.state.claims) (hearly : now<expiresAt) :
    ClaimsSpent cfg
      { state :=
          { s.state with
            claims := removeKey claim s.state.claims
            pending := insertKey p.request.id p s.state.pending }
        log := .submitted claim now requested p.request :: s.log } := by
  refine ⟨?_,?_,?_,?_⟩
  · intro c hc
    exact created_mono (h.held c (mem_removeKey.mp hc).1) (subset_cons_self _ _)
  · intro c hc hspent
    obtain ⟨hin,hne⟩ := mem_removeKey.mp hc
    rcases mem_cons.mp hspent with heq | hspent
    · exact hne heq
    · exact h.unspent c hin hspent
  · exact nodup_cons.mpr ⟨h.unspent _ hheld,h.once⟩
  · intro claim' at_ requested' request he
    rcases mem_cons.mp he with he | he
    · cases he
      obtain ⟨createdAt,hcreated,hexpiry⟩ := h.held _ hheld
      exact ⟨createdAt,mem_cons_of_mem _ hcreated,hexpiry ▸ hearly⟩
    · exact created_mono (h.inTime claim' at_ requested' request he) (subset_cons_self _ _)

theorem changes {call : RegistryCall} (h : ClaimsSpent cfg s) (hs : Changes cfg s call s') :
    ClaimsSpent cfg s' := by
  cases hs with
  | created hfresh => exact h.created hfresh
  | spent => exact h.mono filter_sublist.subset ⟨[],rfl,by simp⟩
  | submitted _ hheld hearly => exact h.submitted hheld hearly
  | approved => exact h.mono (List.Subset.refl _) ⟨[_],rfl,by simp [acceptedClaim]⟩
  | denied => exact h.mono (List.Subset.refl _) ⟨[],rfl,by simp⟩
  | @finished pairingId p grant ticket =>
    refine h.mono ?_ ⟨[_],rfl,by simp [acceptedClaim]⟩
    rw [install_claims]
    exact List.Subset.refl _
  | removed => exact h.mono (List.Subset.refl _) ⟨[],rfl,by simp⟩
  | authenticated =>
    exact h.mono (List.Subset.refl _) ⟨[_],rfl,by simp [acceptedClaim]⟩
  | revoked => exact h.mono (List.Subset.refl _) ⟨[_],rfl,by simp [acceptedClaim]⟩
  | same => exact h

end ClaimsSpent

/-- The request was submitted with these capabilities among those it asked for. -/
def Asked (log : List AccessEvent) (request : PendingPairing)
    (capabilities : List ClientCapability) : Prop :=
  ∃ claim now requested, .submitted claim now requested request ∈ log ∧ capabilities ⊆ requested

/-- The ticket was granted to this device with these capabilities. -/
def Issued (log : List AccessEvent) (ticket deviceId : String)
    (capabilities : List ClientCapability) : Prop :=
  ∃ request grant, .approved request grant ∈ log ∧ grant.ticket=ticket ∧
    grant.deviceId=deviceId ∧ grant.capabilities = capabilities

theorem Asked.mono {log log' : List AccessEvent} (hsub : log ⊆ log') {request : PendingPairing}
    (h : Asked log request capabilities) :
    Asked log' request capabilities := by
  obtain ⟨claim,now,requested,he,hcap⟩ := h
  exact ⟨claim,now,requested,hsub he,hcap⟩

theorem Issued.mono {log log' : List AccessEvent} (hsub : log ⊆ log') {ticket deviceId : String}
    (h : Issued log ticket deviceId capabilities) :
    Issued log' ticket deviceId capabilities := by
  obtain ⟨request,grant,he,hticket⟩ := h
  exact ⟨request,grant,hsub he,hticket⟩

structure Backed (log : List AccessEvent) (p : PendingState κ) : Prop where
  asked : Asked log p.request p.request.requestedCapabilities
  issued : ∀ grant ticket, p.resolution = .approved grant ticket →
    Issued log grant.ticket ticket.deviceId ticket.capabilities ∧
      ticket.deviceId=grant.deviceId ∧ grant.deviceId = p.request.deviceId

theorem Backed.mono {log log' : List AccessEvent} (hsub : log ⊆ log') {p : PendingState κ}
    (h : Backed log p) : Backed log' p where
  asked := h.asked.mono hsub
  issued := fun grant ticket hres =>
    ⟨(h.issued grant ticket hres).1.mono hsub,(h.issued grant ticket hres).2⟩

/-- Every pairing, grant, ticket and answer goes back to a submission that asked for it. -/
structure GrantsAsked (s : Registry κ) : Prop where
  pending : ∀ c∈s.state.pending, Backed s.log c.2
  granted : ∀ request grant, .approved request grant ∈ s.log →
    Asked s.log request grant.capabilities
  tickets : ∀ c∈s.state.tickets, Issued s.log c.1 c.2.deviceId c.2.capabilities
  answered : ∀ ticket device, .authenticated ticket device ∈ s.log →
    Issued s.log ticket device.deviceId device.capabilities

namespace GrantsAsked

variable {s s' : Registry κ}

theorem mono (h : GrantsAsked s)
    (hpending : ∀ c∈s'.state.pending, c∈s.state.pending ∨ Backed s'.log c.2)
    (htickets : ∀ c∈s'.state.tickets,
      c∈s.state.tickets ∨ Issued s.log c.1 c.2.deviceId c.2.capabilities)
    (hlog : ∃ events, s'.log=events++s.log ∧
      (∀ request grant, .approved request grant ∈ events →
        Asked s.log request grant.capabilities) ∧
      ∀ ticket device, .authenticated ticket device ∈ events →
        Issued s.log ticket device.deviceId device.capabilities) :
    GrantsAsked s' := by
  obtain ⟨events,hlog,hgranted,hanswered⟩ := hlog
  have hsub : s.log ⊆ s'.log := hlog ▸ subset_append_right events s.log
  refine ⟨?_,?_,?_,?_⟩
  · intro c hc
    rcases hpending c hc with hc | hbacked
    · exact (h.pending c hc).mono hsub
    · exact hbacked
  · intro request grant he
    rw [hlog,mem_append] at he
    rcases he with he | he
    · exact (hgranted request grant he).mono hsub
    · exact (h.granted request grant he).mono hsub
  · intro c hc
    rcases htickets c hc with hc | hissued
    · exact (h.tickets c hc).mono hsub
    · exact hissued.mono hsub
  · intro ticket device he
    rw [hlog,mem_append] at he
    rcases he with he | he
    · exact (hanswered ticket device he).mono hsub
    · exact (h.answered ticket device he).mono hsub

theorem changes {call : RegistryCall} (h : GrantsAsked s) (hs : Changes cfg s call s') :
    GrantsAsked s' := by
  cases hs with
  | created => exact h.mono (fun _ => .inl) (fun _ => .inl) ⟨[_],rfl,by simp,by simp⟩
  | spent => exact h.mono (fun _ => .inl) (fun _ => .inl) ⟨[],rfl,by simp,by simp⟩
  | @submitted claim _ _ requested now _ p _ _ _ hasked hopen =>
    refine h.mono ?_ (fun _ => .inl) ⟨[_],rfl,by simp,by simp⟩
    intro c hc
    rcases mem_insertKey.mp hc with rfl | ⟨hc,-⟩
    · refine .inr ⟨⟨claim,now,requested,mem_cons_self,?_⟩,?_⟩
      · intro cap hcap
        rw [hasked] at hcap
        exact (mem_deduplicateCapabilities requested).mp hcap
      · intro grant ticket hres
        rw [hopen] at hres
        cases hres
    · exact .inl hc
  | @approved pairingId ticket _ granted p _ hfound _ hwithin =>
    have hbacked := h.pending _ hfound
    have hsub : s.log ⊆ .approved p.request (p.grant ticket granted) :: s.log :=
      subset_cons_self _ _
    refine h.mono ?_ (fun _ => .inl) ⟨[_],rfl,?_,by simp⟩
    · intro c hc
      rcases mem_insertKey.mp hc with rfl | ⟨hc,-⟩
      · refine .inr ⟨hbacked.asked.mono hsub,?_⟩
        intro grant state hres
        cases hres
        exact ⟨⟨p.request,_,mem_cons_self,rfl,rfl,rfl⟩,rfl,rfl⟩
      · exact .inl hc
    · intro request grant he
      obtain ⟨rfl,rfl⟩ : request=p.request ∧ grant = p.grant ticket granted := by
        simpa using he
      obtain ⟨claim,now,requested,he,hcap⟩ := hbacked.asked
      exact ⟨claim,now,requested,he,List.Subset.trans hwithin hcap⟩
  | @denied pairingId p hfound =>
    refine h.mono ?_ (fun _ => .inl) ⟨[],rfl,by simp,by simp⟩
    intro c hc
    rcases mem_insertKey.mp hc with rfl | ⟨hc,-⟩
    · exact .inr ⟨(h.pending _ hfound).asked,fun _ _ hres => by cases hres⟩
    · exact .inl hc
  | @finished pairingId p grant ticket hfound hresolved =>
    have hissued := ((h.pending _ hfound).issued grant ticket hresolved).1
    refine h.mono ?_ ?_ ⟨[_],rfl,by simp,by simp⟩
    · intro c hc
      rw [install_pending] at hc
      exact .inl (mem_removeKey.mp hc).1
    · intro c hc
      obtain ⟨rest,hrest,hsub,-⟩ :=
        install_tickets (s.state.abortPairing pairingId) grant ticket
      rw [hrest,mem_cons] at hc
      rcases hc with rfl | hc
      · exact .inr hissued
      · exact .inl (hsub.subset hc)
  | removed =>
    exact h.mono (fun c hc => .inl (mem_removeKey.mp hc).1) (fun _ => .inl)
      ⟨[],rfl,by simp,by simp⟩
  | @authenticated ticket _ _ _ t hfound =>
    refine h.mono (fun _ => .inl) (fun _ => .inl) ⟨[_],rfl,by simp,?_⟩
    intro ticket' device he
    obtain ⟨rfl,rfl⟩ : ticket'=ticket ∧ device =
        { deviceId := t.deviceId, label := t.label, capabilities := t.capabilities } := by
      simpa using he
    exact h.tickets _ (mem_of_lookup hfound)
  | revoked =>
    exact h.mono (fun _ => .inl) (fun c hc => .inl (mem_filter.mp hc).1)
      ⟨[_],rfl,by simp,by simp⟩
  | same => exact h

end GrantsAsked

/-- At most one ticket for each device, and a notifier for each device with a ticket. -/
structure TicketsNotified (s : Registry κ) : Prop where
  once : (s.state.tickets.map fun c => c.2.deviceId).Nodup
  notified : ∀ c∈s.state.tickets, c.2.deviceId ∈ s.state.deviceNotifiers

theorem TicketsNotified.changes {s s' : Registry κ} {call : RegistryCall} (h : TicketsNotified s)
    (hgrants : GrantsAsked s) (hs : Changes cfg s call s') : TicketsNotified s' := by
  cases hs with
  | @finished pairingId p grant ticket hfound hresolved =>
    have hdevice := ((hgrants.pending _ hfound).issued grant ticket hresolved).2.1
    obtain ⟨rest,hrest,hsub,hothers⟩ :=
      install_tickets (s.state.abortPairing pairingId) grant ticket
    refine ⟨?_,?_⟩
    · rw [hrest,map_cons,nodup_cons]
      refine ⟨?_,h.once.sublist (hsub.map _)⟩
      intro hin
      obtain ⟨c,hc,heq⟩ := mem_map.mp hin
      exact hothers c hc (heq.trans hdevice)
    · intro c hc
      rw [mem_install_deviceNotifiers]
      rw [hrest,mem_cons] at hc
      rcases hc with rfl | hc
      · exact .inl hdevice
      · exact .inr (h.notified c (hsub.subset hc))
  | revoked =>
    refine ⟨h.once.sublist (filter_sublist.map _),?_⟩
    intro c hc
    obtain ⟨hin,hother⟩ := mem_filter.mp hc
    exact mem_filter.mpr ⟨h.notified c hin,hother⟩
  | created | spent | submitted | approved | denied | removed | authenticated | same =>
    exact ⟨h.once,h.notified⟩

theorem knownDevices_changes {s s' : Registry κ} {call : RegistryCall} (hgrants : GrantsAsked s)
    (hs : Changes cfg s call s') :
    s'.state.knownDevices ⊆ s.state.knownDevices ∨
      ∃ d, s'.state.knownDevices ⊆ insert d s.state.knownDevices ∧
        s.state.knownDevices.card < cfg.maxDevices := by
  cases hs with
  | @submitted claim _ _ requested now _ p _ _ _ _ hopen =>
    refine .inl (knownDevices_subset (List.Subset.refl _) fun c hc => ?_)
    rcases mem_insertKey.mp hc with rfl | ⟨hc,-⟩
    · exact .inr (by simp [PendingState.approvedDevice,hopen])
    · exact .inl hc
  | @approved pairingId ticket _ granted p _ hfound hroom _ =>
    have hnew : ∀ d∈knownDevices
        { s.state with pending := insertKey pairingId (p.approve ticket granted) s.state.pending },
        d=p.request.deviceId ∨ d∈s.state.knownDevices := by
      intro d hd
      rw [mem_knownDevices] at hd ⊢
      rcases hd with hd | ⟨c,hc,hd⟩
      · exact .inr (.inl hd)
      · rcases mem_insertKey.mp hc with rfl | ⟨hc,-⟩
        · exact .inl (Option.some.inj hd).symm
        · exact .inr (.inr ⟨c,hc,hd⟩)
    rcases hroom with hknown | hroom
    · left
      intro d hd
      rcases hnew d hd with rfl | hd
      · exact hknown
      · exact hd
    · right
      exact ⟨p.request.deviceId,fun d hd => Finset.mem_insert.mpr (hnew d hd),hroom⟩
  | @denied pairingId p hfound =>
    refine .inl (knownDevices_subset (List.Subset.refl _) fun c hc => ?_)
    rcases mem_insertKey.mp hc with rfl | ⟨hc,-⟩
    · exact .inr rfl
    · exact .inl hc
  | @finished pairingId p grant ticket hfound hresolved =>
    left
    intro d hd
    rw [mem_knownDevices,mem_install_deviceNotifiers,install_pending] at hd
    rw [mem_knownDevices]
    rcases hd with (rfl | hd) | ⟨c,hc,hd⟩
    · refine .inr ⟨_,hfound,?_⟩
      rw [((hgrants.pending _ hfound).issued grant ticket hresolved).2.2]
      simp [PendingState.approvedDevice,hresolved]
    · exact .inl hd
    · exact .inr ⟨c,(mem_removeKey.mp hc).1,hd⟩
  | removed =>
    exact .inl (knownDevices_subset (List.Subset.refl _) fun c hc =>
      .inl (mem_removeKey.mp hc).1)
  | revoked =>
    exact .inl (knownDevices_subset filter_sublist.subset fun _ => .inl)
  | created | spent | authenticated | same => exact .inl (Finset.Subset.refl _)

theorem limit_changes {s s' : Registry κ} {call : RegistryCall} (hgrants : GrantsAsked s)
    (h : s.state.knownDevices.card ≤ cfg.maxDevices) (hs : Changes cfg s call s') :
    s'.state.knownDevices.card ≤ cfg.maxDevices := by
  rcases knownDevices_changes hgrants hs with hsub | ⟨d,hsub,hroom⟩
  · exact (Finset.card_le_card hsub).trans h
  · have hcard := Finset.card_le_card hsub
    have hone := Finset.card_insert_le d s.state.knownDevices
    omega

structure Sound (cfg : PairingConfig) (s : Registry κ) : Prop where
  claims : ClaimsSpent cfg s
  grants : GrantsAsked s
  tickets : TicketsNotified s
  limit : s.state.knownDevices.card ≤ cfg.maxDevices

theorem sound_init : Sound cfg ({} : Registry κ) where
  claims := ⟨by simp,by simp,by simp,by simp⟩
  grants := ⟨by simp,by simp,by simp,by simp⟩
  tickets := ⟨by simp,by simp⟩
  limit := by simp [knownDevices]

theorem Sound.changes {s s' : Registry κ} {call : RegistryCall} (h : Sound cfg s)
    (hs : Changes cfg s call s') : Sound cfg s' where
  claims := h.claims.changes hs
  grants := h.grants.changes hs
  tickets := h.tickets.changes h.grants hs
  limit := limit_changes h.grants h.limit hs

theorem sound_of_reaches [DecidableEq κ] {ok : Registry κ → RegistryCall → Prop} {s : Registry κ}
    (h : (system crypto cfg).Reaches ok s) : Sound cfg s :=
  h.invariant sound_init fun _ _ _ hsound _ hs => hsound.changes (changes_of_step hs)

/-- In every run of the registry, with calls at any times: every claim is accepted at most once
and before it expires, what is granted was asked for, each device has at most one ticket, devices
with a ticket can be notified of a revocation, and the devices that are known or about to be are
within the limit. -/
theorem registry_sound_of_reaches [DecidableEq κ] {s : Registry κ}
    (h : (system crypto cfg).Reaches (fun _ _ => True) s) :
    (s.log.filterMap acceptedClaim).Nodup ∧
    (∀ claim now requested request, .submitted claim now requested request ∈ s.log →
      ∃ createdAt, .claimCreated claim createdAt ∈ s.log ∧ now < createdAt+cfg.claimTtl) ∧
    (∀ request grant, .approved request grant ∈ s.log →
      Asked s.log request grant.capabilities) ∧
    (∀ c∈s.state.tickets, Issued s.log c.1 c.2.deviceId c.2.capabilities) ∧
    (∀ ticket device, .authenticated ticket device ∈ s.log →
      Issued s.log ticket device.deviceId device.capabilities) ∧
    (s.state.tickets.map fun c => c.2.deviceId).Nodup ∧
    (∀ c∈s.state.tickets, c.2.deviceId ∈ s.state.deviceNotifiers) ∧
    s.state.knownDevices.card ≤ cfg.maxDevices := by
  have hsound : Sound cfg s := sound_of_reaches h
  exact ⟨hsound.claims.once,hsound.claims.inTime,hsound.grants.granted,hsound.grants.tickets,
    hsound.grants.answered,hsound.tickets.once,hsound.tickets.notified,hsound.limit⟩

/-- A scheme for runs on fixed values: a key is its text, and signs by repeating it. -/
def plainCrypto : DeviceCrypto String String where
  decodeVerifyingKey := some
  digest := fun key => key.toUTF8.toList
  decodeSignature := some
  verify := fun key _ signature => key == signature

/-- One device paired twice, with room for one: the second ticket takes the first one's place. -/
theorem registry_sound_repaired :
    ∃ s : Registry String,
      (system plainCrypto { claimTtl := 300, maxDevices := 1 }).Reaches (fun _ _ => True) s ∧
      s.state.tickets.map Prod.fst = ["ticket-2"] ∧ s.state.knownDevices.card≤1 := by
  obtain ⟨s,-,hreach,htickets⟩ :=
    (system plainCrypto { claimTtl := 300, maxDevices := 1 }).exists_of_replay (fun _ _ => True)
      [.createClaim "claim-1" 0, .createClaim "claim-2" 10,
        .submitPairing "claim-1" "phone" "phone" [.observe, .prompt, .observe] 20 "pairing-1",
        .approve "pairing-1" [.observe] "ticket-1", .finishPairing "pairing-1",
        .submitPairing "claim-2" "phone" "phone" [.observe] 309 "pairing-2",
        .approve "pairing-2" [.observe] "ticket-2", .finishPairing "pairing-2",
        .authenticate "ticket-2" "phone" "challenge" "phone"]
      (fun s => s.state.tickets.map Prod.fst = ["ticket-2"]) (by decide +kernel)
  exact ⟨s,hreach,htickets,(registry_sound_of_reaches hreach).2.2.2.2.2.2.2⟩

end Registry

end Daimonos.Remote
