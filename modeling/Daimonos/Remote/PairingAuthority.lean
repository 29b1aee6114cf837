import Daimonos.Framework.Keyed
import Daimonos.Framework.Transition
import Daimonos.Session.Protocol

namespace Daimonos.Remote

open Daimonos.Framework Daimonos.Session

/-- The signature scheme and the digest the registry relies on: keys `κ`, signatures `σ`. -/
structure DeviceCrypto (κ σ : Type) where
  decodeVerifyingKey : String → Option κ
  digest : κ → List UInt8
  decodeSignature : String → Option σ
  verify : κ → List UInt8 → σ → Bool

structure PendingPairing where
  id : String
  deviceId : String
  fingerprint : String
  label : String
  requestedCapabilities : List ClientCapability
  deriving DecidableEq

structure TicketGrant where
  ticket : String
  deviceId : String
  capabilities : List ClientCapability
  deriving DecidableEq

structure AuthenticatedDevice where
  deviceId : String
  label : String
  capabilities : List ClientCapability
  deriving DecidableEq

inductive AuthError where
  | unknownClaim
  | expiredClaim
  | invalidDeviceKey
  | pairingNotFound
  | pairingAlreadyResolved
  | capabilitiesNotRequested
  | unknownTicket
  | deviceKeyMismatch
  | invalidSignature
  | deviceLimitReached

structure TicketState (κ : Type) where
  deviceId : String
  label : String
  verifyingKey : κ
  capabilities : List ClientCapability

inductive PairingResolution (κ : Type) where
  | pending
  | approved (grant : TicketGrant) (ticket : TicketState κ)
  | denied

structure PendingState (κ : Type) where
  request : PendingPairing
  verifyingKey : κ
  resolution : PairingResolution κ

/-- The maps of the registry; `claims` maps a secret to its expiry, and `deviceNotifiers` is the
set of devices that have a revocation channel. -/
structure AuthorityState (κ : Type) where
  claims : List (String × Nat) := []
  pending : List (String × PendingState κ) := []
  tickets : List (String × TicketState κ) := []
  deviceNotifiers : List String := []

def hexEncode (bytes : List UInt8) : String :=
  String.ofList (bytes.flatMap fun b => [(b.toNat/16).digitChar, (b.toNat % 16).digitChar])

def displayFingerprint (deviceId : String) : String :=
  ":".intercalate (((deviceId.toList.toChunks 4).take 8).map String.ofList)

def deduplicateCapabilities (capabilities : List ClientCapability) : List ClientCapability :=
  capabilities.foldl (fun seen c => if c∈seen then seen else seen ++ [c]) []

def authMessage (challenge ticket : String) : List UInt8 :=
  "daimonos-remote-v2\x00".toUTF8.toList ++ challenge.toUTF8.toList ++ [0] ++
    ticket.toUTF8.toList

def DeviceCrypto.pairingRequest {κ σ : Type} (crypto : DeviceCrypto κ σ) (id : String)
    (verifyingKey : κ) (label : String) (requestedCapabilities : List ClientCapability) :
    PendingPairing :=
  let deviceId := hexEncode (crypto.digest verifyingKey)
  { id, deviceId, label
    fingerprint := displayFingerprint deviceId
    requestedCapabilities := deduplicateCapabilities requestedCapabilities }

def PendingState.isPending {κ : Type} (p : PendingState κ) : Bool :=
  match p.resolution with
  | .pending => true
  | .approved .. | .denied => false

def PendingState.approvedDevice {κ : Type} (p : PendingState κ) : Option String :=
  match p.resolution with
  | .approved .. => some p.request.deviceId
  | .pending | .denied => none

def PendingState.grant {κ : Type} (p : PendingState κ) (ticket : String)
    (capabilities : List ClientCapability) : TicketGrant :=
  { ticket, deviceId := p.request.deviceId, capabilities }

def PendingState.ticketState {κ : Type} (p : PendingState κ)
    (capabilities : List ClientCapability) : TicketState κ :=
  { deviceId := p.request.deviceId
    label := p.request.label
    verifyingKey := p.verifyingKey
    capabilities }

def PendingState.approve {κ : Type} (p : PendingState κ) (ticket : String)
    (capabilities : List ClientCapability) : PendingState κ :=
  { p with resolution := .approved (p.grant ticket capabilities) (p.ticketState capabilities) }

namespace AuthorityState

variable {κ σ : Type} [DecidableEq κ]

/-- `secret` is what `random_secret` drew. -/
def createClaimAt (claimTtl : Nat) (secret : String) (now : Nat) (s : AuthorityState κ) :
    AuthorityState κ :=
  { s with claims := insertKey secret (now+claimTtl) (s.claims.filter fun c => now < c.2) }

/-- `id` is the pairing id drawn for the request. A claim that is found is spent even when it
turns out to be expired. -/
def submitPairingAt (crypto : DeviceCrypto κ σ) (claim devicePublicKey label : String)
    (requestedCapabilities : List ClientCapability) (now : Nat) (id : String)
    (s : AuthorityState κ) : Except AuthError PendingPairing × AuthorityState κ :=
  match crypto.decodeVerifyingKey devicePublicKey with
  | none => (.error .invalidDeviceKey, s)
  | some verifyingKey =>
    match s.claims.lookup claim with
    | none => (.error .unknownClaim, s)
    | some expiresAt =>
      let s := { s with claims := removeKey claim s.claims }
      if expiresAt≤now then (.error .expiredClaim, s)
      else
        let request := crypto.pairingRequest id verifyingKey label requestedCapabilities
        (.ok request,
          { s with
            pending := insertKey id { request, verifyingKey, resolution := .pending } s.pending })

/-- The devices with a notifier and those of approved, unfinished pairings. -/
def knownDevices (s : AuthorityState κ) : Finset String :=
  (s.deviceNotifiers ++ s.pending.filterMap fun c => c.2.approvedDevice).toFinset

/-- `ticket` is what `random_secret` drew. -/
def approve (maxDevices : Nat) (pairingId : String) (capabilities : List ClientCapability)
    (ticket : String) (s : AuthorityState κ) : Except AuthError TicketGrant × AuthorityState κ :=
  match s.pending.lookup pairingId with
  | none => (.error .pairingNotFound, s)
  | some p =>
    if p.request.deviceId ∉ s.knownDevices ∧ maxDevices ≤ s.knownDevices.card then
      (.error .deviceLimitReached, s)
    else if !p.isPending then (.error .pairingAlreadyResolved, s)
    else
      let capabilities := deduplicateCapabilities capabilities
      if capabilities.any fun c => decide (c ∉ p.request.requestedCapabilities) then
        (.error .capabilitiesNotRequested, s)
      else
        (.ok (p.grant ticket capabilities),
          { s with pending := insertKey pairingId (p.approve ticket capabilities) s.pending })

def deny (pairingId : String) (s : AuthorityState κ) : Except AuthError Unit × AuthorityState κ :=
  match s.pending.lookup pairingId with
  | none => (.error .pairingNotFound, s)
  | some p =>
    if !p.isPending then (.error .pairingAlreadyResolved, s)
    else (.ok (), { s with pending := insertKey pairingId { p with resolution := .denied } s.pending })

def approvedGrant (pairingId : String) (s : AuthorityState κ) :
    Option (TicketGrant × TicketState κ) :=
  match s.pending.lookup pairingId with
  | some { resolution := .approved grant ticket, .. } => some (grant, ticket)
  | _ => none

def install (grant : TicketGrant) (ticket : TicketState κ) (s : AuthorityState κ) :
    AuthorityState κ :=
  if s.tickets.any fun c => c.1≠grant.ticket ∧ c.2.deviceId=grant.deviceId then
    { s with
      deviceNotifiers :=
        grant.deviceId :: s.deviceNotifiers.filter fun d => decide (d≠grant.deviceId)
      tickets := insertKey grant.ticket ticket
        (s.tickets.filter fun c => decide (c.2.deviceId≠grant.deviceId)) }
  else
    { s with
      deviceNotifiers :=
        if grant.deviceId ∈ s.deviceNotifiers then s.deviceNotifiers
        else grant.deviceId :: s.deviceNotifiers
      tickets := insertKey grant.ticket ticket s.tickets }

def abortPairing (pairingId : String) (s : AuthorityState κ) : AuthorityState κ :=
  { s with pending := removeKey pairingId s.pending }

def finishPairing (pairingId : String) (s : AuthorityState κ) : AuthorityState κ :=
  match s.approvedGrant pairingId with
  | some (grant, ticket) => (s.abortPairing pairingId).install grant ticket
  | none => s.abortPairing pairingId

def authenticate (crypto : DeviceCrypto κ σ) (ticket devicePublicKey challenge signature : String)
    (s : AuthorityState κ) : Except AuthError AuthenticatedDevice :=
  match crypto.decodeVerifyingKey devicePublicKey with
  | none => .error .invalidDeviceKey
  | some presentedKey =>
    match s.tickets.lookup ticket with
    | none => .error .unknownTicket
    | some ticketState =>
      if ticketState.verifyingKey ≠ presentedKey then .error .deviceKeyMismatch
      else
        match crypto.decodeSignature signature with
        | none => .error .invalidSignature
        | some signature =>
          if crypto.verify presentedKey (authMessage challenge ticket) signature then
            .ok
              { deviceId := ticketState.deviceId
                label := ticketState.label
                capabilities := ticketState.capabilities }
          else .error .invalidSignature

/-- Approved pairings that are not finished are left as they are. -/
def revokeDevice (deviceId : String) (s : AuthorityState κ) : Bool × AuthorityState κ :=
  let tickets := s.tickets.filter fun c => decide (c.2.deviceId≠deviceId)
  (tickets.length ≠ s.tickets.length,
    { s with
      tickets
      deviceNotifiers := s.deviceNotifiers.filter fun d => decide (d≠deviceId) })

end AuthorityState

/-- What the registry has answered, with the values it drew. -/
inductive AccessEvent where
  | claimCreated (secret : String) (now : Nat)
  | submitted (claim : String) (now : Nat) (requested : List ClientCapability)
      (request : PendingPairing)
  | approved (request : PendingPairing) (grant : TicketGrant)
  | finished (grant : TicketGrant)
  | revoked (deviceId : String)
  | authenticated (ticket : String) (device : AuthenticatedDevice)
  deriving DecidableEq

namespace AccessEvent

def drawn : AccessEvent → Option String
  | claimCreated secret _ => some secret
  | submitted _ _ _ request => some request.id
  | approved _ grant => some grant.ticket
  | finished _ | revoked _ | authenticated .. => none

def acceptedClaim : AccessEvent → Option String
  | submitted claim .. => some claim
  | _ => none

end AccessEvent

/-- A call on the registry; `secret`, `id` and `ticket` are the random values it draws. -/
inductive RegistryCall where
  | createClaim (secret : String) (now : Nat)
  | submitPairing (claim devicePublicKey label : String)
      (requestedCapabilities : List ClientCapability) (now : Nat) (id : String)
  | approve (pairingId : String) (capabilities : List ClientCapability) (ticket : String)
  | deny (pairingId : String)
  | finishPairing (pairingId : String)
  | abortPairing (pairingId : String)
  | authenticate (ticket devicePublicKey challenge signature : String)
  | revokeDevice (deviceId : String)

/-- The registry with the record of what it answered, newest first. -/
structure Registry (κ : Type) where
  state : AuthorityState κ := {}
  log : List AccessEvent := []

/-- What the registry is set up with. -/
structure PairingConfig where
  claimTtl : Nat
  maxDevices : Nat

namespace Registry

variable {κ σ : Type} [DecidableEq κ]

/-- Random values are drawn from 122 bits or more: no value is drawn twice. -/
def Fresh (v : String) (s : Registry κ) : Prop := v ∉ s.log.filterMap AccessEvent.drawn

instance (v : String) (s : Registry κ) : Decidable (s.Fresh v) :=
  inferInstanceAs (Decidable (_ ∉ _))

def record {α : Type} (s : Registry κ) (event : α → AccessEvent) :
    Except AuthError α × AuthorityState κ → Registry κ
  | (.ok a, state) => { state, log := event a :: s.log }
  | (.error _, state) => { s with state }

def step (crypto : DeviceCrypto κ σ) (cfg : PairingConfig) (s : Registry κ) :
    RegistryCall → Option (Registry κ)
  | .createClaim secret now =>
    if s.Fresh secret then
      some
        { state := s.state.createClaimAt cfg.claimTtl secret now
          log := .claimCreated secret now :: s.log }
    else none
  | .submitPairing claim devicePublicKey label requested now id =>
    if s.Fresh id then
      some (s.record (.submitted claim now requested)
        (s.state.submitPairingAt crypto claim devicePublicKey label requested now id))
    else none
  | .approve pairingId capabilities ticket =>
    if s.Fresh ticket then
      match s.state.pending.lookup pairingId with
      | none => some s
      | some p =>
        some (s.record (.approved p.request)
          (s.state.approve cfg.maxDevices pairingId capabilities ticket))
    else none
  | .deny pairingId => some { s with state := (s.state.deny pairingId).2 }
  | .finishPairing pairingId =>
    some
      { state := s.state.finishPairing pairingId
        log := ((s.state.approvedGrant pairingId).map fun g => .finished g.1).toList ++ s.log }
  | .abortPairing pairingId => some { s with state := s.state.abortPairing pairingId }
  | .authenticate ticket devicePublicKey challenge signature =>
    match s.state.authenticate crypto ticket devicePublicKey challenge signature with
    | .ok device => some { s with log := .authenticated ticket device :: s.log }
    | .error _ => some s
  | .revokeDevice deviceId =>
    some { state := (s.state.revokeDevice deviceId).2, log := .revoked deviceId :: s.log }

def system (crypto : DeviceCrypto κ σ) (cfg : PairingConfig) :
    System (Registry κ) RegistryCall where
  init := {}
  step := step crypto cfg

end Registry

end Daimonos.Remote
