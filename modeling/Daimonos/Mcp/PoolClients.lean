import Daimonos.Mcp.ClientPool

namespace Daimonos.Mcp

open Framework List PoolSlot Option

namespace PoolSlot

variable {κ : Type} {slot slot' : PoolSlot κ} {next : Nat}

theorem isAlive_eq_false_iff : slot.isAlive=false ↔
    slot.queued=0 ∧ slot.waiting=0 ∧ slot.guard=none ∧ slot.leases = [] ∧
      slot.shutdowns = [] ∧ slot.returning=0 := by
  simp [isAlive,and_assoc]

theorem Exact.started_eq_nil (h : slot.Exact) (hsound : Sound next slot)
    (hdead : slot.isAlive=false) : slot.started = [] := by
  obtain ⟨-,-,hguard,hleases,hshutdowns,-⟩ := isAlive_eq_false_iff.mp hdead
  obtain ⟨-,hstarted⟩ := h.started_eq fun c hc => by rw [hguard] at hc; cases hc
  rcases shaped_iff.mp hsound.shaped with hempty | ⟨-,⟨client,n,hready⟩ | hshutting⟩
  · rw [hstarted,current,hguard,hempty.1]
    rfl
  · rw [hready.2.1] at hleases
    cases hleases
  · obtain ⟨client,exited,heq⟩ := hshutting.2.2
    rw [heq] at hshutdowns
    cases hshutdowns

theorem length_started_le_one (h : slot.Exact) : slot.started.length≤1 := by
  by_cases hclosing : ∃ c, slot.guard = some (.closing c)
  · obtain ⟨c,hguard⟩ := hclosing
    rw [Exact,hguard] at h
    rcases h with ⟨-,hstarted⟩ | ⟨-,hstarted⟩
    · simp [hstarted]
    · simp [hstarted]
  · obtain ⟨-,hstarted⟩ := h.started_eq fun c hc => hclosing ⟨c,hc⟩
    rw [hstarted]
    cases slot.current with
    | none | some c => simp

theorem isAlive_of_act {action : SlotAction} (hact : slot.act next action = some slot')
    (halive : slot'.isAlive=true) : slot.isAlive=true := by
  by_contra hnot
  rw [Bool.not_eq_true] at hnot
  obtain ⟨hqueued,hwaiting,hguard,hleases,hshutdowns,hreturning⟩ := isAlive_eq_false_iff.mp hnot
  cases action with
  | rejectedExits =>
    obtain ⟨-,rfl⟩ := of_guarded hact
    exact absurd (hnot.symm.trans halive) (by decide)
  | lock | cancelQueued => simp [act,hqueued] at hact
  | connectFails | createClient | handshakeReady | handshakeSelf | handshakeFails | failureReturns
  | cancelConnect => simp [act,hguard] at hact
  | cancelWaiting => simp [act,hwaiting] at hact
  | release => simp [act,hleases] at hact
  | returns => simp [act,hreturning] at hact
  | clientExits | shutdownReports => simp [act,hshutdowns] at hact

theorem key_lock : slot.lock.key=slot.key := by
  unfold lock
  dsimp only
  split <;> rfl

theorem key_releaseLease (client : Nat) : (slot.releaseLease client).key = slot.key := by
  unfold releaseLease
  dsimp only
  split
  · split_ifs <;> rfl
  · rfl
  · rfl

theorem key_of_act {action : SlotAction} (hact : slot.act next action = some slot') :
    slot'.key=slot.key := by
  cases action with
  | lock =>
    obtain ⟨-,rfl⟩ := of_guarded hact
    exact key_lock
  | release client =>
    obtain ⟨-,rfl⟩ := of_guarded hact
    exact key_releaseLease client
  | handshakeReady | handshakeSelf | handshakeFails =>
    obtain ⟨client,-,rfl⟩ := of_handshake hact
    rfl
  | failureReturns =>
    obtain ⟨client,-,rfl⟩ := of_closing hact
    rfl
  | connectFails | createClient | cancelQueued | cancelWaiting | cancelConnect | returns
  | clientExits client | shutdownReports client | rejectedExits client =>
    obtain ⟨-,rfl⟩ := of_guarded hact
    rfl

end PoolSlot

namespace ClientPool

variable {κ : Type} [DecidableEq κ] {s s' : ClientPool κ}

/-- The clients of a server key that are started and not shut down. -/
def startedFor (key : κ) (s : ClientPool κ) : List Nat :=
  (s.slots.filter fun slot => decide (slot.key=key)).flatMap started

/-- The step leaves no client behind that is neither shut down nor in the pool: an acquire is not
cancelled between the creation of its client and the end of the handshake, and a client whose
handshake failed is shut down before the connection attempt ends. -/
def shutsInTime (s : ClientPool κ) : PoolAction κ → Prop
  | .lookUp _ => True
  | .slot i action => ∀ slot ∈ s.slots[i]?, slot.disposes action

instance (s : ClientPool κ) (action : PoolAction κ) : Decidable (shutsInTime s action) := by
  cases action with
  | lookUp => exact inferInstanceAs (Decidable True)
  | slot i action => exact inferInstanceAs (Decidable (∀ slot ∈ s.slots[i]?, slot.disposes action))

variable {action : PoolAction κ}

/-- A slot after a step: it is as it was, an acquire has come to it, or a task has acted on it. -/
theorem slot_of_step (hstep : s.step action = some s') {i : Nat}
    {slot' : PoolSlot κ} (hslot : s'.slots[i]? = some slot') :
    (∃ slot a, s.slots[i]? = some slot ∧ action = .slot i a ∧
      slot.act s.nextClient a = some slot' ∧ s'.nextClient = nextAfter s.nextClient a) ∨
    (∃ slot, s.slots[i]? = some slot ∧ (slot'=slot ∨ slot' = { slot with queued := slot.queued+1 }) ∧
      s.nextClient ≤ s'.nextClient) ∨ ∃ key, i=s.slots.length ∧ slot' = { key, queued := 1 } := by
  cases action with
  | lookUp key =>
    obtain rfl := some.inj hstep
    unfold lookUp at hslot ⊢
    dsimp only at hslot ⊢
    cases hfind : lookupKey key (s.registry.filter fun c => s.slots[c.2]?.any isAlive) with
    | some j =>
      rw [hfind] at hslot
      rw [getElem?_modify] at hslot
      obtain ⟨slot,hold,hmodify⟩ := map_eq_some_iff.mp hslot
      refine .inr (.inl ⟨slot,hold,?_,Nat.le_refl _⟩)
      split_ifs at hmodify with hj
      · exact .inr hmodify.symm
      · exact .inl hmodify.symm
    | none =>
      rw [hfind] at hslot
      rcases Nat.lt_trichotomy i s.slots.length with hlt | heq | hgt
      · rw [getElem?_append_left hlt] at hslot
        exact .inr (.inl ⟨slot',hslot,.inl rfl,Nat.le_refl _⟩)
      · subst heq
        rw [getElem?_concat_length] at hslot
        exact .inr (.inr ⟨key,rfl,(some.inj hslot).symm⟩)
      · rw [getElem?_eq_none (by simp; omega)] at hslot
        cases hslot
  | slot j a =>
    obtain ⟨old,hold,hmap⟩ := bind_eq_some_iff.mp hstep
    obtain ⟨new,hact,rfl⟩ := map_eq_some_iff.mp hmap
    dsimp only at hslot ⊢
    by_cases hij : j=i
    · subst hij
      have hlt : j < s.slots.length := (List.getElem?_eq_some_iff.mp hold).1
      rw [List.getElem?_set_self hlt] at hslot
      obtain rfl := some.inj hslot
      exact .inl ⟨old,a,hold,rfl,hact,rfl⟩
    · rw [getElem?_set_ne hij] at hslot
      refine .inr (.inl ⟨slot',hslot,.inl rfl,?_⟩)
      split_ifs <;> omega

def Sound (s : ClientPool κ) : Prop :=
  ∀ (i : Nat) (slot : PoolSlot κ), s.slots[i]? = some slot → slot.Sound s.nextClient

theorem Sound.step (h : s.Sound) (hstep : s.step action = some s') :
    s'.Sound := by
  intro i slot' hslot
  obtain ⟨slot,a,hold,-,hact,hnext⟩ | ⟨slot,hold,hsame,hnext⟩ | ⟨key,-,rfl⟩ :=
    slot_of_step hstep hslot
  · rw [hnext]
    exact (h i slot hold).act hact
  · have hsound := (h i slot hold).mono hnext
    rcases hsame with rfl | rfl
    · exact hsound
    · exact ⟨hsound.shaped,hsound.current,hsound.rejected⟩
  · refine ⟨⟨rfl,rfl,rfl⟩,?_,?_⟩
    · rintro c ⟨⟩
    · rintro c ⟨⟩

theorem sound_of_reaches {ok : ClientPool κ → PoolAction κ → Prop} (h : (system κ).Reaches ok s) :
    s.Sound := by
  refine h.invariant ?_ fun s a s' hs _ hstep => hs.step hstep
  intro i slot hslot
  cases hslot

def Exact (s : ClientPool κ) : Prop :=
  ∀ (i : Nat) (slot : PoolSlot κ), s.slots[i]? = some slot → slot.Exact

theorem Exact.step (h : s.Exact) (hsound : s.Sound)
    (hok : shutsInTime s action) (hstep : s.step action = some s') : s'.Exact := by
  intro i slot' hslot
  obtain ⟨slot,a,hold,rfl,hact,-⟩ | ⟨slot,hold,hsame,-⟩ | ⟨key,-,rfl⟩ :=
    slot_of_step hstep hslot
  · exact (h i slot hold).act (hsound i slot hold) (hok slot hold) hact
  · rcases hsame with rfl | rfl
    · exact h i slot' hold
    · exact h i slot hold
  · exact ⟨rfl,rfl⟩

structure Registered (s : ClientPool κ) : Prop where
  held : ∀ i slot, s.slots[i]? = some slot → slot.isAlive=true →
    lookupKey slot.key s.registry = some i
  keyed : ∀ c∈s.registry, ∃ slot, s.slots[c.2]? = some slot ∧ slot.key=c.1

theorem Registered.lookUp (h : s.Registered) (key : κ) : (s.lookUp key).Registered := by
  unfold ClientPool.lookUp
  dsimp only
  generalize hregistry : s.registry.filter (fun c => s.slots[c.2]?.any isAlive) = registry
  have hheld : ∀ i slot, s.slots[i]? = some slot → slot.isAlive=true →
      lookupKey slot.key registry = some i := by
    intro i slot hslot halive
    rw [← hregistry]
    refine lookupKey_filter (h.held i slot hslot halive) ?_
    simp [hslot,halive]
  have hkeyed : ∀ c∈registry, ∃ slot, s.slots[c.2]? = some slot ∧ slot.key=c.1 := by
    intro c hc
    rw [← hregistry] at hc
    exact h.keyed c (mem_of_mem_filter hc)
  cases hfind : lookupKey key registry with
  | some j =>
    -- the slot that was found is held by somebody already
    have hmem := mem_of_lookupKey hfind
    rw [← hregistry] at hmem
    have hheldj : s.slots[j]?.any isAlive = true := (mem_filter.mp hmem).2
    refine ⟨fun i slot hslot halive => ?_,fun c hc => ?_⟩
    · rw [getElem?_modify] at hslot
      obtain ⟨old,hold,hmodify⟩ := map_eq_some_iff.mp hslot
      split_ifs at hmodify with hj
      · subst hj
        rw [hold,any_some] at hheldj
        rw [← hmodify]
        exact hheld j old hold hheldj
      · subst hmodify
        exact hheld i old hold halive
    · obtain ⟨slot,hslot,hkey⟩ := hkeyed c hc
      rw [getElem?_modify,hslot]
      refine ⟨_,rfl,?_⟩
      split_ifs
      · exact hkey
      · exact hkey
  | none =>
    have hlength : ∀ i slot, s.slots[i]? = some slot → i < s.slots.length := fun i slot hslot =>
      (List.getElem?_eq_some_iff.mp hslot).1
    refine ⟨fun i slot hslot halive => ?_,fun c hc => ?_⟩
    · rw [lookupKey_insertKey]
      rcases Nat.lt_trichotomy i s.slots.length with hlt | heq | hgt
      · rw [getElem?_append_left hlt] at hslot
        have hlookup := hheld i slot hslot halive
        rw [if_neg,hlookup]
        rintro rfl
        rw [hfind] at hlookup
        cases hlookup
      · subst heq
        rw [getElem?_concat_length] at hslot
        obtain rfl := some.inj hslot
        rw [if_pos rfl]
      · rw [getElem?_eq_none (by simp; omega)] at hslot
        cases hslot
    · rcases mem_insertKey.mp hc with rfl | ⟨hold,-⟩
      · exact ⟨_,getElem?_concat_length,rfl⟩
      · obtain ⟨slot,hslot,hkey⟩ := hkeyed c hold
        exact ⟨slot,by rw [getElem?_append_left (hlength _ _ hslot),hslot],hkey⟩

theorem Registered.step (h : s.Registered) (hstep : s.step action = some s') : s'.Registered := by
  cases action with
  | lookUp key =>
    obtain rfl := some.inj hstep
    exact h.lookUp key
  | slot j =>
    obtain ⟨old,hold,hmap⟩ := bind_eq_some_iff.mp hstep
    obtain ⟨new,hact,rfl⟩ := map_eq_some_iff.mp hmap
    have hlt : j < s.slots.length := (List.getElem?_eq_some_iff.mp hold).1
    have hkey := key_of_act hact
    refine ⟨fun i slot hslot halive => ?_,fun c hc => ?_⟩
    · by_cases hij : j=i
      · subst hij
        rw [List.getElem?_set_self hlt] at hslot
        obtain rfl := some.inj hslot
        rw [hkey]
        exact h.held j old hold (isAlive_of_act hact halive)
      · rw [getElem?_set_ne hij] at hslot
        exact h.held i slot hslot halive
    · obtain ⟨slot,hslot,hslotKey⟩ := h.keyed c hc
      by_cases hij : j=c.2
      · subst hij
        obtain rfl := some.inj (hold.symm.trans hslot)
        exact ⟨new,List.getElem?_set_self hlt,hkey.trans hslotKey⟩
      · exact ⟨slot,by rw [getElem?_set_ne hij,hslot],hslotKey⟩

theorem Registered.of_reaches {ok : ClientPool κ → PoolAction κ → Prop}
    (h : (system κ).Reaches ok s) : s.Registered := by
  refine h.invariant ⟨?_,?_⟩ fun s a s' hs _ hstep => hs.step hstep
  · intro i slot hslot
    cases hslot
  · intro c hc
    cases hc

theorem exact_of_reaches (h : (system κ).Reaches shutsInTime s) : s.Exact := by
  have hboth := h.invariant (I := fun s => s.Sound ∧ s.Exact) ⟨?_,?_⟩
    fun s a s' hs hok hstep => ⟨hs.1.step hstep,hs.2.step hs.1 hok hstep⟩
  · exact hboth.2
  · intro i slot hslot
    cases hslot
  · intro i slot hslot
    cases hslot

theorem started_apart (hsound : s.Sound) (hexact : s.Exact) (hregistered : s.Registered) :
    s.slots.Pairwise fun a b => a.key=b.key → a.started = [] ∨ b.started = [] := by
  rw [pairwise_iff_getElem]
  intro i j hi hj hlt hkey
  by_contra hboth
  rw [not_or] at hboth
  have halive : ∀ k (hk : k < s.slots.length), s.slots[k].started ≠ [] →
      lookupKey s.slots[k].key s.registry = some k := by
    intro k hk hne
    have hslot := getElem?_eq_getElem hk
    refine hregistered.held k _ hslot ?_
    by_contra hdead
    rw [Bool.not_eq_true] at hdead
    exact hne ((hexact k _ hslot).started_eq_nil (hsound k _ hslot) hdead)
  have hlookup := (halive i hi hboth.1).symm.trans (hkey ▸ halive j hj hboth.2)
  have hij := some.inj hlookup
  omega

theorem length_startedFor_le_one {slots : List (PoolSlot κ)} (key : κ)
    (hone : ∀ slot∈slots, slot.started.length≤1)
    (hapart : slots.Pairwise fun a b => a.key=b.key → a.started = [] ∨ b.started = []) :
    ((slots.filter fun slot => decide (slot.key=key)).flatMap started).length ≤ 1 := by
  induction slots with
  | nil => simp
  | cons slot rest ih =>
    obtain ⟨hslot,hrest⟩ := pairwise_cons.mp hapart
    have ih' := ih (fun a ha => hone a (mem_cons_of_mem _ ha)) hrest
    by_cases hkey : slot.key=key
    · rw [filter_cons_of_pos (by simpa using hkey),flatMap_cons,length_append]
      by_cases hstarted : slot.started = []
      · rw [hstarted]
        simpa using ih'
      · have hothers : (rest.filter fun slot => decide (slot.key=key)).flatMap started =
            [] := by
          rw [flatMap_eq_nil_iff]
          intro other hother
          obtain ⟨hmem,hotherKey⟩ := mem_filter.mp hother
          have hsame : slot.key=other.key := hkey.trans (of_decide_eq_true hotherKey).symm
          exact (hslot other hmem hsame).resolve_left hstarted
        rw [hothers,length_nil,Nat.add_zero]
        exact hone slot mem_cons_self
    · rw [filter_cons_of_neg (by simpa using hkey)]
      exact ih'

end ClientPool

namespace PoolSlot

variable {κ : Type} {slot : PoolSlot κ} {next : Nat}

/-- What holds of the leases, the last release and the waiting acquires of a slot. -/
structure Served (slot : PoolSlot κ) : Prop where
  /-- A client with a lease is started, and no task shuts it down. -/
  leased : ∀ c∈slot.leases, c∈slot.started ∧ c ∉ slot.rejected ∧ slot.shutdowns = []
  /-- The release of the last lease starts the shutdown of the client. -/
  lastRelease : ∀ (c next : Nat), slot.leases = [c] → ∃ slot', slot.act next (.release c) = some slot' ∧
    slot'.state=.shuttingDown ∧ slot'.shutdowns = [(c, false)]
  /-- Before it, a release leaves the client as it is. -/
  earlierRelease : ∀ (c next : Nat), c∈slot.leases → slot.leases ≠ [c] →
    ∃ slot', slot.act next (.release c) = some slot' ∧ slot'.shutdowns = [] ∧ c∈slot'.leases
  /-- An acquire waits only while there is a task that will wake it. -/
  waiting : 0 < slot.waiting → ∃ c exited, slot.shutdowns = [(c, exited)]
  /-- When the client has exited, that task frees the slot, and all who wait go on to the lock. -/
  proceeds : ∀ (c next : Nat), (c, true) ∈ slot.shutdowns →
    ∃ slot', slot.act next (.shutdownReports c) = some slot' ∧ slot'.state=.empty ∧
      slot'.waiting=0 ∧ slot'.queued=slot.queued+slot.waiting ∧ slot'.guard=none

theorem Sound.served (h : Sound next slot) : slot.Served where
  leased c hc := by
    obtain ⟨n,-,-,-,hshutdowns,-,hstarted,hrejected,-⟩ := h.leased hc
    exact ⟨hstarted,hrejected,hshutdowns⟩
  lastRelease c number hleases := by
    have hmem : c∈slot.leases := by simp [hleases]
    obtain ⟨n,hguard,-,-,hshutdowns,-⟩ := h.leased hmem
    refine ⟨slot.releaseLease c,if_pos ⟨hguard,hmem⟩,?_,?_⟩
    · rw [h.releaseLease_eq hmem,if_pos hleases]
      rfl
    · rw [h.releaseLease_eq hmem,if_pos hleases]
      change (c, false) :: slot.shutdowns = _
      rw [hshutdowns]
  earlierRelease c number hmem hmore := by
    obtain ⟨n,hguard,-,hleases,hshutdowns,-⟩ := h.leased hmem
    refine ⟨slot.releaseLease c,if_pos ⟨hguard,hmem⟩,?_,?_⟩
    · rw [h.releaseLease_eq hmem,if_neg hmore]
      exact hshutdowns
    · rw [h.releaseLease_eq hmem,if_neg hmore]
      rw [hleases] at hmore ⊢
      cases n with
      | zero => exact absurd rfl hmore
      | succ n => simp [erase_replicate_self]
  waiting hpositive := by
    rcases shaped_iff.mp h.shaped with hempty | ⟨-,⟨client,n,hready⟩ | hshutting⟩
    · exact absurd hempty.2.2.2 hpositive.ne'
    · exact absurd hready.2.2.2 hpositive.ne'
    · exact hshutting.2.2
  proceeds c number hmem := by
    obtain ⟨hguard,hstate,-,-⟩ := h.shutting hmem
    refine ⟨slot.reportShutdown c,if_pos ⟨hguard,hmem⟩,?_,rfl,rfl,hguard⟩
    exact if_pos hstate

end PoolSlot

namespace ClientPool

variable {κ : Type} [DecidableEq κ]

/-- In every interleaving the leases of a slot are counted right, and a server key has one running
client at most as long as shutdowns end in time. -/
theorem pool_clients (s : ClientPool κ) (h : (system κ).Reaches (fun _ _ => True) s) :
    (∀ slot∈s.slots, slot.Served) ∧
    (∀ c∈s.registry, ∃ slot, s.slots[c.2]? = some slot ∧ slot.key=c.1) ∧
    ((system κ).Reaches shutsInTime s → ∀ key, (s.startedFor key).length ≤ 1) := by
  refine ⟨fun slot hslot => ?_,(Registered.of_reaches h).keyed,fun hintime key => ?_⟩
  · obtain ⟨i,hi⟩ := mem_iff_getElem?.mp hslot
    exact (sound_of_reaches h i slot hi).served
  · have hexact := exact_of_reaches hintime
    refine length_startedFor_le_one key (fun slot hslot => ?_)
      (started_apart (sound_of_reaches h) hexact (Registered.of_reaches h))
    obtain ⟨i,hi⟩ := mem_iff_getElem?.mp hslot
    exact length_started_le_one (hexact i slot hi)

/-- Two acquires share a client; while it is shut down after the second release a third one waits,
and then starts its own. -/
def sharedSchedule : List (PoolAction Nat) :=
  [.lookUp 7, .lookUp 7, .slot 0 .lock, .slot 0 .createClient, .slot 0 .handshakeReady,
    .slot 0 .lock, .slot 0 (.release 0), .slot 0 (.release 0), .lookUp 7, .slot 0 .lock,
    .slot 0 .returns, .slot 0 (.clientExits 0), .slot 0 (.shutdownReports 0), .slot 0 .lock,
    .slot 0 .createClient]

/-- The third acquire of the schedule has the only running client. -/
theorem pool_clients_shared : ∃ s : ClientPool Nat,
    (system Nat).replay shutsInTime sharedSchedule = some s ∧ s.startedFor 7 = [1] ∧
      (∀ slot∈s.slots, slot.Served) ∧ (s.startedFor 7).length ≤ 1 := by
  obtain ⟨s,hrun,hreach,hstarted⟩ := System.exists_of_replay (system Nat) shutsInTime
    sharedSchedule (fun s => s.startedFor 7 = [1]) (by decide +kernel)
  have hany : (system Nat).Reaches (fun _ _ => True) s :=
    hreach.invariant .init fun _ _ _ h _ hs => h.step trivial hs
  have hclients := pool_clients s hany
  exact ⟨s,hrun,hstarted,hclients.1,hclients.2.2 hreach 7⟩

/-- The handshake fails and the client does not exit before the timeout; the next acquire connects. -/
def slowFailureSchedule : List (PoolAction Nat) :=
  [.lookUp 7, .slot 0 .lock, .slot 0 .createClient, .slot 0 .handshakeFails,
    .slot 0 .failureReturns, .lookUp 7, .slot 1 .lock, .slot 1 .createClient]

/-- The acquire is cancelled while it shakes hands; the next one connects. -/
def cancelledSchedule : List (PoolAction Nat) :=
  [.lookUp 7, .slot 0 .lock, .slot 0 .createClient, .slot 0 .cancelConnect, .lookUp 7,
    .slot 1 .lock, .slot 1 .createClient]

/-- Two schedules that leave a server key with two running clients. -/
theorem clients_overlap :
    (∃ s : ClientPool Nat, (system Nat).Reaches (fun _ _ => True) s ∧ s.startedFor 7 = [0, 1] ∧
      (system Nat).replay (fun _ _ => True) slowFailureSchedule = some s) ∧
    ∃ s : ClientPool Nat, (system Nat).Reaches (fun _ _ => True) s ∧ s.startedFor 7 = [0, 1] ∧
      (system Nat).replay (fun _ _ => True) cancelledSchedule = some s := by
  have hrun {schedule : List (PoolAction Nat)}
      (h : ((system Nat).replay (fun _ _ => True) schedule).map (startedFor 7) = some [0, 1]) :
      ∃ s : ClientPool Nat, (system Nat).Reaches (fun _ _ => True) s ∧ s.startedFor 7 = [0, 1] ∧
        (system Nat).replay (fun _ _ => True) schedule = some s := by
    obtain ⟨s,hs,hstarted⟩ := Option.map_eq_some_iff.mp h
    exact ⟨s,System.reaches_of_replay hs,hstarted,hs⟩
  exact ⟨hrun (by decide +kernel),hrun (by decide +kernel)⟩

end ClientPool

end Daimonos.Mcp
