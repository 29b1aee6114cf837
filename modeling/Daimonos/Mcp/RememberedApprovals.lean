import Daimonos.Safety
import Daimonos.Framework.Transition
import Daimonos.Session.Protocol
import Daimonos.Mcp.Bridge

namespace Daimonos.Mcp

open Framework Session List

variable {κ : Type}

def Bridge.target (name : List Char) (b : Bridge κ) : Option (κ × List Char) :=
  (lookupKey name b.routes).bind fun route =>
    b.leases[route.lease]?.map fun lease => (lease.client, route.original)

/-- A session with its bridge. While it asks for approval of a call, its agent lock is held. -/
structure McpSession (κ : Type) where
  bridge : Bridge κ
  asking : Option (List Char) := none

/-- `granted` are the `AllowAlways` answers with what the call was for; `silent` are the remote calls
that ran on the strength of one. -/
structure Host (κ : Type) where
  autoApprove : List String
  sessions : List (McpSession κ) := []
  granted : List (List Char × Option (κ × List Char)) := []
  silent : List (List Char × κ × List Char) := []

inductive HostAction (κ : Type) where
  | openSession (cfg : AcpMcpConfig) (native : List (List Char)) (specs : List (ServerSpec κ))
  | refreshLiveMcpBridge (i : Nat) (cfg : AcpMcpConfig) (native : List (List Char))
      (specs : List (ServerSpec κ))
  | shutdownSessionBridge (i : Nat)
  | call (i : Nat) (name : List Char)
  | answer (i : Nat) (decision : ApprovalDecision)

namespace Host

variable (policy : SafetyPolicy)

def safety (s : Host κ) : SafetyPolicy := { policy with autoApprove := s.autoApprove }

/-- The gate lets the call through, which it would not but for an answer given in this process. -/
def onStrengthOfAnswer (name : List Char) (s : Host κ) : Bool :=
  decide ((s.safety policy).gate (String.ofList name) = .allow) &&
    decide (policy.gate (String.ofList name) = .needsApproval)

def runCall (i : Nat) (name : List Char) (session : McpSession κ) (s : Host κ) : Host κ :=
  match (s.safety policy).gate (String.ofList name) with
  | .block _ => s
  | .needsApproval => { s with sessions := s.sessions.set i { session with asking := some name } }
  | .allow =>
    if s.onStrengthOfAnswer policy name then
      { s with silent := s.silent ++ ((session.bridge.target name).map fun t => (name, t)).toList }
    else s

def answerApproval (i : Nat) (name : List Char) (session : McpSession κ)
    (decision : ApprovalDecision) (s : Host κ) : Host κ :=
  let sessions := s.sessions.set i { session with asking := none }
  match decision with
  | .allowAlways =>
    { s with
      sessions
      autoApprove := ((s.safety policy).rememberAlways (String.ofList name)).autoApprove
      granted := s.granted ++ [(name, session.bridge.target name)] }
  | .allowOnce | .deny => { s with sessions }

def step (s : Host κ) : HostAction κ → Option (Host κ)
  | .openSession cfg native specs =>
    some { s with
      sessions := s.sessions ++ [{ bridge := (buildWithPoolPolicy cfg native specs).bridge }] }
  | .refreshLiveMcpBridge i cfg native specs =>
    s.sessions[i]?.bind fun session =>
      if session.asking.isNone then
        let bridge := (buildWithPoolPolicy cfg native specs).bridge
        some { s with sessions := s.sessions.set i { session with bridge } }
      else none
  | .shutdownSessionBridge i =>
    s.sessions[i]?.map fun session =>
      { s with sessions := s.sessions.set i { bridge := session.bridge.shutdown } }
  | .call i name =>
    s.sessions[i]?.bind fun session =>
      if session.asking.isNone then some (s.runCall policy i name session) else none
  | .answer i decision =>
    s.sessions[i]?.bind fun session =>
      session.asking.map fun name => s.answerApproval policy i name session decision

def system (κ : Type) (policy : SafetyPolicy) : System (Host κ) (HostAction κ) :=
  { init := { autoApprove := policy.autoApprove }, step := step policy }

end Host

def offered (cfg : AcpMcpConfig) (specs : List (ServerSpec κ)) : List (List Char × κ × List Char) :=
  (connectSpecs cfg specs).flatMap fun spec =>
    match spec.outcome with
    | .connected lease =>
      (lease.tools.take cfg.maxToolsPerServer).map fun tool => (spec.name, lease.client, tool.name)
    | _ => []

namespace Host

variable (policy : SafetyPolicy)

/-- Names remembered in this process are not up for other tools: no tool of a new bridge could be
exposed under one, unless it is the tool it was given for, and none is remembered while another
session's bridge has it for another tool. -/
def keepsNames (s : Host κ) : HostAction κ → Prop
  | .openSession cfg _ specs | .refreshLiveMcpBridge _ cfg _ specs =>
    ∀ text∈s.autoApprove, text ∉ policy.autoApprove → ∀ o ∈ offered cfg specs,
      text.toList ∈ exposedNames o.1 o.2.2 → (text.toList, some o.2) ∈ s.granted
  | .answer i .allowAlways =>
    ∀ session ∈ s.sessions[i]?, ∀ name∈session.asking, ∀ other∈s.sessions,
      other.bridge.target name = none ∨ other.bridge.target name = session.bridge.target name
  | _ => True

instance [DecidableEq κ] (s : Host κ) : (a : HostAction κ) → Decidable (s.keepsNames policy a)
  | .openSession _ _ _ | .refreshLiveMcpBridge _ _ _ _ => by
    unfold keepsNames
    infer_instance
  | .answer _ .allowAlways => by
    unfold keepsNames
    infer_instance
  | .answer _ .allowOnce | .answer _ .deny | .call _ _ | .shutdownSessionBridge _ =>
    inferInstanceAs (Decidable True)

end Host

theorem mem_offered_of_target {cfg : AcpMcpConfig} {native : List (List Char)}
    {specs : List (ServerSpec κ)} {name : List Char} {t : κ × List Char}
    (h : (buildWithPoolPolicy cfg native specs).bridge.target name = some t) :
    ∃ server, (server, t) ∈ offered cfg specs ∧ name ∈ exposedNames server t.2 := by
  have hbuilt := between_build cfg native specs
  obtain ⟨route,hroute,hlease⟩ := Option.bind_eq_some_iff.mp h
  have hmem := mem_of_lookupKey hroute
  obtain ⟨e,he,hname⟩ := mem_map.mp (hbuilt.wf.known name (mem_map_of_mem hmem))
  obtain ⟨route',hroute',htool,hleads⟩ := hbuilt.wf.routed e he
  obtain rfl : route'=route := by
    rw [hname] at hroute'
    exact value_unique hbuilt.wf.keys hroute' hmem
  rw [hleads] at hlease
  cases hlease
  obtain ⟨spec,hspec,hserver,houtcome,hlisted⟩ := hbuilt.placed.listed e he
  obtain ⟨-,hform⟩ := hbuilt.wf.foreign e he
  refine ⟨e.server,?_,?_⟩
  · refine mem_flatMap.mpr ⟨spec,mem_of_getElem? hspec,?_⟩
    rw [houtcome]
    refine mem_map.mpr ⟨e.tool,mem_of_getElem? hlisted,?_⟩
    rw [hserver,htool]
  · rw [htool,← hname]
    exact hform

namespace Host

variable {policy : SafetyPolicy} {s s' : Host κ}

/-- Every live bridge has the remembered names for the tools they were given for. -/
structure Sound (policy : SafetyPolicy) (s : Host κ) : Prop where
  routed : ∀ session∈s.sessions, ∀ name t, session.bridge.target name = some t →
    String.ofList name ∈ s.autoApprove → String.ofList name ∉ policy.autoApprove →
    (name, some t) ∈ s.granted
  silent : ∀ c∈s.silent, (c.1, some c.2) ∈ s.granted

theorem mem_of_gate {approved : List String} {name : String} (hasks : policy.gate name = .needsApproval)
    (hallows : ({ policy with autoApprove := approved } : SafetyPolicy).gate name = .allow) :
    name∈approved ∧ name ∉ policy.autoApprove := by
  unfold SafetyPolicy.gate at hasks hallows
  dsimp only at hasks hallows
  by_cases hdenied : policy.deniedCommands.contains name = true
  · rw [if_pos hdenied] at hasks
    cases hasks
  by_cases hlisted : policy.allowedCommands ≠ [] ∧ ¬ policy.allowedCommands.contains name = true
  · rw [if_neg hdenied,if_pos hlisted] at hasks
    cases hasks
  split_ifs at hasks hallows with hneeds hold hnew
  exact ⟨contains_iff_mem.mp hnew,fun hmem => hold (contains_iff_mem.mpr hmem)⟩

theorem of_onStrengthOfAnswer {name : List Char} (h : s.onStrengthOfAnswer policy name = true) :
    String.ofList name ∈ s.autoApprove ∧ String.ofList name ∉ policy.autoApprove := by
  unfold onStrengthOfAnswer at h
  rw [Bool.and_eq_true,decide_eq_true_eq,decide_eq_true_eq] at h
  exact mem_of_gate h.2 h.1

theorem Sound.setSession (h : Sound policy s) {i : Nat} {session : McpSession κ}
    (hroutes : ∀ name t, session.bridge.target name = some t →
      String.ofList name ∈ s.autoApprove → String.ofList name ∉ policy.autoApprove →
      (name, some t) ∈ s.granted) :
    Sound policy { s with sessions := s.sessions.set i session } where
  routed other hother := by
    rcases mem_or_eq_of_mem_set hother with hold | rfl
    · exact h.routed other hold
    · exact hroutes
  silent := h.silent

theorem built_routed {cfg : AcpMcpConfig} {native : List (List Char)} {specs : List (ServerSpec κ)}
    (hkeeps : ∀ text∈s.autoApprove, text ∉ policy.autoApprove → ∀ o ∈ offered cfg specs,
      text.toList ∈ exposedNames o.1 o.2.2 → (text.toList, some o.2) ∈ s.granted) :
    ∀ name t, (buildWithPoolPolicy cfg native specs).bridge.target name = some t →
      String.ofList name ∈ s.autoApprove → String.ofList name ∉ policy.autoApprove →
      (name, some t) ∈ s.granted := by
  intro name t htarget hremembered hfresh
  obtain ⟨server,hoffered,hform⟩ := mem_offered_of_target htarget
  have hgranted := hkeeps _ hremembered hfresh _ hoffered
  rw [String.toList_ofList] at hgranted
  exact hgranted hform

theorem Sound.answerApproval (h : Sound policy s) {i : Nat} {name : List Char}
    {session : McpSession κ} (hsession : s.sessions[i]? = some session) (decision : ApprovalDecision)
    (hkeeps : decision=.allowAlways → ∀ other∈s.sessions,
      other.bridge.target name = none ∨ other.bridge.target name = session.bridge.target name) :
    Sound policy (s.answerApproval policy i name session decision) := by
  have hmem := mem_of_getElem? hsession
  have hset : Sound policy { s with sessions := s.sessions.set i { session with asking := none } } :=
    h.setSession (h.routed session hmem)
  cases decision with
  | allowOnce | deny => exact hset
  | allowAlways =>
    refine ⟨fun other hother name' t htarget hremembered hfresh => ?_,fun c hc => ?_⟩
    · have hbridge : ∃ session'∈s.sessions, session'.bridge=other.bridge := by
        rcases mem_or_eq_of_mem_set hother with hold | rfl
        · exact ⟨other,hold,rfl⟩
        · exact ⟨session,hmem,rfl⟩
      obtain ⟨session',hsession',heq⟩ := hbridge
      rw [← heq] at htarget
      rcases mem_insert_iff.mp hremembered with hsame | hold
      · obtain rfl : name'=name := String.ofList_injective hsame
        rcases hkeeps rfl session' hsession' with hnone | hsame
        · rw [hnone] at htarget
          cases htarget
        · rw [← htarget,hsame]
          exact mem_append_right _ (mem_singleton_self _)
      · exact mem_append_left _ (h.routed session' hsession' name' t htarget hold hfresh)
    · exact mem_append_left _ (h.silent c hc)

theorem Sound.runCall (h : Sound policy s) {i : Nat} {name : List Char} {session : McpSession κ}
    (hsession : s.sessions[i]? = some session) : Sound policy (s.runCall policy i name session) := by
  have hmem := mem_of_getElem? hsession
  unfold Host.runCall
  cases (s.safety policy).gate (String.ofList name) with
  | block => exact h
  | needsApproval => exact h.setSession (h.routed session hmem)
  | allow =>
    split_ifs with hanswer
    · refine ⟨h.routed,fun c hc => ?_⟩
      rcases mem_append.mp hc with hold | hnew
      · exact h.silent c hold
      · rw [Option.mem_toList,Option.map_eq_some_iff] at hnew
        obtain ⟨t,htarget,rfl⟩ := hnew
        obtain ⟨hremembered,hfresh⟩ := of_onStrengthOfAnswer hanswer
        exact h.routed session hmem name t htarget hremembered hfresh
    · exact h

theorem Sound.step (h : Sound policy s) {a : HostAction κ} (hkeeps : s.keepsNames policy a)
    (hstep : s.step policy a = some s') : Sound policy s' := by
  cases a with
  | openSession =>
    cases hstep
    refine ⟨fun other hother => ?_,h.silent⟩
    rcases mem_append.mp hother with hold | hnew
    · exact h.routed other hold
    · rw [mem_singleton.mp hnew]
      exact built_routed hkeeps
  | refreshLiveMcpBridge =>
    obtain ⟨session,-,hrest⟩ := Option.bind_eq_some_iff.mp hstep
    split_ifs at hrest
    cases hrest
    exact h.setSession (built_routed hkeeps)
  | shutdownSessionBridge =>
    obtain ⟨session,-,rfl⟩ := Option.map_eq_some_iff.mp hstep
    refine h.setSession fun name t htarget => ?_
    cases htarget
  | call =>
    obtain ⟨session,hsession,hrest⟩ := Option.bind_eq_some_iff.mp hstep
    split_ifs at hrest
    cases hrest
    exact h.runCall hsession
  | answer i decision =>
    obtain ⟨session,hsession,hrest⟩ := Option.bind_eq_some_iff.mp hstep
    obtain ⟨name,hname,rfl⟩ := Option.map_eq_some_iff.mp hrest
    refine h.answerApproval hsession decision ?_
    rintro rfl
    exact hkeeps session hsession name hname

theorem sound_init (policy : SafetyPolicy) : Sound policy (system κ policy).init :=
  ⟨by rintro session ⟨⟩,by rintro c ⟨⟩⟩

/-- A remote call runs without asking on the strength of an `AllowAlways` only if one was given for a
call of that name to the same tool of the same server, in every run that keeps remembered names from
other tools. -/
theorem silent_calls_granted (policy : SafetyPolicy) {s : Host κ}
    (h : (system κ policy).Reaches (keepsNames policy) s) :
    ∀ c∈s.silent, (c.1, some c.2) ∈ s.granted :=
  (h.invariant (sound_init policy) fun _ _ _ hsound hok hstep => hsound.step hok hstep).silent

def askingPolicy : SafetyPolicy := { approvalMode := .interactive }

def twoServers : AcpMcpConfig := { maxServers := 2, maxToolsPerServer := 8 }

def dotted (outcome : Outcome Nat) : ServerSpec Nat := { name := ['a', '.', 'b'], outcome }

def underscored : ServerSpec Nat :=
  { name := ['a', '_', 'b'], outcome := .connected ⟨2,[{ name := ['x'] }]⟩ }

def dottedUp : ServerSpec Nat := dotted (.connected ⟨1,[{ name := ['x'] }]⟩)

def sharedName : List Char := ['m', 'c', 'p', '_', '_', 'a', '_', 'b', '_', '_', 'x']

/-- The approved server comes back under its name. -/
theorem silent_calls_reconnected :
    ∃ s, (system Nat askingPolicy).Reaches (keepsNames askingPolicy) s ∧
      s.silent = [(sharedName, 1, ['x'])] ∧ ∀ c∈s.silent, (c.1, some c.2) ∈ s.granted := by
  obtain ⟨s,-,hreach,hsilent⟩ := System.exists_of_replay (system Nat askingPolicy)
    (keepsNames askingPolicy)
    [.openSession twoServers [] [dottedUp], .call 0 sharedName, .answer 0 .allowAlways,
      .refreshLiveMcpBridge 0 twoServers [] [dottedUp], .call 0 sharedName]
    (fun s => s.silent = [(sharedName, 1, ['x'])]) (by decide +kernel)
  exact ⟨s,hreach,hsilent,silent_calls_granted askingPolicy hreach⟩

def isMisrouted (s : Host Nat) : Bool :=
  decide (s.granted = [(sharedName, some (1, ['x']))]) &&
    decide (s.silent = [(sharedName, 2, ['x'])])

/-- The approved server fails to connect again, and the other one gets its name; or the other one has
it in a session of its own. -/
theorem silent_calls_misrouted :
    (∃ s, (system Nat askingPolicy).Reaches (fun _ _ => True) s ∧ s.sessions.length=1 ∧
      s.granted = [(sharedName, some (1, ['x']))] ∧ s.silent = [(sharedName, 2, ['x'])]) ∧
    ∃ s, (system Nat askingPolicy).Reaches (fun _ _ => True) s ∧ s.sessions.length=2 ∧
      s.granted = [(sharedName, some (1, ['x']))] ∧ s.silent = [(sharedName, 2, ['x'])] := by
  obtain ⟨s,-,hs,heq⟩ := (system Nat askingPolicy).exists_of_replay (fun _ _ => True)
    [.openSession twoServers [] [dottedUp, underscored], .call 0 sharedName, .answer 0 .allowAlways,
      .refreshLiveMcpBridge 0 twoServers [] [dotted (.failed []), underscored], .call 0 sharedName]
    (fun s => s.sessions.length=1 ∧ s.isMisrouted) (by decide +kernel)
  obtain ⟨s',-,hs',heq'⟩ := (system Nat askingPolicy).exists_of_replay (fun _ _ => True)
    [.openSession twoServers [] [dottedUp], .openSession twoServers [] [underscored],
      .call 0 sharedName, .answer 0 .allowAlways, .call 1 sharedName]
    (fun s => s.sessions.length=2 ∧ s.isMisrouted) (by decide +kernel)
  simp only [isMisrouted,Bool.and_eq_true,decide_eq_true_eq] at heq heq'
  exact ⟨⟨s,hs,heq⟩,s',hs',heq'⟩

end Host

end Daimonos.Mcp
