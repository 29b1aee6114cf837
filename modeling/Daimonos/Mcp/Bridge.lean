import Daimonos.Framework.Keyed
import Daimonos.Mcp.ToolNames

namespace Daimonos.Mcp

open Framework List

structure RemoteTool where
  name : List Char
  description : Option (List Char) := none
  inputSchema : String := "\x7b\x7d"

structure ToolSchema where
  name : List Char
  description : List Char
  inputSchema : String

/-- A pooled client with the tools it listed. -/
structure Lease (κ : Type) where
  client : κ
  tools : List RemoteTool

/-- How connecting to a server ends. -/
inductive Outcome (κ : Type) where
  | connected (lease : Lease κ)
  | rejectedSelf
  | failed (error : List Char)

/-- A forwarded server: its name, whether it is this executable, and what comes of connecting. -/
structure ServerSpec (κ : Type) where
  name : List Char
  pointsToCurrent : Bool := false
  outcome : Outcome κ

structure AcpMcpConfig where
  enabled : Bool := true
  maxServers : Nat
  maxToolsPerServer : Nat

structure Route where
  lease : Nat
  original : List Char

structure Bridge (κ : Type) where
  tools : List ToolSchema := []
  routes : List (List Char × Route) := []
  leases : List (Lease κ) := []
  diagnostics : List (List Char) := []
  hadConnectionFailures : Bool := false
  refusedSelfConnections : Nat := 0
  refusedSelfPrefixes : List (List Char) := []

variable {κ : Type}

def selfNamespacePrefixOf (server : List Char) : List Char :=
  (remoteToolPrefixText++server ++ ['_', '_']).map sanitizeChar

def recordSelfSkip (server detectedBy : List Char) (b : Bridge κ) : Bridge κ :=
  { b with
    refusedSelfConnections := b.refusedSelfConnections+1
    refusedSelfPrefixes := b.refusedSelfPrefixes ++ [selfNamespacePrefixOf server]
    diagnostics := b.diagnostics ++
      ["MCP server '".toList++server ++ "' was refused (".toList++detectedBy ++
        ("): it is a daimonos MCP server, and a daimonos agent must not connect to its own tool " ++
          "server").toList] }

/-- A tool that has been exposed: the places of its server and of itself, and what it is of. -/
structure Exposed (κ : Type) where
  place : Nat × Nat
  server : List Char
  lease : Lease κ
  tool : RemoteTool
  name : List Char

def Exposed.schema (e : Exposed κ) : ToolSchema :=
  { name := e.name
    description := e.tool.description.getD ("Remote MCP tool from ".toList++e.server)
    inputSchema := e.tool.inputSchema }

/-- The bridge with the names taken so far, and the tools exposed so far. -/
structure Build (κ : Type) where
  bridge : Bridge κ := {}
  used : List (List Char)
  exposed : List (Exposed κ) := []

namespace Build

variable (native : List (List Char))

def diagnose (message : List Char) (s : Build κ) : Build κ :=
  { s with bridge.diagnostics := s.bridge.diagnostics ++ [message] }

def registerTool (i : Nat) (server : List Char) (lease : Lease κ) (s : Build κ)
    (tool : RemoteTool × Nat) : Build κ :=
  match resolveName server tool.1.name native s.used with
  | (none, used) =>
    { s with used }.diagnose <|
      "MCP server '".toList++server ++ "': tool '".toList++tool.1.name ++
        "' was skipped because its name collides and cannot be de-duplicated".toList
  | (some name, used) =>
    let added : Exposed κ := ⟨(i, tool.2),server,lease,tool.1,name⟩
    { s with
      used
      bridge.tools := s.bridge.tools ++ [added.schema]
      bridge.routes := insertKey name ⟨s.bridge.leases.length,tool.1.name⟩ s.bridge.routes
      exposed := s.exposed ++ [added] }

def registerTools (cfg : AcpMcpConfig) (i : Nat) (server : List Char) (lease : Lease κ)
    (s : Build κ) : Build κ :=
  (lease.tools.take cfg.maxToolsPerServer).zipIdx.foldl (registerTool native i server lease) s

def warnTools (cfg : AcpMcpConfig) (server : List Char) (lease : Lease κ) (s : Build κ) : Build κ :=
  if lease.tools.length > cfg.maxToolsPerServer then
    s.diagnose <|
      "MCP server '".toList++server ++ "': ".toList ++
        decimal (lease.tools.length - cfg.maxToolsPerServer) ++
        " tool(s) were skipped by max_tools_per_server=".toList ++ decimal cfg.maxToolsPerServer
  else s

def keepClient (cfg : AcpMcpConfig) (i : Nat) (server : List Char) (lease : Lease κ) (s : Build κ) :
    Build κ :=
  let registered := s.registerTools native cfg i server lease
  if s.bridge.tools.length < registered.bridge.tools.length then
    { registered with bridge.leases := registered.bridge.leases ++ [lease] }
  else registered

def connectServer (cfg : AcpMcpConfig) (s : Build κ) (spec : ServerSpec κ × Nat) : Build κ :=
  match spec.1.outcome with
  | .connected lease =>
    (s.warnTools cfg spec.1.name lease).keepClient native cfg spec.2 spec.1.name lease
  | .rejectedSelf =>
    { s with bridge := recordSelfSkip spec.1.name "daimonos MCP identity marker".toList s.bridge }
  | .failed error =>
    { s with bridge.hadConnectionFailures := true }.diagnose <|
      "MCP server '".toList++spec.1.name ++ "' failed to connect: ".toList++error

end Build

def connectSpecs (cfg : AcpMcpConfig) (specs : List (ServerSpec κ)) : List (ServerSpec κ) :=
  if cfg.enabled then (specs.filter fun spec => !spec.pointsToCurrent).take cfg.maxServers else []

def buildWithPoolPolicy (cfg : AcpMcpConfig) (native : List (List Char))
    (specs : List (ServerSpec κ)) : Build κ :=
  if !cfg.enabled then { used := native }
  else
    let refused := (specs.filter fun spec => spec.pointsToCurrent).foldl
      (fun b spec => recordSelfSkip spec.name "matching daimonos executable".toList b)
      ({} : Bridge κ)
    let checked := specs.filter fun spec => !spec.pointsToCurrent
    let start : Build κ := { used := native, bridge := refused }
    let limited :=
      if checked.length > cfg.maxServers then
        start.diagnose <|
          decimal (checked.length-cfg.maxServers) ++
            " forwarded MCP server(s) were skipped by max_servers=".toList ++ decimal cfg.maxServers
      else start
    (connectSpecs cfg specs).zipIdx.foldl (Build.connectServer native cfg) limited

def Bridge.shutdown (b : Bridge κ) : Bridge κ := { b with routes := [], leases := [] }

namespace Build

variable {native : List (List Char)} {leases : List (Lease κ)} {s s' : Build κ}

/-- Names are taken once, and each leads to the tool it was given to. The route of a tool whose
server is being connected leads to the lease that is added once its tools are done. -/
structure Wf (native : List (List Char)) (leases : List (Lease κ)) (s : Build κ) : Prop where
  used : ∀ x, x∈s.used ↔ x∈native ∨ x ∈ s.exposed.map Exposed.name
  tools : s.bridge.tools = s.exposed.map Exposed.schema
  distinct : (s.exposed.map Exposed.name).Nodup
  foreign : ∀ e∈s.exposed, e.name ∉ native ∧ e.name ∈ exposedNames e.server e.tool.name
  keys : (s.bridge.routes.map Prod.fst).Nodup
  known : ∀ name ∈ s.bridge.routes.map Prod.fst, name ∈ s.exposed.map Exposed.name
  routed : ∀ e∈s.exposed, ∃ route, (e.name, route) ∈ s.bridge.routes ∧
    route.original=e.tool.name ∧ leases[route.lease]? = some e.lease

structure Extends (s s' : Build κ) : Prop where
  exposed : s.exposed <+: s'.exposed
  used : ∀ x∈s.used, x∈s'.used
  routes : ∀ c∈s.bridge.routes, c∈s'.bridge.routes

theorem Extends.refl (s : Build κ) : Extends s s :=
  ⟨prefix_rfl,fun _ h => h,fun _ h => h⟩

theorem Extends.trans {s'' : Build κ} (h : Extends s s') (h' : Extends s' s'') : Extends s s'' :=
  ⟨h.exposed.trans h'.exposed,fun x hx => h'.used x (h.used x hx),
    fun c hc => h'.routes c (h.routes c hc)⟩

def Accounted (native : List (List Char)) (place : Nat × Nat) (server : List Char) (tool : RemoteTool)
    (s : Build κ) : Prop :=
  (∃ e∈s.exposed, e.place=place) ∨ namespacedName server tool.name ∈ native ∨
    ∀ n, 2≤n → n≤99 → numberedName (namespacedName server tool.name) n ∈ native ∨
      numberedName (namespacedName server tool.name) n ∈ s.used

theorem Accounted.mono {place : Nat × Nat} {server : List Char} {tool : RemoteTool}
    (h : Accounted native place server tool s) (hextends : Extends s s') :
    Accounted native place server tool s' := by
  rcases h with ⟨e,he,hplace⟩ | hnative | htaken
  · exact Or.inl ⟨e,hextends.exposed.subset he,hplace⟩
  · exact Or.inr (Or.inl hnative)
  · exact Or.inr (Or.inr fun n hlow hhigh => (htaken n hlow hhigh).imp id (hextends.used _))

theorem Wf.congr (h : Wf native leases s) (hused : s'.used=s.used) (hexposed : s'.exposed=s.exposed)
    (htools : s'.bridge.tools=s.bridge.tools) (hroutes : s'.bridge.routes = s.bridge.routes) :
    Wf native leases s' where
  used := by rw [hused,hexposed]; exact h.used
  tools := by rw [htools,hexposed]; exact h.tools
  distinct := by rw [hexposed]; exact h.distinct
  foreign := by rw [hexposed]; exact h.foreign
  keys := by rw [hroutes]; exact h.keys
  known := by rw [hroutes,hexposed]; exact h.known
  routed := by rw [hroutes,hexposed]; exact h.routed

theorem Extends.of_eq (hused : s'.used=s.used) (hexposed : s'.exposed=s.exposed)
    (hroutes : s'.bridge.routes = s.bridge.routes) : Extends s s' :=
  ⟨by rw [hexposed],fun _ hx => hused ▸ hx,fun _ hc => hroutes ▸ hc⟩

/-- What a tool's turn leaves as it was, and that it is accounted for. -/
structure Registers (native : List (List Char)) (leases : List (Lease κ)) (place : Nat × Nat)
    (server : List Char) (lease : Lease κ) (tool : RemoteTool) (s s' : Build κ) : Prop where
  wf : Wf native leases s'
  grows : Extends s s'
  accounted : Accounted native place server tool s'
  leases : s'.bridge.leases = s.bridge.leases
  added : s'.exposed=s.exposed ∨ ∃ name, s'.exposed = s.exposed ++ [⟨place,server,lease,tool,name⟩]

variable {lease : Lease κ}

theorem Wf.registerTool (h : Wf native leases s)
    (hlease : leases[s.bridge.leases.length]? = some lease) (i : Nat) (server : List Char)
    (tool : RemoteTool × Nat) :
    Registers native leases (i, tool.2) server lease tool.1 s
      (s.registerTool native i server lease tool) := by
  unfold Build.registerTool
  cases hresolve : resolveName server tool.1.name native s.used with
  | mk name? used =>
    cases name? with
    | none =>
      obtain ⟨rfl,hout⟩ := of_resolveName_none hresolve
      refine ⟨h.congr rfl rfl rfl rfl,Extends.of_eq rfl rfl rfl,Or.inr ?_,rfl,Or.inl rfl⟩
      exact hout.imp id And.right
    | some name =>
      obtain ⟨hname,hnative,hfresh,rfl⟩ := of_resolveName_some hresolve
      have hunseen : name ∉ s.exposed.map Exposed.name := fun hmem =>
        hfresh ((h.used name).mpr (Or.inr hmem))
      have hkey : name ∉ s.bridge.routes.map Prod.fst := fun hmem => hunseen (h.known name hmem)
      dsimp only
      refine ⟨⟨fun x => ?_,?_,?_,fun e he => ?_,?_,fun x hx => ?_,fun e he => ?_⟩,
        ⟨prefix_append _ _,fun x hx => mem_cons_of_mem _ hx,fun c hc => ?_⟩,
        Or.inl ⟨_,mem_append_right _ (mem_singleton_self _),rfl⟩,rfl,Or.inr ⟨name,rfl⟩⟩
      · rw [map_append,mem_append,mem_cons,h.used x]
        simp only [map_singleton,mem_singleton]
        tauto
      · rw [map_append,h.tools]
        rfl
      · rw [map_append]
        refine nodup_append.mpr ⟨h.distinct,nodup_singleton _,fun a ha b hb heq => ?_⟩
        have hb' : b=name := mem_singleton.mp hb
        rw [heq,hb'] at ha
        exact hunseen ha
      · rcases mem_append.mp he with hold | hnew
        · exact h.foreign e hold
        · rw [mem_singleton.mp hnew]
          exact ⟨hnative,hname⟩
      · exact nodup_cons.mpr ⟨notMem_removeKey name _,nodup_removeKey h.keys⟩
      · rw [map_append,mem_append]
        rcases mem_cons.mp hx with rfl | hold
        · exact Or.inr (mem_singleton_self _)
        · rw [removeKey_of_notMem hkey] at hold
          exact Or.inl (h.known x hold)
      · rcases mem_append.mp he with hold | hnew
        · obtain ⟨route,hroute,htool,hleads⟩ := h.routed e hold
          refine ⟨route,?_,htool,hleads⟩
          rw [insertKey,removeKey_of_notMem hkey]
          exact mem_cons_of_mem _ hroute
        · rw [mem_singleton.mp hnew]
          exact ⟨_,mem_cons_self,rfl,hlease⟩
      · rw [insertKey,removeKey_of_notMem hkey]
        exact mem_cons_of_mem _ hc

variable {cfg : AcpMcpConfig} {specs : List (ServerSpec κ)}

/-- The tools are exposed in the order of their places, each at the place it was listed at. -/
structure Placed (cfg : AcpMcpConfig) (specs : List (ServerSpec κ)) (next : Nat × Nat) (s : Build κ) :
    Prop where
  before : ∀ e∈s.exposed, e.place.1<next.1 ∨ e.place.1=next.1 ∧ e.place.2<next.2
  nodup : (s.exposed.map Exposed.place).Nodup
  listed : ∀ e∈s.exposed, ∃ spec, specs[e.place.1]? = some spec ∧ spec.name=e.server ∧
    spec.outcome = .connected e.lease ∧
    (e.lease.tools.take cfg.maxToolsPerServer)[e.place.2]? = some e.tool

theorem Placed.later {next next' : Nat × Nat} (h : Placed cfg specs next s)
    (hle : next.1<next'.1 ∨ next.1=next'.1 ∧ next.2≤next'.2) : Placed cfg specs next' s :=
  ⟨fun e he => by have := h.before e he; omega,h.nodup,h.listed⟩

theorem Placed.of_eq {next : Nat × Nat} (h : Placed cfg specs next s) (heq : s'.exposed=s.exposed) :
    Placed cfg specs next s' :=
  ⟨by rw [heq]; exact h.before,by rw [heq]; exact h.nodup,by rw [heq]; exact h.listed⟩

theorem Placed.register {i j : Nat} {spec : ServerSpec κ} {tool : RemoteTool}
    (h : Placed cfg specs (i, j) s) (hspec : specs[i]? = some spec)
    (hlease : spec.outcome = .connected lease)
    (htool : (lease.tools.take cfg.maxToolsPerServer)[j]? = some tool)
    (hregisters : Registers native leases (i, j) spec.name lease tool s s') :
    Placed cfg specs (i, j+1) s' := by
  rcases hregisters.added with hsame | ⟨name,hadded⟩
  · exact (h.of_eq hsame).later (Or.inr ⟨rfl,Nat.le_succ j⟩)
  · refine ⟨fun e he => ?_,?_,fun e he => ?_⟩
    · rw [hadded] at he
      rcases mem_append.mp he with hold | hnew
      · have := h.before e hold
        omega
      · rw [mem_singleton.mp hnew]
        exact Or.inr ⟨rfl,Nat.lt_succ_self j⟩
    · rw [hadded,map_append]
      refine nodup_append.mpr ⟨h.nodup,nodup_singleton _,fun a ha b hb heq => ?_⟩
      obtain ⟨e,he,rfl⟩ := mem_map.mp ha
      have hb' : b = (i, j) := mem_singleton.mp hb
      have hbefore := h.before e he
      rw [heq,hb'] at hbefore
      omega
    · rw [hadded] at he
      rcases mem_append.mp he with hold | hnew
      · exact h.listed e hold
      · rw [mem_singleton.mp hnew]
        exact ⟨spec,hspec,rfl,hlease,htool⟩

theorem Wf.foldl_registerTool {i j : Nat} {spec : ServerSpec κ}
    (h : Wf native leases s) (hplaced : Placed cfg specs (i, j) s)
    (hindex : leases[s.bridge.leases.length]? = some lease) (hspec : specs[i]? = some spec)
    (hlease : spec.outcome = .connected lease) {rest : List RemoteTool}
    (hrest : (lease.tools.take cfg.maxToolsPerServer).drop j = rest) :
    let done := (rest.zipIdx j).foldl (Build.registerTool native i spec.name lease) s
    Wf native leases done ∧ Extends s done ∧ done.bridge.leases = s.bridge.leases ∧
      Placed cfg specs (i+1, 0) done ∧
      ∀ k tool, j≤k → (lease.tools.take cfg.maxToolsPerServer)[k]? = some tool →
        Accounted native (i, k) spec.name tool done := by
  induction rest generalizing j s with
  | nil =>
    refine ⟨h,Extends.refl s,rfl,hplaced.later (Or.inl (Nat.lt_succ_self i)),?_⟩
    intro k tool hle htool
    rw [drop_eq_nil_iff] at hrest
    rw [getElem?_eq_none (hrest.trans hle)] at htool
    cases htool
  | cons tool rest ih =>
    have hhere : (lease.tools.take cfg.maxToolsPerServer)[j]? = some tool := by
      have hhead := congrArg List.head? hrest
      rwa [head?_drop] at hhead
    have hregisters := h.registerTool hindex i spec.name (tool, j)
    have hnext : (lease.tools.take cfg.maxToolsPerServer).drop (j+1) = rest := by
      have htail := congrArg List.tail hrest
      rwa [tail_drop] at htail
    obtain ⟨hwf,hextends,hleases,hplaced',haccounted⟩ := ih hregisters.wf
      (hplaced.register hspec hlease hhere hregisters) (by rw [hregisters.leases]; exact hindex) hnext
    refine ⟨hwf,hregisters.grows.trans hextends,hleases.trans hregisters.leases,hplaced',?_⟩
    intro k other hle hother
    rcases Nat.eq_or_lt_of_le hle with rfl | hlt
    · rw [hhere] at hother
      cases hother
      exact hregisters.accounted.mono hextends
    · exact haccounted k other hlt hother

theorem Wf.more (h : Wf native leases s) (lease : Lease κ) : Wf native (leases ++ [lease]) s :=
  { h with
    routed := fun e he => by
      obtain ⟨route,hroute,htool,hleads⟩ := h.routed e he
      refine ⟨route,hroute,htool,?_⟩
      have hlt := (List.getElem?_eq_some_iff.mp hleads).1
      rw [List.getElem?_append_left hlt]
      exact hleads }

theorem Wf.fewer (h : Wf native leases s) (h' : Wf native (leases ++ [lease]) s')
    (hextends : Extends s s') (hlength : ¬ s.bridge.tools.length < s'.bridge.tools.length) :
    Wf native leases s' := by
  have hsame : s.exposed=s'.exposed := by
    refine hextends.exposed.eq_of_length ?_
    have hle := hextends.exposed.length_le
    rw [h.tools,h'.tools,length_map,length_map] at hlength
    omega
  exact { h' with
    routed := fun e he => by
      obtain ⟨route,hroute,hleads⟩ := h.routed e (hsame ▸ he)
      exact ⟨route,hextends.routes _ hroute,hleads⟩ }

structure Between (native : List (List Char)) (cfg : AcpMcpConfig) (specs : List (ServerSpec κ))
    (i : Nat) (s : Build κ) : Prop where
  wf : Wf native s.bridge.leases s
  placed : Placed cfg specs (i, 0) s
  accounted : ∀ i' j spec lease tool, i' < i → specs[i']? = some spec →
    spec.outcome = .connected lease →
    (lease.tools.take cfg.maxToolsPerServer)[j]? = some tool →
    Accounted native (i', j) spec.name tool s

theorem Between.skip {i : Nat} {spec : ServerSpec κ} (h : Between native cfg specs i s)
    (hspec : specs[i]? = some spec) (hnone : ∀ lease, spec.outcome ≠ .connected lease)
    (hused : s'.used=s.used) (hexposed : s'.exposed=s.exposed)
    (htools : s'.bridge.tools=s.bridge.tools) (hroutes : s'.bridge.routes = s.bridge.routes)
    (hleases : s'.bridge.leases = s.bridge.leases) : Between native cfg specs (i+1) s' where
  wf := by
    rw [hleases]
    exact h.wf.congr hused hexposed htools hroutes
  placed := (h.placed.of_eq hexposed).later (Or.inl (Nat.lt_succ_self i))
  accounted i' j spec' lease tool hlt hspec' hlease htool := by
    rcases Nat.lt_succ_iff_lt_or_eq.mp hlt with hbefore | rfl
    · exact (h.accounted i' j spec' lease tool hbefore hspec' hlease htool).mono
        (Extends.of_eq hused hexposed hroutes)
    · rw [hspec] at hspec'
      cases hspec'
      exact absurd hlease (hnone lease)

theorem Between.diagnose {i : Nat} (h : Between native cfg specs i s) (message : List Char) :
    Between native cfg specs i (s.diagnose message) where
  wf := h.wf.congr rfl rfl rfl rfl
  placed := h.placed.of_eq rfl
  accounted i' j spec lease tool hlt hspec hlease htool :=
    (h.accounted i' j spec lease tool hlt hspec hlease htool).mono (Extends.of_eq rfl rfl rfl)

theorem Between.keepClient {i : Nat} {spec : ServerSpec κ}
    (h : Between native cfg specs i s) (hspec : specs[i]? = some spec)
    (hlease : spec.outcome = .connected lease) :
    Between native cfg specs (i+1) (s.keepClient native cfg i spec.name lease) := by
  have hindex : (s.bridge.leases ++ [lease])[s.bridge.leases.length]? = some lease := by
    rw [getElem?_append_right (Nat.le_refl _),Nat.sub_self]
    rfl
  obtain ⟨hwf,hextends,hleases,hplaced,haccounted⟩ := (h.wf.more lease).foldl_registerTool
    h.placed hindex hspec hlease drop_zero
  let done := s.registerTools native cfg i spec.name lease
  have hkept : done.bridge.leases = s.bridge.leases := hleases
  have hall : ∀ s', s'.used=done.used → s'.exposed=done.exposed →
      s'.bridge.routes = done.bridge.routes → ∀ i' j spec' lease' tool, i' < i+1 →
      specs[i']? = some spec' → spec'.outcome = .connected lease' →
      (lease'.tools.take cfg.maxToolsPerServer)[j]? = some tool →
      Accounted native (i', j) spec'.name tool s' := by
    intro s' hused hexposed hroutes i' j spec' lease' tool hlt hspec' hlease' htool
    refine Accounted.mono ?_ (Extends.of_eq hused hexposed hroutes)
    rcases Nat.lt_succ_iff_lt_or_eq.mp hlt with hbefore | rfl
    · exact (h.accounted i' j spec' lease' tool hbefore hspec' hlease' htool).mono hextends
    · rw [hspec] at hspec'
      cases hspec'
      rw [hlease] at hlease'
      cases hlease'
      exact haccounted j tool (Nat.zero_le j) htool
  unfold Build.keepClient
  dsimp only
  split_ifs with hany
  · refine ⟨?_,hplaced.of_eq rfl,hall _ rfl rfl rfl⟩
    rw [hkept]
    exact hwf.congr rfl rfl rfl rfl
  · refine ⟨?_,hplaced,hall _ rfl rfl rfl⟩
    rw [hkept]
    exact h.wf.fewer hwf hextends hany

theorem Between.connectServer {i : Nat} {spec : ServerSpec κ} (h : Between native cfg specs i s)
    (hspec : specs[i]? = some spec) :
    Between native cfg specs (i+1) (s.connectServer native cfg (spec, i)) := by
  unfold Build.connectServer
  cases houtcome : spec.outcome with
  | connected =>
    refine Between.keepClient ?_ hspec houtcome
    unfold Build.warnTools
    split_ifs
    · exact h.diagnose _
    · exact h
  | rejectedSelf | failed =>
    exact h.skip hspec (fun lease heq => by rw [houtcome] at heq; cases heq) rfl rfl rfl rfl rfl

theorem Between.foldl_connectServer {i : Nat} (h : Between native cfg specs i s)
    {rest : List (ServerSpec κ)} (hrest : specs.drop i = rest) :
    Between native cfg specs (i+rest.length)
      ((rest.zipIdx i).foldl (Build.connectServer native cfg) s) := by
  induction rest generalizing i s with
  | nil => exact h
  | cons spec rest ih =>
    have hhere : specs[i]? = some spec := by
      have hhead := congrArg List.head? hrest
      rwa [head?_drop] at hhead
    have hnext : specs.drop (i+1) = rest := by
      have htail := congrArg List.tail hrest
      rwa [tail_drop] at htail
    have hdone := ih (h.connectServer hhere) hnext
    rw [Nat.add_right_comm] at hdone
    exact hdone

theorem between_start (cfg : AcpMcpConfig) (specs : List (ServerSpec κ)) (hused : s.used=native)
    (hexposed : s.exposed = []) (htools : s.bridge.tools = []) (hroutes : s.bridge.routes = []) :
    Between native cfg specs 0 s where
  wf := by
    refine ⟨?_,?_,?_,?_,?_,?_,?_⟩
    · simp [hused,hexposed]
    · simp [htools,hexposed]
    · simp [hexposed]
    · simp [hexposed]
    · simp [hroutes]
    · simp [hroutes]
    · simp [hexposed]
  placed := ⟨by simp [hexposed],by simp [hexposed],by simp [hexposed]⟩
  accounted i' j spec lease tool hlt := absurd hlt (Nat.not_lt_zero i')

end Build

theorem foldl_recordSelfSkip (reason : List Char) (specs : List (ServerSpec κ)) (b : Bridge κ) :
    let refused := specs.foldl (fun b spec => recordSelfSkip spec.name reason b) b
    refused.tools=b.tools ∧ refused.routes=b.routes ∧
      refused.refusedSelfPrefixes =
        b.refusedSelfPrefixes ++ specs.map fun spec => selfNamespacePrefixOf spec.name := by
  induction specs generalizing b with
  | nil => exact ⟨rfl,rfl,(append_nil _).symm⟩
  | cons spec rest ih =>
    obtain ⟨htools,hroutes,hprefixes⟩ := ih (recordSelfSkip spec.name reason b)
    refine ⟨htools,hroutes,hprefixes.trans ?_⟩
    rw [map_cons,append_cons]
    rfl

theorem between_build (cfg : AcpMcpConfig) (native : List (List Char)) (specs : List (ServerSpec κ)) :
    (buildWithPoolPolicy cfg native specs).Between native cfg (connectSpecs cfg specs)
      (connectSpecs cfg specs).length := by
  unfold buildWithPoolPolicy
  by_cases henabled : cfg.enabled=true
  · rw [if_neg (by rw [henabled]; decide)]
    obtain ⟨htools,hroutes,-⟩ := foldl_recordSelfSkip "matching daimonos executable".toList
      (specs.filter fun spec => spec.pointsToCurrent) ({} : Bridge κ)
    have hstart : ∀ s : Build κ, s.Between native cfg (connectSpecs cfg specs) 0 →
        (((connectSpecs cfg specs).zipIdx).foldl (Build.connectServer native cfg) s).Between native cfg
          (connectSpecs cfg specs) (connectSpecs cfg specs).length := by
      intro s hs
      have hdone := hs.foldl_connectServer drop_zero
      rwa [Nat.zero_add] at hdone
    refine hstart _ ?_
    split_ifs
    · exact Build.between_start cfg _ rfl rfl htools hroutes
    · exact Build.between_start cfg _ rfl rfl htools hroutes
  · rw [if_pos (by simpa using henabled)]
    have hnone : connectSpecs cfg specs = [] := by
      unfold connectSpecs
      rw [if_neg henabled]
    rw [hnone]
    exact Build.between_start cfg [] rfl rfl rfl rfl

/-- Exposed names are distinct, well formed and not native; each exposed tool has one route, which
leads to the client and the name it was listed by; and a tool of a connected server that is within
the limits is left out only if its base name is native or its numbered names are all taken. -/
theorem exposed_tools_routed (cfg : AcpMcpConfig) (native : List (List Char))
    (specs : List (ServerSpec κ)) :
    let s := buildWithPoolPolicy cfg native specs
    (s.bridge.tools.map ToolSchema.name).Nodup ∧
    (∀ name ∈ s.bridge.tools.map ToolSchema.name, name ∉ native ∧ 1≤name.length ∧
      name.length≤64 ∧ ∀ c∈name, c.isAlphanum=true ∨ c = '_' ∨ c = '-') ∧
    (s.bridge.tools = s.exposed.map Exposed.schema ∧ (s.exposed.map Exposed.place).Nodup ∧
      (s.bridge.routes.map Prod.fst).Nodup ∧
      (∀ name ∈ s.bridge.routes.map Prod.fst, name ∈ s.bridge.tools.map ToolSchema.name) ∧
      ∀ e∈s.exposed,
        (∃ spec, (connectSpecs cfg specs)[e.place.1]? = some spec ∧ spec.name=e.server ∧
          spec.outcome = .connected e.lease ∧
          (e.lease.tools.take cfg.maxToolsPerServer)[e.place.2]? = some e.tool) ∧
        ∃ route, (e.name, route) ∈ s.bridge.routes ∧ route.original=e.tool.name ∧
          s.bridge.leases[route.lease]? = some e.lease) ∧
    ∀ i j spec lease tool, (connectSpecs cfg specs)[i]? = some spec →
      spec.outcome = .connected lease →
      (lease.tools.take cfg.maxToolsPerServer)[j]? = some tool →
      (∃ e∈s.exposed, e.place = (i, j)) ∨ namespacedName spec.name tool.name ∈ native ∨
        ∀ n, 2≤n → n≤99 → numberedName (namespacedName spec.name tool.name) n ∈ native ∨
          numberedName (namespacedName spec.name tool.name) n ∈
            s.bridge.tools.map ToolSchema.name := by
  intro s
  have h := between_build cfg native specs
  have hnames : s.bridge.tools.map ToolSchema.name = s.exposed.map Exposed.name := by
    rw [h.wf.tools,map_map]
    rfl
  rw [hnames]
  refine ⟨h.wf.distinct,?_,⟨h.wf.tools,h.placed.nodup,h.wf.keys,h.wf.known,?_⟩,?_⟩
  · intro name hname
    obtain ⟨e,he,rfl⟩ := mem_map.mp hname
    obtain ⟨hforeign,hform⟩ := h.wf.foreign e he
    have hwell := wellNamed_of_mem_exposedNames hform
    refine ⟨hforeign,hwell.nonempty,hwell.short,fun c hc => ?_⟩
    have hchar := hwell.chars c hc
    unfold isNameChar at hchar
    simpa [or_assoc] using hchar
  · exact fun e he => ⟨h.placed.listed e he,h.wf.routed e he⟩
  · intro i j spec lease tool hspec hlease htool
    have hlt := (List.getElem?_eq_some_iff.mp hspec).1
    rcases h.accounted i j spec lease tool hlt hspec hlease htool with hexposed | hnative | htaken
    · exact Or.inl hexposed
    · exact Or.inr (Or.inl hnative)
    · refine Or.inr (Or.inr fun n hlow hhigh => ?_)
      rcases htaken n hlow hhigh with hnative | hused
      · exact Or.inl hnative
      · exact (h.wf.used _).mp hused

end Daimonos.Mcp
