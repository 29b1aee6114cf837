import Daimonos.Mcp.Bridge

namespace Daimonos.Mcp

open Framework List

variable {κ : Type}

/-- The reason to refuse a tool of a daimonos server that was not connected to. -/
def Bridge.selfDispatchRefused (name : List Char) (b : Bridge κ) : Option (List Char) :=
  if b.refusedSelfPrefixes.isEmpty then none
  else if name ∈ b.routes.map Prod.fst then none
  else if b.refusedSelfPrefixes.any fun start => start.isPrefixOf name then
    some <| "tool '".toList++name ++
      ("' is refused: it belongs to a daimonos MCP server, and a daimonos agent must not connect " ++
        "to or dispatch tools from its own tool server").toList
  else none

theorem Bridge.selfDispatchRefused_of_route {name : List Char} {b : Bridge κ}
    (h : name ∈ b.routes.map Prod.fst) : b.selfDispatchRefused name = none := by
  unfold Bridge.selfDispatchRefused
  rw [if_pos h,ite_self]

theorem Bridge.isSome_selfDispatchRefused_iff {name : List Char} {b : Bridge κ}
    (h : name ∉ b.routes.map Prod.fst) :
    (b.selfDispatchRefused name).isSome = true ↔ ∃ start∈b.refusedSelfPrefixes, start <+: name := by
  unfold Bridge.selfDispatchRefused
  split_ifs with hempty hany
  · rw [isEmpty_iff.mp hempty]
    simp
  · refine iff_of_true rfl ?_
    obtain ⟨start,hstart, hprefix⟩ := any_eq_true.mp hany
    exact ⟨start,hstart, isPrefixOf_iff_prefix.mp hprefix⟩
  · refine iff_of_false (by decide) ?_
    rintro ⟨start,hstart, hprefix⟩
    exact hany (any_eq_true.mpr ⟨start,hstart, isPrefixOf_iff_prefix.mpr hprefix⟩)

def namespaceStem (server : List Char) : List Char :=
  (remoteToolPrefixText++server).map sanitizeChar

variable (server : List Char)

theorem length_namespaceStem :
    (namespaceStem server).length = server.length+5 := by
  unfold namespaceStem remoteToolPrefixText
  simp only [length_map,length_append,length_cons,length_nil]
  omega

theorem selfNamespacePrefixOf_eq :
    selfNamespacePrefixOf server = namespaceStem server ++ ['_', '_'] := by
  unfold selfNamespacePrefixOf namespaceStem
  rw [map_append]
  rfl

theorem length_selfNamespacePrefixOf :
    (selfNamespacePrefixOf server).length = server.length+7 := by
  rw [selfNamespacePrefixOf_eq,length_append,length_namespaceStem]
  rfl

variable (tool : List Char)

theorem namespacedName_eq :
    namespacedName server tool =
      (selfNamespacePrefixOf server ++ tool.map sanitizeChar).take maxToolNameLen := by
  unfold namespacedName selfNamespacePrefixOf
  rw [← map_append]

theorem prefix_namespacedName_iff :
    selfNamespacePrefixOf server <+: namespacedName server tool ↔ server.length+7≤64 := by
  rw [namespacedName_eq,prefix_take_iff,length_selfNamespacePrefixOf]
  exact ⟨fun h => h.2,fun h => ⟨prefix_append _ _,h⟩⟩

theorem numberedName_namespacedName (n : Nat) :
    numberedName (namespacedName server tool) n =
      (selfNamespacePrefixOf server ++ tool.map sanitizeChar).take (62 - decimalLength n) ++
        nameSuffix n := by
  rw [numberedName_eq,namespacedName_eq,take_take,length_nameSuffix]
  congr 2
  unfold maxToolNameLen
  omega

theorem mark_prefix_take (t z : List Char) (k : Nat) :
    ['_', '_'] <+: (['_', '_'] ++ t).take k ++ (['_', '_'] ++ z) := by
  cases k with
  | zero => exact prefix_append _ z
  | succ k =>
    cases k with
    | zero => exact ⟨'_' :: z,rfl⟩
    | succ k => exact ⟨t.take k ++ (['_', '_'] ++ z),rfl⟩

/-- A numbered name keeps the namespace as long as the number does not reach into it. The mark of the
number may stand in for the mark of the namespace. -/
theorem prefix_numberedName_iff {n : Nat} (hn : n<100) :
    selfNamespacePrefixOf server <+: numberedName (namespacedName server tool) n ↔
      server.length+7 + decimalLength n ≤ 64 := by
  have hstem := length_namespaceStem server
  rw [numberedName_namespacedName,selfNamespacePrefixOf_eq,append_assoc,take_append]
  constructor
  · intro hprefix
    -- Past the cut, the namespace's last mark would have to be a digit of the number.
    by_contra hlong
    have hcut : 62 - decimalLength n - (namespaceStem server).length = 0 := by omega
    have hlast := prefix_iff_getElem?.mp hprefix ((namespaceStem server).length + 1) (by simp)
    have hmark : (namespaceStem server ++ ['_', '_'])[(namespaceStem server).length + 1]? =
        some '_' := by simp
    have hdigit : (decimal n)[(namespaceStem server).length + 1 - (62 - decimalLength n) - 2]? =
        some '_' := by
      rw [getElem?_eq_getElem (by simp)] at hmark
      rw [Option.some.inj hmark,hcut,take_zero,append_nil,nameSuffix,
        getElem?_append_right (by rw [length_take]; omega),
        getElem?_append_right (by
          simp only [length_take,length_cons,length_nil]
          omega)] at hlast
      rw [← hlast]
      congr 1
      simp only [length_take,length_cons,length_nil]
      omega
    have hmem := isDigit_of_mem_decimal (mem_of_getElem? hdigit)
    exact absurd hmem (by decide)
  · intro hfits
    rw [take_of_length_le (by omega),append_assoc,prefix_append_right_inj]
    exact mark_prefix_take _ _ _

/-- The server was recognised as this executable, or as a daimonos server when it was connected to. -/
def RefusedSelf (cfg : AcpMcpConfig) (specs : List (ServerSpec κ)) (server : List Char) : Prop :=
  cfg.enabled=true ∧
    ((∃ spec∈specs, spec.pointsToCurrent=true ∧ spec.name=server) ∨
      ∃ spec ∈ connectSpecs cfg specs, spec.outcome=.rejectedSelf ∧ spec.name=server)

/-- What a server that was connected to adds to the refused namespaces. -/
def Outcome.refuses (server : List Char) : Outcome κ → List (List Char)
  | .rejectedSelf => [selfNamespacePrefixOf server]
  | _ => []

namespace Build

variable (native : List (List Char)) (cfg : AcpMcpConfig) {s : Build κ}

theorem refused_registerTool (i : Nat) (server : List Char) (lease : Lease κ)
    (tool : RemoteTool × Nat) :
    (s.registerTool native i server lease tool).bridge.refusedSelfPrefixes =
      s.bridge.refusedSelfPrefixes := by
  unfold Build.registerTool
  split <;> rfl

theorem refused_registerTools (i : Nat) (server : List Char) (lease : Lease κ)
    (tools : List (RemoteTool × Nat)) :
    (tools.foldl (Build.registerTool native i server lease) s).bridge.refusedSelfPrefixes =
      s.bridge.refusedSelfPrefixes := by
  induction tools generalizing s with
  | nil => rfl
  | cons tool rest ih => rw [foldl_cons,ih,refused_registerTool]

theorem refused_connectServer (spec : ServerSpec κ) (i : Nat) :
    (s.connectServer native cfg (spec, i)).bridge.refusedSelfPrefixes =
      s.bridge.refusedSelfPrefixes ++ spec.outcome.refuses spec.name := by
  unfold Build.connectServer
  cases spec.outcome with
  | connected lease =>
    have hregister := refused_registerTools native (s := s.warnTools cfg spec.name lease) i spec.name
      lease (lease.tools.take cfg.maxToolsPerServer).zipIdx
    have hwarn : (s.warnTools cfg spec.name lease).bridge.refusedSelfPrefixes =
        s.bridge.refusedSelfPrefixes := by
      unfold Build.warnTools
      split_ifs <;> rfl
    change _ = s.bridge.refusedSelfPrefixes ++ []
    rw [append_nil,← hwarn,← hregister]
    unfold Build.keepClient
    dsimp only
    split_ifs <;> rfl
  | rejectedSelf => rfl
  | failed error => exact (append_nil _).symm

theorem refused_foldl (specs : List (ServerSpec κ × Nat)) :
    (specs.foldl (Build.connectServer native cfg) s).bridge.refusedSelfPrefixes =
      s.bridge.refusedSelfPrefixes ++ specs.flatMap fun spec => spec.1.outcome.refuses spec.1.name := by
  induction specs generalizing s with
  | nil => exact (append_nil _).symm
  | cons spec rest ih =>
    rw [foldl_cons,ih,refused_connectServer,append_assoc]
    rfl

end Build

theorem RefusedSelf.mem_refusedSelfPrefixes {cfg : AcpMcpConfig} {specs : List (ServerSpec κ)}
    {server : List Char} (h : RefusedSelf cfg specs server) (native : List (List Char)) :
    selfNamespacePrefixOf server ∈
      (buildWithPoolPolicy cfg native specs).bridge.refusedSelfPrefixes := by
  obtain ⟨henabled,hrefused⟩ := h
  obtain ⟨-,-,hstart⟩ := foldl_recordSelfSkip "matching daimonos executable".toList
    (specs.filter fun spec => spec.pointsToCurrent) ({} : Bridge κ)
  unfold buildWithPoolPolicy
  rw [if_neg (by rw [henabled]; decide)]
  rw [Build.refused_foldl,mem_append]
  rcases hrefused with ⟨spec,hspec,hcurrent,rfl⟩ | ⟨spec,hspec,hrejected,rfl⟩
  · refine Or.inl ?_
    have hmem := mem_append_right ({} : Bridge κ).refusedSelfPrefixes
      (mem_map_of_mem (f := fun spec : ServerSpec κ => selfNamespacePrefixOf spec.name)
        (mem_filter.mpr ⟨hspec,hcurrent⟩))
    rw [← hstart] at hmem
    split_ifs
    · exact hmem
    · exact hmem
  · refine Or.inr ?_
    obtain ⟨i,hi⟩ := mem_iff_getElem?.mp hspec
    refine mem_flatMap.mpr ⟨(spec, i),mem_zipIdx_iff_getElem?.mpr hi,?_⟩
    rw [hrejected]
    exact mem_singleton_self _

/-- The name that the server's tool would have: its base name, or the `n`-th for that base. -/
def exposedAs (server tool : List Char) : Option Nat → List Char
  | none => namespacedName server tool
  | some n => numberedName (namespacedName server tool) n

/-- The characters that a number takes from the end of a name. -/
def numberCost : Option Nat → Nat
  | none => 0
  | some n => decimalLength n

theorem prefix_exposedAs_iff {number : Option Nat} (hnumber : ∀ n∈number, 2≤n ∧ n≤99) :
    selfNamespacePrefixOf server <+: exposedAs server tool number ↔
      server.length+7 + numberCost number ≤ 64 := by
  cases number with
  | none => exact prefix_namespacedName_iff server tool
  | some n =>
    have hn := hnumber n rfl
    exact prefix_numberedName_iff server tool (by omega)

/-- A bridge as it was built, or shut down. -/
def IsBridge (cfg : AcpMcpConfig) (native : List (List Char)) (specs : List (ServerSpec κ))
    (b : Bridge κ) : Prop :=
  b = (buildWithPoolPolicy cfg native specs).bridge ∨
    b = (buildWithPoolPolicy cfg native specs).bridge.shutdown

def selfAlone (κ : Type) (server : List Char) : List (ServerSpec κ) :=
  [{ name := server, pointsToCurrent := true, outcome := .failed [] }]

theorem refusedSelf_selfAlone (κ : Type) (server : List Char) :
    RefusedSelf ⟨true,0,0⟩ (selfAlone κ server) server :=
  ⟨rfl,Or.inl ⟨_,mem_singleton_self _,rfl,rfl⟩⟩

theorem isSome_refused_selfAlone_iff (κ : Type) (server name : List Char) :
    ((buildWithPoolPolicy ⟨true,0,0⟩ [] (selfAlone κ server)).bridge.selfDispatchRefused
      name).isSome = true ↔ selfNamespacePrefixOf server <+: name := by
  rw [Bridge.isSome_selfDispatchRefused_iff not_mem_nil]
  constructor
  · rintro ⟨start,hstart, hprefix⟩
    rw [mem_singleton.mp hstart] at hprefix
    exact hprefix
  · exact fun hprefix => ⟨_,mem_singleton_self _, hprefix⟩

/-- The name a refused server's tool would have is refused unless it is served, and what is served is
not refused, in every bridge exactly if the namespace is not cut. -/
theorem self_dispatch_iff (server tool : List Char) (number : Option Nat)
    (hnumber : ∀ n∈number, 2≤n ∧ n≤99) :
    (∀ cfg native (specs : List (ServerSpec κ)) b, RefusedSelf cfg specs server →
      IsBridge cfg native specs b →
      (exposedAs server tool number ∉ b.routes.map Prod.fst →
        (b.selfDispatchRefused (exposedAs server tool number)).isSome = true) ∧
      ∀ name ∈ b.routes.map Prod.fst, b.selfDispatchRefused name = none) ↔
    server.length+7 + numberCost number ≤ 64 := by
  rw [← prefix_exposedAs_iff server tool hnumber]
  constructor
  · intro hall
    refine (isSome_refused_selfAlone_iff κ server _).mp ?_
    exact (hall _ [] _ _ (refusedSelf_selfAlone κ server) (Or.inl rfl)).1 not_mem_nil
  · intro hprefix cfg native specs b hrefused hb
    have hmem : selfNamespacePrefixOf server ∈ b.refusedSelfPrefixes := by
      rcases hb with rfl | rfl
      · exact hrefused.mem_refusedSelfPrefixes native
      · exact hrefused.mem_refusedSelfPrefixes native
    refine ⟨fun hunserved => ?_,fun name hname => Bridge.selfDispatchRefused_of_route hname⟩
    exact (Bridge.isSome_selfDispatchRefused_iff hunserved).mpr ⟨_,hmem, hprefix⟩

/-- The server that the agent itself is registered as, under a numbered name. -/
theorem self_dispatch_daimonos :
    "daimonos".toList.length+7 + numberCost (some 2) ≤ 64 ∧
      ∀ cfg native (specs : List (ServerSpec Unit)) b, RefusedSelf cfg specs "daimonos".toList →
        IsBridge cfg native specs b →
        (exposedAs "daimonos".toList "exec".toList (some 2) ∉ b.routes.map Prod.fst →
          (b.selfDispatchRefused
            (exposedAs "daimonos".toList "exec".toList (some 2))).isSome = true) ∧
        ∀ name ∈ b.routes.map Prod.fst, b.selfDispatchRefused name = none := by
  have hfits : "daimonos".toList.length+7 + numberCost (some 2) ≤ 64 := by decide
  refine ⟨hfits,(self_dispatch_iff "daimonos".toList "exec".toList (some 2) ?_).mpr hfits⟩
  intro n hn
  cases hn
  decide

/-- With a name of 58 characters, the namespace is longer than any exposed name. -/
theorem long_self_dispatched :
    ∃ server tool : List Char, ∃ specs : List (ServerSpec Unit),
      RefusedSelf ⟨true,0,0⟩ specs server ∧
      (buildWithPoolPolicy ⟨true,0,0⟩ [] specs).bridge.routes = [] ∧
      (buildWithPoolPolicy ⟨true,0,0⟩ [] specs).bridge.selfDispatchRefused
        (namespacedName server tool) = none := by
  refine ⟨List.replicate 58 'a',['x'],selfAlone Unit (List.replicate 58 'a'),
    refusedSelf_selfAlone _ _,rfl,?_⟩
  decide

end Daimonos.Mcp
