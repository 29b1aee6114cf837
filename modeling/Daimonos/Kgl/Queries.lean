import Daimonos.Framework.Search
import Daimonos.Framework.Text

namespace Daimonos.Kgl

open Framework List

inductive EdgeKind where
  | calls
  | dependsOn
  | mutates
  | reads
  deriving DecidableEq

inductive SubstrateKind where
  | x07
  | tacit
  | zero
  | rust
  | daimonos
  deriving DecidableEq

structure Edge where
  fromHash : String
  toRef : String
  kind : EdgeKind

/-- A row of the node table; of the intent only the purpose. -/
structure NodeRecord where
  hash : String
  name : Option String
  substrate : SubstrateKind
  purpose : Option String
  touchesIo : Bool
  mutatesState : Bool

structure Violation where
  hash : String
  name : Option String
  reason : String

structure KglStore where
  nodes : List NodeRecord
  edges : List Edge

def Edge.isDependency (e : Edge) : Bool := decide (e.kind=.calls ∨ e.kind=.dependsOn)

namespace NodeRecord

def missesPurpose (r : NodeRecord) : Bool := (r.purpose.getD "").toList.all isWhitespace

def violation (r : NodeRecord) (reason : String) : Violation := ⟨r.hash,r.name,reason⟩

def withoutPurpose (r : NodeRecord) : Violation := r.violation "missing intent.purpose"

def withoutEffect (r : NodeRecord) : Violation :=
  r.violation "effectful def has no reads/mutates edge (directly or via any callee)"

end NodeRecord

namespace KglStore

def node (s : KglStore) (hash : String) : Option NodeRecord := s.nodes.find? (·.hash=hash)

def dependents (s : KglStore) (hash : String) : List String :=
  (s.edges.filter fun e => e.toRef=hash && e.isDependency).map Edge.fromHash

def callees (s : KglStore) (hash : String) : List String :=
  (s.edges.filter fun e => e.fromHash=hash && e.isDependency).map Edge.toRef

def hasIoEdge (s : KglStore) (hash : String) : Bool :=
  s.edges.any fun e => e.fromHash=hash && decide (e.kind=.reads ∨ e.kind=.mutates)

/-- `seen` holds the start and the results. -/
def blastRadius (s : KglStore) (hash : String) (maxNodes : Nat) : Option (List NodeRecord) :=
  (search s.dependents (some (maxNodes+1)) (fun _ => false) (s.edges.length+1) [hash] [hash]).map
    fun r => r.2.tail.filterMap s.node

def hasReachableIoEdge (s : KglStore) (start : String) : Option Bool :=
  (search s.callees none s.hasIoEdge (s.edges.length+1) [start] [start]).map Prod.fst

def violationsOf (s : KglStore) (r : NodeRecord) : Option (List Violation) :=
  if r.substrate=.daimonos then some []
  else
    let purpose := if r.missesPurpose then [r.withoutPurpose] else []
    if r.touchesIo || r.mutatesState then
      (s.hasReachableIoEdge r.hash).map fun io => purpose ++ if io then [] else [r.withoutEffect]
    else some purpose

def checkCompleteness (s : KglStore) : Option (List Violation) :=
  s.nodes.foldr (fun r rest => (s.violationsOf r).bind fun vs => rest.map (vs ++ ·)) (some [])

/-- As many rounds as the table has edges, and one, are enough for a search along one of its
columns. -/
theorem exists_searched (s : KglStore) (next : String → List String) (column : Edge → String)
    (cap : Option Nat) (hit : String → Bool) (start : String)
    (hnext : ∀ y, next y ⊆ s.edges.map column) (hroom : ∀ c∈cap, 1 ≤ c) :
    ∃ r, search next cap hit (s.edges.length+1) [start] [start] = some r ∧
      Searched next cap hit start r := by
  have hall : ∀ x, Reach next start x → x ∈ start :: s.edges.map column := by
    intro x hx
    cases hx with
    | refl => exact mem_cons_self
    | tail _ hstep => exact mem_cons_of_mem start (hnext _ hstep)
  exact search_spec hall (searching_start hroom) (by simp; omega)

/-- The nodes returned are stored ones that depend on the node, each once and no more than asked
for; if they are fewer, they are all of them. -/
theorem blastRadius_exact (s : KglStore) (hash : String) (maxNodes : Nat) :
    ∃ hashes, s.blastRadius hash maxNodes = some (hashes.filterMap s.node) ∧ (hash::hashes).Nodup ∧
      hashes.length ≤ maxNodes ∧ (∀ h∈hashes, Reach s.dependents hash h) ∧
      (hashes.length < maxNodes → ∀ h, Reach s.dependents hash h → h∈hash::hashes) := by
  obtain ⟨⟨stopped,found⟩,hr,h⟩ := s.exists_searched s.dependents Edge.fromHash (some (maxNodes+1))
    (fun _ => false) hash (fun _ => map_subset _ filter_sublist.subset) (by simp)
  obtain ⟨hashes,rfl⟩ := h.head
  have hlength := h.room _ rfl
  simp only [singleton_append,length_cons] at h hlength
  refine ⟨hashes,by simp [blastRadius,hr],h.nodup,by omega,fun x hx => h.reached x (by simp [hx]),?_⟩
  intro hlt x hx
  obtain rfl : stopped=false := by
    cases stopped with
    | false => rfl
    | true =>
      obtain ⟨x,-,hhit⟩ := h.stopped rfl
      cases hhit
  rcases h.all rfl with hfull | hall
  · simp [isFull] at hfull
    omega
  · exact (hall x hx).1

theorem hasReachableIoEdge_eq (s : KglStore) (start : String) :
    ∃ io, s.hasReachableIoEdge start = some io ∧
      (io=false ↔ ∀ h, Reach s.callees start h → s.hasIoEdge h = false) := by
  obtain ⟨r,hr,h⟩ := s.exists_searched s.callees Edge.toRef none s.hasIoEdge start
    (fun _ => map_subset _ filter_sublist.subset) nofun
  refine ⟨r.1,by simp [hasReachableIoEdge,hr],?_,?_⟩
  · intro hio x hx
    exact ((h.all hio).resolve_left nofun x hx).2
  · intro hmiss
    by_contra hio
    obtain ⟨x,hx,hhit⟩ := h.stopped (Bool.not_eq_false _ ▸ hio)
    rw [hmiss x (h.reached x hx)] at hhit
    cases hhit

/-- What is wrong with a node outside the runtime's own substrate: a purpose that is missing or blank,
and an effect that no edge of the node or of what it leads to accounts for. -/
def Violates (s : KglStore) (r : NodeRecord) (v : Violation) : Prop :=
  r.substrate≠.daimonos ∧ (v=r.withoutPurpose ∧ r.missesPurpose=true ∨
    v=r.withoutEffect ∧ (r.touchesIo || r.mutatesState) = true ∧
      ∀ h, Reach s.callees r.hash h → s.hasIoEdge h = false)

theorem violationsOf_exact (s : KglStore) (r : NodeRecord) :
    ∃ vs, s.violationsOf r = some vs ∧ ∀ v, v∈vs ↔ s.Violates r v := by
  obtain ⟨io,hio,hiff⟩ := s.hasReachableIoEdge_eq r.hash
  rw [violationsOf,hio]
  simp only [Violates,← hiff]
  split_ifs with hsubstrate heffect <;> refine ⟨_,rfl,fun v => ?_⟩ <;> cases io <;> simp_all

/-- Every violation is reported, and nothing else. -/
theorem checkCompleteness_exact (s : KglStore) :
    ∃ violations, s.checkCompleteness = some violations ∧
      ∀ v, v∈violations ↔ ∃ r∈s.nodes, s.Violates r v := by
  rw [checkCompleteness]
  induction s.nodes with
  | nil => exact ⟨[],rfl,by simp⟩
  | cons r nodes ih =>
    obtain ⟨vs,hvs,hmem⟩ := s.violationsOf_exact r
    obtain ⟨rest,hrest,hmem'⟩ := ih
    refine ⟨vs++rest,by rw [foldr_cons,hvs,hrest]; rfl,?_⟩
    intro v
    rw [mem_append,hmem,hmem',exists_mem_cons_iff]

end KglStore

end Daimonos.Kgl
