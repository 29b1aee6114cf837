import Mathlib.Data.List.Infix
import Mathlib.Data.List.Nodup
import Mathlib.Data.List.Basic
import Mathlib.Logic.Function.Basic
import Mathlib.Tactic.Common

namespace Daimonos.Framework

open List Function

inductive Entry (γ : Type) where
  | file (content : γ)
  | dir
  deriving DecidableEq

structure FileTree (ν γ : Type) where
  entry : List ν → Option (Entry γ)
  paths : List (List ν)
  listed : ∀ p, p∈paths ↔ entry p ≠ none
  nodup : paths.Nodup
  root : entry [] = none
  parents : ∀ p n, entry (p ++ [n]) ≠ none → p = [] ∨ entry p = some .dir

theorem prefix_dropLast_iff {α : Type} {p q : List α} (hp : p ≠ []) :
    q <+: p.dropLast ↔ q <+: p ∧ q≠p := by
  constructor
  · intro hq
    refine ⟨hq.trans (List.dropLast_prefix p),?_⟩
    rintro rfl
    have hlength := hq.length_le
    have hpos := length_pos_of_ne_nil hp
    rw [length_dropLast] at hlength
    omega
  · rintro ⟨hq,hne⟩
    rw [← dropLast_append_getLast hp,prefix_concat_iff,dropLast_append_getLast hp] at hq
    exact hq.resolve_left hne

namespace FileTree

variable {ν γ : Type}

def IsDir (t : FileTree ν γ) (p : List ν) : Prop := p = [] ∨ t.entry p = some .dir

def IsFile (t : FileTree ν γ) (p : List ν) : Prop := ∃ c, t.entry p = some (.file c)

instance [DecidableEq ν] [DecidableEq γ] (t : FileTree ν γ) (p : List ν) : Decidable (t.IsDir p) :=
  inferInstanceAs (Decidable (_ ∨ _))

instance (t : FileTree ν γ) (p : List ν) : Decidable (t.IsFile p) :=
  match h : t.entry p with
  | some (.file c) => isTrue ⟨c,h⟩
  | some .dir => isFalse (by rintro ⟨c,hc⟩; rw [h] at hc; cases hc)
  | none => isFalse (by rintro ⟨c,hc⟩; rw [h] at hc; cases hc)

/-- The place of a path that is not below any file. -/
def Free (t : FileTree ν γ) (p : List ν) : Prop := ∀ a, a <+: p → ¬ t.IsFile a

variable {t : FileTree ν γ} {p q : List ν}

theorem IsFile.ne_dir (h : t.IsFile p) : t.entry p ≠ some .dir := by
  obtain ⟨c,hc⟩ := h
  rw [hc]
  simp

theorem IsFile.ne_nil (h : t.IsFile p) : p ≠ [] := by
  rintro rfl
  obtain ⟨c,hc⟩ := h
  rw [t.root] at hc
  cases hc

theorem isDir_of_append (r : List ν) (h : t.entry (p++r) ≠ none) (hr : r ≠ []) : t.IsDir p := by
  induction r using List.reverseRecOn with
  | nil => exact absurd rfl hr
  | append_singleton r n ih =>
    rw [← append_assoc] at h
    rcases t.parents _ _ h with hnil | hdir
    · exact .inl (append_eq_nil_iff.mp hnil).1
    · by_cases hempty : r = []
      · rw [hempty,append_nil] at hdir
        exact .inr hdir
      · exact ih (by rw [hdir]; simp) hempty

theorem isDir_above (h : t.entry q ≠ none) (hp : p <+: q) (hne : p≠q) : t.IsDir p := by
  obtain ⟨r,rfl⟩ := hp
  refine isDir_of_append r h ?_
  rintro rfl
  exact hne (append_nil p).symm

theorem IsDir.not_isFile (h : t.IsDir p) : ¬ t.IsFile p := by
  intro hfile
  rcases h with h | h
  · exact hfile.ne_nil h
  · exact hfile.ne_dir h

def Leaf (t : FileTree ν γ) (p : List ν) : Prop := ∀ q, p <+: q → q≠p → t.entry q = none

instance [DecidableEq ν] (t : FileTree ν γ) (p : List ν) : Decidable (t.Leaf p) :=
  decidable_of_iff (∀ q∈t.paths, p <+: q → q=p) <| forall_congr' fun q => by
    rw [t.listed]
    tauto

theorem IsFile.leaf (h : t.IsFile p) : t.Leaf p := by
  intro q hp hne
  by_contra hsome
  exact (isDir_above hsome hp hne.symm).not_isFile h

theorem IsDir.free (h : t.IsDir p) : t.Free p := by
  intro a ha hfile
  rcases h with rfl | h
  · exact hfile.ne_nil (prefix_nil.mp ha)
  · by_cases heq : a=p
    · exact hfile.ne_dir (heq ▸ h)
    · exact (isDir_above (by rw [h]; simp) ha heq).not_isFile hfile

def empty : FileTree ν γ where
  entry _ := none
  paths := []
  listed := by simp
  nodup := nodup_nil
  root := rfl
  parents := by simp

theorem empty_entry_ne (p : List ν) (e : Entry γ) : (empty : FileTree ν γ).entry p ≠ some e := by
  intro h
  cases h

def content? (t : FileTree ν γ) (p : List ν) : Option γ :=
  match t.entry p with
  | some (.file c) => some c
  | _ => none

theorem content?_eq_some {c : γ} : t.content? p = some c ↔ t.entry p = some (.file c) := by
  unfold content?
  split
  · rename_i c' h
    rw [h]
    simp
  · rename_i h
    simp only [reduceCtorEq,false_iff]
    exact h c

variable [DecidableEq ν]

section Remove

variable (t p)

def remove (hleaf : t.Leaf p) : FileTree ν γ where
  entry := update t.entry p none
  paths := t.paths.erase p
  listed q := by
    by_cases hq : q=p
    · subst hq
      simp [t.nodup.mem_erase_iff]
    · simp [t.nodup.mem_erase_iff,hq,t.listed]
  nodup := t.nodup.erase p
  root := by
    by_cases hp : [] = p
    · rw [hp,update_self]
    · rw [update_of_ne hp,t.root]
  parents q n h := by
    by_cases heq : q ++ [n] = p
    · rw [heq,update_self] at h
      exact absurd rfl h
    · rw [update_of_ne heq] at h
      have hqp : q≠p := by
        rintro rfl
        exact h (hleaf _ (prefix_append q [n]) (by simp))
      rw [update_of_ne hqp]
      exact t.parents q n h

def removeFile : FileTree ν γ :=
  if h : t.IsFile p then t.remove p h.leaf else t

variable {p}

theorem removeFile_entry (h : t.IsFile p) (q : List ν) :
    (t.removeFile p).entry q = if q=p then none else t.entry q := by
  rw [removeFile,dif_pos h]
  exact update_apply _ _ _ _

variable (p)

def removeDir [DecidableEq γ] : FileTree ν γ :=
  if h : t.entry p = some .dir ∧ t.Leaf p then t.remove p h.2 else t

theorem removeDir_entry [DecidableEq γ] (q : List ν) :
    (t.removeDir p).entry q =
      if q=p ∧ t.entry p = some .dir ∧ t.Leaf p then none else t.entry q := by
  rw [removeDir]
  split_ifs with hrem hq hq
  · rw [hq.1]
    exact update_self _ _ _
  · exact update_of_ne (fun h => hq ⟨h,hrem⟩) _ _
  · exact absurd hq.2 hrem
  · rfl

def removeBelow : FileTree ν γ where
  entry q := if p <+: q ∧ q≠p then none else t.entry q
  paths := t.paths.filter fun q => ¬ (p <+: q ∧ q≠p)
  listed q := by
    rw [mem_filter,t.listed]
    split_ifs with hq <;> simp [hq]
  nodup := t.nodup.filter _
  root := by rw [t.root,ite_self]
  parents q n h := by
    have hkept : ¬ (p <+: q ++ [n] ∧ q ++ [n] ≠ p) := fun hbelow => h (if_pos hbelow)
    rw [if_neg hkept] at h
    have hkept' : ¬ (p <+: q ∧ q≠p) := by
      rintro ⟨hle,-⟩
      refine hkept ⟨hle.trans (prefix_append q [n]),?_⟩
      rintro rfl
      have hlength := hle.length_le
      rw [length_append,length_singleton] at hlength
      omega
    rw [if_neg hkept']
    exact t.parents q n h

theorem removeBelow_entry (q : List ν) :
    (t.removeBelow p).entry q = if p <+: q ∧ q≠p then none else t.entry q := rfl

end Remove

section Put

def put (t : FileTree ν γ) (p : List ν) (n : ν) (e : Entry γ) (hdir : t.IsDir p)
    (hnew : t.entry (p ++ [n]) ≠ some .dir) : FileTree ν γ where
  entry := update t.entry (p ++ [n]) (some e)
  paths := t.paths.insert (p ++ [n])
  listed q := by
    by_cases hq : q = p ++ [n]
    · subst hq
      simp
    · simp [hq,t.listed]
  nodup := t.nodup.insert
  root := by rw [update_of_ne (by simp),t.root]
  parents q m h := by
    have hup : ∀ r, r = [] ∨ t.entry r = some .dir →
        r = [] ∨ update t.entry (p ++ [n]) (some e) r = some .dir := by
      rintro r (hr | hr)
      · exact .inl hr
      · refine .inr ?_
        rw [update_of_ne,hr]
        rintro rfl
        exact hnew hr
    by_cases heq : q ++ [m] = p ++ [n]
    · obtain ⟨rfl,-⟩ := append_inj' heq rfl
      exact hup q hdir
    · rw [update_of_ne heq] at h
      exact hup q (t.parents q m h)

variable [DecidableEq γ]

def createDirAllFrom (t : FileTree ν γ) (done : List ν) : List ν → Option (FileTree ν γ)
  | [] => some t
  | n::rest =>
    if t.entry (done ++ [n]) = some .dir then createDirAllFrom t (done ++ [n]) rest
    else if h : t.IsDir done ∧ t.entry (done ++ [n]) = none then
      createDirAllFrom (t.put done n .dir h.1 (by rw [h.2]; simp)) (done ++ [n]) rest
    else none

def createDirAll (t : FileTree ν γ) (p : List ν) : Option (FileTree ν γ) := t.createDirAllFrom [] p

def writeFile (t : FileTree ν γ) (p : List ν) (c : γ) : Option (FileTree ν γ) :=
  match p.getLast? with
  | none => none
  | some n =>
    if h : t.IsDir p.dropLast ∧ t.entry (p.dropLast ++ [n]) ≠ some .dir then
      some (t.put p.dropLast n (.file c) h.1 h.2)
    else none

theorem createDirAllFrom_spec (done rest : List ν) (hdone : t.IsDir done)
    (hfree : t.Free (done++rest)) :
    ∃ t', t.createDirAllFrom done rest = some t' ∧ ∀ q, t'.entry q =
      if done <+: q ∧ q≠done ∧ q <+: done++rest then some .dir else t.entry q := by
  induction rest generalizing t done with
  | nil =>
    refine ⟨t,rfl,fun q => (if_neg ?_).symm⟩
    rintro ⟨hle,hne,hge⟩
    rw [append_nil] at hge
    exact hne (hge.eq_of_length (le_antisymm hge.length_le hle.length_le))
  | cons n rest ih =>
    have hpath : done++n::rest = done ++ [n] ++ rest := by simp
    -- the prefixes beyond `done` are `done ++ [n]` and those beyond it
    have hsplit : ∀ q, (done <+: q ∧ q≠done ∧ q <+: done++n::rest) ↔
        q = done ++ [n] ∨ (done ++ [n] <+: q ∧ q ≠ done ++ [n] ∧ q <+: done ++ [n] ++ rest) := by
      intro q
      rw [hpath]
      constructor
      · rintro ⟨⟨r,rfl⟩,hne,hge⟩
        by_cases heq : done++r = done ++ [n]
        · exact .inl heq
        · refine .inr ⟨?_,heq,hge⟩
          cases r with
          | nil => exact absurd (append_nil done) hne
          | cons m r =>
            rw [append_assoc,prefix_append_right_inj] at hge
            obtain ⟨rfl,-⟩ := cons_prefix_cons.mp hge
            simp
      · rintro (rfl | ⟨hle,hne,hge⟩)
        · exact ⟨prefix_append _ _,by simp,prefix_append _ _⟩
        · refine ⟨(prefix_append done [n]).trans hle,?_,hge⟩
          rintro rfl
          have hlength := hle.length_le
          rw [length_append,length_singleton] at hlength
          omega
    rw [createDirAllFrom]
    rw [hpath] at hfree
    by_cases hthere : t.entry (done ++ [n]) = some .dir
    · obtain ⟨t',heq,hentry⟩ := ih _ (.inr hthere) hfree
      refine ⟨t',by rw [if_pos hthere,heq],fun q => ?_⟩
      rw [hentry,if_congr (hsplit q) rfl rfl]
      by_cases hq : q = done ++ [n]
      · subst hq
        simp [hthere]
      · simp [hq]
    · have hnone : t.entry (done ++ [n]) = none := by
        cases hentry : t.entry (done ++ [n]) with
        | none => rfl
        | some e =>
          cases e with
          | dir => exact absurd hentry hthere
          | file c => exact absurd ⟨c,hentry⟩ (hfree _ (prefix_append _ _))
      have hput : ∀ q, (t.put done n .dir hdone (by rw [hnone]; simp)).entry q =
          if q = done ++ [n] then some .dir else t.entry q := update_apply _ _ _
      obtain ⟨t',heq,hentry⟩ := ih (t := t.put done n .dir hdone (by rw [hnone]; simp)) _
        (.inr (by rw [hput,if_pos rfl])) (by
          rintro a ha ⟨c,hc⟩
          rw [hput] at hc
          split_ifs at hc with heq
          · cases hc
          · exact hfree a ha ⟨c,hc⟩)
      refine ⟨t',by rw [if_neg hthere,dif_pos ⟨hdone,hnone⟩,heq],fun q => ?_⟩
      rw [hentry,if_congr (hsplit q) rfl rfl,hput]
      by_cases hq : q = done ++ [n]
      · simp [hq]
      · simp [hq]

theorem createDirAll_spec (hfree : t.Free p) :
    ∃ t', t.createDirAll p = some t' ∧ ∀ q, t'.entry q =
      if q ≠ [] ∧ q <+: p then some .dir else t.entry q := by
  obtain ⟨t',heq,hentry⟩ := createDirAllFrom_spec [] p (.inl rfl) hfree
  refine ⟨t',heq,fun q => ?_⟩
  rw [hentry]
  simp

theorem createDirAllFrom_none (rest : List ν) {done a : List ν} (hle : done <+: a) (hne : a≠done)
    (ha : a <+: done++rest) (hfile : t.IsFile a) : t.createDirAllFrom done rest = none := by
  induction rest generalizing done with
  | nil =>
    rw [append_nil] at ha
    exact absurd (ha.eq_of_length (le_antisymm ha.length_le hle.length_le)) hne
  | cons n rest ih =>
    rw [createDirAllFrom]
    by_cases heq : a = done ++ [n]
    · subst heq
      rw [if_neg hfile.ne_dir,dif_neg]
      rintro ⟨-,hnone⟩
      obtain ⟨c,hc⟩ := hfile
      rw [hnone] at hc
      cases hc
    · have hnext : done ++ [n] <+: a := by
        obtain ⟨r,rfl⟩ := hle
        cases r with
        | nil => exact absurd (append_nil done) hne
        | cons m r =>
          rw [prefix_append_right_inj] at ha
          obtain ⟨rfl,-⟩ := cons_prefix_cons.mp ha
          simp
      have hdir : t.entry (done ++ [n]) = some .dir := by
        obtain ⟨c,hc⟩ := hfile
        rcases isDir_above (t := t) (by rw [hc]; simp) hnext (Ne.symm heq) with hnil | hdir
        · simp at hnil
        · exact hdir
      rw [if_pos hdir]
      exact ih hnext heq (by simpa using ha)

theorem createDirAll_none (h : ¬ t.Free p) : t.createDirAll p = none := by
  unfold Free at h
  push Not at h
  obtain ⟨a,ha,hfile⟩ := h
  exact createDirAllFrom_none p (List.nil_prefix) hfile.ne_nil ha hfile

theorem writeFile_spec (hp : p ≠ []) (hdir : t.IsDir p.dropLast) (hnew : t.entry p ≠ some .dir)
    (c : γ) :
    ∃ t', t.writeFile p c = some t' ∧ ∀ q, t'.entry q =
      if q=p then some (.file c) else t.entry q := by
  obtain ⟨n,hn⟩ : ∃ n, p.getLast? = some n := Option.isSome_iff_exists.mp (by simpa using hp)
  have hlast : p.dropLast ++ [n] = p := dropLast_append_getLast? n hn
  have hcond : t.IsDir p.dropLast ∧ t.entry (p.dropLast ++ [n]) ≠ some .dir := by
    rw [hlast]
    exact ⟨hdir,hnew⟩
  refine ⟨t.put p.dropLast n (.file c) hcond.1 hcond.2,?_,fun q => ?_⟩
  · unfold writeFile
    rw [hn]
    exact dif_pos hcond
  · have hentry : (t.put p.dropLast n (.file c) hcond.1 hcond.2).entry q =
        if q = p.dropLast ++ [n] then some (.file c) else t.entry q := update_apply _ _ _ _
    rw [hentry,hlast]

theorem writeFile_none (h : t.entry p = some .dir) (c : γ) : t.writeFile p c = none := by
  unfold writeFile
  split
  · rfl
  · rename_i n hn
    rw [dif_neg]
    rintro ⟨-,hne⟩
    rw [dropLast_append_getLast? n hn] at hne
    exact hne h

theorem createDirAll_writeFile (hp : p ≠ []) (hfree : t.Free p.dropLast)
    (hnew : t.entry p ≠ some .dir) (c : γ) :
    ∃ t₁ t₂, t.createDirAll p.dropLast = some t₁ ∧ t₁.writeFile p c = some t₂ ∧ ∀ q, t₂.entry q =
      if q=p then some (.file c) else if q ≠ [] ∧ q <+: p then some .dir else t.entry q := by
  obtain ⟨t₁,hcreate,hentry₁⟩ := createDirAll_spec hfree
  have hbelow : ∀ q, q <+: p.dropLast ↔ q <+: p ∧ q≠p := fun _ => prefix_dropLast_iff hp
  have hdir : t₁.IsDir p.dropLast := by
    by_cases hnil : p.dropLast = []
    · exact .inl hnil
    · exact .inr (by rw [hentry₁,if_pos ⟨hnil,prefix_refl _⟩])
  have hself : t₁.entry p ≠ some .dir := by
    rw [hentry₁,if_neg]
    · exact hnew
    · rintro ⟨-,hle⟩
      exact ((hbelow p).mp hle).2 rfl
  obtain ⟨t₂,hwrite,hentry₂⟩ := writeFile_spec hp hdir hself c
  refine ⟨t₁,t₂,hcreate,hwrite,fun q => ?_⟩
  rw [hentry₂,hentry₁]
  by_cases hq : q=p
  · rw [if_pos hq,if_pos hq]
  · simp only [hbelow,ne_eq,hq,not_false_eq_true,and_true]

theorem exists_isDir (ps : List (List ν)) :
    ∃ t : FileTree ν γ, (∀ q, ¬ t.IsFile q) ∧ ∀ p∈ps, t.IsDir p := by
  induction ps with
  | nil =>
    refine ⟨empty,?_,by simp⟩
    rintro q ⟨c,hc⟩
    cases hc
  | cons p ps ih =>
    obtain ⟨t,hfiles,hdirs⟩ := ih
    obtain ⟨t',-,hentry⟩ := createDirAll_spec (t := t) (p := p) fun a _ => hfiles a
    refine ⟨t',fun q => ?_,fun q hq => ?_⟩
    · rintro ⟨c,hc⟩
      rw [hentry] at hc
      split_ifs at hc with hle
      · cases hc
      · exact hfiles q ⟨c,hc⟩
    · by_cases hnil : q = []
      · exact .inl hnil
      · refine .inr ?_
        rw [hentry]
        split_ifs with hle
        · rfl
        · have hne : q≠p := fun heq => hle ⟨hnil,heq ▸ prefix_refl q⟩
          exact (hdirs q ((mem_cons.mp hq).resolve_left hne)).resolve_left hnil

end Put

end FileTree

end Daimonos.Framework
