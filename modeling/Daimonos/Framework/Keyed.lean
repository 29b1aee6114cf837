import Mathlib.Data.List.Nodup
import Daimonos.Framework.Ring

namespace Daimonos.Framework

open List Function

variable {κ α : Type} [DecidableEq κ]

variable {f : κ → Option α} {key : α → κ} {keys : List κ}

theorem filter_filterMap_key (hnodup : keys.Nodup) (hkey : ∀ j a, f j = some a → key a = j) (k : κ)
    (hmissing : k ∉ keys → f k = none) :
    (keys.filterMap f).filter (fun a => decide (key a = k)) = (f k).toList := by
  induction keys with
  | nil => simp [hmissing not_mem_nil]
  | cons j rest ih =>
    obtain ⟨hj,hrest⟩ := nodup_cons.mp hnodup
    by_cases hne : j=k
    · subst hne
      have hnone : (rest.filterMap f).filter (fun a => decide (key a = j)) = [] := by
        rw [filter_eq_nil_iff]
        intro a ha
        obtain ⟨i,hi,hfi⟩ := mem_filterMap.mp ha
        have hai := hkey i a hfi
        simp only [decide_eq_true_eq]
        intro heq
        subst heq
        exact hj (hai ▸ hi)
      cases hf : f j with
      | none =>
        rw [filterMap_cons_none hf,hnone]
        rfl
      | some a => simp [filterMap_cons_some hf,hnone,hkey j a hf]
    · have ih' := ih hrest fun hk => hmissing (by simp [Ne.symm hne,hk])
      cases hf : f j with
      | none => rw [filterMap_cons_none hf,ih']
      | some a => simp [filterMap_cons_some hf,ih',hkey j a hf,hne]

variable {k : κ}

theorem filterMap_update_of_notMem (h : k ∉ keys)
    (a : Option α) : keys.filterMap (update f k a) = keys.filterMap f := by
  refine filterMap_congr fun j hj => ?_
  have hne : j≠k := fun heq => h (heq ▸ hj)
  exact update_of_ne hne a f

theorem filterMap_update_none (hkey : ∀ j a, f j = some a → key a = j) (keys : List κ) (k : κ) :
    keys.filterMap (update f k none) =
      (keys.filterMap f).filter fun a => decide (key a ≠ k) := by
  induction keys with
  | nil => rfl
  | cons j rest ih =>
    by_cases hj : j=k
    · subst hj
      rw [filterMap_cons_none (update_self j none f),ih]
      cases hf : f j with
      | none => rw [filterMap_cons_none hf]
      | some a => simp [filterMap_cons_some hf,hkey j a hf]
    · have hupdate : update f k none j = f j := update_of_ne hj none f
      cases hf : f j with
      | none => rw [filterMap_cons_none (hupdate.trans hf),filterMap_cons_none hf,ih]
      | some a =>
        simp [filterMap_cons_some (hupdate.trans hf),filterMap_cons_some hf,ih,hkey j a hf,hj]

variable {a : α}

theorem filterMap_update_some (hnodup : keys.Nodup) (hkey : ∀ j a, f j = some a → key a = j)
    (hf : f k = some a) (g : α → α) :
    keys.filterMap (update f k (some (g a))) =
      modifyFirst (fun a => decide (key a = k)) g (keys.filterMap f) := by
  induction keys with
  | nil => rfl
  | cons j rest ih =>
    obtain ⟨hj,hrest⟩ := nodup_cons.mp hnodup
    by_cases hjk : j=k
    · subst hjk
      rw [filterMap_cons_some (update_self j _ f),filterMap_cons_some hf,
        modifyFirst,if_pos (decide_eq_true (hkey j a hf)),filterMap_update_of_notMem hj]
    · have hupdate : update f k (some (g a)) j = f j := update_of_ne hjk _ f
      cases hfj : f j with
      | none =>
        rw [filterMap_cons_none (hupdate.trans hfj),filterMap_cons_none hfj,ih hrest]
      | some b =>
        have hb : ¬ decide (key b = k) = true := by simp [hkey j b hfj,hjk]
        rw [filterMap_cons_some (hupdate.trans hfj),filterMap_cons_some hfj,
          modifyFirst,if_neg hb,ih hrest]

def removeKey (k : κ) (l : List (κ × α)) : List (κ × α) := l.filter fun c => decide (c.1≠k)

variable {l : List (κ × α)}

theorem removeKey_of_notMem (h : k ∉ l.map Prod.fst) :
    removeKey k l = l := by
  rw [removeKey,filter_eq_self]
  intro c hc
  simp only [decide_eq_true_eq]
  intro heq
  subst heq
  exact h (mem_map_of_mem hc)

variable {c : κ × α}

theorem mem_removeKey :
    c ∈ removeKey k l ↔ c∈l ∧ c.1≠k := by
  simp [removeKey]

theorem countP_removeKey (hnodup : (l.map Prod.fst).Nodup) (hmem : (k, a) ∈ l) (p : κ × α → Bool) :
    (removeKey k l).countP p + (if p (k, a) then 1 else 0) = l.countP p := by
  induction l with
  | nil => cases hmem
  | cons c rest ih =>
    rw [map_cons,nodup_cons] at hnodup
    by_cases hc : c.1=k
    · have hhead : c = (k, a) := by
        rcases mem_cons.mp hmem with h | h
        · exact h.symm
        · exact absurd (hc ▸ mem_map_of_mem h) hnodup.1
      have hrest : removeKey k rest = rest := removeKey_of_notMem (hc ▸ hnodup.1)
      rw [removeKey,filter_cons_of_neg (by simp [hc]),← removeKey,hrest,countP_cons,hhead]
    · have hin : (k, a) ∈ rest := by
        rcases mem_cons.mp hmem with h | h
        · exact absurd (congrArg Prod.fst h).symm hc
        · exact h
      have ih' := ih hnodup.2 hin
      rw [removeKey,filter_cons_of_pos (by simp [hc]),← removeKey,countP_cons,countP_cons]
      omega

theorem nodup_removeKey (h : (l.map Prod.fst).Nodup) :
    ((removeKey k l).map Prod.fst).Nodup :=
  h.sublist (filter_sublist.map Prod.fst)

theorem notMem_removeKey (k : κ) (l : List (κ × α)) : k ∉ (removeKey k l).map Prod.fst := by
  simp [removeKey]

theorem length_removeKey_le (k : κ) (l : List (κ × α)) : (removeKey k l).length ≤ l.length :=
  length_filter_le _ _

def insertKey (k : κ) (a : α) (l : List (κ × α)) : List (κ × α) := (k, a) :: removeKey k l

theorem mem_insertKey :
    c ∈ insertKey k a l ↔ c = (k, a) ∨ c∈l ∧ c.1≠k := by
  rw [insertKey,mem_cons,mem_removeKey]

theorem mem_of_lookup (h : l.lookup k = some a) :
    (k, a) ∈ l := by
  obtain ⟨before,after,rfl,-⟩ := lookup_eq_some_iff.mp h
  exact mem_append_right before mem_cons_self

def storeKey (k : κ) (a : α) : List (κ × α) → List (κ × α)
  | [] => [(k, a)]
  | (j, b) :: rest => if j=k then (k, a) :: rest else (j, b) :: storeKey k a rest

theorem storeKey_of_notMem (h : k ∉ l.map Prod.fst) (a : α) :
    storeKey k a l = l ++ [(k, a)] := by
  induction l with
  | nil => rfl
  | cons c rest ih =>
    rw [map_cons,mem_cons,not_or] at h
    rw [storeKey,if_neg (Ne.symm h.1),ih h.2,cons_append]

theorem map_fst_storeKey (k : κ) (a : α) (l : List (κ × α)) :
    (storeKey k a l).map Prod.fst =
      if k ∈ l.map Prod.fst then l.map Prod.fst else l.map Prod.fst ++ [k] := by
  induction l with
  | nil => rfl
  | cons c rest ih =>
    rw [storeKey]
    by_cases hc : c.1=k
    · simp [hc]
    · rw [if_neg hc,map_cons,ih]
      have hkey : k ∈ (c::rest).map Prod.fst ↔ k ∈ rest.map Prod.fst := by
        rw [map_cons,mem_cons]
        exact or_iff_right (Ne.symm hc)
      by_cases hk : k ∈ rest.map Prod.fst
      · rw [if_pos hk,if_pos (hkey.mpr hk),map_cons]
      · rw [if_neg hk,if_neg (hk ∘ hkey.mp),map_cons,cons_append]

theorem mem_of_mem_storeKey (h : c ∈ storeKey k a l) : c = (k, a) ∨ c∈l := by
  induction l with
  | nil => exact .inl (mem_singleton.mp h)
  | cons d rest ih =>
    rw [storeKey] at h
    split_ifs at h with hd
    · rcases mem_cons.mp h with h | h
      · exact .inl h
      · exact .inr (mem_cons_of_mem _ h)
    · rcases mem_cons.mp h with h | h
      · exact .inr (h ▸ mem_cons_self)
      · exact (ih h).imp_right (mem_cons_of_mem _)

def lookupKey (k : κ) (l : List (κ × α)) : Option α :=
  (l.find? fun c => decide (c.1=k)).map Prod.snd

theorem mem_of_lookupKey (h : lookupKey k l = some a) :
    (k, a) ∈ l := by
  obtain ⟨c,hfind,rfl⟩ := Option.map_eq_some_iff.mp h
  have hkey := find?_some hfind
  rw [decide_eq_true_eq] at hkey
  rw [← hkey]
  exact mem_of_find?_eq_some hfind

theorem lookupKey_filter {p : κ × α → Bool}
    (h : lookupKey k l = some a) (hp : p (k, a) = true) : lookupKey k (l.filter p) = some a := by
  induction l with
  | nil => cases h
  | cons c rest ih =>
    by_cases hc : c.1=k
    · have hvalue : c.2=a := by simpa [lookupKey,hc] using h
      have hkeep : p c = true := by rw [← hp,← hc,← hvalue]
      simp [lookupKey,hkeep,hc,hvalue]
    · have hrest : lookupKey k rest = some a := by simpa [lookupKey,hc] using h
      cases hkeep : p c with
      | true => simpa [lookupKey,hkeep,hc] using ih hrest
      | false => simpa [lookupKey,hkeep] using ih hrest

theorem lookupKey_insertKey (j k : κ) (a : α) (l : List (κ × α)) :
    lookupKey j (insertKey k a l) = if k=j then some a else lookupKey j l := by
  by_cases hkj : k=j
  · simp [lookupKey,insertKey,hkj]
  · have hsame : (removeKey k l).find? (fun c => decide (c.1=j)) =
        l.find? fun c => decide (c.1=j) := by
      rw [removeKey,find?_filter]
      congr 1
      funext c
      by_cases hc : c.1=j
      · simp [hc,Ne.symm hkj]
      · simp [hc]
    simp [lookupKey,insertKey,hkj,hsame]

omit [DecidableEq κ] in
theorem value_unique {b : α} (h : (l.map Prod.fst).Nodup)
    (ha : (k, a) ∈ l) (hb : (k, b) ∈ l) : a=b := by
  have heq := inj_on_of_nodup_map h ha hb rfl
  exact congrArg Prod.snd heq

theorem lookupKey_of_mem (h : (l.map Prod.fst).Nodup)
    (ha : (k, a) ∈ l) : lookupKey k l = some a := by
  cases hlookup : lookupKey k l with
  | none =>
    rw [lookupKey,Option.map_eq_none_iff,find?_eq_none] at hlookup
    exact absurd (decide_eq_true rfl) (hlookup (k, a) ha)
  | some b => rw [value_unique h (mem_of_lookupKey hlookup) ha]

theorem nodup_insertKey (h : (l.map Prod.fst).Nodup) (k : κ) (a : α) :
    ((insertKey k a l).map Prod.fst).Nodup :=
  nodup_cons.mpr ⟨notMem_removeKey k l,nodup_removeKey h⟩

theorem length_insertKey_le (h : (l.map Prod.fst).Nodup) {n : Nat}
    (hle : l.length≤n) (hroom : lookupKey k l = none → l.length<n) (a : α) :
    (insertKey k a l).length ≤ n := by
  change (removeKey k l).length + 1 ≤ n
  cases hlookup : lookupKey k l with
  | none =>
    have hshort := length_removeKey_le k l
    have hless := hroom hlookup
    omega
  | some previous =>
    -- the previous entry makes room
    have hcount := countP_removeKey h (mem_of_lookupKey hlookup) fun _ => true
    simp only [countP_true,if_true] at hcount
    omega

theorem lookupKey_storeKey (j k : κ) (a : α) (l : List (κ × α)) :
    lookupKey j (storeKey k a l) = if j=k then some a else lookupKey j l := by
  induction l with
  | nil =>
    by_cases hjk : j=k
    · simp [lookupKey,storeKey,hjk]
    · simp [lookupKey,storeKey,hjk,Ne.symm hjk]
  | cons c rest ih =>
    rw [storeKey]
    by_cases hck : c.1=k
    · by_cases hjk : j=k
      · simp [lookupKey,hck,hjk]
      · simp [lookupKey,hck,hjk,Ne.symm hjk]
    · rw [if_neg hck]
      by_cases hcj : c.1=j
      · have hjk : j≠k := hcj ▸ hck
        simp [lookupKey,hcj,hjk]
      · have hskip : ∀ l' : List (κ × α), lookupKey j (c::l') = lookupKey j l' := by
          simp [lookupKey,hcj]
        rw [show (c.1, c.2) = c from rfl,hskip,hskip,ih]

theorem lookupKey_foldl_storeKey (settings l : List (κ × α))
    (h : lookupKey k (settings.foldl (fun l c => storeKey c.1 c.2 l) l) = some a) :
    (k, a) ∈ settings ∨ k ∉ settings.map Prod.fst ∧ lookupKey k l = some a := by
  induction settings generalizing l with
  | nil => exact .inr ⟨not_mem_nil,h⟩
  | cons c rest ih =>
    rcases ih _ h with hin | ⟨hnot,hlookup⟩
    · exact .inl (mem_cons_of_mem _ hin)
    · rw [lookupKey_storeKey] at hlookup
      split_ifs at hlookup with hk
      · obtain rfl := Option.some.inj hlookup
        exact .inl (hk ▸ mem_cons_self)
      · refine .inr ⟨?_,hlookup⟩
        rw [map_cons,mem_cons,not_or]
        exact ⟨hk,hnot⟩

theorem lookupKey_foldl_isSome (settings l : List (κ × α))
    (h : k ∈ settings.map Prod.fst ∨ (lookupKey k l).isSome = true) :
    (lookupKey k (settings.foldl (fun l c => storeKey c.1 c.2 l) l)).isSome = true := by
  induction settings generalizing l with
  | nil => exact h.resolve_left not_mem_nil
  | cons c rest ih =>
    refine ih _ ?_
    rw [lookupKey_storeKey]
    rcases h with h | h
    · rcases mem_cons.mp h with rfl | h
      · exact .inr (by simp)
      · exact .inl h
    · refine .inr ?_
      split_ifs
      · rfl
      · exact h

theorem settings_kept_iff (settings : List (κ × α)) :
    (∀ c∈settings, lookupKey c.1 (settings.foldl (fun l c => storeKey c.1 c.2 l) []) = some c.2) ↔
      ∀ c∈settings, ∀ d∈settings, c.1=d.1 → c.2=d.2 := by
  constructor
  · intro h c hc d hd heq
    have hvalue := (h c hc).symm.trans (heq ▸ h d hd)
    exact Option.some.inj hvalue
  · intro h c hc
    have hsome := lookupKey_foldl_isSome settings [] (.inl (mem_map_of_mem hc))
    obtain ⟨a,ha⟩ := Option.isSome_iff_exists.mp hsome
    rcases lookupKey_foldl_storeKey settings [] ha with hin | ⟨-,hnone⟩
    · rw [ha,h c hc (c.1, a) hin rfl]
    · cases hnone

end Daimonos.Framework
