import Daimonos.Framework.Decimal
import Daimonos.ToolOutput.BoundText

namespace Daimonos.ToolOutput

open Framework Providers List

def shortEscapes : List (Nat × Char) :=
  [(8, 'b'), (9, 't'), (10, 'n'), (12, 'f'), (13, 'r')]

/-- The characters that a string writes with an escape. -/
def escaped : List Char := '"' :: '\\' :: (List.range 32).map Char.ofNat

def escape (c : Char) : List Char :=
  if c = '"' ∨ c = '\\' then ['\\', c]
  else if c.toNat<32 then
    match shortEscapes.lookup c.toNat with
    | some letter => ['\\', letter]
    | none => ['\\', 'u', '0', '0', (c.toNat/16).digitChar, (c.toNat % 16).digitChar]
  else [c]

def quoted (text : String) : List Char := '"' :: (text.toList.flatMap escape ++ ['"'])

def intText : Int → List Char
  | .ofNat n => decimal n
  | .negSucc n => '-' :: decimal (n+1)

mutual

/-- The compact text of a document. -/
def jsonText : Value → List Char
  | .null => "null".toList
  | .bool true => "true".toList
  | .bool false => "false".toList
  | .number n => intText n
  | .float text => text.toList
  | .string text => quoted text
  | .array [] => "[]".toList
  | .array (item::rest) => '[' :: (jsonText item ++ itemsText rest)
  | .object [] => ['\x7b', '\x7d']
  | .object ((key, value) :: rest) =>
    '\x7b' :: (quoted key ++ ':' :: (jsonText value ++ fieldsText rest))

def itemsText : List Value → List Char
  | [] => [']']
  | item::rest => ',' :: (jsonText item ++ itemsText rest)

def fieldsText : List (String × Value) → List Char
  | [] => ['\x7d']
  | (key, value) :: rest => ',' :: (quoted key ++ ':' :: (jsonText value ++ fieldsText rest))

end

def isNumberChar (c : Char) : Bool := c.isDigit || c ∈ ['-', '+', '.', 'e']

/-- A number with a fraction or an exponent. -/
def isFloatText (text : String) : Bool :=
  text.toList.all isNumberChar && text.toList.any (· ∈ ['.', 'e']) &&
    text.toList.head?.any fun c => c.isDigit || c == '-'

section Strings

variable {c d : Char} {x y : List Char}

theorem mem_escaped_of_lt (h : c.toNat<32) : c∈escaped := by
  refine mem_cons_of_mem _ (mem_cons_of_mem _ (mem_map.mpr ⟨c.toNat,mem_range.mpr h,?_⟩))
  exact Char.ofNat_toNat c

theorem escape_of_notMem (h : c ∉ escaped) : escape c = [c] := by
  have hplain : ¬ (c = '"' ∨ c = '\\') := by
    rintro (rfl | rfl) <;> exact h (by decide)
  rw [escape,if_neg hplain,if_neg fun hlt => h (mem_escaped_of_lt hlt)]

theorem head_escape (h : c∈escaped) : ∃ rest, escape c = '\\' :: rest := by
  have hall : escaped.all (fun c => (escape c).head? == some '\\') = true := by decide
  exact head?_eq_some_iff.mp (beq_iff_eq.mp (all_eq_true.mp hall c h))

/-- No escape starts another, and a character that needs none is no backslash. -/
theorem escape_inj (h : escape c ++ x = escape d ++ y) : c=d ∧ x=y := by
  have hall : escaped.all (fun c => escaped.all fun d =>
      !(escape c).isPrefixOf (escape d) || c == d) = true := by decide +kernel
  have hapart : ∀ c∈escaped, ∀ d∈escaped, escape c <+: escape d → c=d := by
    intro c hc d hd hle
    simpa [ isPrefixOf_iff_prefix.mpr hle] using all_eq_true.mp (all_eq_true.mp hall c hc) d hd
  have hback : '\\' ∈ escaped := by decide
  by_cases hc : c∈escaped <;> by_cases hd : d∈escaped
  · obtain rfl : c=d := by
      rcases prefix_or_prefix_of_prefix (prefix_append (escape c) x) (h ▸ prefix_append (escape d) y) with
        hle | hle
      · exact hapart c hc d hd hle
      · exact (hapart d hd c hc hle).symm
    exact ⟨rfl,append_cancel_left h⟩
  · obtain ⟨rest,hrest⟩ := head_escape hc
    rw [hrest,escape_of_notMem hd] at h
    exact absurd ((List.cons.inj h).1 ▸ hback) hd
  · obtain ⟨rest,hrest⟩ := head_escape hd
    rw [hrest,escape_of_notMem hc] at h
    exact absurd ((List.cons.inj h).1 ▸ hback) hc
  · rw [escape_of_notMem hc,escape_of_notMem hd] at h
    exact List.cons.inj h

theorem escape_ne_quote (h : escape c ++ x = '"' :: y) : False := by
  by_cases hc : c∈escaped
  · obtain ⟨rest,hrest⟩ := head_escape hc
    rw [hrest] at h
    exact absurd (List.cons.inj h).1 (by decide)
  · rw [escape_of_notMem hc] at h
    exact hc ((List.cons.inj h).1 ▸ by decide)

theorem flatMap_escape_inj {s t : List Char}
    (h : s.flatMap escape ++ '"' :: x = t.flatMap escape ++ '"' :: y) : s=t ∧ x=y := by
  induction s generalizing t with
  | nil =>
    cases t with
    | nil => exact ⟨rfl,(List.cons.inj h).2⟩
    | cons d t =>
      rw [flatMap_cons,append_assoc] at h
      exact (escape_ne_quote h.symm).elim
  | cons c s ih =>
    cases t with
    | nil =>
      rw [flatMap_cons,append_assoc] at h
      exact (escape_ne_quote h).elim
    | cons d t =>
      rw [flatMap_cons,flatMap_cons,append_assoc,append_assoc] at h
      obtain ⟨rfl,hrest⟩ := escape_inj h
      obtain ⟨rfl,rfl⟩ := ih hrest
      exact ⟨rfl,rfl⟩

theorem quoted_inj {s t : String} (h : quoted s ++ x = quoted t ++ y) : s=t ∧ x=y := by
  simp only [quoted,cons_append,append_assoc,cons.injEq,true_and] at h
  obtain ⟨hsame,hrest⟩ := flatMap_escape_inj h
  exact ⟨String.toList_injective hsame,hrest⟩

theorem newline_notMem_quoted (text : String) : '\n' ∉ quoted text := by
  have hescape : '\n' ∉ text.toList.flatMap escape := by
    rw [mem_flatMap]
    rintro ⟨c,-,hc⟩
    have hall : escaped.all (fun c => decide ('\n' ∉ escape c)) = true := by decide
    by_cases hin : c∈escaped
    · exact of_decide_eq_true (all_eq_true.mp hall c hin) hc
    · rw [escape_of_notMem hin,mem_singleton] at hc
      exact hin (hc ▸ by decide)
  simp [quoted,hescape]

end Strings

section Numbers

/-- What may follow a number: nothing, or a character that is not part of one. -/
def Stops (rest : List Char) : Prop := ∀ c∈rest.head?, isNumberChar c = false

theorem token_inj {s t x y : List Char} (hs : ∀ c∈s, isNumberChar c = true)
    (ht : ∀ c∈t, isNumberChar c = true) (hx : Stops x) (hy : Stops y) (h : s++x=t++y) :
    s=t ∧ x=y := by
  have htoken : ∀ {s x : List Char}, (∀ c∈s, isNumberChar c = true) → Stops x →
      (s++x).takeWhile isNumberChar = s := by
    intro s x hs hx
    rw [takeWhile_append_of_pos hs]
    cases x with
    | nil => simp
    | cons c x =>
      have hc : ¬ isNumberChar c = true := Bool.not_eq_true _ ▸ hx c rfl
      rw [takeWhile_cons_of_neg hc,append_nil]
  obtain rfl : s=t := by rw [← htoken hs hx,h,htoken ht hy]
  exact ⟨rfl,append_cancel_left h⟩

theorem mem_intText {n : Int} {c : Char} (h : c ∈ intText n) : c.isDigit=true ∨ c = '-' := by
  cases n with
  | ofNat n => exact .inl (isDigit_of_mem_decimal h)
  | negSucc n =>
    rcases mem_cons.mp h with rfl | h
    · exact .inr rfl
    · exact .inl (isDigit_of_mem_decimal h)

theorem intText_inj {m n : Int} (h : intText m = intText n) : m=n := by
  have hminus : ∀ k l : Nat, decimal k ≠ '-' :: decimal l := by
    intro k l heq
    exact absurd (isDigit_of_mem_decimal (heq ▸ mem_cons_self)) (by decide)
  cases m <;> cases n
  · rw [decimal_inj.mp h]
  · exact absurd h (hminus _ _)
  · exact absurd h.symm (hminus _ _)
  · rw [Nat.succ.inj (decimal_inj.mp (List.cons.inj h).2)]

theorem isFloatText_spec {text : String} (h : isFloatText text = true) :
    (∀ c∈text.toList, isNumberChar c = true) ∧ (∃ c∈text.toList, c = '.' ∨ c = 'e') ∧
      ∃ c rest, text.toList=c::rest ∧ (c.isDigit=true ∨ c = '-') := by
  simp only [isFloatText,Bool.and_eq_true,all_eq_true,any_eq_true,decide_eq_true_eq,
    Option.any_eq_true,Bool.or_eq_true,beq_iff_eq,mem_cons,not_mem_nil,or_false] at h
  obtain ⟨⟨hall,hmark⟩,c,hc,hfirst⟩ := h
  obtain ⟨rest,hrest⟩ := head?_eq_some_iff.mp hc
  exact ⟨hall,hmark,c,rest,hrest,hfirst⟩

theorem isNumberChar_of_digit {c : Char} (h : c.isDigit=true ∨ c = '-') :
    isNumberChar c = true := by
  rcases h with h | rfl
  · simp [isNumberChar,h]
  · decide

theorem intText_ne_float {n : Int} {text : String} (h : isFloatText text = true) :
    intText n ≠ text.toList := by
  intro heq
  obtain ⟨-,⟨c,hc,hmark⟩,-⟩ := isFloatText_spec h
  have hdigit := mem_intText (heq ▸ hc)
  rcases hmark with rfl | rfl <;> revert hdigit <;> decide

end Numbers

section Documents

/-- The kind of a document by the first character of its text. -/
def kindOf (c : Char) : Nat := if isNumberChar c then 0 else c.toNat

def kind : Value → Nat
  | .null => 'n'.toNat
  | .bool true => 't'.toNat
  | .bool false => 'f'.toNat
  | .number _ | .float _ => 0
  | .string _ => '"'.toNat
  | .array _ => '['.toNat
  | .object _ => '\x7b'.toNat

theorem head_intText (n : Int) : ∃ c rest, intText n = c::rest ∧ (c.isDigit=true ∨ c = '-') := by
  have hne : intText n ≠ [] := by
    cases n with
    | ofNat n => exact Nat.toDigits_ne_nil
    | negSucc n => exact cons_ne_nil _ _
  obtain ⟨c,rest,heq⟩ := exists_cons_of_ne_nil hne
  exact ⟨c,rest,heq,mem_intText (heq ▸ mem_cons_self)⟩

theorem head_jsonText {value : Value} {depth : Nat}
    (h : readableWithin isFloatText value depth = true) :
    ∃ c rest, jsonText value = c::rest ∧ kindOf c = kind value ∧ c ≠ '.' := by
  have hnumber : ∀ c : Char, c.isDigit=true ∨ c = '-' → kindOf c = 0 ∧ c ≠ '.' := by
    intro c hc
    refine ⟨if_pos (isNumberChar_of_digit hc),?_⟩
    rintro rfl
    revert hc
    decide
  cases value with
  | null => exact ⟨_,_,rfl,by decide,by decide⟩
  | bool b => cases b <;> exact ⟨_,_,rfl,by decide,by decide⟩
  | number n =>
    obtain ⟨c,rest,heq,hc⟩ := head_intText n
    exact ⟨c,rest,heq,hnumber c hc⟩
  | float text =>
    obtain ⟨-,-,c,rest,heq,hc⟩ := isFloatText_spec h
    exact ⟨c,rest,heq,hnumber c hc⟩
  | string text => exact ⟨_,_,rfl,rfl,by decide⟩
  | array items => cases items <;> exact ⟨_,_,rfl,rfl,by decide⟩
  | object fields => cases fields <;> exact ⟨_,_,rfl,rfl,by decide⟩

theorem kind_eq {v w : Value} {m n : Nat} {x y : List Char}
    (hv : readableWithin isFloatText v m = true) (hw : readableWithin isFloatText w n = true)
    (h : jsonText v ++ x = jsonText w ++ y) : kind v = kind w := by
  obtain ⟨c,s,hc,hkind,-⟩ := head_jsonText hv
  obtain ⟨d,t,hd,hkind',-⟩ := head_jsonText hw
  rw [hc,hd] at h
  rw [← hkind,← hkind',(List.cons.inj h).1]

theorem stops_items (items : List Value) (x : List Char) : Stops (itemsText items ++ x) := by
  cases items <;> simp [Stops,itemsText] <;> decide

theorem stops_fields (fields : List (String × Value)) (x : List Char) :
    Stops (fieldsText fields ++ x) := by
  cases fields <;> simp [Stops,fieldsText] <;> decide

theorem readable_items {items : List Value} {depth : Nat}
    (h : readableWithin isFloatText (.array items) depth = true) :
    ∃ inner, readableItems isFloatText items inner = true := by
  cases depth with
  | zero => cases h
  | succ depth => exact ⟨depth,h⟩

theorem readable_fields {fields : List (String × Value)} {depth : Nat}
    (h : readableWithin isFloatText (.object fields) depth = true) :
    ∃ inner, readableFields isFloatText fields inner = true := by
  cases depth with
  | zero => cases h
  | succ depth => exact ⟨depth,(Bool.and_eq_true_iff.mp h).2⟩

theorem jsonText_ne_close {value : Value} {depth : Nat} {x y : List Char}
    (hv : readableWithin isFloatText value depth = true) (h : jsonText value ++ x = ']' :: y) :
    False := by
  obtain ⟨c,rest,hc,hkind,-⟩ := head_jsonText hv
  rw [hc] at h
  rw [(List.cons.inj h).1,show kindOf ']' = 93 from rfl] at hkind
  rcases value with _ | (_ | _) | _ | _ | _ | _ | _ <;> simp [kind] at hkind

theorem array_of_kind {items : List Value} {w : Value} (h : kind (.array items) = kind w) :
    ∃ ws, w = .array ws := by
  rcases w with _ | (_ | _) | _ | _ | _ | _ | _ <;> simp [kind] at h ⊢

theorem object_of_kind {fields : List (String × Value)} {w : Value}
    (h : kind (.object fields) = kind w) : ∃ ws, w = .object ws := by
  rcases w with _ | (_ | _) | _ | _ | _ | _ | _ <;> simp [kind] at h ⊢

mutual

/-- Texts of documents are read from the front: no text starts another, but for a number that goes
on. -/
theorem jsonText_inj : ∀ {v w : Value} {m n : Nat} {x y : List Char},
    readableWithin isFloatText v m = true → readableWithin isFloatText w n = true →
    Stops x → Stops y → jsonText v ++ x = jsonText w ++ y → v=w ∧ x=y
  | .null, w, _, _, _, _, hv, hw, _, _, h => by
    have hkind := kind_eq hv hw h
    obtain rfl : w=.null := by
      rcases w with _ | (_ | _) | _ | _ | _ | _ | _ <;> simp [kind] at hkind ⊢
    exact ⟨rfl,append_cancel_left h⟩
  | .bool b, w, _, _, _, _, hv, hw, _, _, h => by
    have hkind := kind_eq hv hw h
    obtain rfl : w = .bool b := by
      cases b <;> rcases w with _ | (_ | _) | _ | _ | _ | _ | _ <;> simp [kind] at hkind ⊢
    exact ⟨rfl,append_cancel_left h⟩
  | .number k, w, _, _, _, _, hv, hw, hx, hy, h => by
    have hk : ∀ c ∈ intText k, isNumberChar c = true := fun c hc =>
      isNumberChar_of_digit (mem_intText hc)
    have hkind := kind_eq hv hw h
    cases w with
    | number l =>
      obtain ⟨heq,hrest⟩ := token_inj hk
        (fun c hc => isNumberChar_of_digit (mem_intText hc)) hx hy h
      exact ⟨congrArg _ (intText_inj heq),hrest⟩
    | float text =>
      have heq := (token_inj hk (isFloatText_spec hw).1 hx hy h).1
      exact absurd heq (intText_ne_float hw)
    | bool b => cases b <;> simp [kind] at hkind
    | null | string | array | object => simp [kind] at hkind
  | .float text, w, _, _, _, _, hv, hw, hx, hy, h => by
    have htext := (isFloatText_spec hv).1
    have hkind := kind_eq hv hw h
    cases w with
    | number l =>
      have heq := (token_inj htext
        (fun c hc => isNumberChar_of_digit (mem_intText hc)) hx hy h).1
      exact absurd heq.symm (intText_ne_float hv)
    | float text' =>
      obtain ⟨heq,hrest⟩ := token_inj htext (isFloatText_spec hw).1 hx hy h
      exact ⟨congrArg _ (String.toList_injective heq),hrest⟩
    | bool b => cases b <;> simp [kind] at hkind
    | null | string | array | object => simp [kind] at hkind
  | .string text, w, _, _, _, _, hv, hw, _, _, h => by
    have hkind := kind_eq hv hw h
    obtain ⟨text',rfl⟩ : ∃ text', w = .string text' := by
      rcases w with _ | (_ | _) | _ | _ | _ | _ | _ <;> simp [kind] at hkind ⊢
    obtain ⟨rfl,hrest⟩ := quoted_inj h
    exact ⟨rfl,hrest⟩
  | .array [], w, _, _, _, _, hv, hw, _, _, h => by
    obtain ⟨ws,rfl⟩ := array_of_kind (kind_eq hv hw h)
    obtain ⟨n,hws⟩ := readable_items hw
    cases ws with
    | nil => exact ⟨rfl,append_cancel_left h⟩
    | cons w ws =>
      rw [readableItems,Bool.and_eq_true] at hws
      simp only [jsonText,cons_append,append_assoc] at h
      exact (jsonText_ne_close hws.1 (List.cons.inj h).2.symm).elim
  | .array (v::vs), w, _, _, x, y, hv, hw, _, _, h => by
    obtain ⟨ws,rfl⟩ := array_of_kind (kind_eq hv hw h)
    obtain ⟨m,hvs⟩ := readable_items hv
    obtain ⟨n,hws⟩ := readable_items hw
    rw [readableItems,Bool.and_eq_true] at hvs
    cases ws with
    | nil =>
      simp only [jsonText,cons_append,append_assoc] at h
      exact (jsonText_ne_close hvs.1 (List.cons.inj h).2).elim
    | cons w ws =>
      rw [readableItems,Bool.and_eq_true] at hws
      simp only [jsonText,cons_append,append_assoc,cons.injEq,true_and] at h
      obtain ⟨rfl,hrest⟩ := jsonText_inj hvs.1 hws.1 (stops_items vs x) (stops_items ws y) h
      obtain ⟨rfl,rfl⟩ := itemsText_inj hvs.2 hws.2 hrest
      exact ⟨rfl,rfl⟩
  | .object [], w, _, _, _, _, hv, hw, _, _, h => by
    obtain ⟨ws,rfl⟩ := object_of_kind (kind_eq hv hw h)
    cases ws with
    | nil => exact ⟨rfl,append_cancel_left h⟩
    | cons => simp [jsonText,quoted] at h
  | .object ((key, v) :: vs), w, _, _, x, y, hv, hw, _, _, h => by
    obtain ⟨ws,rfl⟩ := object_of_kind (kind_eq hv hw h)
    obtain ⟨m,hvs⟩ := readable_fields hv
    obtain ⟨n,hws⟩ := readable_fields hw
    rw [readableFields,Bool.and_eq_true] at hvs
    cases ws with
    | nil => simp [jsonText,quoted] at h
    | cons field ws =>
      obtain ⟨key',w⟩ := field
      rw [readableFields,Bool.and_eq_true] at hws
      simp only [jsonText,cons_append,append_assoc,cons.injEq,true_and] at h
      obtain ⟨rfl,hvalue⟩ := quoted_inj h
      obtain ⟨rfl,hrest⟩ := jsonText_inj hvs.1 hws.1 (stops_fields vs x) (stops_fields ws y)
        (List.cons.inj hvalue).2
      obtain ⟨rfl,rfl⟩ := fieldsText_inj hvs.2 hws.2 hrest
      exact ⟨rfl,rfl⟩

theorem itemsText_inj : ∀ {v w : List Value} {m n : Nat} {x y : List Char},
    readableItems isFloatText v m = true → readableItems isFloatText w n = true →
    itemsText v ++ x = itemsText w ++ y → v=w ∧ x=y
  | [], [], _, _, _, _, _, _, h => ⟨rfl,(List.cons.inj h).2⟩
  | [], _::_, _, _, _, _, _, _, h => by simp [itemsText] at h
  | _::_, [], _, _, _, _, _, _, h => by simp [itemsText] at h
  | v::vs, w::ws, m, n, x, y, hv, hw, h => by
    simp only [readableItems,Bool.and_eq_true] at hv hw
    simp only [itemsText,cons_append,append_assoc,cons.injEq,true_and] at h
    obtain ⟨rfl,hrest⟩ := jsonText_inj hv.1 hw.1 (stops_items vs x) (stops_items ws y) h
    obtain ⟨rfl,rfl⟩ := itemsText_inj hv.2 hw.2 hrest
    exact ⟨rfl,rfl⟩

theorem fieldsText_inj : ∀ {v w : List (String × Value)} {m n : Nat} {x y : List Char},
    readableFields isFloatText v m = true → readableFields isFloatText w n = true →
    fieldsText v ++ x = fieldsText w ++ y → v=w ∧ x=y
  | [], [], _, _, _, _, _, _, h => ⟨rfl,(List.cons.inj h).2⟩
  | [], _::_, _, _, _, _, _, _, h => by simp [fieldsText] at h
  | _::_, [], _, _, _, _, _, _, h => by simp [fieldsText] at h
  | (key, v) :: vs, (key', w) :: ws, m, n, x, y, hv, hw, h => by
    simp only [readableFields,Bool.and_eq_true] at hv hw
    simp only [fieldsText,cons_append,append_assoc,cons.injEq,true_and] at h
    obtain ⟨rfl,hvalue⟩ := quoted_inj h
    obtain ⟨rfl,hrest⟩ := jsonText_inj hv.1 hw.1 (stops_fields vs x) (stops_fields ws y)
      (List.cons.inj hvalue).2
    obtain ⟨rfl,rfl⟩ := fieldsText_inj hv.2 hw.2 hrest
    exact ⟨rfl,rfl⟩

end

mutual

theorem newline_notMem_jsonText : ∀ {value : Value} {depth : Nat},
    readableWithin isFloatText value depth = true → '\n' ∉ jsonText value
  | .null, _, _ | .bool true, _, _ | .bool false, _, _ => by decide
  | .number _, _, _ => fun h => by
    have hdigit := mem_intText h
    revert hdigit
    decide
  | .float _, _, hv => fun h => absurd ((isFloatText_spec hv).1 _ h) (by decide)
  | .string text, _, _ => newline_notMem_quoted text
  | .array [], _, _ | .object [], _, _ => by decide
  | .array (item::rest), _, hv => by
    obtain ⟨inner,hall⟩ := readable_items hv
    rw [readableItems,Bool.and_eq_true] at hall
    simp [jsonText,newline_notMem_jsonText hall.1,newline_notMem_itemsText hall.2]
  | .object ((key, value) :: rest), _, hv => by
    obtain ⟨inner,hall⟩ := readable_fields hv
    rw [readableFields,Bool.and_eq_true] at hall
    simp [jsonText,newline_notMem_quoted,newline_notMem_jsonText hall.1,
      newline_notMem_fieldsText hall.2]

theorem newline_notMem_itemsText : ∀ {items : List Value} {depth : Nat},
    readableItems isFloatText items depth = true → '\n' ∉ itemsText items
  | [], _, _ => by decide
  | item::rest, _, hall => by
    rw [readableItems,Bool.and_eq_true] at hall
    simp [itemsText,newline_notMem_jsonText hall.1,newline_notMem_itemsText hall.2]

theorem newline_notMem_fieldsText : ∀ {fields : List (String × Value)} {depth : Nat},
    readableFields isFloatText fields depth = true → '\n' ∉ fieldsText fields
  | [], _, _ => by decide
  | (key, value) :: rest, _, hall => by
    rw [readableFields,Bool.and_eq_true] at hall
    simp [fieldsText,newline_notMem_quoted,newline_notMem_jsonText hall.1,
      newline_notMem_fieldsText hall.2]

end

end Documents

end Daimonos.ToolOutput
