import Daimonos.ToolOutput.JsonText
import Daimonos.ToolOutput.Microcompact

namespace Daimonos.ToolOutput

open Daimonos.Framework Providers List Option

section Naming

variable {path text lead trail : List Char}

def Nonblank (path : List Char) : Prop := ∃ c rest, path=c::rest ∧ isWhitespace c = false

/-- A text names the file `path`: its first marker phrase is followed, after blanks, by the path,
and that by the last ellipsis of the text or, with none in it, by the end of the text. -/
def NamesFile (path text : List Char) : Prop :=
  ∃ before blanks rest,
    text = before++truncatedMarker ++ (blanks ++ (path++rest)) ∧
    (∀ other more, text=other++truncatedMarker++more → before.length ≤ other.length) ∧
    (∀ c∈blanks, isWhitespace c = true) ∧ Nonblank path ∧
    (rest = [] ∧ ¬ ellipsis <:+: path ∨
      ∃ after, rest=ellipsis++after ∧
        ∀ other more, path++rest=other++ellipsis++more → other.length≤path.length)

theorem dropWhile_blanks {blanks rest : List Char} (hblanks : ∀ c∈blanks, isWhitespace c = true)
    (hpath : Nonblank path) :
    (blanks ++ (path++rest)).dropWhile isWhitespace = path++rest := by
  obtain ⟨c,tail,rfl,hc⟩ := hpath
  rw [dropWhile_append_of_pos hblanks,cons_append,dropWhile_cons_of_neg]
  simp [hc]

theorem markerOutputPath_eq_some : markerOutputPath text = some path ↔ NamesFile path text := by
  unfold markerOutputPath
  constructor
  · intro h
    split at h
    · cases h
    rename_i before suffix hfirst
    obtain ⟨htext,hmin⟩ := dropInfix?_eq_some.mp hfirst
    have hsuffix := takeWhile_append_dropWhile (p := isWhitespace) (l := suffix)
    have hblanks : ∀ c ∈ suffix.takeWhile isWhitespace, isWhitespace c = true :=
      fun c hc => mem_takeWhile_imp hc
    have hhead : ∀ c rest, suffix.dropWhile isWhitespace = c::rest → isWhitespace c = false := by
      intro c rest heq
      have hnot := head?_dropWhile_not isWhitespace suffix
      rw [heq] at hnot
      simpa using hnot
    dsimp only at h
    split at h
    · rename_i found after hlast
      obtain ⟨hpath,hmax⟩ := splitLast_eq_some.mp hlast
      split_ifs at h with hempty
      obtain rfl := some.inj h
      refine ⟨before,suffix.takeWhile isWhitespace,ellipsis++after,?_,hmin,hblanks,?_,?_⟩
      · rw [htext,← append_assoc found,← hpath,hsuffix]
      · obtain ⟨c,rest,rfl⟩ := exists_cons_of_ne_nil (by simpa using hempty)
        exact ⟨c,rest,rfl,hhead c _ hpath⟩
      · refine .inr ⟨after,rfl,?_⟩
        intro other more hother
        refine hmax other more ?_
        rw [hpath,append_assoc,hother]
    · rename_i hlast
      split_ifs at h with hempty
      obtain rfl := some.inj h
      refine ⟨before,suffix.takeWhile isWhitespace,[],?_,hmin,hblanks,?_,.inl ⟨rfl,?_⟩⟩
      · rw [append_nil,hsuffix,htext]
      · obtain ⟨c,rest,heq⟩ := exists_cons_of_ne_nil (mt isEmpty_iff.mpr hempty)
        exact ⟨c,rest,heq,hhead c rest heq⟩
      · intro hin
        obtain ⟨found,after,hfound⟩ := exists_splitLast hin
        rw [hfound] at hlast
        cases hlast
  · rintro ⟨before,blanks,rest,htext,hmin,hblanks,hpath,hlast⟩
    have hfirst := dropInfix?_eq_some.mpr ⟨htext,hmin⟩
    rw [hfirst]
    dsimp only
    rw [dropWhile_blanks hblanks hpath]
    obtain ⟨c,tail,rfl,hc⟩ := hpath
    rcases hlast with ⟨rfl,hnone⟩ | ⟨after,rfl,hmax⟩
    · have hsplit : splitLast (c::tail ++ []) ellipsis = none := by
        rw [eq_none_iff_forall_ne_some]
        rintro ⟨found,after⟩ hfound
        rw [append_nil] at hfound
        exact hnone (infix_of_splitLast hfound)
      rw [hsplit]
      simp
    · have hsplit : splitLast (c::tail ++ (ellipsis++after)) ellipsis =
          some (c::tail, after) := by
        refine splitLast_eq_some.mpr ⟨?_,hmax⟩
        rw [append_assoc]
      rw [hsplit]
      simp

/-- What may stand before a marker: nothing, or lines. -/
def Lead (lead : List Char) : Prop := lead = [] ∨ ∃ head, lead = head ++ ['\n']

/-- What may stand after a marker: nothing, or lines. -/
def Trail (trail : List Char) : Prop := trail = [] ∨ ∃ tail, trail = '\n' :: tail

theorem leader_eq : leader = ['.', '.', '.', ' '] := by decide

theorem isWhitespace_space : ∀ c ∈ [' '], isWhitespace c = true := by
  intro c hc
  rw [mem_singleton.mp hc]
  decide

theorem truncatedMarker_ne : truncatedMarker ≠ [] := by decide

theorem ellipsis_ne : ellipsis ≠ [] := by decide

theorem newline_notMem_truncatedMarker : '\n' ∉ truncatedMarker := by decide

theorem newline_notMem_ellipsis : '\n' ∉ ellipsis := by decide

theorem truncatedMarker_bytes : 1 < utf8Length truncatedMarker := by decide

theorem ellipsis_bytes : 1 < utf8Length ellipsis := by decide

theorem truncatedMarker_head : ∃ rest, truncatedMarker = 't' :: rest := ⟨_,rfl⟩

theorem length_le_of_dots {before after rest : List Char}
    (h : leader++rest=before++truncatedMarker++after) : 4≤before.length := by
  obtain ⟨phrase,hphrase⟩ := truncatedMarker_head
  have hchar : (before++truncatedMarker++after)[before.length]? = some 't' := by
    simp [hphrase]
  rw [← h] at hchar
  by_contra hlt
  have hcases : before.length=0 ∨ before.length=1 ∨ before.length=2 ∨ before.length=3 := by
    omega
  rcases hcases with hn | hn | hn | hn <;> simp [hn,leader_eq] at hchar

theorem first_phrase {before after rest : List Char} (hlead : Lead lead)
    (hnone : ¬ truncatedMarker <:+: lead)
    (h : lead ++ (leader++rest) = before++truncatedMarker++after) :
    (lead++leader).length ≤ before.length := by
  rcases hlead with rfl | ⟨head,rfl⟩
  · exact length_le_of_dots h
  · rw [append_assoc,singleton_append] at h
    rcases occurrence_of_sep newline_notMem_truncatedMarker h with ⟨more,hhead⟩ | ⟨start,hbefore,hrest⟩
    · refine absurd ⟨before,more ++ ['\n'],?_⟩ hnone
      rw [hhead,append_assoc,append_assoc,append_assoc]
    · have hdots := length_le_of_dots hrest
      rw [hbefore]
      simp only [length_append,length_cons,length_nil,leader_eq]
      omega

theorem last_ellipsis {other more : List Char} (htrail : Trail trail)
    (hnone : ¬ ellipsis <:+: trail) (h : path ++ (ellipsis++trail) = other++ellipsis++more) :
    other.length≤path.length := by
  rcases htrail with rfl | ⟨tail,rfl⟩
  · have hlength := congrArg List.length h
    simp only [length_append,length_nil] at hlength
    omega
  · rw [← append_assoc] at h
    rcases occurrence_of_sep newline_notMem_ellipsis h with ⟨rest,hpath⟩ | ⟨start,-,hrest⟩
    · have hlength := congrArg List.length hpath
      simp only [length_append] at hlength
      omega
    · refine absurd ⟨'\n' :: start,more,?_⟩ hnone
      rw [hrest,cons_append,cons_append]

theorem blanks_before_leader {blanks rest before after : List Char}
    (hblanks : ∀ c∈blanks, isWhitespace c = true)
    (h : blanks++rest = before ++ (leader++after)) :
    ∃ start, rest = start ++ (leader++after) := by
  rcases append_eq_append_iff.mp h with ⟨part,-,hrest⟩ | ⟨part,hpart,hrest⟩
  · exact ⟨part,hrest⟩
  · cases part with
    | nil => exact ⟨[],by simpa using hrest.symm⟩
    | cons c part =>
      rw [leader_eq] at hrest
      obtain ⟨rfl,-⟩ := List.cons.inj hrest
      exact absurd (hblanks '.' (by simp [hpart])) (by decide)

/-- Marked texts name their file exactly if the phrase is not found before the marker, nor an
ellipsis after it. -/
theorem namesFile_marked (hlead : Lead lead) (htrail : Trail trail) :
    NamesFile path (lead ++ (truncationMarker path ++ trail)) ↔
      Nonblank path ∧ ¬ truncatedMarker <:+: lead ∧ ¬ ellipsis <:+: trail := by
  have htext : lead ++ (truncationMarker path ++ trail) =
      lead ++ (leader ++ (truncatedMarker ++ (' ' :: (path ++ (ellipsis++trail))))) := by
    simp only [truncationMarker,append_assoc,cons_append]
  rw [htext]
  constructor
  · rintro ⟨before,blanks,rest,heq,hfirst,hblanks,hpath,hlast⟩
    have hlead' : ¬ truncatedMarker <:+: lead := by
      rintro ⟨earlier,later,hin⟩
      -- The phrase read is then one before the marker, and what follows it holds the whole marker.
      have hle : before.length≤earlier.length := by
        refine hfirst earlier (later ++ (leader ++ (truncatedMarker ++
          (' ' :: (path ++ (ellipsis++trail)))))) ?_
        rw [← hin,append_assoc]
      obtain ⟨part,-,hpart⟩ : ∃ part, lead=before++truncatedMarker++part ∧
          blanks ++ (path++rest) = part ++ (leader ++ (truncatedMarker ++
            (' ' :: (path ++ (ellipsis++trail))))) := by
        refine append_eq_append_of_length_le heq ?_
        have hlength := congrArg List.length hin
        simp only [length_append] at hlength ⊢
        omega
      obtain ⟨start,hstart⟩ := blanks_before_leader hblanks hpart
      rcases hlast with ⟨rfl,-⟩ | ⟨after,-,hlast⟩
      · have hlength := congrArg List.length hstart
        simp only [length_append,length_cons,length_nil] at hlength
        omega
      · have hlong := hlast (start ++ (leader ++ (truncatedMarker ++ ' ' :: path))) trail
          (by rw [hstart]; simp [append_assoc])
        simp only [length_append,length_cons] at hlong
        omega
    refine ⟨hpath,hlead',?_⟩
    have hge := first_phrase hlead hlead' heq
    have hle : before.length ≤ (lead++leader).length :=
      hfirst _ (' ' :: (path ++ (ellipsis++trail))) (by simp only [append_assoc])
    have heq' : (lead++leader) ++ (truncatedMarker ++ (' ' :: (path ++ (ellipsis++trail))))
        = before ++ (truncatedMarker ++ (blanks ++ (path++rest))) := by
      rw [append_assoc,heq,append_assoc]
    obtain ⟨-,hsuffix⟩ := append_inj heq' (by omega)
    have hrest : rest=ellipsis++trail := by
      have hafter := append_cancel_left hsuffix
      have hdrop := congrArg (List.dropWhile isWhitespace) hafter
      rw [← singleton_append,dropWhile_blanks isWhitespace_space hpath,
        dropWhile_blanks hblanks hpath] at hdrop
      exact (append_cancel_left hdrop).symm
    rintro ⟨earlier,later,hin⟩
    rcases hlast with ⟨rfl,-⟩ | ⟨after,-,hlast⟩
    · have hlength := congrArg List.length hrest
      simp only [length_append,length_nil] at hlength
      have hpos := length_pos_of_ne_nil ellipsis_ne
      omega
    · have hlong := hlast (path ++ (ellipsis++earlier)) later
        (by rw [hrest,← hin]; simp only [append_assoc])
      simp only [length_append] at hlong
      have hpos := length_pos_of_ne_nil ellipsis_ne
      omega
  · rintro ⟨hpath,hnone,hlast⟩
    refine ⟨lead++leader,[' '],ellipsis++trail,?_,?_,isWhitespace_space,hpath,
      .inr ⟨trail,rfl,?_⟩⟩
    · simp only [append_assoc,singleton_append]
    · intro other more hother
      exact first_phrase hlead hnone hother
    · intro other more hother
      exact last_ellipsis htrail hlast hother

end Naming

section Documents

/-- Where a document may name a stored output. -/
inductive Passage where
  | field (path : List Char)
  | text (shown : List Char)

def Passage.path? : Passage → Option (List Char)
  | .field path => some path
  | .text shown => markerOutputPath shown

mutual

/-- The texts of a document and its fields `full_output_path`, in the order they are looked at. -/
def passages : Value → List Passage
  | .string text => [.text text.toList]
  | .array items => passagesItems items
  | .object fields =>
    (((Value.object fields).get? "full_output_path" >>= Value.asStr?).map
      fun path => Passage.field path.toList).toList ++ passagesFields fields
  | _ => []

def passagesItems : List Value → List Passage
  | [] => []
  | item::rest => passages item ++ passagesItems rest

def passagesFields : List (String × Value) → List Passage
  | [] => []
  | (_, value) :: rest => passages value ++ passagesFields rest

end

mutual

theorem jsonOutputPath_eq : ∀ value : Value,
    jsonOutputPath value = (passages value).findSome? Passage.path?
  | .string text => by
    rw [jsonOutputPath,passages,findSome?_singleton,Passage.path?]
  | .array items => by rw [jsonOutputPath,passages,itemsOutputPath_eq items]
  | .object fields => by
    rw [jsonOutputPath,passages,findSome?_append,fieldsOutputPath_eq fields]
    cases (Value.object fields).get? "full_output_path" >>= Value.asStr? with
    | none | some path => rfl
  | .null | .bool _ | .number _ | .float _ => rfl

theorem itemsOutputPath_eq : ∀ items : List Value,
    itemsOutputPath items = (passagesItems items).findSome? Passage.path?
  | [] => rfl
  | item::rest => by
    rw [itemsOutputPath,passagesItems,findSome?_append,← jsonOutputPath_eq item,
      ← itemsOutputPath_eq rest]
    cases jsonOutputPath item <;> rfl

theorem fieldsOutputPath_eq : ∀ fields : List (String × Value),
    fieldsOutputPath fields = (passagesFields fields).findSome? Passage.path?
  | [] => rfl
  | (key, value) :: rest => by
    rw [fieldsOutputPath,passagesFields,findSome?_append,← jsonOutputPath_eq value,
      ← fieldsOutputPath_eq rest]
    cases jsonOutputPath value <;> rfl

end

theorem asStr?_withoutFloats (value : Value) : (withoutFloats value).asStr? = value.asStr? := by
  cases value <;> rfl

theorem pathField_withoutFloats (fields : List (String × Value)) :
    ((Value.object (fieldsWithoutFloats fields)).get? "full_output_path" >>= Value.asStr?) =
      ((Value.object fields).get? "full_output_path" >>= Value.asStr?) := by
  induction fields with
  | nil => rfl
  | cons field rest ih =>
    simp only [Value.get?,fieldsWithoutFloats,find?_cons] at ih ⊢
    split
    · exact asStr?_withoutFloats field.2
    · exact ih

mutual

theorem passages_withoutFloats : ∀ value : Value, passages (withoutFloats value) = passages value
  | .array items => by rw [withoutFloats,passages,passages,passagesItems_withoutFloats items]
  | .object fields => by
    rw [withoutFloats,passages,passages,pathField_withoutFloats,
      passagesFields_withoutFloats fields]
  | .null | .bool _ | .number _ | .float _ | .string _ => rfl

theorem passagesItems_withoutFloats : ∀ items : List Value,
    passagesItems (itemsWithoutFloats items) = passagesItems items
  | [] => rfl
  | item::rest => by
    rw [itemsWithoutFloats,passagesItems,passagesItems,passages_withoutFloats item,
      passagesItems_withoutFloats rest]

theorem passagesFields_withoutFloats : ∀ fields : List (String × Value),
    passagesFields (fieldsWithoutFloats fields) = passagesFields fields
  | [] => rfl
  | (key, value) :: rest => by
    rw [fieldsWithoutFloats,passagesFields,passagesFields,passages_withoutFloats value,
      passagesFields_withoutFloats rest]

end

/-- Every passage of a document is a text, and one that names a file names `path`. -/
def TextsName (path : List Char) (value : Value) : Prop :=
  ∀ passage ∈ passages value, ∃ text, passage = .text text ∧
    ∀ other, NamesFile other text → other=path

theorem passagesItems_append (before after : List Value) :
    passagesItems (before++after) = passagesItems before ++ passagesItems after := by
  induction before with
  | nil => rfl
  | cons item rest ih => rw [cons_append,passagesItems,passagesItems,ih,append_assoc]

theorem passagesFields_append (before after : List (String × Value)) :
    passagesFields (before++after) = passagesFields before ++ passagesFields after := by
  induction before with
  | nil => rfl
  | cons field rest ih => rw [cons_append,passagesFields,passagesFields,ih,append_assoc]

theorem ShortenOne.pathField_eq_none {r : String → String → Prop} {v v' : Value}
    (h : ShortenOne r v v') (key : String) (before after : List (String × Value))
    (hnone : ((Value.object (before ++ (key, v) :: after)).get? "full_output_path" >>=
      Value.asStr?) = none) :
    ((Value.object (before ++ (key, v') :: after)).get? "full_output_path" >>= Value.asStr?) =
      none := by
  simp only [Value.get?,find?_append,find?_cons] at hnone ⊢
  generalize before.find? (fun field => field.1 == "full_output_path") = earlier at hnone ⊢
  cases earlier with
  | some field => exact hnone
  | none =>
    cases hkey : key == "full_output_path" with
    | false =>
      rw [hkey] at hnone
      exact hnone
    | true =>
      rw [hkey] at hnone
      cases h with
      | string => cases hnone
      | item | field => rfl

/-- Where no object has a path of its own, one shortened text is one passage changed. -/
theorem ShortenOne.passages_eq {r : String → String → Prop} {value shorter : Value}
    (h : ShortenOne r value shorter) (htexts : ∀ p ∈ passages value, ∃ text, p = .text text) :
    ∃ before after text text', r text text' ∧
      passages value = before ++ .text text.toList :: after ∧
      passages shorter = before ++ .text text'.toList :: after := by
  induction h with
  | string hr => exact ⟨[],[],_,_,hr,rfl,rfl⟩
  | item before after _ ih =>
    simp only [passages,passagesItems_append,passagesItems] at htexts ⊢
    obtain ⟨first,last,text,text',hr,hv,hv'⟩ := ih fun p hp => htexts p (by simp [hp])
    exact ⟨passagesItems before ++ first,last ++ passagesItems after,text,text',hr,
      by simp [hv],by simp [hv']⟩
  | field key before after hone ih =>
    rename_i v v'
    have hnone : ((Value.object (before ++ (key, v) :: after)).get? "full_output_path" >>=
        Value.asStr?) = none := by
      by_contra hne
      obtain ⟨path,hpath⟩ := ne_none_iff_exists'.mp hne
      obtain ⟨text,htext⟩ := htexts (.field path.toList) (by simp [passages,hpath])
      cases htext
    have hnone' := hone.pathField_eq_none key before after hnone
    simp only [passages,hnone,hnone',map_none,toList_none,nil_append,passagesFields_append,
      passagesFields] at htexts ⊢
    obtain ⟨first,last,text,text',hr,hv,hv'⟩ := ih fun p hp => htexts p (by simp [hp])
    exact ⟨passagesFields before ++ first,last ++ passagesFields after,text,text',hr,
      by simp [hv],by simp [hv']⟩

end Documents

section Bounded

variable {json : SerdeJson} {limits : OutputLimits} {content path : List Char}

theorem framed_eq (head marker tail : List Char) :
    ∃ trail, Trail trail ∧ framed head marker tail = (head ++ ['\n']) ++ (marker++trail) ∧
      ∀ needle : List Char, '\n' ∉ needle → needle ≠ [] → (needle <:+: trail ↔ needle <:+: tail) := by
  unfold framed
  split_ifs with hempty
  · obtain rfl := isEmpty_iff.mp hempty
    exact ⟨[],.inl rfl,by simp,fun _ _ _ => Iff.rfl⟩
  · refine ⟨'\n' :: tail,.inr ⟨tail,rfl⟩,by simp,?_⟩
    intro needle hnewline hne
    have hsides := infix_append_sep (x := []) (y := tail) hnewline
    rw [nil_append] at hsides
    rw [hsides,infix_nil]
    exact or_iff_right hne

/-- A preview without room for lines shows too little of them for a phrase or an ellipsis. -/
theorem narrow_clear (content : List Char) {bytes maxLines maxBytes : Nat}
    (h : maxLines≤1 ∨ bytes + 2 ≥ maxBytes) {needle : List Char}
    (hlong : 1 < utf8Length needle) :
    ¬ needle <:+: previewHead content bytes maxLines maxBytes ∧
      ¬ needle <:+: previewTail content bytes maxLines maxBytes := by
  have hhead := utf8Length_previewHead content bytes maxLines maxBytes
  have htail := utf8Length_previewTail content bytes maxLines maxBytes
  have hroom : bytes + 2 ≥ maxBytes →
      previewRoom content bytes maxLines maxBytes ≤ 1 := by
    unfold previewRoom
    split_ifs <;> omega
  rcases h with hlines | hnarrow
  · have hnone := count_previewTail content bytes maxLines maxBytes
    have htailNil : previewTail content bytes maxLines maxBytes = [] := by
      by_contra hne
      have hpos := (hnone.2 hne).2
      omega
    have hheadNil : previewHead content bytes maxLines maxBytes = [] := by
      have hzero : (maxLines-1+1) / 2 = 0 := by omega
      obtain ⟨head,hhead,hsub,-⟩ := takePrefixBytes_spec
        (joinLines ((textLines content).take ((maxLines-1+1) / 2)))
        ((previewRoom content bytes maxLines maxBytes + 1) / 2)
      rw [hzero] at hsub
      rw [previewHead,hhead,getD_some]
      exact prefix_nil.mp hsub
    rw [htailNil,hheadNil,infix_nil]
    have hne : needle ≠ [] := by
      rintro rfl
      exact absurd hlong (by decide)
    exact ⟨hne,hne⟩
  · constructor <;>
    · intro hin
      have hle := utf8Length_le_of_infix hin
      omega

/-- A preview of `text` under these limits keeps the whole marker, nothing before it reads as its
phrase and nothing after it as its ellipsis. -/
def ClearPreview (path : List Char) (maxLines maxBytes : Nat) (text : List Char) : Prop :=
  utf8Length (truncationMarker path) ≤ maxBytes ∧ Nonblank path ∧
    ¬ truncatedMarker <:+: previewHead text (utf8Length (truncationMarker path)) maxLines maxBytes ∧
    ¬ ellipsis <:+: previewTail text (utf8Length (truncationMarker path)) maxLines maxBytes

/-- The bytes that the longest text of a document may keep. -/
def roomLeft (json : SerdeJson) (limits : OutputLimits) (value : Value) : Nat :=
  longestJsonStringLen value - (utf8Length (json.toString value) - limits.maxBytes)

/-- One round of shortening a document that is too long. -/
def Round (json : SerdeJson) (limits : OutputLimits) (path : List Char) (value shorter : Value) :
    Prop :=
  limits.maxBytes < utf8Length (json.toString value) ∧
    utf8Length (json.toString value) - limits.maxBytes ≤ longestJsonStringLen value ∧
    truncateFirstJsonString (longestJsonStringLen value) (roomLeft json limits value)
      (truncationMarker path) limits.maxLines value = some shorter

theorem namesFile_preview {maxLines maxBytes : Nat}
    (hmarker : truncationMarker path <:+:
      previewText content (truncationMarker path) maxLines maxBytes) :
    NamesFile path (previewText content (truncationMarker path) maxLines maxBytes) ↔
      ClearPreview path maxLines maxBytes content := by
  have hbytes : utf8Length (truncationMarker path) ≤ maxBytes :=
    ( utf8Length_le_of_infix hmarker).trans (preview_bytes (preview_eq_previewText _ _ _ _))
  unfold ClearPreview
  rw [and_iff_right hbytes]
  rcases previewText_of_infix hmarker with ⟨hout,hnarrow⟩ | hout
  · have hphrase := (narrow_clear content hnarrow truncatedMarker_bytes).1
    have hdots := (narrow_clear content hnarrow ellipsis_bytes).2
    have hmarked : NamesFile path ([] ++ (truncationMarker path ++ [])) ↔ _ :=
      namesFile_marked (.inl rfl) (.inl rfl)
    rw [nil_append,append_nil,infix_nil,infix_nil] at hmarked
    rw [hout,hmarked]
    simp only [hphrase,hdots,truncatedMarker_ne,ellipsis_ne,not_false_eq_true]
  · obtain ⟨trail,htrail,hframed, hinfix⟩ := framed_eq
      (previewHead content (utf8Length (truncationMarker path)) maxLines maxBytes)
      (truncationMarker path)
      (previewTail content (utf8Length (truncationMarker path)) maxLines maxBytes)
    rw [hout,hframed,namesFile_marked (.inr ⟨_,rfl⟩) htrail,
      hinfix ellipsis newline_notMem_ellipsis ellipsis_ne,
      infix_append_sep newline_notMem_truncatedMarker,infix_nil,or_iff_left truncatedMarker_ne]

/-- After a round every text still names the stored output or nothing, and the shortened one names
it. -/
theorem TextsName.round {value shorter : Value} (h : TextsName path value)
    (hclear : ∀ text, Passage.text text ∈ passages value →
      utf8Length text = longestJsonStringLen value →
        ClearPreview path limits.maxLines (roomLeft json limits value) text)
    (hround : Round json limits path value shorter) :
    TextsName path shorter ∧ ∃ text, .text text ∈ passages shorter ∧ NamesFile path text := by
  obtain ⟨before,after,text,text',hto,hvalue,hshorter⟩ :=
    (shortenOne_truncate hround.2.2).passages_eq fun p hp =>
      let ⟨text,htext,_⟩ := h p hp
      ⟨text,htext⟩
  obtain ⟨hlong,htext',-⟩ := hto.cases
  have hpreview := hclear text.toList (by simp [hvalue]) hlong
  have hnames : NamesFile path text'.toList := by
    rw [htext']
    exact (namesFile_preview (marker_infix_previewText _ _ hpreview.1)).mpr hpreview
  refine ⟨fun p hp => ?_,text'.toList,by simp [hshorter],hnames⟩
  rw [hshorter,mem_append,mem_cons] at hp
  rcases hp with hp | rfl | hp
  · exact h p (by simp [hvalue,hp])
  · refine ⟨_,rfl,fun other hother => ?_⟩
    rw [← markerOutputPath_eq_some] at hother hnames
    exact some.inj (hother.symm.trans hnames)
  · exact h p (by simp [hvalue,hp])

end Bounded

section Instances

def progress : List Char := ['o', 'k', '\n'] ++ (List.replicate 80 '█' ++ ['\n', 'o', 'k'])

end Instances

end Daimonos.ToolOutput
