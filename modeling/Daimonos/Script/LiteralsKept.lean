import Daimonos.Script.Rewriting

namespace Daimonos.Script

open Framework Lexer List

section Runs

variable (m : Bool) (l : Lexer) (tokens : List Token) (word : List Char) (q : Char)
  (content : List Char) (quotes : Nat) (c : Char) (x y : List Char)

theorem run_nil : run m l [] = l := rfl

theorem run_cons : run m l (c::x) = run m (feed m l c) x := rfl

theorem run_append : run m l (x++y) = run m (run m l x) y := foldl_append

theorem prefix_flush : tokens <+: flush tokens word := by
  unfold flush
  split_ifs
  · exact prefix_refl tokens
  · exact prefix_append tokens _

theorem prefix_feedCode : tokens <+: (feedCode tokens word c).tokens := by
  unfold feedCode
  split_ifs
  · exact prefix_flush tokens word
  · exact prefix_flush tokens word
  · exact prefix_flush tokens word
  · exact prefix_refl tokens

theorem prefix_feedSingle : tokens <+: (feedSingle m tokens q content c).tokens := by
  unfold feedSingle
  split_ifs
  · exact prefix_append tokens _
  · exact prefix_refl tokens
  · exact prefix_refl tokens
  · exact prefix_refl tokens

theorem prefix_feedTriple : tokens <+: (feedTriple tokens q content quotes c).tokens := by
  unfold feedTriple
  split_ifs
  · exact prefix_append tokens _
  · exact prefix_refl tokens
  · exact prefix_refl tokens
  · exact prefix_refl tokens

theorem prefix_feed : l.tokens <+: (feed m l c).tokens := by
  unfold feed
  split
  · exact prefix_feedCode _ _ _
  · split_ifs
    · exact prefix_refl _
    · exact prefix_refl _
  · split_ifs
    · exact prefix_refl _
    · exact prefix_feedSingle _ _ _ _ _
  · split_ifs
    · exact prefix_refl _
    · exact (prefix_append _ _).trans (prefix_feedCode _ _ _)
  · exact prefix_feedSingle _ _ _ _ _
  · exact prefix_refl _
  · exact prefix_feedTriple _ _ _ _ _
  · exact prefix_refl _
  · exact prefix_refl _

theorem prefix_run : l.tokens <+: (run m l x).tokens := by
  induction x generalizing l with
  | nil => exact prefix_refl _
  | cons c x ih => exact (prefix_feed m l c).trans (ih (feed m l c))

theorem prefix_finish : l.tokens <+: l.finish := by
  unfold finish
  split
  · exact prefix_flush _ _
  · exact prefix_append _ _
  · exact prefix_refl _

end Runs

section Literals

variable {m : Bool} {q c : Char} {tokens : List Token} {word content x : List Char} {quotes : Nat}

/-- The content of a literal: no quote of its kind but after a backslash. -/
inductive Inside (q : Char) : List Char → Prop
  | nil : Inside q []
  | escape {d : Char} {x : List Char} : Inside q x → Inside q (backslash::d::x)
  | plain {c : Char} {x : List Char} : c≠backslash → c≠q → Inside q x → Inside q (c::x)

def rawNewline : List Char → Bool
  | [] => false
  | [c] => c == '\n'
  | c::d::rest => if c=backslash then rawNewline rest else c == '\n' || rawNewline (d::rest)

theorem rawNewline_plain (h : c≠backslash) (x : List Char) :
    rawNewline (c::x) = (c == '\n' || rawNewline x) := by
  cases x with
  | nil => simp [rawNewline]
  | cons d rest => rw [rawNewline,if_neg h]

theorem rawNewline_escape (d : Char) (x : List Char) :
    rawNewline (backslash::d::x) = rawNewline x := by
  rw [rawNewline,if_pos rfl]

theorem quote_ne (hq : isQuote q = true) :
    q≠backslash ∧ q ≠ '\n' ∧ q ≠ '#' ∧ isBlank q = false := by
  have hcases : q=doubleQuote ∨ q=singleQuote := by simpa [isQuote] using hq
  rcases hcases with rfl | rfl <;> decide

theorem feedSingle_backslash (hq : isQuote q = true) :
    feedSingle m tokens q content backslash = ⟨tokens,.singleEscape q content⟩ := by
  rw [feedSingle,if_neg (quote_ne hq).1.symm,if_pos rfl]

theorem feedSingle_plain (hquote : c≠q) (hbackslash : c≠backslash)
    (hline : m=true ∨ c ≠ '\n') :
    feedSingle m tokens q content c = ⟨tokens,.single q (content ++ [c])⟩ := by
  rw [feedSingle,if_neg hquote,if_neg hbackslash,if_neg]
  rintro ⟨hnewline,hm⟩
  rcases hline with h | h
  · rw [h] at hm
    cases hm
  · exact h hnewline

theorem feedTriple_backslash (hq : isQuote q = true) :
    feedTriple tokens q content quotes backslash =
      ⟨tokens,.tripleEscape q (content ++ List.replicate quotes q)⟩ := by
  rw [feedTriple,if_neg (quote_ne hq).1.symm,if_pos rfl]

theorem feedTriple_plain (hquote : c≠q) (hbackslash : c≠backslash) :
    feedTriple tokens q content quotes c =
      ⟨tokens,.triple q (content ++ List.replicate quotes q ++ [c]) 0⟩ := by
  rw [feedTriple,if_neg hquote,if_neg hbackslash]

theorem run_single (hq : isQuote q = true) (hin : Inside q x)
    (hline : m=true ∨ rawNewline x = false) :
    run m ⟨tokens,.single q content⟩ x = ⟨tokens,.single q (content++x)⟩ := by
  induction hin generalizing content with
  | nil => rw [append_nil]; rfl
  | @escape d x _ ih =>
    rw [run_cons,run_cons,feed_single,feedSingle_backslash hq,feed_singleEscape,ih hline]
    simp
  | @plain c x hbackslash hquote _ ih =>
    rw [rawNewline_plain hbackslash,Bool.or_eq_false_iff] at hline
    have hc : m=true ∨ c ≠ '\n' := hline.imp_right fun h => by simpa using h.1
    rw [run_cons,feed_single,feedSingle_plain hquote hbackslash hc,
      ih (hline.imp_right And.right)]
    simp

theorem run_triple (hq : isQuote q = true) (hin : Inside q x) :
    run m ⟨tokens,.triple q content 0⟩ x = ⟨tokens,.triple q (content++x) 0⟩ := by
  induction hin generalizing content with
  | nil => rw [append_nil]; rfl
  | @escape d x _ ih =>
    rw [run_cons,run_cons,feed_triple,feedTriple_backslash hq,feed_tripleEscape,ih]
    simp
  | @plain c x hbackslash hquote _ ih =>
    rw [run_cons,feed_triple,feedTriple_plain hquote hbackslash,ih]
    simp

theorem run_tripleQuotes :
    run m ⟨tokens,.triple q content 0⟩ [q, q, q] = ⟨tokens ++ [.literal content],.code []⟩ := by
  simp [Lexer.run,feedTriple]

theorem run_openTriple (hq : isQuote q = true) :
    run m ⟨tokens,.code word⟩ [q, q, q] = ⟨flush tokens word,.triple q [] 0⟩ := by
  simp [Lexer.run,feedCode,hq]

theorem run_tripleLiteral (hq : isQuote q = true) (hin : Inside q x) :
    run m ⟨tokens,.code word⟩ ([q, q, q] ++ x ++ [q, q, q]) =
      ⟨flush tokens word ++ [.literal x],.code []⟩ := by
  rw [run_append,run_append,run_openTriple hq,run_triple hq hin,nil_append,run_tripleQuotes]

theorem run_opened (hne : x.head? ≠ some q) (hx : x ≠ []) :
    run m ⟨tokens,.opened q⟩ x = run m ⟨tokens,.single q []⟩ x := by
  cases x with
  | nil => exact absurd rfl hx
  | cons c x =>
    have hc : c≠q := fun h => hne (by rw [h]; rfl)
    rw [run_cons,run_cons,feed_opened,feed_single,if_neg hc]

theorem Inside.head_ne (h : Inside q x) (hq : isQuote q = true) : x.head? ≠ some q := by
  cases h with
  | nil => simp
  | escape => simpa using (quote_ne hq).1.symm
  | plain _ hquote => simpa using hquote

theorem run_singleLiteral (hq : isQuote q = true) (hin : Inside q x) (hx : x ≠ [])
    (hline : m=true ∨ rawNewline x = false) :
    run m ⟨tokens,.code word⟩ ([q] ++ x ++ [q]) =
      ⟨flush tokens word ++ [.literal x],.code []⟩ := by
  have hopen : run m ⟨tokens,.code word⟩ [q] = ⟨flush tokens word,.opened q⟩ := by
    simp [Lexer.run,feedCode,hq]
  rw [run_append,run_append,hopen,run_opened (hin.head_ne hq) hx,run_single hq hin hline,
    nil_append]
  simp [Lexer.run,feedSingle]

theorem run_openedTwice (hne : x.head? ≠ some q) (hx : x ≠ []) :
    run m ⟨tokens,.openedTwice q⟩ x = run m ⟨tokens ++ [.literal []],.code []⟩ x := by
  cases x with
  | nil => exact absurd rfl hx
  | cons c x =>
    have hc : c≠q := fun h => hne (by rw [h]; rfl)
    rw [run_cons,run_cons,feed_openedTwice,feed_code,if_neg hc]

theorem finish_run_openedTwice (hne : x.head? ≠ some q) :
    (run m ⟨tokens,.openedTwice q⟩ x).finish =
      (run m ⟨tokens ++ [.literal []],.code []⟩ x).finish := by
  cases x with
  | nil => rfl
  | cons c x => rw [run_openedTwice hne (cons_ne_nil c x)]

theorem finish_run_comment (hx : x = [] ∨ x.head? = some '\n') :
    (run m ⟨tokens,.comment⟩ x).finish = (run m ⟨tokens,.code []⟩ x).finish := by
  cases x with
  | nil => rfl
  | cons c x =>
    obtain rfl : c = '\n' := by simpa using hx
    rfl

theorem run_commentText (hx : '\n' ∉ x) :
    run m ⟨tokens,.comment⟩ x = ⟨tokens,.comment⟩ := by
  induction x with
  | nil => rfl
  | cons c x ih =>
    rw [mem_cons,not_or] at hx
    rw [run_cons,feed_comment,if_neg (Ne.symm hx.1)]
    exact ih hx.2

end Literals

section Normalizing

variable {m : Bool} {q : Char} {tokens : List Token} {text content left rest word : List Char}

/-- How a literal in single quotes goes on: to its closing quote, or to the end of the text. -/
def Collected (q : Char) (text content left : List Char) : Prop :=
  (text=content++q::left ∧ Inside q content) ∨
    (left = [] ∧ text=content ∧
      (Inside q content ∨ ∃ x, content = x ++ [backslash] ∧ Inside q x))

theorem Collected.escape (h : Collected q text content left) (d : Char) :
    Collected q (backslash::d::text) (backslash::d::content) left := by
  rcases h with ⟨rfl,hin⟩ | ⟨hleft,rfl,hin | ⟨x,rfl,hin⟩⟩
  · exact .inl ⟨rfl,.escape hin⟩
  · exact .inr ⟨hleft,rfl,.inl (.escape hin)⟩
  · exact .inr ⟨hleft,rfl,.inr ⟨backslash::d::x,rfl,.escape hin⟩⟩

theorem Collected.plain (h : Collected q text content left) {c : Char} (hbackslash : c≠backslash)
    (hquote : c≠q) : Collected q (c::text) (c::content) left := by
  rcases h with ⟨rfl,hin⟩ | ⟨hleft,rfl,hin | ⟨x,rfl,hin⟩⟩
  · exact .inl ⟨rfl,.plain hbackslash hquote hin⟩
  · exact .inr ⟨hleft,rfl,.inl (.plain hbackslash hquote hin)⟩
  · exact .inr ⟨hleft,rfl,.inr ⟨c::x,rfl,.plain hbackslash hquote hin⟩⟩

theorem collected_last {c : Char} (hquote : c≠q) : Collected q [c] [c] [] := by
  refine .inr ⟨rfl,rfl,?_⟩
  by_cases hbackslash : c=backslash
  · exact .inr ⟨[],by rw [hbackslash]; rfl,.nil⟩
  · exact .inl (.plain hbackslash hquote .nil)

theorem collectRest_spec (q : Char) (text : List Char) :
    Collected q text (collectRest q text).1 (collectRest q text).2 := by
  induction text using collectRest.induct q with
  | case1 => exact .inr ⟨rfl,rfl,.inl .nil⟩
  | case2 =>
    rw [collectRest,if_pos rfl]
    exact .inl ⟨rfl,.nil⟩
  | case3 c hquote =>
    rw [collectRest,if_neg hquote]
    exact collected_last hquote
  | case4 d rest content left hrest ih =>
    exact ih.escape d
  | case5 d rest hbackslash =>
    rw [collectRest,if_neg hbackslash,if_pos rfl]
    exact .inl ⟨rfl,.nil⟩
  | case6 c d rest hbackslash hquote content left hrest ih =>
    rw [collectRest,if_neg hbackslash,if_neg hquote]
    exact ih.plain hbackslash hquote

theorem collect_spec (q : Char) (text : List Char) :
    Collected q text (collect q text).1 (collect q text).2.2 ∧
      (collect q text).2.1 = rawNewline (collect q text).1 := by
  induction text using collect.induct q with
  | case1 => exact ⟨.inr ⟨rfl,rfl,.inl .nil⟩,rfl⟩
  | case2 =>
    rw [collect,if_pos rfl]
    exact ⟨.inl ⟨rfl,.nil⟩,rfl⟩
  | case3 c hquote =>
    rw [collect,if_neg hquote]
    exact ⟨collected_last hquote,rfl⟩
  | case4 d rest =>
    rw [collect,if_pos rfl]
    exact ⟨.inl ⟨rfl,.nil⟩,rfl⟩
  | case5 d rest content left hrest hquote =>
    have hbackslash : '\n' ≠ backslash := by decide
    rw [collect,if_neg hquote,if_pos rfl]
    refine ⟨(collectRest_spec q (d::rest)).plain hbackslash hquote,?_⟩
    rw [rawNewline_plain hbackslash]
    rfl
  | case6 d rest content hasNewline left hrest hquote hnewline ih =>
    rw [collect,if_neg hquote,if_neg hnewline,if_pos rfl]
    exact ⟨ih.1.escape d,by rw [rawNewline_escape]; exact ih.2⟩
  | case7 c d rest hquote hnewline hbackslash content hasNewline left hrest ih =>
    rw [collect,if_neg hquote,if_neg hnewline,if_neg hbackslash]
    refine ⟨ih.1.plain hbackslash hquote,?_⟩
    rw [rawNewline_plain hbackslash,beq_false_of_ne hnewline,Bool.false_or]
    exact ih.2

/-- Quotes that were read do not end the literal with the text that follows. -/
def Pending (q : Char) (quotes : Nat) (text : List Char) : Prop :=
  quotes=0 ∨ quotes=1 ∧ ¬ [q, q] <+: text ∨ quotes=2 ∧ ¬ [q] <+: text

theorem copyTriple_append (q : Char) (text : List Char) :
    (copyTriple q text).1 ++ (copyTriple q text).2 = text := by
  induction text using copyTriple.induct q with
  | case1 | case2 c => rfl
  | case3 d rest copied left hrest ih =>
    rw [copyTriple,if_pos rfl]
    simp only [cons_append,ih]
  | case4 c d rest hbackslash hclose =>
    rw [copyTriple,if_neg hbackslash,if_pos hclose]
    obtain ⟨rfl,rfl,hhead⟩ := hclose
    cases rest with
    | nil => cases hhead
    | cons e rest =>
      rw [← Option.some.inj hhead]
      rfl
  | case5 c d rest hbackslash hclose copied left hrest ih =>
    rw [copyTriple,if_neg hbackslash,if_neg hclose]
    simp only [cons_append,ih]

theorem copyTriple_run (hq : isQuote q = true) (text content : List Char) (quotes : Nat)
    (hpending : Pending q quotes text) :
    ((copyTriple q text).2 = [] ∧ ∀ m tokens,
        (run m ⟨tokens,.triple q content quotes⟩ (copyTriple q text).1).finish = tokens) ∨
      ∃ body, ∀ m tokens, run m ⟨tokens,.triple q content quotes⟩ (copyTriple q text).1 =
        ⟨tokens ++ [.literal body],.code []⟩ := by
  induction text using copyTriple.induct q generalizing content quotes with
  | case1 => exact .inl ⟨rfl,fun m tokens => rfl⟩
  | case2 c =>
    refine .inl ⟨rfl,fun m tokens => ?_⟩
    have hquotes : c=q → quotes≠2 := by
      rintro rfl rfl
      rcases hpending with h | ⟨h,-⟩ | ⟨-,h⟩
      · cases h
      · cases h
      · exact h (prefix_refl _)
    show (run m _ [c]).finish = tokens
    rw [run_cons,run_nil,feed_triple,feedTriple]
    split_ifs with hc htwo
    · exact absurd htwo (hquotes hc)
    · rfl
    · rfl
    · rfl
  | case3 d rest copied left hrest ih =>
    rw [copyTriple,if_pos rfl]
    simp only [run_cons,feed_triple,feedTriple_backslash hq,feed_tripleEscape]
    exact ih _ 0 (.inl rfl)
  | case4 c d rest hbackslash hclose =>
    rw [copyTriple,if_neg hbackslash,if_pos hclose]
    rw [hclose.1,hclose.2.1] at hpending
    have hzero : quotes=0 := by
      rcases hpending with h | ⟨-,h⟩ | ⟨-,h⟩
      · exact h
      · exact absurd ⟨rest,rfl⟩ h
      · exact absurd ⟨q::rest,rfl⟩ h
    subst hzero
    exact .inr ⟨content,fun _ _ => run_tripleQuotes⟩
  | case5 c d rest hbackslash hclose copied left hrest ih =>
    rw [copyTriple,if_neg hbackslash,if_neg hclose]
    by_cases hquote : c=q
    · subst hquote
      have hne : quotes≠2 := by
        rintro rfl
        rcases hpending with h | ⟨h,-⟩ | ⟨-,h⟩
        · cases h
        · cases h
        · exact h ⟨d::rest,rfl⟩
      have hnext : Pending c (quotes+1) (d::rest) := by
        rcases hpending with rfl | ⟨rfl,h⟩ | ⟨rfl,-⟩
        · refine .inr (.inl ⟨rfl,fun hstart => hclose ?_⟩)
          obtain ⟨after,hafter⟩ := hstart
          obtain ⟨rfl,rfl⟩ := List.cons.inj hafter
          exact ⟨rfl,rfl,rfl⟩
        · refine .inr (.inr ⟨rfl,fun hstart => h ?_⟩)
          obtain ⟨after,hafter⟩ := hstart
          exact ⟨after,by rw [← hafter]; rfl⟩
        · exact absurd rfl hne
      have hfeed : ∀ tokens, feedTriple tokens c content quotes c =
          ⟨tokens,.triple c content (quotes+1)⟩ := by
        intro tokens
        rw [feedTriple,if_pos rfl,if_neg hne]
      simp only [run_cons,feed_triple,hfeed]
      exact ih content (quotes+1) hnext
    · simp only [run_cons,feed_triple,feedTriple_plain hquote hbackslash]
      exact ih _ 0 (.inl rfl)

theorem length_copyTriple_le (q : Char) (text : List Char) :
    (copyTriple q text).2.length ≤ text.length := by
  have hlength := congrArg List.length (copyTriple_append q text)
  rw [length_append] at hlength
  omega

theorem Collected.length_le (h : Collected q text content left) : left.length≤text.length := by
  rcases h with ⟨rfl,-⟩ | ⟨rfl,-⟩
  · rw [length_append,length_cons]
    omega
  · exact Nat.zero_le _

variable {fuel : Nat}

theorem normalizeLoop_head? (h : text.length≤fuel) :
    (normalizeLoop fuel text).head? = text.head? := by
  cases text with
  | nil => cases fuel <;> rfl
  | cons c rest =>
    cases fuel with
    | zero => cases h
    | succ fuel =>
      rw [normalizeLoop]
      split_ifs with hcomment hquote htriple
      · have hc : decide (c ≠ '\n') = true := by rw [hcomment]; rfl
        rw [takeWhile_cons,if_pos hc]
        rfl
      · rfl
      · dsimp only
        split_ifs
        · rfl
        · rfl
      · rfl

theorem finish_run_open (hq : isQuote q = true)
    (hopen : Inside q content ∨ ∃ x, content = x ++ [backslash] ∧ Inside q x) :
    (run true ⟨tokens,.code word⟩ (q::content)).finish = flush tokens word := by
  have hfirst : run true ⟨tokens,.code word⟩ (q::content) =
      run true ⟨flush tokens word,.opened q⟩ content := by
    rw [run_cons,feed_code,feedCode,if_pos hq]
  rw [hfirst]
  cases hempty : content with
  | nil => rfl
  | cons c rest =>
    rw [← hempty]
    have hne : content ≠ [] := by rw [hempty]; exact cons_ne_nil c rest
    rcases hopen with hin | ⟨x,hx,hin⟩
    · rw [run_opened (hin.head_ne hq) hne,run_single hq hin (.inl rfl)]
      rfl
    · have hhead : content.head? ≠ some q := by
        rw [hx]
        cases hin with
        | nil | escape => simpa using (quote_ne hq).1.symm
        | plain _ hquote => simpa using hquote
      rw [run_opened hhead hne,hx,run_append,run_single hq hin (.inl rfl),run_cons,run_nil,
        feed_single,feedSingle_backslash hq]
      rfl

theorem run_commentPart :
    run m ⟨tokens,.code word⟩ (('#' :: rest).takeWhile (· ≠ '\n')) =
      ⟨flush tokens word,.comment⟩ := by
  have hnone : '\n' ∉ rest.takeWhile (· ≠ '\n') := by
    intro hin
    simpa using mem_takeWhile_imp hin
  have hquote : isQuote '#' = false := by decide
  rw [takeWhile_cons,if_pos (by decide),run_cons,feed_code,feedCode,hquote,
    if_neg (by decide),if_pos rfl,run_commentText hnone]

theorem dropWhile_newline (text : List Char) :
    text.dropWhile (· ≠ '\n') = [] ∨ (text.dropWhile (· ≠ '\n')).head? = some '\n' := by
  cases hdrop : text.dropWhile (· ≠ '\n') with
  | nil => exact .inl rfl
  | cons c rest =>
    have hne : text.dropWhile (· ≠ '\n') ≠ [] := by
      rw [hdrop]
      exact cons_ne_nil c rest
    have hc := head_dropWhile_not (fun c => decide (c ≠ '\n')) hne
    simp only [hdrop,head_cons] at hc
    simpa using hc

def RestKept (fuel : Nat) : Prop :=
  ∀ text : List Char, text.length≤fuel → ∀ tokens word,
    (run true ⟨tokens,.code word⟩ text).finish <+:
      (run false ⟨tokens,.code word⟩ (normalizeLoop fuel text)).finish

theorem RestKept.comment (ih : RestKept fuel) (hlength : rest.length≤fuel) :
    (run true ⟨tokens,.code word⟩ ('#' :: rest)).finish <+:
      (run false ⟨tokens,.code word⟩ (('#' :: rest).takeWhile (· ≠ '\n') ++
        normalizeLoop fuel (('#' :: rest).dropWhile (· ≠ '\n')))).finish := by
  have hleft : (('#' :: rest).dropWhile (· ≠ '\n')).length ≤ fuel := by
    rw [dropWhile_cons,if_pos (by decide)]
    exact (dropWhile_sublist _).length_le.trans hlength
  have hsplit : '#' :: rest = ('#' :: rest).takeWhile (· ≠ '\n') ++
      ('#' :: rest).dropWhile (· ≠ '\n') := takeWhile_append_dropWhile.symm
  have hnext := dropWhile_newline ('#' :: rest)
  generalize ('#' :: rest).dropWhile (· ≠ '\n') = left at hleft hsplit hnext ⊢
  have hnext' : normalizeLoop fuel left = [] ∨ (normalizeLoop fuel left).head? = some '\n' := by
    rcases hnext with rfl | hhead
    · exact .inl (by cases fuel <;> rfl)
    · exact .inr ((normalizeLoop_head? hleft).trans hhead)
  have hinput : run true ⟨tokens,.code word⟩ ('#' :: rest) =
      run true ⟨flush tokens word,.comment⟩ left := by
    rw [hsplit,run_append,run_commentPart]
  rw [hinput,run_append,run_commentPart,finish_run_comment hnext,finish_run_comment hnext']
  exact ih left hleft _ _

theorem RestKept.triple (ih : RestKept fuel) (hq : isQuote q = true) {body : List Char}
    (hlength : body.length≤fuel) :
    (run true ⟨tokens,.code word⟩ ([q, q, q] ++ body)).finish <+:
      (run false ⟨tokens,.code word⟩
        ([q, q, q] ++ (copyTriple q body).1 ++ normalizeLoop fuel (copyTriple q body).2)).finish := by
  have hleft := (length_copyTriple_le q body).trans hlength
  have hinput : run true ⟨tokens,.code word⟩ ([q, q, q] ++ body) =
      run true (run true ⟨flush tokens word,.triple q [] 0⟩ (copyTriple q body).1)
        (copyTriple q body).2 := by
    rw [← run_append,copyTriple_append,run_append,run_openTriple hq]
  rw [hinput,run_append,run_append,run_openTriple hq]
  rcases copyTriple_run hq body [] 0 (.inl rfl) with ⟨hend,hfinish⟩ | ⟨literal,hclosed⟩
  · have hnil : normalizeLoop fuel [] = [] := by cases fuel <;> rfl
    rw [hend,hnil,run_nil,run_nil,hfinish,hfinish]
  · rw [hclosed,hclosed]
    exact ih _ hleft _ _

theorem RestKept.single (ih : RestKept fuel) (hq : isQuote q = true)
    (hlength : rest.length≤fuel) (hnot : ¬ [q, q] <+: rest) :
    (run true ⟨tokens,.code word⟩ (q::rest)).finish <+:
      (run false ⟨tokens,.code word⟩
        (if (collect q rest).2.1 then
          [q, q, q] ++ (collect q rest).1 ++ [q, q, q] ++ normalizeLoop fuel (collect q rest).2.2
        else [q] ++ (collect q rest).1 ++ [q] ++
          normalizeLoop fuel (collect q rest).2.2)).finish := by
  obtain ⟨hcollected,hnewline⟩ := collect_spec q rest
  have hleft := hcollected.length_le.trans hlength
  generalize (collect q rest).1 = content at hcollected hnewline ⊢
  generalize (collect q rest).2.2 = left at hcollected hleft ⊢
  rw [hnewline]
  rcases hcollected with ⟨rfl,hin⟩ | ⟨rfl,rfl,hopen⟩
  · have hinput : q :: (content++q::left) = [q] ++ content ++ [q] ++ left := by simp
    rw [hinput]
    by_cases hempty : content = []
    · subst hempty
      have hhead : left.head? ≠ some q := by
        intro hhead
        cases left with
        | nil => cases hhead
        | cons c left =>
          rw [Option.some.inj hhead] at hnot
          exact hnot ⟨left,rfl⟩
      have htwice : ∀ m, run m ⟨tokens,.code word⟩ ([q] ++ [] ++ [q]) =
          ⟨flush tokens word,.openedTwice q⟩ := by
        simp [Lexer.run,feedCode,hq]
      have hfalse : rawNewline [] = false := rfl
      rw [hfalse,if_neg Bool.false_ne_true,run_append,htwice,run_append,htwice,
        finish_run_openedTwice hhead,
        finish_run_openedTwice (by rw [normalizeLoop_head? hleft]; exact hhead)]
      exact ih left hleft _ _
    · rw [run_append,run_singleLiteral hq hin hempty (.inl rfl)]
      by_cases hraw : rawNewline content = true
      · rw [if_pos hraw,run_append,run_tripleLiteral hq hin]
        exact ih left hleft _ _
      · rw [if_neg hraw,run_append,
          run_singleLiteral hq hin hempty (.inr (Bool.eq_false_of_not_eq_true hraw))]
        exact ih left hleft _ _
  · rw [finish_run_open hq hopen]
    have hstart : ∀ x, flush tokens word <+: (run false ⟨tokens,.code word⟩ (q::x)).finish := by
      intro x
      rw [run_cons,feed_code,feedCode,if_pos hq]
      exact (prefix_run false ⟨flush tokens word,.opened q⟩ x).trans (prefix_finish _)
    split_ifs
    · exact hstart _
    · exact hstart _

theorem restKept (fuel : Nat) : RestKept fuel := by
  induction fuel with
  | zero =>
    intro text hlength tokens word
    obtain rfl := eq_nil_of_length_eq_zero (Nat.le_zero.mp hlength)
    exact prefix_refl _
  | succ fuel ih =>
    intro text hlength tokens word
    cases text with
    | nil => exact prefix_refl _
    | cons c rest =>
      rw [length_cons,Nat.add_le_add_iff_right] at hlength
      rw [normalizeLoop]
      split_ifs with hcomment hquote htriple
      · subst hcomment
        exact ih.comment hlength
      · obtain ⟨body,rfl⟩ := htriple
        have hbody : body.length≤fuel := by
          rw [length_append] at hlength
          omega
        exact ih.triple hquote hbody
      · exact ih.single hquote hlength htriple
      · rw [run_cons,run_cons,feed_code,feed_code,feedCode,if_neg hquote,if_neg hcomment]
        split_ifs
        · exact ih rest hlength _ _
        · exact ih rest hlength _ _

end Normalizing

/-- Normalising keeps the tokens of a script; a literal that the script leaves open may become one
more. -/
theorem tokens_normalizeStringLiterals (code : List Char) :
    tokens code <+: parserTokens (normalizeStringLiterals code) :=
  restKept code.length code (Nat.le_refl _) [] []

section Wrapping

variable {m : Bool} {q c : Char} {x y word content : List Char} {header kept tokens : List Token}
variable {l l' : Lexer} {quotes : Nat}

/-- The content of a literal before and after lines were indented: longer if it spans lines. -/
def Grows (x y : List Char) : Prop := '\n' ∉ x ∧ y=x ∨ '\n' ∈ x ∧ x.length<y.length

theorem grows_refl (h : '\n' ∉ x) : Grows x x := .inl ⟨h,rfl⟩

theorem Grows.length_le (h : Grows x y) : x.length≤y.length := by
  rcases h with ⟨-,rfl⟩ | ⟨-,hlt⟩
  · exact Nat.le_refl _
  · exact Nat.le_of_lt hlt

variable {z : List Char}

theorem Grows.append (h : Grows x y) (hz : '\n' ∉ z) : Grows (x++z) (y++z) := by
  rcases h with ⟨hnone,rfl⟩ | ⟨hin,hlt⟩
  · exact .inl ⟨by simp [hnone,hz],rfl⟩
  · refine .inr ⟨mem_append_left z hin,?_⟩
    rw [length_append,length_append]
    omega

theorem Grows.newline (h : Grows x y) {w : List Char} (hz : '\n' ∈ z) (hlt : z.length<w.length) :
    Grows (x++z) (y++w) := by
  have hle := h.length_le
  refine .inr ⟨mem_append_right x hz,?_⟩
  rw [length_append,length_append]
  omega

inductive Grown : Token → Token → Prop
  | word (chars : List Char) : Grown (.word chars) (.word chars)
  | literal {x y : List Char} : Grows x y → Grown (.literal x) (.literal y)

/-- The two lexers are at the same place, the second with indented lines behind it. -/
inductive SamePlace : LexState → LexState → Prop
  | code (word : List Char) : SamePlace (.code word) (.code word)
  | comment : SamePlace .comment .comment
  | opened {q : Char} : isQuote q = true → SamePlace (.opened q) (.opened q)
  | openedTwice {q : Char} : isQuote q = true → SamePlace (.openedTwice q) (.openedTwice q)
  | single {q : Char} {x y : List Char} : isQuote q = true → Grows x y →
      SamePlace (.single q x) (.single q y)
  | singleEscape {q : Char} {x y : List Char} : isQuote q = true → Grows x y →
      SamePlace (.singleEscape q x) (.singleEscape q y)
  | triple {q : Char} {x y : List Char} (quotes : Nat) : isQuote q = true → Grows x y →
      SamePlace (.triple q x quotes) (.triple q y quotes)
  | tripleEscape {q : Char} {x y : List Char} : isQuote q = true → Grows x y →
      SamePlace (.tripleEscape q x) (.tripleEscape q y)

/-- The tokens of the first lexer come again after the header, as far as it got. -/
def Follows (header : List Token) (l l' : Lexer) : Prop :=
  ∃ kept, List.Forall₂ Grown l.tokens kept ∧
    (l'.tokens=header++kept ∧ SamePlace l.state l'.state ∨
      l.state=.unfinished ∧ header++kept <+: l'.tokens)

theorem flush_append (header tokens : List Token) (word : List Char) :
    flush (header++tokens) word = header ++ flush tokens word := by
  unfold flush
  split_ifs
  · rfl
  · exact append_assoc _ _ _

theorem grown_append (h : List.Forall₂ Grown tokens kept) {t t' : Token}
    (ht : Grown t t') : List.Forall₂ Grown (tokens ++ [t]) (kept ++ [t']) :=
  rel_append h (.cons ht .nil)

theorem grown_flush (h : List.Forall₂ Grown tokens kept) (word : List Char) :
    List.Forall₂ Grown (flush tokens word) (flush kept word) := by
  unfold flush
  split_ifs
  · exact h
  · exact grown_append h (.word word)

theorem follows_feedCode (h : List.Forall₂ Grown tokens kept)
    (word : List Char) (c : Char) :
    Follows header (feedCode tokens word c) (feedCode (header++kept) word c) := by
  unfold feedCode
  split_ifs with hquote
  · exact ⟨_,grown_flush h word,.inl ⟨flush_append _ _ _,.opened hquote⟩⟩
  · exact ⟨_,grown_flush h word,.inl ⟨flush_append _ _ _,.comment⟩⟩
  · exact ⟨_,grown_flush h word,.inl ⟨flush_append _ _ _,.code []⟩⟩
  · exact ⟨_,h,.inl ⟨rfl,.code _⟩⟩

theorem follows_feedSingle (h : List.Forall₂ Grown tokens kept)
    (hq : isQuote q = true) (hgrows : Grows x y) (hc : c ≠ '\n') :
    Follows header (feedSingle false tokens q x c) (feedSingle false (header++kept) q y c) := by
  unfold feedSingle
  split_ifs with hquote hbackslash hline
  · exact ⟨_,grown_append h (.literal hgrows),.inl ⟨append_assoc _ _ _,.code []⟩⟩
  · exact ⟨_,h,.inl ⟨rfl,.singleEscape hq hgrows⟩⟩
  · exact absurd hline.1 hc
  · exact ⟨_,h,.inl ⟨rfl,.single hq (hgrows.append (by simpa using hc.symm))⟩⟩

theorem newline_notMem_replicate (hq : isQuote q = true) (quotes : Nat) :
    '\n' ∉ List.replicate quotes q := by
  intro hin
  exact (quote_ne hq).2.1 (eq_of_mem_replicate hin).symm

theorem follows_feedTriple (h : List.Forall₂ Grown tokens kept)
    (hq : isQuote q = true) (hgrows : Grows x y) (quotes : Nat) (hc : c ≠ '\n') :
    Follows header (feedTriple tokens q x quotes c) (feedTriple (header++kept) q y quotes c) := by
  have hquotes := hgrows.append (newline_notMem_replicate hq quotes)
  unfold feedTriple
  split_ifs with hquote htwo hbackslash
  · exact ⟨_,grown_append h (.literal hgrows),.inl ⟨append_assoc _ _ _,.code []⟩⟩
  · exact ⟨_,h,.inl ⟨rfl,.triple _ hq hgrows⟩⟩
  · exact ⟨_,h,.inl ⟨rfl,.tripleEscape hq hquotes⟩⟩
  · exact ⟨_,h,.inl ⟨rfl,.triple 0 hq (hquotes.append (by simpa using hc.symm))⟩⟩

theorem follows_stuck (h : List.Forall₂ Grown tokens kept)
    (hstarts : header++kept <+: l'.tokens) : Follows header ⟨tokens,.unfinished⟩ l' :=
  ⟨kept,h,.inr ⟨rfl,hstarts⟩⟩

theorem Follows.feed (h : Follows header l l') (hc : c ≠ '\n') :
    Follows header (feed false l c) (Lexer.feed false l' c) := by
  obtain ⟨tokens,state⟩ := l
  obtain ⟨tokens',state'⟩ := l'
  obtain ⟨kept,hkept,⟨rfl,hplace⟩ | ⟨rfl,hstarts⟩⟩ := h
  · cases hplace with
    | code word => exact follows_feedCode hkept word c
    | comment =>
      rw [feed_comment,feed_comment,if_neg hc,if_neg hc]
      exact ⟨kept,hkept,.inl ⟨rfl,.comment⟩⟩
    | @opened q hq =>
      rw [feed_opened,feed_opened]
      split_ifs
      · exact ⟨kept,hkept,.inl ⟨rfl,.openedTwice hq⟩⟩
      · exact follows_feedSingle hkept hq (grows_refl not_mem_nil) hc
    | @openedTwice q hq =>
      rw [feed_openedTwice,feed_openedTwice]
      split_ifs
      · exact ⟨kept,hkept,.inl ⟨rfl,.triple 0 hq (grows_refl not_mem_nil)⟩⟩
      · rw [append_assoc]
        exact follows_feedCode (grown_append hkept (.literal (grows_refl not_mem_nil))) [] c
    | single hq hgrows => exact follows_feedSingle hkept hq hgrows hc
    | singleEscape hq hgrows =>
      refine ⟨kept,hkept,.inl ⟨rfl,.single hq (hgrows.append ?_)⟩⟩
      have hbackslash : '\n' ≠ backslash := by decide
      simp [hbackslash,hc.symm]
    | triple quotes hq hgrows => exact follows_feedTriple hkept hq hgrows quotes hc
    | tripleEscape hq hgrows =>
      refine ⟨kept,hkept,.inl ⟨rfl,.triple 0 hq (hgrows.append ?_)⟩⟩
      have hbackslash : '\n' ≠ backslash := by decide
      simp [hbackslash,hc.symm]
  · exact follows_stuck hkept (hstarts.trans (prefix_feed false _ c))

theorem Follows.run (h : Follows header l l') (hx : '\n' ∉ x) :
    Follows header (run false l x) (Lexer.run false l' x) := by
  induction x generalizing l l' with
  | nil => exact h
  | cons c x ih =>
    rw [mem_cons,not_or] at hx
    exact ih (h.feed (Ne.symm hx.1)) hx.2

theorem inside_indent (hq : isQuote q = true) : Inside q indent := by
  have hspace : ' ' ≠ backslash ∧ ' ' ≠ q := by
    refine ⟨by decide,?_⟩
    rintro rfl
    cases hq
  have hplain {x : List Char} (hx : Inside q x) : Inside q (' ' :: x) := .plain hspace.1 hspace.2 hx
  exact hplain (hplain (hplain (hplain .nil)))

theorem run_indent_code :
    run m ⟨tokens,.code []⟩ indent = ⟨tokens,.code []⟩ := by
  have hfeed : feedCode tokens [] ' ' = ⟨tokens,.code []⟩ := by
    rw [feedCode,if_neg (by decide),if_neg (by decide),if_pos (by decide),flush,if_pos rfl]
  simp only [indent,run_cons,run_nil,feed_code,hfeed]

/-- The end of a line as it is in the script. -/
def lineEnds : List (List Char) := [['\n'], ['\r', '\n']]

theorem lineEnds_cases (hz : z∈lineEnds) : z = ['\n'] ∨ z = ['\r', '\n'] := by
  simpa [lineEnds] using hz

theorem return_ne (hq : isQuote q = true) : '\r' ≠ q := by
  rintro rfl
  cases hq

theorem feedCode_blank (hc : c = '\n' ∨ c = '\r') :
    feedCode tokens word c = ⟨flush tokens word,.code []⟩ := by
  rcases hc with rfl | rfl <;>
    rw [feedCode,if_neg (by decide),if_neg (by decide),if_pos (by decide)]

theorem run_lineEnd_code (hz : z∈lineEnds) :
    run m ⟨tokens,.code word⟩ z = ⟨flush tokens word,.code []⟩ := by
  have hempty : ∀ t : List Token, flush t [] = t := fun t => if_pos rfl
  rcases lineEnds_cases hz with rfl | rfl
  · rw [run_cons,run_nil,feed_code,feedCode_blank (.inl rfl)]
  · rw [run_cons,run_cons,run_nil,feed_code,feedCode_blank (.inr rfl),feed_code,
      feedCode_blank (.inl rfl),hempty]

theorem run_lineEnd_single (hz : z∈lineEnds) (hq : isQuote q = true) :
    run false ⟨tokens,.single q content⟩ z = ⟨tokens,.unfinished⟩ := by
  have hnewline : ∀ content, feedSingle false tokens q content '\n' = ⟨tokens,.unfinished⟩ := by
    intro content
    rw [feedSingle,if_neg (quote_ne hq).2.1.symm,if_neg (by decide),if_pos ⟨rfl,rfl⟩]
  rcases lineEnds_cases hz with rfl | rfl
  · rw [run_cons,run_nil,feed_single,hnewline]
  · rw [run_cons,run_cons,run_nil,feed_single,
      feedSingle_plain (return_ne hq) (by decide) (.inr (by decide)),feed_single,hnewline]

theorem run_lineEnd_triple (hz : z∈lineEnds) (hq : isQuote q = true) :
    run m ⟨tokens,.triple q content quotes⟩ z =
      ⟨tokens,.triple q (content ++ List.replicate quotes q ++ z) 0⟩ := by
  have hnewline : '\n' ≠ q := (quote_ne hq).2.1.symm
  rcases lineEnds_cases hz with rfl | rfl
  · rw [run_cons,run_nil,feed_triple,feedTriple_plain hnewline (by decide)]
  · rw [run_cons,run_cons,run_nil,feed_triple,feedTriple_plain (return_ne hq) (by decide),
      feed_triple,feedTriple_plain hnewline (by decide)]
    simp

theorem newline_mem_lineEnd (hz : z∈lineEnds) : '\n' ∈ z ∧ z.length≤2 := by
  rcases lineEnds_cases hz with rfl | rfl <;> decide

theorem lineEnd_head (hz : z∈lineEnds) (hq : isQuote q = true) :
    z ≠ [] ∧ z.head? ≠ some q := by
  rcases lineEnds_cases hz with rfl | rfl
  · exact ⟨by decide,fun h => (quote_ne hq).2.1 (Option.some.inj h).symm⟩
  · exact ⟨by decide,fun h => return_ne hq (Option.some.inj h)⟩

theorem run_lineEnd_comment (hz : z∈lineEnds) :
    run m ⟨tokens,.comment⟩ z = ⟨tokens,.code []⟩ := by
  rcases lineEnds_cases hz with rfl | rfl <;> rfl

theorem Follows.newline (h : Follows header l l') (hz : z∈lineEnds) :
    Follows header (Lexer.run false l z) (Lexer.run false l' ('\n' :: indent)) := by
  have hsingle : ['\n'] ∈ lineEnds := mem_cons_self
  have hsplit : '\n' :: indent = ['\n'] ++ indent := rfl
  obtain ⟨hin,hlength⟩ := newline_mem_lineEnd hz
  have hspaces : z.length < (['\n'] ++ indent).length := by
    have hfive : (['\n'] ++ indent).length = 5 := rfl
    omega
  obtain ⟨tokens,state⟩ := l
  obtain ⟨tokens',state'⟩ := l'
  obtain ⟨kept,hkept,⟨rfl,hplace⟩ | ⟨rfl,hstarts⟩⟩ := h
  · have hgone : header++kept <+:
        (Lexer.run false ⟨header++kept,state'⟩ ('\n' :: indent)).tokens :=
      prefix_run false ⟨header++kept,state'⟩ ('\n' :: indent)
    cases hplace with
    | code word =>
      rw [run_lineEnd_code hz,hsplit,run_append,run_lineEnd_code hsingle,run_indent_code,
        flush_append]
      exact ⟨_,grown_flush hkept word,.inl ⟨rfl,.code []⟩⟩
    | comment =>
      rw [run_lineEnd_comment hz,hsplit,run_append,run_lineEnd_comment hsingle,run_indent_code]
      exact ⟨kept,hkept,.inl ⟨rfl,.code []⟩⟩
    | @opened q hq =>
      obtain ⟨hne,hhead⟩ := lineEnd_head hz hq
      rw [run_opened hhead hne,run_lineEnd_single hz hq]
      exact follows_stuck hkept hgone
    | @openedTwice q hq =>
      obtain ⟨hne,hhead⟩ := lineEnd_head hz hq
      obtain ⟨hne',hhead'⟩ := lineEnd_head hsingle hq
      have hempty : Grown (.literal []) (.literal []) := .literal (grows_refl not_mem_nil)
      rw [run_openedTwice hhead hne,run_lineEnd_code hz,hsplit,run_append,
        run_openedTwice hhead' hne',run_lineEnd_code hsingle,run_indent_code,append_assoc,
        flush_append]
      exact ⟨_,grown_flush (grown_append hkept hempty) [],.inl ⟨rfl,.code []⟩⟩
    | @single q x y hq hgrows =>
      rw [run_lineEnd_single hz hq]
      exact follows_stuck hkept hgone
    | @singleEscape q x y hq hgrows =>
      rcases lineEnds_cases hz with rfl | rfl
      · rw [run_cons,run_cons,run_nil,feed_singleEscape,feed_singleEscape,
          run_single hq (inside_indent hq) (.inr rfl),append_assoc y]
        refine ⟨kept,hkept,.inl ⟨rfl,.single hq (hgrows.newline ?_ ?_)⟩⟩
        · simp
        · decide
      · rw [run_cons,feed_singleEscape,run_lineEnd_single hsingle hq]
        exact follows_stuck hkept hgone
    | @triple q x y quotes hq hgrows =>
      rw [run_lineEnd_triple hz hq,hsplit,run_append,run_lineEnd_triple hsingle hq,
        run_triple hq (inside_indent hq),append_assoc (y++_)]
      have hquotes := hgrows.append (newline_notMem_replicate hq quotes)
      exact ⟨kept,hkept,.inl ⟨rfl,.triple 0 hq (hquotes.newline hin hspaces)⟩⟩
    | @tripleEscape q x y hq hgrows =>
      have hsecond : Lexer.run false ⟨header++kept,.tripleEscape q y⟩ ('\n' :: indent) =
          ⟨header++kept,.triple q (y ++ ([backslash, '\n'] ++ indent)) 0⟩ := by
        rw [run_cons,feed_tripleEscape,run_triple hq (inside_indent hq),append_assoc]
      rw [hsecond]
      rcases lineEnds_cases hz with rfl | rfl
      · refine ⟨kept,hkept,.inl ⟨rfl,.triple 0 hq (hgrows.newline ?_ ?_)⟩⟩
        · simp
        · decide
      · rw [run_cons,feed_tripleEscape,run_lineEnd_triple hsingle hq,replicate_zero,
          append_nil,append_assoc]
        refine ⟨kept,hkept,.inl ⟨rfl,.triple 0 hq (hgrows.newline ?_ ?_)⟩⟩
        · simp
        · decide
  · have hstuck : Lexer.run false ⟨tokens,.unfinished⟩ z = ⟨tokens,.unfinished⟩ := by
      rcases lineEnds_cases hz with rfl | rfl <;> rfl
    rw [hstuck]
    exact follows_stuck hkept (hstarts.trans (prefix_run false _ _))

theorem Follows.feed_newline (h : Follows header l l') :
    (Lexer.feed false l '\n').tokens = l.finish ∧
      (Lexer.feed false l '\n').finish = (Lexer.feed false l '\n').tokens := by
  have hempty : ∀ t : List Token, flush t [] = t := fun t => if_pos rfl
  obtain ⟨tokens,state⟩ := l
  obtain ⟨tokens',state'⟩ := l'
  obtain ⟨kept,-,⟨-,hplace⟩ | ⟨rfl,-⟩⟩ := h
  · cases hplace with
    | code =>
      exact ⟨rfl,hempty _⟩
    | comment => exact ⟨rfl,hempty _⟩
    | @opened q hq =>
      rw [feed_opened,if_neg (quote_ne hq).2.1.symm,feedSingle,if_neg (quote_ne hq).2.1.symm,
        if_neg (by decide),if_pos ⟨rfl,rfl⟩]
      exact ⟨rfl,rfl⟩
    | @openedTwice q hq =>
      rw [feed_openedTwice,if_neg (quote_ne hq).2.1.symm,feedCode_blank (.inl rfl)]
      exact ⟨hempty _,hempty _⟩
    | @single q x y hq hgrows =>
      rw [feed_single,feedSingle,if_neg (quote_ne hq).2.1.symm,if_neg (by decide),
        if_pos ⟨rfl,rfl⟩]
      exact ⟨rfl,rfl⟩
    | singleEscape => exact ⟨rfl,rfl⟩
    | @triple q x y quotes hq hgrows =>
      rw [feed_triple,feedTriple_plain (quote_ne hq).2.1.symm (by decide)]
      exact ⟨rfl,rfl⟩
    | tripleEscape => exact ⟨rfl,rfl⟩
  · exact ⟨rfl,rfl⟩

theorem Follows.tokens_kept (h : Follows header l l') :
    ∃ kept, List.Forall₂ Grown l.tokens kept ∧ header++kept <+: l'.tokens := by
  obtain ⟨kept,hkept,⟨heq,-⟩ | ⟨-,hstarts⟩⟩ := h
  · exact ⟨kept,hkept,heq ▸ prefix_refl _⟩
  · exact ⟨kept,hkept,hstarts⟩

theorem stripLineEnd_append {line : List Char} (h : line.getLast? = some '\n') :
    ∃ z∈lineEnds, line = stripLineEnd line ++ z := by
  have hline : line = line.dropLast ++ ['\n'] := (dropLast_append_getLast? _ h).symm
  rw [stripLineEnd,if_pos h]
  split_ifs with hreturn
  · refine ⟨['\r', '\n'],by simp [lineEnds],?_⟩
    have hfirst : line.dropLast = line.dropLast.dropLast ++ ['\r'] :=
      (dropLast_append_getLast? _ hreturn).symm
    rw [hfirst,append_assoc] at hline
    exact hline
  · exact ⟨['\n'],by simp [lineEnds],hline⟩

/-- The wrapped lines, each with its newline and the indentation of the next. -/
def shifted (lines : List (List Char)) : List Char :=
  (lines.map fun line => line ++ '\n' :: indent).flatten

/-- Reading the lines of a text: `l` reads them as they are, `l'` reads them wrapped. -/
theorem Follows.lines (pieces : List (List Char))
    (hpieces : ∀ piece∈pieces, '\n' ∉ piece.dropLast ∧ '\n' ∉ stripLineEnd piece)
    (hends : ∀ before piece after, pieces=before++piece::after → after ≠ [] →
      piece.getLast? = some '\n')
    (h : Follows header l l') (hfinish : l.finish=l.tokens) :
    ∃ kept, List.Forall₂ Grown (Lexer.run false l pieces.flatten).finish kept ∧
      header++kept <+: (Lexer.run false l' (shifted (pieces.map stripLineEnd))).tokens := by
  induction pieces generalizing l l' with
  | nil =>
    rw [flatten_nil,run_nil,hfinish]
    exact h.tokens_kept
  | cons piece pieces ih =>
    obtain ⟨hdrop,hbody⟩ := hpieces piece mem_cons_self
    have hshift : shifted ((piece::pieces).map stripLineEnd) =
        stripLineEnd piece ++ '\n' :: indent ++ shifted (pieces.map stripLineEnd) := rfl
    rw [flatten_cons,run_append,hshift,run_append,run_append]
    by_cases hend : piece.getLast? = some '\n'
    · obtain ⟨z,hz,hpiece⟩ := stripLineEnd_append hend
      have hnext := (h.run hbody).newline hz
      rw [← run_append,← hpiece] at hnext
      refine ih ?_ ?_ hnext ?_
      · exact fun p hp => hpieces p (mem_cons_of_mem _ hp)
      · intro before p after heq
        exact hends (piece::before) p after (by rw [heq,cons_append])
      · rw [← dropLast_append_getLast? _ hend,run_append]
        exact (h.run hdrop).feed_newline.2
    · -- the last line, which has no end
      have hnil : pieces = [] := by
        by_contra hne
        exact hend (hends [] piece pieces rfl hne)
      have hstrip : stripLineEnd piece = piece := if_neg hend
      rw [hstrip] at hbody ⊢
      rw [hnil,flatten_nil,run_nil,← (h.run hbody).feed_newline.1]
      exact ((h.run hbody).newline (z := ['\n']) mem_cons_self).tokens_kept

theorem indented_shifted (lines : List (List Char)) :
    (lines.map fun line => indent++line ++ ['\n']).flatten ++ indent = indent ++ shifted lines := by
  induction lines with
  | nil => simp [shifted]
  | cons line lines ih =>
    rw [map_cons,flatten_cons,append_assoc,ih]
    simp [shifted]

def headerTokens : List Token := [.word "def".toList, .word "__daimonos_main__():".toList]

theorem parserTokens_wrapTopLevelControlFlow (code : List Char) :
    ∃ kept, List.Forall₂ Grown (parserTokens code) kept ∧
      headerTokens++kept <+: parserTokens (wrapTopLevelControlFlow code) := by
  have hstart : Lexer.run false {} (mainHeader++indent) = ⟨headerTokens,.code []⟩ := by
    decide +kernel
  have hfollows : Follows headerTokens {} ⟨headerTokens,.code []⟩ :=
    ⟨[],.nil,.inl ⟨(append_nil _).symm,.code []⟩⟩
  have hwrapped : wrapTopLevelControlFlow code =
      mainHeader++indent ++ shifted (textLines code) ++ mainReturn := by
    rw [wrapTopLevelControlFlow,← append_assoc,append_assoc mainHeader,indented_shifted,
      ← append_assoc]
  obtain ⟨kept,hkept,hstarts⟩ := hfollows.lines (splitInclusive code)
    (fun piece hpiece => ⟨(newline_notMem_dropLast hpiece).1,
      newline_notMem_textLines (mem_map_of_mem hpiece)⟩)
    (fun before piece after heq => newline_of_mem_splitInclusive before heq) rfl
  rw [splitInclusive_flatten] at hkept
  refine ⟨kept,hkept,?_⟩
  rw [parserTokens,hwrapped,run_append,run_append,hstart]
  exact (hstarts.trans (prefix_run false _ _)).trans (prefix_finish _)

end Wrapping

section Preserving

variable {code : List Char} {ts kept : List Token}

theorem literals_append (ts us : List Token) : literals (ts++us) = literals ts ++ literals us :=
  filterMap_append

theorem literals_grow (h : List.Forall₂ Grown ts kept) :
    List.Forall₂ Grows (literals ts) (literals kept) := by
  induction h with
  | nil => exact .nil
  | cons hgrown _ ih =>
    cases hgrown with
    | word => exact ih
    | literal hgrows => exact .cons hgrows ih

theorem eq_of_grown (h : List.Forall₂ Grown ts kept)
    (hlines : ∀ content ∈ literals ts, '\n' ∉ content) : kept=ts := by
  induction h with
  | nil => rfl
  | cons hgrown _ ih =>
    cases hgrown with
    | word => rw [ih hlines]
    | literal hgrows =>
      obtain ⟨hx,hrest⟩ := forall_mem_cons.mp hlines
      rcases hgrows with ⟨-,rfl⟩ | ⟨hin,-⟩
      · rw [ih hrest]
      · exact absurd hin hx

/-- The tokens of the script are among those that the parser reads, in their order and without
others in between, and no string literal is before them. -/
def Preserved (code given : List Char) : Prop :=
  ∃ before after, parserTokens given = before ++ tokens code ++ after ∧ literals before = []

theorem tokens_wrapped (code : List Char) : ∃ kept, List.Forall₂ Grown (tokens code) kept ∧
    headerTokens++kept <+: parserTokens (wrapTopLevelControlFlow (normalizeStringLiterals code)) := by
  obtain ⟨more,hmore⟩ := tokens_normalizeStringLiterals code
  obtain ⟨kept,hkept,hstarts⟩ := parserTokens_wrapTopLevelControlFlow (normalizeStringLiterals code)
  refine ⟨kept.take (tokens code).length,?_,?_⟩
  · have htake := forall₂_take (tokens code).length hkept
    rwa [← hmore,take_left] at htake
  · exact ((prefix_append_right_inj headerTokens).mpr (List.take_prefix _ kept)).trans hstarts

/-- The script with its control flow wrapped keeps its tokens when no literal spans lines; otherwise
the lines of the literal are indented too. -/
theorem preserved_wrapped_iff (code : List Char) :
    Preserved code (wrapTopLevelControlFlow (normalizeStringLiterals code)) ↔
      ∀ content ∈ literals (tokens code), '\n' ∉ content := by
  obtain ⟨kept,hkept,after,hafter⟩ := tokens_wrapped code
  have hgrow := literals_grow hkept
  constructor
  · rintro ⟨before,rest,heq,hbefore⟩ content hcontent
    have hliterals : literals (tokens code) ++ literals rest = literals kept ++ literals after := by
      have h := congrArg literals (heq.symm.trans hafter.symm)
      simpa only [literals_append,hbefore,nil_append,
        show literals headerTokens = [] from rfl] using h
    have hsame : literals (tokens code) = literals kept := append_inj_left hliterals hgrow.length_eq
    rw [← hsame,forall₂_same] at hgrow
    rcases hgrow content hcontent with ⟨hnone,-⟩ | ⟨-,hlt⟩
    · exact hnone
    · exact absurd hlt (Nat.lt_irrefl _)
  · intro hlines
    rw [eq_of_grown hkept hlines] at hafter
    exact ⟨headerTokens,after,hafter.symm,rfl⟩

/-- What the parser is given keeps every literal and the order of the tokens unless control flow had
to be wrapped in a script with a literal that spans lines. -/
theorem rewritten_preserved_iff (outsideDef : List Char → Bool) (code : List Char) :
    Preserved code (rewritten outsideDef code) ↔
      (outsideDef (normalizeStringLiterals code) = true →
        ∀ content ∈ literals (tokens code), '\n' ∉ content) := by
  by_cases hwrap : outsideDef (normalizeStringLiterals code) = true
  · rw [rewritten,if_pos hwrap,preserved_wrapped_iff]
    exact ⟨fun h _ => h,fun h => h hwrap⟩
  · rw [rewritten,if_neg hwrap]
    obtain ⟨after,hafter⟩ := tokens_normalizeStringLiterals code
    exact ⟨fun _ h => absurd h hwrap,fun _ => ⟨[],after,hafter.symm,rfl⟩⟩

def loopScript : List Char :=
  "text = \"\"\"a\nb\"\"\"\nfor line in text.splitlines():\n    result = line\n".toList

/-- A literal that spans lines is indented with the loop around it. -/
theorem loopScript_changed : ∃ outsideDef : List Char → Bool,
    literals (tokens loopScript) = ["a\nb".toList] ∧
    literals (parserTokens (rewritten outsideDef loopScript)) = ["a\n    b".toList] ∧
    ¬ Preserved loopScript (rewritten outsideDef loopScript) := by
  have hliterals : literals (tokens loopScript) = ["a\nb".toList] := by decide +kernel
  refine ⟨fun _ => true,hliterals,by decide +kernel,?_⟩
  rw [show rewritten (fun _ => true) loopScript =
    wrapTopLevelControlFlow (normalizeStringLiterals loopScript) from rfl,preserved_wrapped_iff]
  intro h
  exact h _ mem_cons_self (by decide)

end Preserving

end Daimonos.Script
