import MailVerdict.Model.MessageExcerpt
import Mathlib.Algebra.Order.Ring.Nat

/-!
# The links an excerpt keeps

The excerpt of a message is cut once more to make room for the links it does not show. A link the
list names stands there whole, since the list sets a space before each and a comma or a bracket
after it. A link the excerpt was found to have is another matter: it was looked for as a piece of
text before the second cut, so it can be a piece of a longer link, or be cut off.
-/

namespace MailVerdict.Analysis.ExcerptLinks

open Computation.TextPatterns Model.MessageExcerpt

variable {c : Char} {url : List Char}

/-! ## Whole links -/

/-- The text has the link in it, as no piece of a longer one. -/
def ShowsUrl (url text : List Char) : Prop := Whole urlChar isTrailing (seen scanUrl) url text

instance decidableShowsUrl (url text : List Char) : Decidable (ShowsUrl url text) :=
  inferInstanceAs (Decidable (Whole _ _ _ _ _))

theorem upper_or_lower_h (h : lowerAscii c = 'h') : c = 'h' ∨ c = 'H' := by
  unfold lowerAscii at h
  split at h
  · rename_i hc
    have hcode : ∀ n < 91, Char.ofNat (n + 32) = 'h' → n = 72 := by decide
    have hn : c.toNat = 72 := hcode c.toNat (Nat.lt_succ_of_le hc.2) h
    right
    rw [← Char.ofNat_toNat c, hn]
  · exact Or.inl h

theorem foldCase_eq_h (h : foldCase c = 'h') : c = 'h' ∨ c = 'H' := by
  unfold foldCase at h
  split at h
  · exact absurd h (by decide)
  · split at h
    · exact absurd h (by decide)
    · split at h
      · exact absurd h (by decide)
      · exact upper_or_lower_h h

theorem urlHead_first {rest : List Char} {n : ℕ} (h : urlHead (c :: rest) = some n) :
    c = 'h' ∨ c = 'H' := by
  unfold urlHead at h
  split at h
  · rename_i hhead
    exact foldCase_eq_h (head_of_startsWithFold hhead)
  · split at h
    · rename_i hhead
      exact foldCase_eq_h (head_of_startsWithFold hhead)
    · cases h

theorem urlHead_le {text : List Char} {n : ℕ} (h : urlHead text = some n) :
    0 < n ∧ n ≤ text.length := by
  have hlen : ∀ pat, startsWithFold pat text = true → pat.length ≤ text.length := by
    intro pat hpat
    rw [startsWithFold, List.isPrefixOf_iff_prefix] at hpat
    have := hpat.length_le
    rwa [List.length_map] at this
  unfold urlHead at h
  split at h
  · rename_i hhead
    cases h
    exact ⟨by omega, hlen _ hhead⟩
  · split at h
    · rename_i hhead
      cases h
      exact ⟨by omega, hlen _ hhead⟩
    · cases h

theorem scanUrl_read {text m : List Char} {n : ℕ} (h : scanUrl text = some (m, n)) :
    n = m.length ∧ ∃ post, text = m ++ post ∧ post.takeWhile urlChar = [] := by
  unfold scanUrl at h
  split at h
  · cases h
  · rename_i k hk
    split at h
    · cases h
    · rename_i c more hrun
      obtain ⟨-, hle⟩ := urlHead_le hk
      have hpost : text = text.take k ++ c :: more ++ (text.drop k).dropWhile urlChar := by
        rw [List.append_assoc, ← hrun, List.takeWhile_append_dropWhile, List.take_append_drop]
      injection h with h
      injection h with hm hn
      subst hm
      refine ⟨?_, _, hpost, ?_⟩
      · rw [← hn, List.length_append, List.length_take, Nat.min_eq_left hle]
      · cases hafter : (text.drop k).dropWhile urlChar with
        | nil => rfl
        | cons d after =>
          have hd : urlChar d = false := by
            have := List.head?_dropWhile_not urlChar (text.drop k)
            rw [hafter] at this
            exact this
          rw [List.takeWhile_cons, hd]
          rfl

theorem scanUrl_first {rest : List Char} (h : scanUrl (c :: rest) ≠ none) :
    c = 'h' ∨ c = 'H' := by
  cases hhead : urlHead (c :: rest) with
  | some n => exact urlHead_first hhead
  | none =>
    rw [scanUrl, hhead] at h
    exact absurd rfl h

theorem urlChar_h (h : c = 'h' ∨ c = 'H') : urlChar c = true ∧ isTrailing c = false := by
  rcases h with rfl | rfl
  · decide
  · decide

theorem urlChar_feed : urlChar '\n' = false := by decide

theorem seen_append_feed (text rest : List Char) :
    seen scanUrl (text ++ '\n' :: rest) = seen scanUrl text := by
  have hhead : urlHead (text ++ '\n' :: rest) = urlHead text := by
    unfold urlHead
    rw [startsWithFold_append (by decide), startsWithFold_append (by decide)]
  unfold seen scanUrl
  rw [hhead]
  cases hn : urlHead text with
  | none => rfl
  | some n =>
    have hdrop : (text ++ '\n' :: rest).drop n = text.drop n ++ '\n' :: rest :=
      List.drop_append_of_le_length (urlHead_le hn).2
    simp only [hdrop, takeWhile_stop urlChar_feed]
    cases (text.drop n).takeWhile urlChar with
    | nil => rfl
    | cons c more => rfl

/-! ## The links of a message -/

/-- A link starts with the letter its scheme starts with. -/
def StartsWithH (url : List Char) : Prop := ∃ c rest, url = c :: rest ∧ (c = 'h' ∨ c = 'H')

theorem startsWithH_cleanUrl {rest : List Char} (hc : c = 'h' ∨ c = 'H') :
    StartsWithH (cleanUrl (c :: rest)) := by
  have hne : cleanUrl (c :: rest) ≠ [] := by
    intro hnil
    have hall := List.rdropWhile_eq_nil_iff.1 hnil c List.mem_cons_self
    rw [(urlChar_h hc).2] at hall
    cases hall
  obtain ⟨d, later, hurl⟩ := List.exists_cons_of_ne_nil hne
  have hprefix : cleanUrl (c :: rest) <+: c :: rest := List.rdropWhile_prefix isTrailing _
  rw [hurl] at hprefix
  obtain ⟨rfl, -⟩ := List.cons_prefix_cons.1 hprefix
  exact ⟨d, later, hurl, hc⟩

theorem startsWithH_of_bare {text : List Char} (h : url ∈ bareUrls text) :
    StartsWithH url := by
  obtain ⟨m, hm, rfl⟩ := List.mem_map.1 h
  obtain ⟨rest, n, -, hscan⟩ := exists_of_mem_findAll hm
  cases rest with
  | nil => cases hscan
  | cons c rest =>
    have hc : c = 'h' ∨ c = 'H' := scanUrl_first (by rw [hscan]; exact Option.some_ne_none _)
    obtain ⟨-, post, htext, hpost⟩ := scanUrl_read hscan
    cases m with
    | nil =>
      rw [List.nil_append] at htext
      rw [← htext, List.takeWhile_cons, (urlChar_h hc).1] at hpost
      cases hpost
    | cons d m =>
      obtain ⟨rfl, -⟩ := List.cons.inj htext
      exact startsWithH_cleanUrl hc

theorem startsWithH_of_href {html : List Char} (h : url ∈ hrefUrls html) :
    StartsWithH url := by
  have hhttp : isHttp url = true := (List.mem_filter.1 h).2
  cases url with
  | nil => cases hhttp
  | cons c rest =>
    refine ⟨c, rest, rfl, upper_or_lower_h ?_⟩
    unfold isHttp at hhttp
    rw [Bool.or_eq_true, List.isPrefixOf_iff_prefix, List.isPrefixOf_iff_prefix,
      List.map_cons] at hhttp
    rcases hhttp with h | h
    · exact (List.cons_prefix_cons.1 h).1.symm
    · exact (List.cons_prefix_cons.1 h).1.symm

theorem mem_setdefaults {seen urls : List (List Char)} :
    url ∈ setdefaults seen urls ↔ url ∈ seen ∨ url ∈ urls := by
  unfold setdefaults
  induction urls generalizing seen with
  | nil => simp only [List.foldl_nil, List.not_mem_nil, or_false]
  | cons first urls ih =>
    rw [List.foldl_cons, ih, List.mem_cons]
    split
    · rename_i hseen
      constructor
      · rintro (h | h)
        · exact Or.inl h
        · exact Or.inr (Or.inr h)
      · rintro (h | rfl | h)
        · exact Or.inl h
        · exact Or.inl hseen
        · exact Or.inr h
    · rw [List.mem_append, List.mem_singleton, or_assoc]

theorem source_of_mem_extractUrls {message : Message} (h : url ∈ extractUrls message) :
    (∃ html, truthy message.bodyHtml = some html ∧ (url ∈ hrefUrls html ∨ url ∈ bareUrls html)) ∨
      ∃ text, truthy message.bodyText = some text ∧ url ∈ bareUrls text := by
  have h := List.mem_of_mem_take h
  cases htext : truthy message.bodyText with
  | none =>
    cases hhtml : truthy message.bodyHtml with
    | none =>
      simp only [htext, hhtml] at h
      cases h
    | some html =>
      simp only [htext, hhtml, mem_setdefaults, List.not_mem_nil, false_or] at h
      exact Or.inl ⟨html, rfl, h⟩
  | some text =>
    cases hhtml : truthy message.bodyHtml with
    | none =>
      simp only [htext, hhtml, mem_setdefaults, List.not_mem_nil, false_or] at h
      exact Or.inr ⟨text, rfl, h⟩
    | some html =>
      simp only [htext, hhtml, mem_setdefaults, List.not_mem_nil, false_or] at h
      rcases h with h | h
      · exact Or.inl ⟨html, rfl, h⟩
      · exact Or.inr ⟨text, rfl, h⟩

theorem startsWithH_of_mem_extractUrls {message : Message}
    (h : url ∈ extractUrls message) : StartsWithH url := by
  rcases source_of_mem_extractUrls h with ⟨html, -, h | h⟩ | ⟨text, -, h⟩
  · exact startsWithH_of_href h
  · exact startsWithH_of_bare h
  · exact startsWithH_of_bare h

/-! ## The list -/

theorem linkList_length {missing : List (List Char)} (hne : missing ≠ []) :
    (linkList missing).length = (missing.map fun url => url.length + 2).sum + 24 := by
  have hjoin : ∀ urls : List (List Char), urls ≠ [] →
      ([',', ' '].intercalate urls).length + 2 = (urls.map fun url => url.length + 2).sum := by
    intro urls hurls
    induction urls with
    | nil => exact absurd rfl hurls
    | cons url urls ih =>
      cases urls with
      | nil =>
        rw [List.intercalate_singleton]
        rfl
      | cons next urls =>
        have ih := ih (List.cons_ne_nil _ _)
        rw [List.intercalate_cons_cons, List.map_cons, List.sum_cons, ← ih,
          List.length_append, List.length_append]
        simp only [List.length_cons, List.length_nil]
        omega
  have hframe : ("[links in this message: ".toList).length = 24 := by decide +kernel
  have hjoin := hjoin missing hne
  unfold linkList
  rw [List.length_cons, List.length_append, List.length_append, hframe, ← hjoin]
  simp only [List.length_cons, List.length_nil]
  omega

theorem shows_linkList {missing : List (List Char)} (h : url ∈ missing) :
    ShowsUrl url (linkList missing) := by
  obtain ⟨before, after, hjoin, hbefore, hafter⟩ := intercalate_split [',', ' '] h
  have hspace : ∃ lead, '
' :: ("[links in this message: ".toList ++ before) = lead ++ [' '] := by
    rcases hbefore with rfl | ⟨b, rfl⟩
    · exact ⟨'
' :: "[links in this message:".toList, by decide +kernel⟩
    · refine ⟨'
' :: ("[links in this message: ".toList ++ (b ++ [','])), ?_⟩
      simp only [List.cons_append, List.append_assoc, List.nil_append]
  obtain ⟨lead, hlead⟩ := hspace
  refine whole_iff.2 ⟨lead ++ [' '], after ++ [']'], ?_, ?_, noEarlier_break (by decide) _⟩
  · rw [← hlead, linkList, hjoin]
    simp only [List.cons_append, List.append_assoc]
  · intro c hc
    rcases hafter with rfl | ⟨a, rfl⟩
    · rw [List.nil_append, List.takeWhile_cons, show urlChar ']' = false by decide] at hc
      cases hc
    · have hrun : ([',', ' '] ++ a ++ [']']).takeWhile urlChar = [','] :=
        takeWhile_stop (show urlChar ' ' = false by decide) [','] (a ++ [']'])
      rw [hrun, List.mem_singleton] at hc
      rw [hc]
      decide

/-! ## The excerpt -/

variable (stripHtml : List Char → List Char) (message : Message)

def excerpt : List Char := (cutBody stripHtml message).1

def unshown : List (List Char) := missingUrls (excerpt stripHtml message) (extractUrls message)

def kept : List Char :=
  (excerpt stripHtml message).take
    (bodyExcerptChars - (linkList (unshown stripHtml message)).length)

/-- The text is at most the limit long and has the first twenty links whole. -/
def KeepsLinks : Prop :=
  (viewBody stripHtml message).1.length ≤ bodyExcerptChars ∧
    ∀ url ∈ extractUrls message, ShowsUrl url (viewBody stripHtml message).1

instance decidableKeepsLinks : Decidable (KeepsLinks stripHtml message) :=
  inferInstanceAs (Decidable (_ ∧ _))

/-- The excerpt has every link whole; or the list of those it has nothing of is at most the limit
long, and every other one stands whole before the second cut, in the list, or across the cut. -/
def LinksFit : Prop :=
  (unshown stripHtml message = [] ∧
    ∀ url ∈ extractUrls message, ShowsUrl url (excerpt stripHtml message)) ∨
  (unshown stripHtml message ≠ [] ∧
    ((unshown stripHtml message).map fun url => url.length + 2).sum + 24 ≤ bodyExcerptChars ∧
    ∀ url ∈ extractUrls message, url <:+: excerpt stripHtml message →
      ShowsUrl url (kept stripHtml message) ∨
        ShowsUrl url (linkList (unshown stripHtml message)) ∨
          Across urlChar isTrailing (seen scanUrl) url (kept stripHtml message)
            (linkList (unshown stripHtml message)))

variable {stripHtml message}

theorem excerpt_length : (excerpt stripHtml message).length ≤ bodyExcerptChars := by
  unfold excerpt cutBody
  split
  · exact List.length_take_le _ _
  · split
    · exact List.length_take_le _ _
    · exact Nat.zero_le _

theorem viewBody_all_shown (h : unshown stripHtml message = []) :
    (viewBody stripHtml message).1 = excerpt stripHtml message := by
  unfold unshown excerpt at h
  unfold viewBody excerpt appendMissingUrls
  simp only [h]

theorem viewBody_some_unshown (h : unshown stripHtml message ≠ []) :
    (viewBody stripHtml message).1 =
      kept stripHtml message ++ linkList (unshown stripHtml message) := by
  unfold kept
  unfold unshown excerpt at h ⊢
  unfold viewBody appendMissingUrls
  cases hmissing : missingUrls (cutBody stripHtml message).1 (extractUrls message) with
  | nil => exact absurd hmissing h
  | cons url more => simp only [hmissing]

theorem mem_unshown : url ∈ unshown stripHtml message ↔
    url ∈ extractUrls message ∧ ¬ url <:+: excerpt stripHtml message := by
  unfold unshown missingUrls
  rw [List.mem_filter, decide_eq_true_eq]

theorem length_le_iff (h : unshown stripHtml message ≠ []) :
    (viewBody stripHtml message).1.length ≤ bodyExcerptChars ↔
      ((unshown stripHtml message).map fun url => url.length + 2).sum + 24 ≤ bodyExcerptChars := by
  rw [viewBody_some_unshown h, List.length_append, ← linkList_length h]
  have hkept : (kept stripHtml message).length ≤
      bodyExcerptChars - (linkList (unshown stripHtml message)).length := List.length_take_le _ _
  omega

theorem shows_iff (h : unshown stripHtml message ≠ []) (hurl : url ∈ extractUrls message) :
    ShowsUrl url (viewBody stripHtml message).1 ↔
      ShowsUrl url (kept stripHtml message) ∨
        ShowsUrl url (linkList (unshown stripHtml message)) ∨
          Across urlChar isTrailing (seen scanUrl) url (kept stripHtml message)
            (linkList (unshown stripHtml message)) := by
  obtain ⟨c, rest, rfl, hc⟩ := startsWithH_of_mem_extractUrls hurl
  rw [viewBody_some_unshown h]
  refine whole_append_iff urlChar_feed seen_append_feed (List.cons_ne_nil c rest) ?_
  rw [List.head?_cons]
  rcases hc with rfl | rfl
  · decide
  · decide

/-- The text `_append_missing_urls` makes is within the limit and has the first twenty links of the
body whole exactly when they fit: no list too long, no second cut through a link, and none that
was only a piece of a longer one. -/
theorem keepsLinks_iff (stripHtml : List Char → List Char) (message : Message) :
    KeepsLinks stripHtml message ↔ LinksFit stripHtml message := by
  by_cases hall : unshown stripHtml message = []
  · unfold KeepsLinks LinksFit
    rw [viewBody_all_shown hall]
    constructor
    · rintro ⟨-, hshow⟩
      exact Or.inl ⟨hall, hshow⟩
    · rintro (⟨-, hshow⟩ | ⟨hsome, -⟩)
      · exact ⟨excerpt_length, hshow⟩
      · exact absurd hall hsome
  · unfold KeepsLinks LinksFit
    rw [length_le_iff hall]
    constructor
    · rintro ⟨hlength, hshow⟩
      refine Or.inr ⟨hall, hlength, ?_⟩
      intro url hurl _
      exact (shows_iff hall hurl).1 (hshow url hurl)
    · rintro (⟨hnone, -⟩ | ⟨-, hlength, hfit⟩)
      · exact absurd hnone hall
      · refine ⟨hlength, ?_⟩
        intro url hurl
        rw [shows_iff hall hurl]
        by_cases hpiece : url <:+: excerpt stripHtml message
        · exact hfit url hurl hpiece
        · exact Or.inr (Or.inl (shows_linkList (mem_unshown.2 ⟨hurl, hpiece⟩)))

/-- An anchor to the start of a link the text of the message mentions. -/
def prefixMessage : Message where
  bodyText := some "see https://a.b/c".toList
  bodyHtml := some "<a href='https://a.b/'></a>".toList

theorem prefix_not_kept : ¬ KeepsLinks (fun _ => []) prefixMessage := by decide +kernel

end MailVerdict.Analysis.ExcerptLinks
