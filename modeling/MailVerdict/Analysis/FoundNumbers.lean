import MailVerdict.Model.LabeledNumbers

/-!
# Numbers that are found again

When `_number_matches` finds each number that `extract_labeled_identifiers` takes out of a text
in this same text. A number that a label offers is looked at where it stands: whether a letter or
a digit is directly before or after it, in the text and in the text in upper case.
-/

namespace MailVerdict.Analysis.FoundNumbers

open MailVerdict.Computation Computation.TextPatterns Model.Identifiers
  Model.LabeledNumbers
open Model.MessageExcerpt (scanUrl)

/-! ## Whole tokens -/

/-- No letter or digit ends the first text or starts the second. -/
def Apart (before after : Text) : Prop :=
  before.getLast?.any isAlnum = false ∧ after.head?.any isAlnum = false

instance (before after : Text) : Decidable (Apart before after) :=
  inferInstanceAs (Decidable (_ ∧ _))

/-- The value is a token of the text, and no part of a longer run of letters and digits. -/
def StandsWhole (value text : Text) : Prop :=
  ∃ before after, text = before ++ (value ++ after) ∧ Apart before after

/-- The value stands whole somewhere else than behind `place`. -/
def OtherPlace (value text place : Text) : Prop :=
  ∃ before after, before.length ≠ place.length ∧ text = before ++ (value ++ after) ∧
    Apart before after

theorem standsWhole_iff {value text place after : Text} (h : text = place ++ (value ++ after)) :
    StandsWhole value text ↔ Apart place after ∨ OtherPlace value text place := by
  constructor
  · rintro ⟨before, behind, htext, hapart⟩
    by_cases hlen : before.length = place.length
    · obtain ⟨rfl, hrest⟩ := List.append_inj (htext.symm.trans h) hlen
      rw [List.append_cancel_left hrest] at hapart
      exact .inl hapart
    · exact .inr ⟨before, behind, hlen, htext, hapart⟩
  · rintro (hapart | ⟨before, behind, -, htext, hapart⟩)
    · exact ⟨place, after, h, hapart⟩
    · exact ⟨before, behind, htext, hapart⟩

theorem getLast?_cons_or (c : Char) (before : Text) (first : Option Char) :
    ((c :: before).getLast?.or first) = before.getLast?.or (some c) := by
  cases before with
  | nil => rfl
  | cons d before => simp [List.getLast?_cons]

theorem wholeWord_iff (pattern text : Text) (first : Option Char) :
    wholeWord pattern first text = true ↔
      ∃ before after, text = before ++ (pattern ++ after) ∧
        (before.getLast?.or first).any isAlnum = false ∧ after.head?.any isAlnum = false := by
  have hhere (first : Option Char) (t : Text) :
      (!first.any isAlnum && pattern.isPrefixOf t &&
        !(t.drop pattern.length).head?.any isAlnum) = true ↔
      ∃ after, t = pattern ++ after ∧ first.any isAlnum = false ∧
        after.head?.any isAlnum = false := by
    rw [Bool.and_eq_true_iff, Bool.and_eq_true_iff, Bool.not_eq_true', Bool.not_eq_true',
      List.isPrefixOf_iff_prefix]
    constructor
    · rintro ⟨⟨hfirst, after, rfl⟩, hafter⟩
      rw [List.drop_left] at hafter
      exact ⟨after, rfl, hfirst, hafter⟩
    · rintro ⟨after, rfl, hfirst, hafter⟩
      rw [List.drop_left]
      exact ⟨⟨hfirst, List.prefix_append _ _⟩, hafter⟩
  induction text generalizing first with
  | nil =>
    rw [wholeWord, Bool.or_false, hhere]
    constructor
    · rintro ⟨after, htext, hfirst, hafter⟩
      exact ⟨[], after, htext, hfirst, hafter⟩
    · rintro ⟨before, after, htext, hfirst, hafter⟩
      obtain ⟨rfl, hrest⟩ := List.append_eq_nil_iff.1 htext.symm
      exact ⟨after, hrest.symm, hfirst, hafter⟩
  | cons c text ih =>
    rw [wholeWord, Bool.or_eq_true_iff]
    refine (or_congr (hhere first (c :: text)) (ih (some c))).trans ⟨?_, ?_⟩
    · rintro (⟨after, htext, hfirst, hafter⟩ | ⟨before, after, rfl, hbefore, hafter⟩)
      · exact ⟨[], after, htext, hfirst, hafter⟩
      · exact ⟨c :: before, after, rfl, by rw [getLast?_cons_or]; exact hbefore, hafter⟩
    · rintro ⟨before, after, htext, hbefore, hafter⟩
      cases before with
      | nil => exact .inl ⟨after, htext, hbefore, hafter⟩
      | cons d before =>
        obtain ⟨rfl, rfl⟩ := List.cons.inj htext
        rw [getLast?_cons_or] at hbefore
        exact .inr ⟨before, after, rfl, hbefore, hafter⟩

theorem wholeWord_none_iff (pattern text : Text) :
    wholeWord pattern none text = true ↔ StandsWhole pattern text := by
  rw [wholeWord_iff]
  simp only [Option.or_none]
  exact Iff.rfl

/-! ## Upper case -/

section
variable (beyond : Char → Text)

theorem upperText_append (first second : Text) :
    upperText beyond (first ++ second) = upperText beyond first ++ upperText beyond second :=
  List.flatMap_append

def norm (text : Text) : Text := normalizeIdentifier (upperChar beyond) text

theorem norm_append (first second : Text) :
    norm beyond (first ++ second) = norm beyond first ++ norm beyond second := by
  rw [norm, normalizeIdentifier, List.filter_append, List.flatMap_append]
  rfl

theorem ascii_upper : ∀ n < 128, (Char.ofNat n).toUpper.toNat < 128 ∧
    (Char.ofNat n).toUpper.toUpper = (Char.ofNat n).toUpper ∧
    normDropped (Char.ofNat n).toUpper = normDropped (Char.ofNat n) := by decide

theorem ascii_upper_char {c : Char} (h : c.toNat < 128) : c.toUpper.toNat < 128 ∧
    c.toUpper.toUpper = c.toUpper ∧ normDropped c.toUpper = normDropped c := by
  have hspec := ascii_upper c.toNat h
  rwa [Char.ofNat_toNat] at hspec

theorem norm_upperText {value : Text} (h : ∀ c ∈ value, c.toNat < 128) :
    norm beyond (upperText beyond value) = norm beyond value := by
  induction value with
  | nil => rfl
  | cons c value ih =>
    obtain ⟨hlt, hupper, hdropped⟩ := ascii_upper_char (h c List.mem_cons_self)
    have hrest := ih fun d hd => h d (List.mem_cons_of_mem _ hd)
    have hone : norm beyond (upperText beyond [c]) = norm beyond [c] := by
      have hc : upperText beyond [c] = [c.toUpper] := by
        simp [upperText, upperChar, h c List.mem_cons_self]
      rw [hc, norm, norm, normalizeIdentifier, normalizeIdentifier, List.filter_cons,
        List.filter_cons, hdropped]
      by_cases hdrop : normDropped c = true
      · simp [hdrop]
      · simp [hdrop, upperChar, hlt, hupper, h c List.mem_cons_self]
    rw [← List.singleton_append, upperText_append, norm_append, norm_append, hone, hrest]

theorem norm_infix {value before after : Text} (h : ∀ c ∈ value, c.toNat < 128) :
    norm beyond value <:+: norm beyond (upperText beyond (before ++ (value ++ after))) := by
  rw [upperText_append, upperText_append, norm_append, norm_append, norm_upperText beyond h,
    ← List.append_assoc]
  exact List.infix_append _ _ _

end

/-! ## The token after a label -/

theorem toNat_of_tokenChar {c : Char} (h : tokenChar c = true) : c.toNat < 128 := by
  by_contra hlt
  have hge : 128 ≤ c.toNat := Nat.le_of_not_lt hlt
  have hne (d : Char) (hd : d.toNat < 128) : (c == d) = false := by
    rw [beq_eq_false_iff_ne]
    rintro rfl
    omega
  have halnum : isAlnum c = false := by
    refine Bool.eq_false_iff.2 fun halnum => ?_
    change ((decide ('A'.val ≤ c.val ∧ c.val ≤ 'Z'.val) ||
      (decide ('a'.val ≤ c.val) && decide (c.val ≤ 'z'.val))) ||
      (decide ('0'.val ≤ c.val) && decide (c.val ≤ '9'.val))) = true at halnum
    simp only [Bool.or_eq_true_iff, Bool.and_eq_true_iff, decide_eq_true_eq,
      UInt32.le_iff_toNat_le] at halnum
    have hval : c.val.toNat = c.toNat := rfl
    have hlast : 'Z'.val.toNat < 128 ∧ 'z'.val.toNat < 128 ∧ '9'.val.toNat < 128 := by decide
    omega
  rw [tokenChar, halnum, hne '.' (by decide), hne '/' (by decide), hne '_' (by decide),
    hne '#' (by decide), hne '-' (by decide)] at h
  exact Bool.false_ne_true h

theorem identifierToken_spec {window token : Text} (h : identifierToken window = some token) :
    token <+: window ∧ ∀ c ∈ token, tokenChar c = true := by
  cases window with
  | nil => cases h
  | cons c cs =>
    rw [identifierToken] at h
    split at h
    · rename_i hcond
      obtain rfl := Option.some.inj h
      refine ⟨List.cons_prefix_cons.2 ⟨rfl,
        (List.take_prefix _ _).trans (List.takeWhile_prefix _)⟩, ?_⟩
      rintro d (_ | ⟨_, hmem⟩)
      · simp [tokenChar, (Bool.and_eq_true_iff.1 hcond).1]
      · exact List.mem_takeWhile_imp (List.mem_of_mem_take hmem)
    · cases h

def gap (rest : Text) : Text := (rest.take labelToValueGap).takeWhile separator

theorem valueAfter_spec {rest value : Text} (h : valueAfter rest = some value) :
    rest = gap rest ++ (value ++ rest.drop ((gap rest).length + value.length)) ∧
      ∀ c ∈ value, c.toNat < 128 := by
  obtain ⟨token, htoken, rfl⟩ := Option.map_eq_some_iff.1 h
  obtain ⟨⟨left, hleft⟩, hchars⟩ := identifierToken_spec htoken
  obtain ⟨cut, hcut⟩ := List.rdropWhile_prefix trailing token
  have hrest : rest = gap rest ++
      (List.rdropWhile trailing token ++ (cut ++ (left ++ rest.drop labelToValueGap))) := by
    rw [← List.append_assoc (List.rdropWhile trailing token), hcut, ← List.append_assoc token,
      hleft, ← List.append_assoc, gap, List.takeWhile_append_dropWhile, List.take_append_drop]
  refine ⟨?_, fun c hc => ?_⟩
  · have hlen : (gap rest).length + (List.rdropWhile trailing token).length =
        (gap rest ++ List.rdropWhile trailing token).length := List.length_append.symm
    have hdrop : (gap rest ++ (List.rdropWhile trailing token ++
        (cut ++ (left ++ rest.drop labelToValueGap)))).drop
          (gap rest ++ List.rdropWhile trailing token).length =
        cut ++ (left ++ rest.drop labelToValueGap) := by
      rw [← List.append_assoc, List.drop_left]
    rw [← hrest] at hdrop
    rw [hlen, hdrop]
    exact hrest
  · exact toNat_of_tokenChar (hchars c ((List.rdropWhile_prefix trailing token).subset hc))

/-! ## Offers -/

/-- A number a text offers, and for one behind a label what stands before it and after it. -/
structure Offer where
  kind : IdentifierKind
  value : Text
  place : Option (Text × Text)

def Offer.pair (offer : Offer) : IdentifierKind × Text := (offer.kind, offer.value)

/-- Where a value stands that is found after a label, of the text from there on. -/
def placeOf (text rest value : Text) : Text × Text :=
  (text.take (text.length - rest.length) ++ gap rest,
    rest.drop ((gap rest).length + value.length))

section
variable (decodeUtf8 : List UInt8 → Text) (beyond : Char → Text)
  (lower unescape : Text → Text) (netlocRaises : Text → Bool)

def labelOffers (text : Text) (entry : IdentifierKind × Regex Char) : List Offer :=
  (findAll (scanLabel entry.2) 0 text).filterMap fun rest =>
    ((valueAfter rest).filter (isValidIdentifier (upperChar beyond))).map fun value =>
      ⟨entry.1, value, some (placeOf text rest value)⟩

def linkOffers (text : Text) : List Offer :=
  (findAll scanUrl 0 text).filterMap fun url =>
    (shipmentNumberInUrl decodeUtf8 beyond lower unescape netlocRaises url).map fun value =>
      ⟨.trackingNumber, value, none⟩

def offers (text : Text) : List Offer :=
  labeledIdentifierPatterns.flatMap (labelOffers beyond text) ++
    linkOffers decodeUtf8 beyond lower unescape netlocRaises text

def IsFirst (offer : Offer) (all : List Offer) : Prop :=
  (all.find? fun other => decide (norm beyond other.value = norm beyond offer.value)) = some offer

theorem extract_eq (text : Text) :
    extractLabeledIdentifiers decodeUtf8 beyond lower unescape netlocRaises text =
      (((offers decodeUtf8 beyond lower unescape netlocRaises text).map Offer.pair).foldl
        (addFound beyond) ([], [])).1 := by
  have hlabels : labeledValues beyond text =
      fun entry => (labelOffers beyond text entry).map Offer.pair := by
    funext entry
    rw [labeledValues, labelOffers, List.map_filterMap]
    refine congrArg (fun f => List.filterMap f _) (funext fun rest => ?_)
    rw [Option.map_map]
    rfl
  have hlinks : linkValues decodeUtf8 beyond lower unescape netlocRaises text =
      (linkOffers decodeUtf8 beyond lower unescape netlocRaises text).map Offer.pair := by
    rw [linkValues, linkOffers, List.map_filterMap]
    refine congrArg (fun f => List.filterMap f _) (funext fun url => ?_)
    rw [Option.map_map]
    rfl
  rw [extractLabeledIdentifiers, hlabels, hlinks, offers, List.map_append, List.map_flatMap,
    List.foldl_append]

/-- Of the offers of one number the first is found, and each number once. -/
theorem foldl_addFound (all : List Offer) :
    let state := (all.map Offer.pair).foldl (addFound beyond) ([], [])
    state.2 = state.1.map (fun pair => norm beyond pair.2) ∧ state.2.Nodup ∧
      (∀ n, n ∈ state.2 ↔ ∃ offer ∈ all, norm beyond offer.value = n) ∧
      ∀ pair, pair ∈ state.1 ↔ ∃ offer ∈ all, IsFirst beyond offer all ∧ offer.pair = pair := by
  induction all using List.reverseRecOn with
  | nil => exact ⟨rfl, List.nodup_nil, by simp, by simp⟩
  | append_singleton all last ih =>
    obtain ⟨hmap, hnodup, hnorms, hpairs⟩ := ih
    rw [List.map_append, List.foldl_append]
    set state := (all.map Offer.pair).foldl (addFound beyond) ([], [])
    -- an offer that comes before the last one is first with it or without it
    have hbefore : ∀ offer ∈ all, IsFirst beyond offer (all ++ [last]) ↔
        IsFirst beyond offer all := by
      intro offer hoffer
      have hsome : (all.find? fun other =>
          decide (norm beyond other.value = norm beyond offer.value)).isSome = true :=
        List.find?_isSome.2 ⟨offer, hoffer, decide_eq_true rfl⟩
      rw [IsFirst, IsFirst, List.find?_append, Option.or_of_isSome hsome]
    have hlast : ∀ offer, IsFirst beyond offer all → offer ∈ all :=
      fun offer hfirst => List.mem_of_find?_eq_some hfirst
    by_cases hseen : norm beyond last.value ∈ state.2
    · have hstep : addFound beyond state last.pair = state := by
        rw [addFound, if_pos]
        exact List.any_eq_true.2 ⟨_, hseen, decide_eq_true rfl⟩
      rw [List.map_singleton, List.foldl_cons, List.foldl_nil, hstep]
      refine ⟨hmap, hnodup, fun n => (hnorms n).trans ?_, fun pair => (hpairs pair).trans ?_⟩
      · constructor
        · rintro ⟨offer, hoffer, hn⟩
          exact ⟨offer, List.mem_append_left _ hoffer, hn⟩
        · rintro ⟨offer, hoffer, rfl⟩
          rcases List.mem_append.1 hoffer with hoffer | hoffer
          · exact ⟨offer, hoffer, rfl⟩
          · rw [List.mem_singleton.1 hoffer]
            exact (hnorms _).1 hseen
      · constructor
        · rintro ⟨offer, hoffer, hfirst, hpair⟩
          exact ⟨offer, List.mem_append_left _ hoffer, (hbefore offer hoffer).2 hfirst, hpair⟩
        · rintro ⟨offer, hoffer, hfirst, hpair⟩
          have hmem : offer ∈ all := by
            rcases List.mem_append.1 hoffer with hoffer | hoffer
            · exact hoffer
            · obtain ⟨other, hother, hnorm⟩ := (hnorms _).1 hseen
              obtain rfl := List.mem_singleton.1 hoffer
              rw [IsFirst, List.find?_append, Option.or_of_isSome
                (List.find?_isSome.2 ⟨other, hother, decide_eq_true hnorm⟩)] at hfirst
              exact hlast _ hfirst
          exact ⟨offer, hmem, (hbefore offer hmem).1 hfirst, hpair⟩
    · have hstep : addFound beyond state last.pair =
          (state.1 ++ [last.pair], state.2 ++ [norm beyond last.value]) := by
        rw [addFound, if_neg]
        · rfl
        · intro hany
          obtain ⟨n, hn, heq⟩ := List.any_eq_true.1 hany
          have hnorm : n = norm beyond last.value := of_decide_eq_true heq
          exact hseen (hnorm ▸ hn)
      rw [List.map_singleton, List.foldl_cons, List.foldl_nil, hstep]
      have hnone : (all.find? fun other =>
          decide (norm beyond other.value = norm beyond last.value)) = none :=
        List.find?_eq_none.2 fun other hother heq =>
          hseen ((hnorms _).2 ⟨other, hother, of_decide_eq_true heq⟩)
      have hfirst : IsFirst beyond last (all ++ [last]) := by
        rw [IsFirst, List.find?_append, hnone]
        simp
      refine ⟨by rw [hmap, List.map_append]; rfl, ?_, fun n => ?_, fun pair => ?_⟩
      · exact List.nodup_append.2 ⟨hnodup, List.nodup_singleton _,
          fun a ha b hb => by rintro rfl; exact hseen (List.mem_singleton.1 hb ▸ ha)⟩
      · rw [List.mem_append, hnorms, List.mem_singleton]
        constructor
        · rintro (⟨offer, hoffer, hn⟩ | rfl)
          · exact ⟨offer, List.mem_append_left _ hoffer, hn⟩
          · exact ⟨last, List.mem_append_right _ (List.mem_singleton_self _), rfl⟩
        · rintro ⟨offer, hoffer, rfl⟩
          rcases List.mem_append.1 hoffer with hoffer | hoffer
          · exact .inl ⟨offer, hoffer, rfl⟩
          · exact .inr (by rw [List.mem_singleton.1 hoffer])
      · rw [List.mem_append, hpairs, List.mem_singleton]
        constructor
        · rintro (⟨offer, hoffer, hof, hpair⟩ | rfl)
          · exact ⟨offer, List.mem_append_left _ hoffer, (hbefore offer hoffer).2 hof, hpair⟩
          · exact ⟨last, List.mem_append_right _ (List.mem_singleton_self _), hfirst, rfl⟩
        · rintro ⟨offer, hoffer, hof, rfl⟩
          rcases List.mem_append.1 hoffer with hoffer | hoffer
          · exact .inl ⟨offer, hoffer, (hbefore offer hoffer).1 hof, rfl⟩
          · exact .inr (by rw [List.mem_singleton.1 hoffer])

/-! ## Finding again -/

/-- The value of a known parameter of a link in the text. -/
def LinkValue (value text : Text) : Prop :=
  ∃ url ∈ findAll scanUrl 0 text, ∃ param ∈ linkParams decodeUtf8 unescape netlocRaises url,
    shipmentParam.fullmatch (lower param.1) = true ∧ strip param.2 = value

/-- Each number taken out of the text is valid and a whole token of it or a link's value, the
numbers are distinct, and each is found in the text. -/
def FoundAgain (text : Text) : Prop :=
  (∀ pair ∈ extractLabeledIdentifiers decodeUtf8 beyond lower unescape netlocRaises text,
    isValidIdentifier (upperChar beyond) pair.2 = true ∧
    (StandsWhole pair.2 text ∨
      LinkValue decodeUtf8 lower unescape netlocRaises pair.2 text) ∧
    numberMatches beyond pair.2 (norm beyond pair.2) (upperText beyond text)
      (norm beyond (upperText beyond text)) = true) ∧
  ((extractLabeledIdentifiers decodeUtf8 beyond lower unescape netlocRaises text).map
    fun pair => norm beyond pair.2).Nodup

/-- Behind a label no letter or digit touches the number, or it stands whole elsewhere or is a
link's; and it is long, or nothing touches it in upper case either. A link's number stands in the
text as it is decoded, or is long and does so in normal form. -/
def Offer.Good (text : Text) (offer : Offer) : Prop :=
  match offer.place with
  | some (before, after) =>
    (Apart before after ∨ OtherPlace offer.value text before ∨
      LinkValue decodeUtf8 lower unescape netlocRaises offer.value text) ∧
    (8 ≤ (norm beyond offer.value).length ∨
      Apart (upperText beyond before) (upperText beyond after) ∨
      OtherPlace (upperText beyond offer.value) (upperText beyond text) (upperText beyond before))
  | none =>
    StandsWhole (upperText beyond offer.value) (upperText beyond text) ∨
      8 ≤ (norm beyond offer.value).length ∧
        norm beyond offer.value <:+: norm beyond (upperText beyond text)

theorem numberMatches_iff (value text : Text) :
    numberMatches beyond value (norm beyond value) (upperText beyond text)
        (norm beyond (upperText beyond text)) = true ↔
      StandsWhole (upperText beyond value) (upperText beyond text) ∨
        8 ≤ (norm beyond value).length ∧
          norm beyond value <:+: norm beyond (upperText beyond text) := by
  rw [numberMatches, Bool.or_eq_true_iff, Bool.and_eq_true_iff, decide_eq_true_iff,
    decide_eq_true_iff, wholeWord_none_iff]

theorem mem_labelOffers {text : Text} {entry : IdentifierKind × Regex Char} {offer : Offer}
    (h : offer ∈ labelOffers beyond text entry) :
    ∃ before after, offer.place = some (before, after) ∧
      text = before ++ (offer.value ++ after) ∧
      isValidIdentifier (upperChar beyond) offer.value = true ∧
      ∀ c ∈ offer.value, c.toNat < 128 := by
  obtain ⟨rest, hrest, hoffer⟩ := List.mem_filterMap.1 h
  obtain ⟨value, hvalue, rfl⟩ := Option.map_eq_some_iff.1 hoffer
  obtain ⟨hafter, hvalid⟩ := Option.filter_eq_some_iff.1 hvalue
  obtain ⟨hsplit, hascii⟩ := valueAfter_spec hafter
  obtain ⟨place, n, hplace, hscan⟩ := exists_of_mem_findAll hrest
  obtain ⟨rest', hmatch, heq⟩ := Option.map_eq_some_iff.1 hscan
  obtain ⟨rfl, -⟩ := Prod.mk.inj heq
  obtain ⟨before, hbefore⟩ := (Regex.matchRest_suffix hmatch).trans hplace
  refine ⟨_, _, rfl, ?_, hvalid, hascii⟩
  have htake : text.take (text.length - rest'.length) = before := by
    rw [← hbefore, List.length_append, Nat.add_sub_cancel, List.take_left]
  rw [htake, List.append_assoc, ← hsplit, hbefore]

theorem isValidIdentifier_strip (value : Text) :
    isValidIdentifier (upperChar beyond) (strip value) =
      isValidIdentifier (upperChar beyond) value := by
  rw [isValidIdentifier, isValidIdentifier, strip_strip]

theorem mem_linkOffers {text : Text} {offer : Offer}
    (h : offer ∈ linkOffers decodeUtf8 beyond lower unescape netlocRaises text) :
    offer.place = none ∧ isValidIdentifier (upperChar beyond) offer.value = true ∧
      LinkValue decodeUtf8 lower unescape netlocRaises offer.value text := by
  obtain ⟨url, hurl, hoffer⟩ := List.mem_filterMap.1 h
  obtain ⟨value, hvalue, rfl⟩ := Option.map_eq_some_iff.1 hoffer
  obtain ⟨param, hparam, rfl⟩ := Option.map_eq_some_iff.1 hvalue
  have hboth := List.find?_some hparam
  obtain ⟨hname, hvalid⟩ := Bool.and_eq_true_iff.1 hboth
  refine ⟨rfl, ?_, url, hurl, param, List.mem_of_find?_eq_some hparam, hname, rfl⟩
  rw [isValidIdentifier_strip]
  exact hvalid

theorem good_iff {text : Text} {offer : Offer}
    (h : offer ∈ offers decodeUtf8 beyond lower unescape netlocRaises text) :
    (isValidIdentifier (upperChar beyond) offer.value = true ∧
      (StandsWhole offer.value text ∨
        LinkValue decodeUtf8 lower unescape netlocRaises offer.value text) ∧
      numberMatches beyond offer.value (norm beyond offer.value) (upperText beyond text)
        (norm beyond (upperText beyond text)) = true) ↔
      offer.Good decodeUtf8 beyond lower unescape netlocRaises text := by
  rw [numberMatches_iff]
  rcases List.mem_append.1 h with hlabel | hlink
  · obtain ⟨entry, -, hentry⟩ := List.mem_flatMap.1 hlabel
    obtain ⟨before, after, hplace, htext, hvalid, hascii⟩ := mem_labelOffers beyond hentry
    have hupper : upperText beyond text = upperText beyond before ++
        (upperText beyond offer.value ++ upperText beyond after) := by
      rw [← upperText_append, ← upperText_append, ← htext]
    have hinfix : norm beyond offer.value <:+: norm beyond (upperText beyond text) := by
      rw [htext]
      exact norm_infix beyond hascii
    rw [Offer.Good, hplace]
    rw [standsWhole_iff htext, standsWhole_iff hupper]
    constructor
    · rintro ⟨-, hwhole, hfound⟩
      refine ⟨or_assoc.1 hwhole, ?_⟩
      rcases hfound with hfound | ⟨hlong, -⟩
      · exact .inr hfound
      · exact .inl hlong
    · rintro ⟨hwhole, hfound⟩
      refine ⟨hvalid, or_assoc.2 hwhole, ?_⟩
      rcases hfound with hlong | hfound
      · exact .inr ⟨hlong, hinfix⟩
      · exact .inl hfound
  · obtain ⟨hplace, hvalid, hvalue⟩ :=
      mem_linkOffers decodeUtf8 beyond lower unescape netlocRaises hlink
    rw [Offer.Good, hplace]
    constructor
    · rintro ⟨-, -, hfound⟩
      exact hfound
    · exact fun hfound => ⟨hvalid, .inr hvalue, hfound⟩

/-- **The extracted numbers are found again** exactly when the first offer of each number is
good. -/
theorem found_again_iff (text : Text) :
    FoundAgain decodeUtf8 beyond lower unescape netlocRaises text ↔
      ∀ offer ∈ offers decodeUtf8 beyond lower unescape netlocRaises text,
        IsFirst beyond offer (offers decodeUtf8 beyond lower unescape netlocRaises text) →
        offer.Good decodeUtf8 beyond lower unescape netlocRaises text := by
  obtain ⟨hmap, hnodup, -, hpairs⟩ :=
    foldl_addFound beyond (offers decodeUtf8 beyond lower unescape netlocRaises text)
  rw [← extract_eq] at hmap hpairs
  rw [hmap] at hnodup
  rw [FoundAgain]
  constructor
  · rintro ⟨hall, -⟩ offer hoffer hfirst
    exact (good_iff decodeUtf8 beyond lower unescape netlocRaises hoffer).1
      (hall offer.pair ((hpairs _).2 ⟨offer, hoffer, hfirst, rfl⟩))
  · intro hgood
    refine ⟨fun pair hpair => ?_, hnodup⟩
    obtain ⟨offer, hoffer, hfirst, rfl⟩ := (hpairs pair).1 hpair
    exact (good_iff decodeUtf8 beyond lower unescape netlocRaises hoffer).2
      (hgood offer hoffer hfirst)

end

/-! ## What the window cuts -/

def farNumber : Text := "Order number:".toList ++ List.replicate 33 ' ' ++ "12345678".toList

/-- The window ends two digits before the number does; what is taken is not found. -/
theorem far_number_is_not_found :
    ¬ FoundAgain (fun bytes => bytes.map fun b => Char.ofNat b.toNat) (fun c => [c])
      (List.map Char.toLower) id (fun _ => false) farNumber := by
  rintro ⟨hall, -⟩
  obtain ⟨-, -, hfound⟩ := hall (.orderNumber, "123456".toList) (by decide +kernel)
  exact absurd hfound (by decide +kernel)

end MailVerdict.Analysis.FoundNumbers
