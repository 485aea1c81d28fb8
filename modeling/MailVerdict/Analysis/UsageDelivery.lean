import Mathlib.Data.List.ReduceOption
import Mathlib.Data.List.TakeWhile
import MailVerdict.Analysis.UsageCursor

/-!
# That the usage export loses nothing

The stored position, and the one each pass has, are passed: every row at or below one has
its document in the stream, and no transaction that is open has an id at or below it. A
batch is complete up to each of its rows, so that a request moves the position past the
documents that were delivered before the first refusal and past nothing else
(`Inv.post`). What a crash, a lost answer or an older pass makes of the stored position is
again a passed one.

Where a transaction waits between its beginning and its insert, the settle time is not
enough on its own: `late_commit_is_passed`.
-/

namespace MailVerdict.Analysis.UsageDelivery

open MailVerdict.Computation
open Model.UsageExport Analysis.UsageCursor

variable {stream : List Entry} {n : ℕ} {rows : List LlmUsage} {p : Pass}

variable {c : Config} {lag hold : Time} {s t : State} {l : Label}

/-! ### Document ids -/

theorem documentId_inj {r r' : LlmUsage} : documentId r = documentId r' ↔ r.id = r'.id := by
  constructor
  · intro h
    have htail : Nat.toDigits 10 r.id = Nat.toDigits 10 r'.id := by
      simpa [documentId] using congrArg String.toList h
    rw [← Nat.ofDigitChars_ten_toDigits (n := r.id), htail, Nat.ofDigitChars_ten_toDigits]
  · intro h
    rw [documentId, documentId, h]

/-! ### Requests -/

section Requests

variable {K : LlmUsage → Prop}

def From (K : LlmUsage → Prop) (stream : List Entry) : Prop :=
  ∀ e ∈ stream, ∃ r, K r ∧ e = entry r

theorem create_subset (stream : List Entry) (row : LlmUsage) (refusal : Option Item) :
    stream ⊆ (create stream row refusal).1 := by
  unfold create
  split
  · exact List.Subset.refl _
  · split
    · exact List.Subset.refl _
    · exact List.subset_append_left _ _

theorem create_from (h : From K stream) {row : LlmUsage} (hrow : K row)
    (refusal : Option Item) : From K (create stream row refusal).1 := by
  unfold create
  split
  · exact h
  · split
    · exact h
    · intro e he
      obtain he | he := List.mem_append.1 he
      · exact h e he
      · obtain rfl := List.mem_singleton.1 he
        exact ⟨row, hrow, rfl⟩

theorem create_delivers (hunique : ∀ r r', K r → K r' → r.id = r'.id → r = r') (h : From K stream) {row : LlmUsage} (hrow : K row)
    {refusal : Option Item} (hrefusal : ∀ item ∈ refusal, item.refused = true)
    (haccepted : (create stream row refusal).2.refused = false) :
    entry row ∈ (create stream row refusal).1 := by
  unfold create at haccepted ⊢
  cases refusal with
  | some item => simp [hrefusal item rfl] at haccepted
  | none =>
    dsimp only
    split
    · next hany =>
      obtain ⟨e, he, hid⟩ := List.any_eq_true.1 hany
      obtain ⟨r, hr, rfl⟩ := h e he
      have hsame : r = row := hunique r row hr hrow (documentId_inj.1 (of_decide_eq_true hid))
      rw [← hsame]
      exact he
    · exact List.mem_append_right _ (List.mem_singleton.2 rfl)

theorem createAll_subset (stream : List Entry) (pairs : List (LlmUsage × Option Item)) :
    stream ⊆ (createAll stream pairs).1 := by
  induction pairs generalizing stream with
  | nil => exact List.Subset.refl _
  | cons pair rest ih => exact fun _ he => ih _ (create_subset stream pair.1 pair.2 he)

theorem createAll_from (h : From K stream)
    {pairs : List (LlmUsage × Option Item)} (hrows : ∀ p ∈ pairs, K p.1) :
    From K (createAll stream pairs).1 := by
  induction pairs generalizing stream with
  | nil => exact h
  | cons pair rest ih =>
    exact ih (create_from h (hrows pair List.mem_cons_self) pair.2)
      fun p hp => hrows p (List.mem_cons_of_mem pair hp)

theorem createAll_delivers (hunique : ∀ r r', K r → K r' → r.id = r'.id → r = r') (h : From K stream) {pairs : List (LlmUsage × Option Item)}
    (hrows : ∀ p ∈ pairs, K p.1) (hrefusals : ∀ p ∈ pairs, ∀ item ∈ p.2, item.refused = true) (haccepted : ∀ item ∈ (createAll stream pairs).2.take n, item.refused = false) :
    ∀ p ∈ pairs.take n, entry p.1 ∈ (createAll stream pairs).1 := by
  induction pairs generalizing stream n with
  | nil => simp
  | cons pair rest ih =>
    cases n with
    | zero => simp
    | succ n =>
      intro p hp
      rw [List.take_succ_cons, List.mem_cons] at hp
      simp only [createAll, List.take_succ_cons, List.mem_cons] at haccepted
      obtain rfl | hp := hp
      · have hhead := create_delivers hunique h (hrows p List.mem_cons_self)
          (hrefusals p List.mem_cons_self) (haccepted _ (Or.inl rfl))
        exact createAll_subset _ rest hhead
      · exact ih (create_from h (hrows pair List.mem_cons_self) pair.2)
          (fun q hq => hrows q (List.mem_cons_of_mem pair hq))
          (fun q hq => hrefusals q (List.mem_cons_of_mem pair hq))
          (fun item hitem => haccepted item (Or.inr hitem)) p hp

theorem bulk_accepted (rows : List LlmUsage) (items : List Item) (fate : Fate) :
    ∀ item ∈ items.take (bulk rows (State.Fate.response items fate)).1, item.refused = false := by
  cases fate with
  | lost error => simp [State.Fate.response, bulk]
  | arrives statusCode text count =>
    by_cases hcode : 400 ≤ statusCode
    · simp [State.Fate.response, bulk, hcode]
    · have hcount : (bulk rows (State.Fate.response items (.arrives statusCode text count))).1 =
          ((items.take count).takeWhile fun item => !item.refused).length := by
        simp only [State.Fate.response, bulk, hcode, if_false]
        split
        · rfl
        · split <;> rfl
      rw [hcount]
      have hstart : ((items.take count).takeWhile fun item => !item.refused) <+: items :=
        ( List.takeWhile_prefix _).trans ( List.take_prefix _ _)
      rw [← List.prefix_iff_eq_take.1 hstart]
      intro item hitem
      simpa using List.mem_takeWhile_imp hitem

end Requests

/-! ### What is passed -/

/-- All that is at or below `p` has been delivered, and nothing more will be there. -/
structure Passed (s : State) (p : ℕ) : Prop where
  delivered : ∀ r ∈ s.rows.rows, r.id ≤ p → entry r ∈ s.stream
  beyond : ∀ i ∈ s.inserts, ∀ n, i.id = some n → p < n
  bound : p < s.nextId

/-- The rows of a batch are in order, and no row between the position and one of them is
missing or yet to come. -/
structure Batch (s : State) (p : ℕ) (rows : List LlmUsage) : Prop where
  known : ∀ r ∈ rows, Known s r
  sorted : rows.Pairwise fun a b => a.id < b.id
  complete : ∀ r ∈ rows, ∀ x ∈ s.rows.rows, p < x.id → x.id ≤ r.id → x ∈ rows
  beyond : ∀ r ∈ rows, ∀ i ∈ s.inserts, ∀ n, i.id = some n → r.id < n

def PhaseOk (s : State) (p : Pass) : Prop :=
  match p.phase with
  | .opened now => now ≤ s.clock
  | .sending rows => Batch s p.position rows
  | _ => True

structure Inv (s : State) : Prop where
  stream : From (Known s) s.stream
  sent : ∀ x ∈ s.sent, Known s x.1 ∧ x.2 = documentId x.1
  stored : Passed s s.position
  passes : ∀ p ∈ s.passes, Passed s p.position ∧ PhaseOk s p

def Bounded (s : State) : Prop := ∀ r, Known s r → r.id < s.nextId

/-- What any step may do to what is passed: documents stay, rows come from open transactions
and ids from the sequence. -/
structure Later (s t : State) : Prop where
  clock : s.clock ≤ t.clock
  nextId : s.nextId ≤ t.nextId
  inserts : ∀ i ∈ t.inserts, ∀ n, i.id = some n → i ∈ s.inserts ∨ n = s.nextId
  rows : ∀ r ∈ t.rows.rows, r ∈ s.rows.rows ∨ ∃ i ∈ s.inserts, i.id = some r.id
  stream : s.stream ⊆ t.stream
  known : ∀ r, Known s r → Known t r

theorem Later.of_eq (hclock : t.clock = s.clock) (hnext : t.nextId = s.nextId)
    (hinserts : t.inserts = s.inserts) (hrows : t.rows = s.rows)
    (hpruned : t.pruned = s.pruned) (hstream : s.stream ⊆ t.stream) : Later s t where
  clock := hclock.ge
  nextId := hnext.ge
  inserts _ hi _ _ := Or.inl (hinserts ▸ hi)
  rows _ hr := Or.inl (hrows ▸ hr)
  stream := hstream
  known r hr := by rwa [Known, hrows, hpruned]

theorem Passed.later {p : ℕ} (h : Passed s p) (hlater : Later s t) : Passed t p where
  delivered r hr hle := by
    obtain hold | ⟨i, hi, hn⟩ := hlater.rows r hr
    · exact hlater.stream (h.delivered r hold hle)
    · exact absurd (h.beyond i hi r.id hn) (not_lt.2 hle)
  beyond i hi n hn := by
    obtain hold | rfl := hlater.inserts i hi n hn
    · exact h.beyond i hold n hn
    · exact h.bound
  bound := h.bound.trans_le hlater.nextId

theorem Batch.later {p : ℕ} (h : Batch s p rows)
    (hbound : Bounded s) (hlater : Later s t) : Batch t p rows where
  known r hr := hlater.known r (h.known r hr)
  sorted := h.sorted
  complete r hr x hx hlt hle := by
    obtain hold | ⟨i, hi, hn⟩ := hlater.rows x hx
    · exact h.complete r hr x hold hlt hle
    · exact absurd (h.beyond r hr i hi x.id hn) (not_lt.2 hle)
  beyond r hr i hi n hn := by
    obtain hold | rfl := hlater.inserts i hi n hn
    · exact h.beyond r hr i hold n hn
    · exact hbound r (h.known r hr)

theorem PhaseOk.later (h : PhaseOk s p) (hbound : Bounded s)
    (hlater : Later s t) : PhaseOk t p := by
  unfold PhaseOk at h ⊢
  split
  · next now hphase =>
    rw [hphase] at h
    exact h.trans hlater.clock
  · next rows hphase =>
    rw [hphase] at h
    exact h.later hbound hlater
  · trivial

theorem From.later (h : From (Known s) s.stream) (hlater : Later s t)
    (hsame : t.stream = s.stream) : From (Known t) t.stream := by
  intro e he
  rw [hsame] at he
  obtain ⟨r, hr, rfl⟩ := h e he
  exact ⟨r, hlater.known r hr, rfl⟩

/-- The invariant after a step that sends nothing: what it says of the stored position and
of the passes that the step changed is left to show. -/
theorem Inv.later (h : Inv s) (hbound : Bounded s) (hlater : Later s t)
    (hstream : t.stream = s.stream) (hsent : t.sent = s.sent)
    (hstored : Passed s t.position)
    (hpasses : ∀ p ∈ t.passes, p ∈ s.passes ∨ Passed s p.position ∧ PhaseOk s p) : Inv t where
  stream := h.stream.later hlater hstream
  sent x hx := by
    obtain ⟨hknown, hid⟩ := h.sent x (hsent ▸ hx)
    exact ⟨hlater.known x.1 hknown, hid⟩
  stored := hstored.later hlater
  passes p hp := by
    have hok : Passed s p.position ∧ PhaseOk s p := by
      obtain hold | hok := hpasses p hp
      · exact h.passes p hold
      · exact hok
    exact ⟨hok.1.later hlater, hok.2.later hbound hlater⟩

/-! ### Transactions -/

theorem later_takeId (i : Insert) : Later s (s.takeId i) where
  clock := le_rfl
  nextId := Nat.le_succ _
  inserts j hj n hn := by
    obtain rfl | hj := List.mem_cons.1 hj
    · exact Or.inr (Option.some.inj hn).symm
    · exact Or.inl (List.mem_of_mem_erase hj)
  rows r hr := Or.inl hr
  stream := List.Subset.refl _
  known r hr := hr

theorem later_commit {i : Insert} (hi : i ∈ s.inserts) (hn : i.id = some n)
    (hcommit : s.commit i n = some t) :
    Later s t ∧ t.stream = s.stream ∧ t.sent = s.sent ∧ t.position = s.position ∧
      t.passes = s.passes := by
  unfold State.commit at hcommit
  split at hcommit
  · next hnew =>
    cases hcommit
    refine ⟨⟨le_rfl, le_rfl, fun j hj m hm => Or.inl (List.mem_of_mem_erase hj), fun r hr => ?_,
      List.Subset.refl _, fun r hr => ?_⟩, rfl, rfl, rfl, rfl⟩
    · obtain hr | rfl := (KeyedTable.mem_insert hnew).1 hr
      · exact Or.inl hr
      · exact Or.inr ⟨i, hi, hn⟩
    · obtain hr | hr := hr
      · exact Or.inl ((KeyedTable.mem_insert hnew).2 (Or.inl hr))
      · exact Or.inr hr
  · cases hcommit

theorem later_prune (startedAt : Time) : Later s (s.prune c startedAt) where
  clock := le_rfl
  nextId := le_rfl
  inserts _ hi _ _ := Or.inl hi
  rows _ hr := Or.inl (KeyedTable.mem_filter.1 hr).1
  stream := List.Subset.refl _
  known r hr := (known_prune startedAt r).2 hr

/-! ### Passes -/

theorem sorted_after (s : State) (p : ℕ) :
    ((s.rows.rows.filter fun r => decide (p < r.id)).insertionSort fun a b => a.id ≤ b.id).Pairwise
      fun a b => a.id < b.id := by
  have hle := List.pairwise_insertionSort (fun a b : LlmUsage => a.id ≤ b.id)
    (s.rows.rows.filter fun r => decide (p < r.id))
  have hnodup : ((s.rows.rows.filter fun r => decide (p < r.id)).insertionSort
      fun a b => a.id ≤ b.id).Pairwise fun a b => a.id ≠ b.id := by
    rw [← List.pairwise_map]
    exact ((List.perm_insertionSort _ _).map LlmUsage.id).nodup_iff.2
      (s.rows.primaryKey.sublist (List.filter_sublist.map LlmUsage.id))
  exact (hle.and hnodup).imp fun h => lt_of_le_of_ne h.1 h.2

theorem mem_of_initial {all : List LlmUsage} (hstart : rows <+: all)
    (hsorted : all.Pairwise fun a b => a.id < b.id) {r x : LlmUsage} (hr : r ∈ rows)
    (hx : x ∈ all) (hle : x.id ≤ r.id) : x ∈ rows := by
  obtain ⟨rest, rfl⟩ := hstart
  obtain hx | hx := List.mem_append.1 hx
  · exact hx
  · exact absurd ((List.pairwise_append.1 hsorted).2.2 r hr x hx) (not_lt.2 hle)

theorem settledBatch_ok (hnumbering : Numbering lag hold s) (hsettle : lag + hold < rowSettle)
    {now : Time} (hnow : now ≤ s.clock) (p limit : ℕ) :
    Batch s p (s.settledBatch now p limit) := by
  have hstart : s.settledBatch now p limit <+:
      (s.rows.rows.filter fun r => decide (p < r.id)).insertionSort fun a b => a.id ≤ b.id :=
    ( List.takeWhile_prefix _).trans ( List.take_prefix _ _)
  have hmem : ∀ r ∈ s.settledBatch now p limit, r ∈ s.rows.rows := fun r hr =>
    (List.mem_filter.1 ((List.mem_insertionSort _).1 (hstart.subset hr))).1
  refine ⟨fun r hr => Or.inl (hmem r hr), (sorted_after s p).sublist hstart.sublist, ?_, ?_⟩
  · intro r hr x hx hlt hle
    refine mem_of_initial hstart (sorted_after s p) hr ?_ hle
    exact (List.mem_insertionSort _).2 (List.mem_filter.2 ⟨hx, decide_eq_true hlt⟩)
  · intro r hr i hi n hn
    have hsettled : r.createdAt + rowSettle ≤ now := by
      simpa using List.mem_takeWhile_imp hr
    exact hnumbering.lower_of_settled hsettle hnow (hmem r hr) hsettled hi hn

theorem Batch.advance {p k q : ℕ} (h : Batch s p rows) (hpassed : Passed s p) (hbound : Bounded s)
    (hstream : ∀ r ∈ rows.take k, entry r ∈ s.stream)
    (hadvance : State.advance p rows k = some q) : Passed s q := by
  cases k with
  | zero =>
    cases hadvance
    exact hpassed
  | succ k =>
    obtain ⟨r, hget, rfl⟩ := Option.map_eq_some_iff.1 hadvance
    have hr : r ∈ rows := List.mem_of_getElem? hget
    have hlast : r ∈ rows.take (k + 1) := by
      rw [List.take_add_one, hget]
      simp
    refine ⟨fun x hx hle => ?_, fun i hi n hn => h.beyond r hr i hi n hn, hbound r (h.known r hr)⟩
    by_cases hold : x.id ≤ p
    · exact hpassed.delivered x hx hold
    · have hmem := h.complete r hr x hx (not_le.1 hold) hle
      exact hstream x (mem_of_initial ( List.take_prefix _ _) h.sorted hlast hmem hle)

theorem mem_setPass {q : Pass} (hq : q ∈ (s.setPass n p).passes) :
    q ∈ s.passes ∨ q = p := List.mem_or_eq_of_mem_set hq

theorem mem_endPass {q : Pass} (hq : q ∈ (s.endPass n).passes) : q ∈ s.passes :=
  List.mem_of_mem_eraseIdx hq

theorem later_setPass (n : ℕ) (p : Pass) : Later s (s.setPass n p) :=
  .of_eq rfl rfl rfl rfl rfl (List.Subset.refl _)

theorem later_endPass (n : ℕ) : Later s (s.endPass n) :=
  .of_eq rfl rfl rfl rfl rfl (List.Subset.refl _)

theorem Inv.setPass (h : Inv s) (hbound : Bounded s) (n : ℕ)
    (hpassed : Passed s p.position) (hphase : PhaseOk s p) : Inv (s.setPass n p) := by
  refine h.later hbound (later_setPass n p) rfl rfl h.stored fun q hq => ?_
  obtain hold | rfl := mem_setPass hq
  · exact Or.inl hold
  · exact Or.inr ⟨hpassed, hphase⟩

theorem Inv.endPass (h : Inv s) (hbound : Bounded s) (n : ℕ) : Inv (s.endPass n) :=
  h.later hbound (later_endPass n) rfl rfl h.stored fun _ hq => Or.inl (mem_endPass hq)

theorem Inv.start (h : Inv s) (hbound : Bounded s) : Inv s.start := by
  have hposition : s.start.position = s.position := by
    unfold State.start State.position
    cases s.state <;> rfl
  refine h.later hbound (.of_eq rfl rfl rfl rfl rfl (List.Subset.refl _)) rfl rfl ?_ fun p hp => ?_
  · rw [hposition]
    exact h.stored
  · obtain hold | hnew := List.mem_append.1 hp
    · exact Or.inl hold
    · obtain rfl := List.mem_singleton.1 hnew
      exact Or.inr ⟨h.stored, trivial⟩

theorem Inv.continued (h : Inv s) (hbound : Bounded s) (n : ℕ)
    (hpassed : Passed s p.position) (continues : Bool) {state : Option UsageExportState}
    (hstate : Passed s ((state.map UsageExportState.lastId).getD 0)) :
    Inv (if continues then { s with state := state }.setPass n { p with phase := .idle }
      else { s with state := state }.endPass n) := by
  have hset : Inv { s with state := state } :=
    h.later hbound (.of_eq rfl rfl rfl rfl rfl (List.Subset.refl _)) rfl rfl hstate
      fun _ hq => Or.inl hq
  split
  · exact hset.setPass hbound n (hpassed.later
      (.of_eq rfl rfl rfl rfl rfl (List.Subset.refl _))) trivial
  · exact hset.endPass hbound n

theorem Inv.store (h : Inv s) (hbound : Bounded s) (n : ℕ)
    (hpassed : Passed s p.position) (error : Option String) (more : Bool)
    (loaded : Option UsageExportState) (now : Time) :
    Inv (s.store n p error more loaded now) := by
  have hstored := h.stored
  rw [State.position] at hstored
  unfold State.store
  cases loaded with
  | none =>
    cases hstate : s.state with
    | none =>
      refine h.continued hbound n hpassed (decide (error = none) && more) ?_
      change Passed s (if p.position = 0 then 0 else p.position)
      split
      · next hzero =>
        rw [← hzero]
        exact hpassed
      · exact hpassed
    | some current => exact h.endPass hbound n
  | some loaded =>
    refine h.continued hbound n hpassed (decide (error = none) && more) ?_
    cases hstate : s.state with
    | none =>
      rw [hstate] at hstored
      exact hstored
    | some current =>
      rw [hstate] at hstored
      change Passed s (if p.position = _ then current.lastId else p.position)
      split
      · exact hstored
      · exact hpassed

/-- **A request.** -/
theorem Inv.post (h : Inv s) (hbound : Bounded s)
    (hunique : ∀ r r', Known s r → Known s r' → r.id = r'.id → r = r') (n : ℕ) (hpassed : Passed s p.position)
    (hbatch : Batch s p.position rows) {refusals : List (Option Item)}
    (hlength : refusals.length = rows.length)
    (hrefusals : ∀ item ∈ refusals.reduceOption, item.refused = true) (fate : Fate) :
    Inv (s.post c n p rows refusals fate) := by
  have hfst : (rows.zip refusals).map Prod.fst = rows := List.map_fst_zip hlength.ge
  have hknown : ∀ q ∈ rows.zip refusals, Known s q.1 := fun q hq =>
    hbatch.known q.1 (List.of_mem_zip hq).1
  have hrefused : ∀ q ∈ rows.zip refusals, ∀ item ∈ q.2, item.refused = true := by
    intro q hq item hitem
    refine hrefusals item (List.reduceOption_mem_iff.2 ?_)
    rw [← Option.mem_def.1 hitem]
    exact (List.of_mem_zip hq).2
  -- the state after the request, before the pass moves on
  let u : State := { s with
    stream := (createAll s.stream (rows.zip refusals)).1
    sent := s.sent ++ rows.map fun r => (r, documentId r) }
  have hlater : Later s u := .of_eq rfl rfl rfl rfl rfl (createAll_subset _ _)
  have hu : Inv u := by
    refine ⟨createAll_from h.stream hknown, fun x hx => ?_, h.stored.later hlater, fun q hq => ?_⟩
    · obtain hx | hx := List.mem_append.1 hx
      · exact h.sent x hx
      · obtain ⟨r, hr, rfl⟩ := List.mem_map.1 hx
        exact ⟨hbatch.known r hr, rfl⟩
    · obtain ⟨hq, hphase⟩ := h.passes q hq
      exact ⟨hq.later hlater, hphase.later hbound hlater⟩
  unfold State.post
  dsimp only
  split
  · exact hu.endPass hbound n
  · next q hadvance =>
    refine hu.setPass hbound n ?_ trivial
    refine (hbatch.later hbound hlater).advance (hpassed.later hlater) hbound (fun r hr => ?_) hadvance
    have hall := createAll_delivers hunique h.stream hknown hrefused
      (bulk_accepted rows (createAll s.stream (rows.zip refusals)).2 fate)
    have hpair : r ∈ ((rows.zip refusals).take (bulk rows (State.Fate.response
        (createAll s.stream (rows.zip refusals)).2 fate)).1).map Prod.fst := by
      rw [List.map_take, hfst]
      exact hr
    obtain ⟨q, hq, rfl⟩ := List.mem_map.1 hpair
    exact hall q hq

/-! ### The system -/

def OfPass : Label → Prop
  | .start | .openBatch _ | .read _ | .post _ _ _ | .fetch _ | .store _ _ | .crash _ => True
  | _ => False

structure Untouched (s t : State) : Prop where
  clock : t.clock = s.clock
  nextId : t.nextId = s.nextId
  rows : t.rows = s.rows
  inserts : t.inserts = s.inserts
  pruned : t.pruned = s.pruned

theorem untouched_setPass (n : ℕ) (p : Pass) : Untouched s (s.setPass n p) := ⟨rfl, rfl, rfl, rfl, rfl⟩

theorem untouched_endPass (n : ℕ) : Untouched s (s.endPass n) := ⟨rfl, rfl, rfl, rfl, rfl⟩

theorem untouched_post (n : ℕ) (p : Pass) (rows : List LlmUsage) (refusals : List (Option Item))
    (fate : Fate) : Untouched s (s.post c n p rows refusals fate) := by
  unfold State.post
  dsimp only
  split <;> exact ⟨rfl, rfl, rfl, rfl, rfl⟩

theorem untouched_store (n : ℕ) (p : Pass) (error : Option String) (more : Bool)
    (loaded : Option UsageExportState) (now : Time) :
    Untouched s (s.store n p error more loaded now) := by
  unfold State.store
  cases loaded with
  | none =>
    cases s.state with
    | none =>
      split <;> exact ⟨rfl, rfl, rfl, rfl, rfl⟩
    | some current => exact untouched_endPass n
  | some loaded =>
    split <;> exact ⟨rfl, rfl, rfl, rfl, rfl⟩

theorem untouched_of_pass (hpass : OfPass l) (hstep : step c s l = some t) : Untouched s t := by
  cases l with
  | tick now => exact hpass.elim
  | beginInsert usage => exact hpass.elim
  | takeId i => exact hpass.elim
  | commit i => exact hpass.elim
  | rollback i => exact hpass.elim
  | prune startedAt => exact hpass.elim
  | start =>
    cases hstep
    exact ⟨rfl, rfl, rfl, rfl, rfl⟩
  | crash n =>
    obtain ⟨p, -, rfl⟩ := Option.map_eq_some_iff.1 hstep
    exact untouched_endPass n
  | openBatch n | fetch n =>
    obtain ⟨p, -, hstep⟩ := Option.bind_eq_some_iff.1 hstep
    split at hstep <;> cases hstep
    exact untouched_setPass n _
  | read n =>
    obtain ⟨p, -, hstep⟩ := Option.bind_eq_some_iff.1 hstep
    split at hstep <;> cases hstep
    split
    · exact untouched_endPass n
    · exact untouched_setPass n _
  | post n refusals fate =>
    obtain ⟨p, -, hstep⟩ := Option.bind_eq_some_iff.1 hstep
    split at hstep
    · obtain ⟨-, heq⟩ := Option.ite_none_right_eq_some.1 hstep
      cases heq
      exact untouched_post n p _ refusals fate
    · cases hstep
  | store n now =>
    obtain ⟨p, -, hstep⟩ := Option.bind_eq_some_iff.1 hstep
    split at hstep <;> cases hstep
    exact untouched_store n p _ _ _ now

theorem numbering_step (h : Numbering lag hold s) (htimely : Timely lag hold s l)
    (hstep : step c s l = some t) : Numbering lag hold t := by
  have hpass : OfPass l → Numbering lag hold t := fun hpass =>
    have hsame := untouched_of_pass hpass hstep
    h.congr hsame.rows hsame.pruned hsame.inserts hsame.nextId hsame.clock
  cases l with
  | tick now =>
    obtain ⟨hclock, heq⟩ := Option.ite_none_right_eq_some.1 hstep
    cases heq
    exact h.tick hclock htimely
  | beginInsert usage =>
    cases hstep
    exact h.beginInsert usage
  | takeId i =>
    obtain ⟨⟨hi, -⟩, heq⟩ := Option.ite_none_right_eq_some.1 hstep
    cases heq
    exact h.takeId hi htimely
  | commit i =>
    obtain ⟨hi, hstep⟩ := Option.ite_none_right_eq_some.1 hstep
    obtain ⟨n, hn, hcommit⟩ := Option.bind_eq_some_iff.1 hstep
    exact h.commit hi hn hcommit
  | rollback i =>
    obtain ⟨-, heq⟩ := Option.ite_none_right_eq_some.1 hstep
    cases heq
    exact h.rollback i
  | prune startedAt =>
    obtain ⟨-, heq⟩ := Option.ite_none_right_eq_some.1 hstep
    cases heq
    exact h.prune startedAt
  | start => exact hpass trivial
  | crash n => exact hpass trivial
  | openBatch n => exact hpass trivial
  | read n => exact hpass trivial
  | post n refusals fate => exact hpass trivial
  | fetch n => exact hpass trivial
  | store n now => exact hpass trivial

theorem mem_pruned_step {x : LlmUsage × Time} (hstep : step c s l = some t) (hx : x ∈ t.pruned) :
    x ∈ s.pruned ∨ x.1.createdAt + c.retention < x.2 := by
  have hpass : OfPass l → x ∈ s.pruned := fun hpass => (untouched_of_pass hpass hstep).pruned ▸ hx
  cases l with
  | prune startedAt =>
    obtain ⟨-, heq⟩ := Option.ite_none_right_eq_some.1 hstep
    cases heq
    obtain hold | hnew := List.mem_append.1 hx
    · exact Or.inl hold
    · obtain ⟨r, hr, rfl⟩ := List.mem_map.1 hnew
      refine Or.inr (not_le.1 fun hkept => ?_)
      simp [hkept] at hr
  | tick now | takeId i | rollback i =>
    obtain ⟨-, heq⟩ := Option.ite_none_right_eq_some.1 hstep
    cases heq
    exact Or.inl hx
  | beginInsert usage =>
    cases hstep
    exact Or.inl hx
  | commit i =>
    obtain ⟨-, hstep⟩ := Option.ite_none_right_eq_some.1 hstep
    obtain ⟨n, -, hcommit⟩ := Option.bind_eq_some_iff.1 hstep
    unfold State.commit at hcommit
    split at hcommit <;> cases hcommit
    exact Or.inl hx
  | start | crash n | openBatch n | read n | post n refusals fate
  | fetch n | store n now => exact Or.inl (hpass trivial)

/-- Every step keeps it, where a row is settled later than its id can come. -/
theorem inv_step (hsettle : lag + hold < rowSettle) (hnumbering : Numbering lag hold s)
    (h : Inv s) (hstep : step c s l = some t) : Inv t := by
  have hbound : Bounded s := fun r hr => hnumbering.bound r (Or.inl hr)
  cases l with
  | tick now =>
    obtain ⟨hclock, heq⟩ := Option.ite_none_right_eq_some.1 hstep
    cases heq
    exact h.later hbound ⟨hclock, le_rfl, fun i hi n _ => Or.inl hi, fun r hr => Or.inl hr,
      List.Subset.refl _, fun r hr => hr⟩ rfl rfl h.stored fun _ hq => Or.inl hq
  | beginInsert usage =>
    cases hstep
    refine h.later hbound ⟨le_rfl, le_rfl, fun i hi n hn => ?_, fun r hr => Or.inl hr,
      List.Subset.refl _, fun r hr => hr⟩ rfl rfl h.stored fun _ hq => Or.inl hq
    obtain rfl | hi := List.mem_cons.1 hi
    · cases hn
    · exact Or.inl hi
  | takeId i =>
    obtain ⟨⟨hi, -⟩, heq⟩ := Option.ite_none_right_eq_some.1 hstep
    cases heq
    exact h.later hbound (later_takeId i) rfl rfl h.stored fun _ hq => Or.inl hq
  | commit i =>
    obtain ⟨hi, hstep⟩ := Option.ite_none_right_eq_some.1 hstep
    obtain ⟨n, hn, hcommit⟩ := Option.bind_eq_some_iff.1 hstep
    obtain ⟨hlater, hstream, hsent, hposition, hpasses⟩ := later_commit hi hn hcommit
    refine h.later hbound hlater hstream hsent ?_ fun q hq => Or.inl (hpasses ▸ hq)
    rw [hposition]
    exact h.stored
  | rollback i =>
    obtain ⟨-, heq⟩ := Option.ite_none_right_eq_some.1 hstep
    cases heq
    exact h.later hbound ⟨le_rfl, le_rfl, fun j hj n _ => Or.inl (List.mem_of_mem_erase hj),
      fun r hr => Or.inl hr, List.Subset.refl _, fun r hr => hr⟩ rfl rfl h.stored
      fun _ hq => Or.inl hq
  | start =>
    cases hstep
    exact h.start hbound
  | prune startedAt =>
    obtain ⟨-, heq⟩ := Option.ite_none_right_eq_some.1 hstep
    cases heq
    exact h.later hbound (later_prune startedAt) rfl rfl h.stored fun _ hq => Or.inl hq
  | crash n =>
    obtain ⟨p, -, rfl⟩ := Option.map_eq_some_iff.1 hstep
    exact h.endPass hbound n
  | openBatch n =>
    obtain ⟨p, hp, hstep⟩ := Option.bind_eq_some_iff.1 hstep
    split at hstep <;> cases hstep
    exact h.setPass hbound n (h.passes p (List.mem_of_getElem? hp)).1 (le_refl s.clock)
  | read n =>
    obtain ⟨p, hp, hstep⟩ := Option.bind_eq_some_iff.1 hstep
    obtain ⟨hpassed, hphase⟩ := h.passes p (List.mem_of_getElem? hp)
    split at hstep
    · next now heq =>
      unfold PhaseOk at hphase
      rw [heq] at hphase
      cases hstep
      split
      · exact h.endPass hbound n
      · exact h.setPass hbound n hpassed
          (settledBatch_ok hnumbering hsettle hphase p.position c.batchSize)
    · cases hstep
  | post n refusals fate =>
    obtain ⟨p, hp, hstep⟩ := Option.bind_eq_some_iff.1 hstep
    obtain ⟨hpassed, hphase⟩ := h.passes p (List.mem_of_getElem? hp)
    split at hstep
    · next rows heq =>
      unfold PhaseOk at hphase
      rw [heq] at hphase
      obtain ⟨⟨hlength, hrefusals⟩, heq⟩ := Option.ite_none_right_eq_some.1 hstep
      cases heq
      exact h.post hbound (fun r r' hr hr' => hnumbering.unique r r' (Or.inl hr) (Or.inl hr')) n
        hpassed hphase hlength hrefusals fate
    · cases hstep
  | fetch n =>
    obtain ⟨p, hp, hstep⟩ := Option.bind_eq_some_iff.1 hstep
    split at hstep <;> cases hstep
    exact h.setPass hbound n (h.passes p (List.mem_of_getElem? hp)).1 trivial
  | store n now =>
    obtain ⟨p, hp, hstep⟩ := Option.bind_eq_some_iff.1 hstep
    split at hstep <;> cases hstep
    exact h.store hbound n (h.passes p (List.mem_of_getElem? hp)).1 _ _ _ now

theorem numbering_init (h : (system c).init s) : Numbering lag hold s := by
  obtain ⟨-, hrows, hinserts, -, -, -, -, hpruned⟩ := h
  have hnone : ∀ r, ¬ Numbered s r := by
    rintro r ((hr | hr) | ⟨i, hi, -⟩)
    · rw [hrows] at hr
      exact List.not_mem_nil hr
    · rw [hpruned] at hr
      exact List.not_mem_nil hr
    · rw [hinserts] at hi
      exact List.not_mem_nil hi
  refine ⟨by simp [hinserts], ?_, fun r hr => absurd hr (hnone r),
    fun r _ hr => absurd hr (hnone r), ?_, ?_⟩
  · simp [hinserts]
  · simp [hinserts]
  · simp [hinserts]

theorem inv_init (h : (system c).init s) : Inv s := by
  obtain ⟨hpos, hrows, hinserts, hstate, hpasses, hstream, hsent, -⟩ := h
  refine ⟨?_, ?_, ⟨?_, ?_, ?_⟩, ?_⟩
  · simp [From, hstream]
  · simp [hsent]
  · intro r hr
    rw [hrows] at hr
    exact absurd hr List.not_mem_nil
  · simp [hinserts]
  · simpa [State.position, hstate] using hpos
  · simp [hpasses]

theorem reachable_inv (hsettle : lag + hold < rowSettle)
    (h : (system c).Reachable (Timely lag hold) s) : Numbering lag hold s ∧ Inv s := by
  refine h.invariant (I := fun s => Numbering lag hold s ∧ Inv s)
    (fun s hinit => ⟨numbering_init hinit, inv_init hinit⟩) ?_
  rintro s l t ⟨hnumbering, hinv⟩ htimely hstep
  exact ⟨numbering_step hnumbering htimely hstep, inv_step hsettle hnumbering hinv hstep⟩

theorem pruned_late {P : State → Label → Prop} (h : (system c).Reachable P s) :
    ∀ x ∈ s.pruned, x.1.createdAt + c.retention < x.2 := by
  refine h.invariant (I := fun s => ∀ x ∈ s.pruned, x.1.createdAt + c.retention < x.2) ?_ ?_
  · rintro s ⟨-, -, -, -, -, -, -, hpruned⟩
    simp [hpruned]
  · intro s l t hs _ hstep x hx
    obtain hold | hnew := mem_pruned_step hstep hx
    · exact hs x hold
    · exact hnew

/-- **Nothing is passed over**: a row at or below the stored position has its document in the
stream, a row is pruned when its document is there or past the retention, and what is sent of a
row is sent under one id, its own. -/
theorem nothing_is_passed (hsettle : lag + hold < rowSettle)
    (h : (system c).Reachable (Timely lag hold) s) :
    (∀ r ∈ s.rows.rows, r.id ≤ s.position → entry r ∈ s.stream) ∧
      (∀ x ∈ s.pruned, entry x.1 ∈ s.stream ∨ x.1.createdAt + c.retention < x.2) ∧
      ∀ x ∈ s.sent, ∀ y ∈ s.sent, x.2 = y.2 ↔ x.1 = y.1 := by
  obtain ⟨hnumbering, hinv⟩ := reachable_inv hsettle h
  refine ⟨hinv.stored.delivered, fun x hx => Or.inr (pruned_late h x hx), fun x hx y hy => ?_⟩
  obtain ⟨hxknown, hxid⟩ := hinv.sent x hx
  obtain ⟨hyknown, hyid⟩ := hinv.sent y hy
  rw [hxid, hyid, documentId_inj]
  constructor
  · exact hnumbering.unique x.1 y.1 (Or.inl hxknown) (Or.inl hyknown)
  · intro heq
    rw [heq]

/-! ### Runs -/

def usage : Usage := ⟨"verdict", "infomaniak", "m", 10, 0, 0, 1⟩

def noRows : State where
  clock := 0
  nextId := 1
  rows := .empty
  inserts := []
  state := none
  passes := []
  stream := []
  sent := []
  pruned := []

def config : Config := ⟨100, 90 * 24 * 3600 * 1000000⟩

def second : Time := 1000000

/-- Two transactions that insert as they begin; the later one commits first and waits for
the other. The second document is refused at first, and the answer to the retry is lost. -/
def ordinaryRun : List Label :=
  [.beginInsert usage, .takeId ⟨0, usage, none⟩, .tick (2 * second), .beginInsert usage,
    .takeId ⟨2 * second, usage, none⟩, .commit ⟨2 * second, usage, some 2⟩, .tick (59 * second),
    .commit ⟨0, usage, some 1⟩, .tick (70 * second), .start, .openBatch 0, .read 0,
    .post 0 [none, some ⟨some "mail-verdict-2", some 429, none, none⟩] (.arrives 200 "" 2),
    .fetch 0, .store 0 (70 * second), .start, .openBatch 0, .read 0,
    .post 0 [none] (.lost "ReadTimeout: "), .crash 0, .start, .openBatch 0, .read 0,
    .post 0 [none] (.arrives 200 "" 1), .fetch 0, .store 0 (71 * second)]

theorem both_are_delivered : ∃ s : State, s.position = 2 ∧
    (∀ r ∈ s.rows.rows, r.id ≤ 2 → entry r ∈ s.stream) ∧ s.rows.rows.length = 2 ∧
      s.sent.length = 4 := by
  obtain ⟨s, hexec, hmeets, hposition, hrows, hsent⟩ : ∃ s : State,
      (system config).exec noRows ordinaryRun = some s ∧
      (system config).execMeets (Timely 0 (59 * second)) noRows ordinaryRun = true ∧
      s.position = 2 ∧ s.rows.rows.length = 2 ∧ s.sent.length = 4 := by
    refine ⟨_, rfl, ?_, ?_, ?_, ?_⟩ <;> decide +kernel
  have hsettle : 0 + 59 * second < rowSettle := by decide
  have h := nothing_is_passed hsettle
    (TransitionSystem.reachable_of_exec _ ⟨by decide, rfl, rfl, rfl, rfl, rfl, rfl, rfl⟩ hmeets hexec)
  exact ⟨s, hposition, hposition ▸ h.1, hrows, hsent⟩

/-- The first transaction inserts 50 seconds after it began; the second begins and inserts
before that, and commits after the first row was sent. Both are open for less than the
settle time. -/
theorem late_commit_is_passed : ∃ s : State,
    (system config).Reachable (Timely (59 * second) (59 * second)) s ∧
      ∃ r ∈ s.rows.rows, r.createdAt + rowSettle ≤ s.clock ∧ r.id ≤ s.position ∧
        entry r ∉ s.stream := by
  obtain ⟨s, hexec, hmeets, hafter⟩ : ∃ s : State,
      (system config).exec noRows [.beginInsert usage, .tick (40 * second), .beginInsert usage,
        .tick (45 * second), .takeId ⟨40 * second, usage, none⟩, .tick (50 * second),
        .takeId ⟨0, usage, none⟩, .commit ⟨0, usage, some 2⟩, .tick (61 * second), .start,
        .openBatch 0, .read 0, .post 0 [none] (.arrives 200 "" 1), .fetch 0,
        .store 0 (61 * second), .commit ⟨40 * second, usage, some 1⟩, .tick (100 * second)] = some s ∧
      (system config).execMeets (Timely (59 * second) (59 * second)) noRows [.beginInsert usage,
        .tick (40 * second), .beginInsert usage, .tick (45 * second),
        .takeId ⟨40 * second, usage, none⟩, .tick (50 * second), .takeId ⟨0, usage, none⟩,
        .commit ⟨0, usage, some 2⟩, .tick (61 * second), .start, .openBatch 0, .read 0,
        .post 0 [none] (.arrives 200 "" 1), .fetch 0, .store 0 (61 * second),
        .commit ⟨40 * second, usage, some 1⟩, .tick (100 * second)] = true ∧
      ∃ r ∈ s.rows.rows, r.createdAt + rowSettle ≤ s.clock ∧ r.id ≤ s.position ∧
        entry r ∉ s.stream := by
    refine ⟨_, rfl, ?_, ?_⟩ <;> decide +kernel
  exact ⟨s, TransitionSystem.reachable_of_exec _ ⟨by decide, rfl, rfl, rfl, rfl, rfl, rfl, rfl⟩
    hmeets hexec, hafter⟩

end MailVerdict.Analysis.UsageDelivery
