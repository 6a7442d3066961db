import AmoAnalytics.CrmControl.Report

/-!
# The pages of the list

A call of `deals` scans the rows of its query and keeps the ones it accepts, up to one more than a
page. What it returns is one page of the accepted rows (`deals_eq_page`), whatever lies between
them; so the calls that follow `nextCursor` return all of them, once and in order (`follows_rest`).
-/

namespace AmoAnalytics.CrmControl

open Paging (page rest OnRow)

/-- The primary keys of the observations: each once, and no empty text. -/
structure HasKeys (rows : List Observation) : Prop where
  nodup : (rows.map Observation.id).Nodup
  nonempty : ∀ o ∈ rows, o.id ≠ ""

theorem HasKeys.filter {rows : List Observation} (h : HasKeys rows) (p : Observation → Bool) :
    HasKeys (rows.filter p) where
  nodup := Paging.nodup_filter h.nodup p
  nonempty o ho := h.nonempty o (List.mem_filter.1 ho).1

/-- The cursor of a query that stands on a row is no empty text. -/
theorem given_of_onRow {rows : List Observation} (h : HasKeys rows) {cursor : Option String}
    (hcursor : OnRow Observation.id cursor rows) : given cursor = cursor := by
  rcases cursor with _ | c
  · rfl
  · obtain ⟨o, ho, rfl⟩ := hcursor c rfl
    exact Option.filter_eq_some_iff.2 ⟨rfl, decide_eq_true (h.nonempty o ho)⟩

theorem take_take_append {α : Type*} (n : ℕ) (as bs : List α) :
    (as.take n ++ bs).take n = (as ++ bs).take n := by
  have hlength : n - (as.take n).length = n - as.length := by
    rw [List.length_take]
    omega
  rw [List.take_append, List.take_append, hlength, List.take_take, min_self]

/-! ## One call -/

section Call

variable (query : DealsQuery) (db : Db)

/-- The rows that are shown for the query. -/
def DealsQuery.shows (o : Observation) : Bool := query.accepts (publicObservation db o)

/-- The views of the rows that are shown. -/
def shown (rows : List Observation) : List DealView :=
  (rows.filter (query.shows db ·)).map (publicObservation db)

theorem shown_append (as bs : List Observation) :
    shown query db (as ++ bs) = shown query db as ++ shown query db bs := by
  rw [shown, List.filter_append, List.map_append, shown, shown]

theorem shown_cons (o : Observation) (rows : List Observation) :
    shown query db (o :: rows) =
      (if query.shows db o then [publicObservation db o] else []) ++ shown query db rows := by
  rw [shown, List.filter_cons]
  split_ifs <;> rfl

/-- The inner loop keeps the first rows that are shown, up to one more than a page. -/
theorem collect_eq (rows : List Observation) : ∀ matching : List DealView,
    matching.length ≤ listPageSize →
      collect query db matching rows = (matching ++ shown query db rows).take (listPageSize + 1) := by
  induction rows with
  | nil =>
    intro matching h
    rw [collect, shown, List.filter_nil, List.map_nil, List.append_nil,
      List.take_of_length_le (by omega)]
  | cons o rows ih =>
    intro matching h
    rw [shown_cons, ← List.append_assoc, collect]
    by_cases hshows : query.shows db o = true
    · have haccepts : query.accepts (publicObservation db o) = true := hshows
      simp only [if_pos hshows, if_pos haccepts]
      by_cases hfull : listPageSize < (matching ++ [publicObservation db o]).length
      · have hlength : (matching ++ [publicObservation db o]).length = listPageSize + 1 := by
          rw [List.length_append, List.length_singleton] at hfull ⊢
          omega
        rw [if_pos hfull, List.take_append_of_le_length hlength.ge, List.take_of_length_le hlength.le]
      · rw [if_neg hfull, ih _ (by omega)]
    · have haccepts : ¬query.accepts (publicObservation db o) = true := hshows
      simp only [if_neg hshows, if_neg haccepts, if_neg h.not_gt, List.append_nil]
      exact ih matching h

variable {rows : List Observation} (h : HasKeys rows)

include h

/-- The outer loop keeps the first rows after the cursor that are shown. -/
theorem scan_eq : ∀ (rounds : ℕ) (matching : List DealView) (cursor : Option String),
    matching.length ≤ listPageSize + 1 → OnRow Observation.id cursor rows →
      (rest Observation.id cursor rows).length < rounds →
        scan query db rows rounds matching cursor =
          (matching ++ shown query db (rest Observation.id cursor rows)).take (listPageSize + 1) := by
  intro rounds
  induction rounds with
  | zero => intro matching cursor _ _ hrounds; omega
  | succ rounds ih =>
    intro matching cursor hmatching hcursor hrounds
    rw [scan, given_of_onRow h hcursor]
    by_cases hfull : listPageSize < matching.length
    · rw [if_pos hfull, List.take_append_of_le_length (by omega), List.take_of_length_le hmatching]
    · have hsplit := Paging.rest_eq_append (n := scanPageSize) h.nodup hcursor
      have hpage := Paging.page_eq_take (n := scanPageSize) h.nodup hcursor
      have hnext := OnRow.next (n := scanPageSize) h.nodup hcursor
      have hshort := Paging.rest_next_of_short (n := scanPageSize) h.nodup hcursor
      have hcollect := collect_eq query db (page Observation.id cursor scanPageSize rows) matching
        (by omega)
      rw [if_neg hfull]
      dsimp only
      by_cases hempty : page Observation.id cursor scanPageSize rows = []
      · rw [hempty] at hshort hsplit
        rw [if_pos hempty, hsplit, hshort (by decide), List.append_nil, shown, List.filter_nil,
          List.map_nil, List.append_nil, List.take_of_length_le (by omega)]
      · rw [if_neg hempty, hcollect]
        by_cases hlast : (page Observation.id cursor scanPageSize rows).length < scanPageSize
        · rw [if_pos hlast, hsplit, hshort hlast, List.append_nil]
        · rw [if_neg hlast]
          -- The page is full, so less lies after its last row.
          have hcursor' : Paging.nextCursor Observation.id cursor
              (page Observation.id cursor scanPageSize rows) =
                (page Observation.id cursor scanPageSize rows).getLast?.map (·.id) := by
            obtain ⟨o, ho⟩ := Option.isSome_iff_exists.1 (List.getLast?_isSome.2 hempty)
            rw [Paging.nextCursor, ho, Option.map_some, Option.some_or]
          have hlength := congrArg List.length hsplit
          rw [List.length_append] at hlength
          have hpositive : 0 < (page Observation.id cursor scanPageSize rows).length :=
            List.length_pos_iff.2 hempty
          rw [← hcursor', ih _ _ (List.length_take_le _ _) hnext (by omega)]
          conv_rhs => rw [hsplit, shown_append, ← List.append_assoc]
          rw [take_take_append]

end Call

/-! ## All calls -/

section Calls

variable (requestedBy : String → Option String) (access : Access) (runId : String) (query : DealsQuery)
  (db : Db)

/-- The rows that a call without a cursor would list. -/
def listedRows : List Observation :=
  (db.observations.filter (query.reads access runId db ·)).filter (query.shows db ·)

/-- The call from a cursor. -/
def dealsFrom (cursor : Option String) : Except ServiceError DealsPage :=
  Service.deals requestedBy access runId { query with cursor := cursor } db

/-- The items of all calls that follow `nextCursor` from a cursor until it is null. -/
inductive FollowsCursor (call : Option String → Except ServiceError DealsPage) :
    Option String → List DealView → Prop
  | last {cursor items} (h : call cursor = .ok ⟨items, none⟩) : FollowsCursor call cursor items
  | next {cursor items c others} (h : call cursor = .ok ⟨items, some c⟩)
      (hothers : FollowsCursor call (some c) others) : FollowsCursor call cursor (items ++ others)

/-- The calls decide what they return. -/
theorem FollowsCursor.unique {call : Option String → Except ServiceError DealsPage} {cursor : Option String}
    {as bs : List DealView} (ha : FollowsCursor call cursor as) (hb : FollowsCursor call cursor bs) : as = bs := by
  induction ha generalizing bs with
  | last h =>
    cases hb with
    | last h' =>
      rw [h] at h'
      cases h'
      rfl
    | next h' _ =>
      rw [h] at h'
      cases h'
  | next h _ ih =>
    cases hb with
    | last h' =>
      rw [h] at h'
      cases h'
    | next h' hothers =>
      rw [h] at h'
      cases h'
      rw [ih hothers]

variable {db} (hkeys : HasKeys db.observations)

include hkeys in
theorem HasKeys.listedRows : HasKeys (listedRows access runId query db) := (hkeys.filter _).filter _

variable {requestedBy access runId query}
  (hvisible : visibleRun requestedBy access runId db = true) (haccepted : query.refusal = none)

/-- The rows of a call that come after the cursor are those of the list. -/
theorem filter_rest {rows : List Observation} (h : HasKeys rows) (p : Observation → Bool)
    (cursor : Option String) :
    (rest Observation.id cursor rows).filter p = rest Observation.id cursor (rows.filter p) := by
  refine Paging.eq_of_strict ((Paging.rest_strict h.nodup cursor).filter p)
    (Paging.rest_strict (h.filter p).nodup cursor) fun o => ?_
  rw [List.mem_filter, Paging.mem_rest, Paging.mem_rest, List.mem_filter]
  tauto

include hkeys hvisible haccepted

omit hkeys hvisible haccepted in
/-- What a call makes of one row more than a page. -/
theorem cutPage (db : Db) (left : List Observation) (cursor : Option String) :
    DealsPage.mk (((left.map (publicObservation db)).take (listPageSize + 1)).take listPageSize)
      (if listPageSize < ((left.map (publicObservation db)).take (listPageSize + 1)).length
        then ((left.map (publicObservation db)).take (listPageSize + 1))[listPageSize - 1]?.map
          (·.observation.id)
        else none) =
      DealsPage.mk ((left.take listPageSize).map (publicObservation db))
        (if listPageSize < left.length
          then Paging.nextCursor Observation.id cursor (left.take listPageSize) else none) := by
  have hitems : ((left.map (publicObservation db)).take (listPageSize + 1)).take listPageSize =
      (left.take listPageSize).map (publicObservation db) := by
    rw [List.take_take, List.map_take]
    rfl
  have hlength : listPageSize < ((left.map (publicObservation db)).take (listPageSize + 1)).length ↔
      listPageSize < left.length := by
    rw [List.length_take, List.length_map]
    omega
  rw [hitems, if_congr hlength rfl rfl]
  congr 1
  by_cases hmore : listPageSize < left.length
  · rw [if_pos hmore, if_pos hmore, Paging.nextCursor, List.getLast?_take, List.getElem?_take,
      List.getElem?_map]
    have hlast : listPageSize - 1 < left.length := by omega
    rw [List.getElem?_eq_getElem hlast]
    rfl
  · rw [if_neg hmore, if_neg hmore]

/-- A call returns a page of the list, and a cursor exactly when rows are left. -/
theorem deals_eq_page {cursor : Option String}
    (hcursor : OnRow Observation.id cursor (listedRows access runId query db)) :
    dealsFrom requestedBy access runId query db cursor = .ok {
      items := (page Observation.id cursor listPageSize (listedRows access runId query db)).map
        (publicObservation db)
      nextCursor :=
        if listPageSize < (rest Observation.id cursor (listedRows access runId query db)).length
        then Paging.nextCursor Observation.id cursor
          (page Observation.id cursor listPageSize (listedRows access runId query db))
        else none } := by
  have hreads := hkeys.filter (query.reads access runId db ·)
  have hlisted := hkeys.listedRows access runId query
  have hon : OnRow Observation.id cursor (db.observations.filter (query.reads access runId db ·)) := by
    intro c hc
    obtain ⟨o, ho, hid⟩ := hcursor c hc
    exact ⟨o, (List.mem_filter.1 ho).1, hid⟩
  have hrounds : (rest Observation.id cursor
      (db.observations.filter (query.reads access runId db ·))).length <
        (db.observations.filter (query.reads access runId db ·)).length + 1 := by
    have hcount := Paging.countUpTo_add_rest Observation.id cursor
      (db.observations.filter (query.reads access runId db ·))
    omega
  -- The scan reads the cursor from its own argument, never from the query.
  have hscan : scan { query with cursor := cursor } db
      (db.observations.filter (DealsQuery.reads { query with cursor := cursor } access runId db ·))
      ((db.observations.filter
        (DealsQuery.reads { query with cursor := cursor } access runId db ·)).length + 1) [] cursor =
        ((rest Observation.id cursor (listedRows access runId query db)).map
          (publicObservation db)).take (listPageSize + 1) := by
    have hscan := scan_eq { query with cursor := cursor } db hreads _ [] cursor (Nat.zero_le _) hon hrounds
    rw [List.nil_append, shown, filter_rest hreads] at hscan
    exact hscan
  have hrefusal : DealsQuery.refusal { query with cursor := cursor } = none := haccepted
  rw [dealsFrom, Service.deals, hvisible, hrefusal, Paging.page_eq_take hlisted.nodup hcursor]
  dsimp only
  rw [hscan, cutPage db _ cursor]
  rfl

/-- **Following `nextCursor`** from a cursor returns all rows of the list that come after it. -/
theorem follows_rest : ∀ (cursor : Option String),
    OnRow Observation.id cursor (listedRows access runId query db) →
      FollowsCursor (dealsFrom requestedBy access runId query db) cursor
        ((rest Observation.id cursor (listedRows access runId query db)).map (publicObservation db)) := by
  intro cursor
  have hkeys' := (hkeys.listedRows access runId query).nodup
  induction hlength : (rest Observation.id cursor (listedRows access runId query db)).length using
    Nat.strong_induction_on generalizing cursor with
  | _ size ih =>
    intro hcursor
    have hcall := deals_eq_page hkeys hvisible haccepted hcursor
    have hsplit := Paging.rest_eq_append (n := listPageSize) hkeys' hcursor
    have hpage := Paging.page_eq_take (n := listPageSize) hkeys' hcursor
    by_cases hmore : listPageSize < (rest Observation.id cursor (listedRows access runId query db)).length
    · rw [if_pos hmore] at hcall
      have hsize : (page Observation.id cursor listPageSize (listedRows access runId query db)).length =
          listPageSize := by
        rw [hpage, List.length_take]
        omega
      have hne : page Observation.id cursor listPageSize (listedRows access runId query db) ≠ [] := by
        intro hnil
        rw [hnil] at hsize
        exact absurd hsize (by decide)
      obtain ⟨o, ho⟩ := Option.isSome_iff_exists.1 (List.getLast?_isSome.2 hne)
      have hnext : Paging.nextCursor Observation.id cursor
          (page Observation.id cursor listPageSize (listedRows access runId query db)) = some o.id := by
        rw [Paging.nextCursor, ho, Option.map_some, Option.some_or]
      have hcursor' := OnRow.next (n := listPageSize) hkeys' hcursor
      have hshorter := congrArg List.length hsplit
      rw [List.length_append, hsize] at hshorter
      rw [hnext] at hcall hsplit hcursor' hshorter
      rw [hsplit, List.map_append]
      have hpositive : 0 < listPageSize := by decide
      exact .next hcall (ih _ (by omega) (some o.id) rfl hcursor')
    · rw [if_neg hmore, hpage, List.take_of_length_le (by omega)] at hcall
      exact .last hcall

end Calls

end AmoAnalytics.CrmControl
