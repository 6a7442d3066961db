import Mathlib

/-!
# Reading a table page by page

`page` is the query `ORDER BY id TAKE n`, from a cursor on: the row of the cursor is found and
skipped. The rows that lie after a cursor, in order, are `rest`; a page splits them into itself and
the rows after its last one (`rest_eq_append`). Counting, completeness and the order of what a reader
has seen all follow from that.
-/

namespace AmoAnalytics.Paging

variable {ρ κ : Type*} [LinearOrder κ] {key : ρ → κ} {rows : List ρ} {cursor : Option κ} {n : ℕ} {r : ρ}

/-- The key lies after the cursor; without a cursor every key does. -/
def after (cursor : Option κ) (k : κ) : Bool := cursor.all fun c => decide (c < k)

@[simp] theorem after_none (k : κ) : after none k = true := rfl

@[simp] theorem after_some (c k : κ) : after (some c) k = decide (c < k) := rfl

/-- The rows in increasing order of the key. -/
def inOrder (key : ρ → κ) (rows : List ρ) : List ρ := rows.insertionSort fun a b => key a ≤ key b

/-- One page: `take` rows from the start, or from the cursor on without the row of the cursor. -/
def page (key : ρ → κ) (cursor : Option κ) (n : ℕ) (rows : List ρ) : List ρ :=
  match cursor with
  | none => (inOrder key rows).take n
  | some c => ((inOrder key (rows.filter fun r => decide (c ≤ key r))).drop 1).take n

/-- The rows after the cursor, in order. -/
def rest (key : ρ → κ) (cursor : Option κ) (rows : List ρ) : List ρ :=
  inOrder key (rows.filter fun r => after cursor (key r))

/-- The cursor after a page: its last row, or the cursor itself after an empty page. -/
def nextCursor (key : ρ → κ) (cursor : Option κ) (rows : List ρ) : Option κ :=
  (rows.getLast?.map key).or cursor

/-- The number of rows up to the cursor. -/
def countUpTo (key : ρ → κ) (cursor : Option κ) (rows : List ρ) : ℕ :=
  rows.countP fun r => !after cursor (key r)

@[simp] theorem countUpTo_none : countUpTo key none rows = 0 := by
  simp [countUpTo]

/-! ## The first row -/

/-- The first row of a query is the one that no other row comes before. -/
theorem head?_insertionSort {before : ρ → ρ → Prop} [DecidableRel before] [Std.Total before] [IsTrans ρ before]
    (hr : r ∈ rows) (h : ∀ x ∈ rows, x = r ∨ ¬ before x r) : (rows.insertionSort before).head? = some r := by
  have hsorted := List.pairwise_insertionSort before rows
  have hmem := (List.mem_insertionSort before).2 hr
  cases hrows : rows.insertionSort before with
  | nil =>
    rw [hrows] at hmem
    exact nomatch hmem
  | cons x xs =>
    rw [hrows] at hmem hsorted
    have hx : x ∈ rows := (List.mem_insertionSort before).1 (hrows ▸ List.mem_cons_self)
    rcases List.mem_cons.1 hmem with rfl | hrest
    · rfl
    · rcases h x hx with rfl | hbefore
      · rfl
      · exact absurd (List.rel_of_pairwise_cons hsorted hrest) hbefore

/-! ## Sorted rows -/

theorem inOrder_perm (key : ρ → κ) (rows : List ρ) : (inOrder key rows).Perm rows :=
  List.perm_insertionSort _ rows

theorem mem_rest : r ∈ rest key cursor rows ↔ r ∈ rows ∧ after cursor (key r) = true := by
  rw [rest, (inOrder_perm key _).mem_iff, List.mem_filter]

omit [LinearOrder κ] in
theorem nodup_filter (hkey : (rows.map key).Nodup) (p : ρ → Bool) : ((rows.filter p).map key).Nodup :=
  hkey.sublist (List.filter_sublist.map key)

/-- Rows with different keys are strictly increasing when they are sorted. -/
theorem inOrder_strict (hkey : (rows.map key).Nodup) :
    (inOrder key rows).Pairwise fun a b => key a < key b := by
  have hsorted : (inOrder key rows).Pairwise fun a b => key a ≤ key b :=
    List.pairwise_insertionSort (fun a b : ρ => key a ≤ key b) rows
  have hne : (inOrder key rows).Pairwise fun a b => key a ≠ key b :=
    List.pairwise_map.1 (((inOrder_perm key rows).map key).nodup_iff.2 hkey)
  exact (hsorted.and hne).imp fun h => lt_of_le_of_ne h.1 h.2

/-- Strictly increasing lists with the same members are equal. -/
theorem eq_of_strict {as bs : List ρ} (ha : as.Pairwise fun a b => key a < key b)
    (hb : bs.Pairwise fun a b => key a < key b) (h : ∀ r, r ∈ as ↔ r ∈ bs) : as = bs := by
  have hnodup : ∀ {l : List ρ}, (l.Pairwise fun a b => key a < key b) → l.Nodup :=
    fun hl => hl.imp fun {a b} hab heq => absurd (heq ▸ hab) (lt_irrefl _)
  have hperm : as.Perm bs := (List.perm_ext_iff_of_nodup (hnodup ha) (hnodup hb)).2 h
  exact hperm.eq_of_pairwise (fun _ _ _ _ hab hba => absurd hba hab.not_gt) ha hb

theorem rest_strict (hkey : (rows.map key).Nodup) (cursor : Option κ) :
    (rest key cursor rows).Pairwise fun a b => key a < key b :=
  inOrder_strict (nodup_filter hkey _)

/-! ## A page and what lies after it -/

/-- A cursor on a row of the table. -/
def OnRow (key : ρ → κ) (cursor : Option κ) (rows : List ρ) : Prop :=
  ∀ c, cursor = some c → ∃ r ∈ rows, key r = c

/-- A page is the front of the rows after the cursor. -/
theorem page_eq_take (hkey : (rows.map key).Nodup) (hcursor : OnRow key cursor rows) :
    page key cursor n rows = (rest key cursor rows).take n := by
  rcases cursor with _ | c
  · simp [page, rest]
  · obtain ⟨r, hr, rfl⟩ := hcursor c rfl
    -- Sorted, the rows from the cursor on begin with its row.
    have hsplit : inOrder key (rows.filter fun a => decide (key r ≤ key a)) =
        r :: rest key (some (key r)) rows := by
      refine eq_of_strict (inOrder_strict (nodup_filter hkey _)) ?_ fun a => ?_
      · refine List.pairwise_cons.2 ⟨fun a ha => ?_, rest_strict hkey _⟩
        simpa using (mem_rest.1 ha).2
      · rw [(inOrder_perm key _).mem_iff, List.mem_filter, List.mem_cons, mem_rest]
        simp only [after_some, decide_eq_true_eq]
        constructor
        · rintro ⟨ha, hle⟩
          rcases hle.eq_or_lt with heq | hlt
          · exact Or.inl (List.inj_on_of_nodup_map hkey ha hr heq.symm)
          · exact Or.inr ⟨ha, hlt⟩
        · rintro (rfl | ⟨ha, hlt⟩)
          · exact ⟨hr, le_rfl⟩
          · exact ⟨ha, hlt.le⟩
    rw [page, hsplit, List.drop_one, List.tail_cons]

theorem mem_page (hkey : (rows.map key).Nodup) (hcursor : OnRow key cursor rows)
    (hr : r ∈ page key cursor n rows) : r ∈ rows ∧ after cursor (key r) = true := by
  rw [page_eq_take hkey hcursor] at hr
  exact mem_rest.1 (List.mem_of_mem_take hr)

theorem after_trans {k l : κ} (h : after cursor k = true) (hkl : k < l) : after cursor l = true := by
  rcases cursor with _ | c
  · rfl
  · exact decide_eq_true (lt_trans (of_decide_eq_true h) hkl)

/-- The rows after the cursor are the page and the rows after its last one. -/
theorem rest_eq_append (hkey : (rows.map key).Nodup) (hcursor : OnRow key cursor rows) :
    rest key cursor rows = page key cursor n rows ++
      rest key (nextCursor key cursor (page key cursor n rows)) rows := by
  rw [page_eq_take hkey hcursor]
  have hmem : ∀ a, a ∈ rest key cursor rows ↔ a ∈ rows ∧ after cursor (key a) = true :=
    fun a => mem_rest
  have hstrict := rest_strict hkey cursor
  generalize hL : rest key cursor rows = L at hmem hstrict ⊢
  rcases List.eq_nil_or_concat (L.take n) with hnil | ⟨front, x, htake⟩
  · rw [hnil, nextCursor, List.getLast?_nil, Option.map_none, Option.none_or, hL, List.nil_append]
  · rw [List.concat_eq_append] at htake
    rw [htake, nextCursor, List.getLast?_concat, Option.map_some, Option.some_or]
    have hL' : L = front ++ [x] ++ L.drop n := by rw [← htake, List.take_append_drop]
    have hx : x ∈ rows ∧ after cursor (key x) = true := (hmem x).1 (by rw [hL']; simp)
    obtain ⟨hfront, hdrop, hcross⟩ := List.pairwise_append.1 (hL' ▸ hstrict)
    have hbefore : ∀ a ∈ front, key a < key x := fun a ha =>
      (List.pairwise_append.1 hfront).2.2 a ha x List.mem_cons_self
    conv_lhs => rw [hL']
    congr 1
    refine eq_of_strict hdrop (rest_strict hkey _) fun a => ?_
    rw [mem_rest, after_some, decide_eq_true_eq]
    constructor
    · intro ha
      exact ⟨((hmem a).1 (List.mem_of_mem_drop ha)).1, hcross x (by simp) a ha⟩
    · rintro ⟨ha, hlt⟩
      -- A row after `x` is neither `x` nor in front of it.
      have haL : a ∈ front ++ [x] ++ L.drop n := hL' ▸ (hmem a).2 ⟨ha, after_trans hx.2 hlt⟩
      rcases List.mem_append.1 haL with hleft | hright
      · rcases List.mem_append.1 hleft with hfront' | hx'
        · exact absurd (hbefore a hfront') hlt.not_gt
        · rw [List.mem_singleton.1 hx'] at hlt
          exact absurd hlt (lt_irrefl _)
      · exact hright

/-- The cursor after a page stands on a row again. -/
theorem OnRow.next (hkey : (rows.map key).Nodup) (hcursor : OnRow key cursor rows) :
    OnRow key (nextCursor key cursor (page key cursor n rows)) rows := by
  intro c hc
  rw [nextCursor] at hc
  rcases hlast : (page key cursor n rows).getLast? with _ | x
  · rw [hlast] at hc
    exact hcursor c hc
  · rw [hlast] at hc
    exact ⟨x, (mem_page hkey hcursor (List.mem_of_getLast? hlast)).1, Option.some.inj hc⟩

/-- A page that is not full is the last one. -/
theorem rest_next_of_short (hkey : (rows.map key).Nodup) (hcursor : OnRow key cursor rows)
    (hshort : (page key cursor n rows).length < n) :
    rest key (nextCursor key cursor (page key cursor n rows)) rows = [] := by
  have hlength := congrArg List.length (rest_eq_append (n := n) hkey hcursor)
  rw [List.length_append] at hlength
  rw [page_eq_take hkey hcursor, List.length_take] at hshort
  rw [page_eq_take hkey hcursor, List.length_take] at hlength
  apply List.eq_nil_of_length_eq_zero
  rw [page_eq_take hkey hcursor]
  omega

/-! ## What a reader has seen -/

theorem countUpTo_add_rest (key : ρ → κ) (cursor : Option κ) (rows : List ρ) :
    countUpTo key cursor rows + (rest key cursor rows).length = rows.length := by
  rw [rest, (inOrder_perm key _).length_eq, ← List.countP_eq_length_filter, countUpTo, add_comm]
  exact (List.length_eq_countP_add_countP fun r => after cursor (key r)).symm ▸ by simp

/-- A page adds its rows to those up to the cursor. -/
theorem countUpTo_next (hkey : (rows.map key).Nodup) (hcursor : OnRow key cursor rows) :
    countUpTo key (nextCursor key cursor (page key cursor n rows)) rows =
      countUpTo key cursor rows + (page key cursor n rows).length := by
  have hlength := congrArg List.length (rest_eq_append (n := n) hkey hcursor)
  rw [List.length_append] at hlength
  have hbefore := countUpTo_add_rest key cursor rows
  have hafter := countUpTo_add_rest key (nextCursor key cursor (page key cursor n rows)) rows
  omega

/-- A row that no longer lies after the cursor did so before only if the page holds it. -/
theorem mem_page_of_passed (hkey : (rows.map key).Nodup) (hcursor : OnRow key cursor rows) (hr : r ∈ rows)
    (hbefore : after cursor (key r) = true)
    (hafter : after (nextCursor key cursor (page key cursor n rows)) (key r) = false) :
    r ∈ page key cursor n rows := by
  have hrest : r ∈ rest key cursor rows := mem_rest.2 ⟨hr, hbefore⟩
  rw [rest_eq_append (n := n) hkey hcursor, List.mem_append, mem_rest, hafter] at hrest
  simpa using hrest

/-- A cursor never moves back. -/
def NotBefore (cursor cursor' : Option κ) : Prop := ∀ c, cursor = some c → ∃ c', cursor' = some c' ∧ c ≤ c'

theorem NotBefore.refl (cursor : Option κ) : NotBefore cursor cursor := fun c hc => ⟨c, hc, le_rfl⟩

theorem NotBefore.trans {a b c : Option κ} (hab : NotBefore a b) (hbc : NotBefore b c) :
    NotBefore a c := by
  intro k hk
  obtain ⟨l, hl, hkl⟩ := hab k hk
  obtain ⟨m, hm, hlm⟩ := hbc l hl
  exact ⟨m, hm, hkl.trans hlm⟩

theorem NotBefore.next (hkey : (rows.map key).Nodup) (hcursor : OnRow key cursor rows) :
    NotBefore cursor (nextCursor key cursor (page key cursor n rows)) := by
  intro c hc
  rw [nextCursor]
  rcases hlast : (page key cursor n rows).getLast? with _ | x
  · exact ⟨c, hc, le_rfl⟩
  · have hx := (mem_page hkey hcursor (List.mem_of_getLast? hlast)).2
    rw [hc, after_some, decide_eq_true_eq] at hx
    exact ⟨key x, rfl, hx.le⟩

end AmoAnalytics.Paging
