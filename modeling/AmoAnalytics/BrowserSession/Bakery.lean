import AmoAnalytics.BrowserSession.Directory

/-!
# The bakery

A contender with a ticket has cleared another one when its round will still find it, or when the other is behind:
its own first scan will find the ticket, or it has a later ticket. What clears a contender stays so under every
move of both. A holder has cleared all others, so that there are not two, and a contender that enters behind a
published ticket is served later.
-/

namespace AmoAnalytics.BrowserSession

open Actors

variable {β κ : Type} {hash : β → κ} {db db' : SessionDb β κ} {c o : Contender β κ} {move : Move β κ}
  {phase : LeasePhase β κ} {next : List Entry × Option β × LeasePhase β κ} {item : Entry} {i j t t' : ℕ}
  {n n' : String}

/-! ## The order of the tickets -/

/-- The order of the tickets, by name where two are equal. -/
def before (t : ℕ) (n : String) (t' : ℕ) (n' : String) : Prop := t < t' ∨ (t = t' ∧ n < n')

theorem before_asymm (h : before t n t' n') : ¬ before t' n' t n := by
  rintro (hlt | ⟨heq, hlt⟩)
  · rcases h with h | ⟨h, -⟩
    · exact lt_asymm h hlt
    · exact hlt.ne' h
  · rcases h with h | ⟨-, h⟩
    · exact h.ne' heq
    · exact lt_asymm h hlt

/-- An entry with a ticket that does not block is behind. -/
theorem before_of_not_blocks (h : item.blocks t n = false) (hticket : item.ticket = some t')
    (hne : item.name ≠ n) : before t n t' item.name := by
  unfold Entry.blocks at h
  rw [hticket, Bool.or_eq_false_iff, Bool.and_eq_false_iff] at h
  obtain ⟨hlt, hname⟩ := h
  rcases lt_or_eq_of_le (Nat.le_of_not_lt (of_decide_eq_false hlt)) with hbefore | heq
  · exact Or.inl hbefore
  · refine Or.inr ⟨heq, lt_of_le_of_ne (le_of_not_gt ?_) hne.symm⟩
    exact of_decide_eq_false (hname.resolve_left (by simp [heq]))

/-- A ticket is behind all that have been read. -/
theorem lt_nextTicket {initial : List Entry} (hitem : item ∈ initial) (hticket : item.ticket = some t) :
    t < nextTicket initial := by
  have hle : ∀ (tickets : List ℕ) (start : ℕ), start ≤ tickets.foldl max start ∧
      ∀ x ∈ tickets, x ≤ tickets.foldl max start := by
    intro tickets
    induction tickets with
    | nil => exact fun start => ⟨le_rfl, fun _ hx => absurd hx List.not_mem_nil⟩
    | cons y tickets ih =>
      intro start
      obtain ⟨hstart, hall⟩ := ih (max start y)
      refine ⟨(le_max_left _ _).trans hstart, fun x hx => ?_⟩
      rcases List.mem_cons.1 hx with rfl | hx
      · exact (le_max_right _ _).trans hstart
      · exact hall x hx
  refine Nat.lt_succ_of_le ((hle _ 0).2 t (List.mem_map.2 ⟨item, hitem, ?_⟩))
  rw [hticket, Option.getD_some]

/-! ## Behind a ticket -/

/-- A phase in which the call with this name comes behind the ticket `t` of the contender `n`: its first scan finds
the ticket, or it has a later one. -/
def LeasePhase.Behind (t : ℕ) (n name : String) : LeasePhase β κ → Prop
  | .preparing | .leaving | .gone => True
  | .choosing scan => scan.Finds Entry.name (fun item => item.ticket = some t) n
  | .reaping initial _ => ∃ item ∈ initial, item.name = n ∧ item.ticket = some t
  | .waiting t' _ _ | .checking t' _ _ _ | .holding t' _ => before t n t' name

/-- A call that has ended or is behind. -/
def Contender.Behind (t : ℕ) (n : String) (o : Contender β κ) : Prop :=
  o.crashed = true ∨ o.phase.Behind t n o.name

theorem before_of_behind {name : String} (h : phase.Behind t n name) (hticket : phase.ticket = some t') :
    before t n t' name := by
  cases phase with
  | waiting ticket deadline scan =>
    obtain rfl := Option.some.inj hticket
    exact h
  | checking ticket deadline items blocked =>
    obtain rfl := Option.some.inj hticket
    exact h
  | holding ticket save =>
    obtain rfl := Option.some.inj hticket
    exact h
  | _ => exact nomatch hticket

/-- While the entry of the ticket is there, the moves of a call behind it leave it behind. -/
theorem LeaseEffect.behind (h : LeaseEffect hash db o move phase next) (hbehind : phase.Behind t n o.name)
    (hnames : (db.entries.map Entry.name).Nodup) (hitem : item ∈ db.entries) (hname : item.name = n)
    (hticket : item.ticket = some t) : next.2.2.Behind t n o.name := by
  cases h with
  | enter => trivial
  | firstScan m scan scan' hscan => exact hbehind.move hnames hitem hname hticket hscan
  | firstGather scan initial hinitial => exact hbehind.result hinitial
  | firstReap => exact hbehind
  | firstSkip => exact hbehind
  | publish initial ticket deadline hnext =>
    obtain ⟨other, hother, -, hfound⟩ := hbehind
    exact Or.inl (hnext ▸ lt_nextTicket hother hfound)
  | overflow => trivial
  | busy => trivial
  | giveUp => trivial
  | fail => trivial
  | leave => trivial
  | release => trivial
  | _ => exact hbehind

/-- A call is behind a ticket if its entry does not block the ticket. -/
theorem DirectoryInv.behind (h : DirectoryInv db) (ho : o ∈ db.contenders) (hne : o.name ≠ n)
    (hnot : ¬ ∃ item ∈ db.entries, item.name = o.name ∧ item.blocks t n = true) : o.Behind t n := by
  by_cases hcrashed : o.crashed = true
  · exact Or.inl hcrashed
  have hentry : ∀ item ∈ db.entries, item.name = o.name → item.blocks t n = false := by
    intro item hitem hname
    rw [← Bool.not_eq_true]
    exact fun hblocks => hnot ⟨item, hitem, hname, hblocks⟩
  have hpresent := h.present o ho (Bool.eq_false_iff.2 hcrashed)
  have hpublished : o.phase.listed = true → ∀ t', o.phase.ticket = some t' → before t n t' o.name := by
    intro hlisted t' ht'
    obtain ⟨item, hitem, hname, hticket⟩ := hpresent hlisted
    rw [← hname]
    exact before_of_not_blocks (hentry item hitem hname) (hticket.trans ht') (hname ▸ hne)
  have hchoosing : o.phase.listed = true → o.phase.ticket ≠ none := by
    intro hlisted hnone
    obtain ⟨item, hitem, hname, hticket⟩ := hpresent hlisted
    have hblocks := hentry item hitem hname
    rw [Entry.blocks, hticket.trans hnone] at hblocks
    exact nomatch hblocks
  refine Or.inr ?_
  cases hphase : o.phase with
  | preparing => trivial
  | choosing scan => exact absurd (by rw [hphase]; rfl) (hchoosing (by rw [hphase]; rfl))
  | reaping initial items => exact absurd (by rw [hphase]; rfl) (hchoosing (by rw [hphase]; rfl))
  | waiting t' deadline scan => exact hpublished (by rw [hphase]; rfl) t' (by rw [hphase]; rfl)
  | checking t' deadline items blocked => exact hpublished (by rw [hphase]; rfl) t' (by rw [hphase]; rfl)
  | holding t' save => exact hpublished (by rw [hphase]; rfl) t' (by rw [hphase]; rfl)
  | leaving => trivial
  | gone => trivial

/-! ## Clearing -/

/-- The round of the contender `n` will find that the call with this name blocks it, or has found so. -/
def LeasePhase.Pending (t : ℕ) (n name : String) : LeasePhase β κ → Prop
  | .waiting _ _ scan => scan.Finds Entry.name (fun item => item.blocks t n = true) name
  | .checking _ _ items blocked => blocked = true ∨ ∃ item ∈ items, item.name = name ∧ item.blocks t n = true
  | _ => False

/-- A running contender with a ticket will still look at the other one, or is before it. -/
def Cleared (c o : Contender β κ) : Prop :=
  c.crashed = false → ∀ t, c.phase.ticket = some t → c.phase.Pending t c.name o.name ∨ o.Behind t c.name

/-- The moves of a contender clear the others. -/
theorem LeaseEffect.cleared (h : LeaseEffect hash db c move c.phase next) (hinv : DirectoryInv db)
    (hc : c ∈ db.contenders) (ho : o ∈ db.contenders) (hlive : c.crashed = false) (hne : o.name ≠ c.name)
    (hcleared : Cleared c o) : Cleared { c with phase := next.2.2 } o := by
  intro _ t ht
  dsimp only at ht ⊢
  have hwas := hcleared hlive
  generalize hphase : c.phase = phase at h hwas
  cases h with
  | publish => exact Or.inl trivial
  | scan m ticket deadline scan scan' hscan =>
    rcases hwas t ht with hpending | hbehind
    · by_cases hblocks : ∃ item ∈ db.entries, item.name = o.name ∧ item.blocks t c.name = true
      · obtain ⟨item, hitem, hname, hblock⟩ := hblocks
        exact Or.inl (hpending.move hinv.entryNames hitem hname hblock hscan)
      · exact Or.inr (hinv.behind ho hne hblocks)
    · exact Or.inr hbehind
  | gather ticket deadline scan items hitems =>
    exact (hwas t ht).imp_left fun hpending => Or.inr (hpending.result hitems)
  | own ticket deadline items item blocked hown =>
    refine (hwas t ht).imp_left fun hpending => hpending.imp_right ?_
    rintro ⟨other, hother, hname, hblock⟩
    rcases List.mem_cons.1 hother with rfl | hother
    · exact absurd (hname.symm.trans hown) hne
    · exact ⟨other, hother, hname, hblock⟩
  | reap ticket deadline items item blocked hname hreap =>
    rcases hwas t ht with (hblocked | ⟨other, hother, hown, hblock⟩) | hbehind
    · exact Or.inl (Or.inl hblocked)
    · rcases List.mem_cons.1 hother with rfl | hother
      · -- What is reaped is not a running call.
        have hitem : other ∈ c.phase.items := by
          rw [hphase]
          exact List.mem_cons_self
        exact Or.inr (Or.inl (hinv.crashed_of_dead (hinv.items c hc other hitem)
          (Bool.and_eq_true_iff.1 hreap).2 ho hown))
      · exact Or.inl (Or.inr ⟨other, hother, hown, hblock⟩)
    · exact Or.inr hbehind
  | examine ticket deadline items item blocked =>
    obtain rfl := Option.some.inj ht
    refine (hwas ticket rfl).imp_left ?_
    rintro (rfl | ⟨other, hother, hown, hblock⟩)
    · exact Or.inl rfl
    · rcases List.mem_cons.1 hother with rfl | hother
      · exact Or.inl (by rw [hblock, Bool.or_true])
      · exact Or.inr ⟨other, hother, hown, hblock⟩
  | hold ticket deadline =>
    refine Or.inr ((hwas t ht).resolve_left ?_)
    rintro (hblocked | ⟨other, hother, -⟩)
    · exact nomatch hblocked
    · exact absurd hother List.not_mem_nil
  | again => exact Or.inl trivial
  | touch => exact hwas t ht
  | save => exact hwas t ht
  | replace => exact hwas t ht
  | _ => exact nomatch ht

/-- The moves of the other leave it cleared. -/
theorem LeaseEffect.cleared_by (h : LeaseEffect hash db o move o.phase next) (hinv : DirectoryInv db)
    (hc : c ∈ db.contenders) (hcleared : Cleared c o) : Cleared c { o with phase := next.2.2 } := by
  intro hlive t ht
  refine (hcleared hlive t ht).imp_right fun hbehind => hbehind.imp_right fun hbehind => ?_
  obtain ⟨item, hitem, hname, hticket⟩ := hinv.present c hc hlive (LeasePhase.listed_of_ticket ht)
  exact h.behind hbehind hinv.entryNames hitem hname (hticket.trans ht)

end AmoAnalytics.BrowserSession
