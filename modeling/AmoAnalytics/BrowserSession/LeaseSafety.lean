import AmoAnalytics.BrowserSession.Bakery

/-!
# The safety of the lease

What holds of every run: one running call holds the lease, a published ticket is served before a call that enters
later, only the call itself removes the entry of a running call, the entry of a dead process does not block, and
the state file is replaced as a whole, by the holder, while it has the expected hash.
-/

namespace AmoAnalytics.BrowserSession

open Actors

variable {β κ : Type} {hash : β → κ} {db db' last : SessionDb β κ} {c o : Contender β κ} {move : Move β κ}
  {action : LeaseAction β κ} {phase : LeasePhase β κ} {next : List Entry × Option β × LeasePhase β κ}
  {item : Entry} {i j t : ℕ} {n : String}

/-! ## Mutual exclusion -/

def LeasePhase.holds : LeasePhase β κ → Bool
  | .holding .. => true
  | _ => false

structure LeaseInv (hash : β → κ) (db : SessionDb β κ) : Prop where
  directory : DirectoryInv db
  cleared : Pairs Cleared db.contenders
  /-- The comparison before a replacement is still true. -/
  file : ∀ c ∈ db.contenders, c.crashed = false → ∀ ticket bytes expected,
    c.phase = .holding ticket (.verified bytes expected) → db.file.map hash = expected

/-- The others are behind a holder. -/
theorem Cleared.behind_of_holds (h : Cleared c o) (hlive : c.crashed = false) (hticket : c.phase.ticket = some t)
    (hholds : c.phase.holds = true) : o.Behind t c.name := by
  refine (h hlive t hticket).resolve_left fun hpending => ?_
  cases hphase : c.phase with
  | holding =>
    rw [hphase] at hpending
    exact hpending
  | _ =>
    rw [hphase] at hholds
    exact nomatch hholds

theorem LeasePhase.ticket_of_holds (h : phase.holds = true) : ∃ t, phase.ticket = some t := by
  cases phase with
  | holding ticket => exact ⟨ticket, rfl⟩
  | _ => exact nomatch h

/-- A running call with a ticket that is behind another ticket. -/
theorem Contender.Behind.before {t' : ℕ} (h : o.Behind t n) (hlive : o.crashed = false)
    (hticket : o.phase.ticket = some t') : before t n t' o.name := by
  rcases h with hcrashed | hbehind
  · rw [hlive] at hcrashed
    exact nomatch hcrashed
  · exact before_of_behind hbehind hticket

/-- **Mutual exclusion.** -/
theorem holder_unique (h : Pairs Cleared db.contenders) (hi : db.contenders[i]? = some c)
    (hj : db.contenders[j]? = some o) (hc : c.crashed = false) (ho : o.crashed = false)
    (hholds : c.phase.holds = true) (hholds' : o.phase.holds = true) : i = j := by
  by_contra hij
  obtain ⟨t, ht⟩ := LeasePhase.ticket_of_holds hholds
  obtain ⟨t', ht'⟩ := LeasePhase.ticket_of_holds hholds'
  have hbehind := (h i j c o hij hi hj).behind_of_holds hc ht hholds
  have hbehind' := (h j i o c (Ne.symm hij) hj hi).behind_of_holds ho ht' hholds'
  exact before_asymm (hbehind.before ho ht') (hbehind'.before hc ht)

/-- A move keeps the file, unless the holder replaces it. -/
theorem LeaseEffect.file (h : LeaseEffect hash db c move phase next) : next.2.1 = db.file ∨
    ∃ ticket bytes expected, move = .replace ∧ phase = .holding ticket (.verified bytes expected) ∧
      next.2.1 = some bytes ∧ next.2.2 = .holding ticket .idle := by
  cases h with
  | replace ticket bytes expected => exact Or.inr ⟨ticket, bytes, expected, rfl, rfl, rfl, rfl⟩
  | _ => exact Or.inl rfl

/-- A comparison that a move ends with is true. -/
theorem LeaseEffect.verified {ticket : ℕ} {bytes : β} {expected : Option κ}
    (h : LeaseEffect hash db c move phase next) (hnext : next.2.2 = .holding ticket (.verified bytes expected))
    (hwas : phase = .holding ticket (.verified bytes expected) → db.file.map hash = expected) :
    next.2.1.map hash = expected := by
  cases h with
  | touch => exact hwas hnext
  | save move ticket' save save' hsave =>
    cases hnext
    exact hsave bytes expected rfl
  | _ => exact nomatch hnext

theorem Contender.Behind.crash {host : String} {pid : ℕ} (h : o.Behind t n) : (o.crash host pid).Behind t n := by
  obtain ⟨hname, -, -, hphase, hcrash⟩ := Contender.crash_of (c := o) host pid
  rcases h with hcrashed | hbehind
  · refine Or.inl (eq_true_of_ne_false fun hlive => ?_)
    rw [(hcrash hlive).1] at hcrashed
    exact nomatch hcrashed
  · exact Or.inr (by rw [hphase, hname]; exact hbehind)

theorem Cleared.crash {host : String} {pid : ℕ} (h : Cleared c o) :
    Cleared (c.crash host pid) (o.crash host pid) := by
  obtain ⟨hname, -, -, hphase, hcrash⟩ := Contender.crash_of (c := c) host pid
  have hname' := (Contender.crash_of (c := o) host pid).1
  intro hlive t ht
  rw [hphase] at ht ⊢
  rw [hname, hname']
  exact (h (hcrash hlive).1 t ht).imp_right Contender.Behind.crash

theorem LeaseInv.act (h : LeaseInv hash db) (hi : db.contenders[i]? = some c) (hlive : c.crashed = false)
    (heffect : LeaseEffect hash db c move c.phase next) : LeaseInv hash { db with
      entries := next.1, file := next.2.1, contenders := db.contenders.set i { c with phase := next.2.2 } } := by
  have hc := List.mem_of_getElem? hi
  refine ⟨h.directory.act hi hlive heffect, h.cleared.set fun j o hji hj => ?_, ?_⟩
  · have ho := List.mem_of_getElem? hj
    exact ⟨heffect.cleared h.directory hc ho hlive (h.directory.names j i o c hji hj hi) (h.cleared i j c o hji.symm hi hj),
      heffect.cleared_by h.directory ho (h.cleared j i o c hji hj hi)⟩
  · refine forall_mem_set (fun _ ticket bytes expected hphase => ?_) fun j o hji hj hlive' ticket bytes expected hphase => ?_
    · exact heffect.verified hphase fun hwas => h.file c hc hlive ticket bytes expected hwas
    · have hsame := h.file o (List.mem_of_getElem? hj) hlive' ticket bytes expected hphase
      rcases heffect.file with hkept | ⟨ticket', bytes', expected', -, hholding, -⟩
      · rw [← hsame, ← hkept]
      · refine absurd (holder_unique h.cleared hj hi hlive' hlive ?_ ?_) hji
        · rw [hphase]
          rfl
        · rw [hholding]
          rfl

theorem LeaseInv.step [DecidableEq κ] (h : LeaseInv hash db) (hstep : leaseStep hash db action = some db') :
    LeaseInv hash db' := by
  have hdirectory := h.directory.step hstep
  cases stepEffect hstep with
  | tick => exact ⟨hdirectory, h.cleared, h.file⟩
  | spawn => exact ⟨hdirectory, h.cleared, h.file⟩
  | crash host pid =>
    refine ⟨hdirectory, fun i j a b hij hi hj => ?_, fun c hc hlive ticket bytes expected hphase => ?_⟩
    · rw [List.getElem?_map, Option.map_eq_some_iff] at hi hj
      obtain ⟨a, ha, rfl⟩ := hi
      obtain ⟨b, hb, rfl⟩ := hj
      exact (h.cleared i j a b hij ha hb).crash
    · obtain ⟨o, ho, rfl⟩ := List.mem_map.1 hc
      obtain ⟨-, -, -, hsame, hcrash⟩ := Contender.crash_of (c := o) host pid
      exact h.file o ho (hcrash hlive).1 ticket bytes expected (hsame ▸ hphase)
  | call name host pid waitMs staleMs =>
    refine ⟨hdirectory, h.cleared.append fun o _ => ⟨fun _ t ht => (nomatch ht),
      fun _ t _ => Or.inr (Or.inr trivial)⟩, ?_⟩
    intro c hc hlive ticket bytes expected hphase
    rcases List.mem_append.1 hc with hold | hnew
    · exact h.file c hold hlive ticket bytes expected hphase
    · obtain rfl := List.mem_singleton.1 hnew
      exact nomatch hphase
  | act i move c next hi hlive heffect => exact h.act hi hlive heffect

theorem leaseInv_of_reachable [DecidableEq κ] {file : Option β}
    (h : Run.Reachable (leaseStep hash) { file } db) : LeaseInv hash db := by
  refine h.invariant ⟨⟨pairs_nil, List.nodup_nil, ?_, ?_, ?_, ?_⟩, pairs_nil, ?_⟩
    fun _ _ _ hinv _ hstep => hinv.step hstep
  · exact fun _ hitem => absurd hitem List.not_mem_nil
  · exact fun _ hc => absurd hc List.not_mem_nil
  · exact fun _ hc => absurd hc List.not_mem_nil
  · exact fun _ hc => absurd hc List.not_mem_nil
  · exact fun _ hc => absurd hc List.not_mem_nil

/-! ## The order of service -/

/-- The call waits with a ticket. -/
def LeasePhase.waits : LeasePhase β κ → Bool
  | .waiting .. | .checking .. => true
  | _ => false

theorem LeasePhase.not_holds_of_waits (h : phase.waits = true) : phase.holds = false := by
  cases phase with
  | holding => exact nomatch h
  | _ => rfl

/-- The call `i` has published the ticket `t` and the call `j` is behind it, or the call `i` is over. -/
def ServedFirst (t : ℕ) (i j : ℕ) (db : SessionDb β κ) : Prop :=
  ∃ c, db.contenders[i]? = some c ∧ (c.crashed = true ∨ c.phase = .leaving ∨ c.phase = .gone ∨
    (c.phase.ticket = some t ∧ ∀ o, db.contenders[j]? = some o → o.Behind t c.name))

/-- A published ticket stays until the call is over. -/
theorem LeaseEffect.ticket (h : LeaseEffect hash db c move phase next) (hticket : phase.ticket = some t) :
    next.2.2 = .leaving ∨ next.2.2 = .gone ∨ next.2.2.ticket = some t := by
  cases h with
  | busy => exact Or.inl rfl
  | fail => exact Or.inl rfl
  | release => exact Or.inr (Or.inl rfl)
  | scan => exact Or.inr (Or.inr hticket)
  | gather => exact Or.inr (Or.inr hticket)
  | own => exact Or.inr (Or.inr hticket)
  | reap => exact Or.inr (Or.inr hticket)
  | examine => exact Or.inr (Or.inr hticket)
  | hold => exact Or.inr (Or.inr hticket)
  | again => exact Or.inr (Or.inr hticket)
  | touch => exact Or.inr (Or.inr hticket)
  | save => exact Or.inr (Or.inr hticket)
  | replace => exact Or.inr (Or.inr hticket)
  | _ => exact nomatch hticket

/-- A call that is over stays over. -/
theorem LeaseEffect.over (h : LeaseEffect hash db c move phase next)
    (hover : phase = .leaving ∨ phase = .gone) : next.2.2 = .leaving ∨ next.2.2 = .gone := by
  cases h with
  | fail => exact Or.inl rfl
  | leave => exact Or.inr rfl
  | giveUp => exact Or.inr rfl
  | _ => exact hover.elim nofun nofun

/-- No ticket is behind itself. -/
theorem not_behind_self (h : phase.ticket = some t) : ¬ phase.Behind t n n := by
  intro hbehind
  have hlt := before_of_behind hbehind h
  exact before_asymm hlt hlt

/-- The contender `k` moves. -/
theorem ServedFirst.act (h : ServedFirst t i j db) (hinv : LeaseInv hash db) {k : ℕ}
    (hk : db.contenders[k]? = some o) (hlive : o.crashed = false)
    (heffect : LeaseEffect hash db o move o.phase next) : ServedFirst t i j { db with
      entries := next.1, file := next.2.1, contenders := db.contenders.set k { o with phase := next.2.2 } } := by
  obtain ⟨c, hi, hserved⟩ := h
  by_cases hik : i = k
  · -- The call itself moves.
    subst hik
    obtain rfl := Option.some.inj (hi.symm.trans hk)
    refine ⟨_, getElem?_set_self_of_some hi, ?_⟩
    rcases hserved with hcrashed | hleaving | hgone | ⟨hticket, hbehind⟩
    · exact Or.inl hcrashed
    · rcases heffect.over (Or.inl hleaving) with hover | hover
      · exact Or.inr (Or.inl hover)
      · exact Or.inr (Or.inr (Or.inl hover))
    · rcases heffect.over (Or.inr hgone) with hover | hover
      · exact Or.inr (Or.inl hover)
      · exact Or.inr (Or.inr (Or.inl hover))
    · rcases heffect.ticket hticket with hover | hover | hkept
      · exact Or.inr (Or.inl hover)
      · exact Or.inr (Or.inr (Or.inl hover))
      · refine Or.inr (Or.inr (Or.inr ⟨hkept, fun o hj => ?_⟩))
        rcases getElem?_set_cases hj with ⟨rfl, rfl⟩ | ⟨-, hold⟩
        · rcases hbehind c hi with hcrashed | hself
          · exact Or.inl hcrashed
          · exact absurd hself (not_behind_self hticket)
        · exact hbehind o hold
  · refine ⟨c, (List.getElem?_set_ne (Ne.symm hik)).trans hi, ?_⟩
    rcases hserved with hcrashed | hleaving | hgone | ⟨hticket, hbehind⟩
    · exact Or.inl hcrashed
    · exact Or.inr (Or.inl hleaving)
    · exact Or.inr (Or.inr (Or.inl hgone))
    · by_cases hcrashed : c.crashed = true
      · exact Or.inl hcrashed
      refine Or.inr (Or.inr (Or.inr ⟨hticket, fun a hj => ?_⟩))
      rcases getElem?_set_cases hj with ⟨rfl, rfl⟩ | ⟨-, hold⟩
      · refine (hbehind o hk).imp_right fun hwas => ?_
        obtain ⟨item, hitem, hname, hfound⟩ := hinv.directory.present c (List.mem_of_getElem? hi)
          (Bool.eq_false_iff.2 hcrashed) (LeasePhase.listed_of_ticket hticket)
        exact heffect.behind hwas hinv.directory.entryNames hitem hname (hfound.trans hticket)
      · exact hbehind a hold

theorem ServedFirst.step [DecidableEq κ] (h : ServedFirst t i j db) (hinv : LeaseInv hash db)
    (hstep : leaseStep hash db action = some db') : ServedFirst t i j db' := by
  cases stepEffect hstep with
  | tick => exact h
  | spawn => exact h
  | crash host pid =>
    obtain ⟨c, hi, hserved⟩ := h
    obtain ⟨hname, -, -, hphase, hcrash⟩ := Contender.crash_of (c := c) host pid
    refine ⟨c.crash host pid, by simp [hi], ?_⟩
    rw [hphase, hname]
    rcases hserved with hcrashed | hleaving | hgone | ⟨hticket, hbehind⟩
    · refine Or.inl (eq_true_of_ne_false fun hlive => ?_)
      rw [(hcrash hlive).1] at hcrashed
      exact nomatch hcrashed
    · exact Or.inr (Or.inl hleaving)
    · exact Or.inr (Or.inr (Or.inl hgone))
    · refine Or.inr (Or.inr (Or.inr ⟨hticket, fun o hj => ?_⟩))
      rw [List.getElem?_map, Option.map_eq_some_iff] at hj
      obtain ⟨o, hold, rfl⟩ := hj
      exact (hbehind o hold).crash
  | call name host pid waitMs staleMs =>
    obtain ⟨c, hi, hserved⟩ := h
    refine ⟨c, getElem?_append_of_some hi, ?_⟩
    refine hserved.imp_right fun hserved => hserved.imp_right fun hserved => hserved.imp_right ?_
    rintro ⟨hticket, hbehind⟩
    refine ⟨hticket, fun o hj => ?_⟩
    rcases getElem?_append_cases hj with hold | ⟨-, hnew⟩
    · exact hbehind o hold
    · obtain rfl := List.mem_singleton.1 hnew
      exact Or.inr trivial
  | act k move o next hk hlive heffect => exact h.act hinv hk hlive heffect

theorem servedFirst_of_reachable [DecidableEq κ] (h : Run.Reachable (leaseStep hash) db last) (hinv : LeaseInv hash db)
    (hserved : ServedFirst t i j db) : LeaseInv hash last ∧ ServedFirst t i j last :=
  h.invariant (I := fun db => LeaseInv hash db ∧ ServedFirst t i j db) ⟨hinv, hserved⟩
    fun _ _ _ hinv _ hstep => ⟨hinv.1.step hstep, hinv.2.step hinv.1 hstep⟩

/-- While a call waits, none that is behind it holds the lease. -/
theorem ServedFirst.not_holds (h : ServedFirst t i j db) (hinv : LeaseInv hash db)
    (hi : db.contenders[i]? = some c) (hj : db.contenders[j]? = some o) (hc : c.crashed = false)
    (ho : o.crashed = false) (hwaits : c.phase.waits = true) : o.phase.holds = false := by
  rw [← Bool.not_eq_true]
  intro hholds
  obtain ⟨c', hi', hserved⟩ := h
  obtain rfl := Option.some.inj (hi'.symm.trans hi)
  have hij : j ≠ i := by
    rintro rfl
    obtain rfl := Option.some.inj (hj.symm.trans hi)
    rw [LeasePhase.not_holds_of_waits hwaits] at hholds
    exact nomatch hholds
  rcases hserved with hcrashed | hleaving | hgone | ⟨hticket, hbehind⟩
  · rw [hc] at hcrashed
    exact nomatch hcrashed
  · rw [hleaving] at hwaits
    exact nomatch hwaits
  · rw [hgone] at hwaits
    exact nomatch hwaits
  · obtain ⟨t', ht'⟩ := LeasePhase.ticket_of_holds hholds
    have hbehind' := (hinv.cleared j i o c' hij hj hi).behind_of_holds ho ht' hholds
    exact before_asymm ((hbehind o hj).before ho ht') (hbehind'.before hc hticket)

/-! ## Entries and the file -/

/-- A call removes its own entry in two moves. -/
theorem EntriesEffect.mem_name {phase' : LeasePhase β κ} {entries : List Entry}
    (h : EntriesEffect db c move phase phase' entries) (hmem : c.name ∈ db.entries.map Entry.name) :
    c.name ∈ entries.map Entry.name ∨ move = .leave ∨ move = .release := by
  obtain ⟨item, hitem, hname⟩ := List.mem_map.1 hmem
  cases h with
  | same => exact Or.inl hmem
  | enter => exact Or.inl (List.mem_map.2 ⟨item, List.mem_append_left _ hitem, hname⟩)
  | reap dead _ hne =>
    have hkept : item ∈ removeEntry dead.name db.entries :=
      mem_removeEntry.2 ⟨hitem, fun heq => hne (heq.symm.trans hname)⟩
    exact Or.inl (List.mem_map.2 ⟨item, hkept, hname⟩)
  | update f hf =>
    rw [map_name_updateEntry fun item => (hf item).1]
    exact Or.inl hmem
  | remove _ hmove => exact Or.inr hmove

/-- Nobody else removes the entry of a running call. -/
theorem removed_by_itself [DecidableEq κ] (h : DirectoryInv db) (hstep : leaseStep hash db action = some db')
    (hi : db.contenders[i]? = some c) (hlive : c.crashed = false) (hmem : c.name ∈ db.entries.map Entry.name)
    (hgone : c.name ∉ db'.entries.map Entry.name) : action = .act i .leave ∨ action = .act i .release := by
  cases stepEffect hstep with
  | tick => exact absurd hmem hgone
  | spawn => exact absurd hmem hgone
  | crash => exact absurd hmem hgone
  | call => exact absurd hmem hgone
  | act k move o next hk _ heffect =>
    by_cases hik : i = k
    · subst hik
      obtain rfl := Option.some.inj (hi.symm.trans hk)
      exact (heffect.entries.mem_name hmem).elim (absurd · hgone)
        (Or.imp (congrArg (LeaseAction.act i)) (congrArg (LeaseAction.act i)))
    · obtain ⟨item, hitem, hname⟩ := List.mem_map.1 hmem
      have hkept := mem_entries_of_effect heffect.entries h (List.mem_of_getElem? hk) (List.mem_of_getElem? hi) hlive
        (h.names i k c o hik hi hk) hitem hname
      exact absurd (List.mem_map.2 ⟨item, hkept, hname⟩) hgone

/-- The file changes in one way: the holder replaces it. -/
theorem replaced_by_holder [DecidableEq κ] (h : LeaseInv hash db) (hstep : leaseStep hash db action = some db')
    (hfile : db'.file ≠ db.file) : ∃ i c ticket bytes expected, action = .act i .replace ∧
      db.contenders[i]? = some c ∧ c.crashed = false ∧ c.phase = .holding ticket (.verified bytes expected) ∧
        db.file.map hash = expected ∧ db'.file = some bytes := by
  cases stepEffect hstep with
  | tick => exact absurd rfl hfile
  | spawn => exact absurd rfl hfile
  | crash => exact absurd rfl hfile
  | call => exact absurd rfl hfile
  | act i move c next hi hlive heffect =>
    rcases heffect.file with hkept | ⟨ticket, bytes, expected, rfl, hphase, hnext, -⟩
    · exact absurd hkept hfile
    · exact ⟨i, c, ticket, bytes, expected, rfl, hi, hlive, hphase,
        h.file c (List.mem_of_getElem? hi) hlive ticket bytes expected hphase, hnext⟩

end AmoAnalytics.BrowserSession
