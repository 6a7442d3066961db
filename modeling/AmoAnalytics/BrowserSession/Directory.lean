import AmoAnalytics.BrowserSession.Lease
import AmoAnalytics.Lib.Actors

/-!
# The lock directory

What a move does, and what holds of the directory in every state: the names are unique, an entry and whatever a
scan has read of it belong to a call that has entered, and the entry of a call that runs is there with the ticket
of the call. The entry of a running call is removed by the call itself only.
-/

namespace AmoAnalytics.BrowserSession

open Actors

variable {β κ : Type} {hash : β → κ} {db db' : SessionDb β κ} {c o : Contender β κ}
  {move : Move β κ} {phase : LeasePhase β κ} {next : List Entry × Option β × LeasePhase β κ} {item : Entry}
  {i j : ℕ}

/-! ## One move -/

/-- What a move of a contender does. -/
inductive LeaseEffect (hash : β → κ) (db : SessionDb β κ) (c : Contender β κ) :
    Move β κ → LeasePhase β κ → List Entry × Option β × LeasePhase β κ → Prop
  | enter : LeaseEffect hash db c .enter .preparing
      (db.entries ++ [⟨c.name, c.host, c.pid, none, db.now⟩], db.file, .choosing .closed)
  | firstScan (m : ScanMove String) (scan scan' : Scan String Entry)
      (h : scan.move Entry.name db.entries m = some scan') :
      LeaseEffect hash db c (.scan m) (.choosing scan) (db.entries, db.file, .choosing scan')
  | firstGather (scan : Scan String Entry) (initial : List Entry) (h : scan.result = some initial) :
      LeaseEffect hash db c .gather (.choosing scan) (db.entries, db.file, .reaping initial initial)
  | firstReap (initial items : List Entry) (item : Entry) (hname : item.name ≠ c.name)
      (h : db.reaps c item = true) : LeaseEffect hash db c .examine (.reaping initial (item :: items))
        (removeEntry item.name db.entries, db.file, .reaping initial items)
  | firstSkip (initial items : List Entry) (item : Entry) :
      LeaseEffect hash db c .examine (.reaping initial (item :: items))
        (db.entries, db.file, .reaping initial items)
  | publish (initial : List Entry) (ticket deadline : ℕ) (h : ticket = nextTicket initial) :
      LeaseEffect hash db c .publish (.reaping initial [])
        (updateEntry c.name (Entry.publish ticket) db.entries, db.file, .waiting ticket deadline .closed)
  | overflow (initial : List Entry) :
      LeaseEffect hash db c .publish (.reaping initial []) (db.entries, db.file, .leaving)
  | scan (m : ScanMove String) (ticket deadline : ℕ) (scan scan' : Scan String Entry)
      (h : scan.move Entry.name db.entries m = some scan') :
      LeaseEffect hash db c (.scan m) (.waiting ticket deadline scan)
        (db.entries, db.file, .waiting ticket deadline scan')
  | gather (ticket deadline : ℕ) (scan : Scan String Entry) (items : List Entry) (h : scan.result = some items) :
      LeaseEffect hash db c .gather (.waiting ticket deadline scan)
        (db.entries, db.file, .checking ticket deadline items false)
  | own (ticket deadline : ℕ) (items : List Entry) (item : Entry) (blocked : Bool) (h : item.name = c.name) :
      LeaseEffect hash db c .examine (.checking ticket deadline (item :: items) blocked)
        (db.entries, db.file, .checking ticket deadline items blocked)
  | reap (ticket deadline : ℕ) (items : List Entry) (item : Entry) (blocked : Bool) (hname : item.name ≠ c.name)
      (h : db.reaps c item = true) : LeaseEffect hash db c .examine (.checking ticket deadline (item :: items) blocked)
        (removeEntry item.name db.entries, db.file, .checking ticket deadline items blocked)
  | examine (ticket deadline : ℕ) (items : List Entry) (item : Entry) (blocked : Bool) :
      LeaseEffect hash db c .examine (.checking ticket deadline (item :: items) blocked)
        (db.entries, db.file, .checking ticket deadline items (blocked || item.blocks ticket c.name))
  | hold (ticket deadline : ℕ) : LeaseEffect hash db c .finish (.checking ticket deadline [] false)
      (db.entries, db.file, .holding ticket .idle)
  | again (ticket deadline : ℕ) : LeaseEffect hash db c .finish (.checking ticket deadline [] true)
      (db.entries, db.file, .waiting ticket deadline .closed)
  | busy (ticket deadline : ℕ) : LeaseEffect hash db c .finish (.checking ticket deadline [] true)
      (db.entries, db.file, .leaving)
  | giveUp : LeaseEffect hash db c .fail .preparing (db.entries, db.file, .gone)
  | fail (phase : LeasePhase β κ) : LeaseEffect hash db c .fail phase (db.entries, db.file, .leaving)
  | leave : LeaseEffect hash db c .leave .leaving (removeEntry c.name db.entries, db.file, .gone)
  | touch (ticket : ℕ) (save : SavePhase β κ) : LeaseEffect hash db c .touch (.holding ticket save)
      (updateEntry c.name (Entry.touch db.now) db.entries, db.file, .holding ticket save)
  | save (move : Move β κ) (ticket : ℕ) (save save' : SavePhase β κ)
      (h : ∀ bytes expected, save' = .verified bytes expected → db.file.map hash = expected) :
      LeaseEffect hash db c move (.holding ticket save) (db.entries, db.file, .holding ticket save')
  | replace (ticket : ℕ) (bytes : β) (expected : Option κ) :
      LeaseEffect hash db c .replace (.holding ticket (.verified bytes expected))
        (db.entries, some bytes, .holding ticket .idle)
  | release (ticket : ℕ) : LeaseEffect hash db c .release (.holding ticket .idle)
      (removeEntry c.name db.entries, db.file, .gone)

theorem leaseEffect [DecidableEq κ] (h : db.move c hash move phase = some next) : LeaseEffect hash db c move phase next := by
  unfold SessionDb.move at h
  split at h
  case h_1 =>
    obtain rfl := Option.some.inj h
    exact .enter
  case h_2 m scan =>
    obtain ⟨scan', hscan, rfl⟩ := Option.map_eq_some_iff.1 h
    exact .firstScan m scan scan' hscan
  case h_3 scan =>
    obtain ⟨initial, hinitial, rfl⟩ := Option.map_eq_some_iff.1 h
    exact .firstGather scan initial hinitial
  case h_4 initial item items =>
    obtain rfl := Option.some.inj h
    split_ifs with hreap
    · exact .firstReap initial items item hreap.1 hreap.2
    · exact .firstSkip initial items item
  case h_5 initial =>
    split_ifs at h
    · obtain rfl := Option.some.inj h
      exact .publish initial _ _ rfl
    · obtain rfl := Option.some.inj h
      exact .overflow initial
  case h_6 m ticket deadline scan =>
    obtain ⟨scan', hscan, rfl⟩ := Option.map_eq_some_iff.1 h
    exact .scan m ticket deadline scan scan' hscan
  case h_7 ticket deadline scan =>
    obtain ⟨items, hitems, rfl⟩ := Option.map_eq_some_iff.1 h
    exact .gather ticket deadline scan items hitems
  case h_8 ticket deadline item items blocked =>
    split_ifs at h with hname hreap
    · obtain rfl := Option.some.inj h
      exact .own ticket deadline items item blocked hname
    · obtain rfl := Option.some.inj h
      exact .reap ticket deadline items item blocked hname hreap
    · obtain rfl := Option.some.inj h
      exact .examine ticket deadline items item blocked
  case h_9 ticket deadline blocked =>
    obtain rfl := Option.some.inj h
    cases blocked with
    | false => exact .hold ticket deadline
    | true =>
      rw [if_neg (by simp)]
      split_ifs
      · exact .busy ticket deadline
      · exact .again ticket deadline
  case h_10 =>
    obtain rfl := Option.some.inj h
    exact .giveUp
  case h_11 =>
    obtain rfl := Option.some.inj h
    exact .fail _
  case h_12 =>
    obtain rfl := Option.some.inj h
    exact .fail _
  case h_13 =>
    obtain rfl := Option.some.inj h
    exact .fail _
  case h_14 =>
    obtain rfl := Option.some.inj h
    exact .fail _
  case h_15 =>
    obtain rfl := Option.some.inj h
    exact .leave
  case h_16 ticket save =>
    obtain rfl := Option.some.inj h
    exact .touch ticket save
  case h_17 =>
    obtain rfl := Option.some.inj h
    exact .save _ _ _ _ nofun
  case h_18 =>
    obtain rfl := Option.some.inj h
    refine .save _ _ _ _ fun bytes expected hsave => ?_
    split_ifs at hsave
  case h_19 =>
    obtain rfl := Option.some.inj h
    exact .save _ _ _ _ nofun
  case h_20 =>
    obtain rfl := Option.some.inj h
    refine .save _ _ _ _ fun bytes expected hsave => ?_
    split_ifs at hsave with hsame
    cases hsave
    exact hsame
  case h_21 ticket bytes expected =>
    obtain rfl := Option.some.inj h
    exact .replace ticket bytes expected
  case h_22 =>
    obtain rfl := Option.some.inj h
    exact .save _ _ _ _ nofun
  case h_23 ticket =>
    obtain rfl := Option.some.inj h
    exact .release ticket
  case h_24 => exact nomatch h

/-! ## Phases -/

/-- The ticket that a call has published. -/
def LeasePhase.ticket : LeasePhase β κ → Option ℕ
  | .waiting ticket _ _ | .checking ticket _ _ _ | .holding ticket _ => some ticket
  | _ => none

/-- The call has an entry that it needs. -/
def LeasePhase.listed : LeasePhase β κ → Bool
  | .choosing _ | .reaping .. | .waiting .. | .checking .. | .holding .. => true
  | .preparing | .leaving | .gone => false

/-- What the scans of a call have read. -/
def LeasePhase.items : LeasePhase β κ → List Entry
  | .choosing scan | .waiting _ _ scan => scan.items
  | .reaping initial items => initial ++ items
  | .checking _ _ items _ => items
  | _ => []

theorem LeasePhase.listed_of_ticket {t : ℕ} (h : phase.ticket = some t) : phase.listed = true := by
  cases phase with
  | waiting => rfl
  | checking => rfl
  | holding => rfl
  | _ => exact nomatch h

/-- No move goes back to the preparation. -/
theorem LeaseEffect.ne_preparing (h : LeaseEffect hash db c move phase next) : next.2.2 ≠ .preparing := by
  cases h <;> exact nofun

/-- What a move reads is an entry of the directory, or has been read before. -/
theorem LeaseEffect.mem_items (h : LeaseEffect hash db c move phase next) (hitem : item ∈ next.2.2.items) :
    item ∈ phase.items ∨ item ∈ db.entries := by
  cases h with
  | firstScan m scan scan' hscan => exact Scan.mem_items_move hscan hitem
  | scan m ticket deadline scan scan' hscan => exact Scan.mem_items_move hscan hitem
  | firstGather scan initial hinitial =>
    have hmem : item ∈ initial := (List.mem_append.1 hitem).elim id id
    exact Or.inl (Scan.mem_items_result hinitial hmem)
  | gather ticket deadline scan items hitems => exact Or.inl (Scan.mem_items_result hitems hitem)
  | firstReap initial items other =>
    exact Or.inl ((List.mem_append.1 hitem).elim (List.mem_append_left _) fun hmem =>
      List.mem_append_right _ (List.mem_cons_of_mem _ hmem))
  | firstSkip initial items other =>
    exact Or.inl ((List.mem_append.1 hitem).elim (List.mem_append_left _) fun hmem =>
      List.mem_append_right _ (List.mem_cons_of_mem _ hmem))
  | own => exact Or.inl (List.mem_cons_of_mem _ hitem)
  | reap => exact Or.inl (List.mem_cons_of_mem _ hitem)
  | examine => exact Or.inl (List.mem_cons_of_mem _ hitem)
  | _ => exact absurd hitem List.not_mem_nil

/-! ## Entries -/

theorem mem_removeEntry {name : String} {entries : List Entry} :
    item ∈ removeEntry name entries ↔ item ∈ entries ∧ item.name ≠ name := by
  simp [removeEntry]

theorem map_name_updateEntry {name : String} {f : Entry → Entry} {entries : List Entry}
    (hf : ∀ item, (f item).name = item.name) :
    (updateEntry name f entries).map Entry.name = entries.map Entry.name := by
  unfold updateEntry
  rw [List.map_map]
  refine List.map_congr_left fun item _ => ?_
  simp only [Function.comp_apply]
  split_ifs
  · exact hf item
  · rfl

/-- The four ways in which a move changes the directory. -/
inductive EntriesEffect (db : SessionDb β κ) (c : Contender β κ) (move : Move β κ) (phase : LeasePhase β κ)
    (phase' : LeasePhase β κ) : List Entry → Prop
  | same : EntriesEffect db c move phase phase' db.entries
  | enter (h : phase = .preparing) :
      EntriesEffect db c move phase phase' (db.entries ++ [⟨c.name, c.host, c.pid, none, db.now⟩])
  | reap (item : Entry) (hitem : item ∈ phase.items) (hname : item.name ≠ c.name)
      (h : db.definitelyDead c item = true) :
      EntriesEffect db c move phase phase' (removeEntry item.name db.entries)
  | update (f : Entry → Entry) (hf : ∀ item, (f item).name = item.name ∧ (f item).host = item.host ∧
      (f item).pid = item.pid) : EntriesEffect db c move phase phase' (updateEntry c.name f db.entries)
  | remove (h : phase' = .gone) (hmove : move = .leave ∨ move = .release) :
      EntriesEffect db c move phase phase' (removeEntry c.name db.entries)

theorem LeaseEffect.entries (h : LeaseEffect hash db c move phase next) :
    EntriesEffect db c move phase next.2.2 next.1 := by
  cases h with
  | enter => exact .enter rfl
  | firstReap initial items item hname hreap =>
    exact .reap item (List.mem_append_right _ List.mem_cons_self) hname (Bool.and_eq_true_iff.1 hreap).2
  | reap ticket deadline items item blocked hname hreap =>
    exact .reap item List.mem_cons_self hname (Bool.and_eq_true_iff.1 hreap).2
  | publish => exact .update _ fun _ => ⟨rfl, rfl, rfl⟩
  | touch => exact .update _ fun _ => ⟨rfl, rfl, rfl⟩
  | leave => exact .remove rfl (Or.inl rfl)
  | release => exact .remove rfl (Or.inr rfl)
  | _ => exact .same

/-- The entry of a contender that needs it, with its ticket. -/
def Contender.isPresent (entries : List Entry) (name : String) (phase : LeasePhase β κ) : Prop :=
  ∃ item ∈ entries, item.name = name ∧ item.ticket = phase.ticket

/-- The entry of the call that moves. -/
theorem LeaseEffect.present (h : LeaseEffect hash db c move phase next)
    (hpresent : phase.listed = true → Contender.isPresent db.entries c.name phase)
    (hlisted : next.2.2.listed = true) : Contender.isPresent next.1 c.name next.2.2 := by
  cases h with
  | enter => exact ⟨_, List.mem_append_right _ (List.mem_singleton_self _), rfl, rfl⟩
  | firstReap initial items other hname =>
    obtain ⟨item, hitem, hown, hticket⟩ := hpresent rfl
    exact ⟨item, mem_removeEntry.2 ⟨hitem, fun heq => hname (heq.symm.trans hown)⟩, hown, hticket⟩
  | reap ticket deadline items other blocked hname =>
    obtain ⟨item, hitem, hown, hticket⟩ := hpresent rfl
    exact ⟨item, mem_removeEntry.2 ⟨hitem, fun heq => hname (heq.symm.trans hown)⟩, hown, hticket⟩
  | publish initial ticket deadline =>
    obtain ⟨item, hitem, hown, -⟩ := hpresent rfl
    refine ⟨item.publish ticket, List.mem_map.2 ⟨item, hitem, if_pos hown⟩, hown, rfl⟩
  | touch ticket save =>
    obtain ⟨item, hitem, hown, hticket⟩ := hpresent rfl
    exact ⟨item.touch db.now, List.mem_map.2 ⟨item, hitem, if_pos hown⟩, hown, hticket⟩
  | overflow => exact nomatch hlisted
  | busy => exact nomatch hlisted
  | giveUp => exact nomatch hlisted
  | fail => exact nomatch hlisted
  | leave => exact nomatch hlisted
  | release => exact nomatch hlisted
  | _ => exact hpresent rfl

/-! ## The invariant -/

/-- An entry of the directory, or what has been read of one, belongs to a call that has entered. -/
def Owned (contenders : List (Contender β κ)) (item : Entry) : Prop :=
  ∃ o ∈ contenders, o.name = item.name ∧ o.host = item.host ∧ o.pid = item.pid ∧ o.phase ≠ .preparing

structure DirectoryInv (db : SessionDb β κ) : Prop where
  names : Pairs (fun a b : Contender β κ => a.name ≠ b.name) db.contenders
  entryNames : (db.entries.map Entry.name).Nodup
  owners : ∀ item ∈ db.entries, Owned db.contenders item
  items : ∀ c ∈ db.contenders, ∀ item ∈ c.phase.items, Owned db.contenders item
  running : ∀ c ∈ db.contenders, c.crashed = false → db.running c.host c.pid = true
  present : ∀ c ∈ db.contenders, c.crashed = false → c.phase.listed = true →
    Contender.isPresent db.entries c.name c.phase

theorem DirectoryInv.eq_of_name (h : DirectoryInv db) (hc : c ∈ db.contenders) (ho : o ∈ db.contenders)
    (hname : c.name = o.name) : c = o := by
  obtain ⟨i, hi⟩ := List.mem_iff_getElem?.1 hc
  obtain ⟨j, hj⟩ := List.mem_iff_getElem?.1 ho
  by_cases hij : i = j
  · subst hij
    exact Option.some.inj (hi.symm.trans hj)
  · exact absurd hname (h.names i j c o hij hi hj)

/-- What is found dead is not the entry of a running call. -/
theorem DirectoryInv.crashed_of_dead (h : DirectoryInv db) (howned : Owned db.contenders item)
    (hdead : db.definitelyDead c item = true) (ho : o ∈ db.contenders) (hname : item.name = o.name) :
    o.crashed = true := by
  obtain ⟨o', ho', hname', hhost, hpid, -⟩ := howned
  obtain rfl := h.eq_of_name ho' ho (hname'.trans hname)
  rw [← Bool.not_eq_false]
  intro hlive
  have hrunning := h.running o' ho' hlive
  rw [hhost, hpid] at hrunning
  simp [SessionDb.definitelyDead, hrunning] at hdead

/-- A call that goes on leaves the owners. -/
theorem Owned.set (h : Owned db.contenders item) (hi : db.contenders[i]? = some c) (hphase : phase ≠ .preparing) :
    Owned (db.contenders.set i { c with phase }) item := by
  obtain ⟨o, ho, hname, hhost, hpid, hentered⟩ := h
  obtain ⟨j, hj⟩ := List.mem_iff_getElem?.1 ho
  by_cases hij : j = i
  · subst hij
    obtain rfl := Option.some.inj (hi.symm.trans hj)
    exact ⟨_, List.mem_of_getElem? (getElem?_set_self_of_some hi), hname, hhost, hpid, hphase⟩
  · refine ⟨o, List.mem_of_getElem? (i := j) ?_, hname, hhost, hpid, hentered⟩
    rw [List.getElem?_set_ne (Ne.symm hij)]
    exact hj

/-- The entry of another running call stays as it is. -/
theorem mem_entries_of_effect {entries : List Entry} {phase' : LeasePhase β κ}
    (h : EntriesEffect db c move c.phase phase' entries) (hinv : DirectoryInv db) (hc : c ∈ db.contenders)
    (ho : o ∈ db.contenders) (hlive : o.crashed = false) (hne : o.name ≠ c.name) (hitem : item ∈ db.entries)
    (hname : item.name = o.name) : item ∈ entries := by
  cases h with
  | same => exact hitem
  | enter => exact List.mem_append_left _ hitem
  | reap dead hdead hnot hreap =>
    refine mem_removeEntry.2 ⟨hitem, fun heq => ?_⟩
    have hcrashed := hinv.crashed_of_dead (hinv.items c hc dead hdead) hreap ho (heq.symm.trans hname)
    rw [hlive] at hcrashed
    exact nomatch hcrashed
  | update f => exact List.mem_map.2 ⟨item, hitem, if_neg fun heq => hne (hname.symm.trans heq)⟩
  | remove => exact mem_removeEntry.2 ⟨hitem, fun heq => hne (hname.symm.trans heq)⟩

/-- An entry after a move: its name, host and process id were there, or it is the new entry of the call. -/
theorem entry_of_effect {entries : List Entry} {phase' : LeasePhase β κ}
    (h : EntriesEffect db c move phase phase' entries) (hitem : item ∈ entries) :
    (∃ old ∈ db.entries, item.name = old.name ∧ item.host = old.host ∧ item.pid = old.pid) ∨
      (item.name = c.name ∧ item.host = c.host ∧ item.pid = c.pid) := by
  cases h with
  | same => exact Or.inl ⟨item, hitem, rfl, rfl, rfl⟩
  | enter =>
    rcases List.mem_append.1 hitem with hold | hnew
    · exact Or.inl ⟨item, hold, rfl, rfl, rfl⟩
    · obtain rfl := List.mem_singleton.1 hnew
      exact Or.inr ⟨rfl, rfl, rfl⟩
  | reap => exact Or.inl ⟨item, (mem_removeEntry.1 hitem).1, rfl, rfl, rfl⟩
  | update f hf =>
    obtain ⟨old, hold, rfl⟩ := List.mem_map.1 hitem
    refine Or.inl ⟨old, hold, ?_⟩
    split_ifs
    · exact hf old
    · exact ⟨rfl, rfl, rfl⟩
  | remove => exact Or.inl ⟨item, (mem_removeEntry.1 hitem).1, rfl, rfl, rfl⟩

/-- A call that has not entered has no entry. -/
theorem DirectoryInv.not_mem_of_preparing (h : DirectoryInv db) (hc : c ∈ db.contenders)
    (hphase : c.phase = .preparing) : c.name ∉ db.entries.map Entry.name := by
  intro hmem
  obtain ⟨item, hitem, hname⟩ := List.mem_map.1 hmem
  obtain ⟨o, ho, hown, -, -, hentered⟩ := h.owners item hitem
  obtain rfl := h.eq_of_name ho hc (hown.trans hname)
  exact hentered hphase

theorem entryNames_of_effect {entries : List Entry} {phase' : LeasePhase β κ}
    (h : EntriesEffect db c move c.phase phase' entries) (hinv : DirectoryInv db) (hc : c ∈ db.contenders) :
    (entries.map Entry.name).Nodup := by
  cases h with
  | same => exact hinv.entryNames
  | enter hphase =>
    rw [List.map_append]
    exact hinv.entryNames.append (List.nodup_singleton _)
      (List.disjoint_singleton.2 (hinv.not_mem_of_preparing hc hphase))
  | reap => exact hinv.entryNames.sublist (List.Sublist.map _ List.filter_sublist)
  | update f hf =>
    rw [map_name_updateEntry fun item => (hf item).1]
    exact hinv.entryNames
  | remove => exact hinv.entryNames.sublist (List.Sublist.map _ List.filter_sublist)

theorem DirectoryInv.act (h : DirectoryInv db) (hi : db.contenders[i]? = some c) (hlive : c.crashed = false)
    (heffect : LeaseEffect hash db c move c.phase next) :
    DirectoryInv { db with
      entries := next.1, file := next.2.1, contenders := db.contenders.set i { c with phase := next.2.2 } } := by
  have hc := List.mem_of_getElem? hi
  have hentries := heffect.entries
  have howned : ∀ item, Owned db.contenders item →
      Owned (db.contenders.set i { c with phase := next.2.2 }) item :=
    fun item hitem => hitem.set hi heffect.ne_preparing
  constructor
  · exact h.names.set fun j b hji hj => ⟨h.names i j c b hji.symm hi hj, h.names j i b c hji hj hi⟩
  · exact entryNames_of_effect hentries h hc
  · intro item hitem
    rcases entry_of_effect hentries hitem with ⟨old, hold, hname, hhost, hpid⟩ | ⟨hname, hhost, hpid⟩
    · obtain ⟨o, ho, hown⟩ := howned old (h.owners old hold)
      exact ⟨o, ho, by rw [hname, hhost, hpid]; exact hown⟩
    · exact ⟨_, List.mem_of_getElem? (getElem?_set_self_of_some hi), hname.symm, hhost.symm, hpid.symm,
        heffect.ne_preparing⟩
  · refine forall_mem_set (fun item hitem => howned item ?_) fun j b _ hj item hitem =>
      howned item (h.items b (List.mem_of_getElem? hj) item hitem)
    exact (heffect.mem_items hitem).elim (h.items c hc item) (h.owners item)
  · exact forall_mem_set (fun _ => h.running c hc hlive) fun j b _ hj => h.running b (List.mem_of_getElem? hj)
  · refine forall_mem_set (fun _ hlisted => heffect.present (h.present c hc hlive) hlisted)
      fun j b hji hj hblive hlisted => ?_
    have hb := List.mem_of_getElem? hj
    obtain ⟨item, hitem, hname, hticket⟩ := h.present b hb hblive hlisted
    exact ⟨item, mem_entries_of_effect hentries h hc hb hblive (h.names j i b c hji hj hi) hitem hname, hname, hticket⟩

theorem Contender.crash_of (host : String) (pid : ℕ) : (c.crash host pid).name = c.name ∧
    (c.crash host pid).host = c.host ∧ (c.crash host pid).pid = c.pid ∧ (c.crash host pid).phase = c.phase ∧
      ((c.crash host pid).crashed = false → c.crashed = false ∧ ¬ (c.host = host ∧ c.pid = pid)) := by
  unfold Contender.crash
  split_ifs with hsame
  · exact ⟨rfl, rfl, rfl, rfl, nofun⟩
  · exact ⟨rfl, rfl, rfl, rfl, fun hlive => ⟨hlive, hsame⟩⟩

theorem Owned.crash {host : String} {pid : ℕ} (h : Owned db.contenders item) :
    Owned (db.contenders.map (·.crash host pid)) item := by
  obtain ⟨o, ho, hown⟩ := h
  obtain ⟨hname, hhost, hpid, hphase, -⟩ := Contender.crash_of (c := o) host pid
  exact ⟨_, List.mem_map.2 ⟨o, ho, rfl⟩, by rw [hname, hhost, hpid, hphase]; exact hown⟩

/-- The end of a process. -/
theorem DirectoryInv.crash {host : String} {pid : ℕ} (h : DirectoryInv db) :
    DirectoryInv { db with
      running := fun h p => if h = host ∧ p = pid then false else db.running h p
      contenders := db.contenders.map (·.crash host pid) } := by
  have hold : ∀ c ∈ db.contenders.map (·.crash host pid), ∃ o ∈ db.contenders, c = o.crash host pid := by
    intro c hc
    obtain ⟨o, ho, rfl⟩ := List.mem_map.1 hc
    exact ⟨o, ho, rfl⟩
  constructor
  · intro i j a b hij hi hj
    rw [List.getElem?_map, Option.map_eq_some_iff] at hi hj
    obtain ⟨a, ha, rfl⟩ := hi
    obtain ⟨b, hb, rfl⟩ := hj
    rw [(Contender.crash_of host pid).1, (Contender.crash_of host pid).1]
    exact h.names i j a b hij ha hb
  · exact h.entryNames
  · exact fun item hitem => (h.owners item hitem).crash
  · intro c hc item hitem
    obtain ⟨o, ho, rfl⟩ := hold c hc
    rw [(Contender.crash_of host pid).2.2.2.1] at hitem
    exact (h.items o ho item hitem).crash
  · intro c hc hlive
    obtain ⟨o, ho, rfl⟩ := hold c hc
    obtain ⟨-, hhost, hpid, -, hcrash⟩ := Contender.crash_of (c := o) host pid
    obtain ⟨hwas, hnot⟩ := hcrash hlive
    rw [hhost, hpid]
    exact (if_neg hnot).trans (h.running o ho hwas)
  · intro c hc hlive hlisted
    obtain ⟨o, ho, rfl⟩ := hold c hc
    obtain ⟨hname, -, -, hphase, hcrash⟩ := Contender.crash_of (c := o) host pid
    rw [hphase] at hlisted ⊢
    rw [hname]
    exact h.present o ho (hcrash hlive).1 hlisted

/-- What a step of the system is. -/
inductive StepEffect (hash : β → κ) (db : SessionDb β κ) : LeaseAction β κ → SessionDb β κ → Prop
  | tick (elapsed : ℕ) : StepEffect hash db (.tick elapsed) { db with now := db.now + elapsed }
  | spawn (host : String) (pid : ℕ) : StepEffect hash db (.spawn host pid)
      { db with running := fun h p => if h = host ∧ p = pid then true else db.running h p }
  | crash (host : String) (pid : ℕ) : StepEffect hash db (.crash host pid) { db with
      running := fun h p => if h = host ∧ p = pid then false else db.running h p
      contenders := db.contenders.map (·.crash host pid) }
  | call (name host : String) (pid waitMs staleMs : ℕ) (hrunning : db.running host pid = true)
      (hname : ∀ o ∈ db.contenders, o.name ≠ name) : StepEffect hash db (.call name host pid waitMs staleMs)
        { db with contenders := db.contenders ++ [{ name, host, pid, waitMs, staleMs }] }
  | act (i : ℕ) (move : Move β κ) (c : Contender β κ) (next : List Entry × Option β × LeasePhase β κ)
      (hi : db.contenders[i]? = some c) (hlive : c.crashed = false)
      (h : LeaseEffect hash db c move c.phase next) : StepEffect hash db (.act i move) { db with
        entries := next.1, file := next.2.1, contenders := db.contenders.set i { c with phase := next.2.2 } }

theorem stepEffect [DecidableEq κ] {action : LeaseAction β κ} (h : leaseStep hash db action = some db') :
    StepEffect hash db action db' := by
  cases action with
  | tick elapsed =>
    obtain rfl := Option.some.inj h
    exact .tick elapsed
  | spawn host pid =>
    simp only [leaseStep] at h
    split_ifs at h
    obtain rfl := Option.some.inj h
    exact .spawn host pid
  | crash host pid =>
    obtain rfl := Option.some.inj h
    exact .crash host pid
  | call name host pid waitMs staleMs =>
    simp only [leaseStep] at h
    split_ifs at h with hcall
    obtain rfl := Option.some.inj h
    exact .call name host pid waitMs staleMs hcall.1 fun o ho =>
      of_decide_eq_true (List.all_eq_true.1 hcall.2.1 o ho)
  | act i move =>
    obtain ⟨c, hi, hmove⟩ := Option.bind_eq_some_iff.1 h
    split_ifs at hmove with hcrashed
    obtain ⟨next, hnext, rfl⟩ := Option.map_eq_some_iff.1 hmove
    exact .act i move c next hi (Bool.eq_false_iff.2 hcrashed) (leaseEffect hnext)

theorem DirectoryInv.step [DecidableEq κ] {action : LeaseAction β κ} (h : DirectoryInv db)
    (hstep : leaseStep hash db action = some db') : DirectoryInv db' := by
  cases stepEffect hstep with
  | tick => exact ⟨h.names, h.entryNames, h.owners, h.items, h.running, h.present⟩
  | spawn host pid =>
    refine ⟨h.names, h.entryNames, h.owners, h.items, fun c hc hlive => ?_, h.present⟩
    dsimp only
    split_ifs
    · rfl
    · exact h.running c hc hlive
  | crash => exact h.crash
  | call name host pid waitMs staleMs hrunning hname =>
    set new : Contender β κ := { name, host, pid, waitMs, staleMs }
    have howned : ∀ item, Owned db.contenders item → Owned (db.contenders ++ [new]) item := by
      rintro item ⟨o, ho, hown⟩
      exact ⟨o, List.mem_append_left _ ho, hown⟩
    have hsplit : ∀ c ∈ db.contenders ++ [new], c ∈ db.contenders ∨ c = new :=
      fun c hc => (List.mem_append.1 hc).imp_right List.mem_singleton.1
    constructor
    · exact h.names.append fun o ho => ⟨(hname o ho).symm, hname o ho⟩
    · exact h.entryNames
    · exact fun item hitem => howned item (h.owners item hitem)
    · intro c hc item hitem
      rcases hsplit c hc with hold | rfl
      · exact howned item (h.items c hold item hitem)
      · exact absurd hitem List.not_mem_nil
    · intro c hc hlive
      rcases hsplit c hc with hold | rfl
      · exact h.running c hold hlive
      · exact hrunning
    · intro c hc hlive hlisted
      rcases hsplit c hc with hold | rfl
      · exact h.present c hold hlive hlisted
      · exact nomatch hlisted
  | act i move c next hi hlive heffect => exact h.act hi hlive heffect

end AmoAnalytics.BrowserSession
