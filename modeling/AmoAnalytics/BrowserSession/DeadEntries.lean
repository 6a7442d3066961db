import AmoAnalytics.BrowserSession.LeaseSafety

/-!
# Dead entries

An entry that is older than the stale limit, whose process is of the same host and whose process id is not in use,
is removed and does not block. If all other entries are such, a waiting contender gets the lease by its own moves.
An entry of another host, or one whose process id is in use again, blocks for good.
-/

namespace AmoAnalytics.BrowserSession

open Actors

variable {β κ : Type} [DecidableEq κ] {hash : β → κ} {start db db' : SessionDb β κ} {c o : Contender β κ}
  {move : Move β κ} {phase : LeasePhase β κ} {next : List Entry × Option β × LeasePhase β κ} {item : Entry}
  {i ticket deadline : ℕ} {items found : List Entry} {blocked : Bool}

/-! ## The moves of one contender -/

theorem leaseStep_act (hi : db.contenders[i]? = some c) (hlive : c.crashed = false)
    (hmove : db.move c hash move c.phase = some next) : leaseStep hash db (.act i move) = some { db with
      entries := next.1, file := next.2.1, contenders := db.contenders.set i { c with phase := next.2.2 } } := by
  simp only [leaseStep]
  rw [hi, Option.bind_some, if_neg (by simp [hlive]), hmove]
  rfl

/-- The call `i`, which was `c`, is in a phase, and the directory has these entries; neither the time nor the
processes have changed. -/
structure At (start : SessionDb β κ) (i : ℕ) (c : Contender β κ) (entries : List Entry) (phase : LeasePhase β κ)
    (db : SessionDb β κ) : Prop where
  contender : db.contenders[i]? = some { c with phase }
  entries_eq : db.entries = entries
  now : db.now = start.now
  running : db.running = start.running

/-- Only the call `i` moves. -/
def Alone (i : ℕ) (_ : SessionDb β κ) (action : LeaseAction β κ) : Prop := ∃ move, action = .act i move

/-- The call `i` comes to a phase by its own moves. -/
def Comes (hash : β → κ) (start : SessionDb β κ) (i : ℕ) (c : Contender β κ) (db : SessionDb β κ)
    (phase : LeasePhase β κ) : Prop :=
  ∃ db' entries, Run.ReachableVia (leaseStep hash) (Alone i) db db' ∧ At start i c entries phase db'

variable {entries : List Entry}

/-- A move of the call, and what comes after it. -/
theorem At.comes {phase' : LeasePhase β κ} (h : At start i c entries phase db) (hlive : c.crashed = false)
    (hmove : db.move { c with phase } hash move phase = some next)
    (hrest : ∀ db', At start i c next.1 next.2.2 db' → Comes hash start i c db' phase') :
    Comes hash start i c db phase' := by
  have hstep := leaseStep_act h.contender hlive hmove
  have hnext : At start i c next.1 next.2.2 { db with
      entries := next.1, file := next.2.1, contenders := db.contenders.set i { c with phase := next.2.2 } } :=
    ⟨getElem?_set_self_of_some h.contender, rfl, h.now, h.running⟩
  obtain ⟨db', last, hreach, hat⟩ := hrest _ hnext
  exact ⟨db', last, (Run.ReachableVia.single ⟨move, rfl⟩ hstep).trans hreach, hat⟩

/-! ## One round -/

/-- The names are listed. -/
theorem comes_list {before names listed : List String} (hlive : c.crashed = false)
    (hmem : ∀ n ∈ names, n ∈ entries.map Entry.name)
    (hrest : ∀ db', At start i c entries (.waiting ticket deadline (.listing before (listed ++ names))) db' →
      Comes hash start i c db' phase) :
    ∀ db, At start i c entries (.waiting ticket deadline (.listing before listed)) db →
      Comes hash start i c db phase := by
  induction names generalizing listed with
  | nil => exact fun db hat => hrest db (by rwa [List.append_nil])
  | cons n names ih =>
    rintro db ⟨hcontender, rfl, hnow, hrunning⟩
    have hlist : db.move { c with phase := .waiting ticket deadline (.listing before listed) } hash
        (.scan (.list n)) (.waiting ticket deadline (.listing before listed)) =
        some (db.entries, db.file, .waiting ticket deadline (.listing before (listed ++ [n]))) := by
      simp only [SessionDb.move, Scan.move]
      rw [if_pos (hmem n List.mem_cons_self)]
      rfl
    refine At.comes ⟨hcontender, rfl, hnow, hrunning⟩ hlive hlist (ih (fun m hm => hmem m (List.mem_cons_of_mem n hm)) ?_)
    rwa [List.append_assoc]

/-- The entries are read. -/
theorem comes_read {p : Entry → Prop} (hlive : c.crashed = false) (hentries : ∀ item ∈ entries, p item)
    {names : List String} (hfound : ∀ item ∈ found, p item)
    (hrest : ∀ items, (∀ item ∈ items, p item) → ∀ db', At start i c entries
      (.waiting ticket deadline (.reading [] items)) db' → Comes hash start i c db' phase) :
    ∀ db, At start i c entries (.waiting ticket deadline (.reading names found)) db →
      Comes hash start i c db phase := by
  induction names generalizing found with
  | nil => exact hrest found hfound
  | cons n names ih =>
    rintro db ⟨hcontender, rfl, hnow, hrunning⟩
    have hread : db.move { c with phase := .waiting ticket deadline (.reading (n :: names) found) } hash
        (.scan (.read n)) (.waiting ticket deadline (.reading (n :: names) found)) =
        some (db.entries, db.file, .waiting ticket deadline (.reading names
          (found ++ (db.entries.find? fun item => item.name = n).toList))) := by
      simp only [SessionDb.move, Scan.move]
      rw [if_pos List.mem_cons_self, List.erase_cons_head]
      rfl
    refine At.comes ⟨hcontender, rfl, hnow, hrunning⟩ hlive hread (ih fun item hitem => ?_)
    rcases List.mem_append.1 hitem with hold | hnew
    · exact hfound item hold
    · exact hentries item (List.mem_of_find?_eq_some (Option.mem_toList.1 hnew))

/-- The entry of a contender does not block itself, and a dead entry is removed and does not block. -/
theorem move_examine (h : item.name = c.name ∨ db.reaps c item = true) :
    ∃ entries', db.move c hash .examine (.checking ticket deadline (item :: items) blocked) =
      some (entries', db.file, .checking ticket deadline items blocked) := by
  by_cases hname : item.name = c.name
  · exact ⟨db.entries, if_pos hname⟩
  · refine ⟨removeEntry item.name db.entries, ?_⟩
    simp only [SessionDb.move]
    rw [if_neg hname, if_pos (h.resolve_left hname)]

/-- What has been read is examined. -/
theorem comes_examine (hlive : c.crashed = false)
    (hdead : ∀ item ∈ items, item.name = c.name ∨ start.reaps c item = true)
    (hrest : ∀ db' entries, At start i c entries (.checking ticket deadline [] false) db' →
      Comes hash start i c db' phase) :
    ∀ db entries, At start i c entries (.checking ticket deadline items false) db →
      Comes hash start i c db phase := by
  induction items with
  | nil => exact hrest
  | cons item items ih =>
    intro db entries hat
    have hreaps : item.name = c.name ∨
        db.reaps { c with phase := .checking ticket deadline (item :: items) false } item = true := by
      refine (hdead item List.mem_cons_self).imp_right fun hreap => ?_
      unfold SessionDb.reaps SessionDb.definitelyDead
      rw [hat.now, hat.running]
      exact hreap
    have hexamine : ∃ entries₁, db.move { c with phase := .checking ticket deadline (item :: items) false } hash
        .examine (.checking ticket deadline (item :: items) false) =
        some (entries₁, db.file, .checking ticket deadline items false) := move_examine hreaps
    obtain ⟨entries₁, hmove⟩ := hexamine
    have hstep := leaseStep_act hat.contender hlive hmove
    have hnext : At start i c entries₁ (.checking ticket deadline items false) { db with
        entries := entries₁
        contenders := db.contenders.set i { c with phase := .checking ticket deadline items false } } :=
      ⟨getElem?_set_self_of_some hat.contender, rfl, hat.now, hat.running⟩
    obtain ⟨db', last, hreach, hat'⟩ := ih (fun a ha => hdead a (List.mem_cons_of_mem item ha)) _ entries₁ hnext
    exact ⟨db', last, (Run.ReachableVia.single ⟨.examine, rfl⟩ hstep).trans hreach, hat'⟩

/-- **Dead entries do not block.** If all other entries are dead and stale, a waiting contender gets the lease by its
own moves. -/
theorem acquires_past_dead (hi : db.contenders[i]? = some c) (hlive : c.crashed = false)
    (hphase : c.phase = .waiting ticket deadline .closed)
    (hdead : ∀ item ∈ db.entries, item.name = c.name ∨ db.reaps c item = true) :
    ∃ last, Run.ReachableVia (leaseStep hash) (Alone i) db last ∧
      last.contenders[i]? = some { c with phase := .holding ticket .idle } := by
  have hfinish : ∀ db' entries, At db i c entries (.checking ticket deadline [] false) db' →
      Comes hash db i c db' (.holding ticket .idle) := by
    intro db' entries hat
    have hmove : db'.move { c with phase := .checking ticket deadline [] false } hash .finish
        (.checking ticket deadline [] false) = some (db'.entries, db'.file, .holding ticket .idle) := rfl
    exact hat.comes hlive hmove fun last hlast => ⟨last, _, .refl last, hlast⟩
  have hgather : ∀ items, (∀ item ∈ items, item.name = c.name ∨ db.reaps c item = true) → ∀ db',
      At db i c db.entries (.waiting ticket deadline (.reading [] items)) db' →
      Comes hash db i c db' (.holding ticket .idle) := by
    intro items hitems db' hat
    have hmove : db'.move { c with phase := .waiting ticket deadline (.reading [] items) } hash .gather
        (.waiting ticket deadline (.reading [] items)) =
        some (db'.entries, db'.file, .checking ticket deadline items false) := rfl
    exact hat.comes hlive hmove fun last => comes_examine hlive hitems hfinish last _
  have hclose : ∀ db', At db i c db.entries (.waiting ticket deadline
      (.listing (db.entries.map Entry.name) ([] ++ db.entries.map Entry.name))) db' →
      Comes hash db i c db' (.holding ticket .idle) := by
    rintro db' ⟨hcontender, hentries, hnow, hrunning⟩
    rw [List.nil_append] at hcontender
    have hmove : db'.move { c with phase := .waiting ticket deadline (.listing (db.entries.map Entry.name)
        (db.entries.map Entry.name)) } hash (.scan .close) (.waiting ticket deadline
          (.listing (db.entries.map Entry.name) (db.entries.map Entry.name))) =
        some (db'.entries, db'.file, .waiting ticket deadline (.reading (db.entries.map Entry.name) [])) := by
      simp only [SessionDb.move, Scan.move]
      rw [if_pos fun n hn _ => hn]
      rfl
    refine At.comes ⟨hcontender, hentries, hnow, hrunning⟩ hlive hmove fun last hlast => ?_
    rw [hentries] at hlast
    exact comes_read hlive hdead (fun _ hitem => absurd hitem List.not_mem_nil) hgather last hlast
  have hat : At db i c db.entries (.waiting ticket deadline .closed) db :=
    ⟨by rw [← hphase]; exact hi, rfl, rfl, rfl⟩
  have hmove : db.move { c with phase := .waiting ticket deadline .closed } hash (.scan .start)
      (.waiting ticket deadline .closed) = some (db.entries, db.file,
        .waiting ticket deadline (.listing (db.entries.map Entry.name) [])) := rfl
  obtain ⟨last, entries, hreach, hlast⟩ := hat.comes hlive hmove
    (comes_list hlive (fun _ hn => hn) hclose)
  exact ⟨last, hreach, hlast.contender⟩

/-! ## What holds of every run -/

/-- What the lease guarantees in a state, and from it on. -/
structure LeaseSafe (hash : β → κ) (db : SessionDb β κ) : Prop where
  /-- One running call holds the lease. -/
  exclusive : ∀ (i j : ℕ) (c o : Contender β κ), db.contenders[i]? = some c → db.contenders[j]? = some o →
    c.crashed = false → o.crashed = false → c.phase.holds = true → o.phase.holds = true → i = j
  /-- The call `i` has published a ticket, and the call `j` has not yet begun its entry: while `i` waits, `j` does
  not hold the lease. -/
  served : ∀ (i j : ℕ) (c : Contender β κ) ticket, db.contenders[i]? = some c → c.phase.ticket = some ticket →
    (∀ o : Contender β κ, db.contenders[j]? = some o → o.phase = .preparing) →
      ∀ last, Run.Reachable (leaseStep hash) db last → ∀ c' o' : Contender β κ, last.contenders[i]? = some c' →
        last.contenders[j]? = some o' → c'.crashed = false → o'.crashed = false → c'.phase.waits = true →
          o'.phase.holds = false
  /-- Only the call itself removes the entry of a running call. -/
  reaped : ∀ action db' (i : ℕ) (c : Contender β κ), leaseStep hash db action = some db' →
    db.contenders[i]? = some c → c.crashed = false → c.name ∈ db.entries.map Entry.name →
      c.name ∉ db'.entries.map Entry.name → action = .act i .leave ∨ action = .act i .release
  /-- A stale entry of a dead process is removed and does not block the call that examines it. -/
  examined : ∀ db' (i : ℕ) (c : Contender β κ) ticket deadline item items blocked, db.contenders[i]? = some c →
    c.crashed = false → c.phase = .checking ticket deadline (item :: items) blocked → item.name ≠ c.name →
      db.reaps c item = true → leaseStep hash db (.act i .examine) = some db' → item.name ∉ db'.entries.map Entry.name ∧
        db'.contenders[i]? = some { c with phase := .checking ticket deadline items blocked }
  /-- If all other entries are such, a waiting call gets the lease by its own moves. -/
  acquires : ∀ (i : ℕ) (c : Contender β κ) ticket deadline, db.contenders[i]? = some c → c.crashed = false →
    c.phase = .waiting ticket deadline .closed →
      (∀ item ∈ db.entries, item.name = c.name ∨ db.reaps c item = true) →
        ∃ last, Run.ReachableVia (leaseStep hash) (Alone i) db last ∧
          last.contenders[i]? = some { c with phase := .holding ticket .idle }
  /-- The file changes when the holder replaces it by the complete new bytes, while it has the expected hash. -/
  saved : ∀ action db', leaseStep hash db action = some db' → db'.file ≠ db.file →
    ∃ (i : ℕ) (c : Contender β κ) (ticket : ℕ) (bytes : β) (expected : Option κ),
      action = .act i .replace ∧ db.contenders[i]? = some c ∧ c.crashed = false ∧
      c.phase = .holding ticket (.verified bytes expected) ∧ db.file.map hash = expected ∧ db'.file = some bytes

/-- **The lease of the browser session.** -/
theorem lease_safe {file : Option β} (h : Run.Reachable (leaseStep hash) { file } db) : LeaseSafe hash db := by
  have hinv := leaseInv_of_reachable h
  constructor
  · exact fun i j c o hi hj hc ho hholds hholds' => holder_unique hinv.cleared hi hj hc ho hholds hholds'
  · intro i j c ticket hi hticket hbegun last hlast c' o' hi' hj' hc ho hwaits
    have hserved : ServedFirst ticket i j db := by
      refine ⟨c, hi, Or.inr (Or.inr (Or.inr ⟨hticket, fun o hj => Or.inr ?_⟩))⟩
      rw [hbegun o hj]
      trivial
    obtain ⟨hinv', hserved'⟩ := servedFirst_of_reachable hlast hinv hserved
    exact hserved'.not_holds hinv' hi' hj' hc ho hwaits
  · exact fun action db' i c hstep hi hlive hmem hgone => removed_by_itself hinv.directory hstep hi hlive hmem hgone
  · intro db' i c ticket deadline item items blocked hi hlive hphase hname hreaps hstep
    have hmove : db.move c hash .examine c.phase =
        some (removeEntry item.name db.entries, db.file, .checking ticket deadline items blocked) := by
      rw [hphase]
      simp only [SessionDb.move]
      rw [if_neg hname, if_pos hreaps]
    rw [leaseStep_act hi hlive hmove] at hstep
    obtain rfl := Option.some.inj hstep
    refine ⟨fun hmem => ?_, getElem?_set_self_of_some hi⟩
    obtain ⟨kept, hkept, hsame⟩ := List.mem_map.1 hmem
    exact (mem_removeEntry.1 hkept).2 hsame
  · exact fun i c ticket deadline hi hlive hphase hdead => acquires_past_dead hi hlive hphase hdead
  · exact fun action db' hstep hfile => replaced_by_holder hinv hstep hfile

namespace Sample

/-- A process ends while its call waits, and the limit passes. -/
def diedWaiting : List (LeaseAction String String) :=
  [.spawn "h" 1, .call "1-a" "h" 1 0 30_000, .act 0 .enter, .crash "h" 1, .tick 30_001]

/-- One round of a call that finds one other entry. -/
def round (own other : String) : List (Move String String) :=
  [.scan .start, .scan (.list other), .scan (.list own), .scan .close, .scan (.read other), .scan (.read own), .gather,
    .examine, .examine]

/-- The next call is of the same host, and reads the entry of the dead process. -/
def sameHost : List (LeaseAction String String) :=
  diedWaiting ++ [.spawn "h" 2, .call "2-b" "h" 2 0 30_000] ++
    ((Move.enter :: round "2-b" "1-a").take 8).map (LeaseAction.act 1)

end Sample

theorem lease_safe_sample : ∃ db, Run.run (leaseStep id) { file := some "cookies" } Sample.sameHost = some db ∧
    (∃ c ∈ db.contenders, c.name = "1-a" ∧ c.crashed = true) ∧ db.entries.map Entry.name = ["1-a", "2-b"] ∧
      LeaseSafe id db := by
  have hrun : ∃ db ∈ Run.run (leaseStep id) { file := some "cookies" } Sample.sameHost,
      (∃ c ∈ db.contenders, c.name = "1-a" ∧ c.crashed = true) ∧ db.entries.map Entry.name = ["1-a", "2-b"] := by
    decide +kernel
  obtain ⟨db, hdb, hcrashed, hentries⟩ := hrun
  exact ⟨db, hdb, hcrashed, hentries, lease_safe (Run.reachable_of_run hdb)⟩

/-! ## Dead entries that block -/

namespace Sample

/-- A call without a wait comes to the directory. -/
def comesUpon (i : ℕ) (own other : String) : List (LeaseAction String String) :=
  (Move.enter :: round own other ++ Move.publish :: round own other ++ [Move.finish]).map (LeaseAction.act i)

/-- The next call is of another host. -/
def otherHost : List (LeaseAction String String) :=
  diedWaiting ++ [.spawn "g" 2, .call "2-b" "g" 2 0 30_000] ++ comesUpon 1 "2-b" "1-a"

/-- The process id is in use again. -/
def reusedPid : List (LeaseAction String String) :=
  diedWaiting ++ [.spawn "h" 1, .spawn "h" 2, .call "2-b" "h" 2 0 30_000] ++ comesUpon 1 "2-b" "1-a"

end Sample

/-- **A dead entry can block.** The process has ended, its entry is older than the limit, and the next call fails:
the entry is of another host, or its process id is in use again. -/
theorem dead_entry_blocks :
    (∃ db ∈ Run.run (leaseStep id) { file := none } Sample.otherHost,
      (∃ c ∈ db.contenders, c.name = "1-a" ∧ c.crashed = true) ∧
      (∃ item ∈ db.entries, item.name = "1-a" ∧ 30_000 < db.now - item.heartbeat) ∧
        ∃ c ∈ db.contenders, c.name = "2-b" ∧ c.crashed = false ∧ c.phase = .leaving) ∧
    ∃ db ∈ Run.run (leaseStep id) { file := none } Sample.reusedPid,
      (∃ c ∈ db.contenders, c.name = "1-a" ∧ c.crashed = true) ∧
      (∃ item ∈ db.entries, item.name = "1-a" ∧ 30_000 < db.now - item.heartbeat) ∧
        ∃ c ∈ db.contenders, c.name = "2-b" ∧ c.crashed = false ∧ c.phase = .leaving := by
  constructor
  · decide +kernel
  · decide +kernel

end AmoAnalytics.BrowserSession
