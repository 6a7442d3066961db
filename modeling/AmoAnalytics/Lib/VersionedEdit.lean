import AmoAnalytics.Lib.Workers

/-!
# Versioned edits

Requests that edit a row only if it still has the version they expect. A request is one transaction: it
reads the row, compares, writes under the row lock, adds an entry to the history and commits. At READ
COMMITTED a write sees the row as it is when the lock is free; at SERIALIZABLE it fails when another write
of the row was committed after the read. A transaction may abort at any time.

`Lawful` says what an editor owes: its check compares the version and its write, where the condition `G`
holds, meets a row of the version read and gives it a later one. `EditInv.editsSafe` is what follows for
every run: no two requests with one expected version are accepted.
-/

namespace AmoAnalytics.VersionedEdit

variable {κ ρ β υ η ι : Type*}

/-! ## Tables and transactions -/

/-- A row, the number of writes committed to it and whether a transaction holds its lock. -/
structure Cell (ρ : Type*) where
  row : Option ρ := none
  commits : ℕ := 0
  locked : Bool := false

/-- An editor of the rows of a table. `write` is the write of a body by a transaction that has read the
first row, on the second row, at a time; it fails when the row does not meet its filter. -/
structure Editor (κ ρ β υ η : Type*) where
  serializable : Bool
  key : β → κ
  expected : β → Option υ
  version : Option ρ → υ
  accepts : β → Option ρ → Bool
  write : β → Option ρ → Option ρ → ℤ → Option ρ
  audit : β → Option ρ → ρ → η

/-- The rows, the history and the requests accepted; no statement reads `accepted`. -/
structure Store (κ ρ β η : Type*) where
  cells : κ → Cell ρ
  history : List η := []
  accepted : List β := []

inductive Thread (ρ β : Type*)
  | idle
  | reading (body : β)
  /-- The check has passed on `old`, read after `seen` writes. -/
  | writing (body : β) (old : Option ρ) (seen : ℕ)
  /-- The row is written and locked. -/
  | auditing (body : β) (old : Option ρ) (new : ρ)
  | committing (body : β) (old : Option ρ) (new : ρ)

inductive Action (β : Type*)
  | begin (body : β)
  | read
  | write (now : ℤ)
  | audit
  | commit
  | abort

/-- The lock that a transaction holds, with its body, the row it read and the row it has written. -/
def Thread.held : Thread ρ β → Option (β × Option ρ × ρ)
  | .auditing body old new | .committing body old new => some (body, old, new)
  | _ => none

variable [DecidableEq κ]

/-- Write the cell of a key. -/
def Store.set (db : Store κ ρ β η) (k : κ) (cell : Cell ρ) : Store κ ρ β η :=
  { db with cells := Function.update db.cells k cell }

/-- The lock of a key is free again. -/
def Store.unlock (db : Store κ ρ β η) (k : κ) : Store κ ρ β η :=
  db.set k { db.cells k with locked := false }

/-- The next statement of a transaction. -/
def act (e : Editor κ ρ β υ η) (db : Store κ ρ β η) : Thread ρ β → Action β →
    Option (Store κ ρ β η × Thread ρ β)
  | .idle, .begin body => some (db, .reading body)
  | .reading body, .read =>
    if e.accepts body (db.cells (e.key body)).row then
      some (db, .writing body (db.cells (e.key body)).row (db.cells (e.key body)).commits)
    else some (db, .idle)
  | .writing body old seen, .write now =>
    -- A write waits while another transaction holds the lock.
    if (db.cells (e.key body)).locked then none
    else if e.serializable && decide ((db.cells (e.key body)).commits ≠ seen) then some (db, .idle)
    else match e.write body old (db.cells (e.key body)).row now with
      | none => some (db, .idle)
      | some new => some (db.set (e.key body) { db.cells (e.key body) with locked := true },
          .auditing body old new)
  | .auditing body old new, .audit => some (db, .committing body old new)
  | .committing body old new, .commit =>
    some ({ db.set (e.key body) ⟨some new, (db.cells (e.key body)).commits + 1, false⟩ with
        history := db.history ++ [e.audit body old new]
        accepted := db.accepted ++ [body] }, .idle)
  | thread, .abort => some (thread.held.elim db fun held => db.unlock (e.key held.1), .idle)
  | _, _ => none

variable {e : Editor κ ρ β υ η} {G : β → Option ρ → Option ρ → ℤ → Prop} [Preorder ι] {rank : υ → ι}
  {db db' : Store κ ρ β η} {thread thread' : Thread ρ β} {action : Action β}

/-! ## What a statement does -/

@[simp] theorem Store.cells_set_self (k : κ) (cell : Cell ρ) : (db.set k cell).cells k = cell := by
  simp only [Store.set, Function.update_self]

theorem Store.cells_set_of_ne {k l : κ} (h : l ≠ k) (cell : Cell ρ) :
    (db.set k cell).cells l = db.cells l := by
  simp only [Store.set, Function.update_of_ne h]

/-- A write of the lock leaves the rows. -/
theorem Store.row_set_locked (k l : κ) (locked : Bool) :
    ((db.set k { db.cells k with locked := locked }).cells l).row = (db.cells l).row := by
  by_cases h : l = k
  · subst h
    rw [Store.cells_set_self]
  · rw [Store.cells_set_of_ne h]

theorem Store.commits_set_locked (k l : κ) (locked : Bool) :
    ((db.set k { db.cells k with locked := locked }).cells l).commits = (db.cells l).commits := by
  by_cases h : l = k
  · subst h
    rw [Store.cells_set_self]
  · rw [Store.cells_set_of_ne h]

/-- What a transaction can do: keep the store, take a free lock, release its own, or commit. -/
inductive Effect (e : Editor κ ρ β υ η) (db : Store κ ρ β η) (thread : Thread ρ β) :
    Action β → Store κ ρ β η → Thread ρ β → Prop
  | idle (action : Action β) (h : thread.held = none) : Effect e db thread action db .idle
  | begin (body : β) (h : thread.held = none) : Effect e db thread (.begin body) db (.reading body)
  | read (body : β) (h : thread.held = none) (hok : e.accepts body (db.cells (e.key body)).row = true) :
      Effect e db thread .read db
        (.writing body (db.cells (e.key body)).row (db.cells (e.key body)).commits)
  | lock (body : β) (old : Option ρ) (seen : ℕ) (now : ℤ) (new : ρ) (h : thread = .writing body old seen)
      (hfree : (db.cells (e.key body)).locked = false)
      (hseen : e.serializable = true → (db.cells (e.key body)).commits = seen)
      (hwrite : e.write body old (db.cells (e.key body)).row now = some new) :
      Effect e db thread (.write now)
        (db.set (e.key body) { db.cells (e.key body) with locked := true }) (.auditing body old new)
  | audit (body : β) (old : Option ρ) (new : ρ) (h : thread.held = some (body, old, new)) :
      Effect e db thread .audit db (.committing body old new)
  | release (body : β) (old : Option ρ) (new : ρ) (h : thread.held = some (body, old, new)) :
      Effect e db thread .abort (db.unlock (e.key body)) .idle
  | commit (body : β) (old : Option ρ) (new : ρ) (h : thread = .committing body old new) :
      Effect e db thread .commit
        { db.set (e.key body) ⟨some new, (db.cells (e.key body)).commits + 1, false⟩ with
          history := db.history ++ [e.audit body old new]
          accepted := db.accepted ++ [body] } .idle

theorem effect_of_act (h : act e db thread action = some (db', thread')) :
    Effect e db thread action db' thread' := by
  unfold act at h
  split at h
  case h_1 body =>
    cases h
    exact .begin body rfl
  case h_2 body =>
    split_ifs at h with hok <;> cases h
    · exact .read body rfl hok
    · exact .idle _ rfl
  case h_3 body old seen now =>
    split_ifs at h with hlocked hseen
    · cases h
      exact .idle _ rfl
    · split at h <;> cases h
      case h_1 => exact .idle _ rfl
      case h_2 new hwrite =>
        refine .lock body old seen now new rfl (Bool.eq_false_iff.2 hlocked) (fun hserial => ?_) hwrite
        simpa [hserial] using hseen
  case h_4 body old new =>
    cases h
    exact .audit body old new rfl
  case h_5 body old new =>
    cases h
    exact .commit body old new rfl
  case h_6 =>
    cases hheld : thread.held with
    | none =>
      rw [hheld] at h
      cases h
      exact .idle _ hheld
    | some held =>
      rw [hheld] at h
      cases h
      exact .release held.1 held.2.1 held.2.2 hheld
  case h_7 => cases h

/-! ## Invariants -/

/-- What an editor owes where the condition `G` of a write holds. -/
structure Lawful (e : Editor κ ρ β υ η) (G : β → Option ρ → Option ρ → ℤ → Prop) (rank : υ → ι) : Prop where
  check : ∀ body old, e.accepts body old = true → e.expected body = some (e.version old)
  grows : ∀ body old row now new, G body old row now → (e.serializable = true → row = old) →
    e.accepts body old = true → e.write body old row now = some new →
    e.version row = e.version old ∧ rank (e.version row) < rank (e.version (some new))

/-- The condition of each write of a run. -/
def WriteGuard (e : Editor κ ρ β υ η) (G : β → Option ρ → Option ρ → ℤ → Prop)
    (w : World (Store κ ρ β η) (Thread ρ β)) (a : ℕ × Action β) : Prop :=
  ∀ body old seen now, w.locals a.1 = .writing body old seen → a.2 = .write now →
    G body old (w.store.cells (e.key body)).row now

/-- A transaction before its write remembers the row that it read; one that holds the lock edits the
version that its body expects. -/
structure ThreadOk (e : Editor κ ρ β υ η) (rank : υ → ι) (db : Store κ ρ β η) (thread : Thread ρ β) :
    Prop where
  writing : ∀ body old seen, thread = .writing body old seen → e.accepts body old = true ∧
    seen ≤ (db.cells (e.key body)).commits ∧
    ((db.cells (e.key body)).commits = seen → (db.cells (e.key body)).row = old)
  held : ∀ body old new, thread.held = some (body, old, new) → (db.cells (e.key body)).locked = true ∧
    e.expected body = some (e.version (db.cells (e.key body)).row) ∧
    rank (e.version (db.cells (e.key body)).row) < rank (e.version (some new))

omit [DecidableEq κ] in
theorem ThreadOk.free (h : thread.held = none) (hwriting : ∀ body old seen, thread ≠ .writing body old seen) :
    ThreadOk e rank db thread where
  writing body old seen hthread := absurd hthread (hwriting body old seen)
  held _ _ _ hheld := nomatch h.symm.trans hheld

/-- What a step of one transaction keeps for the others: a row changes only with the count of the writes,
and the row of a lock that another one holds does not change. -/
structure Rely (mine : Option κ) (db db' : Store κ ρ β η) : Prop where
  commits : ∀ k, (db.cells k).commits ≤ (db'.cells k).commits
  rows : ∀ k, (db'.cells k).commits = (db.cells k).commits → (db'.cells k).row = (db.cells k).row
  locks : ∀ k, mine ≠ some k → (db.cells k).locked = true →
    (db'.cells k).locked = true ∧ (db'.cells k).row = (db.cells k).row

omit [DecidableEq κ] in
theorem Rely.refl (mine : Option κ) (db : Store κ ρ β η) : Rely mine db db :=
  ⟨fun _ => le_rfl, fun _ _ => rfl, fun _ _ hlocked => ⟨hlocked, rfl⟩⟩

/-- The key of the lock that a transaction holds. -/
def lockOf (e : Editor κ ρ β υ η) (thread : Thread ρ β) : Option κ := thread.held.map (e.key ·.1)

theorem Effect.rely (h : Effect e db thread action db' thread') : Rely (lockOf e thread) db db' := by
  cases h with
  | lock body old seen now new hthread hfree hseen hwrite =>
    refine ⟨fun k => (Store.commits_set_locked _ k true).ge, fun k _ => Store.row_set_locked _ k true,
      fun k _ hlocked => ⟨?_, Store.row_set_locked _ k true⟩⟩
    have hne : k ≠ e.key body := by
      rintro rfl
      rw [hfree] at hlocked
      exact nomatch hlocked
    rwa [Store.cells_set_of_ne hne]
  | release body old new hheld =>
    refine ⟨fun k => (Store.commits_set_locked _ k false).ge, fun k _ => Store.row_set_locked _ k false,
      fun k hmine hlocked => ⟨?_, Store.row_set_locked _ k false⟩⟩
    have hne : k ≠ e.key body := by
      rintro rfl
      exact hmine (by rw [lockOf, hheld]; rfl)
    rw [Store.unlock, Store.cells_set_of_ne hne]
    exact hlocked
  | commit body old new hthread =>
    have hcell : ∀ k, k ≠ e.key body → ∀ cell, (db.set (e.key body) cell).cells k = db.cells k :=
      fun k hne cell => Store.cells_set_of_ne hne cell
    refine ⟨fun k => ?_, fun k hcommits => ?_, fun k hmine hlocked => ?_⟩
    · by_cases hk : k = e.key body
      · subst hk
        simp
      · exact (congrArg Cell.commits (hcell k hk _)).ge
    · by_cases hk : k = e.key body
      · subst hk
        simp at hcommits
      · exact congrArg Cell.row (hcell k hk _)
    · have hne : k ≠ e.key body := by
        rintro rfl
        exact hmine (by rw [lockOf, hthread]; rfl)
      exact ⟨(congrArg Cell.locked (hcell k hne _)).trans hlocked, congrArg Cell.row (hcell k hne _)⟩
  | _ => exact Rely.refl _ _

omit [DecidableEq κ] in
/-- A transaction survives the steps of the others. -/
theorem ThreadOk.other (h : ThreadOk e rank db thread) {mine : Option κ} (hrely : Rely mine db db')
    (hmine : ∀ k, lockOf e thread = some k → mine ≠ some k) : ThreadOk e rank db' thread where
  writing body old seen hthread := by
    obtain ⟨hok, hseen, hrow⟩ := h.writing body old seen hthread
    refine ⟨hok, hseen.trans (hrely.commits _), fun hcommits => ?_⟩
    have hsame : (db.cells (e.key body)).commits = seen :=
      le_antisymm (hcommits ▸ hrely.commits _) hseen
    rw [hrely.rows _ (hcommits.trans hsame.symm)]
    exact hrow hsame
  held body old new hheld := by
    obtain ⟨hlocked, hexpected, hrank⟩ := h.held body old new hheld
    have hlock : lockOf e thread = some (e.key body) := by
      rw [lockOf, hheld]
      rfl
    obtain ⟨hlocked', hrow⟩ := hrely.locks _ (hmine _ hlock) hlocked
    rw [hrow]
    exact ⟨hlocked', hexpected, hrank⟩

/-- The acting transaction after its statement. -/
theorem ThreadOk.own (hlaw : Lawful e G rank) (h : ThreadOk e rank db thread)
    (hguard : ∀ body old seen now, thread = .writing body old seen → action = .write now →
      G body old (db.cells (e.key body)).row now)
    (heffect : Effect e db thread action db' thread') : ThreadOk e rank db' thread' := by
  cases heffect with
  | idle | begin | release | commit => exact .free rfl nofun
  | read body hfree hok =>
    refine ⟨fun body' old' seen' hthread => ?_, nofun⟩
    cases hthread
    exact ⟨hok, le_rfl, fun _ => rfl⟩
  | lock body old seen now new hthread hfree hseen hwrite =>
    obtain ⟨hok, -, hrow⟩ := h.writing body old seen hthread
    refine ⟨nofun, fun body' old' new' hheld => ?_⟩
    cases hheld
    obtain ⟨hversion, hrank⟩ := hlaw.grows body old _ now new (hguard body old seen now hthread rfl)
      (fun hserial => hrow (hseen hserial)) hok hwrite
    rw [Store.cells_set_self]
    exact ⟨rfl, (hlaw.check body old hok).trans (congrArg some hversion.symm), hrank⟩
  | audit body old new hheld => exact ⟨nofun, fun body' old' new' hheld' => by
      cases hheld'
      exact h.held body old new hheld⟩

/-- The accepted requests expected versions that are gone, each another one of its row. -/
structure AcceptedOk (e : Editor κ ρ β υ η) (rank : υ → ι) (db : Store κ ρ β η) : Prop where
  gone : ∀ body ∈ db.accepted, ∃ version, e.expected body = some version ∧
    rank version < rank (e.version (db.cells (e.key body)).row)
  once : db.accepted.Pairwise fun body body' => e.key body = e.key body' → e.expected body ≠ e.expected body'

omit [DecidableEq κ] in
theorem AcceptedOk.of_rows (h : AcceptedOk e rank db) (haccepted : db'.accepted = db.accepted)
    (hrows : ∀ k, (db'.cells k).row = (db.cells k).row) : AcceptedOk e rank db' where
  gone body hbody := by
    rw [hrows]
    exact h.gone body (haccepted ▸ hbody)
  once := haccepted ▸ h.once

/-- An accepted request expected the version of the row before it, so no earlier one did. -/
theorem AcceptedOk.commit (h : AcceptedOk e rank db) (hthread : ThreadOk e rank db thread) {body : β}
    {old : Option ρ} {new : ρ} (hheld : thread.held = some (body, old, new)) {cell : Cell ρ}
    (hcell : cell.row = some new) {history : List η} :
    AcceptedOk e rank { db.set (e.key body) cell with
      history := history, accepted := db.accepted ++ [body] } := by
  obtain ⟨-, hexpected, hrank⟩ := hthread.held body old new hheld
  have hrow : ((db.set (e.key body) cell).cells (e.key body)).row = some new := by
    rw [Store.cells_set_self, hcell]
  refine ⟨fun body' hbody' => ?_, ?_⟩
  · rcases List.mem_append.1 hbody' with hmem | hmem
    · obtain ⟨version, hversion, hgone⟩ := h.gone body' hmem
      refine ⟨version, hversion, ?_⟩
      by_cases hk : e.key body' = e.key body
      · rw [hk] at hgone
        change _ < rank (e.version ((db.set (e.key body) cell).cells (e.key body')).row)
        rw [hk, hrow]
        exact hgone.trans hrank
      · change _ < rank (e.version ((db.set (e.key body) cell).cells (e.key body')).row)
        rwa [Store.cells_set_of_ne hk]
    · obtain rfl := List.mem_singleton.1 hmem
      refine ⟨_, hexpected, ?_⟩
      change _ < rank (e.version ((db.set (e.key body') cell).cells (e.key body')).row)
      rwa [hrow]
  · refine List.pairwise_append.2 ⟨h.once, List.pairwise_singleton _ _, fun body' hbody' b hb hk heq => ?_⟩
    obtain rfl := List.mem_singleton.1 hb
    obtain ⟨version, hversion, hgone⟩ := h.gone body' hbody'
    rw [hk] at hgone
    have hsame : version = e.version (db.cells (e.key b)).row :=
      Option.some.inj (hversion.symm.trans (heq.trans hexpected))
    exact lt_irrefl _ (hsame ▸ hgone)

/-- The invariant of the worlds reached. -/
structure EditInv (e : Editor κ ρ β υ η) (rank : υ → ι) (w : World (Store κ ρ β η) (Thread ρ β)) : Prop where
  threads : ∀ i, ThreadOk e rank w.store (w.locals i)
  locks : ∀ i j, i ≠ j → ∀ k, lockOf e (w.locals i) = some k → lockOf e (w.locals j) ≠ some k
  accepted : AcceptedOk e rank w.store

variable {w w' : World (Store κ ρ β η) (Thread ρ β)} {a : ℕ × Action β}

/-- A lock that a transaction has after its statement was its own or free. -/
theorem Effect.lock_own_or_free (h : Effect e db thread action db' thread') {k : κ} (hlock : lockOf e thread' = some k) :
    lockOf e thread = some k ∨ (db.cells k).locked = false := by
  cases h with
  | idle | begin | read | release | commit => exact nomatch hlock
  | lock body old seen now new hthread hfree =>
    cases hlock
    exact Or.inr hfree
  | audit body old new hheld =>
    left
    rw [lockOf, hheld]
    exact hlock

theorem EditInv.step (hlaw : Lawful e G rank) (h : EditInv e rank w) (hguard : WriteGuard e G w a)
    (hstep : World.step (act e) w a = some w') : EditInv e rank w' := by
  obtain ⟨i, action⟩ := a
  obtain ⟨db', thread', hact, rfl⟩ := World.step_eq_some.1 hstep
  have heffect := effect_of_act hact
  have hothers : ∀ j, j ≠ i → ThreadOk e rank db' (w.locals j) := fun j hj =>
    (h.threads j).other heffect.rely fun k hk => h.locks j i hj k hk
  have hnew : ∀ j, j ≠ i → ∀ k, lockOf e thread' = some k → lockOf e (w.locals j) ≠ some k := by
    intro j hj k hk hother
    rcases heffect.lock_own_or_free hk with hmine | hfree
    · exact h.locks i j hj.symm k hmine hother
    · obtain ⟨⟨body, old, new⟩, hheld, rfl⟩ := Option.map_eq_some_iff.1 hother
      exact Bool.eq_false_iff.1 hfree ((h.threads j).held body old new hheld).1
  refine ⟨World.forall_update ((h.threads i).own hlaw hguard heffect) hothers, ?_, ?_⟩
  · refine World.forall_update₂ (P := fun l l' : Thread ρ β => ∀ k, lockOf e l = some k →
      lockOf e l' ≠ some k) ?_ hnew h.locks
    exact fun l l' hl k hk hk' => hl k hk' hk
  · cases heffect with
    | idle | begin | read | audit => exact h.accepted
    | lock => exact h.accepted.of_rows rfl fun k => Store.row_set_locked _ k true
    | release => exact h.accepted.of_rows rfl fun k => Store.row_set_locked _ k false
    | commit body old new hthread =>
      exact h.accepted.commit (h.threads i) (by rw [hthread]; rfl) rfl

/-- Rows and a history of earlier edits; every transaction is still to begin. -/
def start (rows : κ → Option ρ) (history : List η) : World (Store κ ρ β η) (Thread ρ β) :=
  World.start ⟨fun k => { row := rows k }, history, []⟩ .idle

omit [DecidableEq κ] in
theorem editInv_start (rows : κ → Option ρ) (history : List η) : EditInv e rank (start rows history) :=
  ⟨fun _ => .free rfl nofun, fun _ _ _ _ hlock => (nomatch hlock),
    fun _ hbody => absurd hbody List.not_mem_nil, List.Pairwise.nil⟩

/-! ## What the requests observe -/

/-- No two requests with the same expected version of a row are accepted; an accepted one edits the row of
that version and gives it another one; no other statement changes a row or the history. -/
structure EditsSafe (e : Editor κ ρ β υ η) (w : World (Store κ ρ β η) (Thread ρ β)) : Prop where
  once : w.store.accepted.Pairwise fun body body' =>
    e.key body = e.key body' → e.expected body ≠ e.expected body'
  changes : ∀ i body old new w', w.locals i = .committing body old new →
    World.step (act e) w (i, .commit) = some w' →
    e.expected body = some (e.version (w.store.cells (e.key body)).row) ∧
    (w'.store.cells (e.key body)).row = some new ∧
    e.version (some new) ≠ e.version (w.store.cells (e.key body)).row ∧
    w'.store.history = w.store.history ++ [e.audit body old new] ∧
    w'.store.accepted = w.store.accepted ++ [body]
  rejected : ∀ i action w', action ≠ .commit → World.step (act e) w (i, action) = some w' →
    (∀ k, (w'.store.cells k).row = (w.store.cells k).row) ∧ w'.store.history = w.store.history ∧
    w'.store.accepted = w.store.accepted

theorem EditInv.editsSafe (h : EditInv e rank w) : EditsSafe e w where
  once := h.accepted.once
  changes i body old new w' hthread hstep := by
    obtain ⟨db', thread', hact, rfl⟩ := World.step_eq_some.1 hstep
    obtain ⟨-, hexpected, hrank⟩ := (h.threads i).held body old new (by rw [hthread]; rfl)
    rw [hthread] at hact
    cases hact
    refine ⟨hexpected, ?_, ?_, rfl, rfl⟩
    · exact congrArg Cell.row (@Store.cells_set_self _ _ _ _ _ w.store _ _)
    · intro hsame
      rw [hsame] at hrank
      exact lt_irrefl _ hrank
  rejected i action w' haction hstep := by
    obtain ⟨db', thread', hact, rfl⟩ := World.step_eq_some.1 hstep
    cases effect_of_act hact with
    | idle | begin | read | audit => exact ⟨fun _ => rfl, rfl, rfl⟩
    | lock => exact ⟨fun k => Store.row_set_locked _ k true, rfl, rfl⟩
    | release => exact ⟨fun k => Store.row_set_locked _ k false, rfl, rfl⟩
    | commit => exact absurd rfl haction

/-- Every run of the editor whose writes meet `G` is safe, from these rows and any history. -/
def SafeFrom (rows : κ → Option ρ) (e : Editor κ ρ β υ η) (G : β → Option ρ → Option ρ → ℤ → Prop) : Prop :=
  ∀ (history : List η) (w : World (Store κ ρ β η) (Thread ρ β)),
    Run.ReachableVia (World.step (act e)) (WriteGuard e G) (start rows history) w → EditsSafe e w

/-- The rule of versioned edits: a lawful editor is safe. -/
theorem Lawful.safeFrom (hlaw : Lawful e G rank) (rows : κ → Option ρ) : SafeFrom rows e G := fun history _ h =>
  (h.invariant (editInv_start rows history) fun _ _ _ hinv hguard hstep =>
    hinv.step hlaw hguard hstep).editsSafe

end AmoAnalytics.VersionedEdit
