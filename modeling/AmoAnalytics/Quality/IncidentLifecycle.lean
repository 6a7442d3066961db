import AmoAnalytics.Lib.Run
import AmoAnalytics.Quality.Incidents

/-!
# The life of an incident

What a run of evaluations does to the incidents. `synchronizeIncidents_eq` says it in one equation: an open
incident of the connection is detected again or resolved, every other one stays, and each finding without an
open incident opens a new one.
-/

namespace AmoAnalytics.Quality

variable {db : QualityDb} {connectionId : Option String} {findings done : List Finding} {finding : Finding}
  {now createdAt : ℤ} {incident a b : Incident}

/-! ## Tables -/

/-- An open incident of the connection. -/
def Incident.concerns (connectionId : Option String) (incident : Incident) : Bool :=
  incident.status = .open && incident.connectionId = connectionId

def Incident.idKey (incident : Incident) : Option ℕ := some incident.id

/-- The connection and the code of an open incident. -/
def Incident.openKey (incident : Incident) : Option (Option String × String) :=
  if incident.status = .open then some (incident.connectionId, incident.code) else none

/-- What the ids and the open incidents of a table satisfy. -/
structure TableOk (db : QualityDb) : Prop where
  ids : Table.UniqueOn Incident.idKey db.incidents
  drawn : ∀ incident ∈ db.incidents, incident.id < db.drawn
  open_ : Table.UniqueOn Incident.openKey db.incidents

theorem TableOk.eq_of_id (h : TableOk db) (ha : a ∈ db.incidents) (hb : b ∈ db.incidents)
    (hid : a.id = b.id) : a = b :=
  h.ids.eq_of_mem ha hb rfl (congrArg some hid.symm)

theorem openKey_of_concerns (h : incident.concerns connectionId = true) :
    incident.openKey = some (connectionId, incident.code) := by
  obtain ⟨hopen, hconnection⟩ := Bool.and_eq_true_iff.1 h
  rw [Incident.openKey, if_pos (of_decide_eq_true hopen), of_decide_eq_true hconnection]

/-- The connection has one open incident of a code. -/
theorem TableOk.eq_of_code (h : TableOk db) (ha : a ∈ db.incidents) (hb : b ∈ db.incidents)
    (hca : a.concerns connectionId = true) (hcb : b.concerns connectionId = true) (hcode : a.code = b.code) :
    a = b :=
  h.open_.eq_of_mem ha hb (openKey_of_concerns hca) (hcode ▸ openKey_of_concerns hcb)

/-! ## The first loop -/

/-- An incident after the findings: an open one of the connection that is found is detected again. -/
def Incident.detected (connectionId : Option String) (findings : List Finding) (now : ℤ) (row : Incident) :
    Incident :=
  if row.concerns connectionId then
    match findings.find? fun finding => finding.code = row.code with
    | some finding => row.detect finding now row
    | none => row
  else row

/-- An open incident of the connection with the code of the finding. -/
def Finding.finds (connectionId : Option String) (finding : Finding) (incident : Incident) : Bool :=
  incident.concerns connectionId && incident.code = finding.code

/-- The findings without an open incident. -/
def unmatched (incidents : List Incident) (connectionId : Option String) (findings : List Finding) :
    List Finding :=
  findings.filter fun finding => !incidents.any (finding.finds connectionId)

/-- The incidents that the findings open. -/
def opened (incidents : List Incident) (connectionId : Option String) (findings : List Finding)
    (now createdAt : ℤ) (drawn : ℕ) : List Incident :=
  ((unmatched incidents connectionId findings).zipIdx drawn).map fun p =>
    newIncident p.2 connectionId p.1 now createdAt

theorem mem_opened {drawn : ℕ} {incidents : List Incident}
    (h : incident ∈ opened incidents connectionId findings now createdAt drawn) :
    ∃ finding ∈ unmatched incidents connectionId findings, ∃ id, drawn ≤ id ∧
      id < drawn + (unmatched incidents connectionId findings).length ∧
      incident = newIncident id connectionId finding now createdAt := by
  obtain ⟨⟨finding, id⟩, hmem, rfl⟩ := List.mem_map.1 h
  exact ⟨finding, List.fst_mem_of_mem_zipIdx hmem, id, List.le_snd_of_mem_zipIdx hmem,
    List.snd_lt_add_of_mem_zipIdx hmem, rfl⟩

/-- The search of the source finds the open incident of the finding, if there is one. -/
theorem find?_open (finding : Finding) :
    ((db.incidents.filter (·.status = .open)).find? fun incident =>
      incident.code = finding.code && incident.connectionId = connectionId) =
    db.incidents.find? (finding.finds connectionId) := by
  rw [List.find?_filter]
  congr 1
  funext incident
  simp only [Finding.finds, Incident.concerns]
  cases decide (incident.status = .open) <;> cases decide (incident.connectionId = connectionId) <;>
    cases decide (incident.code = finding.code) <;> rfl

theorem find?_code_append_of_ne (h : incident.code ≠ finding.code) :
    ((done ++ [finding]).find? fun finding => finding.code = incident.code) =
      done.find? fun finding => finding.code = incident.code := by
  rw [List.find?_append]
  have hnone : ([finding].find? fun finding => finding.code = incident.code) = none := by
    simp [Ne.symm h]
  rw [hnone, Option.or_none]

theorem find?_code_append_of_eq (h : incident.code = finding.code)
    (hnew : finding.code ∉ done.map (·.code)) :
    (done.find? fun finding => finding.code = incident.code) = none ∧
      ((done ++ [finding]).find? fun finding => finding.code = incident.code) = some finding := by
  have hnone : (done.find? fun finding => finding.code = incident.code) = none := by
    refine List.find?_eq_none.2 fun other hother hcode => hnew ?_
    exact List.mem_map.2 ⟨other, hother, (of_decide_eq_true hcode).trans h⟩
  refine ⟨hnone, ?_⟩
  rw [List.find?_append, hnone, Option.none_or]
  simp [h]

/-- A finding does not concern an incident of another code. -/
theorem detected_append_of_ne (h : incident.concerns connectionId = true → incident.code ≠ finding.code) :
    incident.detected connectionId (done ++ [finding]) now = incident.detected connectionId done now := by
  unfold Incident.detected
  split_ifs with hconcerns
  · rw [find?_code_append_of_ne (h hconcerns)]
  · rfl

/-- A finding of a new code detects the open incident as it was. -/
theorem detected_append_of_eq (hconcerns : incident.concerns connectionId = true)
    (hcode : incident.code = finding.code) (hnew : finding.code ∉ done.map (·.code)) :
    incident.detected connectionId done now = incident ∧
      incident.detected connectionId (done ++ [finding]) now = incident.detect finding now incident := by
  obtain ⟨hnone, hsome⟩ := find?_code_append_of_eq hcode hnew
  unfold Incident.detected
  rw [if_pos hconcerns, if_pos hconcerns, hnone, hsome]
  exact ⟨rfl, rfl⟩

theorem unmatched_append {incidents : List Incident} : unmatched incidents connectionId (done ++ [finding]) =
    unmatched incidents connectionId done ++ unmatched incidents connectionId [finding] :=
  List.filter_append ..

theorem id_detected : (incident.detected connectionId findings now).id = incident.id := by
  unfold Incident.detected
  split_ifs
  · split <;> rfl
  · rfl

/-- The update of the incident that a new code finds. -/
theorem updateWhere_detected (h : TableOk db) {existing : Incident} (hexisting : existing ∈ db.incidents)
    (hfinds : finding.finds connectionId existing = true) (hnew : finding.code ∉ done.map (·.code)) :
    Table.updateWhere (·.id = existing.id) (existing.detect finding now)
      (db.incidents.map (·.detected connectionId done now)) =
    db.incidents.map (·.detected connectionId (done ++ [finding]) now) := by
  obtain ⟨hconcerns, hcode⟩ := Bool.and_eq_true_iff.1 hfinds
  unfold Table.updateWhere
  rw [List.map_map]
  refine List.map_congr_left fun row hrow => ?_
  simp only [Function.comp_apply, id_detected, decide_eq_true_eq]
  split_ifs with hid
  · obtain rfl := h.eq_of_id hrow hexisting hid
    obtain ⟨hbefore, hafter⟩ := detected_append_of_eq hconcerns (of_decide_eq_true hcode) hnew
    rw [hbefore, hafter]
  · refine (detected_append_of_ne fun hrowConcerns hrowCode => hid ?_).symm
    have hcodes : row.code = existing.code := hrowCode.trans (of_decide_eq_true hcode).symm
    rw [h.eq_of_code hrow hexisting hrowConcerns hconcerns hcodes]

/-- The new incidents have new ids. -/
theorem updateWhere_opened (h : TableOk db) {existing : Incident} (hexisting : existing ∈ db.incidents)
    {f : Incident → Incident} : Table.updateWhere (·.id = existing.id) f
      (opened db.incidents connectionId findings now createdAt db.drawn) =
    opened db.incidents connectionId findings now createdAt db.drawn := by
  refine Table.updateWhere_of_none fun row hrow => ?_
  obtain ⟨-, -, id, hdrawn, -, rfl⟩ := mem_opened hrow
  exact decide_eq_false ((h.drawn existing hexisting).trans_le hdrawn).ne'

/-- The first loop in one step. -/
theorem foldl_applyFinding (h : TableOk db) (hcodes : (findings.map (·.code)).Nodup) :
    findings.foldl (QualityDb.applyFinding (db.incidents.filter (·.status = .open)) connectionId now createdAt) db =
      { db with
        incidents := db.incidents.map (·.detected connectionId findings now) ++
          opened db.incidents connectionId findings now createdAt db.drawn
        drawn := db.drawn + (unmatched db.incidents connectionId findings).length } := by
  induction findings using List.reverseRecOn with
  | nil =>
    have hsame : ∀ row : Incident, row.detected connectionId [] now = row := by
      intro row
      unfold Incident.detected
      split_ifs <;> rfl
    simp [hsame, opened, unmatched]
  | append_singleton done finding ih =>
    rw [List.map_append, List.nodup_append] at hcodes
    have hnew : finding.code ∉ done.map (·.code) := fun hmem =>
      hcodes.2.2 _ hmem _ (by simp) rfl
    rw [List.foldl_append, ih hcodes.1]
    simp only [List.foldl_cons, List.foldl_nil, QualityDb.applyFinding, find?_open]
    cases hfind : db.incidents.find? (finding.finds connectionId) with
    | none =>
      -- No open incident: the finding opens one.
      have hnone := List.find?_eq_none.1 hfind
      have hunmatched : unmatched db.incidents connectionId [finding] = [finding] := by
        refine List.filter_eq_self.2 fun other hother => ?_
        obtain rfl := List.mem_singleton.1 hother
        rw [Bool.not_eq_true', List.any_eq_false]
        exact hnone
      have hmap : db.incidents.map (·.detected connectionId (done ++ [finding]) now) =
          db.incidents.map (·.detected connectionId done now) := by
        refine List.map_congr_left fun row hrow => detected_append_of_ne fun hconcerns hcode => ?_
        exact hnone row hrow (by simp [Finding.finds, hconcerns, hcode])
      rw [unmatched_append, hunmatched, hmap]
      simp [opened, unmatched_append, hunmatched, List.zipIdx_append, Nat.add_assoc]
    | some existing =>
      have hexisting : existing ∈ db.incidents := List.mem_of_find?_eq_some hfind
      have hfinds := List.find?_some hfind
      have hunmatched : unmatched db.incidents connectionId [finding] = [] := by
        refine List.filter_eq_nil_iff.2 fun other hother => ?_
        obtain rfl := List.mem_singleton.1 hother
        rw [Bool.not_eq_true', Bool.not_eq_false, List.any_eq_true]
        exact ⟨existing, hexisting, hfinds⟩
      dsimp only
      rw [Table.updateWhere_append, updateWhere_detected h hexisting hfinds hnew,
        updateWhere_opened h hexisting]
      simp only [opened, unmatched_append, hunmatched, List.append_nil]

/-! ## Both loops -/

/-- An incident after an evaluation. -/
def Incident.evaluated (connectionId : Option String) (findings : List Finding) (now : ℤ) (row : Incident) :
    Incident :=
  if row.concerns connectionId then
    match findings.find? fun finding => finding.code = row.code with
    | some finding => row.detect finding now row
    | none => row.resolve now
  else row

/-- The ids of the open incidents of the connection that are not found. -/
def absent (incidents : List Incident) (connectionId : Option String) (codes : List String) : List ℕ :=
  (incidents.filter fun incident => incident.concerns connectionId && !codes.contains incident.code).map (·.id)

/-- The resolution of the incidents with these ids. -/
def resolveAll (ids : List ℕ) (now : ℤ) (rows : List Incident) : List Incident :=
  Table.updateWhere (fun row => ids.contains row.id) (·.resolve now) rows

/-- The second loop resolves the incidents that are not found. -/
theorem foldl_resolveAbsent {codes : List String} (rows : List Incident) (db : QualityDb) :
    (rows.filter (·.status = .open)).foldl (QualityDb.resolveAbsent connectionId codes now) db =
      { db with incidents := resolveAll (absent rows connectionId codes) now db.incidents } := by
  rw [resolveAll, ← Table.foldl_updateWhere_eq (f := fun row : Incident => row.resolve now) (fun _ => rfl)
    fun _ => rfl]
  induction rows generalizing db with
  | nil => rfl
  | cons row rows ih =>
    by_cases hopen : row.status = .open
    · have hhead : (row :: rows).filter (·.status = .open) = row :: rows.filter (·.status = .open) := by
        simp [hopen]
      rw [hhead, List.foldl_cons, ih]
      by_cases hskip : row.connectionId ≠ connectionId ∨ codes.contains row.code = true
      · have hkept : absent (row :: rows) connectionId codes = absent rows connectionId codes := by
          refine congrArg (List.map _) (List.filter_cons_of_neg ?_)
          simp only [Incident.concerns, Bool.and_eq_true, decide_eq_true_eq, Bool.not_eq_true']
          rintro ⟨⟨-, hconnection⟩, hcode⟩
          rcases hskip with hne | hcontains
          · exact hne hconnection
          · rw [hcode] at hcontains
            exact nomatch hcontains
        rw [hkept, QualityDb.resolveAbsent, if_pos (by simpa using hskip)]
      · have hadded : absent (row :: rows) connectionId codes =
            row.id :: absent rows connectionId codes := by
          refine congrArg (List.map _) (List.filter_cons_of_pos ?_)
          rw [not_or, not_not, Bool.not_eq_true] at hskip
          have hcode := hskip.2
          simp_all [Incident.concerns]
        rw [hadded, QualityDb.resolveAbsent, if_neg (by simpa using hskip)]
        rfl
    · have hclosed : absent (row :: rows) connectionId codes = absent rows connectionId codes :=
        congrArg (List.map _) (List.filter_cons_of_neg (by simp [Incident.concerns, hopen]))
      have htail : (row :: rows).filter (·.status = .open) = rows.filter (·.status = .open) := by
        simp [hopen]
      rw [htail, hclosed, ih]

/-- The resolution of the incidents that were not detected. -/
theorem resolve_detected (h : TableOk db) {row : Incident} (hrow : row ∈ db.incidents) :
    (if (absent db.incidents connectionId (findings.map (·.code))).contains row.id then
      (row.detected connectionId findings now).resolve now else row.detected connectionId findings now) =
    row.evaluated connectionId findings now := by
  have hmem : (absent db.incidents connectionId (findings.map (·.code))).contains row.id = true ↔
      row.concerns connectionId = true ∧ row.code ∉ findings.map (·.code) := by
    rw [List.contains_iff_mem, absent, List.mem_map]
    constructor
    · rintro ⟨other, hother, hid⟩
      obtain ⟨hmem, habsent⟩ := List.mem_filter.1 hother
      obtain rfl := h.eq_of_id hmem hrow hid
      simpa using habsent
    · rintro ⟨hconcerns, hcode⟩
      exact ⟨row, List.mem_filter.2 ⟨hrow, by simpa [hconcerns] using hcode⟩, rfl⟩
  have hfind : row.code ∉ findings.map (·.code) ↔
      (findings.find? fun finding => finding.code = row.code) = none := by
    rw [List.find?_eq_none]
    simp
  rw [hfind] at hmem
  unfold Incident.detected Incident.evaluated
  by_cases hconcerns : row.concerns connectionId = true
  · cases hcode : findings.find? fun finding => finding.code = row.code with
    | none => rw [if_pos (hmem.2 ⟨hconcerns, hcode⟩), if_pos hconcerns, if_pos hconcerns]
    | some finding =>
      have hnot := mt hmem.1 (not_and_of_not_right _ (by rw [hcode]; exact nofun))
      rw [if_neg hnot, if_pos hconcerns]
  · rw [if_neg (mt hmem.1 (not_and_of_not_left _ hconcerns)), if_neg hconcerns, if_neg hconcerns]

/-- **`synchronizeIncidents` in one step.** -/
theorem synchronizeIncidents_eq (h : TableOk db) (hcodes : (findings.map (·.code)).Nodup) :
    db.synchronizeIncidents connectionId findings now createdAt =
      { db with
        incidents := db.incidents.map (·.evaluated connectionId findings now) ++
          opened db.incidents connectionId findings now createdAt db.drawn
        drawn := db.drawn + (unmatched db.incidents connectionId findings).length } := by
  have hold : resolveAll (absent db.incidents connectionId (findings.map (·.code))) now
      (db.incidents.map (·.detected connectionId findings now)) =
      db.incidents.map (·.evaluated connectionId findings now) := by
    unfold resolveAll Table.updateWhere
    rw [List.map_map]
    refine List.map_congr_left fun row hrow => ?_
    simp only [Function.comp_apply, id_detected]
    exact resolve_detected h hrow
  have hnew : resolveAll (absent db.incidents connectionId (findings.map (·.code))) now
      (opened db.incidents connectionId findings now createdAt db.drawn) =
      opened db.incidents connectionId findings now createdAt db.drawn := by
    refine Table.updateWhere_of_none fun row hrow => ?_
    obtain ⟨-, -, id, hdrawn, -, rfl⟩ := mem_opened hrow
    rw [Bool.eq_false_iff, ne_eq, List.contains_iff_mem, absent, List.mem_map]
    rintro ⟨other, hother, hid⟩
    have hlt := (h.drawn other (List.mem_filter.1 hother).1).trans_le hdrawn
    exact absurd hid hlt.ne
  unfold QualityDb.synchronizeIncidents
  dsimp only
  rw [foldl_applyFinding h hcodes, foldl_resolveAbsent]
  dsimp only
  rw [resolveAll, Table.updateWhere_append]
  exact congrArg₂ (fun old new => ({ db with
    incidents := old ++ new
    drawn := db.drawn + (unmatched db.incidents connectionId findings).length } : QualityDb)) hold hnew

/-! ## One evaluation -/

/-- What `synchronizeIncidents` makes of the rows. -/
theorem mem_synchronizeIncidents (h : TableOk db) (hcodes : (findings.map (·.code)).Nodup)
    (hmem : incident ∈ (db.synchronizeIncidents connectionId findings now createdAt).incidents) :
    (∃ row ∈ db.incidents, incident = row.evaluated connectionId findings now) ∨
      ∃ finding ∈ unmatched db.incidents connectionId findings, ∃ id, db.drawn ≤ id ∧
        incident = newIncident id connectionId finding now createdAt := by
  rw [synchronizeIncidents_eq h hcodes] at hmem
  rcases List.mem_append.1 hmem with hold | hnew
  · obtain ⟨row, hrow, rfl⟩ := List.mem_map.1 hold
    exact Or.inl ⟨row, hrow, rfl⟩
  · obtain ⟨finding, hfinding, id, hdrawn, -, rfl⟩ := mem_opened hnew
    exact Or.inr ⟨finding, hfinding, id, hdrawn, rfl⟩

/-- The three ways in which a row goes through an evaluation. -/
theorem evaluated_cases (connectionId : Option String) (findings : List Finding) (now : ℤ) (row : Incident) :
    (row.concerns connectionId = true ∧ ∃ finding ∈ findings, finding.code = row.code ∧
      row.evaluated connectionId findings now = row.detect finding now row) ∨
    (row.concerns connectionId = true ∧ row.code ∉ findings.map (·.code) ∧
      row.evaluated connectionId findings now = row.resolve now) ∨
    (row.concerns connectionId = false ∧ row.evaluated connectionId findings now = row) := by
  unfold Incident.evaluated
  cases hconcerns : row.concerns connectionId with
  | false => exact Or.inr (Or.inr ⟨rfl, if_neg Bool.false_ne_true⟩)
  | true =>
    rw [if_pos rfl]
    cases hfind : findings.find? fun finding => finding.code = row.code with
    | some finding =>
      have hcode := List.find?_some hfind
      exact Or.inl ⟨rfl, finding, List.mem_of_find?_eq_some hfind, of_decide_eq_true hcode, rfl⟩
    | none =>
      refine Or.inr (Or.inl ⟨rfl, fun hcode => ?_, rfl⟩)
      obtain ⟨finding, hfinding, hcode⟩ := List.mem_map.1 hcode
      exact List.find?_eq_none.1 hfind finding hfinding (decide_eq_true hcode)

theorem id_evaluated (row : Incident) : (row.evaluated connectionId findings now).id = row.id := by
  rcases evaluated_cases connectionId findings now row with
    ⟨-, finding, -, -, heq⟩ | ⟨-, -, heq⟩ | ⟨-, heq⟩ <;> rw [heq] <;> rfl

/-- An evaluation opens no row again. -/
theorem openKey_evaluated (connectionId : Option String) (findings : List Finding) (now : ℤ) (row : Incident) :
    (row.evaluated connectionId findings now).openKey = row.openKey ∨
      (row.evaluated connectionId findings now).openKey = none := by
  rcases evaluated_cases connectionId findings now row with
    ⟨-, finding, -, -, heq⟩ | ⟨-, -, heq⟩ | ⟨-, heq⟩ <;> rw [heq]
  · exact Or.inl rfl
  · exact Or.inr rfl
  · exact Or.inl rfl

/-- The opened incidents have different ids. -/
theorem opened_ids {incidents : List Incident} {drawn : ℕ} :
    (opened incidents connectionId findings now createdAt drawn).Pairwise fun a b => a.id ≠ b.id := by
  refine List.pairwise_map.2 ?_
  refine (List.pairwise_map (f := Prod.snd) (R := fun i j : ℕ => i ≠ j)).1 ?_
  rw [List.zipIdx_map_snd]
  exact List.nodup_range'

/-- The opened incidents are of different codes. -/
theorem opened_codes {incidents : List Incident} {drawn : ℕ} (hcodes : (findings.map (·.code)).Nodup) :
    (opened incidents connectionId findings now createdAt drawn).Pairwise fun a b => a.code ≠ b.code := by
  refine List.pairwise_map.2 ?_
  refine (List.pairwise_map (f := Prod.fst) (R := fun a b : Finding => a.code ≠ b.code)).1 ?_
  rw [List.zipIdx_map_fst]
  exact (List.pairwise_map.1 hcodes).filter _

theorem TableOk.synchronizeIncidents (h : TableOk db) (hcodes : (findings.map (·.code)).Nodup) :
    TableOk (db.synchronizeIncidents connectionId findings now createdAt) := by
  rw [synchronizeIncidents_eq h hcodes]
  refine ⟨?_, fun incident hmem => ?_, ?_⟩
  · refine List.pairwise_append.2 ⟨List.pairwise_map.2 (h.ids.imp fun hab k ha hb => ?_),
      opened_ids.imp fun hab k ha hb => hab (Option.some.inj (ha.trans hb.symm)), fun a ha b hb k hka hkb => ?_⟩
    · exact hab k (by rwa [Incident.idKey, id_evaluated] at ha) (by rwa [Incident.idKey, id_evaluated] at hb)
    · obtain ⟨row, hrow, rfl⟩ := List.mem_map.1 ha
      obtain ⟨finding, -, id, hdrawn, -, rfl⟩ := mem_opened hb
      rw [Incident.idKey, id_evaluated] at hka
      have hid : row.id = id := Option.some.inj (hka.trans hkb.symm)
      exact absurd ((h.drawn row hrow).trans_le hdrawn) (hid ▸ lt_irrefl _)
  · rcases List.mem_append.1 hmem with hold | hnew
    · obtain ⟨row, hrow, rfl⟩ := List.mem_map.1 hold
      rw [id_evaluated]
      exact (h.drawn row hrow).trans_le (Nat.le_add_right _ _)
    · obtain ⟨finding, -, id, -, hlt, rfl⟩ := mem_opened hnew
      exact hlt
  · have hkey : ∀ (row : Incident) k, (row.evaluated connectionId findings now).openKey = some k →
        row.openKey = some k := by
      intro row k hk
      rcases openKey_evaluated connectionId findings now row with heq | heq
      · exact heq ▸ hk
      · exact nomatch heq.symm.trans hk
    refine List.pairwise_append.2 ⟨List.pairwise_map.2 (h.open_.imp fun hab k ha hb => ?_), ?_,
      fun a ha b hb k hka hkb => ?_⟩
    · exact hab k (hkey _ k ha) (hkey _ k hb)
    · refine (opened_codes hcodes).imp_of_mem fun ha hb hab k hka hkb => hab ?_
      obtain ⟨finding, -, id, -, -, rfl⟩ := mem_opened ha
      obtain ⟨finding', -, id', -, -, rfl⟩ := mem_opened hb
      have heq : some (connectionId, finding.code) = some (connectionId, finding'.code) := hka.trans hkb.symm
      exact congrArg Prod.snd (Option.some.inj heq)
    · obtain ⟨row, hrow, rfl⟩ := List.mem_map.1 ha
      obtain ⟨finding, hfinding, id, -, -, rfl⟩ := mem_opened hb
      have hrowKey : row.openKey = some (connectionId, finding.code) := (hkey row k hka).trans hkb.symm
      unfold Incident.openKey at hrowKey
      split_ifs at hrowKey with hopen
      obtain ⟨hconnection, hcode⟩ := Prod.mk.inj (Option.some.inj hrowKey)
      have hnone := (List.mem_filter.1 hfinding).2
      rw [Bool.not_eq_true', List.any_eq_false] at hnone
      refine hnone row hrow ?_
      simp [Finding.finds, Incident.concerns, hopen, hconnection, hcode]

/-- The count of an incident is that of its detections, and the first one is not after its row. -/
def CountOk (incident : Incident) : Prop :=
  incident.detectionCount = incident.detections.length ∧
    ∃ first, incident.detections.head? = some first ∧ first ≤ incident.firstDetectedAt

theorem CountOk.evaluated (h : CountOk incident) : CountOk (incident.evaluated connectionId findings now) := by
  rcases evaluated_cases connectionId findings now incident with
    ⟨-, finding, -, -, heq⟩ | ⟨-, -, heq⟩ | ⟨-, heq⟩ <;> rw [heq]
  · obtain ⟨hcount, first, hfirst, hle⟩ := h
    refine ⟨?_, first, ?_, hle⟩
    · simp [Incident.detect, hcount]
    · simp [Incident.detect, List.head?_append, hfirst]
  · exact h
  · exact h

/-! ## What an evaluation guarantees -/

/-- The reason for which an incident is confirmed at a time: an immediate finding, or three detections over
ten minutes. -/
def Confirms (findings : List Finding) (now : ℤ) (incident : Incident) : Prop :=
  ∃ finding ∈ findings, finding.code = incident.code ∧ (finding.immediate = true ∨
    3 ≤ incident.detections.length ∧ ∃ first, incident.detections.head? = some first ∧
      confirmationWindowMs ≤ now - first)

/-- Resolved incidents stay as they are and confirmations stay. -/
structure Kept (db db' : QualityDb) : Prop where
  resolved : ∀ row ∈ db.incidents, row.status = .resolved → row ∈ db'.incidents
  confirmed : ∀ row ∈ db.incidents, ∀ time, row.confirmedAt = some time →
    ∃ incident ∈ db'.incidents, incident.id = row.id ∧ incident.confirmedAt = some time

theorem Kept.refl (db : QualityDb) : Kept db db :=
  ⟨fun _ hrow _ => hrow, fun row hrow _ htime => ⟨row, hrow, rfl, htime⟩⟩

theorem Kept.trans {db₁ db₂ db₃ : QualityDb} (h : Kept db₁ db₂) (h' : Kept db₂ db₃) : Kept db₁ db₃ where
  resolved row hrow hstatus := h'.resolved row (h.resolved row hrow hstatus) hstatus
  confirmed row hrow time htime := by
    obtain ⟨incident, hincident, hid, htime'⟩ := h.confirmed row hrow time htime
    obtain ⟨last, hlast, hid', hlastTime⟩ := h'.confirmed incident hincident time htime'
    exact ⟨last, hlast, hid'.trans hid, hlastTime⟩

theorem kept_synchronizeIncidents (h : TableOk db) (hcodes : (findings.map (·.code)).Nodup) :
    Kept db (db.synchronizeIncidents connectionId findings now createdAt) := by
  rw [synchronizeIncidents_eq h hcodes]
  have hmem : ∀ row ∈ db.incidents, row.evaluated connectionId findings now ∈
      db.incidents.map (·.evaluated connectionId findings now) ++
        opened db.incidents connectionId findings now createdAt db.drawn := fun row hrow =>
    List.mem_append_left _ (List.mem_map_of_mem hrow)
  refine ⟨fun row hrow hstatus => ?_, fun row hrow time htime => ⟨_, hmem row hrow, id_evaluated row, ?_⟩⟩
  · have hsame : row.evaluated connectionId findings now = row := by
      refine if_neg ?_
      simp [Incident.concerns, hstatus]
    exact hsame ▸ hmem row hrow
  · rcases evaluated_cases connectionId findings now row with
      ⟨-, finding, -, -, heq⟩ | ⟨-, -, heq⟩ | ⟨-, heq⟩ <;> rw [heq]
    · simp [Incident.detect, htime]
    · exact htime
    · exact htime

/-- A confirmation is an earlier one or has its reason in this evaluation. -/
theorem confirmed_synchronizeIncidents (h : TableOk db) (hcount : ∀ row ∈ db.incidents, CountOk row)
    (hcodes : (findings.map (·.code)).Nodup) {time : ℤ}
    (hmem : incident ∈ (db.synchronizeIncidents connectionId findings now createdAt).incidents)
    (htime : incident.confirmedAt = some time) :
    (∃ row ∈ db.incidents, row.id = incident.id ∧ row.confirmedAt = some time) ∨
      time = now ∧ Confirms findings now incident := by
  rcases mem_synchronizeIncidents h hcodes hmem with ⟨row, hrow, rfl⟩ | ⟨finding, hfinding, id, -, rfl⟩
  · rcases evaluated_cases connectionId findings now row with
      ⟨-, finding, hfinding, hcode, heq⟩ | ⟨-, -, heq⟩ | ⟨-, heq⟩
    · rw [heq] at htime ⊢
      cases hbefore : row.confirmedAt with
      | some before =>
        refine Or.inl ⟨row, hrow, rfl, ?_⟩
        rwa [Incident.detect, hbefore, Option.some_or, ← hbefore] at htime
      | none =>
        rw [Incident.detect, hbefore, Option.none_or] at htime
        split_ifs at htime with hreason
        refine Or.inr ⟨(Option.some.inj htime).symm, finding, hfinding, hcode, ?_⟩
        rw [Bool.or_eq_true, Bool.and_eq_true, decide_eq_true_eq, decide_eq_true_eq] at hreason
        refine hreason.imp_right fun hlong => ?_
        obtain ⟨hlength, first, hfirst, hle⟩ := hcount row hrow
        refine ⟨?_, first, ?_, hlong.2.trans (sub_le_sub_left hle now)⟩
        · rw [Incident.detect, List.length_append, ← hlength]
          exact hlong.1
        · rw [Incident.detect, List.head?_append, hfirst, Option.some_or]
    · exact Or.inl ⟨row, hrow, (id_evaluated row).symm, by rwa [heq] at htime⟩
    · exact Or.inl ⟨row, hrow, (id_evaluated row).symm, by rwa [heq] at htime⟩
  · refine Or.inr ?_
    unfold newIncident at htime
    dsimp only at htime
    split_ifs at htime with himmediate
    exact ⟨(Option.some.inj htime).symm, finding, (List.mem_filter.1 hfinding).1, rfl, Or.inl himmediate⟩

/-! ## Runs -/

variable {release : Release} {db' : QualityDb} {evaluation : Evaluation}

/-- What an evaluation does: it keeps the resolved incidents and the confirmations, confirms for a reason,
and is certified only without findings and without an open confirmed incident of its connection. -/
structure EvaluationSafe (release : Release) (db : QualityDb) (evaluation : Evaluation) (db' : QualityDb) :
    Prop where
  kept : Kept db db'
  confirmed : ∀ incident ∈ db'.incidents, ∀ time, incident.confirmedAt = some time →
    (∃ row ∈ db.incidents, row.id = incident.id ∧ row.confirmedAt = some time) ∨
      time = evaluation.startedAt ∧ Confirms (evaluation.readings.findings release) time incident
  certified : ∃ check, db'.checks = db.checks ++ [check] ∧ check.connectionId = evaluation.connectionId ∧
    (check.status = .certified → evaluation.readings.findings release = [] ∧
      ∀ incident ∈ db'.incidents, incident.status = .open → incident.connectionId = check.connectionId →
        incident.confirmedAt = none)

/-- The invariant of the tables reached. -/
structure QualityInv (db : QualityDb) : Prop where
  table : TableOk db
  counts : ∀ incident ∈ db.incidents, CountOk incident

theorem qualityStep_eq_some (h : qualityStep release db evaluation = some db') :
    evaluation.startedAt ≤ evaluation.createdAt ∧ db' = db.evaluate release evaluation := by
  unfold qualityStep at h
  split_ifs at h with htime
  exact ⟨htime.2, (Option.some.inj h).symm⟩

theorem QualityInv.step (h : QualityInv db) (hstep : qualityStep release db evaluation = some db') :
    QualityInv db' := by
  obtain ⟨htime, rfl⟩ := qualityStep_eq_some hstep
  have hcodes := evaluation.readings.findings_codes_nodup release
  have htable : TableOk (db.synchronizeIncidents evaluation.connectionId (evaluation.readings.findings release)
      evaluation.startedAt evaluation.createdAt) := h.table.synchronizeIncidents hcodes
  refine ⟨⟨htable.ids, htable.drawn, htable.open_⟩, fun incident hmem => ?_⟩
  rcases mem_synchronizeIncidents h.table hcodes hmem with ⟨row, hrow, rfl⟩ | ⟨finding, -, id, -, rfl⟩
  · exact (h.counts row hrow).evaluated
  · exact ⟨rfl, evaluation.startedAt, rfl, htime⟩

theorem evaluation_certified (h : (db.evaluationStatus release evaluation) = .certified) :
    evaluation.readings.findings release = [] ∧ ∀ incident ∈ db.incidents, incident.status = .open →
      incident.connectionId = evaluation.connectionId → incident.confirmedAt = none := by
  unfold QualityDb.evaluationStatus at h
  split_ifs at h with hblocked hchecking
  rw [Bool.not_eq_true, Bool.or_eq_false_iff, Bool.not_eq_false'] at hchecking
  refine ⟨List.isEmpty_iff.1 hchecking.1, fun incident hmem hopen hconnection => ?_⟩
  rw [Bool.not_eq_true, List.any_eq_false] at hblocked
  have hnot := hblocked incident (List.mem_filter.2 ⟨hmem, by simp [hopen, hconnection]⟩)
  simpa using hnot

theorem QualityInv.evaluationSafe (h : QualityInv db) (hstep : qualityStep release db evaluation = some db') :
    EvaluationSafe release db evaluation db' := by
  obtain ⟨-, rfl⟩ := qualityStep_eq_some hstep
  have hcodes := evaluation.readings.findings_codes_nodup release
  have hkept : Kept db (db.synchronizeIncidents evaluation.connectionId (evaluation.readings.findings release)
      evaluation.startedAt evaluation.createdAt) := kept_synchronizeIncidents h.table hcodes
  have hchecks : (db.synchronizeIncidents evaluation.connectionId (evaluation.readings.findings release)
      evaluation.startedAt evaluation.createdAt).checks = db.checks := by
    rw [synchronizeIncidents_eq h.table hcodes]
  constructor
  · exact ⟨hkept.resolved, hkept.confirmed⟩
  · intro incident hmem time htime
    refine (confirmed_synchronizeIncidents h.table h.counts hcodes hmem htime).imp_right fun hreason => ?_
    exact ⟨hreason.1, hreason.1 ▸ hreason.2⟩
  · refine ⟨⟨evaluation.connectionId, (db.synchronizeIncidents evaluation.connectionId
      (evaluation.readings.findings release) evaluation.startedAt evaluation.createdAt).evaluationStatus release
        evaluation, evaluation.startedAt⟩, ?_, rfl, evaluation_certified⟩
    rw [← hchecks]
    rfl

/-- What holds of the incidents after any run: one open incident of each code of a connection, what the next
evaluation does, and what every later table keeps. -/
structure LifecycleSafe (release : Release) (db : QualityDb) : Prop where
  one : ∀ a ∈ db.incidents, ∀ b ∈ db.incidents, a.status = .open → b.status = .open →
    a.connectionId = b.connectionId → a.code = b.code → a = b
  ids : ∀ a ∈ db.incidents, ∀ b ∈ db.incidents, a.id = b.id → a = b
  evaluations : ∀ evaluation db', qualityStep release db evaluation = some db' →
    EvaluationSafe release db evaluation db'
  later : ∀ db', Run.Reachable (qualityStep release) db db' → Kept db db'

theorem qualityInv_start (clock : ℤ) : QualityInv { clock := clock } :=
  ⟨⟨Table.uniqueOn_nil, fun _ hmem => absurd hmem List.not_mem_nil, Table.uniqueOn_nil⟩,
    fun _ hmem => absurd hmem List.not_mem_nil⟩

theorem QualityInv.one (h : QualityInv db) (ha : a ∈ db.incidents) (hb : b ∈ db.incidents)
    (hopen : a.status = .open) (hopen' : b.status = .open) (hconnection : a.connectionId = b.connectionId)
    (hcode : a.code = b.code) : a = b := by
  have hca : a.concerns b.connectionId = true := by simp [Incident.concerns, hopen, hconnection]
  have hcb : b.concerns b.connectionId = true := by simp [Incident.concerns, hopen']
  exact h.table.eq_of_code ha hb hca hcb hcode

theorem QualityInv.later (h : QualityInv db) (h' : Run.Reachable (qualityStep release) db db') : Kept db db' :=
  h'.stable (R := Kept) h (fun db _ => Kept.refl db) (fun _ _ _ => Kept.trans) fun _ _ _ hinv _ hstep =>
    ⟨hinv.step hstep, (hinv.evaluationSafe hstep).kept⟩

/-- **The life of an incident.** -/
theorem incident_lifecycle {clock : ℤ} (h : Run.Reachable (qualityStep release) { clock := clock } db) :
    LifecycleSafe release db := by
  have hinv : QualityInv db :=
    h.invariant (qualityInv_start clock) fun _ _ _ hinv _ hstep => hinv.step hstep
  constructor
  · exact fun a ha b hb => hinv.one ha hb
  · exact fun a ha b hb => hinv.table.eq_of_id ha hb
  · exact fun _ _ hstep => hinv.evaluationSafe hstep
  · exact fun db' h' => hinv.later h'

namespace Sample

def build : Release := ⟨"build", "metrics"⟩

/-- Nothing is wrong but the connection. -/
def readings (connection : Option ConnectionState) : Readings :=
  { connection, now := 20, workers := [], failedRaw := 0, oldestRaw := none, failedReports := []
    oldestReportJob := none, activeDeals := 0, factDeals := 0, dealMismatches := 0, historyRows := 0
    transitionRows := 0 }

/-- An evaluation before amoCRM is connected, and one after it. -/
def connecting : List Evaluation :=
  [⟨10, readings none, 10⟩,
    ⟨20, readings (some ⟨"amo", "CONNECTED", none, some 20, none, none, none⟩), 20⟩]

end Sample

/-- The incidents of the connecting run. -/
theorem incident_lifecycle_sample : ∃ db, db.checks.length = 2 ∧ LifecycleSafe Sample.build db := by
  have hrun : Run.run (qualityStep Sample.build) { clock := 0 } Sample.connecting = some _ := rfl
  exact ⟨_, rfl, incident_lifecycle (Run.reachable_of_run hrun)⟩

/-- The evaluation after the connection is certified while the incident of the missing connection, which
belongs to no connection, is confirmed and open. -/
theorem certified_beside_confirmed :
    ∃ db, Run.Reachable (qualityStep Sample.build) { clock := 0 } db ∧
      db.checks.map (·.status) = [.blocked, .certified] ∧
      db.incidents.map (fun incident => (incident.code, incident.status, incident.confirmedAt)) =
        [("AMO_CONNECTION_MISSING", .open, some 10)] := by
  have hrun : Run.run (qualityStep Sample.build) { clock := 0 } Sample.connecting = some _ := rfl
  exact ⟨_, Run.reachable_of_run hrun, by decide +kernel, by decide +kernel⟩

end AmoAnalytics.Quality
