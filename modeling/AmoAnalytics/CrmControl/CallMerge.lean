import AmoAnalytics.CrmControl.CallSources
import AmoAnalytics.Lib.Collected

/-!
# The copies of a call note

Whether the source of a note is bound: it is when its first copy is and all copies have one content. That does not
depend on the order of the notes exactly when copies of one content also agree on what stands around the content.
-/

namespace AmoAnalytics.CrmControl.Call

open JsText AmoAnalytics.Json

/-! ## The sources of the calls -/

section Sources

variable (rt : Runtime) (observation : CallObservation) (window : Window)

/-- The map of the sources by their keys. -/
def sourceMap (calls : List CallNote) : List (JsString × CallSource) :=
  JsMap.collect CallSource.key (mergeCopy rt) (calls.map (·.sourceOf rt observation window)) []

variable {rt observation window} {calls : List CallNote} {id : JsString} {source : CallSource}

theorem foldlM_addNote {notes : List AmoAnalytics.Json} {byId : List (JsString × CallSource)}
    (h : ∀ call ∈ notes.filterMap callNote?, call.identityConflict ≠ none) :
    notes.foldlM (addNote rt observation window) byId =
      some (JsMap.collect CallSource.key (mergeCopy rt)
        ((notes.filterMap callNote?).map (·.sourceOf rt observation window)) byId) := by
  induction notes generalizing byId with
  | nil => rfl
  | cons note notes ih =>
    rw [List.foldlM_cons, addNote]
    cases hcall : callNote? note with
    | none =>
      rw [List.filterMap_cons_none hcall] at h ⊢
      exact ih h
    | some call =>
      rw [List.filterMap_cons_some hcall] at h ⊢
      have hread := @CallNote.read_of_readable rt observation window call (h call List.mem_cons_self)
      simp only [hread]
      exact ih fun other hother => h other (List.mem_cons_of_mem _ hother)

theorem readable_of_foldlM {notes : List AmoAnalytics.Json} {byId result : List (JsString × CallSource)}
    (h : notes.foldlM (addNote rt observation window) byId = some result) :
    ∀ call ∈ notes.filterMap callNote?, call.identityConflict ≠ none := by
  induction notes generalizing byId with
  | nil => exact fun call hcall => absurd hcall List.not_mem_nil
  | cons note notes ih =>
    rw [List.foldlM_cons] at h
    obtain ⟨next, hnext, hrest⟩ := Option.bind_eq_some_iff.1 h
    rw [addNote] at hnext
    cases hcall : callNote? note with
    | none =>
      rw [List.filterMap_cons_none hcall]
      exact ih hrest
    | some call =>
      rw [List.filterMap_cons_some hcall]
      refine List.forall_mem_cons.2 ⟨fun hnone => ?_, ih hrest⟩
      simp only [hcall, CallNote.read, hnone] at hnext
      cases hnext

theorem sourceMap_nodup : ((sourceMap rt observation window calls).map Prod.fst).Nodup :=
  JsMap.nodup_keys_collect _ _ List.nodup_nil

/-- The source of a key is what its copies make of the first of them. -/
theorem sourceMap_get? {key : JsString} (h : JsMap.get? key (sourceMap rt observation window calls) = some source) :
    ∃ first rest, (calls.filter fun call => (call.sourceOf rt observation window).key = key) = first :: rest ∧
      Merged rt (first.sourceOf rt observation window) (rest.map (·.sourceOf rt observation window)) source := by
  rw [sourceMap, JsMap.get?_collect, List.filter_map] at h
  cases hcopies : calls.filter fun call => (call.sourceOf rt observation window).key = key with
  | nil =>
    have hnone : calls.filter ((fun a => decide (a.key = key)) ∘ (·.sourceOf rt observation window)) = [] := hcopies
    rw [hnone] at h
    exact nomatch h
  | cons first rest =>
    have hsome : calls.filter ((fun a => decide (a.key = key)) ∘ (·.sourceOf rt observation window)) =
        first :: rest := hcopies
    rw [hsome, List.map_cons] at h
    obtain ⟨merged, hmerged, hspec⟩ := @merged_foldl rt (first.sourceOf rt observation window)
      (rest.map (·.sourceOf rt observation window))
    obtain rfl : merged = source := Option.some.inj (hmerged.symm.trans h)
    exact ⟨first, rest, rfl, hspec⟩

theorem Merged.key {first : CallSource} {rest : List CallSource} (h : Merged rt first rest source) :
    source.key = first.key := by
  rw [CallSource.key, h.noteId, h.sourceHash, CallSource.key]

theorem key_of_get? {key : JsString} (h : JsMap.get? key (sourceMap rt observation window calls) = some source) :
    source.key = key := by
  obtain ⟨first, rest, hcopies, hmerged⟩ := sourceMap_get? h
  have hfirst : first ∈ calls.filter fun call => (call.sourceOf rt observation window).key = key :=
    hcopies ▸ List.mem_cons_self
  exact hmerged.key.trans (of_decide_eq_true (List.mem_filter.1 hfirst).2)

theorem mem_sources (h : source ∈ JsMap.values (sourceMap rt observation window calls)) :
    JsMap.get? source.key (sourceMap rt observation window calls) = some source := by
  obtain ⟨⟨key, _⟩, hmem, rfl⟩ := List.mem_map.1 h
  have hget := (JsMap.get?_eq_some_iff sourceMap_nodup).2 hmem
  rw [key_of_get? hget, hget]

theorem mem_sources_of_get? {key : JsString}
    (h : JsMap.get? key (sourceMap rt observation window calls) = some source) :
    source ∈ JsMap.values (sourceMap rt observation window calls) :=
  List.mem_map.2 ⟨(key, source), JsMap.mem_of_get? h, rfl⟩

theorem filter_key {call : CallNote} (hid : call.id = some id) :
    (calls.filter fun call => (call.sourceOf rt observation window).key = id) =
      calls.filter fun call => call.id = some id := by
  refine List.filter_congr fun other _ => ?_
  rw [decide_eq_decide]
  exact CallNote.key_iff hid

/-- The copies that made the source of a note id. -/
theorem sources_copies (h : source ∈ JsMap.values (sourceMap rt observation window calls))
    (hid : source.noteId = some id) :
    ∃ first rest, (calls.filter fun call => call.id = some id) = first :: rest ∧
      Merged rt (first.sourceOf rt observation window) (rest.map (·.sourceOf rt observation window)) source := by
  obtain ⟨first, rest, hcopies, hmerged⟩ := sourceMap_get? (mem_sources h)
  have hfirst : first.id = some id := hmerged.noteId.symm.trans hid
  have hkey : source.key = id := by rw [CallSource.key, hid, Option.getD_some]
  rw [hkey, filter_key hfirst] at hcopies
  exact ⟨first, rest, hcopies, hmerged⟩

/-- Every note id has its source. -/
theorem sources_of_copies {call : CallNote} (hcall : call ∈ calls) (hid : call.id = some id) :
    ∃ source ∈ JsMap.values (sourceMap rt observation window calls), source.noteId = some id := by
  have hkey : (call.sourceOf rt observation window).key = id := (CallNote.key_iff hid).2 hid
  have hmem : id ∈ (sourceMap rt observation window calls).map Prod.fst :=
    (JsMap.mem_keys_collect _ _).2 ⟨_, List.mem_map_of_mem hcall, hkey⟩
  obtain ⟨source, hget⟩ := Option.isSome_iff_exists.1 (JsMap.isSome_get?_iff.2 hmem)
  obtain ⟨first, rest, hcopies, hmerged⟩ := sourceMap_get? hget
  rw [filter_key hid] at hcopies
  have hfirst : first ∈ calls.filter fun call => call.id = some id := hcopies ▸ List.mem_cons_self
  exact ⟨source, mem_sources_of_get? hget, hmerged.noteId.trans (of_decide_eq_true (List.mem_filter.1 hfirst).2)⟩

/-- No two sources share a note id. -/
theorem sources_nodup : ((JsMap.values (sourceMap rt observation window calls)).filterMap (·.noteId)).Nodup := by
  have hkeys : (JsMap.values (sourceMap rt observation window calls)).Pairwise fun a b => a.key ≠ b.key := by
    have hnodup := @sourceMap_nodup rt observation window calls
    rw [List.nodup_iff_pairwise_ne, List.pairwise_map] at hnodup
    rw [JsMap.values, List.pairwise_map]
    refine hnodup.imp_of_mem fun {a b} ha hb hne => ?_
    rw [key_of_get? ((JsMap.get?_eq_some_iff sourceMap_nodup).2 ha),
      key_of_get? ((JsMap.get?_eq_some_iff sourceMap_nodup).2 hb)]
    exact hne
  rw [List.Nodup, List.pairwise_filterMap]
  refine hkeys.imp fun {a b} hne id ha id' hb => ?_
  rintro rfl
  refine hne ?_
  rw [CallSource.key, CallSource.key, ha, hb, Option.getD_some, Option.getD_some]

theorem sources_identity (h : source ∈ JsMap.values (sourceMap rt observation window calls)) :
    source.sourceIdentityHash = crmControlCallSourceIdentity rt source := by
  obtain ⟨first, rest, -, hmerged⟩ := sourceMap_get? (mem_sources h)
  exact hmerged.identity CallNote.sourceOf_identity

/-! ## The copies of one id -/

/-- The note has a bound source. -/
def BoundIn (sources : List CallSource) (id : JsString) : Prop :=
  ∃ source ∈ sources, source.noteId = some id ∧ source.status = .bound

/-- All copies of the note are valid and directly bound and have one content. -/
def AllBound (rt : Runtime) (observation : CallObservation) (window : Window) (calls : List CallNote)
    (id : JsString) : Prop :=
  ∀ call ∈ calls, call.id = some id → call.Bound observation window ∧
    ∀ other ∈ calls, other.id = some id → other.sourceHash rt = call.sourceHash rt

/-- Copies of a note that all have one content are all bound or none is. -/
def WrappersAgree (observation : CallObservation) (window : Window) (calls : List CallNote) : Prop :=
  ∀ a ∈ calls, ∀ b ∈ calls, b.id = a.id →
    (∀ call ∈ calls, call.id = a.id → canonical call.raw = canonical a.raw) →
    a.Bound observation window → b.Bound observation window

/-- The digest tells the contents of the calls apart. -/
def CollisionFree (rt : Runtime) (calls : List CallNote) : Prop :=
  ∀ a ∈ calls, ∀ b ∈ calls, a.sourceHash rt = b.sourceHash rt → canonical a.raw = canonical b.raw

/-- The first copy decides, and a copy of another content. -/
theorem boundIn_iff_first :
    BoundIn (JsMap.values (sourceMap rt observation window calls)) id ↔
      ∃ first rest, (calls.filter fun call => call.id = some id) = first :: rest ∧ first.Bound observation window ∧
        ∀ call ∈ rest, call.sourceHash rt = first.sourceHash rt := by
  constructor
  · rintro ⟨source, hsource, hid, hstatus⟩
    obtain ⟨first, rest, hcopies, hmerged⟩ := sources_copies hsource hid
    obtain ⟨hfirst, hrest⟩ := hmerged.status.1 hstatus
    exact ⟨first, rest, hcopies, CallNote.sourceOf_status.1 hfirst, List.forall_mem_map.1 hrest⟩
  · rintro ⟨first, rest, hcopies, hfirst, hrest⟩
    obtain ⟨hcall, hid⟩ := List.mem_filter.1 (hcopies ▸ List.mem_cons_self : first ∈ calls.filter _)
    obtain ⟨source, hsource, hnote⟩ :=
      @sources_of_copies rt observation window calls id first hcall (of_decide_eq_true hid)
    obtain ⟨first', rest', hcopies', hmerged⟩ := sources_copies hsource hnote
    obtain ⟨rfl, rfl⟩ := List.cons.inj (hcopies.symm.trans hcopies')
    exact ⟨source, hsource, hnote,
      hmerged.status.2 ⟨CallNote.sourceOf_status.2 hfirst, List.forall_mem_map.2 hrest⟩⟩

theorem boundIn_iff (hfree : CollisionFree rt calls) (hagree : WrappersAgree observation window calls) :
    BoundIn (JsMap.values (sourceMap rt observation window calls)) id ↔
      (∃ call ∈ calls, call.id = some id) ∧ AllBound rt observation window calls id := by
  rw [boundIn_iff_first]
  have hmem (call : CallNote) :
      call ∈ calls.filter (fun call => call.id = some id) ↔ call ∈ calls ∧ call.id = some id := by
    rw [List.mem_filter, decide_eq_true_eq]
  constructor
  · rintro ⟨first, rest, hcopies, hfirst, hrest⟩
    have hsame : ∀ call ∈ calls, call.id = some id → call.sourceHash rt = first.sourceHash rt := by
      intro call hcall hid
      rcases List.mem_cons.1 (hcopies ▸ (hmem call).2 ⟨hcall, hid⟩) with rfl | hcopy
      · rfl
      · exact hrest call hcopy
    obtain ⟨hcall, hid⟩ := (hmem first).1 (hcopies ▸ List.mem_cons_self)
    refine ⟨⟨first, hcall, hid⟩, fun call hother hcopy => ⟨?_, fun other hother' hcopy' => ?_⟩⟩
    · refine hagree first hcall call hother (hcopy.trans hid.symm) (fun copy hcopy hsameId => ?_) hfirst
      exact hfree copy hcopy first hcall (hsame copy hcopy (hsameId.trans hid))
    · exact (hsame other hother' hcopy').trans (hsame call hother hcopy).symm
  · rintro ⟨⟨call, hcall, hid⟩, hall⟩
    cases hcopies : calls.filter fun call => call.id = some id with
    | nil => exact absurd ((hmem call).2 ⟨hcall, hid⟩) (hcopies ▸ List.not_mem_nil)
    | cons first rest =>
      obtain ⟨hfirst, hfirstId⟩ := (hmem first).1 (hcopies ▸ List.mem_cons_self)
      refine ⟨first, rest, rfl, (hall first hfirst hfirstId).1, fun copy hcopy => ?_⟩
      obtain ⟨hother, hotherId⟩ := (hmem copy).1 (hcopies ▸ List.mem_cons_of_mem _ hcopy)
      exact (hall first hfirst hfirstId).2 copy hother hotherId

end Sources

/-! ## The observation -/

section Observation

variable {rt : Runtime} {observation : CallObservation} {window : Window}

theorem normalize_verified (h : observation.window rt = some (some window))
    (hread : ∀ call ∈ observation.calls, call.identityConflict ≠ none) :
    normalizeCrmControlCallSources rt observation =
      some ⟨JsMap.values (sourceMap rt observation window observation.calls), []⟩ := by
  rw [normalizeCrmControlCallSources, h]
  change Option.bind (observation.notes.foldlM (addNote rt observation window) []) _ = _
  rw [foldlM_addNote hread]
  rfl

/-- No value without a text is read as a text. -/
structure Readable (rt : Runtime) (observation : CallObservation) : Prop where
  dates : observation.window rt ≠ none
  ids : ∀ window, observation.window rt = some (some window) →
    ∀ call ∈ observation.calls, call.identityConflict ≠ none

theorem readable_iff : (∃ output, normalizeCrmControlCallSources rt observation = some output) ↔
    Readable rt observation := by
  constructor
  · rintro ⟨output, houtput⟩
    rw [normalizeCrmControlCallSources] at houtput
    obtain ⟨verified, hwindow, hrest⟩ := Option.bind_eq_some_iff.1 houtput
    refine ⟨fun hnone => ?_, fun window hsome => ?_⟩
    · rw [hnone] at hwindow
      exact nomatch hwindow
    · obtain rfl : verified = some window := Option.some.inj (hwindow.symm.trans hsome)
      obtain ⟨byId, hfold, -⟩ := Option.bind_eq_some_iff.1 hrest
      exact readable_of_foldlM hfold
  · intro h
    obtain ⟨verified, hwindow⟩ := Option.ne_none_iff_exists'.1 h.dates
    cases verified with
    | none => exact ⟨_, by rw [normalizeCrmControlCallSources, hwindow]; rfl⟩
    | some window => exact ⟨_, normalize_verified hwindow (h.ids window hwindow)⟩

/-- The observation with other notes in its snapshot. -/
def CallObservation.withNotes (observation : CallObservation) (notes : List AmoAnalytics.Json) : CallObservation :=
  match observation.snapshot with
  | .obj fields =>
    { observation with
      snapshot := .obj (fields.map fun field => (field.1, if field.1 = js "notes" then .arr notes else field.2)) }
  | _ => observation

theorem snapshot_of_notes {items : List AmoAnalytics.Json} (h : observation.notes? = some items) :
    ∃ fields, observation.snapshot = .obj fields ∧ JsMap.get? (js "notes") fields = some (.arr items) := by
  unfold CallObservation.notes? at h
  split at h
  · rename_i found hfound
    obtain rfl := Option.some.inj h
    cases hsnapshot : observation.snapshot with
    | obj fields => exact ⟨fields, rfl, by rwa [hsnapshot] at hfound⟩
    | _ => rw [hsnapshot] at hfound; cases hfound
  · cases h

theorem get_withNotes {notes items : List AmoAnalytics.Json} (hitems : observation.notes? = some items)
    (key : String) :
    (observation.withNotes notes).snapshot.get key =
      if js key = js "notes" then some (.arr notes) else observation.snapshot.get key := by
  obtain ⟨fields, hsnapshot, hnotes⟩ := snapshot_of_notes hitems
  rw [CallObservation.withNotes, hsnapshot]
  change JsMap.get? (js key) (fields.map fun field =>
    (field.1, if field.1 = js "notes" then AmoAnalytics.Json.arr notes else field.2)) = _
  rw [JsMap.get?_mapEntries fun name value => if name = js "notes" then AmoAnalytics.Json.arr notes else value]
  split_ifs with hkey
  · rw [hkey, hnotes, Option.map_some]
  · exact Option.map_id'

/-- The check of the snapshot and what a source takes over do not read the notes. -/
theorem window_withNotes {notes items : List AmoAnalytics.Json} (hitems : observation.notes? = some items) :
    (observation.withNotes notes).notes? = some notes ∧
      (observation.withNotes notes).window rt = observation.window rt ∧
      ∀ window calls,
        sourceMap rt (observation.withNotes notes) window calls = sourceMap rt observation window calls := by
  have hget {key : String} (hkey : js key ≠ js "notes") :
      (observation.withNotes notes).snapshot.get key = observation.snapshot.get key := by
    rw [get_withNotes hitems, if_neg hkey]
  have hnotes : (observation.withNotes notes).notes? = some notes := by
    rw [CallObservation.notes?, get_withNotes hitems, if_pos rfl]
  have hrest : ∃ snapshot, observation.withNotes notes = { observation with snapshot } := by
    obtain ⟨fields, hsnapshot, -⟩ := snapshot_of_notes hitems
    exact ⟨_, by rw [CallObservation.withNotes, hsnapshot]⟩
  obtain ⟨snapshot, hsnapshot⟩ := hrest
  rw [hsnapshot] at hget hnotes ⊢
  have hdeal : CallObservation.deal { observation with snapshot } = observation.deal := by
    unfold CallObservation.deal
    rw [@hget "deal" (by decide)]
  have hcomplete : CallObservation.dealComplete { observation with snapshot } = observation.dealComplete := by
    unfold CallObservation.dealComplete
    rw [@hget "sourceCompleteness" (by decide)]
  have hown : CallObservation.isOwn { observation with snapshot } = observation.isOwn := by
    unfold CallObservation.isOwn
    rw [hdeal]
  refine ⟨hnotes, ?_, fun _ _ => rfl⟩
  unfold CallObservation.window
  rw [hown, hcomplete, hnotes, hitems, hdeal, @hget "observedAt" (by decide)]
  rfl

theorem normalize_unverified (h : observation.window rt = some none) :
    normalizeCrmControlCallSources rt observation = some ⟨[], ["CALL_SNAPSHOT_UNVERIFIED"]⟩ := by
  rw [normalizeCrmControlCallSources, h]
  rfl

theorem notes_isSome_of_window (h : observation.window rt = some (some window)) :
    observation.notes? = some observation.notes := by
  have hsome : observation.notes?.isSome = true := by
    by_contra hnone
    unfold CallObservation.window at h
    rw [Bool.not_eq_true, Option.isSome_eq_false_iff] at hnone
    simp only [hnone, Bool.or_true, if_true] at h
    split_ifs at h with hown
    · exact nomatch Option.some.inj h
    · obtain ⟨observed, -, h⟩ := Option.bind_eq_some_iff.1 h
      exact nomatch Option.some.inj h
  obtain ⟨items, hitems⟩ := Option.isSome_iff_exists.1 hsome
  rw [CallObservation.notes, hitems, Option.getD_some]

/-- Reordered notes have the same copies. -/
theorem normalize_withNotes {notes : List AmoAnalytics.Json} (h : observation.window rt = some (some window))
    (hread : ∀ call ∈ observation.calls, call.identityConflict ≠ none) (hperm : notes.Perm observation.notes) :
    normalizeCrmControlCallSources rt (observation.withNotes notes) =
        some ⟨JsMap.values (sourceMap rt observation window (notes.filterMap callNote?)), []⟩ := by
  obtain ⟨hnotes, hwindow, hsources⟩ := @window_withNotes rt observation notes _ (notes_isSome_of_window h)
  have hcalls : (observation.withNotes notes).calls = notes.filterMap callNote? := by
    rw [CallObservation.calls, CallObservation.notes, hnotes, Option.getD_some]
  rw [normalize_verified (hwindow.trans h), hsources, hcalls]
  intro call hcall
  rw [hcalls] at hcall
  exact hread call ((hperm.filterMap callNote?).mem_iff.1 hcall)

end Observation

/-! ## What the sources say -/

/-- One source a note id, bound whatever the order of the notes, only from valid copies of one content, and under the
identity of its own fields. -/
structure Faithful (rt : Runtime) (observation : CallObservation) (output : CallSources) : Prop where
  distinct : (output.sources.filterMap (·.noteId)).Nodup
  covers : ∀ window, observation.window rt = some (some window) → ∀ id,
    (∃ call ∈ observation.calls, call.id = some id) ↔ ∃ source ∈ output.sources, source.noteId = some id
  ordered : ∀ items notes, observation.notes? = some items → notes.Perm items →
    ∃ other, normalizeCrmControlCallSources rt (observation.withNotes notes) = some other ∧
      ∀ id, BoundIn other.sources id ↔ BoundIn output.sources id
  bound : ∀ source ∈ output.sources, source.status = .bound → ∃ window, observation.window rt = some (some window) ∧
    ∀ call ∈ observation.calls, call.id = source.noteId → call.Bound observation window ∧
      ∀ other ∈ observation.calls, other.id = source.noteId → canonical other.raw = canonical call.raw
  identity : ∀ source ∈ output.sources, source.sourceIdentityHash = crmControlCallSourceIdentity rt source

section Faithful

variable {rt : Runtime} {observation : CallObservation} {window : Window}

theorem noteId_of_bound {calls : List CallNote} {source : CallSource}
    (h : source ∈ JsMap.values (sourceMap rt observation window calls)) (hstatus : source.status = .bound) :
    ∃ id, source.noteId = some id := by
  obtain ⟨first, rest, -, hmerged⟩ := sourceMap_get? (mem_sources h)
  obtain ⟨id, hid⟩ := (CallNote.sourceOf_status.1 (hmerged.status.1 hstatus).1).id_isSome
  exact ⟨id, hmerged.noteId.trans hid⟩

theorem faithful_of_agree (h : observation.window rt = some (some window))
    (hread : ∀ call ∈ observation.calls, call.identityConflict ≠ none) (hfree : CollisionFree rt observation.calls)
    (hagree : WrappersAgree observation window observation.calls) :
    Faithful rt observation ⟨JsMap.values (sourceMap rt observation window observation.calls), []⟩ where
  distinct := sources_nodup
  covers := by
    intro _ _ id
    constructor
    · rintro ⟨call, hcall, hid⟩
      exact sources_of_copies hcall hid
    · rintro ⟨source, hsource, hid⟩
      obtain ⟨first, rest, hcopies, hmerged⟩ := sources_copies hsource hid
      exact ⟨first, (List.mem_filter.1 (hcopies ▸ List.mem_cons_self : first ∈ List.filter _ _)).1,
        hmerged.noteId.symm.trans hid⟩
  ordered := by
    intro items notes hitems hperm
    obtain rfl : observation.notes = items := Option.some.inj ((notes_isSome_of_window h).symm.trans hitems)
    refine ⟨_, normalize_withNotes h hread hperm, fun id => ?_⟩
    have hmem : ∀ call, call ∈ notes.filterMap callNote? ↔ call ∈ observation.calls :=
      fun call => (hperm.filterMap callNote?).mem_iff
    have hfree' : CollisionFree rt (notes.filterMap callNote?) := by
      simpa only [CollisionFree, hmem] using hfree
    have hagree' : WrappersAgree observation window (notes.filterMap callNote?) := by
      simpa only [WrappersAgree, hmem] using hagree
    rw [boundIn_iff hfree' hagree', boundIn_iff hfree hagree]
    simp only [AllBound, hmem]
  bound := by
    intro source hsource hstatus
    obtain ⟨id, hid⟩ := noteId_of_bound hsource hstatus
    obtain ⟨-, hall⟩ := (boundIn_iff hfree hagree).1 ⟨source, hsource, hid, hstatus⟩
    refine ⟨window, h, fun call hcall hcopy => ?_⟩
    obtain ⟨hbound, hsame⟩ := hall call hcall (hcopy.trans hid)
    exact ⟨hbound, fun other hother hcopy' => hfree other hother call hcall (hsame other hother (hcopy'.trans hid))⟩
  identity := fun _ => sources_identity

/-- Where the copies disagree, one that is bound can come first. -/
theorem agree_of_faithful {output : CallSources} (h : observation.window rt = some (some window))
    (hread : ∀ call ∈ observation.calls, call.identityConflict ≠ none)
    (hfaithful : Faithful rt observation output) : WrappersAgree observation window observation.calls := by
  intro a ha b hb hid hsame hbound
  obtain ⟨id, ha_id⟩ := hbound.id_isSome
  obtain ⟨note, hnote, hcall⟩ := List.mem_filterMap.1 ha
  obtain ⟨before, after, hsplit⟩ := List.append_of_mem hnote
  have hperm : (note :: (before ++ after)).Perm observation.notes := hsplit ▸ List.perm_middle.symm
  obtain ⟨other, hother, hordered⟩ := hfaithful.ordered _ _ (notes_isSome_of_window h) hperm
  obtain rfl := Option.some.inj ((normalize_withNotes h hread hperm).symm.trans hother)
  have hfirst : BoundIn (JsMap.values (sourceMap rt observation window
      ((note :: (before ++ after)).filterMap callNote?))) id := by
    rw [boundIn_iff_first, List.filterMap_cons_some hcall]
    refine ⟨a, _, List.filter_cons_of_pos (decide_eq_true ha_id), hbound, fun copy hcopy => ?_⟩
    obtain ⟨hmem, hcopyId⟩ := List.mem_filter.1 hcopy
    have hcopyMem : copy ∈ observation.calls := by
      refine (hperm.filterMap callNote?).mem_iff.1 ?_
      rw [List.filterMap_cons_some hcall]
      exact List.mem_cons_of_mem _ hmem
    exact congrArg rt.sha256 (hsame copy hcopyMem ((of_decide_eq_true hcopyId).trans ha_id.symm))
  obtain ⟨source, hsource, hsourceId, hstatus⟩ := (hordered id).1 hfirst
  obtain ⟨found, hfound, hcopies⟩ := hfaithful.bound source hsource hstatus
  obtain rfl := Option.some.inj (Option.some.inj (hfound.symm.trans h))
  exact (hcopies b hb (hid.trans (ha_id.trans hsourceId.symm))).1

theorem faithful_unverified (h : observation.window rt = some none) :
    Faithful rt observation ⟨[], ["CALL_SNAPSHOT_UNVERIFIED"]⟩ where
  distinct := List.nodup_nil
  covers := by
    intro window hwindow
    rw [h] at hwindow
    exact nomatch hwindow
  ordered := by
    intro items notes hitems _
    obtain ⟨-, hwindow, -⟩ := @window_withNotes rt observation notes _ hitems
    exact ⟨_, normalize_unverified (hwindow.trans h), fun _ => Iff.rfl⟩
  bound := fun _ hsource => absurd hsource List.not_mem_nil
  identity := fun _ hsource => absurd hsource List.not_mem_nil

end Faithful

/-- The sources are faithful exactly when the copies of one content agree on what stands around the content. -/
theorem call_sources_faithful (rt : Runtime) (observation : CallObservation)
    (hfree : CollisionFree rt observation.calls) :
    (∃ output, normalizeCrmControlCallSources rt observation = some output ∧ Faithful rt observation output) ↔
      Readable rt observation ∧ ∀ window, observation.window rt = some (some window) →
        WrappersAgree observation window observation.calls := by
  constructor
  · rintro ⟨output, houtput, hfaithful⟩
    have hreadable := readable_iff.1 ⟨output, houtput⟩
    exact ⟨hreadable, fun window hwindow => agree_of_faithful hwindow (hreadable.ids window hwindow) hfaithful⟩
  · rintro ⟨hreadable, hagree⟩
    obtain ⟨verified, hwindow⟩ := Option.ne_none_iff_exists'.1 hreadable.dates
    cases verified with
    | none => exact ⟨_, normalize_unverified hwindow, faithful_unverified hwindow⟩
    | some window =>
      have hread := hreadable.ids window hwindow
      exact ⟨_, normalize_verified hwindow hread, faithful_of_agree hwindow hread hfree (hagree window hwindow)⟩

/-! ## Two copies of one content -/

/-- A call of the deal. -/
def sampleRaw : AmoAnalytics.Json :=
  .obj [
    (js "created_at", .num ⟨false, 17900784, 2, .inl (by decide)⟩),
    (js "entity_id", .num ⟨false, 1, 2, .inl (by decide)⟩),
    (js "id", .num ⟨false, 7, 2, .inl (by decide)⟩),
    (js "note_type", .str (js "call_out")),
    (js "params", .obj [
      (js "duration", .num ⟨false, 12, 1, .inl (by decide)⟩),
      (js "link", .str (js "https://userapi.skytel.spb.ru/synthetic.mp3")),
      (js "uniq", .str (js "provider-call-1"))]),
    (js "updated_at", .num ⟨false, 17900784, 2, .inl (by decide)⟩)]

/-- A note around the call. -/
def sampleNote (externalId : String) : AmoAnalytics.Json :=
  .obj [(js "externalId", .str (js externalId)), (js "type", .str (js "call_out")), (js "raw", sampleRaw)]

def sampleObservation (notes : List AmoAnalytics.Json) : CallObservation where
  id := js "observation-1"
  dealId := js "amo:100"
  dealExternalId := js "100"
  managerId := some (js "manager-1")
  observedAt := some 1790093100000
  snapshotHash := List.replicate 64 97
  snapshot := .obj [
    (js "observedAt", .str (js "2026-09-22T16:05:00Z")),
    (js "sourceCompleteness", .obj [(js "deal", .bool true), (js "notes", .bool true)]),
    (js "deal", .obj [
      (js "id", .str (js "amo:100")),
      (js "externalId", .str (js "100")),
      (js "responsibleId", .str (js "manager-1")),
      (js "createdAt", .str (js "2026-09-01T10:00:00Z"))]),
    (js "notes", .arr notes)]

def sampleRuntime : Runtime where
  sha256 text :=
    if text = canonical sampleRaw then js "90c47c2a6a103e1bfd1cd1f14f4cb0839c2263b92933a61c054948f10225bad1"
    else if text = js "https://userapi.skytel.spb.ru/synthetic.mp3" then
      js "d5c827be3a8ba338b48b50dafb225b8af8d2b5e0a8371fdc70dddbbd76734f27"
    else js "e9562e7faf1c3f06a6579cf7439cf885ae81e736bde168ae87e6d86234ef418b"
  dateParse s := (IsoInstant.parse s).map (·.ms)
  parseUrl _ := some ⟨js "https:", [], [], [], []⟩

def sampleWindow : Window := ⟨1788256800000, 1790093100000⟩

def sampleCall (externalId : String) : CallNote := ⟨sampleNote externalId, sampleRaw⟩

theorem sample_window (notes : List AmoAnalytics.Json) :
    (sampleObservation notes).window sampleRuntime = some (some sampleWindow) := by
  have hempty : (sampleObservation []).window sampleRuntime = some (some sampleWindow) := by decide +kernel
  exact (@window_withNotes sampleRuntime (sampleObservation []) notes _ rfl).2.1.trans hempty

theorem sample_calls (a b : String) :
    (sampleObservation [sampleNote a, sampleNote b]).calls = [sampleCall a, sampleCall b] := rfl

theorem sample_id (externalId : String) : (sampleCall externalId).id = some (js "700") := by
  have hid : numericId (sampleRaw.get "id") = some (js "700") := by decide
  exact hid

theorem sample_sourceHash (rt : Runtime) (a b : String) :
    (sampleCall a).sourceHash rt = (sampleCall b).sourceHash rt := rfl

theorem sample_bound : (sampleCall "700").Bound (sampleObservation []) sampleWindow :=
  ⟨by decide, by decide +kernel, by decide +kernel, by decide +kernel⟩

theorem sample_conflict : (sampleCall "701").identityConflict = some true := by decide

/-- A copy whose note names another id counts only when it comes first. -/
theorem call_sources_ordered_fails :
    ∃ first second,
      normalizeCrmControlCallSources sampleRuntime
        (sampleObservation [sampleNote "700", sampleNote "701"]) = some first ∧
      normalizeCrmControlCallSources sampleRuntime
        (sampleObservation [sampleNote "701", sampleNote "700"]) = some second ∧
      BoundIn first.sources (js "700") ∧ ¬ BoundIn second.sources (js "700") := by
  have hread (a b : String) (ha : (sampleCall a).identityConflict ≠ none)
      (hb : (sampleCall b).identityConflict ≠ none) :
      ∀ call ∈ (sampleObservation [sampleNote a, sampleNote b]).calls, call.identityConflict ≠ none := by
    rw [sample_calls]
    exact List.forall_mem_cons.2 ⟨ha, List.forall_mem_singleton.2 hb⟩
  have hcopies (a b : String) : [sampleCall a, sampleCall b].filter (fun call => call.id = some (js "700")) =
      [sampleCall a, sampleCall b] := by
    refine List.filter_eq_self.2 fun call hcall => decide_eq_true ?_
    rcases List.mem_cons.1 hcall with rfl | hcall
    · exact sample_id a
    · rw [List.mem_singleton.1 hcall]
      exact sample_id b
  refine ⟨_, _, normalize_verified (sample_window _) (hread _ _ (by decide) (by decide)),
    normalize_verified (sample_window _) (hread _ _ (by decide) (by decide)), ?_, ?_⟩
  · rw [boundIn_iff_first, sample_calls, hcopies]
    exact ⟨_, _, rfl, ⟨sample_bound.wrapper, sample_bound.time, sample_bound.provider, sample_bound.direct⟩,
      List.forall_mem_singleton.2 (sample_sourceHash _ _ _)⟩
  · rw [boundIn_iff_first, sample_calls, hcopies]
    rintro ⟨first, rest, hlist, hfirst, -⟩
    obtain ⟨rfl, rfl⟩ := List.cons.inj hlist
    exact absurd (sample_conflict.symm.trans hfirst.wrapper) (by decide)

theorem call_sources_faithful_sample :
    ∃ output, normalizeCrmControlCallSources sampleRuntime
        (sampleObservation [sampleNote "700", sampleNote "700"]) = some output ∧
      Faithful sampleRuntime (sampleObservation [sampleNote "700", sampleNote "700"]) output := by
  have hall {P : CallNote → Prop} (h : P (sampleCall "700")) :
      ∀ call ∈ (sampleObservation [sampleNote "700", sampleNote "700"]).calls, P call := by
    rw [sample_calls]
    exact List.forall_mem_cons.2 ⟨h, List.forall_mem_singleton.2 h⟩
  refine (call_sources_faithful sampleRuntime _ (hall (hall fun _ => rfl))).2 ⟨⟨?_, fun _ _ => hall (by decide)⟩, ?_⟩
  · rw [sample_window]
    exact Option.some_ne_none _
  · intro window hwindow
    exact hall (hall fun _ _ hbound => hbound)

end AmoAnalytics.CrmControl.Call
