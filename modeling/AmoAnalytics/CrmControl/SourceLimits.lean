import AmoAnalytics.CrmControl.ArchivedSources
import AmoAnalytics.CrmControl.SemanticFindings

/-!
# The limits of archived sources

The producers limit the chats, threads and messages that they read, and the preflight limits what a request may hold.
An archived source is well made: it has the deal, the owner and the digest that the preflight asks for, and an id of
its own. So what is left to decide is whether the sources are few and short enough.
-/

namespace AmoAnalytics.CrmControl.Chat

open JsText

/-! ## Identifiers -/

theorem isIdUnit_not_space {c : UInt16} (h : isIdUnit c = true) : isSpace c = false := by
  simp only [isIdUnit, isDigit, between, Bool.or_eq_true, Bool.and_eq_true, decide_eq_true_eq, oneOf,
    show js "_-" = [95, 45] from by decide, List.contains_cons, List.contains_nil, beq_iff_eq, Bool.or_false] at h
  simp only [isSpace, between, oneOf, show js "\u0020\u00a0\u1680\u2028\u2029\u202f\u205f\u3000\ufeff" =
    [0x20, 0xa0, 0x1680, 0x2028, 0x2029, 0x202f, 0x205f, 0x3000, 0xfeff] from by decide, List.contains_cons,
    List.contains_nil, Bool.or_false, Bool.or_eq_false_iff, Bool.and_eq_false_iff, decide_eq_false_iff_not,
    beq_eq_false_iff_ne, ne_eq]
  simp only [← UInt16.toNat_inj] at h ⊢
  simp at h ⊢
  omega

/-- A text of 1 to 100 characters that is not blank. -/
structure ShortName (s : JsString) : Prop where
  visible : blank s = false
  short : s.length ≤ 100

theorem shortName_of_isId {s : JsString} (h : isId s = true) : ShortName s := by
  refine ⟨?_, isId_length h⟩
  simp only [isId, Bool.and_eq_true, decide_eq_true_eq, List.all_eq_true] at h
  obtain ⟨⟨hlength, -⟩, hunits⟩ := h
  cases s with
  | nil => exact absurd hlength (by decide)
  | cons c rest => simp [blank, isIdUnit_not_space (hunits c List.mem_cons_self)]

theorem shortName_of_isNumericId {s : JsString} (h : isNumericId s = true) : ShortName s := by
  refine ⟨?_, (isNumericId_length h).trans (by decide)⟩
  cases s with
  | nil => exact absurd h Bool.false_ne_true
  | cons c rest =>
    simp only [isNumericId, Bool.and_eq_true] at h
    have hunit : isIdUnit c = true := by
      have hdigit : isDigit c = true := by
        have hc := h.1.1
        simp only [isDigit, between, Bool.and_eq_true, decide_eq_true_eq] at hc ⊢
        exact ⟨(by decide : '0'.toNat ≤ '1'.toNat).trans hc.1, hc.2⟩
      simp [isIdUnit, hdigit]
    simp [blank, isIdUnit_not_space hunit]

/-- An external author is the native contact of the chat. -/
theorem external_author {rt : Runtime} {input : MessageInput} {proof : BindingProof}
    (h : (readMessage rt input proof).actorKind = .external) :
    ∃ authorId, (readMessage rt input proof).authorId = some authorId ∧ ShortName authorId := by
  have hauthor : (partiesOf input proof).authorExternal = true := by
    by_contra hnot
    have hkind : (partiesOf input proof).actorKind = .external := h
    unfold Parties.actorKind at hkind
    rw [if_neg hnot] at hkind
    split_ifs at hkind
  simp only [Parties.authorExternal, Bool.and_eq_true, decide_eq_true_eq] at hauthor
  obtain ⟨authorId, hid⟩ := Option.isSome_iff_exists.1 hauthor.1
  refine ⟨authorId, hid, shortName_of_isId ?_⟩
  have hexternal : externalId proof input.externalContact = some authorId := hauthor.2.trans hid
  obtain ⟨contact, hcontact, rfl⟩ := Option.map_eq_some_iff.1 hexternal
  have hvalid := (Option.filter_eq_some_iff.1 hcontact).2
  simp only [Bool.and_eq_true] at hvalid
  exact hvalid.2

/-- The user of an author is a user of the catalog. -/
theorem internal_author {rt : Runtime} {input : MessageInput} {proof : BindingProof} {userId : JsString}
    (h : (readMessage rt input proof).authorUserId = some userId) : ShortName userId := by
  have huser : (if (partiesOf input proof).actorKind = .internal then (partiesOf input proof).authorUserId
      else none) = some userId := h
  split_ifs at huser
  obtain ⟨authorId, -, hget⟩ := Option.bind_eq_some_iff.1 huser
  exact shortName_of_isNumericId (readCatalog_users hget)

end AmoAnalytics.CrmControl.Chat

namespace AmoAnalytics.CrmControl.Semantic

open JsText

/-! ## Reading sources -/

/-- The loop over the sources meets no problem, after the sources with the ids `seen`. -/
def SourcesRead (rt : Runtime) (request : Request) : List JsString → ℕ → List Source → Prop
  | _, _, [] => True
  | seen, characters, source :: sources =>
    sourceProblem rt request seen source = none ∧ characters + source.text.length ≤ 128_000 ∧
      SourcesRead rt request (source.id :: seen) (characters + source.text.length) sources

section Reading

variable {rt : Runtime} {request : Request}

theorem sourcesRead_iff {sources : List Source} :
    ∀ (issues : List Issue) {seen : List JsString} {characters : ℕ},
      SourcesRead rt request seen characters sources ↔
        ∃ issues', readSources rt request issues seen characters sources = .ok issues' := by
  induction sources with
  | nil => exact fun _ => ⟨fun _ => ⟨_, rfl⟩, fun _ => trivial⟩
  | cons source sources ih =>
    intro issues seen characters
    rw [SourcesRead, readSources]
    cases hproblem : sourceProblem rt request seen source with
    | some issue => simp
    | none =>
      dsimp only
      by_cases hlimit : 128_000 < characters + source.text.length
      · simp only [hlimit, if_true, invalid]
        constructor
        · rintro ⟨-, hle, -⟩
          omega
        · rintro ⟨issues', h⟩
          cases h
      · rw [if_neg hlimit, ← ih (issues ++ sourceDoubts rt source)]
        simp only [true_and, and_iff_right_iff_imp]
        exact fun _ => Nat.not_lt.1 hlimit

theorem sourcesRead_append {before after : List Source} :
    ∀ {seen : List JsString} {characters : ℕ},
      SourcesRead rt request seen characters (before ++ after) ↔
        SourcesRead rt request seen characters before ∧
          SourcesRead rt request ((before.map (·.id)).reverse ++ seen)
            (characters + (before.map (·.text.length)).sum) after := by
  induction before with
  | nil => simp [SourcesRead]
  | cons source before ih =>
    intro seen characters
    rw [List.cons_append, SourcesRead, SourcesRead, ih, and_assoc, and_assoc]
    simp only [List.map_cons, List.reverse_cons, List.append_assoc, List.singleton_append, List.sum_cons,
      Nat.add_assoc]

theorem SourcesRead.total {sources : List Source} :
    ∀ {seen : List JsString} {characters : ℕ}, characters ≤ 128_000 → SourcesRead rt request seen characters sources →
      characters + (sources.map (·.text.length)).sum ≤ 128_000 := by
  induction sources with
  | nil => exact fun h _ => h
  | cons source sources ih =>
    intro seen characters _ h
    have hrest := ih h.2.1 h.2.2
    rw [List.map_cons, List.sum_cons]
    omega

end Reading

/-! ## Well made sources -/

/-- A source has what the preflight asks of one for the deal, apart from the limits. -/
structure WellMade (rt : Runtime) (request : Request) (source : Source) : Prop where
  named : blank source.id = false
  actor : ∀ actorId ∈ source.actorId, blank actorId = false
  deal : source.dealId = request.dealId
  owner : source.ownerId = request.ownerId
  subject : source.subjectId = none
  kind : source.kind ≠ .task
  hash : source.sourceHash = rt.textHash source.text

/-- The limits of one source. -/
structure Fits (source : Source) : Prop where
  id : source.id.length ≤ 256
  actor : ∀ actorId ∈ source.actorId, actorId.length ≤ 256
  text : source.text.length ≤ 16_000

section WellMade

variable {rt : Runtime} {request : Request}

theorem sourceProblem_iff {seen : List JsString} {source : Source} (h : WellMade rt request source)
    (hseen : source.id ∉ seen) : sourceProblem rt request seen source = none ↔ Fits source := by
  have hrest : sourceProblem rt request seen source =
      if !id source.id || 16_000 < source.text.length || source.actorId.any (!id ·) then
        some ⟨"INVALID_SOURCE", none, none⟩ else none := by
    simp [sourceProblem, hseen, h.deal, h.owner, h.subject, h.kind, h.hash]
  have hid : id source.id = true ↔ source.id.length ≤ 256 := by simp [id, h.named]
  have hactor : source.actorId.any (!id ·) = false ↔ ∀ actorId ∈ source.actorId, actorId.length ≤ 256 := by
    cases hsome : source.actorId with
    | none => simp
    | some actorId => simp [id, h.actor actorId (Option.mem_def.2 hsome)]
  rw [hrest, ite_eq_right_iff]
  simp only [reduceCtorEq, imp_false, Bool.or_eq_true, not_or, Bool.not_eq_true', Bool.not_eq_false,
    decide_eq_true_eq, Nat.not_lt, hid, Bool.not_eq_true, hactor]
  exact ⟨fun ⟨⟨hid, htext⟩, hactor⟩ => ⟨hid, hactor, htext⟩, fun h => ⟨⟨h.id, h.text⟩, h.actor⟩⟩

/-- Well made sources with ids of their own are read when they fit. -/
theorem sourcesRead_wellMade {sources : List Source} (hmade : ∀ source ∈ sources, WellMade rt request source)
    (hnodup : (sources.map (·.id)).Nodup) :
    ∀ {seen : List JsString} {characters : ℕ}, (∀ source ∈ sources, source.id ∉ seen) → characters ≤ 128_000 →
      (SourcesRead rt request seen characters sources ↔
        (∀ source ∈ sources, Fits source) ∧ characters + (sources.map (·.text.length)).sum ≤ 128_000) := by
  induction sources with
  | nil => exact fun _ h => ⟨fun _ => ⟨fun _ h => absurd h List.not_mem_nil, h⟩, fun _ => trivial⟩
  | cons source sources ih =>
    intro seen characters hseen hcharacters
    rw [List.map_cons, List.nodup_cons] at hnodup
    have hproblem := sourceProblem_iff (hmade source List.mem_cons_self) (hseen source List.mem_cons_self)
    have hfresh : ∀ later ∈ sources, later.id ∉ source.id :: seen := by
      intro later hlater hmem
      rcases List.mem_cons.1 hmem with hsame | hmem
      · exact hnodup.1 (hsame ▸ List.mem_map_of_mem hlater)
      · exact hseen later (List.mem_cons_of_mem _ hlater) hmem
    have hrest (hlimit : characters + source.text.length ≤ 128_000) :=
      ih (fun later h => hmade later (List.mem_cons_of_mem _ h)) hnodup.2 hfresh hlimit
    rw [SourcesRead, hproblem, List.forall_mem_cons, List.map_cons, List.sum_cons, ← Nat.add_assoc]
    constructor
    · rintro ⟨hfits, hlimit, hread⟩
      obtain ⟨hall, htotal⟩ := (hrest hlimit).1 hread
      exact ⟨⟨hfits, hall⟩, htotal⟩
    · rintro ⟨⟨hfits, hall⟩, htotal⟩
      have hlimit : characters + source.text.length ≤ 128_000 := by omega
      exact ⟨hfits, hlimit, (hrest hlimit).2 ⟨hall, htotal⟩⟩

theorem sourcesRead_sources {others sources : List Source} :
    ∀ {seen : List JsString} {characters : ℕ},
      SourcesRead rt { request with sources := others } seen characters sources ↔
        SourcesRead rt request seen characters sources := by
  induction sources with
  | nil => exact Iff.rfl
  | cons source sources ih =>
    intro seen characters
    rw [SourcesRead, SourcesRead, ih]
    rfl

end WellMade

/-! ## The preflight -/

section Preflight

variable {rt : Runtime} {request : Request}

/-- The request is read when it is read without its sources, and they are few and meet no problem. -/
theorem preflight_iff : (∃ pre, preflight rt request = .ok pre) ↔
    (∃ pre, preflight rt { request with sources := [] } = .ok pre) ∧ request.sources.length ≤ 128 ∧
      SourcesRead rt request [] 0 request.sources := by
  unfold preflight
  cases hobserved : instant request.observedAt with
  | none => simp [invalid]
  | some observedAt =>
    dsimp only
    by_cases hmany : 128 < request.sources.length
    · simp [hmany, invalid, Nat.not_le.2 hmany]
    · simp only [hmany, List.length_nil, Nat.not_lt_zero, or_false, Nat.not_lt.1 hmany, true_and]
      split_ifs
      · simp [invalid]
      · simp [invalid]
      · simp [invalid]
      · cases hformat : rt.dateTimeFormat request.timeZone with
        | none => simp [invalid]
        | some formatter =>
          dsimp only
          rcases hread : readSources rt request _ [] 0 request.sources with stop | issues
          · refine ⟨fun ⟨pre, h⟩ => ?_, fun ⟨_, h⟩ => ?_⟩
            · cases h
            · obtain ⟨issues, hok⟩ := (sourcesRead_iff _).1 h
              exact absurd (hread.symm.trans hok) (by simp)
          · exact ⟨fun _ => ⟨⟨_, rfl⟩, (sourcesRead_iff _).2 ⟨issues, hread⟩⟩, fun _ => ⟨_, rfl⟩⟩

theorem readFact_uncertain {seen : List Fact} {fact : Fact} (hfact : fact ∈ requiredFacts request.check)
    (hseen : fact ∉ seen) : readFact request seen (uncertainFinding fact) = some fact := by
  have hfind : ((requiredFacts request.check).find? fun other => js other.code = js fact.code) = some fact := by
    revert hfact
    cases request.check <;> cases fact <;> decide
  have hform : (!(uncertainFinding fact).isObject ||
      !(uncertainFinding fact).onlyKeys ["fact", "state", "evidence", "date"]) = false := rfl
  have hname : ((uncertainFinding fact).get "fact").str? = some (js fact.code) := rfl
  unfold readFact
  rw [hform, if_neg Bool.false_ne_true, hname, Option.bind_some, hfind]
  simp [hseen]

theorem readFinding_uncertain (rt : Runtime) (pre : Preflight) (issues : List Issue) {seen : List Fact} {fact : Fact}
    (hfact : fact ∈ requiredFacts request.check) (hseen : fact ∉ seen) :
    ∃ issues' finding, readFinding rt request pre seen issues (uncertainFinding fact) = .ok (issues', finding) ∧
      finding.fact = fact := by
  have hstate : readState (uncertainFinding fact) = some (some []) := rfl
  have hdate : dateForm fact (uncertainFinding fact) = some true := rfl
  have hpresent : ((uncertainFinding fact).get "state").isText (js "present") = false := rfl
  have hnodate (issues : List Issue) :
      readDate rt pre fact (uncertainFinding fact) [] issues = .ok (issues, none) := by
    rw [readDate, hpresent]
    rfl
  let state := (uncertainFinding fact).get "state"
  refine ⟨issues ++ stateDoubts request pre fact state [], ⟨fact, state, [], none⟩, ?_, rfl⟩
  unfold readFinding
  rw [readFact_uncertain hfact hseen]
  dsimp only
  rw [hstate, hdate]
  dsimp only
  rw [readEvidence]
  exact congrArg (fun date => date >>= fun p => Except.ok (p.1, (⟨fact, state, [], p.2⟩ : Finding))) (hnodate _)

/-- A response that leaves the facts uncertain has the findings that are required. -/
theorem readFindings_uncertain (rt : Runtime) (pre : Preflight) {facts : List Fact} :
    ∀ (issues : List Issue) (findings : List Finding), (∀ fact ∈ facts, fact ∈ requiredFacts request.check) →
      facts.Nodup → (∀ fact ∈ facts, fact ∉ findings.map (·.fact)) →
        ∃ result, readFindings rt request pre issues findings (facts.map uncertainFinding) = .ok result := by
  induction facts with
  | nil => exact fun _ _ _ _ _ => ⟨_, rfl⟩
  | cons fact facts ih =>
    intro issues findings hfacts hnodup hfresh
    obtain ⟨issues', finding, hfinding, hsame⟩ := readFinding_uncertain rt pre issues
      (hfacts fact List.mem_cons_self) (hfresh fact List.mem_cons_self)
    rw [List.nodup_cons] at hnodup
    rw [List.map_cons, readFindings, hfinding]
    refine ih _ _ (fun other h => hfacts other (List.mem_cons_of_mem _ h)) hnodup.2 fun other hother => ?_
    rw [List.map_append, List.mem_append, not_or, List.map_singleton, List.mem_singleton, hsame]
    exact ⟨hfresh other (List.mem_cons_of_mem _ hother), fun h => hnodup.1 (h ▸ hother)⟩

theorem SourcesRead.ids {sources : List Source} :
    ∀ {seen : List JsString} {characters : ℕ}, SourcesRead rt request seen characters sources →
      ∀ source ∈ sources, id source.id = true := by
  induction sources with
  | nil => exact fun _ _ h => absurd h List.not_mem_nil
  | cons first sources ih =>
    intro seen characters h source hsource
    rcases List.mem_cons.1 hsource with rfl | hsource
    · have hproblem := h.1
      unfold sourceProblem at hproblem
      split_ifs at hproblem with hinvalid
      simp only [Bool.or_eq_true, not_or, Bool.not_eq_true', Bool.not_eq_false] at hinvalid
      exact hinvalid.1.1.1.1
    · exact ih h.2.2 source hsource

theorem idTexts_map {names : List JsString} (h : ∀ name ∈ names, id name = true) :
    idTexts (.arr (names.map .str)) = some names := by
  have hmap : (names.map JsValue.str).mapM (fun item => item.str?.filter id) = some names := by
    induction names with
    | nil => rfl
    | cons name names ih =>
      have hname : (JsValue.str name).str?.filter id = some name := by
        simp [JsValue.str?, h name List.mem_cons_self]
      rw [List.map_cons, List.mapM_cons, hname, ih fun other hother => h other (List.mem_cons_of_mem _ hother)]
      rfl
  exact hmap

/-- The response of the preflight answers the request. -/
theorem readFrame_preflight {pre : Preflight} (h : preflight rt request = .ok pre) (issues : List Issue) :
    readFrame request issues (preflightResponse request) =
      .ok ((requiredFacts request.check).map uncertainFinding, request.sources.map (·.id)) := by
  have hids : idTexts ((preflightResponse request).get "inspectedSourceIds") = some (request.sources.map (·.id)) := by
    have hvalue : (preflightResponse request).get "inspectedSourceIds" =
        .arr ((request.sources.map (·.id)).map .str) := by
      rw [List.map_map]
      rfl
    rw [hvalue]
    refine idTexts_map fun name hname => ?_
    obtain ⟨source, hsource, rfl⟩ := List.mem_map.1 hname
    exact (preflight_iff.1 ⟨pre, h⟩).2.2.ids source hsource
  have hfindings : ((preflightResponse request).get "findings").arr? =
      some ((requiredFacts request.check).map uncertainFinding) := rfl
  have hsubject : sameText ((preflightResponse request).get "subjectId") request.subjectId = true := by
    have hvalue : (preflightResponse request).get "subjectId" = (request.subjectId.map JsValue.str).getD .null := rfl
    rw [hvalue]
    cases request.subjectId with
    | none => rfl
    | some s => simp [sameText, JsValue.isText, JsValue.str?]
  have hrequest : ((preflightResponse request).get "requestId").isText request.requestId = true :=
    decide_eq_true rfl
  have hcheck : ((preflightResponse request).get "check").isText (js request.check.code) = true := decide_eq_true rfl
  have hversion : ((preflightResponse request).get "schemaVersion").isNum 1 = true := rfl
  have hobject : (preflightResponse request).isObject = true := rfl
  have hkeys : (preflightResponse request).onlyKeys
      ["schemaVersion", "requestId", "check", "subjectId", "inspectedSourceIds", "findings"] = true := rfl
  have hnodup : decide (request.sources.map (·.id)).Nodup = true := decide_eq_true (preflight_ids h).1
  have hall : (request.sources.any fun source => !(request.sources.map (·.id)).contains source.id) = false := by
    rw [List.any_eq_false]
    intro source hsource
    simpa using ⟨source, hsource, rfl⟩
  unfold readFrame
  rw [hfindings, hids]
  dsimp only
  rw [hobject, hkeys, hversion, hrequest, hcheck, hsubject, hnodup, hall]
  simp

theorem accepted_iff : accepted rt request = true ↔ ∃ pre, preflight rt request = .ok pre := by
  have hread : readResponse rt request (preflightResponse request) =
      (preflight rt request).bind fun pre =>
        (readFrame request pre.issues (preflightResponse request)).bind fun frame =>
          (readFindings rt request pre pre.issues [] frame.1).bind fun findings =>
            .ok (findings.1 ++ coverageDoubts request findings.2, findings.2) := rfl
  unfold accepted validateCrmControlSemanticResponse
  rw [hread]
  cases hpre : preflight rt request with
  | error stop => cases stop <;> simp [Except.bind]
  | ok pre =>
    have hnodup : (requiredFacts request.check).Nodup := by cases request.check <;> decide
    obtain ⟨result, hfindings⟩ :=
      readFindings_uncertain rt pre pre.issues [] (fun _ h => h) hnodup fun _ _ => List.not_mem_nil
    simp only [Except.bind, readFrame_preflight hpre, hfindings]
    have hstatus : (if result.1 ++ coverageDoubts request result.2 = [] then ValidationStatus.validated
        else .unknown) ≠ .invalid := by
      split_ifs <;> decide
    exact ⟨fun _ => ⟨pre, rfl⟩, fun _ => decide_eq_true hstatus⟩

end Preflight

/-! ## Collected sources -/

/-- The sources that a producer appends have ids of their own and come from its messages. -/
structure Collected (request : Request) (messages : List (Except Abort (Option Source))) (appended : List Source) :
    Prop where
  nodup : (appended.map (·.id)).Nodup
  fresh : ∀ source ∈ appended, source.id ∉ request.sources.map (·.id)
  mem : ∀ source ∈ appended, .ok (some source) ∈ messages

theorem collect_spec {messages : List (Except Abort (Option Source))} :
    ∀ {seen : List JsString} {appended : List Source}, collect seen messages = .ok appended →
      (appended.map (·.id)).Nodup ∧ (∀ source ∈ appended, source.id ∉ seen) ∧
        ∀ source ∈ appended, .ok (some source) ∈ messages := by
  induction messages with
  | nil =>
    intro seen appended h
    cases h
    exact ⟨List.nodup_nil, fun _ h => absurd h List.not_mem_nil, fun _ h => absurd h List.not_mem_nil⟩
  | cons message messages ih =>
    intro seen appended h
    match message with
    | .error abort => cases h
    | .ok none =>
      obtain ⟨hnodup, hfresh, hmem⟩ := ih h
      exact ⟨hnodup, hfresh, fun source hsource => List.mem_cons_of_mem _ (hmem source hsource)⟩
    | .ok (some first) =>
      rw [collect] at h
      split_ifs at h with hseen
      cases hrest : collect (first.id :: seen) messages with
      | error abort => rw [hrest] at h; cases h
      | ok rest =>
        rw [hrest] at h
        cases h
        obtain ⟨hnodup, hfresh, hmem⟩ := ih hrest
        refine ⟨?_, fun source hsource => ?_, fun source hsource => ?_⟩
        · rw [List.map_cons, List.nodup_cons]
          refine ⟨fun hfirst => ?_, hnodup⟩
          obtain ⟨source, hsource, hsame⟩ := List.mem_map.1 hfirst
          exact hfresh source hsource (hsame ▸ List.mem_cons_self)
        · rcases List.mem_cons.1 hsource with rfl | hsource
          · simpa using hseen
          · exact fun h => hfresh source hsource (List.mem_cons_of_mem _ h)
        · rcases List.mem_cons.1 hsource with rfl | hsource
          · exact List.mem_cons_self
          · exact List.mem_cons_of_mem _ (hmem source hsource)

theorem appendSources_spec {request after : Request} {messages : List (Except Abort (Option Source))}
    (h : appendSources request messages = some after) :
    ∃ appended, after = { request with sources := request.sources ++ appended } ∧
      Collected request messages appended := by
  unfold appendSources at h
  cases hcollect : collect (request.sources.map (·.id)) messages with
  | error abort =>
    rw [hcollect] at h
    cases abort with
    | thrown => cases h
    | unchanged =>
      cases h
      exact ⟨[], by rw [List.append_nil],
        ⟨List.nodup_nil, fun _ h => absurd h List.not_mem_nil, fun _ h => absurd h List.not_mem_nil⟩⟩
  | ok appended =>
    rw [hcollect] at h
    cases h
    obtain ⟨hnodup, hfresh, hmem⟩ := collect_spec hcollect
    exact ⟨appended, rfl, ⟨hnodup, hfresh, hmem⟩⟩

section Producers

variable {rt : ArchiveRuntime} {observation : Observation} {request : Request} {manifest : Manifest}
  {connection : Connection}

/-- The request is about the deal and the owner of the observation. -/
def Concerns (request : Request) (observation : Observation) : Prop :=
  request.dealId = observation.dealId ∧ some request.ownerId = observation.managerId

theorem of_not_skipped {condition : Prop} [Decidable condition] {α : Type} {result : Except Abort (Option α)} {a : α}
    (h : (if condition then .ok none else result) = .ok (some a)) : ¬condition ∧ result = .ok (some a) := by
  by_cases hc : condition
  · rw [if_pos hc] at h
    cases h
  · rw [if_neg hc] at h
    exact ⟨hc, h⟩

theorem chatScope_concerns {scope : ChatScope}
    (h : chatScope rt observation request manifest connection = .ok (some scope)) : Concerns request observation := by
  unfold chatScope at h
  dsimp only at h
  split at h
  · obtain ⟨-, h⟩ := of_not_skipped h
    split at h
    · cases h
    · obtain ⟨-, h⟩ := of_not_skipped h
      split at h
      · cases h
      · obtain ⟨hrequest, -⟩ := of_not_skipped h
        simp only [Bool.or_eq_true, not_or, decide_eq_true_eq, ne_eq, not_not] at hrequest
        obtain ⟨⟨⟨⟨⟨⟨-, hdeal⟩, howner⟩, -⟩, -⟩, -⟩, -⟩ := hrequest
        exact ⟨hdeal, howner⟩
  · cases h

theorem mailScope_concerns {stage : ℤ}
    (h : mailScope rt observation request manifest connection = .ok (some stage)) : Concerns request observation := by
  unfold mailScope at h
  dsimp only at h
  split at h
  · cases h
  · obtain ⟨-, h⟩ := of_not_skipped h
    split at h
    · cases h
    · split at h
      · obtain ⟨hrequest, -⟩ := of_not_skipped h
        simp only [Bool.or_eq_true, not_or, decide_eq_true_eq, ne_eq, not_not] at hrequest
        obtain ⟨⟨⟨⟨⟨⟨⟨-, hdeal⟩, howner⟩, -⟩, -⟩, -⟩, -⟩, -⟩ := hrequest
        exact ⟨hdeal, howner⟩
      · cases h

theorem Concerns.owner (h : Concerns request observation) : observation.managerId.getD [] = request.ownerId := by
  rw [← h.2]
  rfl

/-! ## Archived chats -/

theorem chatMessages_mem {scope : ChatScope} {contacts : List JsString} {source : Source} {chats : List ChatCapture} :
    ∀ {visited : List JsString},
      Except.ok (some source) ∈ chatMessages rt observation scope contacts visited chats →
        ∃ chat capture, chatSource rt observation scope contacts chat capture = .ok (some source) := by
  induction chats with
  | nil => exact fun h => absurd h List.not_mem_nil
  | cons chat chats ih =>
    intro visited h
    rw [chatMessages, List.cons_append, List.mem_cons, List.mem_append] at h
    rcases h with h | h | h
    · split_ifs at h
      cases h
    · obtain ⟨capture, -, hcapture⟩ := List.mem_map.1 h
      exact ⟨chat, capture, hcapture⟩
    · exact ih h

/-- A chat source is the source of a message of the archive. -/
theorem chatSource_spec {scope : ChatScope} {contacts : List JsString} {chat : ChatCapture}
    {capture : Chat.MessageCapture} {source : Source}
    (h : chatSource rt observation scope contacts chat capture = .ok (some source)) :
    ∃ talkId message text customer, chatMessage rt observation scope chat capture talkId = some message ∧
      source = chatSourceOf rt observation chat message text customer ∧
        (customer = true → message.actorKind = .external) := by
  unfold chatSource at h
  cases htalk : textOrEmpty ((capture.value.get "dialog").get "id") with
  | none => rw [htalk] at h; cases h
  | some talkId =>
    rw [htalk] at h
    dsimp only at h
    cases hmessage : chatMessage rt observation scope chat capture talkId with
    | none => rw [hmessage] at h; cases h
    | some message =>
      rw [hmessage] at h
      dsimp only at h
      cases htext : chatText rt observation scope contacts message with
      | none => rw [htext] at h; cases h
      | some text =>
        rw [htext] at h
        dsimp only at h
        split_ifs at h with hcustomer hmanager
        · cases h
          simp only [Bool.and_eq_true, decide_eq_true_eq] at hcustomer
          exact ⟨talkId, message, text, true, hmessage, rfl, fun _ => hcustomer.2⟩
        · split at h
          · cases h
          · split_ifs at h
            · cases h
              exact ⟨talkId, message, text, false, hmessage, rfl, fun h => absurd h (by decide)⟩
            · cases h
        · cases h

/-- What a message of the archive names is short. -/
theorem chatMessage_names {scope : ChatScope} {chat : ChatCapture} {capture : Chat.MessageCapture} {talkId : JsString}
    {message : Chat.NormalizedMessage} (h : chatMessage rt observation scope chat capture talkId = some message) :
    chat.chatId.length ≤ 100 ∧ message.messageId.length ≤ 100 ∧
      (message.actorKind = .external → ∃ authorId, message.authorId = some authorId ∧ Chat.ShortName authorId) ∧
        ∀ userId, message.authorUserId = some userId → Chat.ShortName userId := by
  unfold chatMessage at h
  split at h
  · dsimp only at h
    split_ifs at h
    obtain ⟨proof, hproof, -, rfl⟩ := Chat.normalize_message h
    obtain ⟨hchat, -, hid⟩ := Chat.bind_proof hproof
    exact ⟨Chat.isId_length hchat, Chat.id_length hid, Chat.external_author, fun userId => Chat.internal_author⟩
  · cases h

/-- Chat sources are well made, and what they name is short. -/
theorem chatSource_wellMade {scope : ChatScope} {contacts : List JsString} {chat : ChatCapture}
    {capture : Chat.MessageCapture} {source : Source} (hrequest : Concerns request observation)
    (h : chatSource rt observation scope contacts chat capture = .ok (some source)) :
    WellMade rt.toRuntime request source ∧ source.id.length ≤ 206 ∧
      ∀ actorId ∈ source.actorId, actorId.length ≤ 100 := by
  obtain ⟨talkId, message, text, customer, hmessage, rfl, hcustomer⟩ := chatSource_spec h
  obtain ⟨hchat, hid, hexternal, huser⟩ := chatMessage_names hmessage
  have hactor : ∀ actorId ∈ (chatSourceOf rt observation chat message text customer).actorId,
      Chat.ShortName actorId := by
    intro actorId hactorId
    cases customer with
    | true =>
      obtain ⟨authorId, hauthor, hshort⟩ := hexternal (hcustomer rfl)
      have hsame : message.authorId = some actorId := hactorId
      rw [hauthor] at hsame
      exact Option.some.inj hsame ▸ hshort
    | false => exact huser actorId hactorId
  refine ⟨⟨rfl, fun a ha => (hactor a ha).visible, hrequest.1.symm, hrequest.owner, rfl, ?_, rfl⟩, ?_,
    fun a ha => (hactor a ha).short⟩
  · cases customer <;> exact fun h => nomatch h
  · have hlength : (chatSourceId chat message).length = 5 + chat.chatId.length + 1 + message.messageId.length := by
      simp only [chatSourceId, List.length_append]
      rfl
    have hid' : (chatSourceOf rt observation chat message text customer).id = chatSourceId chat message := rfl
    rw [hid', hlength]
    omega

/-! ## Archived mails -/

theorem mailSource_wellMade {stage : ℤ} {contacts : List JsString} {thread : MailThread} {message : MailMessage}
    {source : Source} (hrequest : Concerns request observation)
    (h : mailSource rt observation manifest stage contacts thread message = some source) :
    WellMade rt.toRuntime request source := by
  unfold mailSource at h
  split at h
  · split_ifs at h
    cases h
    refine ⟨rfl, fun actorId hactorId => ?_, hrequest.1.symm, hrequest.owner, rfl, (fun h => nomatch h), rfl⟩
    rw [← Option.some.inj hactorId]
    rfl
  · cases h

/-! ## The request with its archive -/

/-- The sources of a chat archive: well made, and short in what they name. -/
structure ChatSource (rt : Runtime) (request : Request) (source : Source) : Prop where
  made : WellMade rt request source
  id : source.id.length ≤ 206
  actor : ∀ actorId ∈ source.actorId, actorId.length ≤ 100

theorem appendChat_spec {after : Request}
    (h : appendCrmControlArchivedChatSources rt observation request manifest connection = some after) :
    ∃ chat, after = { request with sources := request.sources ++ chat } ∧
      (∀ source ∈ chat, ChatSource rt.toRuntime request source) ∧ (chat.map (·.id)).Nodup ∧
        ∀ source ∈ chat, source.id ∉ request.sources.map (·.id) := by
  have hsame : ∃ chat : List Source, request = { request with sources := request.sources ++ chat } ∧
      (∀ source ∈ chat, ChatSource rt.toRuntime request source) ∧ (chat.map (·.id)).Nodup ∧
        ∀ source ∈ chat, source.id ∉ request.sources.map (·.id) :=
    ⟨[], by rw [List.append_nil], fun _ h => absurd h List.not_mem_nil, List.nodup_nil,
      fun _ h => absurd h List.not_mem_nil⟩
  unfold appendCrmControlArchivedChatSources at h
  split_ifs at h
  · cases h
    exact hsame
  · split at h
    · cases h
    · cases h
      exact hsame
    · rename_i scope hscope
      split at h
      · cases h
      · obtain ⟨chat, hafter, hnodup, hfresh, hmem⟩ := appendSources_spec h
        refine ⟨chat, hafter, fun source hsource => ?_, hnodup, hfresh⟩
        obtain ⟨capture, message, hread⟩ := chatMessages_mem (hmem source hsource)
        obtain ⟨hmade, hid, hactor⟩ := chatSource_wellMade (chatScope_concerns hscope) hread
        exact ⟨hmade, hid, hactor⟩

theorem appendMail_spec {after : Request}
    (h : appendCrmControlArchivedMailSources rt observation request manifest connection = some after) :
    ∃ mail, after = { request with sources := request.sources ++ mail } ∧
      (∀ source ∈ mail, WellMade rt.toRuntime request source) ∧ (mail.map (·.id)).Nodup ∧
        ∀ source ∈ mail, source.id ∉ request.sources.map (·.id) := by
  have hsame : ∃ mail : List Source, request = { request with sources := request.sources ++ mail } ∧
      (∀ source ∈ mail, WellMade rt.toRuntime request source) ∧ (mail.map (·.id)).Nodup ∧
        ∀ source ∈ mail, source.id ∉ request.sources.map (·.id) :=
    ⟨[], by rw [List.append_nil], fun _ h => absurd h List.not_mem_nil, List.nodup_nil,
      fun _ h => absurd h List.not_mem_nil⟩
  unfold appendCrmControlArchivedMailSources at h
  split_ifs at h
  · cases h
    exact hsame
  · split at h
    · cases h
    · cases h
      exact hsame
    · rename_i stage hscope
      split at h
      · cases h
      · obtain ⟨mail, hafter, hnodup, hfresh, hmem⟩ := appendSources_spec h
        refine ⟨mail, hafter, fun source hsource => ?_, hnodup, hfresh⟩
        obtain ⟨thread, -, hthread⟩ := List.mem_flatMap.1 (hmem source hsource)
        rcases List.mem_cons.1 hthread with hgiven | hmessage
        · split_ifs at hgiven
          cases hgiven
        · obtain ⟨message, -, hread⟩ := List.mem_map.1 hmessage
          exact mailSource_wellMade (mailScope_concerns hscope) (Except.ok.inj hread)

/-- The sources that the archive adds to a request. -/
structure Archived (rt : Runtime) (request : Request) (chat mail : List Source) : Prop where
  chats : ∀ source ∈ chat, ChatSource rt request source
  mails : ∀ source ∈ mail, WellMade rt request source
  nodup : ((chat ++ mail).map (·.id)).Nodup
  fresh : ∀ source ∈ chat ++ mail, source.id ∉ request.sources.map (·.id)

theorem Archived.chat_only {rt : Runtime} {chat : List Source} (h : ∀ source ∈ chat, ChatSource rt request source)
    (hnodup : (chat.map (·.id)).Nodup) (hfresh : ∀ source ∈ chat, source.id ∉ request.sources.map (·.id)) :
    Archived rt request chat [] := by
  refine ⟨h, fun _ h => absurd h List.not_mem_nil, ?_, ?_⟩
  · rwa [List.append_nil]
  · rwa [List.append_nil]

theorem trustedRequest_archived (rt : ArchiveRuntime) (observation : Observation) (expected : Request)
    (archive : Option (Manifest × Connection)) :
    ∃ chat mail, trustedRequest rt observation expected archive =
        { expected with sources := expected.sources ++ (chat ++ mail) } ∧
      Archived rt.toRuntime expected chat mail := by
  have hsame : ∃ chat mail, expected = { expected with sources := expected.sources ++ (chat ++ mail) } ∧
      Archived rt.toRuntime expected chat mail :=
    ⟨[], [], by rw [List.append_nil, List.append_nil],
      Archived.chat_only (fun _ h => absurd h List.not_mem_nil) List.nodup_nil fun _ h => absurd h List.not_mem_nil⟩
  match archive with
  | none => exact hsame
  | some (manifest, connection) =>
    cases hchat : appendCrmControlArchivedChatSources rt observation expected manifest connection with
    | none =>
      have hrequest : trustedRequest rt observation expected (some (manifest, connection)) = expected := by
        simp only [trustedRequest, hchat]
      rw [hrequest]
      exact hsame
    | some withChat =>
      obtain ⟨chat, rfl, hsources, hnodup, hfresh⟩ := appendChat_spec hchat
      cases hmail : appendCrmControlArchivedMailSources rt observation
          { expected with sources := expected.sources ++ chat } manifest connection with
      | none =>
        refine ⟨chat, [], ?_, Archived.chat_only hsources hnodup hfresh⟩
        simp only [trustedRequest, hchat, hmail, Option.getD_none, List.append_nil]
      | some trusted =>
        obtain ⟨mail, rfl, hmade, hnodup', hfresh'⟩ := appendMail_spec hmail
        simp only [List.map_append, List.mem_append, not_or] at hfresh'
        refine ⟨chat, mail, ?_, ⟨hsources, fun source h => ?_, ?_, ?_⟩⟩
        · simp only [trustedRequest, hchat, hmail, Option.getD_some, List.append_assoc]
        · have hsource := hmade source h
          exact ⟨hsource.named, hsource.actor, hsource.deal, hsource.owner, hsource.subject, hsource.kind,
            hsource.hash⟩
        · rw [List.map_append]
          refine List.nodup_append.2 ⟨hnodup, hnodup', ?_⟩
          rintro id hid _ hid' rfl
          obtain ⟨source, hsource, rfl⟩ := List.mem_map.1 hid'
          exact (hfresh' source hsource).2 hid
        · intro source hsource
          rcases List.mem_append.1 hsource with hsource | hsource
          · exact hfresh source hsource
          · exact (hfresh' source hsource).1

/-- The archive adds well made sources, of which those of chats have short ids; the preflight still accepts the
request exactly when the sources are few and short enough, and the mails have ids that are short enough. -/
theorem archived_sources_accepted (rt : ArchiveRuntime) (observation : Observation) (expected : Request)
    (archive : Option (Manifest × Connection)) (h : accepted rt.toRuntime expected = true) :
    let trusted := trustedRequest rt observation expected archive
    ∃ chat mail, trusted = { expected with sources := expected.sources ++ (chat ++ mail) } ∧
      Archived rt.toRuntime expected chat mail ∧
      (accepted rt.toRuntime trusted = true ↔
        trusted.sources.length ≤ 128 ∧ (trusted.sources.map (·.text.length)).sum ≤ 128_000 ∧
          (∀ source ∈ chat ++ mail, source.text.length ≤ 16_000) ∧
            ∀ source ∈ mail, source.id.length ≤ 256 ∧ ∀ actorId ∈ source.actorId, actorId.length ≤ 256) := by
  intro trusted
  obtain ⟨chat, mail, htrusted, harchived⟩ := trustedRequest_archived rt observation expected archive
  refine ⟨chat, mail, htrusted, harchived, ?_⟩
  obtain ⟨hheader, hcount, hread⟩ := preflight_iff.1 (accepted_iff.1 h)
  have hmade : ∀ source ∈ chat ++ mail, WellMade rt.toRuntime expected source := by
    intro source hsource
    rcases List.mem_append.1 hsource with hsource | hsource
    · exact (harchived.chats source hsource).made
    · exact harchived.mails source hsource
  have hseen : ∀ source ∈ chat ++ mail, source.id ∉ (expected.sources.map (·.id)).reverse ++ [] := by
    intro source hsource hmem
    rw [List.append_nil, List.mem_reverse] at hmem
    exact harchived.fresh source hsource hmem
  have hadded := sourcesRead_wellMade hmade harchived.nodup hseen (hread.total (by decide))
  have hfits : (∀ source ∈ chat ++ mail, Fits source) ↔
      (∀ source ∈ chat ++ mail, source.text.length ≤ 16_000) ∧
        ∀ source ∈ mail, source.id.length ≤ 256 ∧ ∀ actorId ∈ source.actorId, actorId.length ≤ 256 := by
    constructor
    · intro hfits
      exact ⟨fun source h => (hfits source h).text, fun source h =>
        ⟨(hfits source (List.mem_append_right _ h)).id, (hfits source (List.mem_append_right _ h)).actor⟩⟩
    · rintro ⟨htext, hmail⟩ source hsource
      rcases List.mem_append.1 hsource with h | h
      · obtain ⟨-, hid, hactor⟩ := harchived.chats source h
        exact ⟨hid.trans (by decide), fun a ha => (hactor a ha).trans (by decide), htext source hsource⟩
      · exact ⟨(hmail source h).1, (hmail source h).2, htext source hsource⟩
  have hsources : trusted.sources = expected.sources ++ (chat ++ mail) := congrArg Request.sources htrusted
  have hsum : 0 + (expected.sources.map (·.text.length)).sum + ((chat ++ mail).map (·.text.length)).sum =
      (trusted.sources.map (·.text.length)).sum := by
    rw [hsources]
    simp only [List.map_append, List.sum_append, Nat.zero_add]
  have hrest : preflight rt.toRuntime { trusted with sources := [] } =
      preflight rt.toRuntime { expected with sources := [] } := by
    rw [show trusted = _ from htrusted]
  have hsame : SourcesRead rt.toRuntime trusted [] 0 trusted.sources ↔
      SourcesRead rt.toRuntime expected [] 0 (expected.sources ++ (chat ++ mail)) := by
    rw [hsources, show trusted = _ from htrusted, sourcesRead_sources]
  rw [accepted_iff, preflight_iff, hrest, hsame, sourcesRead_append, hadded, hfits, hsum]
  constructor
  · rintro ⟨-, hfew, -, ⟨htext, hmail⟩, htotal⟩
    exact ⟨hfew, htotal, htext, hmail⟩
  · rintro ⟨hfew, htotal, htext, hmail⟩
    exact ⟨hheader, hfew, hread, ⟨htext, hmail⟩, htotal⟩

end Producers

/-! ## An archived mail -/

namespace ArchiveSample

/-- Texts without markup, quotations and control characters are read as they are. -/
def runtime : ArchiveRuntime where
  toRuntime := { Sample.runtime with textHash := fun s => s }
  sourceHash := fun _ => some []
  attachments := fun _ => ([], [])
  mailText := some

def request : Request where
  schemaVersion := 1
  requestId := js "request-1"
  check := .deadlineAgreement
  dealId := js "deal-1"
  ownerId := js "manager-1"
  subjectId := none
  observedAt := js "2026-09-22T14:02:00.000Z"
  stageEnteredAt := some (js "2026-09-22T10:00:00.000Z")
  timeZone := js "UTC"
  stageName := js "КП презентовано"
  coverage := ⟨true, true, false⟩
  sources := []

def observation : Observation where
  dealId := js "deal-1"
  dealExternalId := some (js "123")
  managerId := some (js "manager-1")
  observedAt := 1_790_085_720_000
  snapshot := .obj [
    (js "sourceCompleteness", .obj [(js "deal", .bool true)]),
    (js "deal", .obj [
      (js "id", .str (js "deal-1")),
      (js "responsibleId", .str (js "manager-1")),
      (js "raw", .obj [
        (js "id", .num (some 123)),
        (js "_embedded", .obj [(js "contacts", .arr [.obj [(js "id", .num (some 55))]])])])]),
    (js "browserSources", .obj [
      (js "connectionId", .str (js "connection")),
      (js "accountExternalId", .str (js "42")),
      (js "startedAt", .str (js "2026-09-22T14:00:00.000Z")),
      (js "finishedAt", .str (js "2026-09-22T14:01:00.000Z"))])]

/-- The archive of one mail of the customer. -/
def manifest (content : JsString) : Manifest where
  dealExternalId := js "123"
  startedAt := js "2026-09-22T14:00:00.000Z"
  finishedAt := js "2026-09-22T14:01:00.000Z"
  connectionId := some (js "connection")
  accountExternalId := some (js "42")
  history := ⟨js "123", [], [⟨js "801", .deal, [{
    id := js "901", occurredAt := js "2026-09-22T12:00:00.000Z", sent := false, content := content
    participants := some ⟨some [⟨js "contact", some (js "55")⟩], []⟩ }]⟩]⟩
  chatHistory := none
  chatAccount := none
  chatExternalContacts := none

def connection : Connection := ⟨js "connection", some (js "42")⟩

/-- The source of the mail. -/
def source (content : JsString) : Source where
  id := js "mail:801:901"
  sourceHash := content
  dealId := js "deal-1"
  ownerId := js "manager-1"
  subjectId := none
  kind := .customerMessage
  actor := .customer
  actorId := some (js "contact:55")
  direction := .incoming
  text := content
  createdAt := some (js "2026-09-22T12:00:00.000Z")

/-- `2026-09-22T10:00:00.000Z`. -/
def stage : ℤ := 1_790_071_200_000

def stageOf : Except Abort (Option ℤ) → Option ℤ
  | .ok stage => stage
  | .error _ => none

theorem scope_content (content : JsString) : mailScope runtime observation request (manifest content) connection =
    mailScope runtime observation request (manifest []) connection := by
  simp only [mailScope, manifest, List.length_singleton]
  rfl

theorem mailScope_eq (content : JsString) :
    mailScope runtime observation request (manifest content) connection = .ok (some stage) := by
  have hstage : stageOf (mailScope runtime observation request (manifest []) connection) = some stage := by
    decide +kernel
  rw [scope_content]
  cases hscope : mailScope runtime observation request (manifest []) connection with
  | error abort => rw [hscope] at hstage; cases hstage
  | ok found => rw [hscope] at hstage; rw [← hstage]; rfl

theorem mailMessages_eq (content : JsString) :
    (manifest content).history.threads.flatMap
        (mailMessages runtime observation (manifest content) stage [js "55"]) =
      [.ok none, .ok (some (source content))] := by
  have hdate : runtime.dateParse (js "2026-09-22T12:00:00.000Z") = some 1_790_078_400_000 := by decide +kernel
  simp only [manifest, List.flatMap_cons, List.flatMap_nil, List.append_nil, mailMessages, List.map_cons,
    List.map_nil, mailSource, hdate]
  rfl

theorem trusted_sources (content : JsString) :
    trustedRequest runtime observation request (some (manifest content, connection)) =
      { request with sources := [source content] } := by
  have hchat : appendCrmControlArchivedChatSources runtime observation request (manifest content) connection =
      some request := rfl
  have hcontacts : mailContactIds ((observation.snapshot.get "deal").get "raw") = some [js "55"] := by decide +kernel
  have hmail : appendCrmControlArchivedMailSources runtime observation request (manifest content) connection =
      some { request with sources := [source content] } := by
    unfold appendCrmControlArchivedMailSources
    rw [mailScope_eq, hcontacts]
    dsimp only
    rw [mailMessages_eq]
    rfl
  simp only [trustedRequest, hchat, hmail, Option.getD_some]

end ArchiveSample

theorem archived_sources_accepted_sample :
    accepted ArchiveSample.runtime.toRuntime
      (trustedRequest ArchiveSample.runtime ArchiveSample.observation ArchiveSample.request
        (some (ArchiveSample.manifest (js "Да."), ArchiveSample.connection))) = true := by
  obtain ⟨chat, mail, hsources, -, haccepted⟩ := archived_sources_accepted ArchiveSample.runtime
    ArchiveSample.observation ArchiveSample.request
    (some (ArchiveSample.manifest (js "Да."), ArchiveSample.connection)) (by decide +kernel)
  rw [haccepted]
  have hadded : [ArchiveSample.source (js "Да.")] = chat ++ mail := by
    rw [ArchiveSample.trusted_sources] at hsources
    exact congrArg Request.sources hsources
  rw [ArchiveSample.trusted_sources, ← hadded]
  refine ⟨by decide, by decide, by decide, fun source hsource => ?_⟩
  have hmem : source ∈ [ArchiveSample.source (js "Да.")] := hadded ▸ List.mem_append_right _ hsource
  rw [List.mem_singleton.1 hmem]
  decide

/-- A mail of 16 001 characters. -/
def longMail : JsString := List.replicate 16_001 97

/-- A long mail of the customer disqualifies a request that was accepted without it. -/
theorem long_mail_refused :
    accepted ArchiveSample.runtime.toRuntime ArchiveSample.request = true ∧
      accepted ArchiveSample.runtime.toRuntime
        (trustedRequest ArchiveSample.runtime ArchiveSample.observation ArchiveSample.request
          (some (ArchiveSample.manifest longMail, ArchiveSample.connection))) = false := by
  refine ⟨by decide +kernel, ?_⟩
  rw [ArchiveSample.trusted_sources]
  refine Bool.eq_false_iff.2 fun h => ?_
  obtain ⟨-, -, hproblem, -⟩ := preflight_iff.1 (accepted_iff.1 h)
  have hlength : longMail.length = 16_001 := List.length_replicate
  have hmade : WellMade ArchiveSample.runtime.toRuntime ArchiveSample.request (ArchiveSample.source longMail) :=
    ⟨rfl, fun actorId hactorId => Option.some.inj hactorId ▸ rfl, rfl, rfl, rfl, (fun h => nomatch h), rfl⟩
  have hfits := (sourceProblem_iff hmade List.not_mem_nil).1 hproblem
  exact absurd (hlength ▸ hfits.text) (by decide)

end AmoAnalytics.CrmControl.Semantic
