import AmoAnalytics.CrmControl.SemanticVerdict
import AmoAnalytics.Lib.DirectoryScan
import AmoAnalytics.Lib.JoinedKey
import AmoAnalytics.Lib.Json
import AmoAnalytics.Lib.JsMap

/-!
# Excerpts that the analyzer may cite

`crm-control-local-semantic.client.ts` cuts every source of a request into excerpts: its sentences, and overlapping
windows of a sentence that is too long. The analyzer names excerpts by their ids, and the client makes citations of
the ids that the validator then reads. The segmenter is a parameter that partitions a text.
-/

namespace AmoAnalytics.CrmControl.Semantic

open JsText Regex

/-! ## Excerpts -/

/-- `/\s+\S*$/u`. -/
def lastBlank : Regex UInt16 := seqs [many 1 space, many 0 (one fun c => !isSpace c), atEnd]

/-- A half of a surrogate pair at the position. -/
def halfAt (half : UInt16 → Bool) (segment : JsString) (at' : ℕ) : Bool := segment[at']?.any half

/-- Where the window that begins at `start` ends. -/
def windowEnd (segment : JsString) (start : ℕ) : ℕ :=
  if start + 1800 < segment.length then
    let stop := match search lastBlank (slice segment (start + 1200) (start + 1800)) with
      | some boundary => start + 1200 + boundary + 1
      | none => start + 1800
    if halfAt Json.isHigh segment (stop - 1) then stop - 1 else stop
  else segment.length

/-- Where the next window begins. -/
def nextStart (segment : JsString) (stop : ℕ) : ℕ :=
  if halfAt Json.isLow segment (stop - 200) then stop - 200 - 1 else stop - 200

/-- The loop over the windows of a segment; `none` is a loop that has not ended yet. -/
def windows (segment : JsString) : ℕ → ℕ → Option (List JsString)
  | 0, _ => none
  | fuel + 1, start =>
    if start < segment.length then
      let stop := windowEnd segment start
      if stop = segment.length then some [slice segment start stop]
      else (windows segment fuel (nextStart segment stop)).map (slice segment start stop :: ·)
    else some []

def segmentExcerpts (fuel : ℕ) (segment : JsString) : Option (List JsString) :=
  if segment.length ≤ 2000 then some [segment] else windows segment fuel 0

/-- The excerpts of a text, whose segments are the sentences that `Intl.Segmenter` gives. -/
def crmControlSemanticExcerpts (sentences : JsString → List JsString) (fuel : ℕ) (text : JsString) :
    Option (List JsString) :=
  ((sentences text).mapM (segmentExcerpts fuel)).map List.flatten

/-! ## Citations -/

/-- `S${index}`. -/
def sourceAlias (index : ℕ) : JsString := js "S" ++ JsonNumber.digits index

/-- `S${index}Q${part}`. -/
def excerptId (index part : ℕ) : JsString := sourceAlias index ++ js "Q" ++ JsonNumber.digits part

/-- An entry of the map of citations. -/
structure ExcerptCitation where
  source : JsString
  quote : JsString
  deriving DecidableEq

/-- The entries that `prompt` sets, for the excerpts of all sources. -/
def citationEntries (excerpts : List (List JsString)) : List (JsString × ExcerptCitation) :=
  (excerpts.mapIdx fun index quotes => quotes.mapIdx fun part quote =>
    (excerptId index part, (⟨sourceAlias index, quote⟩ : ExcerptCitation))).flatten

/-- The map of citations of `prompt`. -/
def promptCitations (sentences : JsString → List JsString) (fuel : ℕ) (request : Request) :
    Option (List (JsString × ExcerptCitation)) :=
  (request.sources.mapM fun source => crmControlSemanticExcerpts sentences fuel source.text).map fun excerpts =>
    JsMap.ofEntries (citationEntries excerpts)

/-- `/^S(?:0|[1-9]\d*)$/`. -/
def isAlias (s : JsString) : Bool :=
  s.take 1 = js "S" &&
    (s.drop 1 = js "0" || (s.drop 1 ≠ [] && (s.drop 1).head? ≠ some 48 && (s.drop 1).all isDigit))

/-- The reference that `bindFindings` makes of a citation. -/
def bindCitation (request : Request) (citation : ExcerptCitation) : Option JsValue :=
  if isAlias citation.source then
    request.sources[number (citation.source.drop 1)]?.map fun source =>
      .obj [(js "sourceId", .str source.id), (js "sourceHash", .str source.sourceHash),
        (js "quote", .str citation.quote)]
  else none

/-- The reference for an id that the analyzer gives as evidence; `bindExcerpts` looks the id up. -/
def bindExcerpt (request : Request) (citations : List (JsString × ExcerptCitation)) (id : JsString) :
    Option JsValue :=
  (JsMap.get? id citations).bind (bindCitation request)

/-! ## Windows -/

theorem lastBlank_nil (before : Option UInt16) : run lastBlank (before, []) = [] := by
  simp [lastBlank, seqs, run, repeated]

/-- A window reaches far enough for the next one to begin behind its start. -/
theorem windowEnd_bounds {segment : JsString} {start : ℕ} (h : start < segment.length) :
    start < windowEnd segment start ∧ windowEnd segment start ≤ segment.length ∧
      windowEnd segment start ≤ start + 1800 ∧
      (windowEnd segment start ≠ segment.length → start + 1200 ≤ windowEnd segment start) := by
  unfold windowEnd
  by_cases hlong : start + 1800 < segment.length
  · rw [if_pos hlong]
    have hslice : (slice segment (start + 1200) (start + 1800)).length = 600 := by
      rw [slice, List.length_drop, List.length_take]
      omega
    have hstop : ∀ stop, stop = (match search lastBlank (slice segment (start + 1200) (start + 1800)) with
        | some boundary => start + 1200 + boundary + 1
        | none => start + 1800) → start + 1201 ≤ stop ∧ stop ≤ start + 1800 := by
      rintro stop rfl
      cases hsearch : search lastBlank (slice segment (start + 1200) (start + 1800)) with
      | none =>
        change start + 1201 ≤ start + 1800 ∧ start + 1800 ≤ start + 1800
        omega
      | some boundary =>
        have hboundary := search_lt lastBlank_nil hsearch
        change start + 1201 ≤ start + 1200 + boundary + 1 ∧ start + 1200 + boundary + 1 ≤ start + 1800
        omega
    obtain ⟨hlow, hhigh⟩ := hstop _ rfl
    dsimp only
    split_ifs
    · omega
    · omega
  · rw [if_neg hlong]
    exact ⟨h, le_rfl, by omega, fun hne => absurd rfl hne⟩

theorem nextStart_bounds (segment : JsString) (stop : ℕ) :
    stop ≤ nextStart segment stop + 201 ∧ nextStart segment stop ≤ stop - 200 := by
  unfold nextStart
  split_ifs
  · omega
  · omega

/-- The excerpt stands in the text around the position. -/
def At (text excerpt : JsString) (i : ℕ) : Prop :=
  ∃ start, slice text start (start + excerpt.length) = excerpt ∧ start ≤ i ∧ i < start + excerpt.length

/-- The excerpts are short parts of the text, and cover it from the start on. -/
structure Excerpted (text : JsString) (start : ℕ) (excerpts : List JsString) : Prop where
  part : ∀ excerpt ∈ excerpts, excerpt <:+: text
  short : ∀ excerpt ∈ excerpts, excerpt.length ≤ 2000
  covered : ∀ i, start ≤ i → i < text.length → ∃ excerpt ∈ excerpts, At text excerpt i

theorem at_slice {text : JsString} {start stop i : ℕ} (hstop : stop ≤ text.length) (hstart : start ≤ i)
    (hi : i < stop) : At text (slice text start stop) i := by
  have hlen : (slice text start stop).length = stop - start := by
    rw [slice, List.length_drop, List.length_take]
    omega
  refine ⟨start, ?_, hstart, ?_⟩
  · rw [hlen, Nat.add_sub_cancel' (by omega)]
  · omega

/-- The loop ends, and its windows cover the segment from the start on. -/
theorem windows_spec {segment : JsString} {fuel start : ℕ} (hstart : start < segment.length)
    (hfuel : segment.length < start + fuel) :
    ∃ excerpts, windows segment fuel start = some excerpts ∧ Excerpted segment start excerpts := by
  induction fuel generalizing start with
  | zero => omega
  | succ fuel ih =>
    obtain ⟨hpast, hend, hwindow, hfar⟩ := windowEnd_bounds hstart
    have hshort : (slice segment start (windowEnd segment start)).length ≤ 2000 := by
      rw [slice, List.length_drop, List.length_take]
      omega
    rw [windows, if_pos hstart]
    dsimp only
    by_cases hdone : windowEnd segment start = segment.length
    · rw [if_pos hdone]
      refine ⟨_, rfl, ?_, ?_, fun i hle hi => ?_⟩
      · simpa using isInfix_slice segment start (windowEnd segment start)
      · simpa using hshort
      · exact ⟨_, List.mem_singleton_self _, at_slice hend hle (hdone ▸ hi)⟩
    · obtain ⟨hback, hforth⟩ := nextStart_bounds segment (windowEnd segment start)
      have hfar := hfar hdone
      obtain ⟨excerpts, hwindows, hrest⟩ := ih
        (show nextStart segment (windowEnd segment start) < segment.length by omega) (by omega)
      rw [if_neg hdone, hwindows]
      refine ⟨_, rfl, ?_, ?_, fun i hle hi => ?_⟩
      · exact List.forall_mem_cons.2 ⟨isInfix_slice segment start (windowEnd segment start), hrest.part⟩
      · exact List.forall_mem_cons.2 ⟨hshort, hrest.short⟩
      · by_cases hin : i < windowEnd segment start
        · exact ⟨_, List.mem_cons_self, at_slice hend hle hin⟩
        · obtain ⟨excerpt, hmem, hat⟩ := hrest.covered i (by omega) hi
          exact ⟨excerpt, List.mem_cons_of_mem _ hmem, hat⟩

theorem segmentExcerpts_spec {fuel : ℕ} {segment : JsString} (hfuel : segment.length < fuel) :
    ∃ excerpts, segmentExcerpts fuel segment = some excerpts ∧ Excerpted segment 0 excerpts := by
  unfold segmentExcerpts
  split_ifs with hshort
  · refine ⟨_, rfl, ?_, ?_, fun i _ hi => ⟨segment, List.mem_singleton_self _, 0, ?_, Nat.zero_le _, ?_⟩⟩
    · simp
    · simpa using hshort
    · rw [slice, Nat.zero_add, List.take_length, List.drop_zero]
    · rwa [Nat.zero_add]
  · exact windows_spec (by omega) (by omega)

/-! ## Segments -/

theorem At.append_left {text excerpt : JsString} {i : ℕ} (h : At text excerpt i) (before : JsString) :
    At (before ++ text) excerpt (before.length + i) := by
  obtain ⟨start, hslice, hstart, hi⟩ := h
  refine ⟨before.length + start, ?_, by omega, by omega⟩
  rw [slice, Nat.add_assoc, List.take_length_add_append, List.drop_length_add_append]
  exact hslice

theorem At.append_right {text excerpt : JsString} {i : ℕ} (h : At text excerpt i) (after : JsString) :
    At (text ++ after) excerpt i := by
  obtain ⟨start, hslice, hstart, hi⟩ := h
  have hlen : start + excerpt.length ≤ text.length := by
    have := congrArg List.length hslice
    rw [slice, List.length_drop, List.length_take] at this
    omega
  refine ⟨start, ?_, hstart, hi⟩
  rw [slice, List.take_append_of_le_length hlen]
  exact hslice

/-- The excerpts of two texts one after the other. -/
theorem Excerpted.append {first second : JsString} {xs ys : List JsString} (hfirst : Excerpted first 0 xs)
    (hsecond : Excerpted second 0 ys) : Excerpted (first ++ second) 0 (xs ++ ys) := by
  refine ⟨?_, ?_, fun i _ hi => ?_⟩
  · refine List.forall_mem_append.2 ⟨fun excerpt hmem => ?_, fun excerpt hmem => ?_⟩
    · exact (hfirst.part excerpt hmem).trans (List.prefix_append _ _).isInfix
    · exact (hsecond.part excerpt hmem).trans (List.suffix_append _ _).isInfix
  · exact List.forall_mem_append.2 ⟨hfirst.short, hsecond.short⟩
  · by_cases hin : i < first.length
    · obtain ⟨excerpt, hmem, hat⟩ := hfirst.covered i (Nat.zero_le i) hin
      exact ⟨excerpt, List.mem_append_left _ hmem, hat.append_right second⟩
    · rw [List.length_append] at hi
      obtain ⟨excerpt, hmem, hat⟩ := hsecond.covered (i - first.length) (Nat.zero_le _) (by omega)
      refine ⟨excerpt, List.mem_append_right _ hmem, ?_⟩
      have hshift := hat.append_left first
      rwa [Nat.add_sub_cancel' (by omega)] at hshift

/-- The excerpts of a text whose segments partition it. -/
theorem excerpts_spec {sentences : JsString → List JsString} {fuel : ℕ} {text : JsString}
    (hpartition : (sentences text).flatten = text) (hfuel : text.length < fuel) :
    ∃ excerpts, crmControlSemanticExcerpts sentences fuel text = some excerpts ∧ Excerpted text 0 excerpts := by
  have hsegments : ∀ segments : List JsString, segments.flatten.length < fuel →
      ∃ parts, segments.mapM (segmentExcerpts fuel) = some parts ∧ Excerpted segments.flatten 0 parts.flatten := by
    intro segments
    induction segments with
    | nil =>
      intro _
      exact ⟨[], rfl, nofun, nofun, fun i _ hi => absurd hi (Nat.not_lt_zero i)⟩
    | cons segment segments ih =>
      intro hlen
      rw [List.flatten_cons, List.length_append] at hlen
      have hfuel : segment.length < fuel := by omega
      obtain ⟨quotes, hquotes, hfirst⟩ := segmentExcerpts_spec hfuel
      obtain ⟨parts, hparts, hrest⟩ := ih (by omega)
      refine ⟨quotes :: parts, ?_, ?_⟩
      · rw [List.mapM_cons, hquotes, hparts]
        rfl
      · rw [List.flatten_cons, List.flatten_cons]
        exact hfirst.append hrest
  obtain ⟨parts, hparts, hexcerpted⟩ := hsegments (sentences text) (hpartition.symm ▸ hfuel)
  rw [hpartition] at hexcerpted
  refine ⟨parts.flatten, ?_, hexcerpted⟩
  rw [crmControlSemanticExcerpts, hparts, Option.map_some]

/-! ## Ids -/

theorem digits_inj {m n : ℕ} (h : JsonNumber.digits m = JsonNumber.digits n) : m = n := by
  have hnumber := congrArg number h
  rwa [JsonNumber.number_digits, JsonNumber.number_digits] at hnumber

/-- An id names its source and its part. -/
theorem excerptId_inj {index part index' part' : ℕ} (h : excerptId index part = excerptId index' part') :
    index = index' ∧ part = part' := by
  have hfree : ∀ n, 81 ∉ JsonNumber.digits n := fun n hmem => by
    have hdigit := JsonNumber.mem_digits hmem
    exact absurd hdigit (by decide)
  have hsplit : ∀ index part, excerptId index part =
      83 :: (JsonNumber.digits index ++ 81 :: JsonNumber.digits part) := fun index part => by
    rw [excerptId, sourceAlias, List.append_assoc, List.append_assoc]
    rfl
  rw [hsplit, hsplit, List.cons.injEq] at h
  obtain ⟨hindex, hpart⟩ := JoinedKey.append_cons_inj_left (hfree index) (hfree index') h.2
  exact ⟨digits_inj hindex, digits_inj hpart⟩

theorem mem_citationEntries {excerpts : List (List JsString)} {entry : JsString × ExcerptCitation} :
    entry ∈ citationEntries excerpts ↔ ∃ index quotes part quote, excerpts[index]? = some quotes ∧
      quotes[part]? = some quote ∧ entry = (excerptId index part, ⟨sourceAlias index, quote⟩) := by
  simp only [citationEntries, List.mem_flatten, List.mem_mapIdx]
  constructor
  · rintro ⟨_, ⟨index, hindex, rfl⟩, hentry⟩
    obtain ⟨part, hpart, rfl⟩ := List.mem_mapIdx.1 hentry
    exact ⟨index, _, part, _, List.getElem?_eq_getElem hindex, List.getElem?_eq_getElem hpart, rfl⟩
  · rintro ⟨index, quotes, part, quote, hquotes, hquote, rfl⟩
    obtain ⟨hindex, rfl⟩ := List.getElem?_eq_some_iff.1 hquotes
    obtain ⟨hpart, rfl⟩ := List.getElem?_eq_some_iff.1 hquote
    exact ⟨_, ⟨index, hindex, rfl⟩, List.mem_mapIdx.2 ⟨part, hpart, rfl⟩⟩

/-- The id of an excerpt leads to its source and its text. -/
theorem get_citation {excerpts : List (List JsString)} {quotes : List JsString} {index part : ℕ} {quote : JsString}
    (hquotes : excerpts[index]? = some quotes) (hquote : quotes[part]? = some quote) :
    JsMap.get? (excerptId index part) (JsMap.ofEntries (citationEntries excerpts)) =
      some ⟨sourceAlias index, quote⟩ := by
  refine JsMap.get?_ofEntries (mem_citationEntries.2 ⟨index, quotes, part, quote, hquotes, hquote, rfl⟩) ?_
  intro entry hentry hkey
  obtain ⟨index', quotes', part', quote', hquotes', hquote', rfl⟩ := mem_citationEntries.1 hentry
  obtain ⟨rfl, rfl⟩ := excerptId_inj hkey
  obtain rfl := Option.some.inj (hquotes'.symm.trans hquotes)
  obtain rfl := Option.some.inj (hquote'.symm.trans hquote)
  rfl

theorem drop_sourceAlias (index : ℕ) : (sourceAlias index).drop 1 = JsonNumber.digits index := rfl

theorem isAlias_sourceAlias (index : ℕ) : isAlias (sourceAlias index) = true := by
  have hfirst : (sourceAlias index).take 1 = js "S" := rfl
  rw [isAlias, hfirst, drop_sourceAlias, decide_eq_true rfl, Bool.true_and, Bool.or_eq_true]
  by_cases hzero : index = 0
  · subst hzero
    exact Or.inl (by decide)
  · refine Or.inr ?_
    have hdigits : (JsonNumber.digits index).all isDigit = true :=
      List.all_eq_true.2 fun c hc => JsonNumber.mem_digits hc
    simp [JsonNumber.digits_ne_nil, JsonNumber.head_digits hzero, hdigits]

/-- The reference to an excerpt of a source. -/
def referenceTo (source : Source) (quote : JsString) : JsValue :=
  .obj [(js "sourceId", .str source.id), (js "sourceHash", .str source.sourceHash), (js "quote", .str quote)]

theorem bindCitation_alias {request : Request} {source : Source} {index : ℕ} {quote : JsString}
    (hsource : request.sources[index]? = some source) :
    bindCitation request ⟨sourceAlias index, quote⟩ = some (referenceTo source quote) := by
  rw [bindCitation, if_pos (isAlias_sourceAlias index), drop_sourceAlias, JsonNumber.number_digits, hsource]
  rfl

/-! ## The citation check -/

variable {rt : Runtime} {request : Request} {pre : Preflight}

/-- A reference is read if its quotation is not too short. -/
theorem readCitation_referenceTo {source : Source} {quote : JsString} (hid : id source.id = true)
    (hshort : quote.length ≤ 2000) : readCitation (referenceTo source quote) =
      if 2 ≤ (trimmed quote).length then some ⟨source.id, source.sourceHash, quote⟩ else none := by
  have honly : (referenceTo source quote).onlyKeys ["sourceId", "sourceHash", "quote"] = true := by
    have hkeys : ([js "sourceId", js "sourceHash", js "quote"].all fun field =>
        ["sourceId", "sourceHash", "quote"].any fun key => js key = field) = true := by decide
    exact hkeys
  have hsourceId : (referenceTo source quote).get "sourceId" = .str source.id := rfl
  have hsourceHash : (referenceTo source quote).get "sourceHash" = .str source.sourceHash := rfl
  have hquote : (referenceTo source quote).get "quote" = .str quote := rfl
  have hobject : (referenceTo source quote).isObject = true := rfl
  have hreadId : (JsValue.str source.id).str?.filter id = some source.id := by
    rw [JsValue.str?, Option.filter_some, if_pos hid]
  have hreadQuote : ((JsValue.str quote).str?.filter fun s => 2 ≤ (trimmed s).length && s.length ≤ 2000) =
      if 2 ≤ (trimmed quote).length then some quote else none := by
    rw [JsValue.str?, Option.filter_some, decide_eq_true hshort, Bool.and_true]
    simp only [decide_eq_true_eq]
  rw [readCitation, hobject, honly, hsourceId, hsourceHash, hquote, hreadId, hreadQuote,
    if_neg (by decide)]
  split_ifs
  · rfl
  · rfl

/-- The check accepts a part of the source if two of its characters remain after trimming. -/
theorem readEvidence_referenceTo (hpre : preflight rt request = .ok pre) {source : Source}
    (hsource : source ∈ request.sources) {quote : JsString} (hpart : quote <:+: source.text)
    (hshort : quote.length ≤ 2000) (fact : Fact) (issues : List Issue) (witnesses : List Witness)
    (evidence : List Citation) :
    (∃ result, readEvidence request pre fact issues witnesses evidence [referenceTo source quote] = .ok result) ↔
      2 ≤ (trimmed quote).length := by
  obtain ⟨hnodup, hids⟩ := preflight_ids hpre
  rw [readEvidence, readCitation_referenceTo (hids source hsource) hshort]
  split_ifs with htwo
  · have hfind : request.sources.find? (fun candidate => candidate.id = source.id) = some source :=
      Scan.find?_name hnodup hsource
    have hgrounded : (decide (source.sourceHash = source.sourceHash) && includes source.text quote) = true := by
      rw [decide_eq_true rfl, includes_iff.2 hpart]
      rfl
    dsimp only
    rw [hfind, Option.filter_some, if_pos hgrounded]
    exact ⟨fun _ => htwo, fun _ => ⟨_, rfl⟩⟩
  · refine ⟨fun h => ?_, fun h => absurd h htwo⟩
    obtain ⟨_, h⟩ := h
    cases h

/-! ## Coverage and citation -/

/-- The excerpts of all sources lead to the citations. -/
theorem promptCitations_spec {sentences : JsString → List JsString}
    (hpartition : ∀ text, (sentences text).flatten = text) {fuel : ℕ}
    (hfuel : ∀ source ∈ request.sources, source.text.length < fuel) :
    ∃ excerpts, promptCitations sentences fuel request = some (JsMap.ofEntries (citationEntries excerpts)) ∧
      ∀ (index : ℕ) (source : Source) (quotes : List JsString), request.sources[index]? = some source →
        crmControlSemanticExcerpts sentences fuel source.text = some quotes → excerpts[index]? = some quotes := by
  have hall : ∀ sources : List Source, (∀ source ∈ sources, source.text.length < fuel) →
      ∃ excerpts, (sources.mapM fun source => crmControlSemanticExcerpts sentences fuel source.text) = some excerpts ∧
        ∀ (index : ℕ) (source : Source) (quotes : List JsString), sources[index]? = some source →
          crmControlSemanticExcerpts sentences fuel source.text = some quotes → excerpts[index]? = some quotes := by
    intro sources
    induction sources with
    | nil => exact fun _ => ⟨[], rfl, fun _ _ _ h => nomatch h⟩
    | cons first sources ih =>
      intro hlen
      obtain ⟨quotes, hquotes, -⟩ := excerpts_spec (hpartition first.text) (hlen first List.mem_cons_self)
      obtain ⟨excerpts, hexcerpts, hrest⟩ := ih fun source hsource => hlen source (List.mem_cons_of_mem _ hsource)
      refine ⟨quotes :: excerpts, ?_, fun index source quotes' hsource hquotes' => ?_⟩
      · rw [List.mapM_cons, hquotes, hexcerpts]
        rfl
      · cases index with
        | zero =>
          obtain rfl := Option.some.inj hsource
          exact hquotes.symm.trans hquotes'
        | succ index => exact hrest index source quotes' hsource hquotes'
  obtain ⟨excerpts, hexcerpts, hsources⟩ := hall request.sources hfuel
  refine ⟨excerpts, ?_, hsources⟩
  rw [promptCitations, hexcerpts, Option.map_some]

/-- The excerpts of a text are its short parts, and every character lies in one of them. The analyzer may cite an
excerpt exactly if two characters of it remain after trimming. -/
theorem excerpts_cover_and_cite (sentences : JsString → List JsString)
    (hpartition : ∀ text, (sentences text).flatten = text) :
    (∀ text fuel, text.length < fuel → ∃ excerpts, crmControlSemanticExcerpts sentences fuel text = some excerpts ∧
      (∀ excerpt ∈ excerpts, excerpt <:+: text ∧ excerpt.length ≤ 2000) ∧
        ∀ i < text.length, ∃ excerpt ∈ excerpts, At text excerpt i) ∧
      ∀ rt request pre fuel, preflight rt request = .ok pre →
        (∀ source ∈ request.sources, source.text.length < fuel) →
          ∃ citations, promptCitations sentences fuel request = some citations ∧
            ∀ (index : ℕ) (source : Source) excerpts (part : ℕ) excerpt, request.sources[index]? = some source →
              crmControlSemanticExcerpts sentences fuel source.text = some excerpts →
                excerpts[part]? = some excerpt →
                  ∃ reference, bindExcerpt request citations (excerptId index part) = some reference ∧
                    reference.get "quote" = .str excerpt ∧
                    ∀ fact issues witnesses evidence,
                      (∃ result, readEvidence request pre fact issues witnesses evidence [reference] = .ok result) ↔
                        2 ≤ (trimmed excerpt).length := by
  constructor
  · intro text fuel hfuel
    obtain ⟨excerpts, hexcerpts, h⟩ := excerpts_spec (hpartition text) hfuel
    exact ⟨excerpts, hexcerpts, fun excerpt hmem => ⟨h.part excerpt hmem, h.short excerpt hmem⟩,
      fun i hi => h.covered i (Nat.zero_le i) hi⟩
  · intro rt request pre fuel hpre hfuel
    obtain ⟨excerpts, hcitations, hsources⟩ := promptCitations_spec hpartition hfuel
    refine ⟨_, hcitations, fun index source quotes part excerpt hsource hquotes hexcerpt => ?_⟩
    have hmem := List.mem_of_getElem? hsource
    obtain ⟨quotes', hquotes', h⟩ := excerpts_spec (hpartition source.text) (hfuel source hmem)
    obtain rfl := Option.some.inj (hquotes.symm.trans hquotes')
    have hquote := List.mem_of_getElem? hexcerpt
    refine ⟨referenceTo source excerpt, ?_, rfl, ?_⟩
    · rw [bindExcerpt, get_citation (hsources index source quotes hsource hquotes) hexcerpt, Option.bind_some,
        bindCitation_alias hsource]
    · exact readEvidence_referenceTo hpre hmem (h.part excerpt hquote) (h.short excerpt hquote)

namespace Sample

def note : JsString := js "Клиент в отпуске."

/-- A request with one note of the manager. -/
def noteRequest (note : JsString) : Request :=
  { taskRequest with
    check := .proposalNote
    sources := [{
      id := js "source-1", sourceHash := runtime.textHash note, dealId := js "deal-1", ownerId := js "manager-1"
      subjectId := none, kind := .managerNote, actor := .manager, actorId := some (js "manager-1")
      direction := .internal, text := note, createdAt := some (js "2026-09-22T10:00:00+03:00") }] }

/-- A segmenter that gets one sentence. -/
def oneSentence (text : JsString) : List JsString := [text]

end Sample

/-- A note of one sentence. -/
theorem excerpts_cover_and_cite_sample :
    ∃ pre, preflight Sample.runtime (Sample.noteRequest Sample.note) = .ok pre ∧
      ∃ citations, promptCitations Sample.oneSentence 100 (Sample.noteRequest Sample.note) = some citations ∧
        ∃ reference, bindExcerpt (Sample.noteRequest Sample.note) citations (excerptId 0 0) =
            some reference ∧
          ∃ result, readEvidence (Sample.noteRequest Sample.note) pre .transferReason [] [] [] [reference] =
            .ok result := by
  have hpartition : ∀ text, (Sample.oneSentence text).flatten = text := fun text => List.append_nil text
  have hok : (preflight Sample.runtime (Sample.noteRequest Sample.note)).toOption.isSome = true := by
    decide +kernel
  have htwo : 2 ≤ (trimmed Sample.note).length := by decide +kernel
  have hlen : Sample.note.length < 100 := by decide +kernel
  cases hpre : preflight Sample.runtime (Sample.noteRequest Sample.note) with
  | error stop =>
    rw [hpre] at hok
    exact nomatch hok
  | ok pre =>
    obtain ⟨citations, hcitations, hcite⟩ := (excerpts_cover_and_cite Sample.oneSentence hpartition).2 Sample.runtime
      (Sample.noteRequest Sample.note) pre 100 hpre fun source hsource => by
        obtain rfl := List.mem_singleton.1 hsource
        exact hlen
    obtain ⟨reference, hreference, -, haccepted⟩ := hcite 0 _ [Sample.note] 0 _ rfl rfl rfl
    exact ⟨pre, rfl, citations, hcitations, reference, hreference, (haccepted .transferReason [] [] []).2 htwo⟩

/-- A note of one character is offered as an excerpt, and refused as a citation. -/
theorem excerpts_refused :
    ¬ ∀ sentences : JsString → List JsString, (∀ text, (sentences text).flatten = text) →
      ∀ rt request pre fuel, preflight rt request = .ok pre →
        ∀ source ∈ request.sources, ∀ excerpts,
          crmControlSemanticExcerpts sentences fuel source.text = some excerpts →
            ∀ excerpt ∈ excerpts, ∀ fact issues witnesses evidence,
              ∃ result, readEvidence request pre fact issues witnesses evidence [referenceTo source excerpt] =
                .ok result := by
  intro hall
  have hok : (preflight Sample.runtime (Sample.noteRequest (js "1"))).toOption.isSome = true := by decide +kernel
  have hshort : ¬ 2 ≤ (trimmed (js "1")).length := by decide
  cases hpre : preflight Sample.runtime (Sample.noteRequest (js "1")) with
  | error stop =>
    rw [hpre] at hok
    exact nomatch hok
  | ok pre =>
    have haccepted := hall Sample.oneSentence (fun text => List.append_nil text) Sample.runtime
      (Sample.noteRequest (js "1")) pre 2 hpre _ (List.mem_singleton_self _) [js "1"] rfl (js "1")
      (List.mem_singleton_self _) .transferReason [] [] []
    exact hshort ((readEvidence_referenceTo hpre (List.mem_singleton_self _) List.infix_rfl (by decide)
      .transferReason [] [] []).1 haccepted)

end AmoAnalytics.CrmControl.Semantic
