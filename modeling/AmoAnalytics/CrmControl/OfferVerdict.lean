import AmoAnalytics.CrmControl.OfferValidation

/-!
# What a verdict about an offer rests on

A budget is compared, and a proposal file accepted, only over a verified complete history, with the one
latest event of it and with what is grounded in that event. The lemmas follow the checks from the
decimals and the citations up to the selection.
-/

namespace AmoAnalytics.CrmControl.Offer

open JsText

variable {textHash : JsString → JsString} {input : ValidationInput}

/-! ## Decimals -/

/-- The text denotes the number: digits, or digits, a point and a fraction. -/
structure Denotes (s : JsString) (q : ℚ) : Prop where
  parts : ∃ whole fraction : JsString, whole.all isDigit = true ∧ fraction.all isDigit = true ∧
    (s = whole ∧ fraction = [] ∨ s = whole ++ js "." ++ fraction) ∧
    q = number whole + number fraction / 10 ^ fraction.length

theorem decimalParts_spec {s whole rawFraction : JsString}
    (h : decimalParts s = some (whole, rawFraction)) :
    whole.all isDigit = true ∧ rawFraction.all isDigit = true ∧
      (s = whole ∧ rawFraction = [] ∨ s = whole ++ js "." ++ rawFraction) := by
  unfold decimalParts at h
  dsimp only at h
  have hsplit := List.takeWhile_append_dropWhile (p := fun c => !oneOf "." c) (l := s)
  have hhead := List.head?_dropWhile_not (fun c => !oneOf "." c) s
  generalize s.takeWhile (fun c => !oneOf "." c) = w at h hsplit
  generalize s.dropWhile (fun c => !oneOf "." c) = rest at h hsplit hhead
  split_ifs at h with hform
  obtain ⟨rfl, rfl⟩ := Prod.mk.inj (Option.some.inj h)
  rw [Bool.and_eq_true, Bool.or_eq_true, Bool.or_eq_true] at hform
  have hwhole : w.all isDigit = true := by
    rcases hform.1 with hzero | hdigits
    · rw [of_decide_eq_true hzero]
      decide
    · simp only [Bool.and_eq_true] at hdigits
      exact hdigits.1.2
  rcases rest with _ | ⟨c, tail⟩
  · rw [List.append_nil] at hsplit
    exact ⟨hwhole, rfl, Or.inl ⟨hsplit.symm, rfl⟩⟩
  · have hc : c = 46 := by
      simp only [List.head?_cons, Bool.not_eq_false'] at hhead
      simpa [oneOf, js, encode] using hhead
    subst hc
    refine ⟨hwhole, ?_, Or.inr ?_⟩
    · rcases hform.2 with hnil | hdigits
      · exact absurd (of_decide_eq_true hnil) (List.cons_ne_nil _ _)
      · simp only [Bool.and_eq_true] at hdigits
        exact hdigits.2
    · rw [← hsplit, List.append_assoc]
      rfl

/-- A decimal is the number that its text denotes. -/
theorem denotes_decimal {s : JsString} {d : ParsedDecimal} (h : decimal s = some d) :
    Denotes s d.toDecimal.value := by
  obtain ⟨⟨whole, rawFraction⟩, hparts, rfl⟩ := Option.map_eq_some_iff.1 h
  obtain ⟨hwhole, hfraction, hs⟩ := decimalParts_spec hparts
  refine ⟨whole, rawFraction, hwhole, hfraction, hs, ?_⟩
  rw [← number_rdropWhile]
  show ((number (whole ++ _) : ℕ) : ℚ) / 10 ^ _ = _
  rw [number_append]
  push_cast
  rw [add_div, mul_div_assoc, div_self (pow_ne_zero _ (by norm_num)), mul_one]

theorem decimalEqual_iff (left right : ParsedDecimal) :
    decimalEqual (some left) (some right) = true ↔ left.toDecimal.value = right.toDecimal.value :=
  decide_eq_true_iff.trans
    (Decimal.scaled_eq_iff _ _ (le_max_left _ _) (le_max_right _ _))

/-! ## Tokens and citations -/

/-- The token stands in the text, on its own. -/
def OccursIn (text token : JsString) (numeric : Bool) : Prop :=
  ∃ at' : ℕ, slice text at' (at' + token.length) = token ∧
    standsAlone numeric (text.take at') (text.drop (at' + token.length)) = true

theorem occursIn_of_grounded {text token : JsString} {start : JsNumber} {numeric : Bool}
    (h : tokenGrounded text token start numeric = true) : OccursIn text token numeric := by
  unfold tokenGrounded at h
  split at h
  · cases h
  · rename_i start _
    simp only [Bool.and_eq_true, decide_eq_true_eq] at h
    exact ⟨start.toNat, h.1.2, h.2⟩

/-- The token of a citation occurs, on its own, in verified text that belongs to the event. -/
structure Grounded (textHash : JsString → JsString) (input : ValidationInput) (latest : OutgoingOffer)
    (citation : Citation) (token : JsString) (numeric : Bool) (unit : TextUnit) : Prop where
  mem : unit ∈ input.textUnits
  only : ∀ other ∈ input.textUnits, other.id = citation.unitId → other = unit
  named : unit.id = citation.unitId
  scope : sameScope unit.scope input.scope = true
  source : unit.outgoingSourceId = latest.sourceId
  quality : unit.quality = .verifiedText
  hashed : unit.textHash = textHash unit.text ∧ citation.textHash = unit.textHash
  quoted : citation.quote <:+: unit.text
  occurs : OccursIn unit.text token numeric
  inQuote : token <:+: citation.quote
  artifact : citation.artifactSha256 = unit.artifactSha256 ∧
    (unit.locator = .message ∧ unit.artifactSha256 = none ∨
      ∃ file ∈ latest.files, file.sha256 = unit.artifactSha256)

/-- The one unit that a valid citation names. -/
theorem citationValid_spec {citation : Citation} {latest : OutgoingOffer}
    (h : citationValid textHash citation input latest = true) :
    ∃ (start stop : ℤ) (unit : TextUnit),
      (input.textUnits.filter fun unit => unit.id = citation.unitId) = [unit] ∧
      unitCites textHash citation start.toNat stop.toNat input latest unit = true := by
  unfold citationValid at h
  split at h
  · rename_i start stop _ _
    obtain ⟨-, h⟩ := Bool.and_eq_true_iff.1 h
    split at h
    · rename_i unit hunit
      exact ⟨start, stop, unit, hunit, h⟩
    · cases h
  · cases h

theorem citedTokenGrounded_spec {citation : Citation} {token : JsString} {tokenStart : JsNumber}
    {numeric : Bool} (h : citedTokenGrounded citation token tokenStart numeric input = true) :
    token <:+: citation.quote ∧
      ∃ unit, (input.textUnits.find? fun unit => unit.id = citation.unitId) = some unit ∧
        OccursIn unit.text token numeric := by
  unfold citedTokenGrounded at h
  split at h
  · cases h
  · rename_i offset _
    simp only [Bool.and_eq_true, decide_eq_true_eq, Option.any_eq_true] at h
    obtain ⟨⟨-, hslice⟩, unit, hunit, hgrounded⟩ := h
    refine ⟨?_, unit, hunit, occursIn_of_grounded hgrounded⟩
    rw [← hslice]
    exact isInfix_slice _ _ _

theorem grounded_of_valid {citation : Citation} {latest : OutgoingOffer} {token : JsString}
    {tokenStart : JsNumber} {numeric : Bool} (hvalid : citationValid textHash citation input latest = true)
    (htoken : citedTokenGrounded citation token tokenStart numeric input = true) :
    ∃ unit, Grounded textHash input latest citation token numeric unit := by
  obtain ⟨start, stop, unit, hunits, hcites⟩ := citationValid_spec hvalid
  obtain ⟨hinQuote, found, hfound, hoccurs⟩ := citedTokenGrounded_spec htoken
  have hmem : ∀ other, other ∈ input.textUnits ∧ other.id = citation.unitId ↔ other = unit := by
    intro other
    rw [← List.mem_singleton (a := other), ← hunits, List.mem_filter, decide_eq_true_iff]
  -- The first unit of that name is the only one.
  have hsame : found = unit :=
    (hmem found).1 ⟨List.mem_of_find?_eq_some hfound, by simpa using List.find?_some hfound⟩
  subst hsame
  obtain ⟨hin, hnamed⟩ := (hmem found).2 rfl
  simp only [unitCites, Bool.and_eq_true, decide_eq_true_eq] at hcites
  obtain ⟨⟨⟨⟨⟨⟨⟨⟨⟨⟨⟨⟨⟨hscope, hsource⟩, -⟩, hquality⟩, -⟩, -⟩, hhash⟩, hciteHash⟩, hslice⟩, -⟩, -⟩, -⟩,
    hartifact⟩, hbody⟩ := hcites
  refine ⟨found, hin, fun other ho hid => (hmem other).1 ⟨ho, hid⟩, hnamed, hscope, hsource, hquality,
    ⟨hhash, hciteHash.symm⟩, hslice ▸ isInfix_slice _ _ _, hoccurs, hinQuote, hartifact.symm, ?_⟩
  split_ifs at hbody with hmessage
  · exact Or.inl ⟨hmessage, of_decide_eq_true hbody⟩
  · simp only [Bool.and_eq_true, List.any_eq_true, decide_eq_true_eq] at hbody
    exact Or.inr hbody.2

/-! ## The history and its latest event -/

/-- The history is verified and complete from the creation of the deal to the observation. -/
structure CoveredHistory (input : ValidationInput) (created observed : ℤ) : Prop where
  creation : instant input.dealCreatedAt = some created
  observation : instant input.observedAt = some observed
  ordered : created ≤ observed
  scope : sameScope input.history.scope input.scope = true
  verified : input.history.status = .verifiedComplete
  classified : input.history.offerClassificationComplete = true
  since : ∃ since, instant input.history.since = some since ∧ since ≤ created
  through : ∃ through, instant input.history.through = some through ∧ observed ≤ through

/-- What the code admits as an input at all. -/
structure Admitted (input : ValidationInput) : Prop where
  version : input.schemaVersion = 1
  scope : scopeValid input.scope = true
  units : input.textUnits.length ≤ 128
  offers : input.history.offers.length ≤ 4096

/-- Every event of the history is eligible and told apart by its source, and all others were sent
before this one. -/
structure LatestOffer (input : ValidationInput) (created observed : ℤ) (latest : OutgoingOffer) : Prop where
  mem : latest ∈ input.history.offers
  eligible : ∀ event ∈ input.history.offers, (eligibleAt input created observed event).isSome
  distinct : (input.history.offers.map (·.sourceId)).Nodup
  later : ∀ event ∈ input.history.offers, event ≠ latest →
    ∃ before at', instant event.sentAt = some before ∧ instant latest.sentAt = some at' ∧ before < at'

/-- The selection names the event. -/
structure Selects (input : ValidationInput) (latest : OutgoingOffer) (selected : SelectedOffer) : Prop where
  chosen : input.selectedLatestOffer = some selected
  scope : sameScope selected.scope input.scope = true
  source : selected.sourceId = latest.sourceId

theorem timedOffers_spec {created observed : ℤ} {offers : List OutgoingOffer} :
    ∀ {sourceIds : List JsString} {events : List TimedOffer},
      timedOffers input created observed sourceIds offers = some events →
        events.map (·.event) = offers ∧ (offers.map (·.sourceId)).Nodup ∧
          (∀ event ∈ offers, event.sourceId ∉ sourceIds) ∧
          ∀ e ∈ events, eligibleAt input created observed e.event = some e.at' := by
  induction offers with
  | nil =>
    intro sourceIds events h
    cases h
    exact ⟨rfl, List.nodup_nil, nofun, nofun⟩
  | cons event offers ih =>
    intro sourceIds events h
    rw [timedOffers] at h
    rcases hat : eligibleAt input created observed event with _ | at'
    · rw [hat] at h
      cases h
    · rw [hat] at h
      dsimp only at h
      split_ifs at h with hseen
      obtain ⟨rest, hrest, rfl⟩ := Option.map_eq_some_iff.1 h
      obtain ⟨hevents, hnodup, hfresh, helig⟩ := ih hrest
      refine ⟨by rw [List.map_cons, hevents], List.nodup_cons.2 ⟨fun hmem => ?_, hnodup⟩, ?_, ?_⟩
      · obtain ⟨other, hother, hid⟩ := List.mem_map.1 hmem
        exact hfresh other hother (hid ▸ List.mem_cons_self)
      · rintro other hother
        rcases List.mem_cons.1 hother with rfl | hother
        · simpa using hseen
        · exact fun hid => hfresh other hother (List.mem_cons_of_mem _ hid)
      · rintro e he
        rcases List.mem_cons.1 he with rfl | he
        · exact hat
        · exact helig e he

theorem eligibleAt_instant {created observed at' : ℤ} {event : OutgoingOffer}
    (h : eligibleAt input created observed event = some at') : instant event.sentAt = some at' :=
  (Option.filter_eq_some_iff.1 h).1

/-- The head of the sorted events is the latest one, unless the next has its time. -/
theorem latestOffer_of_head {created observed : ℤ} {events others : List TimedOffer} {latest : TimedOffer}
    (hevents : timedOffers input created observed [] input.history.offers = some events)
    (hsorted : (events.insertionSort fun a b => b.at' ≤ a.at') = latest :: others)
    (hnext : (others.head?.any fun other => latest.at' = other.at') = false) :
    LatestOffer input created observed latest.event := by
  obtain ⟨hmap, hnodup, -, helig⟩ := timedOffers_spec hevents
  have hperm : (latest :: others).Perm events := hsorted ▸ List.perm_insertionSort _ events
  have horder : (latest :: others).Pairwise fun a b => b.at' ≤ a.at' :=
    hsorted ▸ List.pairwise_insertionSort (fun a b : TimedOffer => b.at' ≤ a.at') events
  have hmem : ∀ e ∈ latest :: others, e.event ∈ input.history.offers := fun e he =>
    hmap ▸ List.mem_map_of_mem (hperm.mem_iff.1 he)
  -- The second event is strictly earlier than the first, so all others are.
  have hlater : ∀ e ∈ others, e.at' < latest.at' := by
    rcases others with _ | ⟨second, others⟩
    · exact nofun
    · obtain ⟨hfirst, htail⟩ := List.pairwise_cons.1 horder
      have hsecond : second.at' < latest.at' := by
        refine lt_of_le_of_ne (hfirst second List.mem_cons_self) fun heq => ?_
        simp [heq] at hnext
      intro e he
      rcases List.mem_cons.1 he with rfl | he
      · exact hsecond
      · exact lt_of_le_of_lt ((List.pairwise_cons.1 htail).1 e he) hsecond
  refine ⟨hmem latest List.mem_cons_self, fun event hevent => ?_, hnodup, fun event hevent hne => ?_⟩
  all_goals
    rw [← hmap] at hevent
    obtain ⟨e, he, rfl⟩ := List.mem_map.1 hevent
  · rw [helig e he]
    rfl
  · have hother : e ∈ others := by
      rcases List.mem_cons.1 (hperm.mem_iff.2 he) with rfl | hother
      · exact absurd rfl hne
      · exact hother
    have hlatest := helig latest (hperm.mem_iff.1 List.mem_cons_self)
    exact ⟨e.at', latest.at', eligibleAt_instant (helig e he), eligibleAt_instant hlatest,
      hlater e hother⟩

/-! ## The way to the two rules -/

/-- What the checks before the two rules lead to. -/
inductive Outcome (textHash : JsString → JsString) (input : ValidationInput) : Validation → Prop
  | refused {issue : String} (hissue : issue ≠ "") : Outcome textHash input (both .unknown issue)
  | noOffer {created observed : ℤ} (hadmitted : Admitted input)
      (hcovered : CoveredHistory input created observed) (hoffers : input.history.offers = [])
      (hselected : input.selectedLatestOffer = none) : Outcome textHash input (both .na "NO_SENT_OFFER")
  | compared {created observed : ℤ} {latest : OutgoingOffer} {selected : SelectedOffer}
      (hcovered : CoveredHistory input created observed) (hlatest : LatestOffer input created observed latest)
      (hselects : Selects input latest selected) :
      Outcome textHash input {
        offerBudget := offerBudget textHash input latest selected.amount
        proposalFile := proposalFile input latest selected.proposalFile }

theorem validateSelected_outcome {created observed : ℤ} {events : List TimedOffer}
    (hadmitted : Admitted input) (hcovered : CoveredHistory input created observed)
    (hevents : timedOffers input created observed [] input.history.offers = some events) :
    Outcome textHash input
      (validateSelected textHash input (events.insertionSort fun a b => b.at' ≤ a.at')) := by
  rcases hsorted : events.insertionSort fun a b => b.at' ≤ a.at' with _ | ⟨latest, others⟩
  · rw [hsorted, validateSelected]
    have hnil : events = [] := by
      have hperm := List.perm_insertionSort (fun a b : TimedOffer => b.at' ≤ a.at') events
      rw [hsorted] at hperm
      exact hperm.nil_eq.symm
    have hoffers : input.history.offers = [] := by
      rw [← (timedOffers_spec hevents).1, hnil, List.map_nil]
    split_ifs with hselected
    · exact .noOffer hadmitted hcovered hoffers hselected
    · exact .refused (by decide)
  · rw [hsorted, validateSelected]
    split_ifs with hnext
    · exact .refused (by decide)
    · have hlatest := latestOffer_of_head hevents hsorted (Bool.eq_false_iff.2 hnext)
      split
      · exact .refused (by decide)
      · rename_i selected hselected
        obtain ⟨hchosen, hchecks⟩ := Option.filter_eq_some_iff.1 hselected
        rw [Bool.and_eq_true, decide_eq_true_eq] at hchecks
        exact .compared hcovered hlatest ⟨hchosen, hchecks.1, hchecks.2⟩

theorem validate_outcome (textHash : JsString → JsString) (input : ValidationInput) :
    Outcome textHash input (validateCrmControlOffer textHash input) := by
  unfold validateCrmControlOffer
  split_ifs with hinput
  · exact .refused (by decide)
  · push Not at hinput
    split
    · rename_i observed created since through hobserved hcreated hsince hthrough
      split_ifs with hscope hhistory
      · exact .refused (by decide)
      · exact .refused (by decide)
      · push Not at hscope hhistory
        have hadmitted : Admitted input := ⟨hinput.1, hinput.2.1, hinput.2.2.1, hinput.2.2.2⟩
        have hcovered : CoveredHistory input created observed :=
          ⟨hcreated, hobserved, hscope.1, hscope.2, hhistory.1, hhistory.2.1, ⟨since, hsince, hhistory.2.2.1⟩,
            ⟨through, hthrough, hhistory.2.2.2⟩⟩
        split
        · exact .refused (by decide)
        · rename_i events hevents
          exact validateSelected_outcome hadmitted hcovered hevents
    · exact .refused (by decide)

/-! ## The budget -/

/-- A total and a budget that may be compared: both are exact decimals in one currency, and the total
and the currency are quoted from one part of the event. -/
structure Compared (textHash : JsString → JsString) (input : ValidationInput) (latest : OutgoingOffer)
    (amount : SelectedAmount) (total budget : ℚ) : Prop where
  status : amount.status = .verifiedUnambiguous
  offered : Denotes amount.decimal total
  budgeted : ∃ text, input.budget.decimal = some text ∧ Denotes text budget
  currency : input.budget.currency = some amount.currency
  quoted : ∃ quoted, quotedDecimal amount.amountToken = some quoted ∧ quoted.toDecimal.value = total
  grounded : ∃ unit, Grounded textHash input latest amount.amountCitation amount.amountToken true unit
  currencyToken : currencyToken amount.currencyToken = some amount.currency
  currencyGrounded :
    ∃ unit, Grounded textHash input latest amount.currencyCitation amount.currencyToken false unit
  artifact : amount.amountCitation.artifactSha256 = amount.currencyCitation.artifactSha256

/-- What the budget rule returns. -/
inductive BudgetOutcome (textHash : JsString → JsString) (input : ValidationInput) (latest : OutgoingOffer)
    (amount : Option SelectedAmount) (result : RuleValidation) : Prop
  | unverified (hstatus : result.status = .unknown) (hissues : result.issues ≠ [])
  | compared (selected : SelectedAmount) (total budget : ℚ) (hamount : amount = some selected)
      (hcompared : Compared textHash input latest selected total budget)
      (hstatus : result.status = if total = budget then .pass else .fail)
      (hissues : result.status = .fail → result.issues ≠ [])

theorem compared_of_grounded {latest : OutgoingOffer} {amount : SelectedAmount} {total : ParsedDecimal}
    (h : amountGrounded textHash input latest amount total = true) {text : JsString}
    {budget : ParsedDecimal} (hstatus : amount.status = .verifiedUnambiguous)
    (htotal : decimal amount.decimal = some total) (htext : input.budget.decimal = some text)
    (hbudget : decimal text = some budget) (hcurrency : some amount.currency = input.budget.currency) :
    Compared textHash input latest amount total.toDecimal.value budget.toDecimal.value := by
  simp only [amountGrounded, Bool.and_eq_true, decide_eq_true_eq] at h
  obtain ⟨⟨⟨⟨⟨⟨hvalid, hcurrencyValid⟩, hartifact⟩, htoken⟩, hequal⟩, hcurrencyGrounded⟩, hcode⟩ := h
  refine ⟨hstatus, denotes_decimal htotal, ⟨text, htext, denotes_decimal hbudget⟩, hcurrency.symm, ?_,
    grounded_of_valid hvalid htoken, hcode, grounded_of_valid hcurrencyValid hcurrencyGrounded, hartifact⟩
  rcases hquoted : quotedDecimal amount.amountToken with _ | quoted
  · rw [hquoted] at hequal
    cases hequal
  · rw [hquoted] at hequal
    exact ⟨quoted, rfl, ((decimalEqual_iff _ _).1 hequal).symm⟩

theorem offerBudget_outcome (textHash : JsString → JsString) (input : ValidationInput)
    (latest : OutgoingOffer) (amount : Option SelectedAmount) :
    BudgetOutcome textHash input latest amount (offerBudget textHash input latest amount) := by
  unfold offerBudget
  rcases amount with _ | amount
  · exact .unverified rfl (List.cons_ne_nil _ _)
  · dsimp only
    rcases hstatus : amount.status with _ | _ | _
    · dsimp only
      split
      · rename_i total budget htotal hbudget
        split_ifs with hcurrency hgrounded hequal
        · exact .unverified rfl (List.cons_ne_nil _ _)
        · exact .unverified rfl (List.cons_ne_nil _ _)
        all_goals
          obtain ⟨text, htext, hparsed⟩ := Option.bind_eq_some_iff.1 hbudget
          simp only [Bool.or_eq_true, Bool.not_eq_true', decide_eq_true_eq, not_or,
            Bool.not_eq_false, ne_eq, not_not] at hcurrency hgrounded
          have hcompared := compared_of_grounded hgrounded hstatus htotal htext hparsed hcurrency.2
          refine .compared amount _ _ rfl hcompared ?_ ?_
        · rw [if_pos ((decimalEqual_iff total budget).1 hequal)]
          rfl
        · exact nofun
        · rw [if_neg fun heq => hequal ((decimalEqual_iff total budget).2 heq)]
          rfl
        · exact fun _ => List.cons_ne_nil _ _
      · exact .unverified rfl (List.cons_ne_nil _ _)
    · exact .unverified rfl (List.cons_ne_nil _ _)
    · exact .unverified rfl (List.cons_ne_nil _ _)

/-! ## The proposal file -/

/-- The selected file is a file of the event. -/
structure Sent (latest : OutgoingOffer) (expected : File) : Prop where
  same : ∃ file ∈ latest.files, fileMatch file expected = .same
  unambiguous : ∀ file ∈ latest.files, fileMatch file expected ≠ .conflict

/-- What the file rule returns. -/
inductive FileOutcome (input : ValidationInput) (latest : OutgoingOffer) (expected : Option File)
    (result : RuleValidation) : Prop
  | unverified (hstatus : result.status = .unknown) (hissues : result.issues ≠ [])
  | differs (file : File) (hexpected : expected = some file) (hsent : Sent latest file)
      (hread : input.proposalField.readComplete = true)
      (hfield : input.proposalField.files = [] ∨
        ∃ other ∈ input.proposalField.files, fileMatch other file = .different)
      (hstatus : result.status = .fail) (hissues : result.issues ≠ [])
  | holds (file : File) (hexpected : expected = some file) (hsent : Sent latest file)
      (hread : input.proposalField.readComplete = true) (hfield : input.proposalField.files ≠ [])
      (hsame : ∀ other ∈ input.proposalField.files, fileMatch other file = .same)
      (hstatus : result.status = .pass)

theorem proposalField_outcome {latest : OutgoingOffer} {expected : File} (hsent : Sent latest expected) :
    FileOutcome input latest (some expected) (proposalField input.proposalField latest expected) := by
  unfold proposalField
  have hmatching : ∀ m, (input.proposalField.files.map fun file => fileMatch file expected).contains m = true ↔
      ∃ file ∈ input.proposalField.files, fileMatch file expected = m := by
    intro m
    rw [List.contains_iff_mem, List.mem_map]
  split_ifs with hread
  · exact .unverified rfl (List.cons_ne_nil _ _)
  · simp only [Bool.or_eq_true, Bool.not_eq_true', not_or, Bool.not_eq_false] at hread
    dsimp only
    split_ifs with hconflict hempty hdifferent hunresolved
    · exact .unverified rfl (List.cons_ne_nil _ _)
    · exact .differs expected rfl hsent hread.1.1 (Or.inl (List.map_eq_nil_iff.1 hempty)) rfl (List.cons_ne_nil _ _)
    · exact .differs expected rfl hsent hread.1.1 (Or.inr ((hmatching _).1 hdifferent)) rfl (List.cons_ne_nil _ _)
    · exact .unverified rfl (List.cons_ne_nil _ _)
    · rw [hmatching] at hconflict hdifferent hunresolved
      refine .holds expected rfl hsent hread.1.1 (fun hnil => hempty (by rw [hnil, List.map_nil])) ?_ rfl
      intro other hother
      rcases hmatch : fileMatch other expected with _ | _ | _ | _
      · rfl
      · exact absurd ⟨other, hother, hmatch⟩ hdifferent
      · exact absurd ⟨other, hother, hmatch⟩ hunresolved
      · exact absurd ⟨other, hother, hmatch⟩ hconflict

theorem proposalFile_outcome (input : ValidationInput) (latest : OutgoingOffer) (expected : Option File) :
    FileOutcome input latest expected (proposalFile input latest expected) := by
  unfold proposalFile
  split
  · exact .unverified rfl (List.cons_ne_nil _ _)
  · rename_i expected hvalid
    obtain ⟨rfl, -⟩ := Option.filter_eq_some_iff.1 hvalid
    dsimp only
    split_ifs with hconflict hsame
    · exact .unverified rfl (List.cons_ne_nil _ _)
    · refine proposalField_outcome ⟨?_, fun file hfile hmatch => hconflict ?_⟩
      · rw [List.contains_iff_mem, List.mem_map] at hsame
        exact hsame
      · rw [List.contains_iff_mem, List.mem_map]
        exact ⟨file, hfile, hmatch⟩
    · exact .unverified rfl (List.cons_ne_nil _ _)

/-! ## The theorem -/

/-- The event that is compared: the latest one of a covered history, and the selected one. -/
structure ComparedEvent (input : ValidationInput) (latest : OutgoingOffer) (selected : SelectedOffer) :
    Prop where
  covered : ∃ created observed, CoveredHistory input created observed ∧
    LatestOffer input created observed latest
  selects : Selects input latest selected

/-- A covered history without an offer, and none selected. -/
structure NoSentOffer (input : ValidationInput) : Prop where
  admitted : Admitted input
  covered : ∃ created observed, CoveredHistory input created observed
  offers : input.history.offers = []
  selected : input.selectedLatestOffer = none

theorem validate_noSentOffer (h : NoSentOffer input) :
    validateCrmControlOffer textHash input = both .na "NO_SENT_OFFER" := by
  obtain ⟨created, observed, hcovered⟩ := h.covered
  obtain ⟨since, hsince, hbefore⟩ := hcovered.since
  obtain ⟨through, hthrough, hafter⟩ := hcovered.through
  have hinput : ¬(input.schemaVersion ≠ 1 ∨ ¬scopeValid input.scope ∨ 128 < input.textUnits.length ∨
      4096 < input.history.offers.length) := by
    push Not
    exact ⟨h.admitted.version, h.admitted.scope, h.admitted.units, h.admitted.offers⟩
  have hscope : ¬(observed < created ∨ ¬sameScope input.history.scope input.scope) := by
    push Not
    exact ⟨hcovered.ordered, hcovered.scope⟩
  have hhistory : ¬(input.history.status ≠ .verifiedComplete ∨ ¬input.history.offerClassificationComplete ∨
      created < since ∨ through < observed) := by
    push Not
    exact ⟨hcovered.verified, hcovered.classified, hbefore, hafter⟩
  rw [validateCrmControlOffer, if_neg hinput, hcovered.creation, hcovered.observation, hsince, hthrough]
  dsimp only
  rw [if_neg hscope, if_neg hhistory, h.offers, timedOffers]
  show (if input.selectedLatestOffer = none then both .na "NO_SENT_OFFER" else _) = _
  rw [if_pos h.selected]

/-- **What the verdicts rest on**, for every input. A budget passes or fails only when it is compared
with the one latest event of a verified complete history, and it passes exactly when the two numbers are
equal. A proposal file passes only when the field is not empty and holds nothing but the selected file of
that event. Without an offer in such a history both rules do not apply; every other input is unknown, and
whatever does not pass has an issue. -/
theorem offer_verdict_sound (textHash : JsString → JsString) (input : ValidationInput) :
    ((validateCrmControlOffer textHash input).offerBudget.status = .pass ∨
        (validateCrmControlOffer textHash input).offerBudget.status = .fail →
      ∃ latest selected amount total budget, ComparedEvent input latest selected ∧
        selected.amount = some amount ∧ Compared textHash input latest amount total budget ∧
        ((validateCrmControlOffer textHash input).offerBudget.status = .pass ↔ total = budget)) ∧
    ((validateCrmControlOffer textHash input).proposalFile.status = .pass →
      ∃ latest selected file, ComparedEvent input latest selected ∧ selected.proposalFile = some file ∧
        Sent latest file ∧ input.proposalField.readComplete = true ∧ input.proposalField.files ≠ [] ∧
        ∀ other ∈ input.proposalField.files, fileMatch other file = .same) ∧
    ((validateCrmControlOffer textHash input).proposalFile.status = .fail →
      ∃ latest selected file, ComparedEvent input latest selected ∧ selected.proposalFile = some file ∧
        Sent latest file ∧ input.proposalField.readComplete = true ∧
        (input.proposalField.files = [] ∨
          ∃ other ∈ input.proposalField.files, fileMatch other file = .different)) ∧
    ((validateCrmControlOffer textHash input).offerBudget.status = .na ↔ NoSentOffer input) ∧
    ((validateCrmControlOffer textHash input).proposalFile.status = .na ↔ NoSentOffer input) ∧
    ((validateCrmControlOffer textHash input).offerBudget.status ≠ .pass →
      (validateCrmControlOffer textHash input).offerBudget.issues ≠ []) ∧
    ((validateCrmControlOffer textHash input).proposalFile.status ≠ .pass →
      (validateCrmControlOffer textHash input).proposalFile.issues ≠ []) := by
  have hna : NoSentOffer input →
      validateCrmControlOffer textHash input = both .na "NO_SENT_OFFER" := validate_noSentOffer
  have houtcome := validate_outcome textHash input
  generalize validateCrmControlOffer textHash input = out at hna houtcome ⊢
  cases houtcome with
  | refused hissue =>
    rename_i issue
    have hissues : (rule .unknown issue).issues ≠ [] := by
      rw [rule, if_neg hissue]
      exact List.cons_ne_nil _ _
    have hno : ¬NoSentOffer input := fun h => by
      have hstatus := congrArg (·.offerBudget.status) (hna h)
      cases hstatus
    exact ⟨nofun, nofun, nofun, ⟨nofun, fun h => absurd h hno⟩, ⟨nofun, fun h => absurd h hno⟩,
      fun _ => hissues, fun _ => hissues⟩
  | noOffer hadmitted hcovered hoffers hselected =>
    have hno : NoSentOffer input := ⟨hadmitted, ⟨_, _, hcovered⟩, hoffers, hselected⟩
    exact ⟨nofun, nofun, nofun, ⟨fun _ => hno, fun _ => rfl⟩, ⟨fun _ => hno, fun _ => rfl⟩,
      fun _ => List.cons_ne_nil _ _, fun _ => List.cons_ne_nil _ _⟩
  | compared hcovered hlatest hselects =>
    rename_i created observed latest selected
    have hevent : ComparedEvent input latest selected := ⟨⟨_, _, hcovered, hlatest⟩, hselects⟩
    have hno : ¬NoSentOffer input := fun h => absurd (h.offers ▸ hlatest.mem) List.not_mem_nil
    dsimp only
    have hbudget := offerBudget_outcome textHash input latest selected.amount
    have hfile := proposalFile_outcome input latest selected.proposalFile
    generalize offerBudget textHash input latest selected.amount = budget at hbudget ⊢
    generalize proposalFile input latest selected.proposalFile = file at hfile ⊢
    refine ⟨?_, ?_, ?_, ⟨?_, fun h => absurd h hno⟩, ⟨?_, fun h => absurd h hno⟩, ?_, ?_⟩
    · rcases hbudget with ⟨hstatus, -⟩ | ⟨amount, total, value, hamount, hcompared, hstatus, -⟩
      · rw [hstatus]
        rintro (h | h) <;> cases h
      · refine fun _ => ⟨latest, selected, amount, total, value, hevent, hamount, hcompared, ?_⟩
        rw [hstatus]
        split_ifs with hequal
        · exact ⟨fun _ => hequal, fun _ => rfl⟩
        · exact ⟨nofun, fun h => absurd h hequal⟩
    · rcases hfile with ⟨hstatus, -⟩ | ⟨_, _, _, _, _, hstatus, -⟩ |
        ⟨other, hexpected, hsent, hread, hfield, hsame, -⟩
      · exact fun h => nomatch hstatus.symm.trans h
      · exact fun h => nomatch hstatus.symm.trans h
      · exact fun _ => ⟨latest, selected, other, hevent, hexpected, hsent, hread, hfield, hsame⟩
    · rcases hfile with ⟨hstatus, -⟩ | ⟨other, hexpected, hsent, hread, hfield, -, -⟩ |
        ⟨_, _, _, _, _, _, hstatus⟩
      · exact fun h => nomatch hstatus.symm.trans h
      · exact fun _ => ⟨latest, selected, other, hevent, hexpected, hsent, hread, hfield⟩
      · exact fun h => nomatch hstatus.symm.trans h
    · rcases hbudget with ⟨hstatus, -⟩ | ⟨_, total, value, _, _, hstatus, -⟩
      · exact fun h => nomatch hstatus.symm.trans h
      · intro h
        rw [hstatus] at h
        split_ifs at h
    · rcases hfile with ⟨hstatus, -⟩ | ⟨_, _, _, _, _, hstatus, -⟩ | ⟨_, _, _, _, _, _, hstatus⟩ <;>
        exact fun h => nomatch hstatus.symm.trans h
    · rcases hbudget with ⟨-, hissues⟩ | ⟨_, total, value, _, _, hstatus, hissues⟩
      · exact fun _ => hissues
      · intro hnot
        refine hissues ?_
        rw [hstatus] at hnot ⊢
        split_ifs at hnot ⊢
        · exact absurd rfl hnot
        · rfl
    · rcases hfile with ⟨-, hissues⟩ | ⟨_, _, _, _, _, -, hissues⟩ | ⟨_, _, _, _, _, _, hstatus⟩
      · exact fun _ => hissues
      · exact fun _ => hissues
      · exact fun hnot => absurd hstatus hnot

namespace Sample

def scope : Scope := ⟨js "deal-1", js "manager-1", js "observation-1", List.replicate 64 97⟩

/-- A complete history without offers. -/
def noOffers : ValidationInput where
  schemaVersion := 1
  scope := scope
  dealCreatedAt := js "2026-09-01T10:00:00+03:00"
  observedAt := js "2026-09-22T19:05:00+03:00"
  history := {
    scope := scope
    status := .verifiedComplete
    since := js "2026-09-01T00:00:00+03:00"
    through := js "2026-09-22T19:05:00+03:00"
    offerClassificationComplete := true
    offers := [] }
  selectedLatestOffer := none
  textUnits := []
  budget := ⟨some (js "125000.50"), some (js "RUB")⟩
  proposalField := ⟨true, []⟩

/-- One version of a file, with the given digest. -/
def version (sha256 : Option JsString) : File where
  fileUuid := some (js "11111111-1111-4111-8111-111111111111")
  versionUuid := some (js "22222222-2222-4222-8222-222222222222")
  sha256 := sha256

/-- The sent file and the file of the field have different digests; the selected one has none. -/
def otherDigest : ValidationInput :=
  { noOffers with
    history := { noOffers.history with
      offers := [⟨scope, js "message-1", js "2026-09-22T15:00:00+03:00", .outgoing, .manager, .customer,
        [version (some (List.replicate 64 98))]⟩] }
    selectedLatestOffer := some ⟨scope, js "message-1", none, some (version none)⟩
    proposalField := ⟨true, [version (some (List.replicate 64 100))]⟩ }

end Sample

/-- Without an offer the rules are neither passed, failed nor unknown. And a file of the field is accepted
that is no file of the event: both are the same as the selected file, not as each other. -/
theorem offer_verdict_elsewhere :
    (validateCrmControlOffer (fun text => text) Sample.noOffers).offerBudget.status = .na ∧
    (validateCrmControlOffer (fun text => text) Sample.noOffers).proposalFile.status = .na ∧
    (validateCrmControlOffer (fun text => text) Sample.otherDigest).proposalFile.status = .pass ∧
    ∀ file ∈ Sample.otherDigest.proposalField.files, ∀ event ∈ Sample.otherDigest.history.offers,
      ∀ sent ∈ event.files, fileMatch file sent ≠ .same := by
  decide +kernel

end AmoAnalytics.CrmControl.Offer
