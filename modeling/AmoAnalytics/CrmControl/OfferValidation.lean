import AmoAnalytics.Lib.IsoInstant

/-!
# Validation of a sent offer

`crm-control-offer.validation.ts`: the comparison of server-attested evidence about the last offer of
a deal with the budget and the proposal field. `textHash` is `crmControlOfferTextHash`.
-/

namespace AmoAnalytics.CrmControl.Offer

open JsText

/-! ## The input -/

/-- A number: an integer, or `none` for every other one. -/
abbrev JsNumber := Option ℤ

structure Scope where
  dealId : JsString
  ownerId : JsString
  observationId : JsString
  snapshotHash : JsString
  deriving DecidableEq

structure File where
  fileUuid : Option JsString
  versionUuid : Option JsString
  sha256 : Option JsString
  deriving DecidableEq

inductive Direction
  | outgoing
  | incoming
  | unknown
  deriving DecidableEq

inductive Sender
  | manager
  | bot
  | unknown
  deriving DecidableEq

inductive Recipient
  | customer
  | unknown
  deriving DecidableEq

structure OutgoingOffer where
  scope : Scope
  sourceId : JsString
  sentAt : JsString
  direction : Direction
  sender : Sender
  recipient : Recipient
  files : List File
  deriving DecidableEq

inductive Locator
  | pdf (page : JsNumber)
  | docx (part path : JsString)
  | xlsx (sheet cell : JsString)
  | message
  deriving DecidableEq

inductive TextQuality
  | verifiedText
  | unverified
  deriving DecidableEq

structure TextUnit where
  id : JsString
  scope : Scope
  outgoingSourceId : JsString
  textHash : JsString
  text : JsString
  artifactSha256 : Option JsString
  locator : Locator
  quality : TextQuality
  deriving DecidableEq

structure Citation where
  unitId : JsString
  outgoingSourceId : JsString
  textHash : JsString
  artifactSha256 : Option JsString
  locator : Locator
  quote : JsString
  start : JsNumber
  stop : JsNumber
  deriving DecidableEq

inductive AmountStatus
  | verifiedUnambiguous
  | ambiguous
  | unverified
  deriving DecidableEq

structure SelectedAmount where
  status : AmountStatus
  decimal : JsString
  currency : JsString
  amountCitation : Citation
  amountToken : JsString
  amountTokenStart : JsNumber
  currencyCitation : Citation
  currencyToken : JsString
  currencyTokenStart : JsNumber
  deriving DecidableEq

inductive HistoryStatus
  | verifiedComplete
  | unverified
  deriving DecidableEq

structure History where
  scope : Scope
  status : HistoryStatus
  since : JsString
  through : JsString
  offerClassificationComplete : Bool
  offers : List OutgoingOffer
  deriving DecidableEq

structure SelectedOffer where
  scope : Scope
  sourceId : JsString
  amount : Option SelectedAmount
  proposalFile : Option File
  deriving DecidableEq

structure Budget where
  decimal : Option JsString
  currency : Option JsString
  deriving DecidableEq

structure ProposalField where
  readComplete : Bool
  files : List File
  deriving DecidableEq

structure ValidationInput where
  schemaVersion : ℕ
  scope : Scope
  dealCreatedAt : JsString
  observedAt : JsString
  history : History
  selectedLatestOffer : Option SelectedOffer
  textUnits : List TextUnit
  budget : Budget
  proposalField : ProposalField
  deriving DecidableEq

/-! ## The result -/

inductive Status
  | pass
  | fail
  | unknown
  | na
  deriving DecidableEq

inductive OfferDetails
  | budget (budget offerAmount currency outgoingSourceId : JsString)
  | files (outgoingSourceId : JsString) (filesChecked : ℕ)
  deriving DecidableEq

structure RuleValidation where
  status : Status
  issues : List String
  evidence : List Citation := []
  details : Option OfferDetails := none
  deriving DecidableEq

structure Validation where
  offerBudget : RuleValidation
  proposalFile : RuleValidation
  deriving DecidableEq

/-! ## Checks of single values -/

/-- `/^[a-f0-9]{64}$/`. -/
def hash (s : JsString) : Bool := s.length = 64 && s.all fun c => isDigit c || between 'a' 'f' c

def id (s : JsString) : Bool := !blank s && s.length ≤ 256

/-- `/^[a-f0-9]{8}-[a-f0-9]{4}-[a-f0-9]{4}-[a-f0-9]{4}-[a-f0-9]{12}$/i`. -/
def uuid (s : JsString) : Bool :=
  s.length = 36 && s.zipIdx.all fun ci =>
    if [8, 13, 18, 23].contains ci.2 then oneOf "-" ci.1
    else isDigit ci.1 || between 'a' 'f' ci.1 || between 'A' 'F' ci.1

def scopeValid (scope : Scope) : Bool :=
  id scope.dealId && id scope.ownerId && id scope.observationId && hash scope.snapshotHash

def sameScope (a b : Scope) : Bool := scopeValid a && scopeValid b && a = b

/-- An instant with seconds and an explicit offset, in milliseconds. -/
def instant (s : JsString) : Option ℤ :=
  (IsoInstant.parse s).bind fun parsed => if parsed.withSeconds then some parsed.ms else none

/-! ## Decimals -/

structure ParsedDecimal where
  toDecimal : Decimal
  canonical : JsString
  deriving DecidableEq

/-- The two sides of the first point, if the text is
`/^(?:0|[1-9]\d{0,29})(?:\.\d{1,6})?$/`. -/
def decimalParts (s : JsString) : Option (JsString × JsString) :=
  let whole := s.takeWhile fun c => !oneOf "." c
  let rest := s.dropWhile fun c => !oneOf "." c
  let rawFraction := rest.drop 1
  if (whole = js "0" || (whole.head?.any (between '1' '9') && whole.all isDigit && whole.length ≤ 30)) &&
      (rest = [] || (1 ≤ rawFraction.length && rawFraction.length ≤ 6 && rawFraction.all isDigit)) then
    some (whole, rawFraction)
  else none

/-- Bounded nonnegative decimal arithmetic: at most 30 integer and 6 fractional digits. -/
def decimal (s : JsString) : Option ParsedDecimal :=
  (decimalParts s).map fun (whole, rawFraction) =>
    let fraction := rawFraction.rdropWhile (· = 48)
    { toDecimal := ⟨number (whole ++ fraction), fraction.length⟩
      canonical := whole ++ if fraction = [] then [] else js "." ++ fraction }

def decimalEqual (left right : Option ParsedDecimal) : Bool :=
  match left, right with
  | some left, some right =>
    let scale := max left.toDecimal.scale right.toDecimal.scale
    left.toDecimal.coefficient * 10 ^ (scale - left.toDecimal.scale) =
      right.toDecimal.coefficient * 10 ^ (scale - right.toDecimal.scale)
  | _, _ => false

/-- The blanks between groups of digits. -/
def isGap (c : UInt16) : Bool := oneOf "\u0020\u00a0\u202f" c

/-- `(?:[ \u00a0\u202f]\d{3})+` and the end, or nothing. -/
def groups : JsString → Bool
  | [] => true
  | gap :: a :: b :: c :: rest => isGap gap && isDigit a && isDigit b && isDigit c && groups rest
  | _ => false

/-- Unambiguous numeric forms: digits, or groups of three, and a fraction of one or two digits. -/
def numericForm (token : JsString) : Bool :=
  let whole := token.takeWhile fun c => !oneOf ".," c
  let rest := token.dropWhile fun c => !oneOf ".," c
  let first := whole.takeWhile isDigit
  (whole = js "0" || (whole.head?.any (between '1' '9') &&
      (whole.all isDigit || (first.length ≤ 3 && groups (whole.dropWhile isDigit))))) &&
    (rest = [] || (2 ≤ rest.length && rest.length ≤ 3 && (rest.drop 1).all isDigit))

/-- `s.replace(from, to)`: the first occurrence. -/
def replaceFirst (old new : UInt16) : JsString → JsString
  | [] => []
  | c :: s => if c = old then new :: s else c :: replaceFirst old new s

def quotedDecimal (token : JsString) : Option ParsedDecimal :=
  if token.length > 48 || !numericForm token then none
  else decimal (replaceFirst 44 46 (token.filter fun c => !isGap c))

/-! ## Tokens in their text -/

/-- `[A-Za-zА-Яа-яЁё]`. -/
def isLetter (c : UInt16) : Bool :=
  between 'A' 'Z' c || between 'a' 'z' c || between 'А' 'Я' c || between 'а' 'я' c || oneOf "Ёё" c

/-- The text begins with the word, in any case. -/
def startsWith (word : String) (s : JsString) : Bool :=
  ((js word).map canonicalize).isPrefixOf (s.map canonicalize)

/-- `\b` before the rest of a text, after a letter. -/
def atBoundary (s : JsString) : Bool := !s.head?.any isWord

/-- A number word: `тыс`, `млн`, `thousand` and others, or the letters k and m alone. -/
def scaleWord (s : JsString) : Bool :=
  ["тыс", "млн", "млрд", "тысяч", "миллион", "миллиард", "thousand", "million", "billion"].any
      (startsWith · s) ||
    ((startsWith "k" s || startsWith "m" s) && atBoundary (s.drop 1))

/-- The text around a numeric token does not make it a part of something else: a larger or a grouped
number, a percentage, a signed number, a range, a number of thousands. -/
def numberStandsAlone (before after : JsString) : Bool :=
  let beforeGap := before.rdropWhile isGap
  let afterGap := after.dropWhile isGap
  !before.getLast?.any (fun c => isDigit c || oneOf ".,+-−/" c) &&
    !after.head?.any (fun c => isDigit c || oneOf ".,%/*^" c || isLetter c) &&
    !beforeGap.getLast?.any (oneOf "+-−") && !afterGap.head?.any (oneOf "%") &&
    !(before.getLast?.any isGap && beforeGap.getLast?.any isDigit) &&
    !(after.head?.any isGap && afterGap.head?.any isDigit) &&
    !(afterGap.head?.any (oneOf "-−–—") && ((afterGap.drop 1).dropWhile isGap).head?.any isDigit) &&
    !(after.head?.any isGap && scaleWord afterGap)

def wordStandsAlone (before after : JsString) : Bool :=
  !before.getLast?.any isLetter && !after.head?.any isLetter

def standsAlone (numeric : Bool) (before after : JsString) : Bool :=
  if numeric then numberStandsAlone before after else wordStandsAlone before after

def tokenGrounded (quote token : JsString) (start : JsNumber) (numeric : Bool) : Bool :=
  match safeInteger start with
  | none => false
  | some start =>
    token ≠ [] && 0 ≤ start &&
      slice quote start.toNat (start.toNat + token.length) = token &&
      standsAlone numeric (quote.take start.toNat) (quote.drop (start.toNat + token.length))

/-- `toLowerCase`, as far as the Latin and Russian letters go. -/
def toLowerCase (s : JsString) : JsString :=
  s.map fun c =>
    if between 'A' 'Z' c || between 'А' 'Я' c then c + 0x20 else if c = 0x401 then 0x451 else c

/-- `/^[A-Z]{3}$/`. -/
def currencyCode (s : JsString) : Bool := s.length = 3 && s.all (between 'A' 'Z')

def currencyToken (token : JsString) : Option JsString :=
  if currencyCode token then some token
  else if token = js "₽" ∨ toLowerCase token = js "российских рублей" then some (js "RUB")
  else if token = js "€" then some (js "EUR")
  else none

/-! ## Files -/

def fileValid (file : File) : Bool :=
  file.fileUuid.all uuid && file.versionUuid.all uuid && file.sha256.all hash &&
    ((file.fileUuid.isSome && file.versionUuid.isSome) || file.sha256.isSome)

inductive FileMatch
  | same
  | different
  | unresolved
  | conflict
  deriving DecidableEq

def fileMatch (a b : File) : FileMatch :=
  if !fileValid a || !fileValid b then .unresolved
  else
    let havePair := a.fileUuid.isSome && a.versionUuid.isSome && b.fileUuid.isSome && b.versionUuid.isSome
    let samePair := havePair && a.fileUuid.map toLowerCase = b.fileUuid.map toLowerCase &&
      a.versionUuid.map toLowerCase = b.versionUuid.map toLowerCase
    let haveHashes := a.sha256.isSome && b.sha256.isSome
    if samePair && haveHashes && a.sha256 ≠ b.sha256 then .conflict
    else if (haveHashes && a.sha256 = b.sha256) || samePair then .same
    else if havePair || haveHashes then .different
    else .unresolved

/-! ## Citations -/

/-- `/^[A-Z]{1,3}[1-9]\d{0,6}$/`. -/
def cellName (s : JsString) : Bool :=
  let column := s.takeWhile (between 'A' 'Z')
  let row := s.dropWhile (between 'A' 'Z')
  1 ≤ column.length && column.length ≤ 3 && row.head?.any (between '1' '9') && row.all isDigit &&
    row.length ≤ 7

/-- The key of a valid locator; two keys are equal when the locators are. -/
def locatorKey (locator : Locator) : Option Locator :=
  match locator with
  | .message => some .message
  | .pdf page => if (safeInteger page).any fun n => 0 < n ∧ n ≤ 100_000 then some (.pdf page) else none
  | .docx part path =>
    if id part ∧ 0 < path.length ∧ path.length ≤ 2048 then some (.docx part path) else none
  | .xlsx sheet cell => if id sheet ∧ cellName cell then some (.xlsx sheet cell) else none

/-- The text unit is the one the citation names, and the quotation stands in it. -/
def unitCites (textHash : JsString → JsString) (citation : Citation) (start stop : ℕ)
    (input : ValidationInput) (latest : OutgoingOffer) (unit : TextUnit) : Bool :=
  sameScope unit.scope input.scope && unit.outgoingSourceId = latest.sourceId &&
    citation.outgoingSourceId = latest.sourceId && unit.quality = .verifiedText &&
    unit.text.length ≤ 16_000 && hash unit.textHash && unit.textHash = textHash unit.text &&
    unit.textHash = citation.textHash && slice unit.text start stop = citation.quote &&
    stop ≤ unit.text.length && (locatorKey unit.locator).isSome &&
    locatorKey unit.locator = locatorKey citation.locator &&
    unit.artifactSha256 = citation.artifactSha256 &&
    if unit.locator = .message then unit.artifactSha256 = none
    else unit.artifactSha256.any hash && latest.files.any fun file => file.sha256 = unit.artifactSha256

def citationValid (textHash : JsString → JsString) (citation : Citation) (input : ValidationInput)
    (latest : OutgoingOffer) : Bool :=
  match safeInteger citation.start, safeInteger citation.stop with
  | some start, some stop =>
    id citation.unitId && hash citation.textHash && !blank citation.quote &&
      citation.quote.length ≤ 4000 && 0 ≤ start && start < stop &&
      match input.textUnits.filter fun unit => unit.id = citation.unitId with
      | [unit] => unitCites textHash citation start.toNat stop.toNat input latest unit
      | _ => false
  | _, _ => false

def citedTokenGrounded (citation : Citation) (token : JsString) (start : JsNumber) (numeric : Bool)
    (input : ValidationInput) : Bool :=
  match safeInteger start with
  | none => false
  | some offset =>
    0 ≤ offset && token ≠ [] &&
      slice citation.quote offset.toNat (offset.toNat + token.length) = token &&
      (input.textUnits.find? fun unit => unit.id = citation.unitId).any fun unit =>
        tokenGrounded unit.text token (citation.start.map (· + offset)) numeric

/-! ## The two rules -/

def rule (status : Status) (issue : String) (evidence : List Citation := [])
    (details : Option OfferDetails := none) : RuleValidation where
  status := status
  issues := if issue = "" then [] else [issue]
  evidence := evidence
  details := details

def both (status : Status) (issue : String) : Validation := ⟨rule status issue, rule status issue⟩

/-- An event of the history with its time. -/
structure TimedOffer where
  event : OutgoingOffer
  at' : ℤ

/-- The checks of one event. -/
def eligibleAt (input : ValidationInput) (created observed : ℤ) (event : OutgoingOffer) : Option ℤ :=
  (instant event.sentAt).filter fun at' =>
    sameScope event.scope input.scope && id event.sourceId && created ≤ at' && at' ≤ observed &&
      event.direction = .outgoing && (event.sender = .manager || event.sender = .bot) &&
      event.recipient = .customer && event.files.length ≤ 64 && event.files.all fileValid

/-- The loop over the events: the first one that fails ends it. -/
def timedOffers (input : ValidationInput) (created observed : ℤ) :
    List JsString → List OutgoingOffer → Option (List TimedOffer)
  | _, [] => some []
  | sourceIds, event :: offers =>
    match eligibleAt input created observed event with
    | none => none
    | some at' =>
      if sourceIds.contains event.sourceId then none
      else (timedOffers input created observed (event.sourceId :: sourceIds) offers).map (⟨event, at'⟩ :: ·)

def amountGrounded (textHash : JsString → JsString) (input : ValidationInput) (latest : OutgoingOffer)
    (amount : SelectedAmount) (total : ParsedDecimal) : Bool :=
  citationValid textHash amount.amountCitation input latest &&
    citationValid textHash amount.currencyCitation input latest &&
    amount.amountCitation.artifactSha256 = amount.currencyCitation.artifactSha256 &&
    citedTokenGrounded amount.amountCitation amount.amountToken amount.amountTokenStart true input &&
    decimalEqual (some total) (quotedDecimal amount.amountToken) &&
    citedTokenGrounded amount.currencyCitation amount.currencyToken amount.currencyTokenStart false input &&
    currencyToken amount.currencyToken = some amount.currency

def offerBudget (textHash : JsString → JsString) (input : ValidationInput) (latest : OutgoingOffer)
    (amount : Option SelectedAmount) : RuleValidation :=
  match amount with
  | none => rule .unknown "OFFER_AMOUNT_UNVERIFIED"
  | some amount =>
    match amount.status with
    | .unverified => rule .unknown "OFFER_AMOUNT_UNVERIFIED"
    | .ambiguous => rule .unknown "AMBIGUOUS_OFFER_TOTAL"
    | .verifiedUnambiguous =>
      match decimal amount.decimal, input.budget.decimal.bind decimal with
      | some total, some budget =>
        if !currencyCode amount.currency || some amount.currency ≠ input.budget.currency then
          rule .unknown "CURRENCY_MISMATCH_OR_UNKNOWN"
        else if !amountGrounded textHash input latest amount total then
          rule .unknown "AMOUNT_OR_CURRENCY_NOT_GROUNDED"
        else
          rule (if decimalEqual (some total) (some budget) then .pass else .fail)
            (if decimalEqual (some total) (some budget) then "" else "BUDGET_DIFFERS_FROM_SENT_OFFER")
            [amount.amountCitation, amount.currencyCitation]
            (some (.budget budget.canonical total.canonical amount.currency latest.sourceId))
      | _, _ => rule .unknown "INVALID_MONEY_DECIMAL"

/-- The field against the selected file, once this is known to be a file of the event. -/
def proposalField (field : ProposalField) (latest : OutgoingOffer) (expected : File) : RuleValidation :=
  if !field.readComplete || field.files.length > 64 || !field.files.all fileValid then
    rule .unknown "PROPOSAL_FIELD_INCOMPLETE"
  else
    let matching := field.files.map fun file => fileMatch file expected
    if matching.contains .conflict then rule .unknown "FILE_IDENTITY_CONFLICT"
    else if matching = [] then rule .fail "LATEST_PROPOSAL_MISSING"
    else if matching.contains .different then rule .fail "EXTRA_OR_OLDER_PROPOSAL_FILE"
    else if matching.contains .unresolved then rule .unknown "FILE_IDENTITY_UNRESOLVED"
    else rule .pass "" [] (some (.files latest.sourceId matching.length))

def proposalFile (input : ValidationInput) (latest : OutgoingOffer) (expected : Option File) :
    RuleValidation :=
  match expected.filter fileValid with
  | none => rule .unknown "LATEST_PROPOSAL_FILE_UNVERIFIED"
  | some expected =>
    let sourceMatches := latest.files.map fun file => fileMatch file expected
    if sourceMatches.contains .conflict then rule .unknown "FILE_IDENTITY_CONFLICT"
    else if sourceMatches.contains .same then proposalField input.proposalField latest expected
    else rule .unknown "LATEST_PROPOSAL_FILE_UNVERIFIED"

/-- The selection against the events, latest first. -/
def validateSelected (textHash : JsString → JsString) (input : ValidationInput) :
    List TimedOffer → Validation
  | [] =>
    if input.selectedLatestOffer = none then both .na "NO_SENT_OFFER"
    else both .unknown "OFFER_HISTORY_CONFLICT"
  | latest :: others =>
    if others.head?.any fun other => latest.at' = other.at' then both .unknown "LATEST_OFFER_ORDER_AMBIGUOUS"
    else
      match input.selectedLatestOffer.filter fun selected =>
          sameScope selected.scope input.scope && selected.sourceId = latest.event.sourceId with
      | none => both .unknown "LATEST_OFFER_NOT_VERIFIED"
      | some selected =>
        { offerBudget := offerBudget textHash input latest.event selected.amount
          proposalFile := proposalFile input latest.event selected.proposalFile }

def validateCrmControlOffer (textHash : JsString → JsString) (input : ValidationInput) : Validation :=
  if input.schemaVersion ≠ 1 ∨ ¬scopeValid input.scope ∨ 128 < input.textUnits.length ∨
      4096 < input.history.offers.length then both .unknown "INVALID_INPUT"
  else
    match instant input.observedAt, instant input.dealCreatedAt, instant input.history.since,
        instant input.history.through with
    | some observed, some created, some since, some through =>
      if observed < created ∨ ¬sameScope input.history.scope input.scope then
        both .unknown "HISTORY_SCOPE_OR_TIME_MISMATCH"
      else if input.history.status ≠ .verifiedComplete ∨ ¬input.history.offerClassificationComplete ∨
          created < since ∨ through < observed then both .unknown "INCOMPLETE_SENT_HISTORY"
      else
        match timedOffers input created observed [] input.history.offers with
        | none => both .unknown "UNVERIFIED_OUTGOING_SOURCE"
        | some events =>
          validateSelected textHash input (events.insertionSort fun a b => b.at' ≤ a.at')
    | _, _, _, _ => both .unknown "HISTORY_SCOPE_OR_TIME_MISMATCH"

end AmoAnalytics.CrmControl.Offer
