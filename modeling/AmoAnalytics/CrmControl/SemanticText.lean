import AmoAnalytics.Lib.IsoInstant
import AmoAnalytics.Lib.JsValue
import AmoAnalytics.Lib.Regex
import AmoAnalytics.CrmControl.Deadline

/-!
# Texts of the semantic check

The text rules of `crm-control-semantic.validation.ts`: instructions to the analyzer, dates in a
quotation, and the withdrawal of an agreement.
-/

namespace AmoAnalytics.CrmControl.Semantic

open JsText Regex

/-- What the code takes from its runtime: the digest of a text, the Unicode tables, `Date.parse` of a
text that is no ISO instant, the time zones and the JSON parser. -/
structure Runtime where
  textHash : JsString → JsString
  normalize : JsString → JsString
  toLowerCase : JsString → JsString
  parseDate : JsString → Option ℤ
  dateTimeFormat : JsString → Option Formatter
  parseJson : JsString → Option JsValue

/-! ## Instructions to the analyzer -/

/-- `.{0,most}`. -/
def gap (most : ℕ) : Regex UInt16 := rep 0 most dot

def quote : Regex UInt16 := chars "\"'"

/-- The six patterns of an instruction. -/
def instructionPatterns : List (Regex UInt16) := [
  anyOf [
    seqs [lit "<|", words ["im_start", "im_end", "system", "assistant"], lit "|>"],
    seqs [lit "[", opt (lit "/"), lit "inst]"],
    seqs [lit "<<", opt (lit "/"), lit "sys>>"],
    seqs [quote, lit "role", quote, many 0 space, lit ":", many 0 space, quote, lit "system", quote]],
  seqs [words ["ignore", "disregard", "override", "forget"], gap 80,
    anyOf [seqs [lit "instruction", opt (lit "s")], words ["system prompt", "previous rules", "audit rules"]]],
  seqs [words ["игнорируй", "игнорировать", "забудь", "не учитывай", "отмени", "обойди"], gap 80,
    anyOf [lit "инструкци", seqs [lit "системн", gap 20, words ["промпт", "сообщен"]],
      words ["правила провер", "предыдущие правила"]]],
  seqs [words ["верни", "возврати", "ответь", "выдай", "поставь", "пометь", "return", "respond", "output",
      "mark"], gap 80,
    anyOf [seqs [boundary, words ["pass", "validated", "present", "absent", "uncertain", "stage_relevance"],
        boundary], words ["проверку пройденной", "нарушений нет"]]],
  seqs [quote, words ["action", "stage_relevance", "transfer_reason", "customer_agreement", "state"], quote,
    many 0 space, lit ":", many 0 space, quote, words ["present", "absent", "uncertain"], quote],
  seqs [words ["ты", "you are"], gap 30, words ["системный аудитор", "проверяющий ии", "system auditor",
    "system assistant"]]]

/-- A narrow fail-closed guard, not a claim that every prompt injection can be detected. -/
def instructionRisk (rt : Runtime) (text : JsString) : Bool :=
  let visible := (rt.normalize text).filter fun c => !(between '\u200B' '\u200D' c || oneOf "\u2060\uFEFF" c)
  let value := rt.toLowerCase (replaceAll (many 1 space) (js " ") visible)
  instructionPatterns.any (test · value)

/-! ## Dates of a quotation -/

inductive Precision
  | day
  | minute
  deriving DecidableEq

structure SemanticDate where
  value : JsString
  precision : Precision
  deriving DecidableEq

def instant (s : JsString) : Option ℤ := (IsoInstant.parse s).map (·.ms)

/-- `Date.parse`. -/
def Runtime.dateParse (rt : Runtime) (s : JsString) : Option ℤ := (instant s).or (rt.parseDate s)

def isoString (ms : ℤ) : JsString := js (CivilDate.isoString ms)

/-- `toISOString().slice(0, 10)`. -/
def isoDay (ms : ℤ) : JsString := (isoString ms).take 10

def calendarDay (s : JsString) : Bool :=
  fits "####-##-##" s &&
    IsoInstant.calendarDate (number (slice s 0 4)) (number (slice s 5 7)) (number (slice s 8 10))

/-- The one instant at which the clock shows the target. -/
def civilInstant (target : ℤ) (formatter : Formatter) : Option ℤ := instantAtCivilTime target formatter

/-- `[а-яё]`. -/
def isRussian (c : UInt16) : Bool := between 'а' 'я' c || oneOf "ё" c

def timePatterns : List (Regex UInt16) := [
  alt
    (seq (notAfter isRussian) (anyOf [seqs [lit "утр", chars "аеоум"], lit "вечер",
      seqs [lit "дн", chars "её", lit "м"],
      words ["ночь", "ночью", "обед", "полдень", "полудн", "полуноч", "половин", "час"]]))
    (seqs [boundary, anyOf [words ["morning", "afternoon", "evening", "noon", "midnight"],
      seqs [lit "hour", opt (lit "s")]], boundary]),
  seqs [notAfter isRussian, words ["в", "к", "до", "после", "около", "примерно", "at", "before", "after"],
    many 0 space, rep 1 2 digit, notBefore fun c => isDigit c || oneOf ":" c],
  seqs [notAfter isRussian, words ["в", "к", "до", "после"], many 1 space,
    words ["один", "два", "двух", "три", "трёх", "четыр", "пят", "шест", "сем", "восем", "девят", "десят",
      "одиннадцат", "двенадцат", "тринадцат", "четырнадцат", "пятнадцат", "шестнадцат", "семнадцат",
      "восемнадцат", "девятнадцат", "двадцат"]]]

def hasUnparsedTime (rt : Runtime) (text : JsString) : Bool :=
  timePatterns.any (test · (rt.toLowerCase text))

def digits (n : ℕ) : Regex UInt16 := rep n n digit

/-- `\d{4}-\d{2}-\d{2}`. -/
def isoDate : Regex UInt16 := seqs [digits 4, lit "-", digits 2, lit "-", digits 2]

/-- `\d{1,2}\.\d{1,2}\.\d{4}`. -/
def dottedDate : Regex UInt16 := seqs [rep 1 2 digit, lit ".", rep 1 2 digit, lit ".", digits 4]

def isoInstant : Regex UInt16 :=
  seqs [isoDate, lit "T", digits 2, lit ":", digits 2,
    opt (seqs [lit ":", digits 2, opt (seqs [lit ".", rep 1 3 digit])]),
    alt (lit "Z") (seqs [chars "+-", digits 2, lit ":", digits 2])]

/-- Not a part of a longer digit string. -/
def alone (r : Regex UInt16) : Regex UInt16 := seqs [notAfter isDigit, r, notBefore isDigit]

/-- `padStart(2, '0')`. -/
def padTwo (s : JsString) : JsString := js (String.ofList (List.replicate (2 - s.length) '0')) ++ s

/-- The fields of a text between the separators. -/
def fields (separator : String) (s : JsString) : List JsString := s.splitOnP (oneOf separator)

/-- `dd.mm.yyyy` as `yyyy-mm-dd`. -/
def dottedDay (s : JsString) : JsString :=
  match fields "." s with
  | [day, month, year] => year ++ js "-" ++ padTwo month ++ js "-" ++ padTwo day
  | _ => s

/-- The day that a word names, counted from the day of the source. -/
def relativeDay (created : ℤ) (formatter : Formatter) (word : JsString) : JsString :=
  let localDay := civilTime created formatter / CivilDate.day * CivilDate.day
  let offset := if word = js "сегодня" then 0 else if word = js "завтра" then 1 else 2
  isoDay (localDay + offset * CivilDate.day)

/-- `quote.replace(part, '')` with a text: the first occurrence. -/
def removeFirst (part : JsString) : JsString → JsString
  | [] => []
  | c :: s => if part.isPrefixOf (c :: s) then (c :: s).drop part.length else c :: removeFirst part s

/-- The days of a quotation; `none` stands for one that is no day of the calendar. -/
def quotedDays (rt : Runtime) (quote : JsString) (createdAt : Option JsString) (formatter : Formatter) :
    List (Option JsString) :=
  let valid := fun day => if calendarDay day then some day else none
  (matchAll (alone isoDate) quote).map valid ++
    (matchAll (alone dottedDate) quote).map (fun s => valid (dottedDay s)) ++
    (matchAll (seqs [notAfter isRussian, words ["послезавтра", "завтра", "сегодня"], notBefore isRussian])
      (rt.toLowerCase quote)).map fun word =>
        (createdAt.bind instant).map fun created => relativeDay created formatter word

/-- A clock time of the quotation on its day. -/
def quotedTime (day : JsString) (times : List JsString) (formatter : Formatter) : Option SemanticDate :=
  match (times.map fun time =>
      match fields ":" time with
      | [hours, minutes] => padTwo hours ++ js ":" ++ minutes
      | _ => time).dedup with
  | [time] =>
    if 23 < number (time.take 2) ∨ 59 < number (time.drop 3) then none
    else
      ((instant (day ++ js "T" ++ time ++ js ":00Z")).bind (civilInstant · formatter)).map fun resolved =>
        ⟨isoString resolved, .minute⟩
  | _ => none

/-- Deliberately bounded date grammar. Weekdays, omitted years and mixed dates remain unresolved. -/
def citedDate (rt : Runtime) (quote : JsString) (createdAt : Option JsString) (formatter : Formatter) :
    Option SemanticDate :=
  match matchAll isoInstant quote with
  | [iso] =>
    let remaining := removeFirst iso quote
    let mixed := alt (seqs [rep 1 4 digit, chars ".:/-", digits 2])
      (anyOf (["СЕГОДНЯ", "ЗАВТРА"].map lit))
    if test mixed (remaining.map canonicalize) || hasUnparsedTime rt remaining then none
    else (instant iso).map fun ms => ⟨isoString ms, .minute⟩
  | _ :: _ :: _ => none
  | [] =>
    let days := quotedDays rt quote createdAt formatter
    let remaining := replaceAll dottedDate [] (replaceAll isoDate [] quote)
    if test (seqs [digit, chars "./-", digit]) remaining || hasUnparsedTime rt remaining then none
    else if days.contains none then none
    else
      match (days.filterMap fun day => day).dedup with
      | [day] =>
        let times := matchAll (alone (seqs [rep 1 2 digit, lit ":", digits 2])) quote
        if times = [] then some ⟨day, .day⟩ else quotedTime day times formatter
      | _ => none

/-! ## Withdrawn agreements -/

/-- The code points of a text, as the flag `u` reads it. -/
def codePoints : JsString → List ℕ
  | [] => []
  | [c] => [c.toNat]
  | c :: d :: s =>
    if 0xD800 ≤ c.toNat ∧ c.toNat < 0xDC00 ∧ 0xDC00 ≤ d.toNat ∧ d.toNat < 0xE000 then
      (0x10000 + (c.toNat - 0xD800) * 0x400 + (d.toNat - 0xDC00)) :: codePoints s
    else c.toNat :: codePoints (d :: s)

/-- A code point that one unit encodes. -/
def unit? (n : ℕ) : Option UInt16 := if n < 0x10000 then some n.toUInt16 else none

/-- One of the characters under the flags `iu`. -/
def foldedOneOf (s : String) : Regex ℕ :=
  one fun n => (unit? n).any fun c => ((js s).map canonicalize).contains (canonicalize c)

/-- A literal under the flags `iu`. -/
def folded (s : String) : Regex ℕ := seqs (s.toList.map fun c => foldedOneOf c.toString)

def foldedWords (ss : List String) : Regex ℕ := anyOf (ss.map folded)

/-- `\s+` under the flag `u`. -/
def foldedSpaces : Regex ℕ := many 1 (one fun n => (unit? n).any isSpace)

/-- `договор[её]нность`. -/
def agreement : Regex ℕ := seqs [folded "договор", foldedOneOf "её", folded "нность"]

def withdrawalPattern : Regex ℕ := anyOf [
  seqs [folded "не", foldedSpaces, folded "соглас", foldedWords ["ен", "на", "ны"],
    rep 0 50 (one fun n => !(unit? n).any (oneOf ".!?")), foldedWords ["перенос", "срок"]],
  seqs [foldedWords ["отменяю", "отменяем"], foldedSpaces,
    anyOf [agreement, foldedWords ["перенос", "согласование"]]],
  seqs [anyOf [agreement, foldedWords ["перенос", "согласование", "срок"]], foldedSpaces, folded "отмен",
    foldedOneOf "её", folded "н", opt (foldedOneOf "ао")],
  seqs [foldedWords ["новый", "этот", "указанный", "согласованный"], foldedSpaces, folded "срок", foldedSpaces,
    folded "не", foldedSpaces, folded "подходит"],
  seqs [folded "не", foldedSpaces, folded "переносим", foldedSpaces,
    foldedWords ["срок", "встречу", "презентацию"]]]

/-- The customer takes an agreement back. -/
def withdrawsAgreement (text : JsString) : Bool :=
  test withdrawalPattern (codePoints (replaceAll (many 1 space) (js " ") text))

end AmoAnalytics.CrmControl.Semantic
