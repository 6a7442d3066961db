import AmoAnalytics.Lib.Regex

/-!
# The features of a configuration text

What `buildForecastFeatureSet` of `revenue-forecast-model.ts` reads from the configuration of a deal: the condition of
the goods, the quantity and the complexity. The text is normalised first, which makes one line of it; the complexity
is then counted on the normalised text, and its point for a long configuration is never given.
-/

namespace AmoAnalytics.Reports.ForecastFeatures

open JsText Regex

inductive Condition where
  | new
  | refurbished
  | unknown
  deriving DecidableEq, Repr

inductive Complexity where
  | low
  | medium
  | high
  deriving DecidableEq, Repr

/-! ## Normalised text -/

/-- `s.trim()`. -/
def trimmed (s : JsString) : JsString := (s.dropWhile isSpace).rdropWhile isSpace

/-- `normalizeText`; `toLowerCase` is that of a string. -/
def normalizeText (toLowerCase : JsString → JsString) (value : Option JsString) : JsString :=
  replaceAll (many 1 space) (js " ") (replaceAll (lit "ё") (js "е") (toLowerCase (trimmed (value.getD []))))

/-! ## Quantity -/

/-- A literal under the flag `i`. -/
def foldedLit (s : String) : Regex UInt16 := seqs ((js s).map fun c => one fun d => canonicalize d = canonicalize c)

/-- `\d{3,4}` after a literal. -/
def series (s : String) : Regex UInt16 := seq (foldedLit s) (rep 3 4 digit)

/-- `/\b(\d{1,3})\s*(?:x|×)\s*(?:dell|hpe|hp|lenovo|supermicro|r\d{3,4}|dl\d{3,4}|sr\d{3,4})\b/i`. -/
def quantityPattern : Regex UInt16 :=
  seqs [boundary, rep 1 3 digit, many 0 space, anyOf [foldedLit "x", foldedLit "×"], many 0 space,
    anyOf [foldedLit "dell", foldedLit "hpe", foldedLit "hp", foldedLit "lenovo", foldedLit "supermicro", series "r",
      series "dl", series "sr"], boundary]

/-- The group of `quantityPattern` is the digits the match begins with. -/
def quotedQuantity (configuration : JsString) : Option ℤ :=
  ((matchAll quantityPattern configuration).head?.map fun s => (number (s.takeWhile isDigit) : ℤ)).filter (0 < ·)

/-- `Math.round`. -/
def mathRound (value : ℚ) : ℤ := ⌊value + 1 / 2⌋

def normalizeQuantity (value : Option ℚ) (configuration : JsString) : Option ℤ :=
  match value.filter (0 < ·) with
  | some quantity => some (mathRound quantity)
  | none => quotedQuantity configuration

/-! ## Complexity -/

def complexityPatterns : List (Regex UInt16) :=
  [lit "nvme", words ["gpu", "tesla", "quadro"], words ["san", "storage", "jbod"], words ["custom", "nonstandard"],
    seqs [lit "raid", many 0 space, words ["50", "60"]],
    seqs [boundary, lit "4", many 0 space, lit "cpu", boundary]]

def quantityPoints (quantity : Option ℤ) : ℕ :=
  (if 4 ≤ quantity.getD 1 then 2 else 0) + (if 10 ≤ quantity.getD 1 then 1 else 0)

def patternPoints (configuration : JsString) : ℕ := (complexityPatterns.filter (test · configuration)).length

/-- `configuration.split('\n').filter(Boolean).length >= 14`. -/
def longConfiguration (configuration : JsString) : Bool :=
  14 ≤ ((configuration.splitOn 10).filter (· ≠ [])).length

def complexityScore (configuration : JsString) (quantity : Option ℤ) : ℕ :=
  quantityPoints quantity + patternPoints configuration + if longConfiguration configuration then 1 else 0

def complexityClass (score : ℕ) : Complexity := if 4 ≤ score then .high else if 2 ≤ score then .medium else .low

def configurationComplexity (configuration : JsString) (quantity : Option ℤ) : Complexity :=
  complexityClass (complexityScore configuration quantity)

/-! ## The features -/

def refurbishedPattern : Regex UInt16 :=
  anyOf [lit "refurb", lit "renew", lit "used", seqs [lit "second", many 0 space, lit "hand"],
    seqs [boundary, lit "bu", boundary]]

def newPattern : Regex UInt16 :=
  anyOf [seqs [boundary, lit "new", boundary], lit "factory", seqs [lit "brand", many 0 space, lit "new"]]

def conditionOf (configuration : JsString) : Condition :=
  if test refurbishedPattern configuration then .refurbished
  else if test newPattern configuration then .new
  else .unknown

/-- The part of the `summary` that comes from the configuration. -/
structure ConfigurationFeatures where
  condition : Condition
  quantity : Option ℤ
  complexity : Complexity
  deriving DecidableEq

def buildForecastFeatureSet (toLowerCase : JsString → JsString) (configuration : Option JsString)
    (inputQuantity : Option ℚ) : ConfigurationFeatures :=
  let configurationNormalized := normalizeText toLowerCase configuration
  let quantity := normalizeQuantity inputQuantity configurationNormalized
  { condition := conditionOf configurationNormalized
    quantity := quantity
    complexity := configurationComplexity configurationNormalized quantity }

/-! ## A normalised text is one line -/

/-- The only white space of a normalised text is the space itself. -/
theorem not_newline_of_mem_normalizeText {toLowerCase : JsString → JsString} {value : Option JsString} {c : UInt16}
    (h : c ∈ normalizeText toLowerCase value) : c ≠ 10 := by
  rintro rfl
  rcases mem_replaceAll_class h with hspace | hspace
  · exact absurd hspace (by decide)
  · exact absurd hspace (by decide)

theorem longConfiguration_of_one_line {configuration : JsString} (h : ∀ c ∈ configuration, c ≠ 10) :
    longConfiguration configuration = false := by
  have hsplit : configuration.splitOn 10 = [configuration] :=
    List.splitOnP_eq_singleton fun c hc => by simpa using h c hc
  have hone : ((configuration.splitOn 10).filter (· ≠ [])).length ≤ 1 := by
    rw [hsplit]
    exact List.length_filter_le _ [configuration]
  rw [longConfiguration, decide_eq_false_iff_not]
  omega

theorem complexityScore_normalizeText (toLowerCase : JsString → JsString) (value : Option JsString)
    (quantity : Option ℤ) :
    complexityScore (normalizeText toLowerCase value) quantity =
      quantityPoints quantity + patternPoints (normalizeText toLowerCase value) := by
  rw [complexityScore, longConfiguration_of_one_line fun c hc => not_newline_of_mem_normalizeText hc]
  rfl

/-! ## The lines of the stored text -/

/-- The lines of a text that hold more than white space. -/
def writtenLines (text : JsString) : List JsString := (text.splitOn 10).filter fun line => !blank line

/-- The score a configuration earns when its point for the length is counted on the stored text. -/
def intendedScore (toLowerCase : JsString → JsString) (configuration : JsString) (quantity : Option ℤ) : ℕ :=
  quantityPoints quantity + patternPoints (normalizeText toLowerCase (some configuration)) +
    if 14 ≤ (writtenLines configuration).length then 1 else 0

/-- The score counts the length of the configuration right only when it is short. -/
theorem complexity_score_iff (toLowerCase : JsString → JsString) (configuration : JsString)
    (inputQuantity : Option ℚ) :
    let text := normalizeText toLowerCase (some configuration)
    let quantity := normalizeQuantity inputQuantity text
    complexityScore text quantity = intendedScore toLowerCase configuration quantity ↔
      (writtenLines configuration).length < 14 := by
  intro text quantity
  rw [complexityScore_normalizeText, intendedScore]
  split
  · next hlong => omega
  · next hshort => omega

/-- Fourteen lines, the first of which names a drive. -/
def fourteenLines : JsString := js "nvme\n1\n2\n3\n4\n5\n6\n7\n8\n9\n10\n11\n12\n13"

/-- A configuration of medium complexity is shown as a simple one. -/
theorem long_configuration_low :
    (writtenLines fourteenLines).length = 14 ∧
      complexityScore (normalizeText id (some fourteenLines)) none ≠ intendedScore id fourteenLines none ∧
      (buildForecastFeatureSet id (some fourteenLines) none).complexity = .low ∧
      complexityClass (intendedScore id fourteenLines none) = .medium := by
  decide +kernel

end AmoAnalytics.Reports.ForecastFeatures
