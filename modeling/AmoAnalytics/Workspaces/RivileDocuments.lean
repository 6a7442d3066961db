import AmoAnalytics.Lib.DateText
import AmoAnalytics.Lib.DecimalRounding
import AmoAnalytics.Lib.SqlText
import AmoAnalytics.Reports.ForecastFeatures
import AmoAnalytics.Workspaces.PerformanceTotals

/-!
# Documents of Rivile

`rivile-sales.ts` reads a document of the accounting: the amounts of its lines are added, a return with the other
sign, and revenue, cost and margin are each rounded to cents. Numbers are exact decimals with the 20 significant
digits of `Prisma.Decimal`; a stored amount is the decimal of two places that its number is written as.
-/

namespace AmoAnalytics.Workspaces.Rivile

open CivilDate DecimalRounding JsText SqlText
open Reports.ForecastFeatures (trimmed)

/-! ## Source -/

/-- A field: a text, or a number as `String` writes it, or anything else. -/
inductive RawValue
  | written (s : JsString)
  | other
deriving DecidableEq

structure RawLine where
  I07_KODAS : RawValue
  I07_TIPAS : RawValue
  I07_SUMA : RawValue
  I07_SAVIKAINA : RawValue
deriving DecidableEq

/-- `I07`: nothing that has lines, one line, or an array of them. -/
inductive RawLines
  | missing
  | single (line : RawLine)
  | array (lines : List RawLine)
deriving DecidableEq

structure RawDocument where
  I06_PERKELTA : RawValue
  I06_OP_TIP : RawValue
  I06_KODAS_PO : RawValue
  I06_DOK_DATA : RawValue
  I06_DOK_NR : RawValue
  I06_KODAS_MS : RawValue
  I07 : RawLines
deriving DecidableEq

inductive RivileError
  | INVALID_FINANCIAL_VALUE
  | INVALID_OPERATION
  | INVALID_DOCUMENT_ID_OR_DATE
  | MISSING_DOCUMENT_LINES
  | MISSING_LINE_CLASSIFICATION
deriving DecidableEq

structure RivileDocument where
  id : JsString
  number : JsString
  date : JsString
  managerCode : JsString
  revenue : ℚ
  cost : ℚ
  margin : ℚ
  operation : JsString
deriving DecidableEq

/-! ## Decimals -/

/-- The significant digits of `Prisma.Decimal`. -/
def precision : ℕ := 20

def plus (x y : ℚ) : ℚ := toPrecision precision (x + y)

def minus (x y : ℚ) : ℚ := toPrecision precision (x - y)

def mul (x y : ℚ) : ℚ := toPrecision precision (x * y)

/-- `toDecimalPlaces(2).toNumber()`. -/
def cents (x : ℚ) : ℚ := toPlaces 2 x

/-! ## `rivile-sales.ts` -/

def text : RawValue → JsString
  | .written s => trimmed s
  | .other => []

/-- `Number.isFinite(Number(raw))`: from half a unit below two to the power of 1024 a number is infinite. -/
def isFiniteNumber (x : ℚ) : Bool := |x| < 2 ^ 1024 - 2 ^ 970

def money (v : RawValue) : Except RivileError ℚ :=
  match plainDecimal (pointForComma ((text v).filter fun c => !isSpace c)) with
  | some x => if isFiniteNumber x then .ok x else .error .INVALID_FINANCIAL_VALUE
  | none => .error .INVALID_FINANCIAL_VALUE

/-- The date is one of the calendar: `toISOString` writes its midnight with the same day. -/
def isCalendarDate (date : JsString) : Bool :=
  (DateText.midnight (number (JsText.slice date 0 4)) (number (JsText.slice date 5 7))
    (number (JsText.slice date 8 10))).any fun ms =>
      decide ((js (isoString ms)).take 10 = date)

/-- A document of the period, with its id and its date. -/
def isDocumentDate (dateFrom toExclusive date : JsString) : Bool :=
  fits "20##-##-##" date && !decide (date < dateFrom) && decide (date < toExclusive) && isCalendarDate date

structure Totals where
  revenue : ℚ := 0
  cost : ℚ := 0
  count : ℕ := 0

/-- The amounts of a line, or nothing for a service. -/
def lineAmounts (line : RawLine) : Except RivileError (Option (ℚ × ℚ)) :=
  let code := text line.I07_KODAS
  if code = [] ∨ text line.I07_TIPAS = [] then .error .MISSING_LINE_CLASSIFICATION
  else if code ≠ js "9990006" ∧ (text line.I07_TIPAS = js "2" ∨ (js "999").isPrefixOf code = true) then .ok none
  else (money line.I07_SUMA).bind fun suma => (money line.I07_SAVIKAINA).bind fun cost => .ok (some (|suma|, |cost|))

/-- The body of the loop. -/
def addLine (sign : ℚ) (totals : Totals) (line : RawLine) : Except RivileError Totals :=
  (lineAmounts line).bind fun amounts =>
    match amounts with
    | none => .ok totals
    | some (suma, cost) =>
      .ok ⟨plus totals.revenue (mul suma sign), plus totals.cost (mul cost sign), totals.count + 1⟩

def RawLines.lines : RawLines → List RawLine
  | .missing => []
  | .single line => [line]
  | .array lines => lines

def parseRivileDocument (raw : RawDocument) (dateFrom toExclusive : JsString) :
    Except RivileError (Option RivileDocument) :=
  if text raw.I06_PERKELTA ≠ js "2" then .ok none
  else
    let operation := text raw.I06_OP_TIP
    if operation ≠ js "51" ∧ operation ≠ js "52" then .error .INVALID_OPERATION
    else
      let id := text raw.I06_KODAS_PO
      let date := (text raw.I06_DOK_DATA).take 10
      if id = [] ∨ isDocumentDate dateFrom toExclusive date = false then .error .INVALID_DOCUMENT_ID_OR_DATE
      else if raw.I07 = .missing then .error .MISSING_DOCUMENT_LINES
      else
        let sign := if operation = js "52" then -1 else 1
        (raw.I07.lines.foldlM (addLine sign) {}).bind fun totals =>
          if totals.count = 0 then .ok none
          else .ok (some
            { id
              number := if text raw.I06_DOK_NR = [] then id else text raw.I06_DOK_NR
              date
              managerCode := text raw.I06_KODAS_MS
              revenue := cents totals.revenue
              cost := cents totals.cost
              margin := cents (minus totals.revenue totals.cost)
              operation })

/-! ## Accepted documents -/

/-- A document that is accepted. -/
structure Accepted (dateFrom toExclusive : JsString) where
  raw : RawDocument
  document : RivileDocument
  parsed : parseRivileDocument raw dateFrom toExclusive = .ok (some document)

/-- The amounts of the lines that are counted. -/
def countedAmounts (lines : List RawLine) : List (ℚ × ℚ) :=
  lines.filterMap fun line =>
    match lineAmounts line with
    | .ok amounts => amounts
    | .error _ => none

/-- The sums have no more digits than a decimal holds: with some number of places for all amounts. -/
def AmountsFit (amounts : List (ℚ × ℚ)) : Prop :=
  ∃ places : ℕ, (∀ amount ∈ amounts,
    (∃ n : ℕ, amount.1 = n / 10 ^ places) ∧ ∃ n : ℕ, amount.2 = n / 10 ^ places) ∧
      (amounts.map Prod.fst).sum * 10 ^ places < 10 ^ precision ∧
        (amounts.map Prod.snd).sum * 10 ^ places < 10 ^ precision

/-- The document with the other sign. -/
def RivileDocument.returned (document : RivileDocument) : RivileDocument :=
  { document with
    revenue := -document.revenue
    cost := -document.cost
    margin := -document.margin
    operation := js "52" }

/-- The rounding errors of two amounts differ by less than half a cent, or by half a cent in the direction of their
difference. -/
def CentsAgree (revenue cost : ℚ) : Prop :=
  let difference := (cents revenue - revenue) - (cents cost - cost)
  |difference| < 1 / 200 ∨ |difference| = 1 / 200 ∧ 0 < difference * (revenue - cost)

instance (revenue cost : ℚ) : Decidable (CentsAgree revenue cost) := inferInstanceAs (Decidable (_ ∨ _))

namespace Accepted

variable {dateFrom toExclusive : JsString} (accepted : Accepted dateFrom toExclusive)

/-- The exact revenue and cost, without the sign. -/
def revenue : ℚ := ((countedAmounts accepted.raw.I07.lines).map Prod.fst).sum

def cost : ℚ := ((countedAmounts accepted.raw.I07.lines).map Prod.snd).sum

def Fits : Prop := AmountsFit (countedAmounts accepted.raw.I07.lines)

end Accepted

/-- The arithmetic of some documents and of the sums for performance. -/
structure DocumentLaws {dateFrom toExclusive : JsString} (documents : List (Accepted dateFrom toExclusive)) :
    Prop where
  margin : ∀ accepted ∈ documents, accepted.document.margin = accepted.document.revenue - accepted.document.cost
  /-- A return with the lines of a sale. -/
  returned : ∀ accepted ∈ documents, text accepted.raw.I06_OP_TIP = js "51" →
    parseRivileDocument { accepted.raw with I06_OP_TIP := .written (js "52") } dateFrom toExclusive =
      .ok (some accepted.document.returned)
  order : ∀ accepted ∈ documents, ∀ lines : List RawLine, lines.Perm accepted.raw.I07.lines →
    parseRivileDocument { accepted.raw with I07 := .array lines } dateFrom toExclusive = .ok (some accepted.document)
  sums : ∀ selected : Accepted dateFrom toExclusive → Bool,
    Performance.roundMoney ((documents.filter selected).map fun accepted => accepted.document.margin).sum =
      ((documents.filter selected).map fun accepted => accepted.document.revenue).sum -
        ((documents.filter selected).map fun accepted => accepted.document.cost).sum

/-! ## The loop over the lines -/

/-- The body of the loop with a line that is counted. -/
def addAmounts (sign : ℚ) (totals : Totals) (amounts : ℚ × ℚ) : Totals :=
  ⟨plus totals.revenue (mul amounts.1 sign), plus totals.cost (mul amounts.2 sign), totals.count + 1⟩

theorem countedAmounts_cons_none {line : RawLine} (h : lineAmounts line = .ok none) (lines : List RawLine) :
    countedAmounts (line :: lines) = countedAmounts lines :=
  List.filterMap_cons_none (by rw [h])

theorem countedAmounts_cons_some {line : RawLine} {amounts : ℚ × ℚ} (h : lineAmounts line = .ok (some amounts))
    (lines : List RawLine) : countedAmounts (line :: lines) = amounts :: countedAmounts lines :=
  List.filterMap_cons_some (by rw [h])

theorem foldlM_addLine {sign : ℚ} {lines : List RawLine} : ∀ {totals final : Totals},
    lines.foldlM (addLine sign) totals = .ok final ↔
      (∀ line ∈ lines, ∃ amounts, lineAmounts line = .ok amounts) ∧
        final = (countedAmounts lines).foldl (addAmounts sign) totals := by
  induction lines with
  | nil =>
    intro totals final
    simp only [List.foldlM_nil, List.not_mem_nil, false_imp_iff, implies_true, true_and]
    exact ⟨fun h => (Except.ok.inj h).symm, fun h => congrArg Except.ok h.symm⟩
  | cons line lines ih =>
    intro totals final
    rw [List.foldlM_cons, List.forall_mem_cons]
    cases hline : lineAmounts line with
    | error e =>
      have herror : addLine sign totals line = .error e := by rw [addLine, hline]; rfl
      rw [herror]
      refine ⟨fun h => (by cases h), fun h => ?_⟩
      obtain ⟨_, heq⟩ := h.1.1
      cases heq
    | ok amounts =>
      simp only [Except.ok.injEq, exists_eq', true_and]
      cases amounts with
      | none =>
        have hadd : addLine sign totals line = .ok totals := by rw [addLine, hline]; rfl
        rw [hadd, countedAmounts_cons_none hline]
        exact ih
      | some amounts =>
        have hadd : addLine sign totals line = .ok (addAmounts sign totals amounts) := by rw [addLine, hline]; rfl
        rw [hadd, countedAmounts_cons_some hline]
        exact ih

/-- One of the amounts, added over the lines. -/
def addAll (sign : ℚ) (total : ℚ) (amounts : List ℚ) : ℚ :=
  amounts.foldl (fun total amount => plus total (mul amount sign)) total

theorem foldl_addAmounts (sign : ℚ) (amounts : List (ℚ × ℚ)) : ∀ totals : Totals,
    amounts.foldl (addAmounts sign) totals =
      ⟨addAll sign totals.revenue (amounts.map Prod.fst), addAll sign totals.cost (amounts.map Prod.snd),
        totals.count + amounts.length⟩ := by
  induction amounts with
  | nil => exact fun _ => rfl
  | cons amount amounts ih =>
    intro totals
    rw [List.foldl_cons, ih, List.length_cons, Nat.add_comm amounts.length, ← Nat.add_assoc]
    rfl

/-! ## The other sign -/

theorem plus_neg (x y : ℚ) : plus (-x) (-y) = -plus x y := by
  rw [plus, ← neg_add, toPrecision_neg, plus]

theorem minus_neg (x y : ℚ) : minus (-x) (-y) = -minus x y := by
  have hneg : -x - -y = -(x - y) := by ring
  rw [minus, hneg, toPrecision_neg, minus]

theorem mul_neg_sign (x sign : ℚ) : mul x (-sign) = -mul x sign := by
  rw [mul, mul_neg, toPrecision_neg, mul]

theorem cents_neg (x : ℚ) : cents (-x) = -cents x := toPlaces_neg 2 x

theorem addAll_neg (sign : ℚ) (amounts : List ℚ) : ∀ total,
    addAll (-sign) (-total) amounts = -addAll sign total amounts := by
  induction amounts with
  | nil => exact fun _ => rfl
  | cons amount amounts ih =>
    intro total
    have hstep : plus (-total) (mul amount (-sign)) = -plus total (mul amount sign) := by
      rw [mul_neg_sign, plus_neg]
    calc addAll (-sign) (-total) (amount :: amounts)
        = addAll (-sign) (plus (-total) (mul amount (-sign))) amounts := rfl
      _ = -addAll sign (plus total (mul amount sign)) amounts := by rw [hstep, ih]
      _ = -addAll sign total (amount :: amounts) := rfl

/-! ## Amounts that fit -/

theorem toPrecision_signed {sign : ℚ} (hsign : sign = 1 ∨ sign = -1) {places n : ℕ} (hn : n < 10 ^ precision) :
    toPrecision precision (sign * ((n : ℚ) / 10 ^ places)) = sign * (n / 10 ^ places) := by
  have hshort : toPrecision precision ((n : ℚ) / 10 ^ places) = n / 10 ^ places := by
    have habs : |(n : ℤ)| < 10 ^ precision := by
      rw [Nat.abs_cast]
      exact_mod_cast hn
    have hinteger : toPrecision precision (((n : ℤ) : ℚ) / 10 ^ places) = ((n : ℤ) : ℚ) / 10 ^ places :=
      toPrecision_of_short habs
    rwa [Int.cast_natCast] at hinteger
  rcases hsign with rfl | rfl
  · rw [one_mul, hshort]
  · rw [neg_one_mul, toPrecision_neg, hshort]

/-- While the sum fits, each addition is exact. -/
theorem addAll_exact {sign : ℚ} (hsign : sign = 1 ∨ sign = -1) {places : ℕ} {amounts : List ℚ} :
    ∀ {total : ℕ}, (∀ amount ∈ amounts, ∃ n : ℕ, amount = n / 10 ^ places) →
      (total / 10 ^ places + amounts.sum) * 10 ^ places < 10 ^ precision →
        addAll sign (sign * (total / 10 ^ places)) amounts = sign * (total / 10 ^ places + amounts.sum) := by
  induction amounts with
  | nil =>
    intro total _ _
    rw [List.sum_nil, add_zero]
    rfl
  | cons amount amounts ih =>
    intro total hamounts hfits
    obtain ⟨hhead, htail⟩ := List.forall_mem_cons.1 hamounts
    obtain ⟨n, rfl⟩ := hhead
    have hten : (0 : ℚ) < 10 ^ places := by positivity
    have hrest : 0 ≤ amounts.sum := by
      refine List.sum_nonneg fun amount hamount => ?_
      obtain ⟨m, rfl⟩ := htail amount hamount
      positivity
    have hjoin : ((total + n : ℕ) : ℚ) / 10 ^ places = total / 10 ^ places + n / 10 ^ places := by
      push_cast
      ring
    rw [List.sum_cons, ← add_assoc, ← hjoin] at hfits ⊢
    have hcount : total + n < 10 ^ precision := by
      have hle : ((total + n : ℕ) : ℚ) ≤ ((total + n : ℕ) / 10 ^ places + amounts.sum) * 10 ^ places := by
        rw [add_mul, div_mul_cancel₀ _ hten.ne']
        exact le_add_of_nonneg_right (mul_nonneg hrest hten.le)
      exact_mod_cast hle.trans_lt hfits
    have hstep : plus (sign * (total / 10 ^ places)) (mul (n / 10 ^ places) sign) =
        sign * ((total + n : ℕ) / 10 ^ places) := by
      have hmul : mul ((n : ℚ) / 10 ^ places) sign = sign * (n / 10 ^ places) := by
        rw [mul, mul_comm, toPrecision_signed hsign (by omega)]
      rw [hmul, plus, ← mul_add, ← hjoin, toPrecision_signed hsign hcount]
    calc addAll sign (sign * (total / 10 ^ places)) (n / 10 ^ places :: amounts)
        = addAll sign (plus (sign * (total / 10 ^ places)) (mul (n / 10 ^ places) sign)) amounts := rfl
      _ = sign * ((total + n : ℕ) / 10 ^ places + amounts.sum) := by rw [hstep, ih htail hfits]

/-! ## An accepted document -/

def signOf (operation : JsString) : ℚ := if operation = js "52" then -1 else 1

theorem signOf_eq (operation : JsString) : signOf operation = 1 ∨ signOf operation = -1 := by
  unfold signOf
  split_ifs
  · exact .inr rfl
  · exact .inl rfl

/-- A posted sale or return of the period with lines. -/
structure Header (raw : RawDocument) (dateFrom toExclusive : JsString) : Prop where
  posted : text raw.I06_PERKELTA = js "2"
  operation : text raw.I06_OP_TIP = js "51" ∨ text raw.I06_OP_TIP = js "52"
  id : text raw.I06_KODAS_PO ≠ []
  date : isDocumentDate dateFrom toExclusive ((text raw.I06_DOK_DATA).take 10) = true
  lines : raw.I07 ≠ .missing

/-- The document with these amounts. -/
def documentOf (raw : RawDocument) (amounts : List (ℚ × ℚ)) : RivileDocument :=
  let id := text raw.I06_KODAS_PO
  let operation := text raw.I06_OP_TIP
  let revenue := addAll (signOf operation) 0 (amounts.map Prod.fst)
  let cost := addAll (signOf operation) 0 (amounts.map Prod.snd)
  { id
    number := if text raw.I06_DOK_NR = [] then id else text raw.I06_DOK_NR
    date := (text raw.I06_DOK_DATA).take 10
    managerCode := text raw.I06_KODAS_MS
    revenue := cents revenue
    cost := cents cost
    margin := cents (minus revenue cost)
    operation }

/-- The lines are read and one of them is counted. -/
def Readable (lines : List RawLine) : Prop :=
  (∀ line ∈ lines, ∃ amounts, lineAmounts line = .ok amounts) ∧ countedAmounts lines ≠ []

theorem parse_lines {raw : RawDocument} {document : RivileDocument} :
    ((raw.I07.lines.foldlM (addLine (signOf (text raw.I06_OP_TIP))) {}).bind fun totals =>
        if totals.count = 0 then (.ok none : Except RivileError (Option RivileDocument))
        else .ok (some
          { id := text raw.I06_KODAS_PO
            number := if text raw.I06_DOK_NR = [] then text raw.I06_KODAS_PO else text raw.I06_DOK_NR
            date := (text raw.I06_DOK_DATA).take 10
            managerCode := text raw.I06_KODAS_MS
            revenue := cents totals.revenue
            cost := cents totals.cost
            margin := cents (minus totals.revenue totals.cost)
            operation := text raw.I06_OP_TIP })) = .ok (some document) ↔
      Readable raw.I07.lines ∧ document = documentOf raw (countedAmounts raw.I07.lines) := by
  constructor
  · intro h
    cases hfold : raw.I07.lines.foldlM (addLine (signOf (text raw.I06_OP_TIP))) {} with
    | error e =>
      rw [hfold] at h
      exact nomatch h
    | ok totals =>
      obtain ⟨hread, htotals⟩ := foldlM_addLine.1 hfold
      rw [foldl_addAmounts] at htotals
      subst htotals
      rw [hfold] at h
      simp only [Except.bind, Nat.zero_add, List.length_eq_zero_iff] at h
      by_cases hempty : countedAmounts raw.I07.lines = []
      · rw [if_pos hempty] at h
        exact nomatch h
      · rw [if_neg hempty] at h
        exact ⟨⟨hread, hempty⟩, (Option.some.inj (Except.ok.inj h)).symm⟩
  · rintro ⟨⟨hread, hcounted⟩, rfl⟩
    rw [foldlM_addLine.2 ⟨hread, rfl⟩, foldl_addAmounts]
    simp only [Except.bind, Nat.zero_add, List.length_eq_zero_iff, if_neg hcounted]
    rfl

theorem parse_iff {raw : RawDocument} {dateFrom toExclusive : JsString} {document : RivileDocument} :
    parseRivileDocument raw dateFrom toExclusive = .ok (some document) ↔
      Header raw dateFrom toExclusive ∧ Readable raw.I07.lines ∧
        document = documentOf raw (countedAmounts raw.I07.lines) := by
  unfold parseRivileDocument
  by_cases hposted : text raw.I06_PERKELTA ≠ js "2"
  · rw [if_pos hposted]
    exact ⟨(nomatch ·), fun h => absurd h.1.posted hposted⟩
  rw [if_neg hposted]
  dsimp only
  by_cases hoperation : text raw.I06_OP_TIP ≠ js "51" ∧ text raw.I06_OP_TIP ≠ js "52"
  · rw [if_pos hoperation]
    exact ⟨(nomatch ·), fun h => (h.1.operation.elim hoperation.1 hoperation.2).elim⟩
  rw [if_neg hoperation]
  by_cases hhead : text raw.I06_KODAS_PO = [] ∨
      isDocumentDate dateFrom toExclusive ((text raw.I06_DOK_DATA).take 10) = false
  · rw [if_pos hhead]
    exact ⟨(nomatch ·), fun h => (hhead.elim h.1.id (by rw [h.1.date]; exact (nomatch ·))).elim⟩
  rw [if_neg hhead]
  by_cases hlines : raw.I07 = .missing
  · rw [if_pos hlines]
    exact ⟨(nomatch ·), fun h => absurd hlines h.1.lines⟩
  rw [if_neg hlines]
  obtain ⟨hid, hdate⟩ := not_or.1 hhead
  have hheader : Header raw dateFrom toExclusive :=
    { posted := not_not.1 hposted
      operation := by
        by_contra hnot
        exact hoperation (not_or.1 hnot)
      id := hid
      date := Bool.eq_true_of_not_eq_false hdate
      lines := hlines }
  exact parse_lines.trans ⟨fun h => ⟨hheader, h⟩, fun h => h.2⟩

/-! ## A return -/

theorem text_return : text (.written (js "52")) = js "52" := by decide

theorem documentOf_returned {raw : RawDocument} (hsale : text raw.I06_OP_TIP = js "51")
    (amounts : List (ℚ × ℚ)) :
    documentOf { raw with I06_OP_TIP := .written (js "52") } amounts = (documentOf raw amounts).returned := by
  have hsign : signOf (js "52") = -signOf (js "51") := by decide
  have hall : ∀ amounts, addAll (-signOf (js "51")) 0 amounts = -addAll (signOf (js "51")) 0 amounts := by
    intro amounts
    rw [← addAll_neg, neg_zero]
  simp only [documentOf, RivileDocument.returned, text_return, hsale, hsign, hall, cents_neg, minus_neg]

theorem Header.returned {raw : RawDocument} {dateFrom toExclusive : JsString}
    (header : Header raw dateFrom toExclusive) :
    Header { raw with I06_OP_TIP := .written (js "52") } dateFrom toExclusive :=
  { header with operation := .inr text_return }

theorem parse_returned {dateFrom toExclusive : JsString} (accepted : Accepted dateFrom toExclusive)
    (hsale : text accepted.raw.I06_OP_TIP = js "51") :
    parseRivileDocument { accepted.raw with I06_OP_TIP := .written (js "52") } dateFrom toExclusive =
      .ok (some accepted.document.returned) := by
  obtain ⟨header, hread, hdocument⟩ := parse_iff.1 accepted.parsed
  refine parse_iff.2 ⟨header.returned, hread, ?_⟩
  rw [hdocument]
  exact (documentOf_returned hsale _).symm

/-! ## The exact sums -/

theorem sum_of_fits {places : ℕ} {amounts : List ℚ} (h : ∀ amount ∈ amounts, ∃ n : ℕ, amount = n / 10 ^ places) :
    ∃ n : ℕ, amounts.sum = n / 10 ^ places := by
  induction amounts with
  | nil => exact ⟨0, by rw [List.sum_nil, Nat.cast_zero, zero_div]⟩
  | cons amount amounts ih =>
    obtain ⟨⟨m, hm⟩, htail⟩ := List.forall_mem_cons.1 h
    obtain ⟨n, hn⟩ := ih htail
    exact ⟨m + n, by rw [List.sum_cons, hm, hn, Nat.cast_add, add_div]⟩

theorem addAll_of_fits {sign : ℚ} (hsign : sign = 1 ∨ sign = -1) {places : ℕ} {amounts : List ℚ}
    (h : ∀ amount ∈ amounts, ∃ n : ℕ, amount = n / 10 ^ places)
    (hfits : amounts.sum * 10 ^ places < 10 ^ precision) : addAll sign 0 amounts = sign * amounts.sum := by
  have hzero : ((0 : ℕ) : ℚ) / 10 ^ places = 0 := by rw [Nat.cast_zero, zero_div]
  have hexact : addAll sign (sign * ((0 : ℕ) / 10 ^ places)) amounts = sign * ((0 : ℕ) / 10 ^ places + amounts.sum) :=
    addAll_exact hsign h (by rwa [hzero, zero_add])
  rwa [hzero, zero_add, mul_zero] at hexact

theorem cents_signed {sign : ℚ} (hsign : sign = 1 ∨ sign = -1) (x : ℚ) : cents (sign * x) = sign * cents x := by
  rcases hsign with rfl | rfl
  · rw [one_mul, one_mul]
  · rw [neg_one_mul, neg_one_mul, cents_neg]

theorem minus_of_fits {sign : ℚ} (hsign : sign = 1 ∨ sign = -1) {places m n : ℕ} (hm : m < 10 ^ precision)
    (hn : n < 10 ^ precision) :
    minus (sign * (m / 10 ^ places)) (sign * (n / 10 ^ places)) = sign * (m / 10 ^ places - n / 10 ^ places) := by
  rw [minus, ← mul_sub]
  rcases le_total n m with hle | hle
  · have hdifference : (m : ℚ) / 10 ^ places - n / 10 ^ places = (m - n : ℕ) / 10 ^ places := by
      rw [Nat.cast_sub hle, sub_div]
    rw [hdifference, toPrecision_signed hsign (by omega)]
  · have hdifference : (m : ℚ) / 10 ^ places - n / 10 ^ places = -((n - m : ℕ) / 10 ^ places) := by
      rw [Nat.cast_sub hle, sub_div, neg_sub]
    rw [hdifference, mul_neg, toPrecision_neg, toPrecision_signed hsign (by omega)]

/-- The amounts of a document are the exact sums rounded once, with the sign. -/
theorem documentOf_exact (raw : RawDocument) {amounts : List (ℚ × ℚ)} (hfits : AmountsFit amounts) :
    let sign := signOf (text raw.I06_OP_TIP)
    let revenue := (amounts.map Prod.fst).sum
    let cost := (amounts.map Prod.snd).sum
    (documentOf raw amounts).revenue = sign * cents revenue ∧ (documentOf raw amounts).cost = sign * cents cost ∧
      (documentOf raw amounts).margin = sign * cents (revenue - cost) := by
  obtain ⟨places, hamounts, hrevenue, hcost⟩ := hfits
  have hsign := signOf_eq (text raw.I06_OP_TIP)
  have hfst : ∀ amount ∈ amounts.map Prod.fst, ∃ n : ℕ, amount = n / 10 ^ places := by
    intro amount hmem
    obtain ⟨pair, hpair, rfl⟩ := List.mem_map.1 hmem
    exact (hamounts pair hpair).1
  have hsnd : ∀ amount ∈ amounts.map Prod.snd, ∃ n : ℕ, amount = n / 10 ^ places := by
    intro amount hmem
    obtain ⟨pair, hpair, rfl⟩ := List.mem_map.1 hmem
    exact (hamounts pair hpair).2
  obtain ⟨m, hm⟩ := sum_of_fits hfst
  obtain ⟨n, hn⟩ := sum_of_fits hsnd
  have hten : (10 : ℚ) ^ places ≠ 0 := by positivity
  have hmlt : m < 10 ^ precision := by
    rw [hm, div_mul_cancel₀ _ hten] at hrevenue
    exact_mod_cast hrevenue
  have hnlt : n < 10 ^ precision := by
    rw [hn, div_mul_cancel₀ _ hten] at hcost
    exact_mod_cast hcost
  refine ⟨?_, ?_, ?_⟩
  · rw [← cents_signed hsign, ← addAll_of_fits hsign hfst hrevenue]
    rfl
  · rw [← cents_signed hsign, ← addAll_of_fits hsign hsnd hcost]
    rfl
  · rw [← cents_signed hsign, hm, hn, ← minus_of_fits hsign hmlt hnlt, ← hm, ← hn,
      ← addAll_of_fits hsign hfst hrevenue, ← addAll_of_fits hsign hsnd hcost]
    rfl

/-! ## Another order of the lines -/

theorem AmountsFit.perm {amounts others : List (ℚ × ℚ)} (h : others.Perm amounts) (hfits : AmountsFit amounts) :
    AmountsFit others := by
  obtain ⟨places, hamounts, hrevenue, hcost⟩ := hfits
  refine ⟨places, fun amount hmem => hamounts amount (h.subset hmem), ?_, ?_⟩
  · rwa [(h.map Prod.fst).sum_eq]
  · rwa [(h.map Prod.snd).sum_eq]

theorem Readable.perm {lines others : List RawLine} (h : others.Perm lines) (hread : Readable lines) :
    Readable others := by
  refine ⟨fun line hmem => hread.1 line (h.subset hmem), fun hempty => hread.2 ?_⟩
  have hcounted : (countedAmounts others).Perm (countedAmounts lines) := h.filterMap _
  exact (hempty ▸ hcounted).nil_eq.symm

theorem documentOf_perm (raw : RawDocument) {amounts others : List (ℚ × ℚ)} (h : others.Perm amounts)
    (hfits : AmountsFit amounts) : documentOf raw others = documentOf raw amounts := by
  obtain ⟨hrevenue, hcost, hmargin⟩ := documentOf_exact raw hfits
  obtain ⟨hrevenue', hcost', hmargin'⟩ := documentOf_exact raw (hfits.perm h)
  rw [(h.map Prod.fst).sum_eq] at hrevenue' hmargin'
  rw [(h.map Prod.snd).sum_eq] at hcost' hmargin'
  have hrevenues := hrevenue'.trans hrevenue.symm
  have hcosts := hcost'.trans hcost.symm
  have hmargins := hmargin'.trans hmargin.symm
  unfold documentOf at hrevenues hcosts hmargins ⊢
  dsimp only at hrevenues hcosts hmargins ⊢
  rw [hrevenues, hcosts, hmargins]

theorem parse_perm {dateFrom toExclusive : JsString} (accepted : Accepted dateFrom toExclusive)
    (hfits : accepted.Fits) {lines : List RawLine} (h : lines.Perm accepted.raw.I07.lines) :
    parseRivileDocument { accepted.raw with I07 := .array lines } dateFrom toExclusive =
      .ok (some accepted.document) := by
  obtain ⟨header, hread, hdocument⟩ := parse_iff.1 accepted.parsed
  have hheader : Header { accepted.raw with I07 := .array lines } dateFrom toExclusive :=
    { header with lines := nofun }
  refine parse_iff.2 ⟨hheader, hread.perm h, ?_⟩
  rw [hdocument]
  exact (documentOf_perm accepted.raw (h.filterMap _) hfits).symm

/-! ## Margin -/

theorem centsAgree_iff {revenue cost : ℚ} :
    cents (revenue - cost) = cents revenue - cents cost ↔ CentsAgree revenue cost := by
  refine (toPlaces_sub_iff 2 revenue cost).trans ?_
  have hless : ∀ x : ℚ, x * 10 ^ 2 < 1 / 2 ↔ x < 1 / 200 := by
    intro x
    constructor <;> intro h <;> linarith
  have heq : ∀ x : ℚ, x * 10 ^ 2 = 1 / 2 ↔ x = 1 / 200 := by
    intro x
    constructor <;> intro h <;> linarith
  rw [hless, heq]
  rfl

section Documents

variable {dateFrom toExclusive : JsString}

theorem Accepted.margin_iff (accepted : Accepted dateFrom toExclusive) (hfits : accepted.Fits) :
    accepted.document.margin = accepted.document.revenue - accepted.document.cost ↔
      CentsAgree accepted.revenue accepted.cost := by
  obtain ⟨_, _, hdocument⟩ := parse_iff.1 accepted.parsed
  obtain ⟨hrevenue, hcost, hmargin⟩ := documentOf_exact accepted.raw hfits
  have hsign : signOf (text accepted.raw.I06_OP_TIP) ≠ 0 := by
    rcases signOf_eq (text accepted.raw.I06_OP_TIP) with h | h
    · rw [h]
      exact one_ne_zero
    · rw [h]
      exact neg_ne_zero.2 one_ne_zero
  rw [hdocument, hrevenue, hcost, hmargin, ← mul_sub, mul_right_inj' hsign]
  exact centsAgree_iff

theorem cents_eq (x : ℚ) : ∃ n : ℤ, cents x = n / 100 := by
  refine ⟨roundAway (x * 10 ^ 2), ?_⟩
  rw [cents, toPlaces]
  norm_num

theorem Accepted.margin_cents (accepted : Accepted dateFrom toExclusive) :
    ∃ n : ℤ, accepted.document.margin = n / 100 := by
  obtain ⟨_, _, hdocument⟩ := parse_iff.1 accepted.parsed
  rw [hdocument]
  exact cents_eq _

/-- The margins of documents whose margin is the difference add up to the difference of the sums. -/
theorem roundMoney_margins {documents : List (Accepted dateFrom toExclusive)}
    (h : ∀ accepted ∈ documents, accepted.document.margin = accepted.document.revenue - accepted.document.cost) :
    Performance.roundMoney (documents.map fun accepted => accepted.document.margin).sum =
      (documents.map fun accepted => accepted.document.revenue).sum -
        (documents.map fun accepted => accepted.document.cost).sum := by
  have hcents : ∃ n : ℤ, (documents.map fun accepted => accepted.document.margin).sum = n / 100 := by
    clear h
    induction documents with
    | nil => exact ⟨0, by rw [List.map_nil, List.sum_nil, Int.cast_zero, zero_div]⟩
    | cons accepted documents ih =>
      obtain ⟨m, hm⟩ := accepted.margin_cents
      obtain ⟨n, hn⟩ := ih
      exact ⟨m + n, by rw [List.map_cons, List.sum_cons, hm, hn, Int.cast_add, add_div]⟩
  rw [Performance.roundMoney_cents hcents]
  clear hcents
  induction documents with
  | nil => simp
  | cons accepted documents ih =>
    obtain ⟨hhead, htail⟩ := List.forall_mem_cons.1 h
    simp only [List.map_cons, List.sum_cons, hhead, ih htail]
    ring

/-- For amounts that fit, the documents have the laws exactly when the errors of revenue and cost agree. -/
theorem rivile_documents (documents : List (Accepted dateFrom toExclusive))
    (hfits : ∀ accepted ∈ documents, accepted.Fits) :
    DocumentLaws documents ↔ ∀ accepted ∈ documents, CentsAgree accepted.revenue accepted.cost := by
  constructor
  · intro laws accepted hmem
    exact (accepted.margin_iff (hfits accepted hmem)).1 (laws.margin accepted hmem)
  · intro hagree
    have hmargin : ∀ accepted ∈ documents,
        accepted.document.margin = accepted.document.revenue - accepted.document.cost := by
      intro accepted hmem
      exact (accepted.margin_iff (hfits accepted hmem)).2 (hagree accepted hmem)
    refine ⟨hmargin, fun accepted _ hsale => parse_returned accepted hsale, ?_, ?_⟩
    · intro accepted hmem lines hperm
      exact parse_perm accepted (hfits accepted hmem) hperm
    · intro selected
      exact roundMoney_margins fun accepted hmem => hmargin accepted (List.mem_filter.1 hmem).1

end Documents

/-! ## Two documents -/

def line (suma cost : String) : RawLine :=
  ⟨.written (js "4001"), .written (js "1"), .written (js suma), .written (js cost)⟩

def raw (operation : String) (lines : RawLines) : RawDocument :=
  { I06_PERKELTA := .written (js "2")
    I06_OP_TIP := .written (js operation)
    I06_KODAS_PO := .written (js "PO1")
    I06_DOK_DATA := .written (js "2025-06-03 00:00:00")
    I06_DOK_NR := .written (js "A-17")
    I06_KODAS_MS := .written (js "M1")
    I07 := lines }

/-- A sale with half a cent in one line, and its return. -/
def sale : Accepted (js "2025-06-01") (js "2025-07-01") where
  raw := raw "51" (.array [line "1 000,50" "-700.25", line "0.005" "0"])
  document := ⟨js "PO1", js "A-17", js "2025-06-03", js "M1", 1000.51, 700.25, 300.26, js "51"⟩
  parsed := by decide +kernel

def saleReturn : Accepted (js "2025-06-01") (js "2025-07-01") where
  raw := raw "52" (.array [line "1 000,50" "-700.25", line "0.005" "0"])
  document := ⟨js "PO1", js "A-17", js "2025-06-03", js "M1", -1000.51, -700.25, -300.26, js "52"⟩
  parsed := by decide +kernel

/-- Revenue is rounded up by half a cent, and cost is rounded down. -/
def roundedApart : Accepted (js "2025-06-01") (js "2025-07-01") where
  raw := raw "51" (.single (line "10.005" "4.004"))
  document := ⟨js "PO1", js "A-17", js "2025-06-03", js "M1", 10.01, 4, 6, js "51"⟩
  parsed := by decide +kernel

theorem sale_fits : AmountsFit [(1000.5, 700.25), (0.005, 0)] := by
  refine ⟨3, ?_, by norm_num [precision], by norm_num [precision]⟩
  intro amount hmem
  rcases List.mem_pair.1 hmem with rfl | rfl
  · exact ⟨⟨1000500, by norm_num⟩, ⟨700250, by norm_num⟩⟩
  · exact ⟨⟨5, by norm_num⟩, ⟨0, by norm_num⟩⟩

theorem rivile_documents_sample : DocumentLaws [sale, saleReturn] := by
  refine (rivile_documents [sale, saleReturn] ?_).2 ?_
  · intro accepted hmem
    have hcounted : countedAmounts sale.raw.I07.lines = [(1000.5, 700.25), (0.005, 0)] := by decide +kernel
    have hfits : AmountsFit (countedAmounts sale.raw.I07.lines) := hcounted ▸ sale_fits
    rcases List.mem_pair.1 hmem with rfl | rfl
    · exact hfits
    · exact hfits
  · intro accepted hmem
    rcases List.mem_pair.1 hmem with rfl | rfl
    · decide +kernel
    · decide +kernel

theorem rivile_documents_fails : ¬DocumentLaws [roundedApart] := by
  intro laws
  have hmargin : (6 : ℚ) = 10.01 - 4 := laws.margin roundedApart List.mem_cons_self
  norm_num at hmargin

end AmoAnalytics.Workspaces.Rivile
