import AmoAnalytics.Lib.JsMap
import AmoAnalytics.Lib.JsValue

/-!
# The shipment link policy

`shipment-link-policy.ts`: which source deal a shipment belongs to, by its invoice number and its documents,
and which employee an event of the source names.
-/

namespace AmoAnalytics.Workspaces

open JsText

/-! ## Identifiers -/

/-- `responsible_user.id` of the first element, if it is a number other than 0. -/
def responsibleExternalId (value : JsValue) : Option JsString :=
  let item := match value with
    | .arr items => items.head?.getD .undefined
    | value => value
  (((item.get "responsible_user").get "id").text).filter fun id =>
    !id.isEmpty && id.all isDigit && id ≠ js "0"

/-- `s.trim()`. -/
def trim (s : JsString) : JsString := ((s.dropWhile isSpace).reverse.dropWhile isSpace).reverse

/-- The texts that stand for no number. -/
def noIdentifier : List String := ["0", "null", "нет", "без номера", "-", "n/a"]

/-- `identifier`: a text or a number that says something. -/
def identifier (value : JsValue) : Option JsString :=
  match value with
  | .str _ | .num _ =>
    (value.text.map trim).filter fun result =>
      !result.isEmpty && !noIdentifier.any fun word => (js word).map canonicalize = result.map canonicalize
  | _ => none

/-- The keys under which amoCRM stores the id of a file. -/
def fileKeys : List String := ["file_uuid", "uuid", "file_id", "version_uuid"]

mutual

/-- `fileIds`: every id of a file in a value, once. -/
def fileIds : JsValue → List JsString
  | .arr items => JsMap.distinct (fileIdsOf items)
  | .obj fields => JsMap.distinct (fileIdsIn fields)
  | _ => []

def fileIdsOf : List JsValue → List JsString
  | [] => []
  | item :: items => fileIds item ++ fileIdsOf items

def fileIdsIn : List (JsString × JsValue) → List JsString
  | [] => []
  | (key, child) :: fields =>
    (match child with
      | .str id => if fileKeys.any (js · = key) && decide (16 ≤ id.length) then [id] else []
      | child => fileIds child) ++ fileIdsIn fields

end

/-! ## The choice of a source -/

/-- A deal as the reconciliation reads it. -/
structure Card where
  id : String
  invoice : JsValue
  document : JsValue
  createdAt : ℤ
  updatedAt : ℤ
  pipelineId : String
  responsibleId : Option String

inductive SourceStatus
  | identified
  | ambiguous
  | unresolved
  deriving DecidableEq

/-- The JSON of `evidence`, with the keys that the code writes. -/
structure Evidence where
  reason : Option String := none
  candidateCount : Option ℕ := none
  invoiceHash : Option String := none
  documentHashes : List String := []
  basis : Option String := none
  paidEventId : Option String := none
  paidAt : Option ℤ := none
  confirmedBy : Option String := none
  confirmedAt : Option ℤ := none
  allocationConfirmed : Option Bool := none
  deriving DecidableEq

structure Selected where
  status : SourceStatus
  saleDealId : Option String
  evidence : Evidence

/-- A candidate matches when it is paid and created before the shipment, neither identifier contradicts and
one of them agrees. -/
def Card.sourceOf (shipment candidate : Card) (paidAt : Option ℤ) : Bool :=
  let invoice := identifier shipment.invoice
  let files := fileIds shipment.document
  let otherInvoice := identifier candidate.invoice
  let otherFiles := fileIds candidate.document
  let invoiceMatch := invoice.isSome && decide (otherInvoice = invoice)
  let documentMatch := otherFiles.any files.contains
  paidAt.any (· ≤ shipment.createdAt) && decide (candidate.createdAt ≤ shipment.createdAt) &&
    !(invoice.isSome && otherInvoice.isSome && decide (invoice ≠ otherInvoice)) &&
    !(!files.isEmpty && !otherFiles.isEmpty && !documentMatch) && (invoiceMatch || documentMatch)

/-- `chooseShipmentSource`, on the candidates with the times of their last payments. -/
def chooseShipmentSource (hash : JsString → String) (shipment : Card) (candidates : List (Card × Option ℤ)) :
    Selected :=
  let invoice := identifier shipment.invoice
  let files := fileIds shipment.document
  if invoice.isNone && files.isEmpty then
    ⟨.unresolved, none, { reason := some "missing-business-identifier" }⟩
  else match candidates.filter fun candidate => shipment.sourceOf candidate.1 candidate.2 with
    | [source] =>
      ⟨.identified, some source.1.id,
        { invoiceHash := invoice.map hash
          documentHashes := (files.filter (fileIds source.1.document).contains).map hash
          basis := some "unique-invoice-identity-with-confirmed-payment" }⟩
    | [] => ⟨.unresolved, none, { candidateCount := some 0 }⟩
    | sources => ⟨.ambiguous, none, { candidateCount := some sources.length }⟩

end AmoAnalytics.Workspaces
