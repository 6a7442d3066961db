import AmoAnalytics.Lib.Effect
import AmoAnalytics.Lib.JoinedKey
import AmoAnalytics.Lib.JsMap
import AmoAnalytics.Lib.LabelTree

/-!
# The text of a document

`extract_docx` of `extract.py`: the paragraphs of the main part, of its headers and footers and of the notes that it
refers to, each as a unit under its path. The parser of an archive is a parameter; the moment at which a run is
ended from outside is part of the state.
-/

namespace AmoAnalytics.CrmControl.Docx

/-- A text: its code points. -/
abbrev Text := List Char

/-! ## Elements -/

structure Tag where
  uri : String
  name : String
  deriving DecidableEq

/-- `W + name`. -/
def w (name : String) : Tag := ⟨"http://schemas.openxmlformats.org/wordprocessingml/2006/main", name⟩

/-- `REL + name`. -/
def r (name : String) : Tag := ⟨"http://schemas.openxmlformats.org/officeDocument/2006/relationships", name⟩

/-- What an element is without its children. No name of XML has a bracket. -/
structure Node where
  tag : Tag
  attrib : List (Tag × String)
  text : Text
  named : JoinedKey.Free '[' tag.name

abbrev Element := LabelTree Node

def Node.attr (node : Node) (key : Tag) : Option String := JsMap.get? key node.attrib

mutual

/-- `element.iter()`. -/
def iter : Element → List Node
  | .node a cs => a :: iterAll cs

def iterAll : List Element → List Node
  | [] => []
  | c :: cs => iter c ++ iterAll cs

end

/-! ## The result -/

def maxText : ℕ := 200_000

def maxUnits : ℕ := 50_000

structure Locator where
  part : String
  path : Text
  deriving DecidableEq

structure TextUnit where
  locator : Locator
  text : Text
  complete : Bool
  deriving DecidableEq

structure Result where
  units : List TextUnit := []
  problems : List String := []
  textChars : ℕ := 0

namespace Result

def problem (code : String) (result : Result) : Result :=
  if result.problems.contains code then result else { result with problems := result.problems ++ [code] }

/-- `add(text, locator)`. -/
def add (text : Text) (locator : Locator) (result : Result) : Bool × Result :=
  if text = [] then (true, result)
  else if maxUnits ≤ result.units.length then (false, result.problem "UNIT_LIMIT")
  else
    let remaining := maxText - result.textChars
    if remaining = 0 then (false, result.problem "TEXT_LIMIT")
    else
      let clipped := remaining < text.length
      let text := text.take remaining
      let result := if clipped then result.problem "TEXT_LIMIT" else result
      (!clipped, { result with
        units := result.units ++ [⟨locator, text, !clipped⟩]
        textChars := result.textChars + text.length })

inductive Status
  | complete
  | unverified
  deriving DecidableEq

structure Payload where
  status : Status
  problems : List String
  textChars : ℕ
  units : List TextUnit

def payload (result : Result) : Payload :=
  let result := if result.units = [] then result.problem "NO_TEXT" else result
  { status := if result.problems = [] then .complete else .unverified
    problems := result.problems
    textChars := result.textChars
    units := result.units }

end Result

/-! ## Runs -/

/-- The result so far, and how many checks of the budget pass before one raises which failure. -/
structure State where
  result : Result
  calls : ℕ
  failure : String

abbrev Extraction := Effect State String

/-- `budget.remaining()`. -/
def remaining : Extraction Unit := fun s =>
  if s.calls = 0 then (.error s.failure, s) else (.ok (), { s with calls := s.calls - 1 })

def problem (code : String) : Extraction Unit := Effect.modify fun s => { s with result := s.result.problem code }

def problemIf (condition : Bool) (code : String) : Extraction Unit := if condition then problem code else pure ()

def add (text : Text) (locator : Locator) : Extraction Bool := fun s =>
  (.ok (s.result.add text locator).1, { s with result := (s.result.add text locator).2 })

/-! ## Paragraphs -/

/-- What `pieces` yields for an element itself. -/
def Node.piece (node : Node) : Text :=
  if node.tag = w "t" then node.text
  else if node.tag = w "tab" then ['\t']
  else if node.tag = w "br" ∨ node.tag = w "cr" then ['\n']
  else []

def Node.isParagraph (node : Node) : Bool := node.tag = w "p"

def Node.isDeletion (node : Node) : Bool := node.tag = w "del"

/-- `node.tag in (W + "p", W + "del")`. -/
def Node.endsText (node : Node) : Bool := node.isParagraph || node.isDeletion

mutual

def paragraphText : Element → Text
  | .node a cs => a.piece ++ childTexts cs

/-- The pieces of the children, of none that is a paragraph or a deletion. -/
def childTexts : List Element → Text
  | [] => []
  | c :: cs => (if c.label.endsText then [] else paragraphText c) ++ childTexts cs

end

/-! ## The walk over a part -/

/-- The ids of the notes that the document refers to; a reference without an id gives none. -/
structure WantedNotes where
  footnote : List (Option String)
  endnote : List (Option String)

/-- A note that the document does not refer to. -/
def WantedNotes.omits (wanted : WantedNotes) (node : Node) : Bool :=
  node.tag.name = "footnote" && !wanted.footnote.contains (node.attr (w "id")) ||
    node.tag.name = "endnote" && !wanted.endnote.contains (node.attr (w "id"))

/-- `"/" + child_tag + "[" + str(count) + "]"`. -/
def component (step : String × ℕ) : Text := '/' :: step.1.toList ++ '[' :: (toString step.2).toList ++ [']']

mutual

def walk (part : String) (wanted : WantedNotes) : Element → Text → Extraction Bool
  | .node a cs, location => do
    remaining
    if wanted.omits a || a.isDeletion then pure true
    else do
      let added ← (if a.isParagraph then add (paragraphText (.node a cs)) ⟨part, location⟩ else pure true :
        Extraction Bool)
      if added then walkChildren part wanted cs location [] else pure false

def walkChildren (part : String) (wanted : WantedNotes) : List Element → Text → List (String × ℕ) → Extraction Bool
  | [], _, _ => pure true
  | c :: cs, location, counts => do
    let count := (JsMap.get? c.label.tag.name counts).getD 0 + 1
    let finished ← walk part wanted c (location ++ component (c.label.tag.name, count))
    if finished then walkChildren part wanted cs location (JsMap.set c.label.tag.name count counts) else pure false

end

/-! ## The parts -/

/-- The names of an archive and what reading and parsing one of them gives. -/
structure Archive where
  names : List String
  read : String → Except String Element

def documentPart : String := "word/document.xml"

def relationshipsPart : String := "word/_rels/document.xml.rels"

def attributesOf (document : Element) (tag key : Tag) : List (Option String) :=
  ((iter document).filter (·.tag = tag)).map (·.attr key)

def references (document : Element) : List (Option String) :=
  ((iter document).filter fun node => node.tag = w "headerReference" || node.tag = w "footerReference").map
    (·.attr (r "id"))

def wantedNotes (document : Element) : WantedNotes :=
  ⟨attributesOf document (w "footnoteReference") (w "id"), attributesOf document (w "endnoteReference") (w "id")⟩

/-- The parts that are required, the references that are left and the problems. -/
structure Scan where
  references : List (Option String)
  parts : List String := [documentPart]
  problems : List String := []

/-- A target outside the directory of the document. -/
def leavesDirectory (rel : Node) (target : String) : Bool :=
  rel.attr ⟨"", "TargetMode"⟩ = some "External" || target.startsWith "/" || (target.splitOn "/").contains ".." ||
    target.contains '\\'

def Scan.add (names : List String) (wanted : WantedNotes) (scan : Scan) (rel : Element) : Scan :=
  let target := (rel.label.attr ⟨"", "Target"⟩).getD ""
  let kind := (((rel.label.attr ⟨"", "Type"⟩).getD "").splitOn "/").getLastD ""
  let id := rel.label.attr ⟨"", "Id"⟩
  let required := scan.references.contains id || kind = "footnotes" && !wanted.footnote.isEmpty ||
    kind = "endnotes" && !wanted.endnote.isEmpty
  if !required then scan
  else
    let unresolved := leavesDirectory rel.label target || !names.contains ("word/" ++ target)
    { references := scan.references.filter (· ≠ id)
      parts := if unresolved then scan.parts else scan.parts ++ ["word/" ++ target]
      problems := if unresolved then scan.problems ++ ["DOCX_UNRESOLVED_PART"] else scan.problems }

def Archive.scan (archive : Archive) (document : Element) : Except String Scan := do
  let scan : Scan := { references := references document }
  if archive.names.contains relationshipsPart then
    let relationships ← archive.read relationshipsPart
    pure (relationships.children.foldl (Scan.add archive.names (wantedNotes document)) scan)
  else pure scan

def hasTag (tree : Element) (names : List String) : Bool := (iter tree).any fun node => names.contains node.tag.name

/-- One part; whether no limit ended it. -/
def extractPart (archive : Archive) (document : Element) (part : String) : Extraction Bool := do
  remaining
  let tree ← (if part = documentPart then pure document else Effect.ofExcept (archive.read part) : Extraction Element)
  problemIf (hasTag tree ["ins", "del", "moveFrom", "moveTo"]) "DOCX_TRACKED_CHANGES"
  problemIf (hasTag tree ["drawing", "pict", "object", "altChunk", "oMath", "oMathPara"]) "DOCX_UNSUPPORTED_CONTENT"
  problemIf (hasTag tree ["fldSimple", "instrText"]) "DOCX_FIELDS_NOT_RECALCULATED"
  walk part (wantedNotes document) tree (component (tree.label.tag.name, 1))

def extractParts (archive : Archive) (document : Element) : List String → Extraction Unit
  | [] => pure ()
  | part :: parts => do
    let finished ← extractPart archive document part
    if finished then extractParts archive document parts else pure ()

/-- `extract_docx`; opening the archive may fail. -/
def extractDocx (opened : Except String Archive) : Extraction Unit := do
  let archive ← Effect.ofExcept opened
  let document ← Effect.ofExcept (archive.read documentPart)
  let scan ← Effect.ofExcept (archive.scan document)
  Effect.each problem scan.problems
  problemIf (!scan.references.isEmpty) "DOCX_UNRESOLVED_PART"
  problemIf (archive.names.any fun name => name.toLower.endsWith "vbaproject.bin") "UNSUPPORTED_ACTIVE_CONTENT"
  extractParts archive document (JsMap.distinct scan.parts)
  let wanted := wantedNotes document
  problemIf (!wanted.footnote.isEmpty && !scan.parts.any (·.endsWith "footnotes.xml")) "DOCX_UNRESOLVED_PART"
  problemIf (!wanted.endnote.isEmpty && !scan.parts.any (·.endsWith "endnotes.xml")) "DOCX_UNRESOLVED_PART"

/-- The result before the document is read. -/
def start (mimeMismatch : Bool) (calls : ℕ) (failure : String) : State :=
  ⟨{ problems := if mimeMismatch then ["MIME_MISMATCH"] else [] }, calls, failure⟩

/-- The payload of a document: a failure is one of its problems. -/
def extract (opened : Except String Archive) (mimeMismatch : Bool) (calls : ℕ) (failure : String) : Result.Payload :=
  match extractDocx opened (start mimeMismatch calls failure) with
  | (.ok (), s) => s.result.payload
  | (.error code, s) => (s.result.problem code).payload

end AmoAnalytics.CrmControl.Docx
