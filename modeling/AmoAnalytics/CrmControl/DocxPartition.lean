import AmoAnalytics.CrmControl.DocxText

/-!
# The units of a document

The walk over the paragraphs and the collector of their texts share the text of a document among them: an element
with text belongs to its nearest paragraph and to no other, wherever paragraphs, notes and deletions are nested.
-/

namespace AmoAnalytics.CrmControl.Docx

open LabelTree

/-! ## The units of a walk -/

/-- The elements that end a walk: deletions and notes without a reference. -/
def WantedNotes.skips (wanted : WantedNotes) (node : Node) : Bool := wanted.omits node || node.isDeletion

/-- The path of an element from the path of the root. -/
def path (location : Text) (tree : Element) (a : Address) : Text :=
  location ++ (steps (·.tag.name) tree a).flatMap component

/-- The unit of a paragraph with text. -/
def unitAt (part : String) (location : Text) (tree : Element) (a : Address) : Option TextUnit :=
  (sub? a tree).bind fun u =>
    if u.label.isParagraph && paragraphText u ≠ [] then some ⟨⟨part, path location tree a⟩, paragraphText u, true⟩
    else none

def units (part : String) (wanted : WantedNotes) (location : Text) (tree : Element) : List TextUnit :=
  (tree.reached wanted.skips).filterMap (unitAt part location tree)

/-- A limit is among the problems. -/
def Limited (result : Result) : Prop := "UNIT_LIMIT" ∈ result.problems ∨ "TEXT_LIMIT" ∈ result.problems

theorem mem_problem (code : String) (result : Result) : code ∈ (result.problem code).problems := by
  unfold Result.problem
  split_ifs with h
  · exact List.contains_iff_mem.1 h
  · exact List.mem_append_right _ List.mem_cons_self

theorem mem_problem_of_mem {code other : String} {result : Result} (h : other ∈ result.problems) :
    other ∈ (result.problem code).problems := by
  unfold Result.problem
  split_ifs
  · exact h
  · exact List.mem_append_left _ h

@[simp] theorem problem_units (code : String) (result : Result) : (result.problem code).units = result.units := by
  unfold Result.problem
  split_ifs <;> rfl

theorem Limited.problem {result : Result} (h : Limited result) (code : String) : Limited (result.problem code) :=
  h.imp mem_problem_of_mem mem_problem_of_mem

/-- A text becomes a unit as a whole, or a limit is noted. -/
theorem add_spec (text : Text) (locator : Locator) (result : Result) :
    ((result.add text locator).1 = true →
      (result.add text locator).2.units = result.units ++ if text = [] then [] else [⟨locator, text, true⟩]) ∧
    ((result.add text locator).1 = false → Limited (result.add text locator).2) := by
  unfold Result.add
  by_cases hempty : text = []
  · rw [if_pos hempty, if_pos hempty, List.append_nil]
    exact ⟨fun _ => rfl, nofun⟩
  rw [if_neg hempty, if_neg hempty]
  by_cases hunits : maxUnits ≤ result.units.length
  · rw [if_pos hunits]
    exact ⟨nofun, fun _ => .inl (mem_problem _ _)⟩
  rw [if_neg hunits]
  by_cases hroom : maxText - result.textChars = 0
  · dsimp only
    rw [if_pos hroom]
    exact ⟨nofun, fun _ => .inr (mem_problem _ _)⟩
  dsimp only
  rw [if_neg hroom]
  by_cases hclipped : maxText - result.textChars < text.length
  · rw [decide_eq_true hclipped, if_pos hclipped]
    exact ⟨nofun, fun _ => .inr (mem_problem _ _)⟩
  · rw [decide_eq_false hclipped, if_neg hclipped, List.take_of_length_le (Nat.le_of_not_lt hclipped)]
    exact ⟨fun _ => rfl, nofun⟩

/-- After a run that finished the units are more by these, and after one that did not a limit is noted. -/
def Adds (before added : List TextUnit) (finished : Bool) (s : State) : Prop :=
  if finished then s.result.units = before ++ added else Limited s.result

section Walk

variable {part : String} {wanted : WantedNotes} {before : List TextUnit}

/-- What holds while nothing is done to the units. -/
def Holding (before : List TextUnit) (s : State) : Prop := s.result.units = before

theorem triple_remaining : Effect.Triple (Holding before) remaining (fun _ => Holding before) fun _ _ => True := by
  intro s hs
  unfold remaining
  split_ifs
  · trivial
  · exact hs

theorem triple_add (before : List TextUnit) (text : Text) (locator : Locator) :
    Effect.Triple (Holding before) (add text locator)
      (Adds before (if text = [] then [] else [⟨locator, text, true⟩])) fun _ _ => True := by
  intro s hs
  obtain ⟨hadded, hlimited⟩ := add_spec text locator s.result
  change Adds _ _ (s.result.add text locator).1 { s with result := (s.result.add text locator).2 }
  unfold Adds
  cases hdone : (s.result.add text locator).1 with
  | true =>
    rw [if_pos rfl, hadded hdone, hs]
  | false => exact hlimited hdone

end Walk

/-! ## The counts of the siblings -/

/-- The counts are those of the names so far. -/
def Counted (counts : List (String × ℕ)) (names : List String) : Prop :=
  ∀ name, (JsMap.get? name counts).getD 0 = names.count name

theorem Counted.nil : Counted [] [] := fun _ => rfl

theorem Counted.set {counts : List (String × ℕ)} {names : List String} (h : Counted counts names) (name : String) :
    Counted (JsMap.set name ((JsMap.get? name counts).getD 0 + 1) counts) (names ++ [name]) := by
  intro other
  rw [JsMap.get?_set, List.count_append, List.count_singleton, h name]
  by_cases hname : name = other
  · subst hname
    simp
  · rw [if_neg hname, h other, if_neg (by simpa using hname), Nat.add_zero]

/-! ## The walk gives the units -/

section Walk

variable {part : String} {wanted : WantedNotes} {before : List TextUnit} {tree : Element} {location : Text}

theorem unitAt_cons {i : ℕ} {c : Element} (h : tree.children[i]? = some c) (b : Address) :
    unitAt part location tree (i :: b) =
      unitAt part (location ++ component (step (·.tag.name) tree.children i c)) c b := by
  rw [unitAt, unitAt, sub?, h, Option.bind_some, path, path, steps, h, List.flatMap_cons, List.append_assoc]

/-- The units of the children from a position on. -/
theorem walkChildren_spec (before : List TextUnit)
    (ih : ∀ c ∈ tree.children, ∀ location before, Effect.Triple (Holding before) (walk part wanted c location)
      (Adds before (units part wanted location c)) fun _ _ => True)
    (done : List Element) {cs : List Element} (hchildren : tree.children = done ++ cs) {counts : List (String × ℕ)}
    (hcounts : Counted counts (done.map (·.label.tag.name))) :
    Effect.Triple (Holding before) (walkChildren part wanted cs location counts)
      (Adds before ((reachedForest wanted.skips cs done.length).filterMap (unitAt part location tree)))
      fun _ _ => True := by
  induction cs generalizing done counts before with
  | nil =>
    rw [walkChildren]
    exact .pure fun s hs => by
      rw [Adds, if_pos rfl, hs, reachedForest, List.filterMap_nil, List.append_nil]
  | cons c cs ihcs =>
    have hget : tree.children[done.length]? = some c := by
      rw [hchildren, List.getElem?_append_right le_rfl, Nat.sub_self]
      rfl
    have hstep : (c.label.tag.name, (JsMap.get? c.label.tag.name counts).getD 0 + 1) =
        step (·.tag.name) tree.children done.length c := by
      rw [step, hcounts, hchildren, List.take_left]
    have hunits : ((c.reached wanted.skips).map (done.length :: ·)).filterMap (unitAt part location tree) =
        units part wanted (location ++ component (step (·.tag.name) tree.children done.length c)) c := by
      rw [List.filterMap_map, units]
      exact List.filterMap_congr fun b _ => unitAt_cons hget b
    rw [walkChildren, hstep, reachedForest, List.filterMap_append, hunits]
    refine .bind (ih c (hchildren ▸ List.mem_append_right _ List.mem_cons_self) _ _) fun finished => ?_
    cases finished with
    | false => exact .pure fun s hs => hs
    | true =>
      rw [if_pos rfl]
      have hrest := ihcs
        (before ++ units part wanted (location ++ component (step (·.tag.name) tree.children done.length c)) c)
        (done ++ [c]) (by rw [hchildren, List.append_assoc, List.singleton_append])
        (by rw [List.map_append]; exact hcounts.set _)
      rw [List.length_append, List.length_singleton] at hrest
      refine hrest.conseq (fun s hs => hs) (fun ok s hs => ?_) fun _ _ h => h
      unfold Adds at hs ⊢
      rwa [List.append_assoc] at hs

theorem units_node {a : Node} {cs : List Element} (h : wanted.skips a = false) :
    units part wanted location (.node a cs) =
      (if a.isParagraph && paragraphText (.node a cs) ≠ [] then
        [⟨⟨part, location⟩, paragraphText (.node a cs), true⟩] else []) ++
      (reachedForest wanted.skips cs 0).filterMap (unitAt part location (.node a cs)) := by
  have hroot : unitAt part location (.node a cs) [] =
      if a.isParagraph && paragraphText (.node a cs) ≠ [] then
        some ⟨⟨part, location⟩, paragraphText (.node a cs), true⟩ else none := by
    change (if a.isParagraph && _ then some (TextUnit.mk ⟨part, location ++ []⟩ _ true) else none) = _
    rw [List.append_nil]
  rw [units, reached, if_neg (by rw [h]; exact Bool.false_ne_true), List.filterMap_cons, hroot]
  split_ifs <;> rfl

/-- A walk that finishes has added the unit of every paragraph it reaches. -/
theorem walk_spec (tree : Element) : ∀ location before,
    Effect.Triple (Holding before) (walk part wanted tree location) (Adds before (units part wanted location tree))
      fun _ _ => True := by
  induction tree using LabelTree.induct with
  | node a cs ih =>
    intro location before
    rw [walk]
    refine .bind triple_remaining fun _ => ?_
    change Effect.Triple _ (if wanted.skips a = true then pure true else _) _ _
    by_cases hskip : wanted.skips a = true
    · rw [if_pos hskip]
      refine .pure fun s hs => ?_
      rw [Adds, if_pos rfl, units, reached, if_pos hskip, List.filterMap_nil, List.append_nil, hs]
    · rw [if_neg hskip, units_node (Bool.eq_false_of_not_eq_true hskip)]
      generalize hown : (if a.isParagraph && paragraphText (.node a cs) ≠ [] then
        [(⟨⟨part, location⟩, paragraphText (.node a cs), true⟩ : TextUnit)] else []) = own
      have hfirst : Effect.Triple (Holding before)
          (if a.isParagraph then add (paragraphText (.node a cs)) ⟨part, location⟩ else pure true)
          (Adds before own) fun _ _ => True := by
        subst hown
        cases hparagraph : a.isParagraph with
        | true =>
          have hadd := triple_add before (paragraphText (.node a cs)) ⟨part, location⟩
          by_cases htext : paragraphText (.node a cs) = []
          · simpa [htext] using hadd
          · simpa [htext] using hadd
        | false => exact .pure fun s hs => by rw [Adds, if_pos rfl, hs]; simp
      refine .bind hfirst fun added => ?_
      cases added with
      | false => exact .pure fun s hs => hs
      | true =>
        rw [if_pos rfl]
        have hchildren := @walkChildren_spec part wanted (.node a cs) location (before ++ own) ih [] cs rfl []
          Counted.nil
        refine hchildren.conseq (fun s hs => hs) (fun ok s hs => ?_) fun _ _ h => h
        unfold Adds at hs ⊢
        rwa [List.append_assoc] at hs

end Walk

/-! ## The parts of a document -/

/-- A part that is read. -/
structure Source where
  part : String
  tree : Element

def Source.root (source : Source) : Text := component (source.tree.label.tag.name, 1)

def Source.units (wanted : WantedNotes) (source : Source) : List TextUnit :=
  Docx.units source.part wanted source.root source.tree

/-- The parts of an archive, each read and none left out, and the units of their paragraphs. -/
structure Extracted (archive : Archive) (document : Element) (sources : List Source) (units : List TextUnit) :
    Prop where
  main : archive.read documentPart = .ok document
  parts : ∃ scan, archive.scan document = .ok scan ∧ sources.map (·.part) = JsMap.distinct scan.parts
  read : ∀ source ∈ sources, archive.read source.part = .ok source.tree
  units : units = sources.flatMap (Source.units (wantedNotes document))

section Parts

variable {archive : Archive} {document : Element} {before : List TextUnit}

theorem triple_problemIf {P : State → Prop} (h : ∀ s code, P s → P { s with result := s.result.problem code })
    (condition : Bool) (code : String) :
    Effect.Triple P (problemIf condition code) (fun _ => P) fun _ _ => True := by
  unfold problemIf
  split_ifs
  · exact .modify fun s hs => h s code hs
  · exact .pure fun _ hs => hs

theorem Holding.problem (s : State) (code : String) (h : Holding before s) :
    Holding before { s with result := s.result.problem code } := (problem_units code s.result).trans h

theorem extractPart_spec (hdocument : archive.read documentPart = .ok document) (part : String) :
    Effect.Triple (Holding before) (extractPart archive document part)
      (fun finished s => ∃ tree, archive.read part = .ok tree ∧
        Adds before (Source.units (wantedNotes document) ⟨part, tree⟩) finished s) fun _ _ => True := by
  have htree : Effect.Triple (Holding before)
      (if part = documentPart then pure document else Effect.ofExcept (archive.read part))
      (fun tree s => Holding before s ∧ archive.read part = .ok tree) fun _ _ => True := by
    split_ifs with hpart
    · exact .pure fun s hs => ⟨hs, hpart ▸ hdocument⟩
    · exact .ofExcept (fun s tree hs hread => ⟨hs, hread⟩) fun _ _ _ _ => trivial
  unfold extractPart
  refine .bind triple_remaining fun _ => .bind htree fun tree => .of_and fun hread => ?_
  refine .bind (triple_problemIf Holding.problem _ _) fun _ => ?_
  refine .bind (triple_problemIf Holding.problem _ _) fun _ => ?_
  refine .bind (triple_problemIf Holding.problem _ _) fun _ => ?_
  exact (walk_spec tree _ _).conseq (fun _ hs => hs) (fun _ _ hs => ⟨tree, hread, hs⟩) fun _ _ h => h

/-- A limit was hit, or the parts are read and their units added. -/
def Reads (archive : Archive) (document : Element) (before : List TextUnit) (parts : List String) (s : State) :
    Prop :=
  Limited s.result ∨ ∃ sources : List Source, sources.map (·.part) = parts ∧
    (∀ source ∈ sources, archive.read source.part = .ok source.tree) ∧
    s.result.units = before ++ sources.flatMap (Source.units (wantedNotes document))

theorem Reads.problem {parts : List String} (s : State) (code : String) (h : Reads archive document before parts s) :
    Reads archive document before parts { s with result := s.result.problem code } := by
  unfold Reads at h ⊢
  dsimp only
  rw [problem_units]
  exact h.imp_left fun h => h.problem code

theorem extractParts_spec (before : List TextUnit) (hdocument : archive.read documentPart = .ok document)
    (parts : List String) :
    Effect.Triple (Holding before) (extractParts archive document parts)
      (fun _ => Reads archive document before parts) fun _ _ => True := by
  induction parts generalizing before with
  | nil => exact .pure fun s hs => .inr ⟨[], rfl, nofun, by rw [hs, List.flatMap_nil, List.append_nil]⟩
  | cons part parts ih =>
    refine .bind (extractPart_spec hdocument part) fun finished => ?_
    rintro s ⟨tree, hread, hs⟩
    cases finished with
    | false => exact .inl hs
    | true =>
      have hrest := ih (before ++ Source.units (wantedNotes document) ⟨part, tree⟩)
      refine hrest.conseq (fun _ h => h) (fun _ t ht => Or.imp_right ?_ ht) (fun _ _ h => h) s hs
      rintro ⟨sources, hparts, hsources, hunits⟩
      refine ⟨⟨part, tree⟩ :: sources, by rw [List.map_cons, hparts], List.forall_mem_cons.2 ⟨hread, hsources⟩, ?_⟩
      rw [hunits, List.flatMap_cons, List.append_assoc]

/-- A run that ends without a limit has the units of all parts. -/
theorem extractDocx_spec (opened : Except String Archive) :
    Effect.Triple (Holding []) (extractDocx opened)
      (fun _ s => Limited s.result ∨ ∃ archive document sources, opened = .ok archive ∧
        Extracted archive document sources s.result.units) fun _ _ => True := by
  unfold extractDocx
  have hopen : Effect.Triple (Holding []) (Effect.ofExcept opened : Extraction Archive)
      (fun archive s => Holding [] s ∧ opened = .ok archive) fun _ _ => True :=
    .ofExcept (fun s archive hs hopened => ⟨hs, hopened⟩) fun _ _ _ _ => trivial
  refine .bind hopen fun archive => .of_and fun hopened => ?_
  have hread : Effect.Triple (Holding []) (Effect.ofExcept (archive.read documentPart) : Extraction Element)
      (fun document s => Holding [] s ∧ archive.read documentPart = .ok document) fun _ _ => True :=
    .ofExcept (fun s document hs hread => ⟨hs, hread⟩) fun _ _ _ _ => trivial
  refine .bind hread fun document => .of_and fun hdocument => ?_
  have hscans : Effect.Triple (Holding []) (Effect.ofExcept (archive.scan document) : Extraction Scan)
      (fun scan s => Holding [] s ∧ archive.scan document = .ok scan) fun _ _ => True :=
    .ofExcept (fun s scan hs hscan => ⟨hs, hscan⟩) fun _ _ _ _ => trivial
  refine .bind hscans fun scan => .of_and fun hscan => ?_
  have hproblems : Effect.Triple (Holding []) (Effect.each problem scan.problems) (fun _ => Holding [])
      fun _ _ => True :=
    Effect.Triple.each (I := fun _ => Holding []) fun _ code _ _ => .modify fun s hs => Holding.problem s code hs
  refine .bind hproblems fun _ => ?_
  refine .bind (triple_problemIf Holding.problem _ _) fun _ => ?_
  refine .bind (triple_problemIf Holding.problem _ _) fun _ => ?_
  refine .bind (extractParts_spec _ hdocument _) fun _ => ?_
  refine .bind (triple_problemIf Reads.problem _ _) fun _ => ?_
  refine (triple_problemIf Reads.problem _ _).conseq (fun _ h => h) (fun _ s hs => Or.imp_right ?_ hs) fun _ _ h => h
  rintro ⟨sources, hparts, hsources, hunits⟩
  exact ⟨archive, document, sources, hopened, ⟨hdocument, ⟨scan, hscan, hparts⟩, hsources, hunits⟩⟩

end Parts

/-! ## Paths -/

theorem digits_free (k : ℕ) : ']' ∉ (toString k).toList := by
  rw [Nat.toString_eq_ofList_toDigits, String.toList_ofList]
  intro hmem
  exact absurd (Nat.isDigit_of_mem_toDigits (by decide) le_rfl hmem) (by decide)

theorem digits_injective {k l : ℕ} (h : (toString k).toList = (toString l).toList) : k = l := by
  rw [Nat.toString_eq_ofList_toDigits, Nat.toString_eq_ofList_toDigits, String.toList_ofList,
    String.toList_ofList] at h
  rw [← Nat.ofDigitChars_ten_toDigits (n := k), h, Nat.ofDigitChars_ten_toDigits]

/-- The components of a path can be read off its text. -/
theorem components_injective {xs ys : List (String × ℕ)} (hxs : ∀ x ∈ xs, JoinedKey.Free '[' x.1)
    (hys : ∀ y ∈ ys, JoinedKey.Free '[' y.1) (h : xs.flatMap component = ys.flatMap component) : xs = ys := by
  induction xs generalizing ys with
  | nil =>
    cases ys with
    | nil => rfl
    | cons y ys => exact absurd h (by simp [component])
  | cons x xs ih =>
    cases ys with
    | nil => exact absurd h (by simp [component])
    | cons y ys =>
      have hcomponent (step : String × ℕ) (rest : Text) :
          component step ++ rest = '/' :: (step.1.toList ++ '[' :: ((toString step.2).toList ++ ']' :: rest)) := by
        simp [component]
      rw [List.flatMap_cons, List.flatMap_cons, hcomponent, hcomponent] at h
      obtain ⟨hname, hrest⟩ := JoinedKey.append_cons_inj_left (hxs x List.mem_cons_self) (hys y List.mem_cons_self)
        (List.cons.inj h).2
      obtain ⟨hcount, hrest⟩ := JoinedKey.append_cons_inj_left (digits_free _) (digits_free _) hrest
      rw [Prod.ext (String.ext hname) (digits_injective hcount),
        ih (fun x hx => hxs x (List.mem_cons_of_mem _ hx)) (fun y hy => hys y (List.mem_cons_of_mem _ hy)) hrest]

theorem steps_named (tree : Element) (a : Address) :
    ∀ step ∈ steps (·.tag.name) tree a, JoinedKey.Free '[' step.1 := by
  induction a generalizing tree with
  | nil => exact List.forall_mem_nil _
  | cons i a ih =>
    rw [steps]
    cases tree.children[i]? with
    | none => exact List.forall_mem_nil _
    | some c => exact List.forall_mem_cons.2 ⟨c.label.named, ih c⟩

/-- Different elements have different paths. -/
theorem path_injective {location : Text} {tree : Element} {a b : Address} (ha : (sub? a tree).isSome)
    (hb : (sub? b tree).isSome) (h : path location tree a = path location tree b) : a = b :=
  steps_injective (·.tag.name) ha hb
    (components_injective (steps_named tree a) (steps_named tree b) (List.append_cancel_left h))

/-! ## The text of a paragraph -/

/-- Text, a tab or a break. -/
def Node.isContent (node : Node) : Bool := [w "t", w "tab", w "br", w "cr"].contains node.tag

theorem Node.piece_of_not_content {node : Node} (h : node.isContent = false) : node.piece = [] := by
  simp only [isContent, List.contains_cons, List.contains_nil, Bool.or_eq_false_iff, beq_eq_false_iff_ne] at h
  rw [piece, if_neg h.1, if_neg h.2.1, if_neg (not_or.2 ⟨h.2.2.1, h.2.2.2.1⟩)]

/-- No element with text is a paragraph or ends one. -/
theorem Node.not_paragraph_of_content {node : Node} (h : node.isContent = true) :
    node.isParagraph = false ∧ node.isDeletion = false := by
  simp only [isContent, List.contains_cons, List.contains_nil, Bool.or_false, Bool.or_eq_true, beq_iff_eq] at h
  unfold isParagraph isDeletion
  rcases h with h | h | h | h <;> rw [h] <;> exact ⟨by decide, by decide⟩

def contentAt (tree : Element) (a : Address) : Bool := (sub? a tree).any (·.label.isContent)

def pieceAt (tree : Element) (a : Address) : Text := ((sub? a tree).map (·.label.piece)).getD []

theorem childTexts_eq {tree : Element}
    (ih : ∀ c ∈ tree.children, paragraphText c = (c.region Node.endsText).flatMap (pieceAt c))
    (done : List Element) {cs : List Element} (hchildren : tree.children = done ++ cs) :
    childTexts cs = (reachedForest Node.endsText cs done.length).flatMap (pieceAt tree) := by
  induction cs generalizing done with
  | nil => rfl
  | cons c cs ihcs =>
    have hget : tree.children[done.length]? = some c := by
      rw [hchildren, List.getElem?_append_right le_rfl, Nat.sub_self]
      rfl
    have hrest := ihcs (done ++ [c]) (by rw [hchildren, List.append_assoc, List.singleton_append])
    rw [List.length_append, List.length_singleton] at hrest
    have hchild : ((c.reached Node.endsText).map (done.length :: ·)).flatMap (pieceAt tree) =
        if c.label.endsText then [] else paragraphText c := by
      rw [List.flatMap_map, reached_eq]
      split_ifs
      · rfl
      · rw [ih c (hchildren ▸ List.mem_append_right _ List.mem_cons_self)]
        refine List.flatMap_congr fun b _ => ?_
        rw [pieceAt, sub?, hget]
        rfl
    rw [childTexts, reachedForest, List.flatMap_append, hchild, hrest]

theorem paragraphText_eq (tree : Element) :
    paragraphText tree = (tree.region Node.endsText).flatMap (pieceAt tree) := by
  induction tree using LabelTree.induct with
  | node a cs ih =>
    rw [paragraphText, @childTexts_eq (.node a cs) ih [] cs rfl]
    rfl

/-- The elements whose texts make up the text of a paragraph, in their order. -/
def pieces (tree : Element) : List Address :=
  (tree.region Node.endsText).filter (contentAt tree)

theorem paragraphText_pieces (tree : Element) : paragraphText tree = (pieces tree).flatMap (pieceAt tree) := by
  rw [paragraphText_eq, pieces]
  induction tree.region Node.endsText with
  | nil => rfl
  | cons b rest ih =>
    rw [List.flatMap_cons, ih]
    by_cases hcontent : contentAt tree b = true
    · rw [List.filter_cons_of_pos hcontent, List.flatMap_cons]
    · rw [List.filter_cons_of_neg hcontent]
      have hnil : pieceAt tree b = [] := by
        unfold pieceAt
        unfold contentAt at hcontent
        cases hsub : sub? b tree with
        | none => rfl
        | some u =>
          rw [hsub] at hcontent
          exact Node.piece_of_not_content (Bool.eq_false_of_not_eq_true hcontent)
      rw [hnil, List.nil_append]

/-! ## Every text in one unit -/

/-- A paragraph of a part and the elements that it takes its text from. -/
structure Paragraph where
  source : Source
  address : Address
  pieces : List Address

def Paragraph.unit (paragraph : Paragraph) : TextUnit :=
  ⟨⟨paragraph.source.part, path paragraph.source.root paragraph.source.tree paragraph.address⟩,
    paragraph.pieces.flatMap (pieceAt paragraph.source.tree), true⟩

/-- The paragraph at an address, if there is one with a text. -/
def Source.paragraph? (source : Source) (q : Address) : Option Paragraph :=
  (sub? q source.tree).bind fun u =>
    if u.label.isParagraph && paragraphText u ≠ [] then some ⟨source, q, (Docx.pieces u).map (q ++ ·)⟩ else none

def Source.paragraphs (wanted : WantedNotes) (source : Source) : List Paragraph :=
  (source.tree.reached wanted.skips).filterMap source.paragraph?

section Paragraphs

variable {wanted : WantedNotes} {source : Source} {q a : Address} {p : Paragraph}

theorem Source.paragraph?_eq_some (h : source.paragraph? q = some p) :
    ∃ u, sub? q source.tree = some u ∧ u.label.isParagraph = true ∧ paragraphText u ≠ [] ∧
      p = ⟨source, q, (Docx.pieces u).map (q ++ ·)⟩ := by
  obtain ⟨u, hu, hp⟩ := Option.bind_eq_some_iff.1 h
  split_ifs at hp with hcond
  rw [Bool.and_eq_true, decide_eq_true_eq] at hcond
  exact ⟨u, hu, hcond.1, hcond.2, (Option.some.inj hp).symm⟩

theorem pieceAt_append {tree u : Element} (h : sub? q tree = some u) (b : Address) :
    pieceAt tree (q ++ b) = pieceAt u b := by
  rw [pieceAt, pieceAt, sub?_append, h, Option.bind_some]

theorem Source.units_eq (wanted : WantedNotes) (source : Source) :
    source.units wanted = (source.paragraphs wanted).map Paragraph.unit := by
  rw [Source.units, Docx.units, Source.paragraphs, List.map_filterMap]
  refine List.filterMap_congr fun q _ => ?_
  unfold unitAt Source.paragraph?
  cases hu : sub? q source.tree with
  | none => rfl
  | some u =>
    rw [Option.bind_some, Option.bind_some]
    split_ifs
    · have htext : ((Docx.pieces u).map (q ++ ·)).flatMap (pieceAt source.tree) = paragraphText u := by
        rw [List.flatMap_map, paragraphText_pieces]
        exact List.flatMap_congr fun b _ => pieceAt_append hu b
      rw [Option.map_some, Paragraph.unit, htext]
    · rfl

theorem mem_paragraphs : p ∈ source.paragraphs wanted ↔
    ∃ q, q ∈ source.tree.reached wanted.skips ∧ source.paragraph? q = some p := List.mem_filterMap

/-- What a paragraph takes its text from has it as the nearest one. -/
theorem nearest_of_mem_pieces (h : p ∈ source.paragraphs wanted) (ha : a ∈ p.pieces) :
    Nearest Node.isParagraph source.tree p.address a ∧ contentAt source.tree a = true := by
  obtain ⟨q, -, hp⟩ := mem_paragraphs.1 h
  obtain ⟨u, hu, hparagraph, -, rfl⟩ := Source.paragraph?_eq_some hp
  obtain ⟨b, hb, rfl⟩ := List.mem_map.1 ha
  obtain ⟨hregion, hcontent⟩ := List.mem_filter.1 hb
  have hsub : sub? (q ++ b) source.tree = sub? b u := by rw [sub?_append, hu, Option.bind_some]
  obtain ⟨v, hv, hvContent⟩ := (Option.any_eq_true _ _).1 hcontent
  refine ⟨?_, by rw [contentAt, hsub]; exact hcontent⟩
  have hstop : ∀ node : Node, node.isParagraph = true → node.endsText = true := fun node h => by
    rw [Node.endsText, h, Bool.true_or]
  exact ((mem_region_iff_nearest hstop hu hparagraph (hsub.trans hv)
    (Node.not_paragraph_of_content hvContent).1).1 hregion).1

theorem pieces_pairwise (h : p ∈ source.paragraphs wanted) : p.pieces.Pairwise (· < ·) := by
  obtain ⟨q, -, hp⟩ := mem_paragraphs.1 h
  obtain ⟨u, -, -, -, rfl⟩ := Source.paragraph?_eq_some hp
  rw [List.pairwise_map]
  exact ((pairwise_region u).filter _).imp fun hlt => List.append_left_lt hlt

theorem paragraphs_source (h : p ∈ source.paragraphs wanted) :
    p.source = source ∧ (sub? p.address source.tree).isSome := by
  obtain ⟨q, -, hp⟩ := mem_paragraphs.1 h
  obtain ⟨u, hu, -, -, rfl⟩ := Source.paragraph?_eq_some hp
  exact ⟨rfl, by rw [hu]; rfl⟩

theorem paragraphs_pairwise (wanted : WantedNotes) (source : Source) :
    (source.paragraphs wanted).Pairwise fun p p' => p.address < p'.address := by
  rw [Source.paragraphs, List.pairwise_filterMap]
  refine (pairwise_reached source.tree).imp fun {q q'} hlt p hp p' hp' => ?_
  obtain ⟨_, -, -, -, rfl⟩ := Source.paragraph?_eq_some hp
  obtain ⟨_, -, -, -, rfl⟩ := Source.paragraph?_eq_some hp'
  exact hlt

/-- An element with text below a paragraph, outside the deletions and the notes without a reference, is in the text
of its nearest paragraph. -/
theorem exists_paragraph {u : Element} (hu : sub? a source.tree = some u) (hcontent : u.label.isContent = true)
    (hpiece : u.label.piece ≠ [])
    (hbelow : ∃ q, q <+: a ∧ q ≠ a ∧ ∃ v, sub? q source.tree = some v ∧ v.label.isParagraph = true)
    (hclear : Clear wanted.skips source.tree a) : ∃ p ∈ source.paragraphs wanted, a ∈ p.pieces := by
  obtain ⟨q, hnearest⟩ := exists_nearest hbelow
  obtain ⟨v, hv, hparagraph⟩ := hnearest.marked
  obtain ⟨b, rfl⟩ := hnearest.above
  have hsub : sub? b v = some u := by rw [← hu, sub?_append, hv, Option.bind_some]
  have hregion : b ∈ v.region Node.endsText := by
    refine (mem_region_iff_nearest (fun l hl => by rw [Node.endsText, hl]; rfl) hv hparagraph hu
      (Node.not_paragraph_of_content hcontent).1).2 ⟨hnearest, fun q' hbelow hne hprefix w hw => ?_⟩
    have hskips := (Bool.or_eq_false_iff.1 (hclear q' hprefix w hw)).2
    refine Bool.or_eq_false_iff.2 ⟨?_, hskips⟩
    by_cases hself : q' = q ++ b
    · rw [hself, hu] at hw
      obtain rfl := Option.some.inj hw
      exact (Node.not_paragraph_of_content hcontent).1
    · exact hnearest.nearest q' hbelow hne hprefix hself w hw
  have hpieces : b ∈ Docx.pieces v :=
    List.mem_filter.2 ⟨hregion, by rw [contentAt, hsub]; exact hcontent⟩
  have htext : paragraphText v ≠ [] := by
    rw [paragraphText_pieces]
    intro hnil
    have hpieceNil := List.flatMap_eq_nil_iff.1 hnil b hpieces
    rw [pieceAt, hsub] at hpieceNil
    exact hpiece hpieceNil
  have hparagraph? : source.paragraph? q = some ⟨source, q, (Docx.pieces v).map (q ++ ·)⟩ := by
    rw [Source.paragraph?, hv, Option.bind_some, if_pos]
    rw [hparagraph, decide_eq_true htext]
    rfl
  refine ⟨_, mem_paragraphs.2 ⟨q, ?_, hparagraph?⟩, List.mem_map_of_mem hpieces⟩
  exact mem_reached.2 ⟨by rw [hv]; rfl, fun q' hq' => hclear q' (hq'.trans hnearest.above)⟩

end Paragraphs

/-- The units are those of some paragraphs under different locators; each is its elements' texts in document order,
and every element with text that counts is in exactly one, that of its nearest paragraph. -/
structure Partitioned (wanted : WantedNotes) (sources : List Source) (units : List TextUnit)
    (paragraphs : List Paragraph) : Prop where
  texts : units = paragraphs.map Paragraph.unit
  locators : (units.map (·.locator)).Nodup
  parts : ∀ p ∈ paragraphs, p.source ∈ sources
  ordered : ∀ p ∈ paragraphs, p.pieces.Pairwise (· < ·)
  nearest : ∀ p ∈ paragraphs, ∀ a ∈ p.pieces,
    Nearest Node.isParagraph p.source.tree p.address a ∧ contentAt p.source.tree a = true
  once : (paragraphs.flatMap fun p => p.pieces.map fun a => (p.source.part, a)).Nodup
  all : ∀ source ∈ sources, ∀ a u, sub? a source.tree = some u → u.label.isContent = true → u.label.piece ≠ [] →
    (∃ q, q <+: a ∧ q ≠ a ∧ ∃ v, sub? q source.tree = some v ∧ v.label.isParagraph = true) →
    Clear wanted.skips source.tree a → ∃ p ∈ paragraphs, p.source = source ∧ a ∈ p.pieces

theorem partitioned (wanted : WantedNotes) {sources : List Source} (hparts : (sources.map (·.part)).Nodup) :
    Partitioned wanted sources (sources.flatMap (Source.units wanted))
      (sources.flatMap (Source.paragraphs wanted)) := by
  have hmem {p : Paragraph} (hp : p ∈ sources.flatMap (Source.paragraphs wanted)) :
      p.source ∈ sources ∧ p ∈ p.source.paragraphs wanted := by
    obtain ⟨source, hsource, hp⟩ := List.mem_flatMap.1 hp
    obtain rfl := (paragraphs_source hp).1
    exact ⟨hsource, hp⟩
  have hkeys : (sources.flatMap (Source.paragraphs wanted)).Pairwise fun p p' =>
      p.source.part = p'.source.part → p.source = p'.source ∧ p.address ≠ p'.address := by
    rw [List.pairwise_flatMap]
    refine ⟨fun source _ => ?_, ?_⟩
    · refine (paragraphs_pairwise wanted source).imp_of_mem fun {p p'} hp hp' hlt _ => ?_
      exact ⟨(paragraphs_source hp).1.trans (paragraphs_source hp').1.symm, hlt.ne⟩
    · rw [List.Nodup, List.pairwise_map] at hparts
      refine hparts.imp fun {s s'} hne p hp p' hp' hpart => absurd ?_ hne
      rwa [(paragraphs_source hp).1, (paragraphs_source hp').1] at hpart
  have hunits : sources.flatMap (Source.units wanted) =
      (sources.flatMap (Source.paragraphs wanted)).map Paragraph.unit := by
    rw [List.map_flatMap]
    exact List.flatMap_congr fun source _ => source.units_eq wanted
  refine ⟨hunits, ?_, fun p hp => (hmem hp).1, fun p hp => pieces_pairwise (hmem hp).2,
    fun p hp a ha => nearest_of_mem_pieces (hmem hp).2 ha, ?_, ?_⟩
  · rw [hunits, List.map_map, List.Nodup, List.pairwise_map]
    refine hkeys.imp_of_mem fun {p p'} hp hp' hkey hlocator => ?_
    obtain ⟨hpart, hpath⟩ := Locator.mk.inj hlocator
    obtain ⟨hsource, haddress⟩ := hkey hpart
    have hfound := (paragraphs_source (hmem hp).2).2
    rw [hsource] at hpath hfound
    exact haddress (path_injective hfound (paragraphs_source (hmem hp').2).2 hpath)
  · rw [List.Nodup, List.pairwise_flatMap]
    refine ⟨fun p hp => ?_, ?_⟩
    · rw [List.pairwise_map]
      exact (pieces_pairwise (hmem hp).2).imp fun hlt heq => hlt.ne (Prod.mk.inj heq).2
    · refine hkeys.imp_of_mem fun {p p'} hp hp' hkey x hx y hy hxy => ?_
      obtain ⟨a, ha, rfl⟩ := List.mem_map.1 hx
      obtain ⟨b, hb, rfl⟩ := List.mem_map.1 hy
      obtain ⟨hpart, rfl⟩ := Prod.mk.inj hxy
      obtain ⟨hsource, haddress⟩ := hkey hpart
      have hnearest := (nearest_of_mem_pieces (hmem hp).2 ha).1
      rw [hsource] at hnearest
      exact haddress (hnearest.eq (nearest_of_mem_pieces (hmem hp').2 hb).1)
  · intro source hsource a u hu hcontent hpiece hbelow hclear
    obtain ⟨p, hp, ha⟩ := exists_paragraph hu hcontent hpiece hbelow hclear
    exact ⟨p, List.mem_flatMap.2 ⟨source, hsource, hp⟩, (paragraphs_source hp).1, ha⟩

/-! ## The document -/

theorem status_of_problem {result : Result} {code : String} (h : code ∈ result.problems) :
    result.payload.status = .unverified := by
  have hkept : code ∈ (if result.units = [] then result.problem "NO_TEXT" else result).problems := by
    split_ifs
    · exact mem_problem_of_mem h
    · exact h
  exact if_neg (List.ne_nil_of_mem hkept)

/-- A document that is read without a limit is partitioned into its units; otherwise it is not complete. -/
theorem docx_partitioned (opened : Except String Archive) (mimeMismatch : Bool) (calls : ℕ) (failure : String) :
    (∀ s, extractDocx opened (start mimeMismatch calls failure) = (.ok (), s) → ¬ Limited s.result →
      ∃ archive document sources, opened = .ok archive ∧ Extracted archive document sources s.result.units ∧
        ∃ paragraphs, Partitioned (wantedNotes document) sources s.result.units paragraphs) ∧
    ((∀ s, extractDocx opened (start mimeMismatch calls failure) = (.ok (), s) → Limited s.result) →
      (extract opened mimeMismatch calls failure).status = .unverified) := by
  have hspec := extractDocx_spec opened (start mimeMismatch calls failure) rfl
  constructor
  · intro s hrun hunlimited
    rw [hrun] at hspec
    obtain ⟨archive, document, sources, hopened, hextracted⟩ := hspec.resolve_left hunlimited
    obtain ⟨scan, -, hparts⟩ := hextracted.parts
    have hnodup : (sources.map (·.part)).Nodup := by
      rw [hparts]
      exact JsMap.nodup_keys_ofEntries _
    have hpartitioned := partitioned (wantedNotes document) hnodup
    rw [← hextracted.units] at hpartitioned
    exact ⟨archive, document, sources, hopened, hextracted, _, hpartitioned⟩
  · intro hlimited
    unfold extract
    cases hrun : extractDocx opened (start mimeMismatch calls failure) with
    | mk outcome s =>
      cases outcome with
      | ok _ => exact (hlimited s hrun).elim status_of_problem status_of_problem
      | error code => exact status_of_problem (mem_problem code s.result)

/-! ## A text box in a paragraph -/

def textElement (text : String) : Element := .node ⟨w "t", [], text.toList, by decide⟩ []

def paragraphElement (children : List Element) : Element := .node ⟨w "p", [], [], by decide⟩ children

/-- A paragraph around a text box with a paragraph of its own, and a deletion. -/
def sampleDocument : Element :=
  .node ⟨w "document", [], [], by decide⟩ [.node ⟨w "body", [], [], by decide⟩
    [paragraphElement [
      textElement "before",
      .node ⟨w "txbxContent", [], [], by decide⟩ [paragraphElement [textElement "inside"]],
      .node ⟨w "del", [], [], by decide⟩ [paragraphElement [textElement "deleted"]],
      .node ⟨w "br", [], [], by decide⟩ [],
      textElement "after"]]]

def sampleArchive : Archive where
  names := []
  read part := if part = documentPart then .ok sampleDocument else .error "DOCUMENT_PARSE_FAILED"

def sampleRun : Except String Unit × State := extractDocx (.ok sampleArchive) (start false 100 "TIME_LIMIT")

theorem eq_ok_of_isOk {run : Except String Unit × State} (h : run.1.isOk = true) : run = (.ok (), run.2) := by
  obtain ⟨outcome, s⟩ := run
  cases outcome with
  | ok _ => rfl
  | error code => exact nomatch h

theorem sampleRun_isOk : sampleRun.1.isOk = true := by decide +kernel

example :
    sampleRun.2.result.units.map (fun unit => (String.ofList unit.locator.path, String.ofList unit.text)) =
      [("/document[1]/body[1]/p[1]", "before\nafter"),
        ("/document[1]/body[1]/p[1]/txbxContent[1]/p[1]", "inside")] := by
  decide +kernel

theorem sampleRun_problems : sampleRun.2.result.problems = ["DOCX_TRACKED_CHANGES"] := by decide +kernel

theorem docx_partitioned_sample :
    ∃ archive document sources, .ok sampleArchive = (.ok archive : Except String Archive) ∧
      Extracted archive document sources sampleRun.2.result.units ∧
      ∃ paragraphs, Partitioned (wantedNotes document) sources sampleRun.2.result.units paragraphs := by
  refine (docx_partitioned (.ok sampleArchive) false 100 "TIME_LIMIT").1 sampleRun.2 (eq_ok_of_isOk sampleRun_isOk) ?_
  rw [Limited, sampleRun_problems]
  decide

end AmoAnalytics.CrmControl.Docx
