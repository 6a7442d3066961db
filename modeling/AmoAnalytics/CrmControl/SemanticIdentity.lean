import AmoAnalytics.Lib.JsonOrder

/-!
# The identity of a semantic request

`canonicalCrmControlSemanticJson` of `crm-control-semantic.identity.ts`: a JSON text whose keys are sorted by
`localeCompare`. Its text determines the value; the value determines its text as long as `localeCompare` tells the
keys of every object apart, which it does not for two ways to write one letter.
-/

namespace AmoAnalytics.CrmControl.Semantic

open JsText AmoAnalytics.Json

section

variable (collation : Collation)

/-- `canonicalCrmControlSemanticJson`; `collation` is `localeCompare`. -/
def canonicalCrmControlSemanticJson (v : AmoAnalytics.Json) : JsString := sortedText collation v

/-! ## What the identity tells apart -/

/-- A value as `JSON.parse` builds it: one entry a key in every object. -/
structure JsonValue where
  value : AmoAnalytics.Json
  distinct : Distinct value

/-- Different requests never share a text. -/
theorem same_of_canonical_eq {a b : JsonValue}
    (h : canonicalCrmControlSemanticJson collation a.value = canonicalCrmControlSemanticJson collation b.value) :
    Same a.value b.value := by
  rw [canonicalCrmControlSemanticJson, canonicalCrmControlSemanticJson,
    sortedText_eq_iff collation a.distinct b.distinct] at h
  have hb := same_arrange collation b.value
  rw [← h] at hb
  exact (same_arrange collation a.value).trans hb.symm

/-- The text of a value is that of the same values and of no other, and parses to the value up to the order of the
keys. -/
def CanonicalFor (a : JsonValue) : Prop :=
  (∀ b : JsonValue, canonicalCrmControlSemanticJson collation a.value =
    canonicalCrmControlSemanticJson collation b.value ↔ Same a.value b.value) ∧
  ∃ parsed, parse (canonicalCrmControlSemanticJson collation a.value) = some parsed ∧ Same a.value parsed

theorem canonical_for_iff (a : JsonValue) : CanonicalFor collation a ↔ Untied collation a.value := by
  constructor
  · intro h
    have hreversed := (h.1 ⟨reversed a.value, distinct_reversed a.distinct⟩).2 (same_reversed a.value)
    rw [canonicalCrmControlSemanticJson, canonicalCrmControlSemanticJson,
      sortedText_eq_iff collation a.distinct (distinct_reversed a.distinct)] at hreversed
    exact untied_of_arrange_reversed a.distinct hreversed.symm
  · intro h
    refine ⟨fun b => ⟨same_of_canonical_eq collation, fun hsame => ?_⟩, ?_⟩
    · rw [canonicalCrmControlSemanticJson, canonicalCrmControlSemanticJson,
        sortedText_eq_iff collation a.distinct b.distinct]
      exact arrange_eq_of_same hsame a.distinct h
    · exact ⟨_, parse_sortedText collation a.distinct, same_arrange collation a.value⟩

end

/-! ## Two ways to write one letter -/

/-- The letter o with two dots, as one character and as two. -/
def decomposed (s : JsString) : List ℕ := s.flatMap fun c => if c = 0xF6 then [0x6F, 0x308] else [c.toNat]

/-- The order of the units, canonically equivalent texts being equal. -/
def equivalentOrder : Collation where
  le a b := decomposed a ≤ decomposed b
  total a b := by
    rw [Bool.or_eq_true, decide_eq_true_eq, decide_eq_true_eq]
    exact le_total _ _
  trans a b c hab hbc := by
    rw [decide_eq_true_eq] at hab hbc ⊢
    exact le_trans hab hbc

/-- Two keys that `localeCompare` takes for one. -/
def umlautFields : List (JsString × AmoAnalytics.Json) := [([0xF6], .null), ([0x6F, 0x308], .bool true)]

theorem umlautFields_distinct {fields : List (JsString × AmoAnalytics.Json)} (h : fields.Perm umlautFields) :
    Distinct (.obj fields) := by
  refine .obj ?_ fun field hfield => ?_
  · rw [(h.map Prod.fst).nodup_iff]
    decide
  · rw [h.mem_iff] at hfield
    rcases List.mem_cons.1 hfield with rfl | hfield
    · exact .null
    · rw [List.mem_singleton.1 hfield]
      exact .bool true

/-- The same value in two orders has two texts. -/
theorem tied_keys_two_texts :
    Same (.obj umlautFields) (.obj umlautFields.reverse) ∧
      canonicalCrmControlSemanticJson equivalentOrder (.obj umlautFields) ≠
        canonicalCrmControlSemanticJson equivalentOrder (.obj umlautFields.reverse) ∧
      ¬CanonicalFor equivalentOrder ⟨.obj umlautFields, umlautFields_distinct (.refl _)⟩ := by
  have hsame : Same (.obj umlautFields) (.obj umlautFields.reverse) :=
    .obj (List.forall₂_same.2 fun field _ => .mk (Same.refl field.2)) (List.reverse_perm _).symm
  have hne : canonicalCrmControlSemanticJson equivalentOrder (.obj umlautFields) ≠
      canonicalCrmControlSemanticJson equivalentOrder (.obj umlautFields.reverse) := by
    have hsort : ∀ fields : List (JsString × JsString),
        (fields.Pairwise fun f g => equivalentOrder.entryLe f g = true) → equivalentOrder.sort fields = fields :=
      fun fields => List.mergeSort_of_pairwise
    rw [canonicalCrmControlSemanticJson, canonicalCrmControlSemanticJson, sortedText, sortedText,
      hsort _ (by decide +kernel), hsort _ (by decide +kernel)]
    decide +kernel
  exact ⟨hsame, hne, fun h => hne ((h.1 ⟨_, umlautFields_distinct (List.reverse_perm _)⟩).2 hsame)⟩

end AmoAnalytics.CrmControl.Semantic
