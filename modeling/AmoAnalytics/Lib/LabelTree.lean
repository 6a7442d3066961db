import Mathlib

/-!
# Labelled trees

A node with its children in their order, under addresses: the list of the child positions from the root. Two walks in
document order: one over the nodes that no skipped node is above, and one below a root up to the nodes it stops at.
The first finds the marked nodes, the second what belongs to one of them, and every node has one nearest marked node.
-/

namespace AmoAnalytics

inductive LabelTree (α : Type*)
  | node (label : α) (children : List (LabelTree α))

namespace LabelTree

/-- The child positions from the root to a node. -/
abbrev Address := List ℕ

variable {α : Type*}

def label : LabelTree α → α
  | node a _ => a

def children : LabelTree α → List (LabelTree α)
  | node _ cs => cs

/-- The induction over a tree, with the hypothesis for every child. -/
theorem induct {motive : LabelTree α → Prop} (node : ∀ a cs, (∀ c ∈ cs, motive c) → motive (.node a cs)) :
    ∀ t, motive t
  | .node a cs => node a cs fun c _ => induct node c

/-- The subtree at an address. -/
def sub? : Address → LabelTree α → Option (LabelTree α)
  | [], t => some t
  | i :: a, t => t.children[i]?.bind (sub? a)

theorem sub?_append (a b : Address) (t : LabelTree α) : sub? (a ++ b) t = (sub? a t).bind (sub? b) := by
  induction a generalizing t with
  | nil => rfl
  | cons i a ih =>
    rw [List.cons_append, sub?, sub?, Option.bind_assoc]
    exact Option.bind_congr fun c _ => ih c

/-! ## The walk past skipped nodes -/

section Walk

variable (skip : α → Bool)

mutual

/-- The addresses of the nodes with no skipped node above them or at them. -/
def reached : LabelTree α → List Address
  | node a cs => if skip a then [] else [] :: reachedForest cs 0

def reachedForest : List (LabelTree α) → ℕ → List Address
  | [], _ => []
  | c :: cs, i => (reached c).map (i :: ·) ++ reachedForest cs (i + 1)

end

/-- The addresses of the root and of the nodes below it with no skipped node between. -/
def region (t : LabelTree α) : List Address := [] :: reachedForest skip t.children 0

variable {skip} {t : LabelTree α} {a : Address}

theorem reached_eq (t : LabelTree α) : t.reached skip = if skip t.label then [] else t.region skip := by
  cases t
  rw [reached]
  rfl

theorem mem_reachedForest {cs : List (LabelTree α)} {i : ℕ} :
    a ∈ reachedForest skip cs i ↔ ∃ k c b, cs[k]? = some c ∧ b ∈ c.reached skip ∧ a = (i + k) :: b := by
  induction cs generalizing i with
  | nil => simp [reachedForest]
  | cons c cs ih =>
    rw [reachedForest, List.mem_append, List.mem_map, ih]
    constructor
    · rintro (⟨b, hb, rfl⟩ | ⟨k, c', b, hc, hb, rfl⟩)
      · exact ⟨0, c, b, rfl, hb, rfl⟩
      · exact ⟨k + 1, c', b, hc, hb, by rw [Nat.add_right_comm, Nat.add_assoc]⟩
    · rintro ⟨k, c', b, hc, hb, rfl⟩
      cases k with
      | zero =>
        obtain rfl := Option.some.inj hc
        exact .inl ⟨b, hb, rfl⟩
      | succ k => exact .inr ⟨k, c', b, hc, hb, by rw [Nat.add_right_comm, Nat.add_assoc]⟩

/-- The labels at the nodes from the root to an address, or from below the root. -/
def Clear (skip : α → Bool) (t : LabelTree α) (a : Address) : Prop :=
  ∀ q, q <+: a → ∀ u, sub? q t = some u → skip u.label = false

theorem mem_region : a ∈ t.region skip ↔
    (sub? a t).isSome ∧ ∀ q, q <+: a → q ≠ [] → ∀ u, sub? q t = some u → skip u.label = false := by
  induction a generalizing t with
  | nil => exact ⟨fun _ => ⟨rfl, fun q hq hne => absurd (List.prefix_nil.1 hq) hne⟩, fun _ => List.mem_cons_self⟩
  | cons i a ih =>
    have hmem : i :: a ∈ t.region skip ↔ ∃ c, t.children[i]? = some c ∧ a ∈ c.reached skip := by
      rw [region, List.mem_cons, or_iff_right (List.cons_ne_nil i a), mem_reachedForest]
      constructor
      · rintro ⟨k, c, b, hc, hb, heq⟩
        obtain ⟨rfl, rfl⟩ := List.cons.inj heq
        rw [Nat.zero_add]
        exact ⟨c, hc, hb⟩
      · rintro ⟨c, hc, hb⟩
        exact ⟨i, c, a, hc, hb, by rw [Nat.zero_add]⟩
    rw [hmem]
    constructor
    · rintro ⟨c, hc, ha⟩
      rw [reached_eq] at ha
      split_ifs at ha with hskip
      · exact absurd ha List.not_mem_nil
      obtain ⟨hsub, hclear⟩ := ih.1 ha
      refine ⟨by rw [sub?, hc]; exact hsub, fun q hq hne u hu => ?_⟩
      obtain ⟨j, q, rfl⟩ := List.exists_cons_of_ne_nil hne
      obtain ⟨rfl, hrest⟩ := List.cons_prefix_cons.1 hq
      rw [sub?, hc, Option.bind_some] at hu
      by_cases hnil : q = []
      · subst hnil
        obtain rfl := Option.some.inj hu
        exact Bool.not_eq_true _ ▸ hskip
      · exact hclear q hrest hnil u hu
    · rintro ⟨hsub, hclear⟩
      rw [sub?] at hsub
      obtain ⟨u, hu⟩ := Option.isSome_iff_exists.1 hsub
      obtain ⟨c, hc, hcu⟩ := Option.bind_eq_some_iff.1 hu
      refine ⟨c, hc, ?_⟩
      have hroot := hclear [i] (List.cons_prefix_cons.2 ⟨rfl, List.nil_prefix⟩) (List.cons_ne_nil _ _) c
        (by rw [sub?, hc]; rfl)
      rw [reached_eq, hroot]
      refine ih.2 ⟨by rw [hcu]; rfl, fun q hq _ u hu => ?_⟩
      exact hclear (i :: q) (List.cons_prefix_cons.2 ⟨rfl, hq⟩) (List.cons_ne_nil _ _) u (by rw [sub?, hc]; exact hu)

theorem mem_reached : a ∈ t.reached skip ↔ (sub? a t).isSome ∧ Clear skip t a := by
  rw [reached_eq]
  constructor
  · intro h
    split_ifs at h with hskip
    · exact absurd h List.not_mem_nil
    obtain ⟨hsub, hclear⟩ := mem_region.1 h
    refine ⟨hsub, fun q hq u hu => ?_⟩
    by_cases hnil : q = []
    · subst hnil
      obtain rfl := Option.some.inj hu
      exact Bool.not_eq_true _ ▸ hskip
    · exact hclear q hq hnil u hu
  · rintro ⟨hsub, hclear⟩
    have hroot : skip t.label = false := hclear [] List.nil_prefix t rfl
    rw [hroot]
    exact mem_region.2 ⟨hsub, fun q hq _ => hclear q hq⟩

/-! ## Document order -/

theorem pairwise_reachedForest {cs : List (LabelTree α)} (h : ∀ c ∈ cs, (c.reached skip).Pairwise (· < ·)) (i : ℕ) :
    (reachedForest skip cs i).Pairwise (· < ·) := by
  induction cs generalizing i with
  | nil => exact List.Pairwise.nil
  | cons c cs ih =>
    rw [reachedForest, List.pairwise_append, List.pairwise_map]
    refine ⟨(h c List.mem_cons_self).imp fun hlt => List.cons_lt_cons_self.2 hlt,
      ih (fun c hc => h c (List.mem_cons_of_mem _ hc)) (i + 1), fun a ha b hb => ?_⟩
    obtain ⟨a, -, rfl⟩ := List.mem_map.1 ha
    obtain ⟨k, c', b, -, -, rfl⟩ := mem_reachedForest.1 hb
    exact List.Lex.rel (by omega)

theorem pairwise_region (t : LabelTree α) : (t.region skip).Pairwise (· < ·) := by
  have hreached : ∀ t : LabelTree α, (t.reached skip).Pairwise (· < ·) := by
    intro t
    induction t using induct with
    | node a cs ih =>
      rw [reached]
      split_ifs
      · exact List.Pairwise.nil
      · refine List.pairwise_cons.2 ⟨fun b hb => ?_, pairwise_reachedForest ih 0⟩
        obtain ⟨k, c, b, -, -, rfl⟩ := mem_reachedForest.1 hb
        exact List.Lex.nil
  refine List.pairwise_cons.2 ⟨fun b hb => ?_, pairwise_reachedForest (fun c _ => hreached c) 0⟩
  obtain ⟨k, c, b, -, -, rfl⟩ := mem_reachedForest.1 hb
  exact List.Lex.nil

theorem pairwise_reached (t : LabelTree α) : (t.reached skip).Pairwise (· < ·) := by
  rw [reached_eq]
  split_ifs
  · exact List.Pairwise.nil
  · exact pairwise_region t

end Walk

/-! ## The nearest marked node -/

section Nearest

variable (mark : α → Bool) (t : LabelTree α)

/-- A marked node above an address with none between them. -/
structure Nearest (q a : Address) : Prop where
  above : q <+: a
  proper : q ≠ a
  marked : ∃ u, sub? q t = some u ∧ mark u.label = true
  nearest : ∀ q', q <+: q' → q' ≠ q → q' <+: a → q' ≠ a → ∀ u, sub? q' t = some u → mark u.label = false

variable {mark t} {q q' a : Address}

theorem Nearest.eq (h : Nearest mark t q a) (h' : Nearest mark t q' a) : q = q' := by
  have hnot : ∀ {q q' : Address}, Nearest mark t q a → Nearest mark t q' a → q <+: q' → q = q' := by
    intro q q' h h' hprefix
    by_contra hne
    obtain ⟨u, hu, hmarked⟩ := h'.marked
    exact Bool.noConfusion ((h.nearest q' hprefix (Ne.symm hne) h'.above h'.proper u hu).symm.trans hmarked)
  rcases List.prefix_or_prefix_of_prefix h.above h'.above with hprefix | hprefix
  · exact hnot h h' hprefix
  · exact (hnot h' h hprefix).symm

/-- Below a marked node there is a nearest one. -/
theorem exists_nearest (h : ∃ q, q <+: a ∧ q ≠ a ∧ ∃ u, sub? q t = some u ∧ mark u.label = true) :
    ∃ q, Nearest mark t q a := by
  classical
  -- The longest of the marked addresses above.
  let P : ℕ → Prop := fun k => k < a.length ∧ ∃ u, sub? (a.take k) t = some u ∧ mark u.label = true
  obtain ⟨q, hq, hne, hmarked⟩ := h
  have hlt : q.length < a.length := lt_of_le_of_ne hq.length_le fun hlen => hne (hq.eq_of_length hlen)
  have htake : a.take q.length = q := (List.prefix_iff_eq_take.1 hq).symm
  have hP : P q.length := ⟨hlt, by rw [htake]; exact hmarked⟩
  have hspec : P (Nat.findGreatest P a.length) := Nat.findGreatest_spec hlt.le hP
  refine ⟨a.take (Nat.findGreatest P a.length), List.take_prefix _ _, ?_, hspec.2, ?_⟩
  · intro heq
    have hlen := congrArg List.length heq
    rw [List.length_take, min_eq_left hspec.1.le] at hlen
    exact absurd hlen hspec.1.ne
  · intro q' hbelow hne' hq' hproper u hu
    have hlt' : q'.length < a.length := lt_of_le_of_ne hq'.length_le fun hlen => hproper (hq'.eq_of_length hlen)
    have htake' : a.take q'.length = q' := (List.prefix_iff_eq_take.1 hq').symm
    have hgreater : Nat.findGreatest P a.length < q'.length := by
      have hle := hbelow.length_le
      rw [List.length_take, min_eq_left hspec.1.le] at hle
      refine lt_of_le_of_ne hle fun hlen => hne' ?_
      rw [hlen, htake']
    by_contra hmarked'
    have hnot := Nat.findGreatest_is_greatest hgreater hlt'.le
    exact hnot ⟨hlt', u, by rw [htake', hu], by simpa using hmarked'⟩

/-- The region of a marked node, which ends at the marked ones, is what has it nearest. -/
theorem mem_region_iff_nearest {stop : α → Bool} {u v : LabelTree α} {b : Address}
    (hstop : ∀ l, mark l = true → stop l = true) (hq : sub? q t = some u) (hmark : mark u.label = true)
    (ha : sub? (q ++ b) t = some v) (hv : mark v.label = false) :
    b ∈ u.region stop ↔ Nearest mark t q (q ++ b) ∧
      ∀ q', q <+: q' → q' ≠ q → q' <+: q ++ b → ∀ w, sub? q' t = some w → stop w.label = false := by
  have hsub : ∀ b', sub? (q ++ b') t = sub? b' u := fun b' => by rw [sub?_append, hq, Option.bind_some]
  rw [mem_region, ← hsub, ha]
  constructor
  · rintro ⟨-, hclear⟩
    have hclear' : ∀ q', q <+: q' → q' ≠ q → q' <+: q ++ b → ∀ w, sub? q' t = some w → stop w.label = false := by
      rintro _ ⟨b', rfl⟩ hne hprefix w hw
      refine hclear b' ((List.prefix_append_right_inj q).1 hprefix) (fun hnil => hne ?_) w (hsub b' ▸ hw)
      rw [hnil, List.append_nil]
    refine ⟨⟨List.prefix_append q b, fun heq => ?_, ⟨u, hq, hmark⟩, fun q' hbelow hne hprefix _ w hw => ?_⟩, hclear'⟩
    · rw [← heq, hq] at ha
      obtain rfl := Option.some.inj ha
      exact Bool.noConfusion (hmark.symm.trans hv)
    · have hfalse := hclear' q' hbelow hne hprefix w hw
      by_contra htrue
      exact Bool.noConfusion (hfalse.symm.trans (hstop _ (by simpa using htrue)))
  · rintro ⟨-, hclear⟩
    refine ⟨rfl, fun b' hb' hne w hw => ?_⟩
    refine hclear (q ++ b') (List.prefix_append _ _) (fun heq => hne ?_) ((List.prefix_append_right_inj q).2 hb') w
      ((hsub b').trans hw)
    exact List.append_right_eq_self.1 heq

end Nearest

/-! ## Steps by name -/

section Steps

variable {κ : Type*} [DecidableEq κ] (name : α → κ)

/-- The name of a child and its number among the siblings of that name. -/
def step (cs : List (LabelTree α)) (i : ℕ) (c : LabelTree α) : κ × ℕ :=
  (name c.label, ((cs.take i).map fun c => name c.label).count (name c.label) + 1)

def steps : LabelTree α → Address → List (κ × ℕ)
  | _, [] => []
  | t, i :: a =>
    match t.children[i]? with
    | none => []
    | some c => step name t.children i c :: steps c a

theorem step_ne {cs : List (LabelTree α)} {i j : ℕ} {c d : LabelTree α} (hc : cs[i]? = some c) (hij : i < j) :
    step name cs i c ≠ step name cs j d := by
  intro h
  obtain ⟨hname, hcount⟩ := Prod.mk.inj h
  have hprefix : (cs.take (i + 1)).map (fun c => name c.label) <+: (cs.take j).map fun c => name c.label :=
    (List.take_prefix_take_left hij).map _
  have hle := hprefix.sublist.count_le (name c.label)
  have hi : i < cs.length := (List.getElem?_eq_some_iff.1 hc).1
  have hget : cs[i] = c := (List.getElem?_eq_some_iff.1 hc).2
  rw [List.take_succ_eq_append_getElem hi, List.map_append, List.count_append, hget] at hle
  rw [← hname] at hcount
  simp only [List.map_cons, List.map_nil, List.count_singleton_self] at hle
  omega

/-- Different nodes have different steps. -/
theorem steps_injective {t : LabelTree α} {a b : Address} (ha : (sub? a t).isSome) (hb : (sub? b t).isSome)
    (h : steps name t a = steps name t b) : a = b := by
  induction a generalizing t b with
  | nil =>
    cases b with
    | nil => rfl
    | cons j b =>
      obtain ⟨v, hv⟩ := Option.isSome_iff_exists.1 hb
      obtain ⟨d, hd, -⟩ := Option.bind_eq_some_iff.1 hv
      rw [steps, steps, hd] at h
      exact nomatch h
  | cons i a ih =>
    obtain ⟨u, hu⟩ := Option.isSome_iff_exists.1 ha
    obtain ⟨c, hc, hcu⟩ := Option.bind_eq_some_iff.1 hu
    cases b with
    | nil =>
      rw [steps, steps, hc] at h
      exact nomatch h
    | cons j b =>
      obtain ⟨v, hv⟩ := Option.isSome_iff_exists.1 hb
      obtain ⟨d, hd, hdv⟩ := Option.bind_eq_some_iff.1 hv
      rw [steps, steps, hc, hd] at h
      obtain ⟨hstep, hrest⟩ := List.cons.inj h
      rcases lt_trichotomy i j with hij | rfl | hji
      · exact absurd hstep (step_ne name hc hij)
      · obtain rfl := Option.some.inj (hc.symm.trans hd)
        rw [ih (by rw [hcu]; rfl) (by rw [hdv]; rfl) hrest]
      · exact absurd hstep.symm (step_ne name hd hji)

end Steps

end LabelTree

end AmoAnalytics
