import Mathlib

/-!
# Scans of a changing directory

A scan lists the names of a directory and then reads the entry of each name, one after another, while others add
and remove entries. The listing is no snapshot: it has every name that is there all the time, and possibly names
that were there for some of it. A name whose entry is gone is skipped.
-/

namespace AmoAnalytics

variable {ν ε : Type*}

/-- A scan: before it, during the listing, and during the reading. `before` are the names at its start. -/
inductive Scan (ν ε : Type*)
  | closed
  | listing (before listed : List ν)
  | reading (names : List ν) (found : List ε)
  deriving DecidableEq

inductive ScanMove (ν : Type*)
  | start
  | list (n : ν)
  | close
  | read (n : ν)
  deriving DecidableEq

namespace Scan

variable {name : ε → ν} {entries : List ε} {p : ε → Prop} {n : ν} {e : ε} {scan next : Scan ν ε} {m : ScanMove ν}

/-! ## What a scan has and finds -/

/-- The entries that have been read. -/
def items : Scan ν ε → List ε
  | .reading _ found => found
  | _ => []

/-- The entries that a complete scan has read. -/
def result : Scan ν ε → Option (List ε)
  | .reading [] found => some found
  | _ => none

/-- The scan finds the name with the property, or has found it, if the entry stays as it is. -/
def Finds (name : ε → ν) (p : ε → Prop) (n : ν) : Scan ν ε → Prop
  | .closed => True
  | .listing before listed => n ∈ before ∨ n ∈ listed
  | .reading names found => n ∈ names ∨ ∃ e ∈ found, name e = n ∧ p e

/-- A complete scan has found what it finds. -/
theorem Finds.result {found : List ε} (h : scan.Finds name p n) (hresult : scan.result = some found) :
    ∃ e ∈ found, name e = n ∧ p e := by
  unfold Scan.result at hresult
  split at hresult
  case h_1 =>
    obtain rfl := Option.some.inj hresult
    exact h.resolve_left List.not_mem_nil
  case h_2 => exact nomatch hresult

theorem mem_items_result {found : List ε} (hresult : scan.result = some found) (he : e ∈ found) :
    e ∈ scan.items := by
  unfold Scan.result at hresult
  split at hresult
  case h_1 =>
    obtain rfl := Option.some.inj hresult
    exact he
  case h_2 => exact nomatch hresult

/-! ## Steps -/

variable [DecidableEq ν]

/-- One step of a scan of the directory with these entries. -/
def move (name : ε → ν) (entries : List ε) : ScanMove ν → Scan ν ε → Option (Scan ν ε)
  | .start, .closed => some (.listing (entries.map name) [])
  | .list n, .listing before listed =>
    if n ∈ entries.map name then some (.listing before (listed ++ [n])) else none
  | .close, .listing before listed =>
    if ∀ n ∈ before, n ∈ entries.map name → n ∈ listed then some (.reading listed []) else none
  | .read n, .reading names found =>
    if n ∈ names then
      some (.reading (names.erase n) (found ++ (entries.find? fun e => name e = n).toList))
    else none
  | _, _ => none

/-- What a scan step does. -/
inductive Effect (name : ε → ν) (entries : List ε) : ScanMove ν → Scan ν ε → Scan ν ε → Prop
  | start : Effect name entries .start .closed (.listing (entries.map name) [])
  | list (n : ν) (before listed : List ν) (h : n ∈ entries.map name) :
      Effect name entries (.list n) (.listing before listed) (.listing before (listed ++ [n]))
  | close (before listed : List ν) (h : ∀ n ∈ before, n ∈ entries.map name → n ∈ listed) :
      Effect name entries .close (.listing before listed) (.reading listed [])
  | read (n : ν) (names : List ν) (found : List ε) (h : n ∈ names) :
      Effect name entries (.read n) (.reading names found)
        (.reading (names.erase n) (found ++ (entries.find? fun e => name e = n).toList))

theorem effect (h : scan.move name entries m = some next) : Effect name entries m scan next := by
  unfold move at h
  split at h
  case h_1 =>
    obtain rfl := Option.some.inj h
    exact .start
  case h_2 n before listed =>
    split_ifs at h with hn
    obtain rfl := Option.some.inj h
    exact .list n before listed hn
  case h_3 before listed =>
    split_ifs at h with hlisted
    obtain rfl := Option.some.inj h
    exact .close before listed hlisted
  case h_4 n names found =>
    split_ifs at h with hn
    obtain rfl := Option.some.inj h
    exact .read n names found hn
  case h_5 => exact nomatch h

/-- A unique name finds its entry. -/
theorem find?_name (hnames : (entries.map name).Nodup) (he : e ∈ entries) :
    entries.find? (fun a => name a = name e) = some e := by
  cases hfind : entries.find? fun a => name a = name e with
  | none => exact absurd (decide_eq_true rfl) (List.find?_eq_none.1 hfind e he)
  | some a =>
    have ha := List.find?_some hfind
    have hname : name a = name e := of_decide_eq_true ha
    rw [List.inj_on_of_nodup_map hnames (List.mem_of_find?_eq_some hfind) he hname]

/-- A scan step does not lose an entry that is there. -/
theorem Finds.move (h : scan.Finds name p n) (hnames : (entries.map name).Nodup) (he : e ∈ entries)
    (hn : name e = n) (hp : p e) (hmove : scan.move name entries m = some next) : next.Finds name p n := by
  have hmem : n ∈ entries.map name := List.mem_map.2 ⟨e, he, hn⟩
  cases effect hmove with
  | start => exact Or.inl hmem
  | list n' before listed => exact h.imp_right (List.mem_append_left _)
  | close before listed hlisted =>
    rcases h with hbefore | hdone
    · exact Or.inl (hlisted n hbefore hmem)
    · exact Or.inl hdone
  | read n' names found hn' =>
    by_cases hsame : n = n'
    · subst hsame
      refine Or.inr ⟨e, List.mem_append_right _ ?_, hn, hp⟩
      rw [← hn, find?_name hnames he]
      exact List.mem_singleton_self e
    · rcases h with hnames' | ⟨a, ha, hfound⟩
      · exact Or.inl ((List.mem_erase_of_ne hsame).2 hnames')
      · exact Or.inr ⟨a, List.mem_append_left _ ha, hfound⟩

/-- What a step reads is an entry of the directory. -/
theorem mem_items_move (hmove : scan.move name entries m = some next) (he : e ∈ next.items) :
    e ∈ scan.items ∨ e ∈ entries := by
  cases effect hmove with
  | start => exact Or.inl he
  | list => exact Or.inl he
  | close => exact Or.inl he
  | read n names found hn =>
    refine (List.mem_append.1 he).imp_right fun hnew => ?_
    exact List.mem_of_find?_eq_some (Option.mem_toList.1 hnew)

end Scan

end AmoAnalytics
