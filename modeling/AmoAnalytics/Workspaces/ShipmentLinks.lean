import AmoAnalytics.Workspaces.CommercialLinks

/-!
# Manual confirmations and allocations

What holds of the links in any interleaving of `reconcile` and `resolve` while the deals change. A manual
confirmation survives every reconcile; the last statement of a reconcile leaves no automatic confirmation of
a sale with several shipments, until a deleted shipment comes back; and two shipments of one sale are both
confirmed only under a confirmed allocation, as long as a manual confirmation writes what it has counted.
-/

namespace AmoAnalytics.Workspaces

open JsText

variable {hash : JsString → String} {db db' : LinkDb} {thread thread' : LinkThread} {action : LinkAction}

/-! ## The statements on the links -/

def Link.manual (link : Link) : Prop := link.data.source = manualSource

/-- A manual confirmation of an allocation. -/
def Link.allocated (link : Link) : Prop :=
  link.data.source = manualSource ∧ link.data.evidence.allocationConfirmed = some true

/-- One link for each shipment. -/
def UniqueShipments (db : LinkDb) : Prop :=
  db.links.Pairwise fun a b => a.shipmentDealId ≠ b.shipmentDealId

/-- The manual links are as they were. -/
def ManualKept (db db' : LinkDb) : Prop := ∀ link ∈ db.links, link.manual →
  ∃ link' ∈ db'.links, link'.shipmentDealId = link.shipmentDealId ∧ link'.data = link.data

/-- A statement of a reconcile: the links that it writes are not manual. -/
structure AutoWrite (db db' : LinkDb) : Prop where
  kept : ManualKept db db'
  old : ∀ link' ∈ db'.links, ¬link'.manual ∨
    ∃ link ∈ db.links, link.shipmentDealId = link'.shipmentDealId ∧ link.data = link'.data
  unique : UniqueShipments db → UniqueShipments db'
  deals : db'.deals = db.deals
  last : db'.last = db.last
  restored : db'.restored = db.restored

theorem uniqueShipments_updateWhere {p : Link → Bool} {f : Link → Link}
    (hf : ∀ link, (f link).shipmentDealId = link.shipmentDealId) (h : UniqueShipments db)
    (hlinks : db'.links = Table.updateWhere p f db.links) : UniqueShipments db' := by
  have hid : ∀ link : Link, (if p link then f link else link).shipmentDealId = link.shipmentDealId := by
    intro link
    split_ifs
    · exact hf link
    · rfl
  rw [UniqueShipments, hlinks, Table.updateWhere, List.pairwise_map]
  refine h.imp fun hab => ?_
  rw [hid, hid]
  exact hab

theorem uniqueShipments_append {link : Link} (h : UniqueShipments db)
    (hfree : db.links.any (·.shipmentDealId = link.shipmentDealId) = false)
    (hlinks : db'.links = db.links ++ [link]) : UniqueShipments db' := by
  rw [UniqueShipments, hlinks]
  refine List.pairwise_append.2 ⟨h, List.pairwise_singleton _ _, fun a ha b hb => ?_⟩
  obtain rfl := List.mem_singleton.1 hb
  simpa using List.any_eq_false.1 hfree a ha

theorem ManualKept.refl (db : LinkDb) : ManualKept db db := fun link hlink _ => ⟨link, hlink, rfl, rfl⟩

theorem AutoWrite.refl (db : LinkDb) : AutoWrite db db :=
  ⟨.refl db, fun link hlink => Or.inr ⟨link, hlink, rfl, rfl⟩, id, rfl, rfl, rfl⟩

theorem autoWrite_create {id : String} {data : LinkData} (hdata : data.source ≠ manualSource) :
    AutoWrite db (db.create id data) := by
  unfold LinkDb.create
  split_ifs with hany
  · exact .refl db
  · refine ⟨fun link hlink _ => ⟨link, List.mem_append_left _ hlink, rfl, rfl⟩, fun link' hlink' => ?_,
      fun h => uniqueShipments_append h (Bool.eq_false_iff.2 hany) rfl, rfl, rfl, rfl⟩
    rcases List.mem_append.1 hlink' with hmem | hmem
    · exact Or.inr ⟨link', hmem, rfl, rfl⟩
    · obtain rfl := List.mem_singleton.1 hmem
      exact Or.inl hdata

theorem autoWrite_updateOpen {id : String} {data : LinkData} (hdata : data.source ≠ manualSource) :
    AutoWrite db (db.updateOpen id data) := by
  refine ⟨fun link hlink hmanual => ?_, fun link' hlink' => ?_,
    fun h => uniqueShipments_updateWhere (f := fun link => { link with data }) (fun _ => rfl) h rfl,
    rfl, rfl, rfl⟩
  · refine ⟨link, Table.mem_updateWhere_of_not hlink ?_, rfl, rfl⟩
    rw [Link.manual] at hmanual
    simp [Link.writable, hmanual]
  · obtain ⟨link, hlink, rfl⟩ := Table.mem_updateWhere.1 hlink'
    split_ifs
    · exact Or.inl hdata
    · exact Or.inr ⟨link, hlink, rfl, rfl⟩

theorem autoWrite_check {ids : List String} : AutoWrite db (db.check ids) := by
  have hsame : ∀ link : Link, (if ids.contains link.shipmentDealId then { link with checkedAt := db.now }
      else link).shipmentDealId = link.shipmentDealId ∧
      (if ids.contains link.shipmentDealId then { link with checkedAt := db.now } else link).data =
        link.data := by
    intro link
    split_ifs <;> exact ⟨rfl, rfl⟩
  refine ⟨fun link hlink _ => ⟨_, Table.mem_updateWhere_of_mem hlink, hsame link⟩, fun link' hlink' => ?_,
    fun h => uniqueShipments_updateWhere (f := fun link => { link with checkedAt := db.now }) (fun _ => rfl) h rfl,
    rfl, rfl, rfl⟩
  obtain ⟨link, hlink, rfl⟩ := Table.mem_updateWhere.1 hlink'
  exact Or.inr ⟨link, hlink, (hsame link).1.symm, (hsame link).2.symm⟩

theorem not_doubled_of_manual {link : Link} (h : link.manual) : db.doubled link = false := by
  rw [Link.manual] at h
  simp [LinkDb.doubled, h]

/-- The allocation leaves the manual links. -/
theorem manualKept_allocate : ManualKept db db.allocate := fun link hlink hmanual =>
  ⟨link, Table.mem_updateWhere_of_not hlink (not_doubled_of_manual hmanual), rfl, rfl⟩

/-- After the allocation no automatic confirmation is of a sale with several shipments. -/
theorem not_doubled_allocate : ∀ link ∈ db.allocate.links, db.allocate.doubled link = false := by
  have hcount : ∀ sale, db.allocate.links.countP (db.allocate.linked sale) ≤ db.links.countP (db.linked sale) :=
    fun sale => Table.countP_updateWhere_le fun _ _ _ hlinked => hlinked
  intro link' hlink'
  obtain ⟨link, hlink, rfl⟩ := Table.mem_updateWhere.1 hlink'
  split_ifs with hdoubled
  · simp [LinkDb.doubled, Link.requireAllocation]
  · by_contra hdoubled'
    rw [Bool.not_eq_false] at hdoubled'
    refine hdoubled ?_
    simp only [LinkDb.doubled, Bool.and_eq_true, Option.any_eq_true] at hdoubled' ⊢
    obtain ⟨hauto, sale, hsale, hmany⟩ := hdoubled'
    exact ⟨hauto, sale, hsale, decide_eq_true ((of_decide_eq_true hmany).trans_le (hcount sale))⟩

/-- The links after a manual confirmation: the others, and the one that is confirmed. -/
theorem mem_confirm {id : String} {data : LinkData} {link' : Link} (h : link' ∈ (db.confirm id data).links) :
    (link' ∈ db.links ∧ link'.shipmentDealId ≠ id) ∨ (link'.shipmentDealId = id ∧ link'.data = data) := by
  unfold LinkDb.confirm at h
  split_ifs at h with hany
  · obtain ⟨link, hlink, rfl⟩ := Table.mem_updateWhere.1 h
    split_ifs with hid
    · exact Or.inr ⟨of_decide_eq_true hid, rfl⟩
    · exact Or.inl ⟨hlink, of_decide_eq_false (Bool.eq_false_iff.2 hid)⟩
  · rcases List.mem_append.1 h with hmem | hmem
    · refine Or.inl ⟨hmem, fun hid => hany ?_⟩
      exact List.any_eq_true.2 ⟨link', hmem, decide_eq_true hid⟩
    · obtain rfl := List.mem_singleton.1 hmem
      exact Or.inr ⟨rfl, rfl⟩

theorem uniqueShipments_confirm {id : String} {data : LinkData} (h : UniqueShipments db) :
    UniqueShipments (db.confirm id data) := by
  unfold LinkDb.confirm
  split_ifs with hany
  · exact uniqueShipments_updateWhere (f := fun link => { link with data }) (fun _ => rfl) h rfl
  · exact uniqueShipments_append h (Bool.eq_false_iff.2 hany) rfl

@[simp] theorem confirm_deals {id : String} {data : LinkData} : (db.confirm id data).deals = db.deals := by
  unfold LinkDb.confirm
  split_ifs <;> rfl

@[simp] theorem confirm_restored {id : String} {data : LinkData} :
    (db.confirm id data).restored = db.restored := by
  unfold LinkDb.confirm
  split_ifs <;> rfl

/-! ## Pairs of confirmations -/

/-- Two links of one sale to different shipments. -/
structure Pair (db : LinkDb) (sale : String) (a b : Link) : Prop where
  left : a ∈ db.links
  right : b ∈ db.links
  ne : a.shipmentDealId ≠ b.shipmentDealId
  leftSale : a.data.saleDealId = some sale
  rightSale : b.data.saleDealId = some sale

theorem Pair.symm {sale : String} {a b : Link} (h : Pair db sale a b) : Pair db sale b a :=
  ⟨h.right, h.left, h.ne.symm, h.rightSale, h.leftSale⟩

/-- Of two manual confirmations of one sale one confirms the allocation. -/
def ManualPairs (db : LinkDb) : Prop := ∀ sale a b, Pair db sale a b → a.manual → b.manual →
  a.allocated ∨ b.allocated

/-- An automatic confirmation beside another one, neither deleted, is waiting for an allocation, or a
shipment has come back, or the other one confirms the allocation. -/
def AutoPairs (db : LinkDb) (waiting : Prop) : Prop := ∀ sale a b, Pair db sale a b → ¬a.manual →
  a.data.status = .confirmed → b.data.status = .confirmed → db.live a.shipmentDealId = true →
  db.live b.shipmentDealId = true → waiting ∨ db.restored = true ∨ b.allocated

theorem AutoPairs.mono {p q : Prop} (h : AutoPairs db p) (hpq : p → q) : AutoPairs db q :=
  fun sale a b hpair hauto ha hb hla hlb => (h sale a b hpair hauto ha hb hla hlb).imp_left hpq

theorem Pair.of_links {sale : String} {a b : Link} (h : Pair db' sale a b) (hlinks : db'.links = db.links) :
    Pair db sale a b :=
  ⟨hlinks ▸ h.left, hlinks ▸ h.right, h.ne, h.leftSale, h.rightSale⟩

theorem ManualPairs.of_links (h : ManualPairs db) (hlinks : db'.links = db.links) : ManualPairs db' :=
  fun sale a b hpair => h sale a b (hpair.of_links hlinks)

theorem ManualPairs.autoWrite (h : ManualPairs db) (hauto : AutoWrite db db') : ManualPairs db' := by
  intro sale a b hpair ha hb
  obtain hnot | ⟨old, hold, hida, hdata⟩ := hauto.old a hpair.left
  · exact absurd ha hnot
  obtain hnot | ⟨old', hold', hidb, hdata'⟩ := hauto.old b hpair.right
  · exact absurd hb hnot
  have hpair' : Pair db sale old old' :=
    ⟨hold, hold', by rw [hida, hidb]; exact hpair.ne, hdata ▸ hpair.leftSale, hdata' ▸ hpair.rightSale⟩
  have halloc := h sale old old' hpair' (by rwa [Link.manual, hdata]) (by rwa [Link.manual, hdata'])
  rwa [Link.allocated, Link.allocated, hdata, hdata'] at halloc

theorem mem_allocate_of_manual {link : Link} (h : link ∈ db.allocate.links) (hmanual : link.manual) :
    link ∈ db.links := by
  obtain ⟨old, hold, rfl⟩ := Table.mem_updateWhere.1 h
  split_ifs at hmanual ⊢ with hdoubled
  · have hold : old.manual := hmanual
    rw [not_doubled_of_manual hold] at hdoubled
    exact nomatch hdoubled
  · exact hold

theorem ManualPairs.allocate (h : ManualPairs db) : ManualPairs db.allocate := fun sale a b hpair ha hb =>
  h sale a b ⟨mem_allocate_of_manual hpair.left ha, mem_allocate_of_manual hpair.right hb, hpair.ne,
    hpair.leftSale, hpair.rightSale⟩ ha hb

/-- Two shipments that are not deleted make a sale have several. -/
theorem Pair.one_lt_countP {sale : String} {a b : Link} (h : Pair db sale a b)
    (ha : db.live a.shipmentDealId = true) (hb : db.live b.shipmentDealId = true) :
    1 < db.links.countP (db.linked sale) := by
  by_contra hle
  refine h.ne (congrArg Link.shipmentDealId (Table.eq_of_countP_le_one (not_lt.1 hle) h.left h.right ?_ ?_))
  · rw [LinkDb.linked, h.leftSale, ha]
    simp
  · rw [LinkDb.linked, h.rightSale, hb]
    simp

/-- No automatic confirmation is beside another one after an allocation. -/
theorem autoPairs_allocate (waiting : Prop) : AutoPairs db.allocate waiting := by
  intro sale a b hpair hauto ha hb hla hlb
  have hmany := hpair.one_lt_countP hla hlb
  have hnot := not_doubled_allocate a hpair.left
  rw [LinkDb.doubled, ha, hpair.leftSale] at hnot
  rw [Link.manual] at hauto
  simp [hauto, hmany] at hnot

/-- A manual confirmation with another link of its sale confirms the allocation. -/
theorem allocated_of_confirm {request : Confirmation} {shipment : Card} {paid : Paid} {now : ℤ}
    (hcount : request.allocationConfirmed = false → db.others request = 0) {sale : String} {a b : Link}
    (hb : b ∈ db.links) (hid : b.shipmentDealId ≠ request.shipmentDealId)
    (hdata : a.data = manualData request shipment paid now) (hsale : a.data.saleDealId = some sale)
    (hsale' : b.data.saleDealId = some sale) : a.allocated := by
  refine ⟨by rw [hdata]; rfl, ?_⟩
  rw [hdata]
  cases hflag : request.allocationConfirmed with
  | true => simp [manualData, hflag]
  | false =>
    have hzero := List.countP_eq_zero.1 (hcount hflag) b hb
    rw [hdata] at hsale
    cases hsale
    simp [hsale', hid] at hzero

/-- A manual confirmation that confirms the allocation, or finds no other shipment of the sale. -/
theorem ManualPairs.confirm (h : ManualPairs db) {request : Confirmation} {shipment : Card} {paid : Paid}
    {now : ℤ} (hcount : request.allocationConfirmed = false → db.others request = 0) :
    ManualPairs (db.confirm request.shipmentDealId (manualData request shipment paid now)) := by
  intro sale a b hpair ha hb
  rcases mem_confirm hpair.left with ⟨hma, hida⟩ | ⟨hida, hdata⟩
  · rcases mem_confirm hpair.right with ⟨hmb, hidb⟩ | ⟨hidb, hdata'⟩
    · exact h sale a b ⟨hma, hmb, hpair.ne, hpair.leftSale, hpair.rightSale⟩ ha hb
    · exact Or.inr (allocated_of_confirm hcount hma hida hdata' hpair.rightSale hpair.leftSale)
  · rcases mem_confirm hpair.right with ⟨hmb, hidb⟩ | ⟨hidb, hdata'⟩
    · exact Or.inl (allocated_of_confirm hcount hmb hidb hdata hpair.leftSale hpair.rightSale)
    · exact absurd (hida.trans hidb.symm) hpair.ne

theorem live_of_deals (hdeals : db'.deals = db.deals) (id : String) : db'.live id = db.live id := by
  rw [LinkDb.live, hdeals]
  rfl

theorem AutoPairs.confirm {waiting : Prop} (h : AutoPairs db waiting) {request : Confirmation}
    {shipment : Card} {paid : Paid} {now : ℤ}
    (hcount : request.allocationConfirmed = false → db.others request = 0) :
    AutoPairs (db.confirm request.shipmentDealId (manualData request shipment paid now)) waiting := by
  intro sale a b hpair hauto ha hb hla hlb
  rw [live_of_deals confirm_deals] at hla hlb
  rw [confirm_restored]
  rcases mem_confirm hpair.left with ⟨hma, hida⟩ | ⟨hida, hdata⟩
  · rcases mem_confirm hpair.right with ⟨hmb, hidb⟩ | ⟨hidb, hdata'⟩
    · exact h sale a b ⟨hma, hmb, hpair.ne, hpair.leftSale, hpair.rightSale⟩ hauto ha hb hla hlb
    · exact Or.inr (Or.inr (allocated_of_confirm hcount hma hida hdata' hpair.rightSale hpair.leftSale))
  · exact absurd (by rw [Link.manual, hdata]; rfl) hauto

/-- A linked shipment that is not deleted was not deleted before, or one has come back. -/
theorem live_of_setDeals {deals : List Deal} {link : Link} (hlink : link ∈ db.links)
    (hlive : (db.setDeals deals).live link.shipmentDealId = true) :
    (db.setDeals deals).restored = true ∨ db.live link.shipmentDealId = true := by
  by_contra hnot
  rw [not_or, Bool.not_eq_true, Bool.not_eq_true] at hnot
  obtain ⟨hrestored, hdead⟩ := hnot
  have hnone := (Bool.or_eq_false_iff.1 hrestored).2
  have hlink' := List.any_eq_false.1 hnone link hlink
  rw [hdead] at hlink'
  exact hlink' hlive

theorem AutoPairs.setDeals {waiting : Prop} (h : AutoPairs db waiting) (deals : List Deal) :
    AutoPairs (db.setDeals deals) waiting := by
  intro sale a b hpair hauto ha hb hla hlb
  have hpair' : Pair db sale a b := hpair.of_links rfl
  rcases live_of_setDeals hpair'.left hla with hback | hla'
  · exact Or.inr (Or.inl hback)
  rcases live_of_setDeals hpair'.right hlb with hback | hlb'
  · exact Or.inr (Or.inl hback)
  refine (h sale a b hpair' hauto ha hb hla' hlb').imp_right (Or.imp_left fun hrestored => ?_)
  exact Bool.or_eq_true_iff.2 (Or.inl hrestored)

/-! ## Programs -/

/-- A reconcile that may have written links and is to allocate. -/
def LinkThread.allocates : LinkThread → Prop
  | .linking .. | .creating .. | .updating .. | .checking .. | .allocating => True
  | _ => False

theorem Work.next_allocates (work : Work) (rest : List Card) : (work.next rest).allocates := by
  unfold Work.next
  split
  · trivial
  · split_ifs <;> trivial

/-- A reconcile writes no manual source. -/
def LinkThread.Auto : LinkThread → Prop
  | .creating _ _ data _ | .updating _ _ data _ => data.source ≠ manualSource
  | _ => True

theorem Work.next_auto (work : Work) (rest : List Card) : (work.next rest).Auto := by
  unfold Work.next
  split
  · trivial
  · split_ifs <;> trivial

theorem linkData_source {sources : List Card} {paid : String → List Paid} {reads : OwnerReads}
    {shipment : Card} : (linkData hash sources paid reads shipment).source ≠ manualSource := by
  change "invoice-payment-v2" ≠ "manual-confirmed"
  decide

/-- A manual confirmation that is written without a confirmed allocation finds no other link of the sale. -/
def CountHolds (db : LinkDb) : LinkThread → Prop
  | .confirming request _ _ => request.allocationConfirmed = false → db.others request = 0
  | _ => True

/-- What a step can do. -/
inductive LinkEffect (db : LinkDb) (thread : LinkThread) : LinkDb → LinkThread → Prop
  /-- The links and the deals stay. -/
  | other (db' : LinkDb) (thread' : LinkThread) (hlinks : db'.links = db.links) (hdeals : db'.deals = db.deals)
      (hrestored : db'.restored = db.restored) (hauto : thread'.Auto)
      (hallocates : thread.allocates → thread'.allocates)
      (hlast : thread' = .idle → thread = .idle ∧ db'.last = db.last ∨ db'.last ≠ some .reconcile) :
      LinkEffect db thread db' thread'
  | deals (deals : List Deal) (h : thread = .idle) : LinkEffect db thread (db.setDeals deals) .idle
  | write (db' : LinkDb) (thread' : LinkThread) (hwrite : AutoWrite db db') (hauto : thread'.Auto)
      (hallocates : thread'.allocates) (h : thread.allocates) : LinkEffect db thread db' thread'
  | allocate (h : thread = .allocating) : LinkEffect db thread db.allocate .idle
  | confirm (request : Confirmation) (shipment : Card) (paid : Paid)
      (h : thread = .confirming request shipment paid) :
      LinkEffect db thread (((db.confirm request.shipmentDealId (manualData request shipment paid db.now)).setLock
        request.shipmentDealId false).finish .resolve) .idle

/-- The loop goes on or the allocation is still to come. -/
theorem Work.next_ne_idle (work : Work) (rest : List Card) : work.next rest ≠ .idle := by
  intro hidle
  have hallocates := work.next_allocates rest
  rw [hidle] at hallocates
  exact hallocates

theorem linkEffect_of_act (hthread : thread.Auto) (h : linkAct hash db thread action = some (db', thread')) :
    LinkEffect db thread db' thread' := by
  unfold linkAct at h
  split at h
  case h_1 deals =>
    cases h
    exact .deals deals rfl
  case h_2 | h_3 | h_4 =>
    cases h
    exact .other _ _ rfl rfl rfl trivial nofun fun _ => Or.inl ⟨rfl, rfl⟩
  case h_7 =>
    split at h
    · split_ifs at h <;> cases h
      · exact .other _ _ rfl rfl rfl trivial nofun nofun
      · exact .other _ _ rfl rfl rfl trivial nofun fun _ => Or.inr nofun
    · cases h
      exact .other _ _ rfl rfl rfl trivial nofun fun _ => Or.inr nofun
  case h_11 sources paid pending =>
    cases h
    exact .other _ _ rfl rfl rfl (Work.next_auto _ _) nofun fun hidle => absurd hidle (Work.next_ne_idle _ _)
  case h_12 work shipment rest reads =>
    dsimp only at h
    split_ifs at h <;> cases h
    · exact .other _ _ rfl rfl rfl linkData_source (fun _ => trivial) nofun
    · exact .other _ _ rfl rfl rfl (work.next_auto rest) (fun _ => work.next_allocates rest)
        fun hidle => absurd hidle (work.next_ne_idle rest)
  case h_13 work shipment data rest =>
    cases h
    exact .write _ _ (autoWrite_create hthread) hthread trivial trivial
  case h_14 work shipment data rest =>
    cases h
    exact .write _ _ (autoWrite_updateOpen hthread) (work.next_auto rest) (work.next_allocates rest) trivial
  case h_15 work =>
    cases h
    exact .write _ _ autoWrite_check trivial trivial trivial
  case h_16 =>
    cases h
    exact .allocate rfl
  case h_17 request =>
    split at h <;> cases h
    · exact .other _ _ rfl rfl rfl trivial nofun nofun
    · exact .other _ _ rfl rfl rfl trivial nofun fun _ => Or.inr nofun
  case h_18 | h_20 =>
    split_ifs at h <;> cases h
    · exact .other _ _ rfl rfl rfl trivial nofun fun _ => Or.inr nofun
    · exact .other _ _ rfl rfl rfl trivial nofun nofun
  case h_19 request shipment paid =>
    split_ifs at h
    cases h
    exact .other _ _ rfl rfl rfl trivial nofun nofun
  case h_21 request shipment paid =>
    cases h
    exact .confirm request shipment paid rfl
  case h_22 => cases h
  all_goals
    cases h
    exact .other _ _ rfl rfl rfl trivial nofun nofun

/-! ## Runs -/

/-- No automatic confirmation is of a sale with several shipments. -/
def Settled (db : LinkDb) : Prop := ∀ link ∈ db.links, db.doubled link = false

/-- Each manual confirmation of the run writes what it has counted. -/
def LinkGuard (w : World LinkDb LinkThread) (a : ℕ × LinkAction) : Prop := CountHolds w.store (w.locals a.1)

/-- The invariant of the worlds reached. -/
structure LinkInv (w : World LinkDb LinkThread) : Prop where
  unique : UniqueShipments w.store
  auto : ∀ i, (w.locals i).Auto
  manualPairs : ManualPairs w.store
  autoPairs : AutoPairs w.store (∃ i, (w.locals i).allocates)
  settled : (∀ i, w.locals i = .idle) → w.store.last = some .reconcile → w.store.restored = false →
    Settled w.store

variable {w w' : World LinkDb LinkThread} {a : ℕ × LinkAction}

/-- What the settings, locks and finished operations do not concern. -/
theorem UniqueShipments.of_links (h : UniqueShipments db) (hlinks : db'.links = db.links) :
    UniqueShipments db' := by
  rw [UniqueShipments, hlinks]
  exact h

theorem AutoPairs.of_links {waiting : Prop} (h : AutoPairs db waiting) (hlinks : db'.links = db.links)
    (hdeals : db'.deals = db.deals) (hrestored : db'.restored = db.restored) : AutoPairs db' waiting := by
  intro sale a b hpair hauto ha hb hla hlb
  rw [live_of_deals hdeals] at hla hlb
  rw [hrestored]
  exact h sale a b (hpair.of_links hlinks) hauto ha hb hla hlb

theorem Settled.of_links (h : Settled db) (hlinks : db'.links = db.links) (hdeals : db'.deals = db.deals) :
    Settled db' := by
  intro link hlink
  have hlinked : ∀ sale, db'.linked sale = db.linked sale := fun sale => by
    funext l
    rw [LinkDb.linked, LinkDb.linked, live_of_deals hdeals]
  rw [LinkDb.doubled, hlinks]
  simp only [hlinked]
  exact h link (hlinks ▸ hlink)

/-- Fewer shipments leave a settled table settled. -/
theorem Settled.setDeals (h : Settled db) {deals : List Deal} (hback : (db.setDeals deals).restored = false) :
    Settled (db.setDeals deals) := by
  intro link hlink
  have hcount : ∀ sale, db.links.countP ((db.setDeals deals).linked sale) ≤ db.links.countP (db.linked sale) := by
    refine fun sale => List.countP_mono_left fun l hl hlinked => ?_
    obtain ⟨hsale, hlive⟩ := Bool.and_eq_true_iff.1 hlinked
    refine Bool.and_eq_true_iff.2 ⟨hsale, (live_of_setDeals hl hlive).resolve_left ?_⟩
    rw [hback]
    exact Bool.false_ne_true
  by_contra hdoubled
  rw [Bool.not_eq_false] at hdoubled
  have hnot := h link hlink
  refine Bool.eq_false_iff.1 hnot ?_
  simp only [LinkDb.doubled, Bool.and_eq_true, Option.any_eq_true] at hdoubled ⊢
  obtain ⟨hauto, sale, hsale, hmany⟩ := hdoubled
  exact ⟨hauto, sale, hsale, decide_eq_true ((of_decide_eq_true hmany).trans_le (hcount sale))⟩

/-- Some reconcile is still to allocate, after a step of `i` that leaves its own one on the way. -/
theorem exists_allocates {locals : ℕ → LinkThread} {i : ℕ} (h : (locals i).allocates → thread'.allocates)
    (hwaiting : ∃ j, (locals j).allocates) : ∃ j, (Function.update locals i thread' j).allocates := by
  rw [World.exists_iff i] at hwaiting
  exact World.exists_update.2 (hwaiting.imp_left h)

/-- When every worker is idle after a step of `i`, the others were and `i` has become so. -/
theorem idle_of_update {locals : ℕ → LinkThread} {i : ℕ}
    (h : ∀ j, Function.update locals i thread' j = .idle) :
    thread' = .idle ∧ (locals i = .idle → ∀ j, locals j = .idle) := by
  refine ⟨(Function.update_self i thread' locals).symm.trans (h i), fun hi j => ?_⟩
  by_cases hj : j = i
  · rw [hj]
    exact hi
  · exact (Function.update_of_ne hj thread' locals).symm.trans (h j)

theorem LinkInv.step (h : LinkInv w) (hguard : LinkGuard w a)
    (hstep : World.step (linkAct hash) w a = some w') : LinkInv w' := by
  obtain ⟨i, action⟩ := a
  obtain ⟨db', thread', hact, rfl⟩ := World.step_eq_some.1 hstep
  have hauto : ∀ thread', thread'.Auto → ∀ j, (Function.update w.locals i thread' j).Auto := fun _ hthread' =>
    World.forall_update hthread' fun j _ => h.auto j
  cases linkEffect_of_act (h.auto i) hact with
  | other _ _ hlinks hdeals hrestored hthread' hallocates hlast =>
    refine ⟨h.unique.of_links hlinks, hauto _ hthread', h.manualPairs.of_links hlinks,
      (h.autoPairs.mono (exists_allocates hallocates)).of_links hlinks hdeals hrestored,
      fun hidle hreconcile hback => ?_⟩
    obtain ⟨hthread, hbefore⟩ := idle_of_update hidle
    rcases hlast hthread with ⟨hidle', hsame⟩ | hne
    · exact (h.settled (hbefore hidle') (hsame ▸ hreconcile) (hrestored ▸ hback)).of_links hlinks hdeals
    · exact absurd hreconcile hne
  | deals deals hthread =>
    refine ⟨h.unique.of_links rfl, hauto _ trivial, h.manualPairs.of_links rfl,
      (h.autoPairs.mono (exists_allocates fun hallocates => ?_)).setDeals deals,
      fun hidle hreconcile hback => ?_⟩
    · rw [hthread] at hallocates
      exact hallocates
    · have hback' : w.store.restored = false := (Bool.or_eq_false_iff.1 hback).1
      exact (h.settled ((idle_of_update hidle).2 hthread) hreconcile hback').setDeals hback
  | write _ _ hwrite hthread' hallocates =>
    refine ⟨hwrite.unique h.unique, hauto _ hthread', h.manualPairs.autoWrite hwrite, ?_, fun hidle => ?_⟩
    · exact fun _ _ _ _ _ _ _ _ _ => Or.inl (World.exists_update.2 (Or.inl hallocates))
    · rw [(idle_of_update hidle).1] at hallocates
      exact hallocates.elim
  | allocate =>
    exact ⟨uniqueShipments_updateWhere (f := Link.requireAllocation) (fun _ => rfl) h.unique rfl, hauto _ trivial,
      h.manualPairs.allocate, autoPairs_allocate _, fun _ _ _ => not_doubled_allocate⟩
  | confirm request shipment paid hthread =>
    have hcount : request.allocationConfirmed = false → w.store.others request = 0 := by
      have hcount' : CountHolds w.store (w.locals i) := hguard
      rw [hthread] at hcount'
      exact hcount'
    refine ⟨(uniqueShipments_confirm h.unique).of_links rfl, hauto _ trivial,
      (h.manualPairs.confirm hcount).of_links rfl,
      ((h.autoPairs.mono (exists_allocates fun hallocates => ?_)).confirm hcount).of_links rfl rfl rfl, nofun⟩
    rw [hthread] at hallocates
    exact hallocates

theorem linkInv_start : LinkInv linkStart :=
  ⟨List.Pairwise.nil, fun _ => trivial, fun _ _ _ hpair => absurd hpair.left List.not_mem_nil,
    fun _ _ _ hpair => absurd hpair.left List.not_mem_nil, fun _ hlast => (nomatch hlast)⟩

/-- What the links guarantee in a world. No statement but the write of a manual confirmation changes a manual
link; at rest, after a reconcile and with no shipment back since, no automatic confirmation is of a sale with
several shipments; at rest two shipments of one sale, neither deleted, are confirmed only under a confirmed
allocation. -/
structure LinksSafe (hash : JsString → String) (w : World LinkDb LinkThread) : Prop where
  unique : UniqueShipments w.store
  manual : ∀ i action w', (∀ request shipment paid, w.locals i ≠ .confirming request shipment paid) →
    World.step (linkAct hash) w (i, action) = some w' → ManualKept w.store w'.store
  settled : (∀ i, w.locals i = .idle) → w.store.last = some .reconcile → w.store.restored = false →
    ∀ sale, 1 < w.store.links.countP (w.store.linked sale) → ∀ link ∈ w.store.links,
    link.data.saleDealId = some sale → ¬link.manual → link.data.status ≠ .confirmed
  allocated : (∀ i, w.locals i = .idle) → w.store.restored = false → ∀ sale a b, Pair w.store sale a b →
    a.data.status = .confirmed → b.data.status = .confirmed → w.store.live a.shipmentDealId = true →
    w.store.live b.shipmentDealId = true → a.allocated ∨ b.allocated

theorem LinkInv.linksSafe (h : LinkInv w) : LinksSafe hash w where
  unique := h.unique
  manual i action w' hthread hstep := by
    obtain ⟨db', thread', hact, rfl⟩ := World.step_eq_some.1 hstep
    cases linkEffect_of_act (h.auto i) hact with
    | other _ _ hlinks => exact fun link hlink _ => ⟨link, hlinks ▸ hlink, rfl, rfl⟩
    | deals => exact .refl _
    | write _ _ hwrite => exact hwrite.kept
    | allocate => exact manualKept_allocate
    | confirm request shipment paid heq => exact absurd heq (hthread request shipment paid)
  settled hidle hlast hback sale hmany link hlink hsale hauto hstatus := by
    have hnot := h.settled hidle hlast hback link hlink
    rw [LinkDb.doubled, hstatus, hsale] at hnot
    rw [Link.manual] at hauto
    simp [hauto, hmany] at hnot
  allocated hidle hback sale a b hpair ha hb hla hlb := by
    have hrest : ¬∃ i, (w.locals i).allocates := by
      rintro ⟨i, hi⟩
      rw [hidle i] at hi
      exact hi
    have hauto : ∀ c d, Pair w.store sale c d → ¬c.manual → c.data.status = .confirmed →
        d.data.status = .confirmed → w.store.live c.shipmentDealId = true →
        w.store.live d.shipmentDealId = true → d.allocated := by
      intro c d hcd hc hcs hds hlc hld
      rcases h.autoPairs sale c d hcd hc hcs hds hlc hld with hwaiting | hrestored | hallocated
      · exact absurd hwaiting hrest
      · rw [hback] at hrestored
        exact absurd hrestored Bool.false_ne_true
      · exact hallocated
    by_cases hma : a.manual
    · by_cases hmb : b.manual
      · exact h.manualPairs sale a b hpair hma hmb
      · exact Or.inl (hauto b a hpair.symm hmb hb ha hlb hla)
    · exact Or.inr (hauto a b hpair hma ha hb hla hlb)

/-- **Commercial links.** In every interleaving of reconciles, manual confirmations and changes of the deals
in which a manual confirmation without a confirmed allocation still finds no other link of the sale when it
writes, the links are safe. -/
theorem shipment_links_safe (h : Run.ReachableVia (World.step (linkAct hash)) LinkGuard linkStart w) :
    LinksSafe hash w :=
  (h.invariant linkInv_start fun _ _ _ hinv hguard hstep => hinv.step hguard hstep).linksSafe

namespace Sample

/-- A deal with the invoice number 17. -/
def deal (id pipelineId : String) (deleted : Bool) : Deal :=
  ⟨{ id, invoice := .str [0x31, 0x37], document := .arr [], createdAt := 5, updatedAt := 5, pipelineId
     responsibleId := none }, deleted⟩

def settings : List (ℕ × LinkAction) :=
  [(0, .settings ["assembly"] true), (0, .payments fun _ => [⟨"event", 5, "sales"⟩])]

/-- Steps of one worker. -/
def steps (i : ℕ) (actions : List LinkAction) : List (ℕ × LinkAction) := actions.map (i, ·)

def deals (deals : List Deal) : ℕ × LinkAction := (0, .deals (deal "sale" "funnel" false :: deals))

/-- A reconcile with one shipment to link, whose source the stored history gives to a seller. -/
def reconcile : List (ℕ × LinkAction) :=
  steps 0 (.reconcile 100 :: List.replicate 5 .next ++ [.owner ⟨none, none, none, some (some "seller"), none⟩] ++
    List.replicate 4 .next)

/-- The first shipment is deleted when the second one is linked, and comes back. -/
def shipmentBack : List (ℕ × LinkAction) :=
  settings ++ [deals [deal "a" "assembly" false]] ++ reconcile ++
    [deals [deal "a" "assembly" true, deal "b" "assembly" false]] ++ reconcile ++
    [deals [deal "a" "assembly" false, deal "b" "assembly" false]]

def request (shipmentDealId : String) : Confirmation :=
  { userId := "admin", shipmentDealId, saleDealId := "sale", managerId := "seller", allocationConfirmed := false }

/-- One manual confirmation. -/
def confirmed : List (ℕ × LinkAction) :=
  settings ++ [deals [deal "a" "assembly" false]] ++
    steps 0 (.resolve (request "a") :: List.replicate 5 .next)

/-- Two manual confirmations count before either one writes. -/
def bothCount : List (ℕ × LinkAction) :=
  settings ++ [deals [deal "a" "assembly" false, deal "b" "assembly" false],
      (0, .resolve (request "a")), (1, .resolve (request "b")), (0, .next), (1, .next), (0, .next), (1, .next)] ++
    steps 0 (List.replicate 3 .next) ++ steps 1 (List.replicate 3 .next)

def idle (w : World LinkDb LinkThread) (i : ℕ) : Bool :=
  match w.locals i with
  | .idle => true
  | _ => false

/-- The guard of the manual confirmations. -/
def counted (w : World LinkDb LinkThread) (a : ℕ × LinkAction) : Bool :=
  match w.locals a.1 with
  | .confirming request _ _ => request.allocationConfirmed || decide (w.store.others request = 0)
  | _ => true

/-- Both shipments are confirmed for the sale under no allocation, by this source. -/
def bothConfirmed (w : World LinkDb LinkThread) (source : String) : Bool :=
  w.store.links.map (fun link => (link.shipmentDealId, link.data.saleDealId, link.data.status, link.data.source)) =
    [("a", some "sale", .confirmed, source), ("b", some "sale", .confirmed, source)] &&
    w.store.links.all (·.data.evidence.allocationConfirmed ≠ some true)

end Sample

/-- A manual confirmation is stored in a safe world. -/
theorem shipment_links_safe_sample :
    ∃ w, LinksSafe (fun _ => "hash") w ∧ w.store.links.map (·.data.source) = [manualSource] := by
  have hcheck : ∀ w a, Sample.counted w a = true → LinkGuard w a := by
    rintro w ⟨i, action⟩ hcheck
    change CountHolds w.store (w.locals i)
    unfold Sample.counted at hcheck
    dsimp only at hcheck
    split at hcheck
    case h_1 request shipment paid hthread =>
      rw [hthread]
      intro hflag
      rw [hflag, Bool.false_or] at hcheck
      exact of_decide_eq_true hcheck
    case h_2 hother =>
      unfold CountHolds
      split
      · exact absurd ‹_› (hother _ _ _)
      · trivial
  have hsample : (Run.runIf Sample.counted (World.step (linkAct fun _ => "hash")) linkStart Sample.confirmed).any
      (fun w => decide (w.store.links.map (·.data.source) = [manualSource])) = true := by decide +kernel
  have hrun : ∃ w, Run.ReachableVia (World.step (linkAct fun _ => "hash")) LinkGuard linkStart w ∧
      decide (w.store.links.map (·.data.source) = [manualSource]) = true :=
    Run.exists_of_runIf hcheck hsample
  obtain ⟨w, h, hlinks⟩ := hrun
  exact ⟨w, shipment_links_safe h, of_decide_eq_true hlinks⟩

/-- At rest after a reconcile a shipment that has come back is confirmed beside another one of its sale, and
two manual confirmations that count before either one writes are both stored, none with an allocation. -/
theorem shipment_links_doubled :
    (∃ w, Run.Reachable (World.step (linkAct fun _ => "hash")) linkStart w ∧ (∀ i, w.locals i = .idle) ∧
      w.store.last = some .reconcile ∧ 1 < w.store.links.countP (w.store.linked "sale") ∧
      Sample.bothConfirmed w "invoice-payment-v2" = true) ∧
    ∃ w, Run.Reachable (World.step (linkAct fun _ => "hash")) linkStart w ∧ (∀ i, w.locals i = .idle) ∧
      Sample.bothConfirmed w manualSource = true := by
  have hidle : ∀ {w : World LinkDb LinkThread} {i : ℕ}, Sample.idle w i = true → w.locals i = .idle := by
    intro w i h
    unfold Sample.idle at h
    split at h
    · assumption
    · exact nomatch h
  have hback : (Run.run (World.step (linkAct fun _ => "hash")) linkStart Sample.shipmentBack).any (fun w =>
      Sample.idle w 0 && decide (w.store.last = some .reconcile) &&
        decide (1 < w.store.links.countP (w.store.linked "sale")) &&
        Sample.bothConfirmed w "invoice-payment-v2") = true := by decide +kernel
  have hcount : (Run.run (World.step (linkAct fun _ => "hash")) linkStart Sample.bothCount).any (fun w =>
      Sample.idle w 0 && Sample.idle w 1 && Sample.bothConfirmed w manualSource) = true := by decide +kernel
  constructor
  · obtain ⟨w, hrun, h⟩ := (Option.any_eq_true _ _).1 hback
    simp only [Bool.and_eq_true, decide_eq_true_eq] at h
    obtain ⟨⟨⟨h₀, hlast⟩, hmany⟩, hboth⟩ := h
    refine ⟨w, Run.reachable_of_run hrun, fun i => ?_, hlast, hmany, hboth⟩
    by_cases hi : i = 0
    · rw [hi]
      exact hidle h₀
    · refine World.locals_of_run hrun fun a ha => ?_
      have hall : ∀ a ∈ Sample.shipmentBack, a.1 = 0 := by decide
      rw [hall a ha]
      exact Ne.symm hi
  · obtain ⟨w, hrun, h⟩ := (Option.any_eq_true _ _).1 hcount
    simp only [Bool.and_eq_true] at h
    obtain ⟨⟨h₀, h₁⟩, hboth⟩ := h
    refine ⟨w, Run.reachable_of_run hrun, fun i => ?_, hboth⟩
    by_cases hi : i < 2
    · interval_cases i
      · exact hidle h₀
      · exact hidle h₁
    · refine World.locals_of_run hrun fun a ha => ?_
      have hall : ∀ a ∈ Sample.bothCount, a.1 < 2 := by decide
      have := hall a ha
      omega

end AmoAnalytics.Workspaces
