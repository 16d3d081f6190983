import MicroErp.Commits.Compatible

/-!
# Rules for the statements of the services

One rule for each step that several operations share: the look-up of a key, the lock of a
customer, the insert of a row, the save of a locked customer and the commit.  `Pending` carries the
effect of the uncommitted writes from rule to rule.
-/

namespace MicroErp.Commits

open MicroErp.Concurrency MicroErp.Database MicroErp.Services MicroErp.Storage

variable {S : Setting} {req : Request} {env : Env}

section Stability

variable {lk lk' : List (LockName × LockMode)} {d d' : Db} {tenantId : Uuid} {c : Customer}

theorem Holds.mono (h : Holds d lk tenantId c) (hlk : lk ⊆ lk') : Holds d lk' tenantId c :=
  ⟨h.1, h.2.1, hlk h.2.2⟩

/-- A customer that is held stays as it is. -/
theorem Holds.stable (h : Holds d lk tenantId c) (hrely : Rely S req env lk d d') :
    Holds d' lk tenantId c :=
  ⟨(hrely.customer c.id .update h.2.2 nofun).trans h.1, h.2⟩

theorem Vacant.stable {rows : List Transaction} (h : Vacant d rows) (hslots : Slots lk rows)
    (hrely : Rely S req env lk d d') : Vacant d' rows where
  ids := h.ids
  id_free r hr := (hrely.transaction r.id .update (hslots r hr).1 nofun).trans (h.id_free r hr)
  keys := h.keys
  key_free r hr := hrely.transactionKey _ _ (hslots r hr).2 (h.key_free r hr)

theorem Slots.mono {rows : List Transaction} (h : Slots lk rows) (hlk : lk ⊆ lk') :
    Slots lk' rows := fun r hr ↦ ⟨hlk (h r hr).1, hlk (h r hr).2⟩

theorem keyUnused_iff {key : Uuid} (hslot : req.transactionKey = some (tenantId, key)) :
    req.KeyUnused d ↔ d.transactionByKey tenantId key = none := by
  have hbatch : req.batchKey = none := by
    cases req <;> first | rfl | cases hslot
  simp [Request.KeyUnused, hslot, hbatch]

theorem keyUnused_iff_of_batch {key : Uuid} (hslot : req.batchKey = some (tenantId, key)) :
    req.KeyUnused d ↔ d.batchByKey tenantId key = none := by
  have hrow : req.transactionKey = none := by
    cases req <;> first | rfl | cases hslot
  simp [Request.KeyUnused, hslot, hrow]

/-- Under its lock, what a reversal found of its transaction stays so. -/
theorem checked_stable {id : Uuid} (h : req.Checked id d) (hS : S.checked)
    (hlock : (.customer id, .update) ∈ lk) (hrely : Rely S req env lk d d') :
    req.Checked id d' := by
  cases req with
  | reverseTransaction tenantId userId transactionId dto =>
    obtain ⟨t, hfound, hunreversed, rfl⟩ := h
    obtain ⟨hfind, htenant⟩ := Option.filter_eq_some_iff.1 hfound
    obtain ⟨hmem, hid⟩ := Table.find_eq_some.1 hfind
    obtain ⟨t', hmem', hcore, hcustomer, hreversed⟩ := hrely.checked hS t hmem hlock
    refine ⟨t', Option.filter_eq_some_iff.2 ⟨Table.find_eq_some.2 ⟨hmem', ?_⟩, ?_⟩,
      hreversed.trans hunreversed, hcustomer⟩
    · exact (congrArg (·.id) hcore).trans hid
    · simpa [congrArg (·.tenant_id) hcore] using htenant
  | _ => trivial

end Stability

/-! ## Pending effects -/

/-- The pending writes have this effect in every database that the rely allows. -/
structure Pending (S : Setting) (req : Request) (env : Env) (ws : List Write)
    (lk : List (LockName × LockMode)) (d : Db) (e : Effect) : Prop where
  yields : ∀ d', Rely S req env lk d d' → e.Yields d' (postgres.view ws d')
  vacant : Vacant d e.rows
  slots : Slots lk e.rows
  core : ∀ t, (e.tweak t).toCore = t.toCore
  id : ∀ x, (e.customer x).id = x.id
  customers : e.customers = []

section Pending

variable {ws : List Write} {lk lk' : List (LockName × LockMode)} {d d' : Db} {e : Effect}

theorem Pending.nil : Pending S req env [] lk d Effect.none where
  yields d' _ := ⟨by simp [Effect.none], by simp [Effect.none], by simp [Effect.none]⟩
  vacant := ⟨List.nodup_nil, fun _ h ↦ (List.not_mem_nil h).elim, List.nodup_nil,
    fun _ h ↦ (List.not_mem_nil h).elim⟩
  slots _ h := (List.not_mem_nil h).elim
  core _ := rfl
  id _ := rfl
  customers := rfl

theorem Pending.stable (h : Pending S req env ws lk d e) (hlk : lk ⊆ lk')
    (hrely : Rely S req env lk d d') : Pending S req env ws lk' d' e where
  yields d'' h' := h.yields d'' (hrely.trans (h'.mono hlk))
  vacant := h.vacant.stable h.slots hrely
  slots := h.slots.mono hlk
  core := h.core
  id := h.id
  customers := h.customers

/-- The view has the row that the effect makes of a committed customer. -/
theorem Effect.Yields.find_customer {v : Db} {c : Customer} (h : e.Yields d v)
    (hid : ∀ x, (e.customer x).id = x.id) (hc : d.customers.find c.id = some c) :
    v.customers.find c.id = some (e.customer c) := by
  rw [Table.find_eq_some]
  refine ⟨?_, hid c⟩
  rw [h.customers, List.mem_append]
  exact Or.inl (List.mem_map_of_mem (Table.find_eq_some.1 hc).1)

/-- A row that the view lets in meets neither a committed nor a pending row. -/
theorem Vacant.append {row : Transaction} {v : Db} (h : Vacant d e.rows) (hy : e.Yields d v)
    (hcore : ∀ t, (e.tweak t).toCore = t.toCore)
    (hid : v.transactions.find row.id = none)
    (hkey : v.transactionByKey row.tenant_id row.idempotency_key = none) :
    Vacant d (e.rows ++ [row]) := by
  have hcores : v.cores = d.cores ++ e.rows.map (·.toCore) := by
    unfold Db.cores
    rw [hy.transactions, List.map_append, List.map_map]
    congr 1
    exact List.map_congr_left fun t _ ↦ hcore t
  have hidcores : ∀ r ∈ v.cores, r.id ≠ row.id := by
    intro r hr
    obtain ⟨t, ht, rfl⟩ := Db.mem_cores.1 hr
    exact Table.find_eq_none.1 hid t ht
  have hkeycores := Db.transactionByKey_eq_none.1 hkey
  rw [hcores] at hidcores hkeycores
  constructor
  · rw [List.map_append]
    refine h.ids.append (List.nodup_singleton _) ?_
    intro x hx hx'
    obtain ⟨r, hr, rfl⟩ := List.mem_map.1 hx
    exact hidcores r.toCore (List.mem_append_right _ (List.mem_map_of_mem hr))
      (List.mem_singleton.1 hx')
  · intro r hr
    rcases List.mem_append.1 hr with hr | hr
    · exact h.id_free r hr
    · obtain rfl := List.mem_singleton.1 hr
      exact Table.find_eq_none.2 fun t ht ↦
        hidcores t.toCore (List.mem_append_left _ (Db.mem_cores.2 ⟨t, ht, rfl⟩))
  · rw [List.map_append]
    refine h.keys.append (List.nodup_singleton _) ?_
    intro x hx hx'
    obtain ⟨r, hr, rfl⟩ := List.mem_map.1 hx
    have heq := Prod.mk.inj (List.mem_singleton.1 hx')
    exact hkeycores r.toCore (List.mem_append_right _ (List.mem_map_of_mem hr)) heq
  · intro r hr
    rcases List.mem_append.1 hr with hr | hr
    · exact h.key_free r hr
    · obtain rfl := List.mem_singleton.1 hr
      exact Db.transactionByKey_eq_none.2 fun core hmem ↦
        hkeycores core (List.mem_append_left _ hmem)

/-- The converse: the view lets a vacant row in. -/
theorem Vacant.free_in_view {row : Transaction} {v : Db} (h : Vacant d (e.rows ++ [row]))
    (hy : e.Yields d v) (hcore : ∀ t, (e.tweak t).toCore = t.toCore) :
    v.transactions.find row.id = none ∧
      v.transactionByKey row.tenant_id row.idempotency_key = none := by
  have hmem : row ∈ e.rows ++ [row] := List.mem_append_right _ List.mem_cons_self
  have hrows : ∀ t ∈ v.transactions.rows,
      (∃ t' ∈ d.transactions.rows, t'.toCore = t.toCore) ∨ t ∈ e.rows := by
    intro t ht
    rw [hy.transactions, List.mem_append] at ht
    rcases ht with ht | ht
    · obtain ⟨t', ht', rfl⟩ := List.mem_map.1 ht
      exact Or.inl ⟨t', ht', (hcore t').symm⟩
    · exact Or.inr ht
  have hids := h.ids
  have hkeys := h.keys
  rw [List.map_append, List.nodup_append'] at hids hkeys
  constructor
  · rw [Table.find_eq_none]
    intro t ht hid
    rcases hrows t ht with ⟨t', ht', hcore'⟩ | ht
    · exact Table.find_eq_none.1 (h.id_free row hmem) t' ht' ((congrArg (·.id) hcore').trans hid)
    · exact hids.2.2 (List.mem_map_of_mem ht) (by simp [show t.id = row.id from hid])
  · rw [Db.transactionByKey_eq_none]
    rintro core hcore' ⟨htenant, hkey⟩
    obtain ⟨t, ht, rfl⟩ := Db.mem_cores.1 hcore'
    rcases hrows t ht with ⟨t', ht', hcore'⟩ | ht
    · refine Db.transactionByKey_eq_none.1 (h.key_free row hmem) t'.toCore
        (Db.mem_cores.2 ⟨t', ht', rfl⟩) ?_
      rw [hcore']
      exact ⟨htenant, hkey⟩
    · exact hkeys.2.2 (List.mem_map_of_mem ht) (by simp [htenant, hkey])

end Pending

/-! ## The look-up of a key -/

section Rules

variable {ws : List Write} {lk : List (LockName × LockMode)} {d : Db} {e : Effect}
  {tenantId : Uuid}

theorem wp_findByKey {key : Uuid} {k : Option Transaction → Script Answer}
    (hkey : req.transactionKey = some (tenantId, key))
    (hready : S.copiesOn.isSome →
      ∀ d', postgres.ready (contract S req env) (k none) [] d' → req.KeyUnused d')
    (hsome : ∀ t d', Rely S req env [] d d' → ¬S.keyUnused env →
      d'.transactionByKey tenantId key = some t →
        (S.quiet → postgres.follows (contract S req env) (.findTransactionByKey tenantId key) k
          (some t) [] [] [] d') ∧
        postgres.wp (contract S req env) (k (some t)) [] [] d')
    (hnone : ∀ d', Rely S req env [] d d' → req.KeyUnused d' →
      postgres.wp (contract S req env) (k none) [] [] d') :
    postgres.wp (contract S req env) (.stmt (.findTransactionByKey tenantId key) k) [] [] d := by
  intro d' hrely hallow r ws' hexec
  obtain ⟨rfl, rfl⟩ : d'.transactionByKey tenantId key = r ∧ [] = ws' := by
    simpa [Sql.exec] using hexec
  cases hfound : d'.transactionByKey tenantId key with
  | some t =>
    refine hsome t d' hrely (fun hS ↦ ?_) hfound
    have hnone := hallow hS
    rw [show postgres.view [] d' = d' from rfl, hfound] at hnone
    cases hnone
  | none =>
    have hunused := (keyUnused_iff hkey).2 hfound
    refine ⟨fun hS ↦ Or.inr fun d'' hrely' hnext ↦ ?_, hnone d' hrely hunused⟩
    have hunused' : req.KeyUnused d'' := by
      cases hcopies : S.copiesOn with
      | none =>
        refine ((hrely' : Rely S req env [] d' d'').quiet hS).keyUnused (fun who hwho ↦ ?_) hunused
        rw [hcopies] at hwho
        cases hwho
      | some who => exact hready (by rw [hcopies]; rfl) d'' hnext
    have hfound' := (keyUnused_iff hkey).1 hunused'
    refine ⟨fun _ ↦ hfound', ?_⟩
    rw [Engine.alone]
    simp only [postgres_exec, Sql.exec, Engine.view_nil, hfound']

/-- A replay commits nothing and answers the row it found. -/
theorem wp_findByKey_replay {key : Uuid} {k : Option Transaction → Script Answer}
    (answer : Transaction → Answer) (hkey : req.transactionKey = some (tenantId, key))
    (hready : S.copiesOn.isSome →
      ∀ d', postgres.ready (contract S req env) (k none) [] d' → req.KeyUnused d')
    (hreplay : ∀ t, k (some t) = .commit (.ret (answer t)))
    (hanswer : ∀ t d', ¬S.keyUnused env → Recorded req t d' → Answered S req env (answer t) d')
    (hnone : ∀ d', Rely S req env [] d d' → req.KeyUnused d' →
      postgres.wp (contract S req env) (k none) [] [] d') :
    postgres.wp (contract S req env) (.stmt (.findTransactionByKey tenantId key) k) [] [] d := by
  refine wp_findByKey hkey hready (fun t d' _ hS hfound ↦ ?_) hnone
  have hrow : t ∈ d'.transactions.rows ∧ t.tenant_id = tenantId ∧ t.idempotency_key = key :=
    ⟨List.mem_of_find?_eq_some hfound, by simpa using List.find?_some hfound⟩
  rw [hreplay]
  refine ⟨fun _ ↦ Or.inl ⟨.ok (answer t), by rw [hreplay]; exact ⟨rfl, rfl⟩⟩, ?_⟩
  intro d₁ hrely
  have hidle : req.MayIdle := Or.inl (by rw [hkey]; rfl)
  refine ⟨Or.inl ⟨rfl, hidle⟩, Or.inl ⟨_, rfl⟩, fun d₂ hrely' ↦ hanswer t d₂ hS ?_⟩
  refine ⟨(hrely.cores.trans hrely'.cores).subset (Db.mem_cores.2 ⟨t, hrow.1, rfl⟩), ?_⟩
  rw [hkey, hrow.2.1, hrow.2.2]

/-! ## The lock of a customer -/

/-- A customer that is found is locked; one that is not found leaves no lock. -/
theorem wp_lockRow {id : Uuid} {k : Option Customer → Script Answer}
    (hpinned : S.quiet → ∀ who, S.copiesOn = some who → id = who)
    (hnone : ∀ d', Rely S req env lk d d' → d'.customer tenantId id = none →
      (S.quiet → postgres.follows (contract S req env) (.lockCustomer tenantId id) k none [] []
        lk d') ∧ postgres.wp (contract S req env) (k none) [] lk d')
    (hsome : ∀ c d', Rely S req env lk d d' → S.allow req env (.lockCustomer tenantId id) d' →
      c.id = id → Holds d' (lk ++ [(.customer id, .update)]) tenantId c →
        postgres.wp (contract S req env) (k (some c)) [] (lk ++ [(.customer id, .update)]) d') :
    postgres.wp (contract S req env) (.stmt (.lockCustomer tenantId id) k) [] lk d := by
  intro d' hrely hallow r ws' hexec
  obtain ⟨rfl, rfl⟩ : d'.customer tenantId id = r ∧ [] = ws' := by
    simpa [Sql.exec] using hexec
  cases hfound : d'.customer tenantId id with
  | none =>
    have hneeds : postgres.needs (.lockCustomer tenantId id) (postgres.view [] d') = [] := by
      simp [Sql.locks, Sql.lockFound, hfound]
    rw [hneeds, List.append_nil]
    exact hnone d' hrely hfound
  | some c =>
    have hneeds : postgres.needs (.lockCustomer tenantId id) (postgres.view [] d') =
        [(.customer id, .update)] := by
      simp [Sql.locks, Sql.lockFound, hfound]
    rw [hneeds]
    obtain ⟨hfind, htenant⟩ := Option.filter_eq_some_iff.1 hfound
    obtain rfl : c.id = id := (Table.find_eq_some.1 hfind).2
    have hlock : (LockName.customer c.id, LockMode.update) ∈ lk ++ [(.customer c.id, .update)] :=
      List.mem_append_right _ List.mem_cons_self
    have hc : Holds d' (lk ++ [(.customer c.id, .update)]) tenantId c :=
      ⟨hfind, by simpa using htenant, hlock⟩
    refine ⟨fun hS ↦ Engine.follows_of_exec fun d'' hrely' ↦ ⟨?_, ?_⟩,
      hsome c d' hrely hallow rfl hc⟩
    · refine ⟨fun hchecked ↦ checked_stable (hallow.1 hchecked) hchecked hlock hrely',
        fun hcopies ↦ ?_⟩
      refine ((hrely' : Rely S req env _ d' d'').quiet hS).keyUnused (fun who hwho ↦ ?_)
        (hallow.2 hcopies)
      rw [← hpinned hS who hwho]
      exact hlock
    · have hfound' : d''.customer tenantId c.id = some c := by
        rw [Db.customer, (hc.stable hrely').1]
        simpa [Option.filter] using htenant
      simp only [postgres_exec, Sql.exec, Engine.view_nil, hfound']

/-- The lock of a customer that must exist. -/
theorem wp_lockCustomer {id : Uuid} {k : Option Customer → Script Answer}
    (hpinned : S.quiet → ∀ who, S.copiesOn = some who → id = who)
    (hnone : ∃ err, k none = .fail err)
    (hsome : ∀ c d', Rely S req env lk d d' → S.allow req env (.lockCustomer tenantId id) d' →
      c.id = id → Holds d' (lk ++ [(.customer id, .update)]) tenantId c →
        postgres.wp (contract S req env) (k (some c)) [] (lk ++ [(.customer id, .update)]) d') :
    postgres.wp (contract S req env) (.stmt (.lockCustomer tenantId id) k) [] lk d := by
  obtain ⟨err, herr⟩ := hnone
  refine wp_lockRow hpinned (fun d' _ _ ↦ ⟨fun _ ↦ Or.inl ⟨.error err, ?_⟩, ?_⟩) hsome
  · rw [herr]
    rfl
  · rw [herr]
    trivial

/-! ## The insert of a row -/

theorem wp_insertTransaction {row : Transaction} {f : Unit → Script Answer}
    (hp : Pending S req env ws lk d e)
    (h : ∀ lk' d', lk ⊆ lk' → Rely S req env lk d d' →
      Pending S req env (ws ++ [.insertTransaction row]) lk' d' { e with rows := e.rows ++ [row] } →
        postgres.wp (contract S req env) (f ()) (ws ++ [.insertTransaction row]) lk' d') :
    postgres.wp (contract S req env) (insertTransaction row >>= f) ws lk d := by
  intro d' hrely _ r ws' hexec
  have hy := hp.yields d' hrely
  obtain ⟨⟨hid, hkey⟩, hint, rfl⟩ :
      ((postgres.view ws d').transactions.find row.id = none ∧
        (postgres.view ws d').transactionByKey row.tenant_id row.idempotency_key = none) ∧
      Int4 row.amount_cents ∧ ws' = [.insertTransaction row] := by
    simp only [postgres_exec, Sql.exec] at hexec
    split at hexec
    · cases hexec
    · rename_i hfree
      obtain ⟨hint, rfl⟩ := Sql.writing_eq_ok hexec
      exact ⟨by simpa using hfree, hint, rfl⟩
  set lk₁ := lk ++ postgres.needs (.insertTransaction row) (postgres.view ws d') with hlk₁
  have hsub : lk ⊆ lk₁ := List.subset_append_left _ _
  have hvacant : Vacant d' (e.rows ++ [row]) :=
    (hp.vacant.stable hp.slots hrely).append hy hp.core hid hkey
  have hslots : Slots lk₁ (e.rows ++ [row]) := by
    intro r hr
    rcases List.mem_append.1 hr with hr | hr
    · exact hp.slots.mono hsub r hr
    · obtain rfl := List.mem_singleton.1 hr
      simp [hlk₁, Sql.locks]
  -- the slots keep the row insertable, so the view grows by it in every later database
  have hpending : Pending S req env (ws ++ [.insertTransaction row]) lk₁ d'
      { e with rows := e.rows ++ [row] } := by
    refine ⟨fun d'' hrely' ↦ ?_, hvacant, hslots, hp.core, hp.id, hp.customers⟩
    have hy' := hp.yields d'' (hrely.trans (hrely'.mono hsub))
    have hfree := (hvacant.stable hslots hrely').free_in_view hy' hp.core
    rw [Engine.view_append]
    refine ⟨?_, hy'.customers, hy'.batches⟩
    simp only [Engine.view_cons, Engine.view_nil, postgres_write, Write.apply]
    rw [Table.rows_insert_of_fresh hfree.1, ← List.append_assoc]
    exact congrArg (· ++ [row]) hy'.transactions
  refine ⟨fun hS ↦ Engine.follows_of_exec fun d'' hrely' ↦ ⟨trivial, ?_⟩, ?_⟩
  · have hy' := hp.yields d'' (hrely.trans (hrely'.mono hsub))
    have hfree := (hvacant.stable hslots hrely').free_in_view hy' hp.core
    simp only [postgres_exec, Sql.exec]
    rw [if_neg (by simpa using hfree), Sql.writing, if_pos hint]
  · intro d₂ hrely₂ _ r₂ ws₂ hexec₂
    obtain ⟨rfl, rfl⟩ : () = r₂ ∧ [] = ws₂ := by simpa [Sql.exec] using hexec₂
    refine ⟨fun hS ↦ Engine.follows_of_exec fun _ _ ↦ ⟨trivial, rfl⟩, ?_⟩
    rw [List.append_nil]
    refine h _ d₂ (List.subset_append_of_subset_left _ hsub)
      (hrely.trans (Rely.mono hsub hrely₂)) ?_
    exact hpending.stable (List.subset_append_left _ _) hrely₂

/-! ## The save of a locked customer -/

/-- What `save` writes of a customer whose row it read again. -/
def savedCustomer (mem reread : Customer) : List Write :=
  if mem = reread then [] else [.updateCustomer mem reread]

theorem Customer.saved_self {mem reread : Customer} (hid : mem.id = reread.id) :
    Customer.saved mem reread reread = mem := by
  have hcolumn : ∀ {α : Type} [DecidableEq α] (x y : α), savedColumn x y y = x := by
    intro α _ x y
    unfold savedColumn
    split
    · rename_i hxy
      exact hxy.symm
    · rfl
  simp only [Customer.saved, hcolumn, ← hid]

/-- Saving the row of an unchanged key puts the entity in its place. -/
theorem Effect.Yields.savedCustomer {v : Db} {mem x : Customer} (h : e.Yields d v)
    (hcustomers : e.customers = []) (hid : mem.id = x.id) (hx : v.customers.find x.id = some x) :
    ({ e with customer := setCustomer mem ∘ e.customer } : Effect).Yields d
      (postgres.view (savedCustomer mem x) v) := by
  have hrow : ∀ y ∈ v.customers.rows, y.id = mem.id → y = x := fun y hy hyid ↦
    Db.eq_of_find_customer hx hy (hyid.trans hid)
  have hset : (postgres.view (Commits.savedCustomer mem x) v).customers.rows =
      v.customers.rows.map (setCustomer mem) := by
    unfold Commits.savedCustomer
    split
    · rename_i heq
      rw [Engine.view_nil]
      symm
      refine (List.map_congr_left fun y hy ↦ ?_).trans (List.map_id _)
      unfold setCustomer
      split
      · rename_i hyid
        exact heq.trans (hrow y hy hyid).symm
      · rfl
    · simp only [Engine.view_cons, Engine.view_nil, postgres_write, Write.apply, Table.rows_modify,
        Customer.key_eq]
      apply List.map_congr_left
      intro y hy
      unfold setCustomer
      by_cases hyid : y.id = mem.id
      · obtain rfl := hrow y hy hyid
        rw [if_pos hyid, if_pos hyid, Table.amend, Customer.saved_self hid]
        exact if_pos hid
      · rw [if_neg hyid, if_neg hyid]
  have hothers : (postgres.view (Commits.savedCustomer mem x) v).transactions = v.transactions ∧
      (postgres.view (Commits.savedCustomer mem x) v).batches = v.batches := by
    unfold Commits.savedCustomer
    split <;> exact ⟨rfl, rfl⟩
  refine ⟨?_, ?_, ?_⟩
  · rw [hothers.1]
    exact h.transactions
  · rw [hset, h.customers, hcustomers, List.append_nil, List.append_nil, List.map_map]
  · rw [hothers.2]
    exact h.batches

theorem wp_saveCustomer {c mem : Customer} {f : Unit → Script Answer}
    (hp : Pending S req env ws lk d e) (hc : Holds d lk tenantId c) (hid : mem.id = c.id)
    (h : ∀ lk' d', lk ⊆ lk' → Rely S req env lk d d' →
      Pending S req env (ws ++ savedCustomer mem (e.customer c)) lk' d'
        { e with customer := setCustomer mem ∘ e.customer } →
      postgres.wp (contract S req env) (f ()) (ws ++ savedCustomer mem (e.customer c)) lk' d') :
    postgres.wp (contract S req env) (saveCustomer mem >>= f) ws lk d := by
  set x := e.customer c with hx
  have hxid : mem.id = x.id := hid.trans (hp.id c).symm
  have hread : ∀ d', Rely S req env lk d d' →
      (postgres.view ws d').customers.find mem.id = some x := by
    intro d' hrely
    rw [hid]
    exact (hp.yields d' hrely).find_customer hp.id (hc.stable hrely).1
  have hpending : ∀ lk', lk ⊆ lk' → ∀ d', Rely S req env lk d d' →
      Pending S req env (ws ++ savedCustomer mem x) lk' d'
        { e with customer := setCustomer mem ∘ e.customer } := by
    intro lk' hsub d' hrely
    have hstable := hp.stable hsub hrely
    refine ⟨fun d'' hrely' ↦ ?_, hstable.vacant, hstable.slots, hp.core, fun y ↦ ?_,
      hp.customers⟩
    · have hrely'' := hrely.trans (hrely'.mono hsub)
      rw [Engine.view_append]
      refine (hp.yields d'' hrely'').savedCustomer hp.customers hxid ?_
      rw [← hxid]
      exact hread d'' hrely''
    · change (setCustomer mem (e.customer y)).id = y.id
      unfold setCustomer
      split
      · rename_i heq
        exact heq.symm.trans (hp.id y)
      · exact hp.id y
  rw [saveCustomer, saveEntity_bind]
  intro d' hrely hallow r ws' hexec
  obtain ⟨rfl, rfl⟩ : some x = r ∧ [] = ws' := by
    simp only [postgres_exec, Sql.exec, Except.ok.injEq, Prod.mk.injEq] at hexec
    exact ⟨(hread d' hrely).symm.trans hexec.1, hexec.2⟩
  refine ⟨fun hS ↦ Engine.follows_of_exec fun d'' hrely' ↦ ⟨?_, ?_⟩, ?_⟩
  · have hsame := (hread d' hrely).trans (hread d'' (hrely.trans (Rely.mono
      (List.subset_append_left _ _) hrely'))).symm
    intro hS hedit c' hc'
    exact hallow hS hedit c' (hsame ▸ hc')
  · have hrely'' := hrely.trans (Rely.mono (List.subset_append_left _ _) hrely')
    simp only [postgres_exec, Sql.exec, hread d'' hrely'']
  · rw [List.append_nil]
    simp only [postgres_needs, Sql.locks, List.append_nil]
    have hstart := hpending lk (List.Subset.refl _) d' hrely
    have hrest := h lk d' (List.Subset.refl _) hrely hstart
    change postgres.wp _ (if mem = x then f () else query (.updateCustomer mem x) >>= f) ws lk d'
    by_cases heq : mem = x
    · rw [if_pos heq]
      simpa only [savedCustomer, heq, if_true, List.append_nil] using hrest
    · rw [if_neg heq]
      intro d₂ hrely₂ _ r₂ ws₂ hexec₂
      obtain ⟨hint, rfl⟩ := Sql.writing_eq_ok hexec₂
      refine ⟨fun hS ↦ Engine.follows_of_exec fun _ _ ↦ ⟨trivial, if_pos hint⟩, ?_⟩
      have hsub := List.subset_append_left lk
        (postgres.needs (.updateCustomer mem x) (postgres.view ws d₂))
      have hrest := h _ d₂ hsub (hrely.trans hrely₂)
        (hpending _ hsub d₂ (hrely.trans hrely₂))
      rw [savedCustomer, if_neg heq] at hrest
      exact hrest

/-! ## The commit -/

theorem wp_commit {a : Answer}
    (hguar : ∀ d', Rely S req env lk d d' →
      (ws = [] ∧ req.MayIdle) ∨ ∃ e, Commit S req env lk d' (postgres.view ws d') e)
    (hanswer : ∀ d' d'', Rely S req env lk d d' → Rely S req env [] (postgres.view ws d') d'' →
      Answered S req env a d'') :
    postgres.wp (contract S req env) (.commit (.ret a)) ws lk d := by
  intro d' hrely
  exact ⟨hguar d' hrely, Or.inl ⟨a, rfl⟩, fun d'' hrely' ↦ hanswer d' d'' hrely hrely'⟩

/-- A row that a commit appended is recorded from then on. -/
theorem Commit.recorded {d' d'' : Db} {lk' : List (LockName × LockMode)} {r : Transaction}
    (h : Commit S req env lk d d' e) (hr : r ∈ e.rows)
    (hkey : req.transactionKey = some (r.tenant_id, r.idempotency_key))
    (hrely : Rely S req env lk' d' d'') : Recorded req r d'' := by
  refine ⟨hrely.cores.subset ?_, hkey⟩
  rw [h.cores]
  exact List.mem_append_right _ (List.mem_map_of_mem hr)

/-- Pending writes whose effect the request may have can be committed. -/
theorem Pending.commit (hp : Pending S req env ws lk d e) (hbatches : e.batches = [])
    (hpinned : S.quiet → ∀ who, S.copiesOn = some who → (.customer who, .update) ∈ lk)
    (hunused : S.fresh → env.Unused d) (hchanges : Changes S env lk d req e) :
    Commit S req env lk d (postgres.view ws d) e where
  yields := hp.yields d Rely.refl
  vacant := hp.vacant
  slots := hp.slots
  batchKey b h := by
    rw [hbatches] at h
    cases h
  customerKey c h := by
    rw [hp.customers] at h
    cases h
  pinned := hpinned
  unused := hunused
  changes := hchanges

/-- The pending writes of a posting are what the request may commit. -/
theorem Pending.commit_posting {key : Uuid} {c : Customer} {rows : List Transaction} {balance : ℤ}
    (hp : Pending S req env ws lk d (posting c rows balance)) (hc : Holds d lk tenantId c)
    (hkey : req.transactionKey = some (tenantId, key)) (hposts : Posts env c req rows balance)
    (hpinned : S.quiet → ∀ who, S.copiesOn = some who → c.id = who)
    (hunused : S.fresh → env.Unused d) :
    Commit S req env lk d (postgres.view ws d) (posting c rows balance) :=
  hp.commit rfl (fun hS who hwho ↦ hpinned hS who hwho ▸ hc.2.2) hunused (.post hkey hc hposts)

/-- The end of an operation that posts one row. -/
theorem wp_post {key : Uuid} {c : Customer} {row : Transaction} {balance : ℤ}
    (hc : Holds d lk tenantId c) (hkey : req.transactionKey = some (tenantId, key))
    (hposts : Posts env c req [row] balance)
    (hrow : req.transactionKey = some (row.tenant_id, row.idempotency_key))
    (hfulfils : Fulfils row req)
    (hpinned : S.quiet → ∀ who, S.copiesOn = some who → c.id = who)
    (hunused : S.fresh → env.Unused d) :
    postgres.wp (contract S req env)
      (insertTransaction row >>= fun _ ↦ saveCustomer { c with balance_cents := balance } >>=
        fun _ ↦ .commit (.ret (.transaction row))) [] lk d := by
  refine wp_insertTransaction Pending.nil fun lk₁ d₁ hlk₁ hrely₁ hp₁ ↦ ?_
  have hc₁ := (hc.stable hrely₁).mono hlk₁
  refine wp_saveCustomer hp₁ hc₁ rfl fun lk₂ d₂ hlk₂ hrely₂ hp₂ ↦ ?_
  have hc₂ := (hc₁.stable hrely₂).mono hlk₂
  have hcommit : ∀ d₃, Rely S req env lk₂ d₂ d₃ → Commit S req env lk₂ d₃
      (postgres.view _ d₃) (posting c [row] balance) := fun d₃ hrely₃ ↦
    (hp₂.stable (List.Subset.refl _) hrely₃).commit_posting (hc₂.stable hrely₃) hkey hposts hpinned
      fun hS ↦ hrely₃.unused hS (hrely₂.unused hS (hrely₁.unused hS (hunused hS)))
  refine wp_commit (fun d₃ hrely₃ ↦ Or.inr ⟨_, hcommit d₃ hrely₃⟩) fun d₃ d₄ hrely₃ hrely₄ ↦ ?_
  exact ⟨(hcommit d₃ hrely₃).recorded List.mem_cons_self hrow hrely₄, fun _ ↦ hfulfils⟩

end Rules

end MicroErp.Commits
