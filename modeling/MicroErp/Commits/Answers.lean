import MicroErp.Commits.Compatible

/-!
# Look-ups in a well-formed ledger

A key names one row, and a group of a mixed payment has both of its rows; so what a replay answers
is determined by the immutable columns.
-/

namespace MicroErp.Commits

open MicroErp.Concurrency MicroErp.Database MicroErp.Services MicroErp.Storage

variable {S : Setting} {req : Request} {env : Env} {d d' : Db} {tenantId key : Uuid}

theorem core_of_transactionByKey {t : Transaction} (h : d.transactionByKey tenantId key = some t) :
    t.toCore ∈ d.cores ∧ t.tenant_id = tenantId ∧ t.idempotency_key = key :=
  ⟨Db.mem_cores.2 ⟨t, List.mem_of_find?_eq_some h, rfl⟩, by simpa using List.find?_some h⟩

/-- A key names one row. -/
theorem eq_core_of_key (hwf : d.WellFormed) {r r' : Transaction.Core} (hr : r ∈ d.cores)
    (hr' : r' ∈ d.cores) (htenant : r.tenant_id = r'.tenant_id)
    (hkey : r.idempotency_key = r'.idempotency_key) : r = r' :=
  List.inj_on_of_nodup_map hwf.keys hr hr' (Prod.ext htenant hkey)

/-- A row found under a key is found again, up to its mutable columns. -/
theorem transactionByKey_later {t : Transaction} (hwf : d'.WellFormed)
    (hfound : d.transactionByKey tenantId key = some t) (hcores : d.cores <+: d'.cores) :
    ∃ t', d'.transactionByKey tenantId key = some t' ∧ t'.toCore = t.toCore := by
  obtain ⟨hcore, htenant, hkey⟩ := core_of_transactionByKey hfound
  have hlater := hcores.subset hcore
  cases hfound' : d'.transactionByKey tenantId key with
  | none => exact (Db.transactionByKey_eq_none.1 hfound' _ hlater ⟨htenant, hkey⟩).elim
  | some t' =>
    obtain ⟨hcore', htenant', hkey'⟩ := core_of_transactionByKey hfound'
    exact ⟨t', rfl, eq_core_of_key hwf hcore' hlater (htenant'.trans htenant.symm)
      (hkey'.trans hkey.symm)⟩

theorem find_core (hwf : d.WellFormed) {r : Transaction.Core} (hr : r ∈ d.cores)
    (htenant : r.tenant_id = tenantId) (hkey : r.idempotency_key = key) :
    d.cores.find? (fun x ↦ x.tenant_id = tenantId ∧ x.idempotency_key = key) = some r := by
  cases hfound : d.cores.find? fun x ↦ x.tenant_id = tenantId ∧ x.idempotency_key = key with
  | none =>
    have hno := List.find?_eq_none.1 hfound r hr
    simp [htenant, hkey] at hno
  | some r' =>
    have hkeys : r'.tenant_id = tenantId ∧ r'.idempotency_key = key := by
      simpa using List.find?_some hfound
    rw [eq_core_of_key hwf (List.mem_of_find?_eq_some hfound) hr (hkeys.1.trans htenant.symm)
      (hkeys.2.trans hkey.symm)]

/-! ## Groups -/

theorem groupCores_eq_map (d : Db) (g : Uuid) :
    d.groupCores g = (d.transactionsOfGroup g).map (·.toCore) := by
  unfold Db.groupCores Db.cores Db.transactionsOfGroup
  rw [List.filter_map]
  rfl

theorem toCore_legOf (rows : List Transaction) (method : PaymentMethod) (t : Transaction) :
    (legOf rows method t).toCore = legCore (rows.map (·.toCore)) method t.toCore := by
  unfold legOf legCore
  rw [List.find?_map, Option.getD_map]
  rfl

/-- In a group that has rows both legs are found, whichever row was looked up. -/
theorem legOf_eq_of_group (hwf : d.WellFormed) {t : Transaction} {g : Uuid}
    (ht : t.toCore ∈ d.cores) (hg : t.reference_group_id = some g) (method : PaymentMethod)
    (existing existing' : Transaction) :
    legOf (d.transactionsOfGroup g) method existing =
      legOf (d.transactionsOfGroup g) method existing' := by
  obtain ⟨cash, transfer, hgroup, hcash, htransfer⟩ := hwf.groups t.toCore ht g hg
  unfold legOf
  cases hfound : (d.transactionsOfGroup g).find? fun t ↦ t.payment_method = some method with
  | some leg => rfl
  | none =>
    exfalso
    have hall : ∀ r ∈ d.groupCores g, r.payment_method ≠ some method := by
      intro r hr
      rw [groupCores_eq_map] at hr
      obtain ⟨t', ht', rfl⟩ := List.mem_map.1 hr
      simpa using List.find?_eq_none.1 hfound t' ht'
    rw [hgroup] at hall
    cases method with
    | CASH => exact hall cash List.mem_cons_self hcash
    | TRANSFER => exact hall transfer (List.mem_cons_of_mem _ List.mem_cons_self) htransfer

theorem groupCores_ne_nil {r : Transaction.Core} {g : Uuid} (hr : r ∈ d.cores)
    (hg : r.reference_group_id = some g) : d.groupCores g ≠ [] := by
  apply List.ne_nil_of_mem (a := r)
  simp [Db.groupCores, hr, hg]

/-- What a mixed payment with the key of this row answers. -/
theorem mixedCores_eq (hwf : d.WellFormed) {r : Transaction.Core} (hr : r ∈ d.cores)
    (htenant : r.tenant_id = tenantId) (hkey : r.idempotency_key = key) :
    mixedCores d tenantId key =
      let group := match r.reference_group_id with
        | some g => d.groupCores g
        | none => [r]
      some (legCore group .CASH r, legCore group .TRANSFER r) := by
  unfold mixedCores
  rw [find_core hwf hr htenant hkey]
  rfl

/-- The rows that a replay of a mixed payment answers when it found `t`. -/
def replayedRows (d : Db) (t : Transaction) : MixedPayment :=
  let rows := match t.reference_group_id with
    | some g => d.transactionsOfGroup g
    | none => [t]
  ⟨legOf rows .CASH t, legOf rows .TRANSFER t⟩

theorem alone_replayMixedPayment (d : Db) (t : Transaction) :
    postgres.alone (replayMixedPayment t >>= fun a ↦ pure (Answer.mixed a)) [] d =
      (.ok (.mixed (replayedRows d t)), d) := by
  unfold replayMixedPayment replayedRows
  cases t.reference_group_id <;> rfl

theorem mixedCores_replayedRows (hwf : d.WellFormed) {t : Transaction} (ht : t.toCore ∈ d.cores)
    (htenant : t.tenant_id = tenantId) (hkey : t.idempotency_key = key) :
    mixedCores d tenantId key =
      some ((replayedRows d t).cash.toCore, (replayedRows d t).transfer.toCore) := by
  rw [mixedCores_eq hwf ht htenant hkey]
  unfold replayedRows
  simp only [toCore_legOf]
  cases t.reference_group_id with
  | none => rfl
  | some g => simp only [groupCores_eq_map]

/-- In a group it does not matter which version of the row was looked up. -/
theorem replayedRows_congr (hwf : d.WellFormed) {t t' : Transaction} {g : Uuid}
    (ht : t.toCore ∈ d.cores) (hg : t.reference_group_id = some g) (hcore : t'.toCore = t.toCore) :
    replayedRows d t' = replayedRows d t := by
  have hg' : t'.reference_group_id = some g := (congrArg (·.reference_group_id) hcore).trans hg
  unfold replayedRows
  simp only [hg, hg']
  rw [legOf_eq_of_group hwf ht hg .CASH t' t, legOf_eq_of_group hwf ht hg .TRANSFER t' t]

end MicroErp.Commits
