import MicroErp.Commits.Runs
import MicroErp.Database.OwnedWrites

/-!
# The programs stay within their tenant

Every request of a tenant issues only statements `Sql.Scoped` to the tenant, since every row that it
names was read under the tenant and every row that it inserts has an identifier of its own.
-/

namespace MicroErp.Commits

open MicroErp.Concurrency MicroErp.Database MicroErp.Services MicroErp.Storage

/-- The tenant that a request is of.  The webhook and three of the jobs work for all tenants. -/
def tenantOf : Request → Option Uuid
  | .registerDebt tenantId _ _ => some tenantId
  | .registerPayment tenantId _ _ => some tenantId
  | .registerMixedPayment tenantId _ _ => some tenantId
  | .reverseTransaction tenantId _ _ _ => some tenantId
  | .forgiveDebt tenantId _ _ => some tenantId
  | .applyInflationAdjustment tenantId _ _ => some tenantId
  | .createCustomer tenantId _ => some tenantId
  | .updateCustomer tenantId _ _ => some tenantId
  | .updateCreditLimit tenantId _ _ => some tenantId
  | .toggleBlock tenantId _ => some tenantId
  | .updatePromise tenantId _ _ => some tenantId
  | .mergeCustomers tenantId _ => some tenantId
  | .openTurn tenantId _ _ => some tenantId
  | .closeTurn tenantId _ => some tenantId
  | .updateSettings tenantId _ => some tenantId
  | .processAutoBlocks tenantId _ => some tenantId
  | _ => none

/-- The program issues only statements of the tenant. -/
abbrev Stays (own : Uuid → Option Uuid) (tenantId : Uuid) {α : Type} (p : Script α) (Q : α → Prop) : Prop :=
  p.Safe (Sql.Scoped own tenantId) (Sql.Brings own) Q

variable {own : Uuid → Option Uuid} {tenantId : Uuid} {env : Env}

/-! ## Steps of the programs -/

theorem query_stays (o : Sql) (h : o.Scoped own tenantId) :
    Stays own tenantId (query o) (o.Brings own) :=
  Prog.safe_issue h

theorem saveEntity_stays {E : Type} [DecidableEq E] {entity : E} {find : Script (Option E)}
    {update : E → Script Unit} (hfind : Stays own tenantId find fun _ ↦ True)
    (hupdate : ∀ reread, Stays own tenantId (update reread) fun _ ↦ True) :
    Stays own tenantId (saveEntity entity find update) fun _ ↦ True := by
  refine hfind.bind fun row _ ↦ ?_
  cases row with
  | none => trivial
  | some reread =>
    simp only
    split
    · trivial
    · exact hupdate reread

/-- A customer of the tenant, as its reads answer it. -/
def OfTenant (own : Uuid → Option Uuid) (tenantId : Uuid) (c : Customer) : Prop :=
  own c.id = some tenantId ∧ c.tenant_id = tenantId

theorem saveCustomer_stays {c : Customer} (hc : OfTenant own tenantId c) :
    Stays own tenantId (saveCustomer c) fun _ ↦ True :=
  saveEntity_stays ⟨hc.1, fun _ _ ↦ trivial⟩ fun _ ↦ ⟨hc, fun _ _ ↦ trivial⟩

theorem saveTransaction_stays {t : Transaction} (ht : t.Owned own) (htenant : t.tenant_id = tenantId) :
    Stays own tenantId (saveTransaction t) fun _ ↦ True :=
  saveEntity_stays ⟨htenant ▸ ht.id, fun _ _ ↦ trivial⟩
    fun _ ↦ ⟨⟨ht, htenant⟩, fun _ _ ↦ trivial⟩

theorem saveTenant_stays {t : Tenant} (ht : t.id = tenantId) :
    Stays own tenantId (saveTenant t) fun _ ↦ True :=
  saveEntity_stays ⟨ht, fun _ _ ↦ trivial⟩ fun _ ↦ ⟨ht, fun _ _ ↦ trivial⟩

theorem saveShift_stays {s : CashRegisterLog} (hid : own s.id = some tenantId)
    (htenant : s.tenant_id = tenantId) : Stays own tenantId (saveShift s) fun _ ↦ True :=
  saveEntity_stays ⟨hid, fun _ _ ↦ trivial⟩ fun _ ↦ ⟨⟨hid, htenant⟩, fun _ _ ↦ trivial⟩

theorem findByIdempotencyKey_stays (key : Uuid) :
    Stays own tenantId (findByIdempotencyKey tenantId key)
      fun r ↦ ∀ t ∈ r, t.Owned own ∧ t.tenant_id = tenantId :=
  Prog.safe_issue rfl

theorem lockCustomer_stays (customerId : Uuid) :
    Stays own tenantId (lockCustomer tenantId customerId)
      fun c ↦ c.id = customerId ∧ OfTenant own tenantId c := by
  refine ⟨rfl, fun row hrow ↦ ?_⟩
  cases row with
  | none => trivial
  | some c => exact hrow c rfl

theorem findCustomerOrFail_stays (customerId : Uuid) :
    Stays own tenantId (findCustomerOrFail tenantId customerId) (OfTenant own tenantId) := by
  refine ⟨rfl, fun row hrow ↦ ?_⟩
  cases row with
  | none => trivial
  | some c => exact hrow c rfl

/-- An insert whose foreign keys lie with the tenant. -/
theorem insertTransaction_stays {row : Transaction} (hrow : row.Owned own)
    (htenant : row.tenant_id = tenantId) (hreversed : ∀ id ∈ row.reversed_transaction_id, own id = some tenantId) :
    Stays own tenantId (insertTransaction row) fun _ ↦ True := by
  refine ⟨⟨hrow, htenant⟩, fun _ _ ↦ ⟨fun l hl ↦ ?_, fun _ _ ↦ trivial⟩⟩
  rcases List.mem_append.1 hl with hl | hl
  · simp only [List.mem_cons, List.not_mem_nil, or_false] at hl
    rcases hl with rfl | rfl | rfl
    · exact htenant
    · exact htenant ▸ hrow.customer
    · rfl
  · obtain ⟨id, hid, rfl⟩ := Option.map_eq_some_iff.1 (Option.mem_toList.1 hl)
    exact hreversed id hid

theorem rejectDuplicate_stays (value : Option String) {find : String → Script (Option Customer)}
    (hfind : ∀ v, Stays own tenantId (find v) fun _ ↦ True) (message : String) :
    Stays own tenantId (rejectDuplicate value find message) fun _ ↦ True := by
  cases value with
  | none => trivial
  | some v =>
    refine (hfind v).bind fun row _ ↦ ?_
    cases row <;> trivial

theorem findCustomerByPhone_stays (except : Option Uuid) (phone : String) :
    Stays own tenantId (query (.findCustomerByPhone tenantId except phone)) fun _ ↦ True :=
  ⟨rfl, fun _ _ ↦ trivial⟩

theorem findCustomerByDni_stays (except : Option Uuid) (dni : String) :
    Stays own tenantId (query (.findCustomerByDni tenantId except dni)) fun _ ↦ True :=
  ⟨rfl, fun _ _ ↦ trivial⟩

theorem findCustomerByEmail_stays (except : Option Uuid) (email : String) :
    Stays own tenantId (query (.findCustomerByEmail tenantId except email)) fun _ ↦ True :=
  ⟨rfl, fun _ _ ↦ trivial⟩

theorem saveCustomerAlone_stays {c : Customer} (hc : OfTenant own tenantId c) :
    Stays own tenantId (saveCustomerAlone c) fun _ ↦ True :=
  (saveCustomer_stays hc).bind fun _ _ ↦ trivial

theorem saveAssignedAlone_stays {c : AssignedCustomer} (hc : OfTenant own tenantId c.loaded) :
    Stays own tenantId (saveAssignedAlone c) fun _ ↦ True := by
  refine (query_stays (.rereadCustomer c.loaded) hc.1).bind fun row _ ↦ ?_
  cases row with
  | none => trivial
  | some reread =>
    simp only
    split
    · trivial
    · exact ⟨hc, fun _ _ ↦ trivial⟩

theorem lockTenant_stays : Stays own tenantId (lockTenant tenantId) fun t ↦ t.id = tenantId := by
  refine (query_stays (.lockTenant tenantId) rfl).bind fun row hrow ↦ ?_
  cases row with
  | none => trivial
  | some tenant => exact hrow tenant rfl

theorem lockCustomers_stays (ids : List Uuid) :
    Stays own tenantId (lockCustomers tenantId ids) fun cs ↦ ∀ c ∈ cs, OfTenant own tenantId c := by
  induction ids with
  | nil => exact fun _ h ↦ (List.not_mem_nil h).elim
  | cons id ids ih =>
    refine (query_stays (.lockCustomer tenantId id) rfl).bind fun row hrow ↦ ?_
    refine ih.bind fun rows hrows c hc ↦ ?_
    rcases List.mem_append.1 hc with hc | hc
    · exact (hrow c (Option.mem_toList.1 hc)).2
    · exact hrows c hc

/-! ## The operations -/

section Fresh

variable (hfresh : ∀ n, own (env.fresh n) = some tenantId)
include hfresh

theorem owned_newTransaction {n : ℕ} {customerId userId : Uuid} {type : TransactionType} {amount : ℤ}
    {description : Option String} {key : Uuid} (hcustomer : own customerId = some tenantId) :
    (newTransaction env (env.fresh n) tenantId customerId userId type amount description
      key).Owned own :=
  ⟨hfresh n, hcustomer, fun _ h ↦ by cases h⟩

theorem registerDebt_stays (userId : Uuid) (dto : CreateTransactionDto) :
    Stays own tenantId (registerDebt env tenantId userId dto) fun _ ↦ True := by
  refine (findByIdempotencyKey_stays _).bind fun existing _ ↦ ?_
  cases existing with
  | some existing => trivial
  | none =>
    refine (lockCustomer_stays _).bind fun c hc ↦ ?_
    have hcustomer : own dto.customer_id = some tenantId := hc.1 ▸ hc.2.1
    have hinsert : Stays own tenantId (insertTransaction (debtRow env tenantId userId dto))
        fun _ ↦ True :=
      insertTransaction_stays (owned_newTransaction hfresh hcustomer) rfl fun _ h ↦ by cases h
    simp only
    split
    · trivial
    · split
      · trivial
      · refine hinsert.bind fun _ _ ↦ (saveCustomer_stays ?_).bind fun _ _ ↦ trivial
        exact hc.2

theorem registerPayment_stays (userId : Uuid) (dto : CreatePaymentDto) :
    Stays own tenantId (registerPayment env tenantId userId dto) fun _ ↦ True := by
  refine (findByIdempotencyKey_stays _).bind fun existing _ ↦ ?_
  cases existing with
  | some existing => trivial
  | none =>
    refine (lockCustomer_stays _).bind fun c hc ↦ ?_
    have hcustomer : own dto.customer_id = some tenantId := hc.1 ▸ hc.2.1
    have hinsert : ∀ amount, Stays own tenantId
        (insertTransaction (paymentRow env tenantId userId dto amount)) fun _ ↦ True := fun amount ↦
      insertTransaction_stays ⟨hfresh 0, hcustomer, fun _ h ↦ by cases h⟩ rfl fun _ h ↦ by cases h
    simp only
    split
    · trivial
    · refine (hinsert _).bind fun _ _ ↦ (saveCustomer_stays ?_).bind fun _ _ ↦ trivial
      exact hc.2

omit hfresh in
theorem replayMixedPayment_stays {existing : Transaction} (h : existing.Owned own)
    (htenant : existing.tenant_id = tenantId) :
    Stays own tenantId (replayMixedPayment existing) fun _ ↦ True := by
  unfold replayMixedPayment
  cases hgroup : existing.reference_group_id with
  | none => trivial
  | some groupId => exact ⟨htenant ▸ h.group groupId hgroup, fun _ _ ↦ trivial⟩

theorem registerMixedPayment_stays (userId : Uuid) (dto : CreateMixedPaymentDto) :
    Stays own tenantId (registerMixedPayment env tenantId userId dto) fun _ ↦ True := by
  unfold registerMixedPayment
  simp only
  split
  · trivial
  · refine (findByIdempotencyKey_stays _).bind fun existing hexisting ↦ ?_
    cases existing with
    | some existing =>
      obtain ⟨howned, htenant⟩ := hexisting existing rfl
      exact replayMixedPayment_stays howned htenant
    | none =>
      refine (lockCustomer_stays _).bind fun c hc ↦ ?_
      have hcustomer : own dto.customer_id = some tenantId := hc.1 ▸ hc.2.1
      have hgroup : ∀ g ∈ some (env.fresh 0), own g = some tenantId := by
        rintro g ⟨⟩
        exact hfresh 0
      split
      · trivial
      · have hcash : ∀ amount, Stays own tenantId
            (insertTransaction (cashRow env tenantId userId dto amount)) fun _ ↦ True := fun _ ↦
          insertTransaction_stays ⟨hfresh 1, hcustomer, hgroup⟩ rfl fun _ h ↦ by cases h
        have htransfer : ∀ amount, Stays own tenantId
            (insertTransaction (transferRow env tenantId userId dto amount)) fun _ ↦ True := fun _ ↦
          insertTransaction_stays ⟨hfresh 2, hcustomer, hgroup⟩ rfl fun _ h ↦ by cases h
        refine (hcash _).bind fun _ _ ↦ (htransfer _).bind fun _ _ ↦ ?_
        refine (saveCustomer_stays ?_).bind fun _ _ ↦ trivial
        exact hc.2

theorem reverseTransaction_stays (userId transactionId : Uuid) (dto : ReverseTransactionDto) :
    Stays own tenantId (reverseTransaction env tenantId userId transactionId dto) fun _ ↦ True := by
  refine (findByIdempotencyKey_stays _).bind fun existing _ ↦ ?_
  cases existing with
  | some existing => trivial
  | none =>
    refine (query_stays (.findTransaction tenantId transactionId) rfl).bind
      fun original horiginal ↦ ?_
    cases original with
    | none => trivial
    | some original =>
      obtain ⟨howned, htenant⟩ := horiginal original rfl
      have hinsert : Stays own tenantId
          (insertTransaction (reversalRow env tenantId userId dto original)) fun _ ↦ True := by
        refine insertTransaction_stays ⟨hfresh 0, htenant ▸ howned.customer,
          fun _ h ↦ by cases h⟩ rfl ?_
        rintro id ⟨⟩
        exact htenant ▸ howned.id
      simp only
      split
      · trivial
      · refine (lockCustomer_stays _).bind fun c hc ↦ ?_
        refine hinsert.bind fun _ _ ↦ (saveCustomer_stays ?_).bind fun _ _ ↦ ?_
        · exact hc.2
        · refine (saveTransaction_stays ?_ ?_).bind fun _ _ ↦ trivial
          · exact ⟨howned.id, howned.customer, howned.group⟩
          · exact htenant

theorem forgiveDebt_stays (userId : Uuid) (dto : ForgiveDebtDto) :
    Stays own tenantId (forgiveDebt env tenantId userId dto) fun _ ↦ True := by
  refine (findByIdempotencyKey_stays _).bind fun existing _ ↦ ?_
  cases existing with
  | some existing => trivial
  | none =>
    refine (lockCustomer_stays _).bind fun c hc ↦ ?_
    have hcustomer : own dto.customer_id = some tenantId := hc.1 ▸ hc.2.1
    have hinsert : ∀ amount, Stays own tenantId
        (insertTransaction (forgivenessRow env tenantId userId dto amount)) fun _ ↦ True := fun _ ↦
      insertTransaction_stays (owned_newTransaction hfresh hcustomer) rfl fun _ h ↦ by cases h
    simp only
    split
    · trivial
    · refine (hinsert _).bind fun _ _ ↦ (saveCustomer_stays ?_).bind fun _ _ ↦ trivial
      exact hc.2

theorem adjustDebtors_stays (userId : Uuid) (dto : InflationAdjustmentDto) {debtors : List Customer}
    (h : ∀ c ∈ debtors, OfTenant own tenantId c) (index : ℕ) (total : ℤ) :
    Stays own tenantId (adjustDebtors env tenantId userId dto index debtors total) fun _ ↦ True := by
  induction debtors generalizing index total with
  | nil => trivial
  | cons c debtors ih =>
    have htail := ih fun x hx ↦ h x (List.mem_cons_of_mem _ hx)
    have hc := h c List.mem_cons_self
    have hinsert : Stays own tenantId
        (insertTransaction (adjustmentRow env tenantId userId dto index c)) fun _ ↦ True :=
      insertTransaction_stays (owned_newTransaction hfresh hc.1) rfl fun _ h ↦ by cases h
    unfold adjustDebtors
    simp only
    split
    · exact htail _ _
    · refine hinsert.bind fun _ _ ↦ (saveCustomer_stays ?_).bind fun _ _ ↦ htail _ _
      exact hc

theorem applyInflationAdjustment_stays (userId : Uuid) (dto : InflationAdjustmentDto) :
    Stays own tenantId (applyInflationAdjustment env tenantId userId dto) fun _ ↦ True := by
  refine ⟨rfl, fun existing _ ↦ ?_⟩
  cases existing with
  | some existing => trivial
  | none =>
    refine ⟨rfl, fun ids _ ↦ ?_⟩
    refine (lockCustomers_stays _).bind fun customers hcustomers ↦ ?_
    have hdebtors : ∀ c ∈ customers.filter (fun c ↦ c.balance_cents > 0), OfTenant own tenantId c :=
      fun c hc ↦ hcustomers c (List.mem_filter.1 hc).1
    refine (adjustDebtors_stays hfresh userId dto hdebtors 0 0).bind fun total _ ↦ ?_
    exact ⟨⟨hfresh _, rfl⟩, fun _ _ ↦ trivial⟩

theorem createCustomer_stays (dto : CreateCustomerDto) :
    Stays own tenantId (createCustomer env tenantId dto) fun _ ↦ True := by
  have hcreate : Stays own tenantId (do
      rejectDuplicate (truthy dto.phone)
        (fun phone ↦ query (.findCustomerByPhone tenantId none phone))
        "Ya existe un cliente con ese teléfono en tu comercio"
      rejectDuplicate (truthy dto.dni) (fun dni ↦ query (.findCustomerByDni tenantId none dni))
        "Ya existe un cliente con ese DNI en tu comercio"
      query (.insertCustomer (newCustomer env tenantId dto))
      query (.keyShare [.tenant tenantId])
      Prog.commitTransaction
      pure (newCustomer env tenantId dto) : Script Customer) fun _ ↦ True := by
    refine (rejectDuplicate_stays _ (findCustomerByPhone_stays none) _).bind fun _ _ ↦ ?_
    refine (rejectDuplicate_stays _ (findCustomerByDni_stays none) _).bind fun _ _ ↦ ?_
    refine ⟨⟨hfresh 0, rfl⟩, fun _ _ ↦ ⟨fun l hl ↦ ?_, fun _ _ ↦ trivial⟩⟩
    obtain rfl := List.mem_singleton.1 hl
    rfl
  unfold createCustomer
  cases dto.idempotency_key with
  | none => exact hcreate
  | some key =>
    refine ⟨rfl, fun existing _ ↦ ?_⟩
    cases existing with
    | some existing => trivial
    | none => exact hcreate

theorem openTurn_stays (userId : Uuid) (dto : OpenTurnDto) :
    Stays own tenantId (openTurn env tenantId userId dto) fun _ ↦ True := by
  refine lockTenant_stays.bind fun tenant htenant ↦ ?_
  split
  · trivial
  · refine ⟨⟨hfresh 0, rfl⟩, fun _ _ ↦ ⟨fun l hl ↦ ?_, fun _ _ ↦ ?_⟩⟩
    · simp only [List.mem_cons, List.not_mem_nil, or_false] at hl
      rcases hl with rfl | rfl <;> rfl
    · refine (saveTenant_stays ?_).bind fun _ _ ↦ trivial
      exact htenant

end Fresh

theorem updateCustomer_stays (customerId : Uuid) (dto : UpdateCustomerDto) :
    Stays own tenantId (updateCustomer tenantId customerId dto) fun _ ↦ True := by
  refine (findCustomerOrFail_stays _).bind fun c hc ↦ ?_
  refine (rejectDuplicate_stays _ (findCustomerByPhone_stays _) _).bind fun _ _ ↦ ?_
  refine (rejectDuplicate_stays _ (findCustomerByDni_stays _) _).bind fun _ _ ↦ ?_
  refine (rejectDuplicate_stays _ (findCustomerByEmail_stays _) _).bind fun _ _ ↦ ?_
  split
  · trivial
  · exact saveAssignedAlone_stays hc

theorem updateCreditLimit_stays (customerId : Uuid) (dto : UpdateCreditLimitDto) :
    Stays own tenantId (updateCreditLimit tenantId customerId dto) fun _ ↦ True := by
  refine (lockCustomer_stays _).bind fun c hc ↦ ?_
  exact (saveCustomer_stays (show OfTenant own tenantId { c with
    credit_limit_cents := dto.credit_limit_cents } from hc.2)).bind fun _ _ ↦ trivial

theorem toggleBlock_stays (customerId : Uuid) :
    Stays own tenantId (toggleBlock tenantId customerId) fun _ ↦ True :=
  (findCustomerOrFail_stays _).bind fun c hc ↦ saveCustomerAlone_stays
    (show OfTenant own tenantId { c with is_active := !c.is_active } from hc)

theorem updatePromise_stays (customerId : Uuid) (dto : UpdatePromiseDto) :
    Stays own tenantId (updatePromise tenantId customerId dto) fun _ ↦ True :=
  (findCustomerOrFail_stays _).bind fun c hc ↦ saveCustomerAlone_stays
    (show OfTenant own tenantId { c with next_payment_promise := dto.next_payment_promise } from hc)

theorem moveTransactions_stays {secondaryId primaryId : Uuid} (h : own primaryId = some tenantId)
    (ids : List Uuid) :
    Stays own tenantId (moveTransactions tenantId secondaryId primaryId ids) fun _ ↦ True := by
  induction ids with
  | nil => trivial
  | cons id ids ih => exact ⟨⟨rfl, h⟩, fun _ _ ↦ ih⟩

theorem lockMerged_stays (dto : MergeCustomersDto) (id : UuidText) :
    Stays own tenantId (lockMerged tenantId dto id) (OfTenant own tenantId) := by
  refine ⟨rfl, fun row hrow ↦ ?_⟩
  cases row with
  | none => trivial
  | some c => exact (hrow c rfl).2

theorem mergeCustomers_stays (dto : MergeCustomersDto) :
    Stays own tenantId (mergeCustomers env tenantId dto) fun _ ↦ True := by
  unfold mergeCustomers
  split
  · trivial
  · refine (lockMerged_stays _ _).bind fun first hfirst ↦ ?_
    refine (lockMerged_stays _ _).bind fun second hsecond ↦ ?_
    have hpick : ∀ (p : Prop) [Decidable p] {x y : Customer}, OfTenant own tenantId x →
        OfTenant own tenantId y → OfTenant own tenantId (if p then x else y) := by
      intro p _ x y hx hy
      split
      · exact hx
      · exact hy
    refine ⟨rfl, fun rows _ ↦ ?_⟩
    refine (moveTransactions_stays (hpick _ hfirst hsecond).1 _).bind fun _ _ ↦ ?_
    refine (saveCustomer_stays ?_).bind fun _ _ ↦ ?_
    · exact hpick _ hfirst hsecond
    · refine (saveCustomer_stays ?_).bind fun _ _ ↦ trivial
      exact hpick _ hsecond hfirst

theorem freezeTransactions_stays (openedAt : Timestamp) (shiftId : Uuid) (ids : List Uuid) :
    Stays own tenantId (freezeTransactions tenantId openedAt shiftId ids) fun _ ↦ True := by
  induction ids with
  | nil => trivial
  | cons id ids ih => exact ⟨rfl, fun _ _ ↦ ih⟩

theorem closeTurn_stays (dto : CloseTurnDto) :
    Stays own tenantId (closeTurn env tenantId dto) fun _ ↦ True := by
  refine lockTenant_stays.bind fun tenant htenant ↦ ?_
  cases tenant.active_cash_shift_id with
  | none => trivial
  | some activeShiftId =>
    refine (query_stays (.findOpenShift tenantId activeShiftId) rfl).bind fun row hrow ↦ ?_
    cases row with
    | none => trivial
    | some shift =>
      obtain ⟨hid, hshift⟩ := hrow shift rfl
      refine (query_stays (.sumCash tenantId shift.opened_at) rfl).bind fun cash _ ↦ ?_
      simp only
      split
      · trivial
      · refine (saveShift_stays ?_ ?_).bind fun _ _ ↦ ?_
        · exact hid
        · exact hshift
        · refine (query_stays (.selectUnfrozen tenantId shift.opened_at) rfl).bind fun rows _ ↦ ?_
          refine (freezeTransactions_stays _ _ _).bind fun _ _ ↦ ?_
          refine (saveTenant_stays ?_).bind fun _ _ ↦ trivial
          exact htenant

theorem updateSettings_stays (dto : UpdateSettingsDto) :
    Stays own tenantId (updateSettings tenantId dto) fun _ ↦ True := by
  refine ⟨rfl, fun row hrow ↦ ?_⟩
  cases row with
  | none => trivial
  | some tenant =>
    refine (saveTenant_stays ?_).bind fun _ _ ↦ trivial
    exact hrow tenant rfl

theorem processAutoBlocks_stays (cutoffDate : Date) :
    Stays own tenantId (processAutoBlocks env tenantId cutoffDate) fun _ ↦ True := by
  have heach : ∀ ids, Stays own tenantId (blockEach (.overdue tenantId cutoffDate) ids)
      fun _ ↦ True := by
    intro ids
    induction ids with
    | nil => trivial
    | cons id ids ih => exact ⟨⟨cutoffDate, rfl⟩, fun _ _ ↦ ih⟩
  refine ⟨⟨cutoffDate, rfl⟩, fun ids _ ↦ ?_⟩
  exact (heach _).bind fun _ _ ↦ trivial

theorem script_stays {req : Request} (htenant : tenantOf req = some tenantId)
    (hfresh : ∀ n, own (env.fresh n) = some tenantId) :
    Stays own tenantId (req.script env) fun _ ↦ True := by
  cases req with
  | registerDebt =>
    obtain rfl := Option.some.inj htenant
    exact (registerDebt_stays hfresh _ _).bind fun _ _ ↦ trivial
  | registerPayment =>
    obtain rfl := Option.some.inj htenant
    exact (registerPayment_stays hfresh _ _).bind fun _ _ ↦ trivial
  | registerMixedPayment =>
    obtain rfl := Option.some.inj htenant
    exact (registerMixedPayment_stays hfresh _ _).bind fun _ _ ↦ trivial
  | reverseTransaction =>
    obtain rfl := Option.some.inj htenant
    exact (reverseTransaction_stays hfresh _ _ _).bind fun _ _ ↦ trivial
  | forgiveDebt =>
    obtain rfl := Option.some.inj htenant
    exact (forgiveDebt_stays hfresh _ _).bind fun _ _ ↦ trivial
  | applyInflationAdjustment =>
    obtain rfl := Option.some.inj htenant
    exact (applyInflationAdjustment_stays hfresh _ _).bind fun _ _ ↦ trivial
  | createCustomer =>
    obtain rfl := Option.some.inj htenant
    exact (createCustomer_stays hfresh _).bind fun _ _ ↦ trivial
  | updateCustomer =>
    obtain rfl := Option.some.inj htenant
    exact (updateCustomer_stays _ _).bind fun _ _ ↦ trivial
  | updateCreditLimit =>
    obtain rfl := Option.some.inj htenant
    exact (updateCreditLimit_stays _ _).bind fun _ _ ↦ trivial
  | toggleBlock =>
    obtain rfl := Option.some.inj htenant
    exact (toggleBlock_stays _).bind fun _ _ ↦ trivial
  | updatePromise =>
    obtain rfl := Option.some.inj htenant
    exact (updatePromise_stays _ _).bind fun _ _ ↦ trivial
  | mergeCustomers =>
    obtain rfl := Option.some.inj htenant
    exact (mergeCustomers_stays _).bind fun _ _ ↦ trivial
  | openTurn =>
    obtain rfl := Option.some.inj htenant
    exact (openTurn_stays hfresh _ _).bind fun _ _ ↦ trivial
  | closeTurn =>
    obtain rfl := Option.some.inj htenant
    exact (closeTurn_stays _).bind fun _ _ ↦ trivial
  | updateSettings =>
    obtain rfl := Option.some.inj htenant
    exact (updateSettings_stays _).bind fun _ _ ↦ trivial
  | processAutoBlocks =>
    obtain rfl := Option.some.inj htenant
    exact (processAutoBlocks_stays _).bind fun _ _ ↦ trivial
  | processPayment | processSaaSExpirations | processOverdueCustomers | processAutoBlockOnLimit =>
    cases htenant

end MicroErp.Commits
