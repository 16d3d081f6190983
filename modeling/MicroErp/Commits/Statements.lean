import MicroErp.Concurrency.Dataflow
import MicroErp.Services.Requests

/-!
# What the programs ask of the database

No request saves a negative balance, and only a few of them write the rows of tenants and shifts.
Both are facts about single statements, whatever the database answers.
-/

namespace MicroErp.Commits

open MicroErp.Concurrency MicroErp.Database MicroErp.Services

/-- The statement saves no negative balance if `solvent`, writes tenants, shifts and billing events
only if `desk`, and sums the cash of a shift only if `closing`. -/
def Proper (solvent desk closing : Prop) : Sql → Prop
  | .insertCustomer row => solvent → 0 ≤ row.balance_cents
  | .updateCustomer mem _ => solvent → 0 ≤ mem.balance_cents
  | .insertShift _ => desk
  | .updateShift _ _ => desk
  | .updateTenant _ _ => desk
  | .freezeTransaction _ _ _ _ => desk
  | .insertBillingEvent _ => desk
  | .sumCash _ _ => closing
  | _ => True

/-- The balances of the customers that a statement answers are not negative if `solvent`. -/
def AnswersNonneg (solvent : Prop) : (o : Sql) → o.Ans → Prop
  | .lockCustomer _ _, r => ∀ c ∈ r, solvent → 0 ≤ c.balance_cents
  | .findCustomer _ _, r => ∀ c ∈ r, solvent → 0 ≤ c.balance_cents
  | .findCustomerByKey _ _, r => ∀ c ∈ r, solvent → 0 ≤ c.balance_cents
  | _, _ => True

/-- The program asks for nothing but proper statements. -/
abbrev Asks (solvent desk closing : Prop) {α : Type} (p : Script α) (Q : α → Prop) : Prop :=
  p.Safe (Proper solvent desk closing) (AnswersNonneg solvent) Q

variable {solvent desk closing : Prop} {tenantId : Uuid}

theorem saveEntity_safe {E : Type} [DecidableEq E] {entity : E} {find : Script (Option E)}
    {update : E → Script Unit} (hfind : Asks solvent desk closing find fun _ ↦ True)
    (hupdate : ∀ reread, Asks solvent desk closing (update reread) fun _ ↦ True) :
    Asks solvent desk closing (saveEntity entity find update) fun _ ↦ True := by
  refine hfind.bind fun row _ ↦ ?_
  cases row with
  | none => trivial
  | some reread =>
    simp only
    split
    · trivial
    · exact hupdate reread

theorem saveCustomer_safe {c : Customer} (hc : solvent → 0 ≤ c.balance_cents) :
    Asks solvent desk closing (saveCustomer c) fun _ ↦ True :=
  saveEntity_safe ⟨trivial, fun _ _ ↦ trivial⟩ fun reread ↦
    ⟨show Proper solvent desk closing (.updateCustomer c reread) from hc, fun _ _ ↦ trivial⟩

theorem lockCustomer_safe (customerId : Uuid) :
    Asks solvent desk closing (lockCustomer tenantId customerId) fun c ↦ solvent → 0 ≤ c.balance_cents := by
  refine (Prog.safe_issue trivial).bind fun row hrow ↦ ?_
  cases row with
  | none => trivial
  | some c => exact hrow c rfl

theorem findCustomerOrFail_safe (customerId : Uuid) :
    Asks solvent desk closing (findCustomerOrFail tenantId customerId) fun c ↦
      solvent → 0 ≤ c.balance_cents := by
  refine (Prog.safe_issue trivial).bind fun row hrow ↦ ?_
  cases row with
  | none => trivial
  | some c => exact hrow c rfl

theorem insertTransaction_safe (row : Transaction) :
    Asks solvent desk closing (insertTransaction row) fun _ ↦ True :=
  Prog.safe_of_body ⟨trivial, fun _ ↦ ⟨trivial, fun _ ↦ trivial⟩⟩

theorem rejectDuplicate_safe (value : Option String) {find : String → Script (Option Customer)}
    (hfind : ∀ v, Asks solvent desk closing (find v) fun _ ↦ True) (message : String) :
    Asks solvent desk closing (rejectDuplicate value find message) fun _ ↦ True := by
  cases value with
  | none => trivial
  | some v =>
    refine (hfind v).bind fun row _ ↦ ?_
    cases row <;> trivial

theorem findCustomerByPhone_safe (except : Option Uuid) (phone : String) :
    Asks solvent desk closing (query (.findCustomerByPhone tenantId except phone)) fun _ ↦ True :=
  Prog.safe_of_body ⟨trivial, fun _ ↦ trivial⟩

theorem findCustomerByDni_safe (except : Option Uuid) (dni : String) :
    Asks solvent desk closing (query (.findCustomerByDni tenantId except dni)) fun _ ↦ True :=
  Prog.safe_of_body ⟨trivial, fun _ ↦ trivial⟩

theorem findCustomerByEmail_safe (except : Option Uuid) (email : String) :
    Asks solvent desk closing (query (.findCustomerByEmail tenantId except email)) fun _ ↦ True :=
  Prog.safe_of_body ⟨trivial, fun _ ↦ trivial⟩

theorem saveCustomerAlone_safe {c : Customer} (hc : solvent → 0 ≤ c.balance_cents) :
    Asks solvent desk closing (saveCustomerAlone c) fun _ ↦ True :=
  (saveCustomer_safe hc).bind fun _ _ ↦ trivial

theorem saveAssignedAlone_safe {c : AssignedCustomer} (hc : solvent → 0 ≤ c.loaded.balance_cents) :
    Asks solvent desk closing (saveAssignedAlone c) fun _ ↦ True := by
  refine (Prog.safe_issue trivial).bind fun row _ ↦ ?_
  cases row with
  | none => trivial
  | some reread =>
    simp only
    split
    · trivial
    · exact ⟨hc, fun _ _ ↦ trivial⟩

theorem lockCustomers_safe (ids : List Uuid) :
    Asks solvent desk closing (lockCustomers tenantId ids) fun cs ↦
      ∀ c ∈ cs, solvent → 0 ≤ c.balance_cents := by
  induction ids with
  | nil => exact fun _ h ↦ (List.not_mem_nil h).elim
  | cons id ids ih =>
    refine (Prog.safe_issue trivial).bind fun row hrow ↦ ih.bind fun rows hrows c hc ↦ ?_
    rcases List.mem_append.1 hc with hc | hc
    · exact hrow c (Option.mem_toList.1 hc)
    · exact hrows c hc

theorem adjustDebtors_safe (env : Env) (userId : Uuid) (dto : InflationAdjustmentDto)
    {debtors : List Customer} (h : ∀ c ∈ debtors, solvent → 0 ≤ c.balance_cents) (index : ℕ)
    (total : ℤ) :
    Asks solvent desk closing (adjustDebtors env tenantId userId dto index debtors total) fun _ ↦ True := by
  induction debtors generalizing index total with
  | nil => trivial
  | cons c debtors ih =>
    have htail := ih fun x hx ↦ h x (List.mem_cons_of_mem _ hx)
    have hc := h c List.mem_cons_self
    unfold adjustDebtors
    simp only
    split
    · exact htail _ _
    · rename_i hadjustment
      refine (insertTransaction_safe _).bind fun _ _ ↦ ?_
      refine (saveCustomer_safe fun hsolvent ↦ ?_).bind fun _ _ ↦ htail _ _
      have hbalance := hc hsolvent
      simp only
      omega

theorem lockMerged_safe (dto : MergeCustomersDto) (id : UuidText) :
    Asks solvent desk closing (lockMerged tenantId dto id) fun c ↦ solvent → 0 ≤ c.balance_cents := by
  refine (Prog.safe_issue trivial).bind fun row hrow ↦ ?_
  cases row with
  | none => trivial
  | some c => exact hrow c rfl

theorem moveTransactions_safe (secondaryId primaryId : Uuid) (ids : List Uuid) :
    Asks solvent desk closing (moveTransactions tenantId secondaryId primaryId ids) fun _ ↦ True := by
  induction ids with
  | nil => trivial
  | cons id ids ih => exact ⟨trivial, fun _ _ ↦ ih⟩

theorem registerDebt_safe (env : Env) (userId : Uuid) (dto : CreateTransactionDto) :
    Asks solvent desk closing (registerDebt env tenantId userId dto) fun _ ↦ True := by
  refine (Prog.safe_issue trivial).bind fun existing _ ↦ ?_
  cases existing with
  | some existing => trivial
  | none =>
    refine (lockCustomer_safe _).bind fun c hc ↦ ?_
    have hamount := dto.amount_valid.1
    simp only
    split
    · trivial
    · split
      · trivial
      · refine (insertTransaction_safe _).bind fun _ _ ↦ ?_
        refine (saveCustomer_safe fun hsolvent ↦ ?_).bind fun _ _ ↦ trivial
        have hbalance := hc hsolvent
        simp only
        omega

theorem registerPayment_safe (env : Env) (userId : Uuid) (dto : CreatePaymentDto) :
    Asks solvent desk closing (registerPayment env tenantId userId dto) fun _ ↦ True := by
  refine (Prog.safe_issue trivial).bind fun existing _ ↦ ?_
  cases existing with
  | some existing => trivial
  | none =>
    refine (lockCustomer_safe _).bind fun c _ ↦ ?_
    simp only
    split
    · trivial
    · refine (insertTransaction_safe _).bind fun _ _ ↦ ?_
      exact (saveCustomer_safe fun _ ↦ sub_nonneg.2 (min_le_right _ _)).bind fun _ _ ↦ trivial

theorem replayMixedPayment_safe (existing : Transaction) :
    Asks solvent desk closing (replayMixedPayment existing) fun _ ↦ True := by
  unfold replayMixedPayment
  cases existing.reference_group_id with
  | none => trivial
  | some groupId => exact ⟨trivial, fun _ _ ↦ trivial⟩

theorem registerMixedPayment_safe (env : Env) (userId : Uuid) (dto : CreateMixedPaymentDto) :
    Asks solvent desk closing (registerMixedPayment env tenantId userId dto) fun _ ↦ True := by
  unfold registerMixedPayment
  simp only
  split
  · trivial
  · refine (Prog.safe_issue trivial).bind fun existing _ ↦ ?_
    cases existing with
    | some existing => exact replayMixedPayment_safe existing
    | none =>
      refine (lockCustomer_safe _).bind fun c _ ↦ ?_
      split
      · trivial
      · refine (insertTransaction_safe _).bind fun _ _ ↦ ?_
        refine (insertTransaction_safe _).bind fun _ _ ↦ ?_
        exact (saveCustomer_safe fun _ ↦ le_max_left _ _).bind fun _ _ ↦ trivial

theorem balanceAfterReversal_nonneg (type : TransactionType) (amountCents balanceCents : ℤ) :
    0 ≤ balanceAfterReversal type amountCents balanceCents := by
  unfold balanceAfterReversal
  split <;> exact le_max_left _ _

theorem saveTransaction_safe (t : Transaction) :
    Asks solvent desk closing (saveTransaction t) fun _ ↦ True :=
  saveEntity_safe ⟨trivial, fun _ _ ↦ trivial⟩ fun _ ↦ ⟨trivial, fun _ _ ↦ trivial⟩

theorem reverseTransaction_safe (env : Env) (userId transactionId : Uuid)
    (dto : ReverseTransactionDto) :
    Asks solvent desk closing (reverseTransaction env tenantId userId transactionId dto) fun _ ↦ True := by
  refine (Prog.safe_issue trivial).bind fun existing _ ↦ ?_
  cases existing with
  | some existing => trivial
  | none =>
    refine (Prog.safe_issue trivial).bind fun original _ ↦ ?_
    cases original with
    | none => trivial
    | some original =>
      simp only
      split
      · trivial
      · refine (lockCustomer_safe _).bind fun c _ ↦ ?_
        refine (insertTransaction_safe _).bind fun _ _ ↦ ?_
        refine (saveCustomer_safe fun _ ↦ balanceAfterReversal_nonneg _ _ _).bind fun _ _ ↦ ?_
        exact (saveTransaction_safe _).bind fun _ _ ↦ trivial

theorem forgiveDebt_safe (env : Env) (userId : Uuid) (dto : ForgiveDebtDto) :
    Asks solvent desk closing (forgiveDebt env tenantId userId dto) fun _ ↦ True := by
  refine (Prog.safe_issue trivial).bind fun existing _ ↦ ?_
  cases existing with
  | some existing => trivial
  | none =>
    refine (lockCustomer_safe _).bind fun c _ ↦ ?_
    simp only
    split
    · trivial
    · refine (insertTransaction_safe _).bind fun _ _ ↦ ?_
      exact (saveCustomer_safe fun _ ↦ le_rfl).bind fun _ _ ↦ trivial

theorem applyInflationAdjustment_safe (env : Env) (userId : Uuid)
    (dto : InflationAdjustmentDto) :
    Asks solvent desk closing (applyInflationAdjustment env tenantId userId dto) fun _ ↦ True := by
  refine (Prog.safe_issue trivial).bind fun existing _ ↦ ?_
  cases existing with
  | some existing => trivial
  | none =>
    refine (Prog.safe_issue trivial).bind fun ids _ ↦ ?_
    refine (lockCustomers_safe _).bind fun customers hcustomers ↦ ?_
    have hdebtors : ∀ c ∈ customers.filter (fun c ↦ c.balance_cents > 0),
        solvent → 0 ≤ c.balance_cents :=
      fun c hc ↦ hcustomers c (List.mem_filter.1 hc).1
    refine (adjustDebtors_safe env userId dto hdebtors 0 0).bind fun total _ ↦ ?_
    exact ⟨trivial, fun _ _ ↦ trivial⟩

theorem createCustomer_safe (env : Env) (dto : CreateCustomerDto) :
    Asks solvent desk closing (createCustomer env tenantId dto) fun _ ↦ True := by
  have hcreate : Asks solvent desk closing (do
      rejectDuplicate (truthy dto.phone)
        (fun phone ↦ query (.findCustomerByPhone tenantId none phone))
        "Ya existe un cliente con ese teléfono en tu comercio"
      rejectDuplicate (truthy dto.dni) (fun dni ↦ query (.findCustomerByDni tenantId none dni))
        "Ya existe un cliente con ese DNI en tu comercio"
      query (.insertCustomer (newCustomer env tenantId dto))
      query (.keyShare [.tenant tenantId])
      Prog.commitTransaction
      pure (newCustomer env tenantId dto) : Script Customer) fun _ ↦ True := by
    refine (rejectDuplicate_safe _ (findCustomerByPhone_safe none) _).bind fun _ _ ↦ ?_
    refine (rejectDuplicate_safe _ (findCustomerByDni_safe none) _).bind fun _ _ ↦ ?_
    exact ⟨fun _ ↦ le_rfl, fun _ _ ↦ ⟨trivial, fun _ _ ↦ trivial⟩⟩
  unfold createCustomer
  cases dto.idempotency_key with
  | none => exact hcreate
  | some key =>
    refine ⟨trivial, fun existing _ ↦ ?_⟩
    cases existing with
    | some existing => trivial
    | none => exact hcreate

theorem updateCustomer_safe (customerId : Uuid) (dto : UpdateCustomerDto) :
    Asks solvent desk closing (updateCustomer tenantId customerId dto) fun _ ↦ True := by
  refine (findCustomerOrFail_safe _).bind fun c hc ↦ ?_
  refine (rejectDuplicate_safe _ (findCustomerByPhone_safe _) _).bind fun _ _ ↦ ?_
  refine (rejectDuplicate_safe _ (findCustomerByDni_safe _) _).bind fun _ _ ↦ ?_
  refine (rejectDuplicate_safe _ (findCustomerByEmail_safe _) _).bind fun _ _ ↦ ?_
  split
  · trivial
  · exact saveAssignedAlone_safe hc

theorem updateCreditLimit_safe (customerId : Uuid) (dto : UpdateCreditLimitDto) :
    Asks solvent desk closing (updateCreditLimit tenantId customerId dto) fun _ ↦ True := by
  refine (lockCustomer_safe _).bind fun c hc ↦ ?_
  refine (saveCustomer_safe ?_).bind fun _ _ ↦ trivial
  exact hc

theorem toggleBlock_safe (customerId : Uuid) :
    Asks solvent desk closing (toggleBlock tenantId customerId) fun _ ↦ True :=
  (findCustomerOrFail_safe _).bind fun _ hc ↦ saveCustomerAlone_safe hc

theorem updatePromise_safe (customerId : Uuid) (dto : UpdatePromiseDto) :
    Asks solvent desk closing (updatePromise tenantId customerId dto) fun _ ↦ True :=
  (findCustomerOrFail_safe _).bind fun _ hc ↦ saveCustomerAlone_safe hc

theorem mergeCustomers_safe (env : Env) (dto : MergeCustomersDto) :
    Asks solvent desk closing (mergeCustomers env tenantId dto) fun _ ↦ True := by
  unfold mergeCustomers
  split
  · trivial
  · refine (lockMerged_safe _ _).bind fun first hfirst ↦ ?_
    refine (lockMerged_safe _ _).bind fun second hsecond ↦ ?_
    refine (Prog.safe_issue trivial).bind fun rows _ ↦ ?_
    refine (moveTransactions_safe _ _ _).bind fun _ _ ↦ ?_
    refine (saveCustomer_safe fun hsolvent ↦ ?_).bind fun _ _ ↦ ?_
    · have hpick : ∀ (p : Prop) [Decidable p] {x y : Customer}, 0 ≤ x.balance_cents →
          0 ≤ y.balance_cents → 0 ≤ (if p then x else y).balance_cents := by
        intro p _ x y hx hy
        split
        · exact hx
        · exact hy
      exact add_nonneg (hpick _ (hfirst hsolvent) (hsecond hsolvent))
        (hpick _ (hsecond hsolvent) (hfirst hsolvent))
    · exact (saveCustomer_safe fun _ ↦ le_rfl).bind fun _ _ ↦ trivial

theorem saveTenant_safe (hdesk : desk) (t : Tenant) :
    Asks solvent desk closing (saveTenant t) fun _ ↦ True :=
  saveEntity_safe ⟨trivial, fun _ _ ↦ trivial⟩ fun _ ↦ ⟨hdesk, fun _ _ ↦ trivial⟩

theorem saveShift_safe (hdesk : desk) (shift : CashRegisterLog) :
    Asks solvent desk closing (saveShift shift) fun _ ↦ True :=
  saveEntity_safe ⟨trivial, fun _ _ ↦ trivial⟩ fun _ ↦ ⟨hdesk, fun _ _ ↦ trivial⟩

theorem lockTenant_safe : Asks solvent desk closing (lockTenant tenantId) fun _ ↦ True := by
  refine (Prog.safe_issue trivial).bind fun row _ ↦ ?_
  cases row <;> trivial

theorem openTurn_safe (hdesk : desk) (env : Env) (userId : Uuid) (dto : OpenTurnDto) :
    Asks solvent desk closing (openTurn env tenantId userId dto) fun _ ↦ True := by
  refine lockTenant_safe.bind fun tenant _ ↦ ?_
  split
  · trivial
  · refine ⟨hdesk, fun _ _ ↦ ⟨trivial, fun _ _ ↦ ?_⟩⟩
    exact (saveTenant_safe hdesk _).bind fun _ _ ↦ trivial

theorem freezeTransactions_safe (hdesk : desk) (openedAt : Timestamp) (shiftId : Uuid)
    (ids : List Uuid) :
    Asks solvent desk closing (freezeTransactions tenantId openedAt shiftId ids) fun _ ↦ True := by
  induction ids with
  | nil => trivial
  | cons id ids ih => exact ⟨hdesk, fun _ _ ↦ ih⟩

theorem closeTurn_safe (hdesk : desk) (hclosing : closing) (env : Env) (dto : CloseTurnDto) :
    Asks solvent desk closing (closeTurn env tenantId dto) fun _ ↦ True := by
  refine lockTenant_safe.bind fun tenant _ ↦ ?_
  cases tenant.active_cash_shift_id with
  | none => trivial
  | some activeShiftId =>
    refine (Prog.safe_issue trivial).bind fun row _ ↦ ?_
    cases row with
    | none => trivial
    | some shift =>
      refine (Prog.safe_issue hclosing).bind fun cash _ ↦ ?_
      simp only
      split
      · trivial
      · refine (saveShift_safe hdesk _).bind fun _ _ ↦ ?_
        refine (Prog.safe_issue trivial).bind fun rows _ ↦ ?_
        refine (freezeTransactions_safe hdesk _ _ _).bind fun _ _ ↦ ?_
        exact (saveTenant_safe hdesk _).bind fun _ _ ↦ trivial

theorem updateSettings_safe (hdesk : desk) (dto : UpdateSettingsDto) :
    Asks solvent desk closing (updateSettings tenantId dto) fun _ ↦ True := by
  refine (Prog.safe_issue trivial).bind fun row _ ↦ ?_
  cases row with
  | none => trivial
  | some tenant => exact (saveTenant_safe hdesk _).bind fun _ _ ↦ trivial

theorem processPayment_safe (hdesk : desk) (env : Env) (externalPaymentId : String)
    (subscriptionId : Option String) (rawPayload : JsonValue) :
    Asks solvent desk closing (processPayment env externalPaymentId subscriptionId rawPayload)
      fun _ ↦ True := by
  refine (Prog.safe_issue trivial).bind fun event _ ↦ ?_
  cases event with
  | some event => trivial
  | none =>
    refine (Prog.safe_issue trivial).bind fun row _ ↦ ?_
    cases row with
    | none => trivial
    | some tenant =>
      refine ⟨hdesk, fun _ _ ↦ ⟨trivial, fun _ _ ↦ ?_⟩⟩
      exact (saveTenant_safe hdesk _).bind fun _ _ ↦ trivial

theorem suspendTenants_safe (hdesk : desk) (tenants : List Tenant) :
    Asks solvent desk closing (suspendTenants tenants) fun _ ↦ True := by
  induction tenants with
  | nil => trivial
  | cons tenant tenants ih => exact (saveTenant_safe hdesk _).bind fun _ _ ↦ ih

theorem processSaaSExpirations_safe (hdesk : desk) (env : Env) :
    Asks solvent desk closing (processSaaSExpirations env) fun _ ↦ True := by
  refine (Prog.safe_issue trivial).bind fun expired _ ↦ ?_
  split
  · trivial
  · exact (suspendTenants_safe hdesk _).bind fun _ _ ↦ trivial

theorem markCustomers_safe (ids : List Uuid) :
    Asks solvent desk closing (markCustomers ids) fun _ ↦ True := by
  induction ids with
  | nil => trivial
  | cons id ids ih => exact ⟨trivial, fun _ _ ↦ ih⟩

theorem blockEach_safe (rule : BlockRule) (ids : List Uuid) :
    Asks solvent desk closing (blockEach rule ids) fun _ ↦ True := by
  induction ids with
  | nil => trivial
  | cons id ids ih => exact ⟨trivial, fun _ _ ↦ ih⟩

theorem processOverdueCustomers_safe (env : Env) (today : Date) :
    Asks solvent desk closing (processOverdueCustomers env today) fun _ ↦ True := by
  refine (Prog.safe_issue trivial).bind fun ids _ ↦ ?_
  split
  · trivial
  · exact (markCustomers_safe _).bind fun _ _ ↦ trivial

theorem blockCustomers_safe (env : Env) (rule : BlockRule) :
    Asks solvent desk closing (blockCustomers env rule) fun _ ↦ True := by
  refine (Prog.safe_issue trivial).bind fun ids _ ↦ ?_
  exact (blockEach_safe _ _).bind fun _ _ ↦ trivial

/-- The requests that write the rows of tenants and shifts. -/
def AtDesk : Request → Prop
  | .openTurn _ _ _ => True
  | .closeTurn _ _ => True
  | .updateSettings _ _ => True
  | .processPayment _ _ _ => True
  | .processSaaSExpirations => True
  | _ => False

theorem script_safe (env : Env) (req : Request) (hdesk : AtDesk req → desk)
    (hclosing : ∀ tenantId dto, req = .closeTurn tenantId dto → closing) :
    Asks solvent desk closing (req.script env) fun _ ↦ True := by
  cases req with
  | registerDebt => exact (registerDebt_safe env _ _).bind fun _ _ ↦ trivial
  | registerPayment => exact (registerPayment_safe env _ _).bind fun _ _ ↦ trivial
  | registerMixedPayment => exact (registerMixedPayment_safe env _ _).bind fun _ _ ↦ trivial
  | reverseTransaction => exact (reverseTransaction_safe env _ _ _).bind fun _ _ ↦ trivial
  | forgiveDebt => exact (forgiveDebt_safe env _ _).bind fun _ _ ↦ trivial
  | applyInflationAdjustment =>
    exact (applyInflationAdjustment_safe env _ _).bind fun _ _ ↦ trivial
  | createCustomer => exact (createCustomer_safe env _).bind fun _ _ ↦ trivial
  | updateCustomer => exact (updateCustomer_safe _ _).bind fun _ _ ↦ trivial
  | updateCreditLimit => exact (updateCreditLimit_safe _ _).bind fun _ _ ↦ trivial
  | toggleBlock => exact (toggleBlock_safe _).bind fun _ _ ↦ trivial
  | updatePromise => exact (updatePromise_safe _ _).bind fun _ _ ↦ trivial
  | mergeCustomers => exact (mergeCustomers_safe env _).bind fun _ _ ↦ trivial
  | openTurn => exact (openTurn_safe (hdesk trivial) env _ _).bind fun _ _ ↦ trivial
  | closeTurn =>
    exact (closeTurn_safe (hdesk trivial) (hclosing _ _ rfl) env _).bind fun _ _ ↦ trivial
  | updateSettings => exact (updateSettings_safe (hdesk trivial) _).bind fun _ _ ↦ trivial
  | processPayment => exact (processPayment_safe (hdesk trivial) env _ _ _).bind fun _ _ ↦ trivial
  | processSaaSExpirations =>
    exact (processSaaSExpirations_safe (hdesk trivial) env).bind fun _ _ ↦ trivial
  | processOverdueCustomers =>
    exact (processOverdueCustomers_safe env _).bind fun _ _ ↦ trivial
  | processAutoBlocks => exact (blockCustomers_safe env _).bind fun _ _ ↦ trivial
  | processAutoBlockOnLimit => exact (blockCustomers_safe env _).bind fun _ _ ↦ trivial

end MicroErp.Commits
