import MicroErp.Commits.Runs
import MicroErp.Services.Histories

/-!
# Histories read page by page

The rows of one operation share the start of its database transaction, by which the histories are
ordered.  The query that picks the rows of a page orders them by their identifiers, so the pages are
the history although each is read by queries of its own.
-/

namespace MicroErp.Guarantees

open MicroErp.Commits MicroErp.Concurrency MicroErp.Database MicroErp.Services MicroErp.Storage

/-- The shifts of a tenant. -/
def shiftsOf (tenantId : Uuid) (d : Db) : List CashRegisterLog :=
  d.shifts.rows.filter fun s ↦ s.tenant_id = tenantId

/-- The offset of a page. -/
def pageAt (limit k : ℕ) (h : 1 ≤ limit ∧ limit ≤ 100) : PaginationQueryDto where
  limit := limit
  offset := k * limit
  limit_valid := h

section Pages

variable {α : Type} {key : α → Timestamp} {find : ℕ → PagedFind key} {rows : List α} {limit : ℕ}

/-- The pages that are read are those that were picked. -/
theorem perm_read (find : ℕ → PagedFind key) (rows : List α) (limit n : ℕ) :
    ((List.range n).flatMap fun k ↦ (find k).page limit (k * limit) rows).Perm
      (OrderByDesc.pages (fun k ↦ (find k).pick) limit rows n) :=
  List.Perm.flatMap_left _ fun k _ ↦ (find k).perm_page limit (k * limit) rows

/-- Rows of a table, picked in the order of their primary keys. -/
theorem perm_finds [Keyed α Uuid] (h : ∀ k, (find k).EndsInPrimaryKey) {table : Table α}
    (hrows : rows.Sublist table.rows) (hlimit : 0 < limit) :
    ((List.range (pageCount rows.length limit)).flatMap fun k ↦
      (find k).page limit (k * limit) rows).Perm rows :=
  (perm_read find rows limit _).trans (OrderByDesc.perm_pages h (fun _ hr _ hr' hid ↦
    List.inj_on_of_nodup_map table.nodup (hrows.subset hr) (hrows.subset hr') hid) hlimit)

end Pages

variable {limit : ℕ}

/-- Where the order ends in the primary key, the pages of each history from the first one up to
`total` hold every row of the history once. -/
theorem histories_paged (d : Db) (tenantId customerId : Uuid) (h : 1 ≤ limit ∧ limit ≤ 100)
    {transactions : ℕ → TransactionFind} (htransactions : ∀ k, (transactions k).EndsInPrimaryKey)
    {shifts : ℕ → ShiftFind} (hshifts : ∀ k, (shifts k).EndsInPrimaryKey) :
    let history k := findByCustomer (transactions k) tenantId customerId (pageAt limit k h) d
    let closings k := getHistory (shifts k) tenantId (k + 1) limit d
    ((List.range (pageCount (history 0).total limit)).flatMap fun k ↦ (history k).data).Perm
        (d.transactionsOf tenantId customerId) ∧
      ((List.range (pageCount (closings 0).total limit)).flatMap fun k ↦ (closings k).data).Perm
        (shiftsOf tenantId d) := by
  refine ⟨perm_finds htransactions List.filter_sublist h.1, ?_⟩
  simp only [getHistory, Nat.add_sub_cancel]
  exact perm_finds hshifts List.filter_sublist h.1

/-! ## A payment of two rows -/

theorem fifty_valid : ValidAmount 50 := by decide

theorem twenty_valid : ValidAmount 20 := by decide

theorem thirty_valid : ValidAmount 30 := by decide

def twoLegs : CreateMixedPaymentDto :=
  { customer_id := 100, total_amount_cents := 50, cash_amount_cents := 20,
    transfer_amount_cents := 30, description := none, idempotency_key := 8,
    total_valid := fifty_valid, cash_valid := twenty_valid, transfer_valid := thirty_valid,
    description_valid := (debtOf100 100 7).description_valid }

/-- A customer, its debt, and a payment partly in cash. -/
def settlingInPart : Fin 3 → Request
  | 0 => .createCustomer 1 ana
  | 1 => .registerDebt 1 2 (debtOf100 100 7)
  | 2 => .registerMixedPayment 1 2 twoLegs

def settledInPart : Db :=
  (postgres.run (serve settlingInPart (fun i ↦ sampleEnv i) (Db.opened sampleTenants))
    (inTurn [(0, 10), (1, 12), (2, 15)])).db

/-- Each page has one row, and two rows have one moment. -/
theorem histories_paged_singly :
    let history k := findByCustomer (PagedFind.byPrimaryKey _) 1 100 (pageAt 1 k (by decide))
      settledInPart
    let closings k := getHistory (PagedFind.byPrimaryKey _) 1 (k + 1) 1 settledInPart
    ((List.range (pageCount (history 0).total 1)).flatMap fun k ↦ (history k).data).Perm
        (settledInPart.transactionsOf 1 100) ∧
      ((List.range (pageCount (closings 0).total 1)).flatMap fun k ↦ (closings k).data).Perm
        (shiftsOf 1 settledInPart) :=
  histories_paged settledInPart 1 100 (by decide)
    (fun _ ↦ PagedFind.endsInPrimaryKey_byPrimaryKey _)
    fun _ ↦ PagedFind.endsInPrimaryKey_byPrimaryKey _

end MicroErp.Guarantees
