import MicroErp.Commits.Runs

/-!
# Committed rows are write-once

A commit may mark a row as reversed, close its shift and, if it merges customers, move it.  The
`save` of a reversal also writes back the customer and the shift it loaded; it does no harm as long
as it reads again what it loaded.
-/

namespace MicroErp.Guarantees

open MicroErp.Commits MicroErp.Concurrency MicroErp.Database MicroErp.Services MicroErp.Storage

/-- The request merges customer `id` into another one. -/
def Absorbs (id : Uuid) : Request → Prop
  | .mergeCustomers _ dto => dto.secondary_id.value = id
  | _ => False

/-- What a commit of the request may do to a committed row `t`. -/
structure Keeps (req : Request) (t t' : Transaction) : Prop where
  core : t'.toCore = t.toCore
  is_reversed : t.is_reversed = true → t'.is_reversed = true
  cash_register_log_id : t.cash_register_log_id.isSome →
    t'.cash_register_log_id = t.cash_register_log_id
  customer_id : t'.customer_id = t.customer_id ∨ Absorbs t.customer_id req

/-- The event leaves the database as it is, or a session commits and keeps every row. -/
def WriteOnce {ι : Type} (req : ι → Request) (d d' : Db) (e : Event ι) : Prop :=
  d' = d ∨ ∃ i, e = .step i ∧ ∀ t ∈ d.transactions.rows, ∃ t' ∈ d'.transactions.rows,
    Keeps (req i) t t'

/-- The `save` of a reversal reads again the customer and the shift that it loaded. -/
def SavesFresh : Sql → Db → Bool
  | .rereadTransaction mem, v => ∀ t ∈ v.transactions.find mem.id,
      t.customer_id = mem.customer_id ∧ t.cash_register_log_id = mem.cash_register_log_id
  | _, _ => true

theorem keeps_tweak {S : Setting} {req : Request} {env : Env} {lk : List (LockName × LockMode)}
    {d : Db} {e : Effect} (h : Changes S env lk d req e) (hS : S.savesFresh) {t : Transaction}
    (ht : t ∈ d.transactions.rows) : Keeps req t (e.tweak t) := by
  refine ⟨h.toCore_tweak t, h.is_reversed_tweak, fun hshift ↦ ?_, ?_⟩
  · cases h with
    | reverse _ _ _ _ _ _ _ _ hsaves =>
      simp only
      split
      · simp only [Transaction.saved, (hsaves hS).2, savedColumn_self]
      · rfl
    | merge =>
      simp only
      split <;> rfl
    | close hfrozen =>
      simp only
      split
      · rename_i hid
        rw [(hfrozen t ht hid).2.2.2.2] at hshift
        cases hshift
      · rfl
    | _ => rfl
  · cases h with
    | reverse _ _ _ _ _ _ _ _ hsaves =>
      left
      simp only
      split
      · simp only [Transaction.saved, (hsaves hS).1, savedColumn_self]
      · rfl
    | merge _ _ _ hsecondaryId hmoved =>
      simp only
      split
      · rename_i hid
        exact Or.inr (hsecondaryId.symm.trans (hmoved t ht hid).1.symm)
      · exact Or.inl rfl
    | close =>
      left
      simp only
      split <;> rfl
    | _ => exact Or.inl rfl

section Runs

variable {ι : Type} [DecidableEq ι] {req : ι → Request} {env : ι → Env}

/-- While reversals save what they read again, every step of a run keeps the committed rows. -/
theorem committed_rows_write_once (hids : FreshIds req env) (tenants : Table Tenant)
    {es : List (Event ι)} (e : Event ι)
    (hmeets : postgres.Meets (fun _ o v ↦ SavesFresh o v) (serve req env (Db.opened tenants)) es) :
    WriteOnce req (postgres.run (serve req env (Db.opened tenants)) es).db
      (postgres.run (serve req env (Db.opened tenants)) (es ++ [e])).db e := by
  let S : Setting := { Setting.plain with savesFresh := True }
  obtain ⟨hC, hsound⟩ := sound_opened (S := S) hids False.elim False.elim rfl tenants
  have hallow : postgres.Meets (fun i ↦ S.allow (req i) (env i))
      (serve req env (Db.opened tenants)) es :=
    hmeets.mono fun i o v h ↦ by
      cases o with
      | rereadTransaction mem => exact fun _ ↦ of_decide_eq_true h
      | lockCustomer => exact ⟨False.elim, fun hS ↦ by cases hS⟩
      | findTransaction => exact fun hS ↦ by cases hS
      | findTransactionByKey | rereadCustomer => exact False.elim
      | _ => trivial
  have hmove := postgres.step_move (postgres.run (serve req env (Db.opened tenants)) es) e
  rw [Engine.run_append]
  rcases (hsound.run hC hallow).commit_of_move hC hmove with ⟨hdb, -⟩ | ⟨i, ws, he, hguar, -, hdb, -⟩
  · exact Or.inl hdb
  · rcases hguar with ⟨rfl, -⟩ | ⟨e', hcommit⟩
    · exact Or.inl hdb
    · right
      refine ⟨i, he, fun t ht ↦ ⟨e'.tweak t, ?_, keeps_tweak hcommit.changes trivial ht⟩⟩
      change e'.tweak t ∈ (postgres.step _ e).db.transactions.rows
      rw [hdb]
      exact hcommit.mem_transactions ht

end Runs

/-! ## A reversal that thaws a payment -/

/-- Ana pays during a shift; the payment is reversed while the shift is closed. -/
def thawing : Fin 6 → Request
  | 0 => .createCustomer 1 ana
  | 1 => .registerDebt 1 2 (debtOf100 100 11)
  | 2 => .openTurn 1 2 openingTurn
  | 3 => .registerPayment 1 2 (paymentOf60 100 12)
  | 4 => .reverseTransaction 1 2 103 (reversalUnder 13)
  | 5 => .closeTurn 1 closingTurn

theorem freshIds_thawing : FreshIds thawing fun i ↦ sampleEnv i :=
  freshIds_sample Fin.val_injective (by decide) (by decide)

/-- The payment is committed, and the reversal has read it. -/
def thawingSetup : List (Event (Fin 6)) :=
  turns 0 10 ++ turns 1 12 ++ turns 2 12 ++ turns 3 12 ++ turns 4 2

/-- The shift of payment 103 is closed, and the reversal, which loaded the payment before, takes
the mark of the shift off. -/
theorem committed_shift_cleared :
    let s := serve thawing (fun i ↦ sampleEnv i) (Db.opened sampleTenants)
    let closed := postgres.run s (thawingSetup ++ turns 5 20)
    let reversed := postgres.run s (thawingSetup ++ turns 5 20 ++ turns 4 20)
    (closed.db.transactions.find 103).map (·.cash_register_log_id) = some (some 102) ∧
      (reversed.db.transactions.find 103).map (·.cash_register_log_id) = some none := by
  decide +kernel

/-- Once the shift is closed, the reversal reads the payment with its shift and keeps it. -/
theorem committed_rows_write_once_serially :
    WriteOnce thawing
      (postgres.run (serve thawing (fun i ↦ sampleEnv i) (Db.opened sampleTenants))
        (turns 0 10 ++ turns 1 12 ++ turns 2 12 ++ turns 3 12 ++ turns 5 20 ++ turns 4 8)).db
      (postgres.run (serve thawing (fun i ↦ sampleEnv i) (Db.opened sampleTenants))
        (turns 0 10 ++ turns 1 12 ++ turns 2 12 ++ turns 3 12 ++ turns 5 20 ++ turns 4 8 ++
          [.step 4])).db (.step 4) :=
  committed_rows_write_once freshIds_thawing sampleTenants (.step 4) (by decide +kernel)

end MicroErp.Guarantees
