import MicroErp.Commits.Runs
import MicroErp.Commits.Statements
import MicroErp.Storage.Sums
import MicroErp.Services.Rounding

/-!
# Limits of a balance

A debt is committed only for an active customer and within the credit limit, and a payment only up
to the balance.  Both are checked on a row that is locked until the commit, so no interleaving gets
between the check and the commit.
-/

namespace MicroErp.Guarantees

open MicroErp.Commits MicroErp.Concurrency MicroErp.Database MicroErp.Services MicroErp.Storage

variable {ι : Type} {S : Setting} {req : Request} {env : Env} {d d' : Db} {e : Effect}
  {lk : List (LockName × LockMode)}

/-! ## One commit -/

/-- The rows that are new in `d'`. -/
def recorded (d d' : Db) : List Transaction :=
  d'.transactions.rows.filter fun t ↦ t.toCore ∉ d.cores

theorem recorded_of_commit (h : Commit S req env lk d d' e) : recorded d d' = e.rows := by
  have hold : ∀ t ∈ d.transactions.rows.map e.tweak, ¬(decide (t.toCore ∉ d.cores) = true) := by
    intro t ht
    obtain ⟨t', hmem, rfl⟩ := List.mem_map.1 ht
    rw [h.changes.toCore_tweak]
    simpa using Db.mem_cores.2 ⟨t', hmem, rfl⟩
  have hnew : ∀ r ∈ e.rows, decide (r.toCore ∉ d.cores) = true := by
    intro r hr
    simp only [decide_eq_true_eq]
    intro hcore
    obtain ⟨t, ht, heq⟩ := Db.mem_cores.1 hcore
    exact Table.find_eq_none.1 (h.vacant.id_free r hr) t ht (congrArg (·.id) heq)
  unfold recorded
  rw [h.yields.transactions, List.filter_append, List.filter_eq_nil_iff.2 hold,
    List.filter_eq_self.2 hnew, List.nil_append]

/-- Nothing is recorded while nothing is committed. -/
theorem recorded_self (d : Db) : recorded d d = [] := by
  refine List.filter_eq_nil_iff.2 fun t ht ↦ ?_
  simpa using Db.mem_cores.2 ⟨t, ht, rfl⟩

/-- The debt leaves its customer active and within the limit. -/
theorem debt_row (h : Commit S req env lk d d' e) {t : Transaction} (ht : t ∈ e.rows)
    (htype : t.type = .DEBT) : ∃ c, d'.customers.find t.customer_id = some c ∧
      c.is_active = true ∧ c.balance_cents ≤ c.credit_limit_cents := by
  cases h.changes with
  | @post _ _ _ c _ _ hkey hc hposts =>
    cases hposts with
    | @debt _ _ dto hid hactive hlimit =>
      obtain rfl := List.mem_singleton.1 ht
      have hfind := h.find_customer hc.1
      rw [posting_self, hid] at hfind
      exact ⟨_, hfind, hactive, hlimit⟩
    | mixed =>
      rcases List.mem_cons.1 ht with rfl | ht
      · cases htype
      · obtain rfl := List.mem_singleton.1 ht
        cases htype
    | _ =>
      obtain rfl := List.mem_singleton.1 ht
      cases htype
  | reverse =>
    obtain rfl := List.mem_singleton.1 ht
    cases htype
  | inflate hadjusts =>
    obtain ⟨x, hx, rfl⟩ := List.mem_map.1 ht
    obtain ⟨-, n, hn⟩ := hadjusts.of_mem hx
    rw [hn] at htype
    cases htype
  | _ => cases ht

/-- A payment or a forgiveness of debt of customer `id`. -/
def SettlesFor (id : Uuid) (t : Transaction) : Prop :=
  t.customer_id = id ∧ (t.type = .PAYMENT ∨ t.type = .FORGIVENESS)

instance (id : Uuid) (t : Transaction) : Decidable (SettlesFor id t) :=
  inferInstanceAs (Decidable (_ ∧ _))

/-- What the rows settle of the debt of customer `id`. -/
def settledBy (rows : List Transaction) (id : Uuid) : ℤ :=
  sumOf (SettlesFor id) (·.amount_cents) rows

/-- The rows that settle debt of a customer are within the balance of the row that is held, each of
them and all together. -/
theorem settling_rows (h : Changes S env lk d req e) {t : Transaction} (ht : t ∈ e.rows) {id : Uuid}
    (hsettles : SettlesFor id t) : ∃ c, Holds d lk t.tenant_id c ∧ c.id = id ∧
      t.amount_cents ≤ c.balance_cents ∧ settledBy e.rows id ≤ c.balance_cents := by
  obtain ⟨rfl, htype⟩ := hsettles
  cases h with
  | @post _ _ _ c _ _ hkey hc hposts =>
    obtain ⟨howner, htenant⟩ := hposts.owner hkey ht
    subst htenant
    refine ⟨c, hc, howner.symm, ?_⟩
    rw [howner]
    cases hposts with
    | debt =>
      obtain rfl := List.mem_singleton.1 ht
      rcases htype with htype | htype <;> cases htype
    | @payment tenantId userId dto hid =>
      obtain rfl := List.mem_singleton.1 ht
      refine ⟨min_le_right _ _, ?_⟩
      have hrow : SettlesFor c.id (paymentRow env tenantId userId dto
          (min dto.amount_cents c.balance_cents)) := ⟨howner, htype⟩
      simp only [settledBy, sumOf, posting, List.filter_cons, hrow, decide_true, if_true, List.filter_nil,
        List.map_cons, List.map_nil, List.sum_cons, List.sum_nil, add_zero]
      exact min_le_right _ _
    | @mixed tenantId userId dto hid htotal hpos =>
      obtain ⟨⟨hcash, hcash'⟩, htransfer, htransfer'⟩ := effectiveShares_mem htotal hpos.le
      have hadd := effectiveShares_add htotal c.balance_cents
      have hcashRow : SettlesFor c.id (cashRow env tenantId userId dto
          (effectiveShares dto c.balance_cents).1) := ⟨hid.symm, Or.inl rfl⟩
      have htransferRow : SettlesFor c.id (transferRow env tenantId userId dto
          (effectiveShares dto c.balance_cents).2) := ⟨hid.symm, Or.inl rfl⟩
      constructor
      · rcases List.mem_cons.1 ht with rfl | ht
        · exact hcash'
        · obtain rfl := List.mem_singleton.1 ht
          exact htransfer'
      · simp only [settledBy, sumOf, posting, List.filter_cons, hcashRow, htransferRow, decide_true,
          if_true, List.filter_nil, List.map_cons, List.map_nil, List.sum_cons, List.sum_nil,
          add_zero]
        calc (effectiveShares dto c.balance_cents).1 + (effectiveShares dto c.balance_cents).2
            = min dto.total_amount_cents c.balance_cents := hadd
          _ ≤ c.balance_cents := min_le_right _ _
    | @forgiveness tenantId userId dto hid hpos =>
      obtain rfl := List.mem_singleton.1 ht
      refine ⟨le_rfl, ?_⟩
      have hrow : SettlesFor c.id (forgivenessRow env tenantId userId dto c.balance_cents) :=
        ⟨howner, htype⟩
      simp only [settledBy, sumOf, posting, List.filter_cons, hrow, decide_true, if_true, List.filter_nil,
        List.map_cons, List.map_nil, List.sum_cons, List.sum_nil, add_zero]
      exact le_rfl
  | reverse =>
    obtain rfl := List.mem_singleton.1 ht
    rcases htype with htype | htype <;> cases htype
  | inflate hadjusts =>
    obtain ⟨x, hx, rfl⟩ := List.mem_map.1 ht
    obtain ⟨-, n, hn⟩ := hadjusts.of_mem hx
    rw [hn] at htype
    rcases htype with htype | htype <;> cases htype
  | _ => cases ht

/-! ## No balance is negative -/

/-- No customer has a credit. -/
def NoCredit (d : Db) : Prop := ∀ c ∈ d.customers.rows, 0 ≤ c.balance_cents

def WritesNonneg : Write → Prop
  | .insertCustomer row => 0 ≤ row.balance_cents
  | .updateCustomer mem _ => 0 ≤ mem.balance_cents
  | _ => True

theorem writesNonneg_of_exec {o : Sql} {v : Db} {r : o.Ans} {ws : List Write}
    (hissued : Proper True True True o) (h : o.exec v = .ok (r, ws)) : ∀ w ∈ ws, WritesNonneg w := by
  intro w hw
  have hwrite := Sql.write_of_exec h w hw
  cases o with
  | insertCustomer | updateCustomer =>
    cases hwrite
    exact hissued trivial
  | _ => cases hwrite <;> trivial

theorem answersNonneg_of_exec {o : Sql} {v : Db} {r : o.Ans} {ws : List Write}
    (hv : NoCredit v) (h : o.exec v = .ok (r, ws)) : AnswersNonneg True o r := by
  have hfind : ∀ {tenantId id : Uuid} {c : Customer}, v.customer tenantId id = some c →
      0 ≤ c.balance_cents := fun hc ↦
    hv _ (Table.find_eq_some.1 (Option.filter_eq_some_iff.1 hc).1).1
  cases o with
  | lockCustomer => exact fun c hc _ ↦ hfind ((Prod.mk.inj (Except.ok.inj h)).1.trans hc)
  | findCustomer => exact fun c hc _ ↦ hfind ((Prod.mk.inj (Except.ok.inj h)).1.trans hc)
  | findCustomerByKey =>
    exact fun c hc _ ↦ hv c (List.mem_of_find?_eq_some ((Prod.mk.inj (Except.ok.inj h)).1.trans hc))
  | _ => trivial

theorem noCredit_modify {t : Table Customer} {id : Uuid} {f : Customer → Customer}
    (h : ∀ c ∈ t.rows, 0 ≤ c.balance_cents) (hf : ∀ c, 0 ≤ c.balance_cents → 0 ≤ (f c).balance_cents) :
    ∀ c ∈ (t.modify id f).rows, 0 ≤ c.balance_cents := by
  intro c hc
  rw [Table.rows_modify] at hc
  obtain ⟨x, hx, rfl⟩ := List.mem_map.1 hc
  split
  · unfold Table.amend
    split
    · exact hf x (h x hx)
    · exact h x hx
  · exact h x hx

theorem noCredit_apply {w : Write} (hw : WritesNonneg w) (h : NoCredit d) :
    NoCredit (w.apply d) := by
  cases w with
  | insertCustomer row =>
    intro c hc
    simp only [Write.apply, Table.insert] at hc
    split at hc
    · exact h c hc
    · rcases List.mem_append.1 hc with hc | hc
      · exact h c hc
      · obtain rfl := List.mem_singleton.1 hc
        exact hw
  | updateCustomer mem reread =>
    refine noCredit_modify h fun c hc ↦ ?_
    simp only [Customer.saved, savedColumn]
    split
    · exact hc
    · exact hw
  | markOverdue => exact noCredit_modify h fun _ hc ↦ hc
  | blockCustomer => exact noCredit_modify h fun _ hc ↦ hc
  | _ => exact h

/-- What every request computes from balances that are not negative is not negative. -/
def creditFlow (ι : Type) : Flow postgres ι where
  inv := NoCredit
  issues _ := Proper True True True
  answers := AnswersNonneg True
  writes _ := WritesNonneg
  exec hv hissued h := ⟨answersNonneg_of_exec hv h, writesNonneg_of_exec hissued h⟩
  write hw h := noCredit_apply hw h

/-! ## Runs -/

section Sessions

variable [DecidableEq ι] {req : ι → Request} {env : ι → Env} {d : Db}

theorem noCredit_run (h : NoCredit d) (req : ι → Request) (env : ι → Env) (es : List (Event ι)) :
    NoCredit (postgres.run (serve req env d) es).db := by
  have hstart : (creditFlow ι).Holds (fun _ _ ↦ True)
      (serve req env d : Sys ι Sql Sql.Ans Db Write LockName ServiceError Answer) :=
    .start h fun i ↦ script_safe (env i) (req i) (fun _ ↦ trivial) fun _ _ _ ↦ trivial
  exact (hstart.run es).db

theorem noCredit_of_reachable (h : Reachable d) : NoCredit d := by
  obtain ⟨ι, _, req, env, tenants, es, -, rfl⟩ := h
  exact noCredit_run (fun c hc ↦ (List.not_mem_nil hc).elim) req env es

/-- In every run, no event records a debt for a blocked customer or beyond the limit. -/
theorem debt_within_limit (hids : FreshIds req env) (hd : Reachable d)
    (hunused : ∀ i, (env i).Unused d) (es : List (Event ι)) (e : Event ι) {t : Transaction}
    (ht : t ∈ recorded (postgres.run (serve req env d) es).db
      (postgres.run (serve req env d) (es ++ [e])).db) (htype : t.type = .DEBT) :
    ∃ c, (postgres.run (serve req env d) (es ++ [e])).db.customers.find t.customer_id = some c ∧
      c.is_active = true ∧ c.balance_cents ≤ c.credit_limit_cents := by
  rcases commit_of_event hids hd hunused es e with hdb | ⟨i, effect, -, hcommit⟩
  · rw [hdb, recorded_self] at ht
    cases ht
  · rw [recorded_of_commit hcommit] at ht
    exact debt_row hcommit ht htype

end Sessions

/-- A debt and a payment of one customer at the same time. -/
def spending : Fin 2 → Request
  | 0 => .registerDebt 1 2 (debtOf100 100 21)
  | 1 => .registerPayment 1 2 (paymentOf60 100 22)

theorem freshIds_spending : FreshIds spending laterEnv := freshIds_later (by decide) (by decide)

/-- The debt looks its key up, waits for the payment and is committed after it. -/
theorem debt_within_limit_spending :
    ∃ c, (postgres.run (serve spending laterEnv owing)
        (turns 0 1 ++ turns 1 7 ++ turns 0 5 ++ [.step 0])).db.customers.find 100 = some c ∧
      c.is_active = true ∧ c.balance_cents ≤ c.credit_limit_cents :=
  debt_within_limit freshIds_spending reachable_owing (fun i ↦ unused_owing (by decide) i)
    (turns 0 1 ++ turns 1 7 ++ turns 0 5) (.step 0)
    (t := debtRow (laterEnv (0 : Fin 2)) 1 2 (debtOf100 100 21)) (by decide +kernel) rfl

section Sessions

variable [DecidableEq ι] {req : ι → Request} {env : ι → Env} {d : Db}

/-- In every state of every run no balance is negative, and what the next event records as paid or
forgiven is within the balance of the customer that the session holds under its lock. -/
theorem no_credit_arises (hids : FreshIds req env) (hd : Reachable d)
    (hunused : ∀ i, (env i).Unused d) (es : List (Event ι)) :
    NoCredit (postgres.run (serve req env d) es).db ∧
      ∀ e, ∀ t ∈ recorded (postgres.run (serve req env d) es).db
          (postgres.run (serve req env d) (es ++ [e])).db,
        t.type = .PAYMENT ∨ t.type = .FORGIVENESS →
          ∃ i c, e = .step i ∧ Holds (postgres.run (serve req env d) es).db
              ((postgres.run (serve req env d) es).locksOf i) t.tenant_id c ∧
            c.id = t.customer_id ∧ t.amount_cents ≤ c.balance_cents ∧
            settledBy (recorded (postgres.run (serve req env d) es).db
              (postgres.run (serve req env d) (es ++ [e])).db) c.id ≤ c.balance_cents := by
  refine ⟨noCredit_run (noCredit_of_reachable hd) req env es, fun e t ht htype ↦ ?_⟩
  rcases commit_of_event hids hd hunused es e with hdb | ⟨i, effect, he, hcommit⟩
  · rw [hdb, recorded_self] at ht
    cases ht
  · rw [recorded_of_commit hcommit] at ht ⊢
    obtain ⟨c, hc, hid, hamount, hsum⟩ := settling_rows hcommit.changes ht ⟨rfl, htype⟩
    exact ⟨i, c, he, hc, hid, hamount, hid ▸ hsum⟩

end Sessions

/-- The payment takes 60 of the 100 that are owed. -/
theorem no_credit_arises_spending :
    let before := postgres.run (serve spending laterEnv owing) (turns 0 1 ++ turns 1 6)
    let after := postgres.run (serve spending laterEnv owing) (turns 0 1 ++ turns 1 6 ++ [.step 1])
    NoCredit before.db ∧
      ∃ i c, Event.step (1 : Fin 2) = .step i ∧ Holds before.db (before.locksOf i) 1 c ∧
        c.id = 100 ∧ 60 ≤ c.balance_cents ∧
        settledBy (recorded before.db after.db) c.id ≤ c.balance_cents := by
  obtain ⟨hcredit, hrows⟩ := no_credit_arises freshIds_spending reachable_owing
    (fun i ↦ unused_owing (by decide) i) (turns 0 1 ++ turns 1 6)
  exact ⟨hcredit, hrows (.step 1) (paymentRow (laterEnv (1 : Fin 2)) 1 2 (paymentOf60 100 22) 60)
    (by decide +kernel) (Or.inl rfl)⟩

end MicroErp.Guarantees
