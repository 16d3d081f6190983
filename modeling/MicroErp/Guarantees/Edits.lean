import MicroErp.Commits.Runs

/-!
# Money and concurrent edits

An edit loads a customer without a lock and saves the whole entity.  While it reads again the
balance and the limit it loaded, the money of the customer is what the committed money operations
make of it.
-/

namespace MicroErp.Guarantees

open MicroErp.Commits MicroErp.Concurrency MicroErp.Database MicroErp.Services MicroErp.Storage

variable {ι : Type} {S : Setting} {req : Request} {env : Env} {d : Db} {e : Effect}
  {lk : List (LockName × LockMode)}

/-- The money operations on one customer, and the edits without a lock. -/
def MoneyOrEdit : Request → Prop
  | .registerDebt _ _ _ => True
  | .registerPayment _ _ _ => True
  | .registerMixedPayment _ _ _ => True
  | .forgiveDebt _ _ _ => True
  | .updateCreditLimit _ _ _ => True
  | req => req.IsEdit

/-- What a money operation makes of the balance and the limit of customer `id`. -/
def applyMoney (id : Uuid) (money : ℤ × ℤ) : Request → ℤ × ℤ
  | .registerDebt _ _ dto =>
      if dto.customer_id = id then (money.1 + dto.amount_cents, money.2) else money
  | .registerPayment _ _ dto =>
      if dto.customer_id = id then (money.1 - min dto.amount_cents money.1, money.2) else money
  | .registerMixedPayment _ _ dto =>
      if dto.customer_id = id then (money.1 - min dto.total_amount_cents money.1, money.2) else money
  | .forgiveDebt _ _ dto => if dto.customer_id = id then (0, money.2) else money
  | .updateCreditLimit _ customerId dto =>
      if customerId = id then (money.1, dto.credit_limit_cents) else money
  | _ => money

/-- The committed money operations in the order of their commits.  A key that was found is answered
by a commit that wrote nothing. -/
def moneyAfter (req : ι → Request) (log : List (ι × List Write)) (id : Uuid) (money : ℤ × ℤ) :
    ℤ × ℤ :=
  log.foldl (fun money x ↦ if x.2 = [] ∧ (req x.1).transactionKey.isSome then money
    else applyMoney id money (req x.1)) money

theorem moneyAfter_append (req : ι → Request) (log : List (ι × List Write)) (i : ι)
    (ws : List Write) (id : Uuid) (money : ℤ × ℤ) :
    moneyAfter req (log ++ [(i, ws)]) id money =
      if ws = [] ∧ (req i).transactionKey.isSome then moneyAfter req log id money
      else applyMoney id (moneyAfter req log id money) (req i) := by
  simp [moneyAfter]

/-- The `save` of an edit reads again the balance and the limit that it loaded. -/
def EditsFresh (req : Request) : Sql → Db → Bool
  | .rereadCustomer mem, v => req.IsEdit → ∀ c ∈ v.customers.find mem.id,
      c.balance_cents = mem.balance_cents ∧ c.credit_limit_cents = mem.credit_limit_cents
  | _, _ => true

/-! ## One commit -/

def money (c : Customer) : ℤ × ℤ := (c.balance_cents, c.credit_limit_cents)

theorem money_setCustomer (c c' : Customer) :
    money (setCustomer c' c) = if c'.id = c.id then money c' else money c := by
  unfold setCustomer
  by_cases h : c.id = c'.id
  · rw [if_pos h, if_pos h.symm]
  · rw [if_neg h, if_neg (Ne.symm h)]

theorem money_posting {c held : Customer} {rows : List Transaction} {balance : ℤ}
    (hc : d.customers.find c.id = some c) (hheld : d.customers.find held.id = some held)
    (hposts : Posts env held req rows balance) :
    money ((posting held rows balance).customer c) = applyMoney c.id (money c) req := by
  refine (money_setCustomer c { held with balance_cents := balance }).trans ?_
  by_cases hid : held.id = c.id
  · obtain rfl := Db.eq_of_find_customer hc (Table.find_eq_some.1 hheld).1 hid
    rw [if_pos rfl]
    cases hposts with
    | debt hdto => rw [applyMoney, if_pos hdto.symm]; rfl
    | payment hdto => rw [applyMoney, if_pos hdto.symm]; rfl
    | mixed hdto htotal =>
      rw [applyMoney, if_pos hdto.symm, effectiveShares_add htotal]
      simp only [money, Prod.mk.injEq, and_true]
      omega
    | forgiveness hdto => rw [applyMoney, if_pos hdto.symm]; rfl
  · rw [if_neg hid]
    cases hposts with
    | debt hdto => rw [applyMoney, if_neg (hdto ▸ hid)]
    | payment hdto => rw [applyMoney, if_neg (hdto ▸ hid)]
    | mixed hdto => rw [applyMoney, if_neg (hdto ▸ hid)]
    | forgiveness hdto => rw [applyMoney, if_neg (hdto ▸ hid)]

/-- Commits change the money of a customer as the operations say, and edits not at all. -/
theorem money_customer (h : Changes S env lk d req e) (hS : S.editsFresh) (hreq : MoneyOrEdit req)
    {c : Customer} (hc : d.customers.find c.id = some c) :
    money (e.customer c) = applyMoney c.id (money c) req := by
  cases h with
  | post _ hheld hposts => exact money_posting hc hheld.1 hposts
  | limit hheld hid =>
    subst hid
    refine (money_setCustomer c _).trans ?_
    simp only [applyMoney]
    split
    · rename_i hid
      obtain rfl := Db.eq_of_find_customer hc (Table.find_eq_some.1 hheld.1).1 hid
      rfl
    · rfl
  | edit hedit _ _ _ hmoney =>
    obtain ⟨hbalance, hlimit⟩ := hmoney (Or.inr hS)
    have hsame : applyMoney c.id (money c) req = money c := by
      cases req <;> first | rfl | exact hedit.elim
    rw [hsame]
    simp only
    split
    · simp only [money, Customer.saved, hbalance, hlimit, savedColumn_self]
    · rfl
  | aside haside => cases req <;> first | exact haside.elim | exact hreq.elim
  | flag hflag => cases req <;> first | exact hflag.elim | exact hreq.elim
  | _ => exact hreq.elim

theorem applyMoney_of_mayIdle (hidle : req.MayIdle) (hkey : req.transactionKey = none) {id : Uuid}
    {money : ℤ × ℤ} : applyMoney id money req = money := by
  rcases hidle with h | h | h
  · rw [hkey] at h
    cases h
  · cases req <;> first | rfl | cases h
  · cases req <;> first | rfl | exact h.elim

/-! ## Runs -/

section Runs

variable [DecidableEq ι] {req : ι → Request} {env : ι → Env} {es : List (Event ι)}

/-- While edits save what they read again, the money of a customer is what the committed money
operations make of it, in the order of their commits. -/
theorem money_of_committed (hids : FreshIds req env) (hreq : ∀ i, MoneyOrEdit (req i))
    (hd : Reachable d) (hunused : ∀ i, (env i).Unused d)
    (hmeets : postgres.Meets (fun i o v ↦ EditsFresh (req i) o v) (serve req env d) es)
    {c : Customer} (hc : d.customers.find c.id = some c) :
    ∃ c', (postgres.run (serve req env d) es).db.customers.find c.id = some c' ∧
      money c' = moneyAfter req (postgres.run (serve req env d) es).log c.id (money c) := by
  let S : Setting := { Setting.plain with editsFresh := True }
  obtain ⟨hC, hsound⟩ := sound_free (S := S) hids hunused (wellFormed_of_reachable hd) False.elim
    False.elim rfl
  have hallow : postgres.Meets (fun i ↦ S.allow (req i) (env i)) (serve req env d) es :=
    hmeets.mono fun i o v h ↦ by
      cases o with
      | rereadCustomer mem => exact fun _ ↦ of_decide_eq_true h
      | lockCustomer => exact ⟨False.elim, fun hS ↦ by cases hS⟩
      | findTransaction => exact fun hS ↦ by cases hS
      | findTransactionByKey | rereadTransaction => exact False.elim
      | _ => trivial
  refine hsound.history hC (J := fun d log ↦ ∃ c', d.customers.find c.id = some c' ∧
    money c' = moneyAfter req log c.id (money c)) hallow ⟨c, hc, rfl⟩ ?_
  rintro i lk ws d log ⟨c', hc', hmoney⟩ hguar -
  rw [moneyAfter_append]
  rcases hguar with ⟨rfl, hidle⟩ | ⟨e, hcommit⟩
  · refine ⟨c', hc', ?_⟩
    split
    · exact hmoney
    · rename_i hkey
      exact hmoney.trans (applyMoney_of_mayIdle hidle (by simpa using hkey)).symm
  · split
    · rename_i hkey
      obtain ⟨rfl, -⟩ := hkey
      exact ⟨c', hc', hmoney⟩
    · refine ⟨e.customer c', hcommit.find_customer hc', ?_⟩
      have hid : c'.id = c.id := (Table.find_eq_some.1 hc').2
      rw [← hmoney, ← hid]
      exact money_customer hcommit.changes trivial (hreq i) (hid ▸ hc')

end Runs

/-! ## An edit that undoes a payment -/

/-- The debtor is blocked while a payment comes in. -/
def blocking : Fin 2 → Request
  | 0 => .toggleBlock 1 100
  | 1 => .registerPayment 1 2 (paymentOf60 100 12)

theorem freshIds_blocking : FreshIds blocking laterEnv := freshIds_later (by decide) (by decide)

theorem moneyOrEdit_blocking : ∀ i, MoneyOrEdit (blocking i)
  | 0 => trivial
  | 1 => trivial

/-- The edit loads the balance 100, the payment commits, and the edit writes the 100 back. -/
theorem payment_undone :
    let s := postgres.run (serve blocking laterEnv owing) (turns 0 1 ++ turns 1 12 ++ turns 0 5)
    (s.db.customers.find 100).map money = some (100, 1000) ∧
      moneyAfter blocking s.log 100 (100, 1000) = (40, 1000) := by
  decide +kernel

/-- After the payment the edit loads the balance 40. -/
theorem money_of_committed_serially :
    ∃ c ∈ owing.customers.find 100, ∃ c', (postgres.run (serve blocking laterEnv owing)
        (turns 1 12 ++ turns 0 6)).db.customers.find c.id = some c' ∧
      money c' = moneyAfter blocking (postgres.run (serve blocking laterEnv owing)
        (turns 1 12 ++ turns 0 6)).log c.id (money c) := by
  obtain ⟨c, hc⟩ : ∃ c, owing.customers.find 100 = some c :=
    Option.isSome_iff_exists.1 (by decide +kernel)
  have hid : c.id = 100 := (Table.find_eq_some.1 hc).2
  exact ⟨c, hc, money_of_committed freshIds_blocking moneyOrEdit_blocking reachable_owing
    (unused_owing (by decide)) (by decide +kernel) (hid.symm ▸ hc)⟩

end MicroErp.Guarantees
