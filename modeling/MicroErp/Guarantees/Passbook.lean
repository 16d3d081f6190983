import MicroErp.Guarantees.Balances
import MicroErp.Guarantees.Columns
import MicroErp.Services.Histories

/-!
# The sides of the passbook

The frontend shows a transaction as owed or paid by its type, and a reversal by the type of the
original, which it looks for on the page at hand.  The service decides by the type of the original
too, wherever it is, so the two differ on the reversal of a debt that is on another page.
-/

namespace MicroErp.Guarantees

open MicroErp.Commits MicroErp.Concurrency MicroErp.Database MicroErp.Services MicroErp.Storage

/-! ## What a commit does to the balance of its rows -/

/-- What a row says of the balance of its customer before and after it was recorded. -/
structure Entry (cores : List Transaction.Core) (r : Transaction.Core) (b b' : ℤ) : Prop where
  raises : r.type ∈ increasesDebt → b < b'
  lowers : r.type = .PAYMENT ∨ r.type = .FORGIVENESS → b' ≤ b
  reverses : r.type = .REVERSAL → ∃ original ∈ cores,
    r.reversed_transaction_id = some original.id ∧ r.amount_cents = original.amount_cents ∧
      b' = balanceAfterReversal original.type original.amount_cents b

section Commit

variable {S : Setting} {req : Request} {env : Env} {d d' : Db} {e : Effect}
  {lk : List (LockName × LockMode)} {t : Transaction} {b b' : ℤ}

theorem Entry.mono {cores cores' : List Transaction.Core} {r : Transaction.Core}
    (h : Entry cores r b b') (hcores : cores <+: cores') : Entry cores' r b b' where
  raises := h.raises
  lowers := h.lowers
  reverses htype := by
    obtain ⟨original, hmem, hid⟩ := h.reverses htype
    exact ⟨original, hcores.subset hmem, hid⟩

theorem entry_debt (htype : t.type ∈ increasesDebt) (h : b < b') :
    Entry d.cores t.toCore b b' where
  raises _ := h
  lowers hother := by
    rcases hother with hother | hother <;> rw [hother] at htype <;> simp [increasesDebt] at htype
  reverses hother := by
    rw [hother] at htype
    simp [increasesDebt] at htype

theorem entry_settling (htype : t.type = .PAYMENT ∨ t.type = .FORGIVENESS) (h : b' ≤ b) :
    Entry d.cores t.toCore b b' where
  raises hother := by
    rcases htype with htype | htype <;> rw [htype] at hother <;> simp [increasesDebt] at hother
  lowers _ := h
  reverses hother := by
    rcases htype with htype | htype <;> rw [htype] at hother <;> cases hother

/-- The balance of a customer. -/
def balanceOf (d : Db) (id : Uuid) : Option ℤ := (d.customers.find id).map (·.balance_cents)

/-- Posting a row. -/
theorem entry_of_posts {c : Customer} {rows : List Transaction} {balance : ℤ}
    (h : Posts env c req rows balance) (ht : t ∈ rows) :
    Entry d.cores t.toCore c.balance_cents balance := by
  cases h with
  | @debt _ _ dto =>
    obtain rfl := List.mem_singleton.1 ht
    exact entry_debt List.mem_cons_self (Int.lt_add_of_pos_right _ dto.amount_valid.1)
  | payment hid hpos =>
    obtain rfl := List.mem_singleton.1 ht
    exact entry_settling (Or.inl rfl) (Int.sub_le_self _ hpos.le)
  | @mixed _ _ dto hid htotal hpos =>
    obtain ⟨⟨hcash, -⟩, htransfer, -⟩ := effectiveShares_mem htotal hpos.le
    have hle : max 0 (c.balance_cents - ((effectiveShares dto c.balance_cents).1 +
        (effectiveShares dto c.balance_cents).2)) ≤ c.balance_cents :=
      max_le hpos.le (Int.sub_le_self _ (add_nonneg hcash htransfer))
    rcases List.mem_cons.1 ht with rfl | ht
    · exact entry_settling (Or.inl rfl) hle
    · obtain rfl := List.mem_singleton.1 ht
      exact entry_settling (Or.inl rfl) hle
  | forgiveness hid hpos =>
    obtain rfl := List.mem_singleton.1 ht
    exact entry_settling (Or.inr rfl) hpos.le

/-- Every new row is an entry for a customer who was there before. -/
theorem entry_of_commit (h : Commit S req env lk d d' e) (ht : t ∈ e.rows) :
    ∃ b b', balanceOf d t.customer_id = some b ∧ balanceOf d' t.customer_id = some b' ∧
      Entry d.cores t.toCore b b' := by
  have hbalances {c : Customer} {balance : ℤ} (hfind : d.customers.find c.id = some c)
      (howner : t.customer_id = c.id) (hcustomer : (e.customer c).balance_cents = balance)
      (hentry : Entry d.cores t.toCore c.balance_cents balance) :
      ∃ b b', balanceOf d t.customer_id = some b ∧ balanceOf d' t.customer_id = some b' ∧
        Entry d.cores t.toCore b b' := by
    refine ⟨c.balance_cents, balance, ?_, ?_, hentry⟩
    · rw [balanceOf, howner, hfind, Option.map_some]
    · rw [balanceOf, howner, h.find_customer hfind, Option.map_some, hcustomer]
  cases h.changes with
  | @post _ _ _ c rows balance hkey hc hposts =>
    exact hbalances hc.1 (hposts.owner hkey ht).1
      (congrArg Customer.balance_cents (posting_self c rows balance)) (entry_of_posts hposts ht)
  | @reverse _ _ _ _ original reread c hid htenant hunreversed hc hcustomer hpresent =>
    obtain rfl := List.mem_singleton.1 ht
    obtain ⟨t₀, ht₀, hcore⟩ := hpresent
    refine hbalances hc.1 hcustomer.symm
      (congrArg Customer.balance_cents (posting_self c []
        (balanceAfterReversal original.type original.amount_cents c.balance_cents)))
      ⟨?_, ?_, fun _ ↦ ?_⟩
    · intro htype
      simp [increasesDebt, reversalRow, newTransaction] at htype
    · rintro (htype | htype) <;> cases htype
    · exact ⟨original.toCore, hcore ▸ Db.mem_cores.2 ⟨t₀, ht₀, rfl⟩, rfl, rfl, rfl⟩
  | @inflate _ _ dto adjusted _ _ hadjusts hdistinct hholds =>
    obtain ⟨x, hx, rfl⟩ := List.mem_map.1 ht
    obtain ⟨hpos, n, hn⟩ := hadjusts.of_mem hx
    refine hbalances (hholds x hx).1 (by rw [hn]; rfl) ?_
      (entry_debt (by rw [hn]; simp [increasesDebt, adjustmentRow, newTransaction])
        (Int.lt_add_of_pos_right _ hpos))
    have hmem : x.1 ∈ adjusted.map Prod.fst := List.mem_map_of_mem hx
    simp only [adjustCustomer, if_pos hmem]
  | _ => cases ht

/-- Debts and adjustments are of a positive amount. -/
theorem raising_row (h : Changes S env lk d req e) (ht : t ∈ e.rows)
    (htype : t.type ∈ increasesDebt) : 0 < t.amount_cents := by
  cases h with
  | post hkey hc hposts =>
    cases hposts with
    | @debt _ _ dto =>
      obtain rfl := List.mem_singleton.1 ht
      exact dto.amount_valid.1
    | mixed =>
      rcases List.mem_cons.1 ht with rfl | ht
      · simp [increasesDebt, cashRow, newTransaction] at htype
      · obtain rfl := List.mem_singleton.1 ht
        simp [increasesDebt, transferRow, newTransaction] at htype
    | payment =>
      obtain rfl := List.mem_singleton.1 ht
      simp [increasesDebt, paymentRow, newTransaction] at htype
    | forgiveness =>
      obtain rfl := List.mem_singleton.1 ht
      simp [increasesDebt, forgivenessRow, newTransaction] at htype
  | reverse =>
    obtain rfl := List.mem_singleton.1 ht
    simp [increasesDebt, reversalRow, newTransaction] at htype
  | inflate hadjusts =>
    obtain ⟨x, hx, rfl⟩ := List.mem_map.1 ht
    obtain ⟨hpos, n, hn⟩ := hadjusts.of_mem hx
    rw [hn]
    exact hpos
  | _ => cases ht

end Commit

/-! ## The rows of a run -/

/-- From `d` to `d'` the row is recorded, and the balance of its customer goes from `b` to `b'`. -/
def Records (d d' : Db) (id : Uuid) (b b' : ℤ) : Prop :=
  ∃ t ∈ recorded d d', t.id = id ∧ balanceOf d t.customer_id = some b ∧
    balanceOf d' t.customer_id = some b'

/-- From `d` to `d'` a reversal is recorded that does not move the balance by its whole amount. -/
def Clamps (d d' : Db) : Prop :=
  ∃ t ∈ recorded d d', t.type = .REVERSAL ∧ ∃ b ∈ balanceOf d t.customer_id,
    ∃ b' ∈ balanceOf d' t.customer_id, |b' - b| ≠ t.amount_cents

instance (d d' : Db) (id : Uuid) (b b' : ℤ) : Decidable (Records d d' id b b') :=
  inferInstanceAs (Decidable (∃ t ∈ recorded d d', _ ∧ _ ∧ _))

instance (d d' : Db) : Decidable (Clamps d d') :=
  inferInstanceAs (Decidable (∃ t ∈ recorded d d', _ ∧ _))

section Runs

variable {ι : Type} [DecidableEq ι] (req : ι → Request) (env : ι → Env) (tenants : Table Tenant)

/-- The database after these events, from one without customers. -/
def dbAfter (es : List (Event ι)) : Db :=
  (postgres.run (serve req env (Db.opened tenants)) es).db

/-- One of the events recorded the row and moved the balance of its customer from `b` to `b'`. -/
def Moved (es : List (Event ι)) (id : Uuid) (b b' : ℤ) : Prop :=
  ∃ es₁ e es₂, es = es₁ ++ e :: es₂ ∧
    Records (dbAfter req env tenants es₁) (dbAfter req env tenants (es₁ ++ [e])) id b b'

/-- No reversal was clamped at zero. -/
def Unclamped (es : List (Event ι)) : Prop :=
  ∀ es₁ e es₂, es = es₁ ++ e :: es₂ →
    ¬Clamps (dbAfter req env tenants es₁) (dbAfter req env tenants (es₁ ++ [e]))

/-- The row stands on the side of what the operation that created it did to the balance. -/
def OnRightSide (es : List (Event ι)) (page : List Transaction) (row : Transaction) : Prop :=
  ∀ b b', Moved req env tenants es row.id b b' →
    (b < b' → getTxDirection row page = .debe) ∧ (b' < b → getTxDirection row page = .haber)

variable {req env tenants} {es : List (Event ι)} {t : Transaction} {b b' : ℤ}

theorem reachable_dbAfter (hids : FreshIds req env) (es : List (Event ι)) :
    Reachable (dbAfter req env tenants es) :=
  ⟨ι, inferInstance, req, env, tenants, es, hids, rfl⟩

theorem dbAfter_event (hids : FreshIds req env) (es : List (Event ι)) (e : Event ι) :
    dbAfter req env tenants (es ++ [e]) = dbAfter req env tenants es ∨
      ∃ i effect lk, Commit .plain (req i) (env i) lk (dbAfter req env tenants es)
        (dbAfter req env tenants (es ++ [e])) effect := by
  have hopened : Reachable (Db.opened tenants) := reachable_dbAfter hids []
  rcases commit_of_event hids hopened (fun i ↦ unused_opened (env i) tenants) es e with
    hsame | ⟨i, effect, -, hcommit⟩
  · exact Or.inl hsame
  · exact Or.inr ⟨i, effect, _, hcommit⟩

/-- Committed rows stay. -/
theorem cores_dbAfter (hids : FreshIds req env) (es es' : List (Event ι)) :
    (dbAfter req env tenants es).cores <+: (dbAfter req env tenants (es ++ es')).cores := by
  induction es' using List.reverseRecOn with
  | nil => rw [List.append_nil]
  | append_singleton es' e ih =>
    rw [← List.append_assoc]
    rcases dbAfter_event hids (es ++ es') e with hsame | ⟨i, effect, lk, hcommit⟩
    · rwa [hsame]
    · rw [hcommit.cores]
      exact ih.trans (List.prefix_append _ _)

/-- What an event has recorded stays in the history and was an entry when it was recorded. -/
theorem core_of_recorded (hids : FreshIds req env) {es₁ es₂ : List (Event ι)} {e : Event ι}
    (ht : t ∈ (dbAfter req env tenants (es₁ ++ e :: es₂)).transactions.rows) {t₀ : Transaction}
    (hrec : t₀ ∈ recorded (dbAfter req env tenants es₁) (dbAfter req env tenants (es₁ ++ [e])))
    (hid : t₀.id = t.id) :
    t₀.toCore = t.toCore ∧ ∃ b b',
      balanceOf (dbAfter req env tenants es₁) t₀.customer_id = some b ∧
        balanceOf (dbAfter req env tenants (es₁ ++ [e])) t₀.customer_id = some b' ∧
          Entry (dbAfter req env tenants (es₁ ++ e :: es₂)).cores t.toCore b b' := by
  have hassoc : es₁ ++ e :: es₂ = (es₁ ++ [e]) ++ es₂ := by simp
  rcases dbAfter_event hids es₁ e with hsame | ⟨i, effect, lk, hcommit⟩
  · rw [hsame, recorded_self] at hrec
    cases hrec
  · rw [recorded_of_commit hcommit] at hrec
    obtain ⟨b, b', hb, hb', hentry⟩ := entry_of_commit hcommit hrec
    have hmem : t₀.toCore ∈ (dbAfter req env tenants (es₁ ++ e :: es₂)).cores := by
      rw [hassoc]
      refine (cores_dbAfter hids (es₁ ++ [e]) es₂).subset ?_
      rw [hcommit.cores]
      exact List.mem_append_right _ (List.mem_map_of_mem hrec)
    have hcore : t₀.toCore = t.toCore := by
      obtain ⟨t₁, ht₁, hcore⟩ := Db.mem_cores.1 hmem
      have hid₁ : t₁.id = t₀.id := congrArg (·.id) hcore
      rw [← hcore, Db.eq_of_id ht₁ ht (hid₁.trans hid)]
    refine ⟨hcore, b, b', hb, hb', ?_⟩
    rw [← hcore, hassoc]
    exact (hentry.mono (cores_dbAfter hids es₁ [e])).mono (cores_dbAfter hids (es₁ ++ [e]) es₂)

theorem entry_of_moved (hids : FreshIds req env) (ht : t ∈ (dbAfter req env tenants es).transactions.rows)
    (h : Moved req env tenants es t.id b b') :
    Entry (dbAfter req env tenants es).cores t.toCore b b' := by
  obtain ⟨es₁, e, es₂, rfl, t₀, hrec, hid, hb, hb'⟩ := h
  obtain ⟨-, c, c', hc, hc', hentry⟩ := core_of_recorded hids ht hrec hid
  rw [hb] at hc
  rw [hb'] at hc'
  rwa [Option.some.inj hc, Option.some.inj hc']

theorem Unclamped.of_moved (hids : FreshIds req env) (h : Unclamped req env tenants es)
    (ht : t ∈ (dbAfter req env tenants es).transactions.rows) (htype : t.type = .REVERSAL)
    (hmoved : Moved req env tenants es t.id b b') : |b' - b| = t.amount_cents := by
  obtain ⟨es₁, e, es₂, rfl, t₀, hrec, hid, hb, hb'⟩ := hmoved
  have hcore := (core_of_recorded hids ht hrec hid).1
  by_contra hpart
  refine h es₁ e es₂ rfl ⟨t₀, hrec, (congrArg (·.type) hcore).trans htype, b, hb, b', hb', ?_⟩
  rwa [show t₀.amount_cents = t.amount_cents from congrArg (·.amount_cents) hcore]

/-- Every row was recorded by some event. -/
theorem moved_of_mem (hids : FreshIds req env)
    (ht : t ∈ (dbAfter req env tenants es).transactions.rows) :
    ∃ b b', Moved req env tenants es t.id b b' := by
  have hcores : ∀ r ∈ (dbAfter req env tenants es).cores,
      ∃ b b', Moved req env tenants es r.id b b' := by
    clear ht
    induction es using List.reverseRecOn with
    | nil => exact fun r hr ↦ (List.not_mem_nil hr).elim
    | append_singleton es e ih =>
      have hearlier : ∀ r ∈ (dbAfter req env tenants es).cores,
          ∃ b b', Moved req env tenants (es ++ [e]) r.id b b' := by
        intro r hr
        obtain ⟨b, b', es₁, e₁, es₂, rfl, hmoved⟩ := ih r hr
        exact ⟨b, b', es₁, e₁, es₂ ++ [e], by simp, hmoved⟩
      rcases dbAfter_event hids es e with hsame | ⟨i, effect, lk, hcommit⟩
      · rwa [hsame]
      · intro r hr
        rw [hcommit.cores, List.mem_append] at hr
        rcases hr with hr | hr
        · exact hearlier r hr
        · obtain ⟨t, ht, rfl⟩ := List.mem_map.1 hr
          obtain ⟨b, b', hb, hb', -⟩ := entry_of_commit hcommit ht
          refine ⟨b, b', es, e, [], rfl, t, ?_, rfl, hb, hb'⟩
          rwa [recorded_of_commit hcommit]
  exact hcores t.toCore (Db.mem_cores.2 ⟨t, ht, rfl⟩)

theorem amount_pos_dbAfter (hids : FreshIds req env) (es : List (Event ι)) :
    ∀ r ∈ (dbAfter req env tenants es).cores, r.type ∈ increasesDebt → 0 < r.amount_cents :=
  cores_of_reachable (reachable_dbAfter hids es) fun hchanges _ _ ht ↦ raising_row hchanges ht

theorem balance_nonneg_of_moved {id : Uuid} (h : Moved req env tenants es id b b') : 0 ≤ b := by
  obtain ⟨es₁, e, es₂, -, t, -, -, hb, -⟩ := h
  obtain ⟨c, hc, rfl⟩ := Option.map_eq_some_iff.1 hb
  have hcredit : NoCredit (dbAfter req env tenants es₁) :=
    noCredit_run (fun _ h ↦ (List.not_mem_nil h).elim) req env es₁
  exact hcredit c (Table.find_eq_some.1 hc).1

/-! ## The sides of a page -/

/-- The original of a reversal, if it is among these rows. -/
theorem direction_of_reversal (page : List Transaction) {row : Transaction}
    (htype : row.type = .REVERSAL) :
    (getTxDirection row page = .haber ∧ ∃ original ∈ page,
        row.reversed_transaction_id = some original.id ∧ original.type ∈ increasesDebt) ∨
      (getTxDirection row page = .debe ∧
        ((∀ t ∈ page, row.reversed_transaction_id ≠ some t.id) ∨ ∃ original ∈ page,
          row.reversed_transaction_id = some original.id ∧ original.type ∉ increasesDebt)) := by
  unfold getTxDirection
  rw [if_pos htype]
  cases hfind : page.find? fun t ↦ some t.id = row.reversed_transaction_id with
  | none =>
    refine Or.inr ⟨rfl, Or.inl fun t ht hid ↦ ?_⟩
    simpa [hid] using List.find?_eq_none.1 hfind t ht
  | some original =>
    have hmem := List.mem_of_find?_eq_some hfind
    have hid : some original.id = row.reversed_transaction_id := by simpa using List.find?_some hfind
    by_cases hraises : original.type ∈ increasesDebt
    · exact Or.inl ⟨if_pos hraises, original, hmem, hid.symm, hraises⟩
    · exact Or.inr ⟨if_neg hraises, Or.inr ⟨original, hmem, hid.symm, hraises⟩⟩

/-- Each reversal of a debt or an adjustment has its original on the page. -/
def OriginalsAtHand (d : Db) (page : List Transaction) : Prop :=
  ∀ row ∈ page, row.type = .REVERSAL → ∀ original ∈ d.transactions.rows,
    row.reversed_transaction_id = some original.id → original.type ∈ increasesDebt → original ∈ page

theorem mem_increasesDebt {type : TransactionType} :
    type ∈ increasesDebt ↔ type = .DEBT ∨ type = .INFLATION_ADJUSTMENT := by
  simp [increasesDebt]

/-- The sides of a page, provided that the originals of its reversals are at hand. -/
theorem rightSide_of_originals (hids : FreshIds req env) {page : List Transaction}
    (hpage : ∀ t ∈ page, t ∈ (dbAfter req env tenants es).transactions.rows)
    (horiginals : OriginalsAtHand (dbAfter req env tenants es) page) {row : Transaction}
    (hrow : row ∈ page) : OnRightSide req env tenants es page row := by
  intro b b' hmoved
  have hentry := entry_of_moved hids (hpage row hrow) hmoved
  have hb := balance_nonneg_of_moved hmoved
  by_cases htype : row.type = .REVERSAL
  · obtain ⟨core, hcore, hid, -, hbalance⟩ := hentry.reverses htype
    obtain ⟨original, horiginal, rfl⟩ := Db.mem_cores.1 hcore
    have hamount := amounts_of_reachable (reachable_dbAfter hids es) _ hcore
    have hsame {t : Transaction} (ht : t ∈ page) (hid' : row.reversed_transaction_id = some t.id) :
        t = original :=
      Db.eq_of_id (hpage t ht) horiginal (Option.some.inj (hid'.symm.trans hid))
    by_cases hraises : original.type ∈ increasesDebt
    · rw [balanceAfterReversal, if_pos (mem_increasesDebt.1 hraises)] at hbalance
      have hle : b' ≤ b := hbalance.le.trans (max_le hb (Int.sub_le_self _ hamount))
      have hmem := horiginals row hrow htype original horiginal hid hraises
      rcases direction_of_reversal page htype with ⟨hside, -⟩ | ⟨-, habsent | hother⟩
      · exact ⟨fun hlt ↦ absurd hlt (not_lt.2 hle), fun _ ↦ hside⟩
      · exact absurd hid (habsent original hmem)
      · obtain ⟨t, ht, hid', hlowers⟩ := hother
        exact absurd (hsame ht hid' ▸ hraises) hlowers
    · rw [balanceAfterReversal, if_neg fun h ↦ hraises (mem_increasesDebt.2 h)] at hbalance
      have hle : b ≤ b' := by
        rw [hbalance]
        exact (Int.le_add_of_nonneg_right hamount).trans (le_max_right _ _)
      rcases direction_of_reversal page htype with ⟨-, t, ht, hid', hother⟩ | ⟨hside, -⟩
      · exact absurd (hsame ht hid' ▸ hother) hraises
      · exact ⟨fun _ ↦ hside, fun hlt ↦ absurd hlt (not_lt.2 hle)⟩
  · by_cases hraises : row.type ∈ increasesDebt
    · have hlt := hentry.raises hraises
      refine ⟨fun _ ↦ ?_, fun h ↦ absurd h (not_lt.2 hlt.le)⟩
      rw [getTxDirection, if_neg htype, if_pos hraises]
    · have hsettles : row.type = .PAYMENT ∨ row.type = .FORGIVENESS := by
        cases hcase : row.type with
        | PAYMENT => exact Or.inl rfl
        | FORGIVENESS => exact Or.inr rfl
        | REVERSAL => exact (htype hcase).elim
        | _ => exact (hraises (by simp [hcase, increasesDebt])).elim
      have hle := hentry.lowers hsettles
      refine ⟨fun h ↦ absurd h (not_lt.2 hle), fun _ ↦ ?_⟩
      rw [getTxDirection, if_neg htype, if_neg hraises]

/-- Without clamped reversals a page shows every row on its side exactly when it has the originals
of its reversals of debts and adjustments. -/
theorem passbook_sides_iff (hids : FreshIds req env) (hunclamped : Unclamped req env tenants es)
    (find : TransactionFind) (tenantId customerId : Uuid) (pagination : PaginationQueryDto) :
    let page := (findByCustomer find tenantId customerId pagination (dbAfter req env tenants es)).data
    (∀ row ∈ page, OnRightSide req env tenants es page row) ↔
      OriginalsAtHand (dbAfter req env tenants es) page := by
  intro page
  have hpage : ∀ t ∈ page, t ∈ (dbAfter req env tenants es).transactions.rows := by
    intro t ht
    have hpicked := (find.perm_page _ _ _).mem_iff.1 ht
    have hsorted := List.mem_of_mem_drop (List.mem_of_mem_take hpicked)
    exact (List.mem_filter.1 ((find.pick.perm _).mem_iff.1 hsorted)).1
  constructor
  · intro hsides row hrow htype original horiginal hid hraises
    by_contra habsent
    obtain ⟨b, b', hmoved⟩ := moved_of_mem hids (hpage row hrow)
    obtain ⟨core, hcore, hid', hamount, hbalance⟩ :=
      (entry_of_moved hids (hpage row hrow) hmoved).reverses htype
    obtain ⟨t, ht, rfl⟩ := Db.mem_cores.1 hcore
    obtain rfl : t = original :=
      Db.eq_of_id ht horiginal (Option.some.inj (hid'.symm.trans hid))
    -- the reversal lowered the balance, but its original is not there to tell
    have hpos := amount_pos_dbAfter hids es _ hcore hraises
    have hb := balance_nonneg_of_moved hmoved
    have hwhole := hunclamped.of_moved hids (hpage row hrow) htype hmoved
    rw [balanceAfterReversal, if_pos (mem_increasesDebt.1 hraises)] at hbalance
    have hle : b' ≤ b := hbalance.le.trans (max_le hb (Int.sub_le_self _ hpos.le))
    have hlt : b' < b := by
      refine lt_of_le_of_ne hle fun heq ↦ ?_
      rw [heq, Int.sub_self, abs_zero, hamount] at hwhole
      exact hpos.ne hwhole
    have hside := (hsides row hrow b b' hmoved).2 hlt
    rcases direction_of_reversal page htype with ⟨-, t', ht', hid'', -⟩ | ⟨hdebe, -⟩
    · have heq : t' = t := Db.eq_of_id (hpage t' ht') ht (Option.some.inj (hid''.symm.trans hid))
      exact habsent (heq ▸ ht')
    · rw [hdebe] at hside
      cases hside
  · exact fun horiginals row hrow ↦ rightSide_of_originals hids hpage horiginals hrow

end Runs

/-! ## The debt and its reversal on two pages -/

/-- The places between the events of a run, by their number. -/
theorem exists_place_iff {α : Type} {l : List α} {P : List α → List α → Prop} :
    (∃ l₁ a l₂, l = l₁ ++ a :: l₂ ∧ P l₁ (l₁ ++ [a])) ↔
      ∃ n, n < l.length ∧ P (l.take n) (l.take (n + 1)) := by
  constructor
  · rintro ⟨l₁, a, l₂, rfl, h⟩
    refine ⟨l₁.length, by simp, ?_⟩
    rwa [List.take_left', List.take_length_add_append]
    rfl
  · rintro ⟨n, hn, h⟩
    refine ⟨l.take n, l[n], l.drop (n + 1), ?_, by rwa [List.take_append_getElem hn]⟩
    rw [← List.drop_eq_getElem_cons, List.take_append_drop]

def annulling : Fin 3 → Request
  | 0 => .createCustomer 1 ana
  | 1 => .registerDebt 1 2 (debtOf100 100 7)
  | 2 => .reverseTransaction 1 2 101 (reversalUnder 8)

def annullingEvents : List (Event (Fin 3)) := inTurn [(0, 10), (1, 12), (2, 14)]

theorem freshIds_annulling : FreshIds annulling fun i ↦ sampleEnv i :=
  freshIds_sample Fin.val_injective (by decide) (by decide)

def annulled : List (Event (Fin 3)) → Db :=
  dbAfter annulling (fun i ↦ sampleEnv i) sampleTenants

theorem unclamped_annulling :
    Unclamped annulling (fun i ↦ sampleEnv i) sampleTenants annullingEvents := by
  intro es₁ e es₂ hes hclamps
  have hplace := (exists_place_iff (P := fun es es' ↦ Clamps (annulled es) (annulled es'))).1
    ⟨es₁, e, es₂, hes, hclamps⟩
  revert hplace
  decide +kernel

/-- What the page of this length shows of the customer. -/
def firstPage (pagination : PaginationQueryDto) : List Transaction :=
  (findByCustomer (PagedFind.byPrimaryKey _) 1 100 pagination (annulled annullingEvents)).data

/-- On one page both are on their sides. -/
theorem passbook_sides_together : (firstPage {}).length = 2 ∧ ∀ row ∈ firstPage {},
    OnRightSide annulling (fun i ↦ sampleEnv i) sampleTenants annullingEvents (firstPage {}) row := by
  refine ⟨by decide +kernel, (passbook_sides_iff freshIds_annulling unclamped_annulling
    (PagedFind.byPrimaryKey _) 1 100 {}).2 ?_⟩
  unfold OriginalsAtHand
  decide +kernel

/-- On a page of its own the reversal that took the balance from 100 to 0 is shown as owed. -/
theorem reversal_shown_as_debe :
    Unclamped annulling (fun i ↦ sampleEnv i) sampleTenants annullingEvents ∧
      ∃ row ∈ firstPage { limit := 1 },
        Moved annulling (fun i ↦ sampleEnv i) sampleTenants annullingEvents row.id 100 0 ∧
          getTxDirection row (firstPage { limit := 1 }) = .debe := by
  have hmoved : Moved annulling (fun i ↦ sampleEnv i) sampleTenants annullingEvents 102 100 0 :=
    (exists_place_iff (P := fun es es' ↦ Records (annulled es) (annulled es') 102 100 0)).2
      (by decide +kernel)
  have hpage : ∃ row ∈ firstPage { limit := 1 }, row.id = 102 ∧
      getTxDirection row (firstPage { limit := 1 }) = .debe := by
    decide +kernel
  obtain ⟨row, hrow, hid, hside⟩ := hpage
  exact ⟨unclamped_annulling, row, hrow, hid ▸ hmoved, hside⟩

end MicroErp.Guarantees
