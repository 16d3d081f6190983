import MicroErp.Commits.Contract

/-!
# The contracts fit together

A commit with one of the listed effects, under the locks its writes need, keeps everything that
the other sessions rely on.
-/

namespace MicroErp.Database

open MicroErp.Storage

theorem Db.mem_cores {d : Db} {r : Transaction.Core} :
    r ∈ d.cores ↔ ∃ t ∈ d.transactions.rows, t.toCore = r := by
  simp [Db.cores]

section Keys

variable {d : Db} {tenantId key : Uuid}

theorem Db.transactionByKey_eq_none : d.transactionByKey tenantId key = none ↔
    ∀ r ∈ d.cores, ¬(r.tenant_id = tenantId ∧ r.idempotency_key = key) := by
  simp [Db.transactionByKey, Db.cores]

theorem Db.batchByKey_eq_none : d.batchByKey tenantId key = none ↔
    ∀ b ∈ d.batches.rows, ¬(b.tenant_id = tenantId ∧ b.idempotency_key = key) := by
  simp [Db.batchByKey]

theorem Db.customerByKey_eq_none : d.customerByKey tenantId key = none ↔
    ∀ x ∈ d.customers.rows.map Customer.fixed, ¬(x.2.1 = tenantId ∧ x.2.2 = some key) := by
  simp [Db.customerByKey, Customer.fixed]

end Keys

/-- A column in which the memory agreed with the row read again keeps its latest value. -/
theorem savedColumn_self {α : Type} [DecidableEq α] (x latest : α) :
    savedColumn x x latest = latest := if_pos rfl

theorem Transaction.saved_toCore {mem reread : Transaction} (h : mem.toCore = reread.toCore)
    (latest : Transaction) : (Transaction.saved mem reread latest).toCore = latest.toCore := by
  simp only [Transaction.saved, h, savedColumn_self]

theorem Customer.saved_fixed {mem reread : Customer} (htenant : mem.tenant_id = reread.tenant_id)
    (hkey : mem.idempotency_key = reread.idempotency_key) (latest : Customer) :
    (Customer.saved mem reread latest).fixed = latest.fixed := by
  simp only [Customer.saved, Customer.fixed, htenant, hkey, savedColumn_self]

theorem Db.eq_of_find_customer {d : Db} {c x : Customer} (hc : d.customers.find c.id = some c)
    (hx : x ∈ d.customers.rows) (hid : x.id = c.id) : x = c := by
  have hfind : d.customers.find c.id = some x := Table.find_eq_some.2 ⟨hx, hid⟩
  exact Option.some.inj (hfind.symm.trans hc)

theorem Db.eq_of_id {d : Db} {t t' : Transaction} (ht : t ∈ d.transactions.rows)
    (ht' : t' ∈ d.transactions.rows) (hid : t.id = t'.id) : t = t' :=
  List.inj_on_of_nodup_map d.transactions.nodup ht ht' hid

end MicroErp.Database

namespace MicroErp.Commits

open MicroErp.Concurrency MicroErp.Database MicroErp.Services MicroErp.Storage

variable {S : Setting} {req : Request} {env : Env} {lk : List (LockName × LockMode)} {d d' : Db}
  {e : Effect}

/-! ## What an effect keeps -/

theorem setCustomer_fixed {c c' x : Customer} (hc : d.customers.find c.id = some c)
    (hfixed : c'.fixed = c.fixed) (hx : x ∈ d.customers.rows) :
    (setCustomer c' x).fixed = x.fixed := by
  unfold setCustomer
  split
  · rename_i hid
    have hid' : c'.id = c.id := congrArg Prod.fst hfixed
    rw [hfixed, Db.eq_of_find_customer hc hx (hid.trans hid')]
  · rfl

theorem adjustCustomer_fixed (dto : InflationAdjustmentDto) (adjusted : List Customer)
    (x : Customer) : (adjustCustomer dto adjusted x).fixed = x.fixed := by
  unfold adjustCustomer
  split <;> rfl

theorem flagging_fixed (flag : Flag) (flagged : List Uuid) (x : Customer) :
    ((flagging flag flagged).customer x).fixed = x.fixed := by
  unfold flagging
  simp only
  split
  · cases flag <;> rfl
  · rfl

theorem Changes.toCore_tweak (h : Changes S env lk d req e) (t : Transaction) :
    (e.tweak t).toCore = t.toCore := by
  cases h with
  | reverse _ _ _ _ _ _ hreread =>
    simp only
    split
    · exact Transaction.saved_toCore hreread.symm t
    · rfl
  | merge =>
    simp only
    split <;> rfl
  | close =>
    simp only
    split <;> rfl
  | _ => rfl

/-- No commit clears the flag. -/
theorem Changes.is_reversed_tweak (h : Changes S env lk d req e) {t : Transaction}
    (ht : t.is_reversed = true) : (e.tweak t).is_reversed = true := by
  cases h with
  | reverse =>
    simp only
    split
    · simp only [Transaction.saved, savedColumn, ht]
      split <;> rfl
    · exact ht
  | merge =>
    simp only
    split <;> exact ht
  | close =>
    simp only
    split <;> exact ht
  | _ => exact ht

theorem Changes.fixed_customer (h : Changes S env lk d req e) {x : Customer}
    (hx : x ∈ d.customers.rows) : (e.customer x).fixed = x.fixed := by
  cases h with
  | post _ hc => exact setCustomer_fixed hc.1 rfl hx
  | reverse _ _ _ hc => exact setCustomer_fixed hc.1 rfl hx
  | inflate => exact adjustCustomer_fixed _ _ _
  | @merge _ _ primary secondary _ hprimary hsecondary =>
    have hfirst : (setCustomer (mergedPrimary primary secondary) x).fixed = x.fixed :=
      setCustomer_fixed hprimary.1 rfl hx
    change (setCustomer (absorbed secondary) (setCustomer (mergedPrimary primary secondary) x)).fixed
      = x.fixed
    rw [← hfirst]
    generalize setCustomer (mergedPrimary primary secondary) x = y at hfirst ⊢
    unfold setCustomer
    split
    · rename_i hid
      have hid' : x.id = secondary.id := (congrArg Prod.fst hfirst).symm.trans hid
      rw [hfirst, Db.eq_of_find_customer hsecondary.1 hx hid']
      rfl
    · rfl
  | limit hc => exact setCustomer_fixed hc.1 rfl hx
  | edit _ _ htenant hkey =>
    simp only
    split
    · exact Customer.saved_fixed htenant hkey x
    · rfl
  | flag => exact flagging_fixed _ _ x
  | _ => rfl

theorem Adjusts.of_mem {tenantId userId : Uuid} {dto : InflationAdjustmentDto} {index : ℕ}
    {adjusted : List (Customer × Transaction)} (h : Adjusts env tenantId userId dto index adjusted)
    {x : Customer × Transaction} (hx : x ∈ adjusted) :
    0 < adjustmentOf dto x.1.balance_cents ∧
      ∃ n, x.2 = adjustmentRow env tenantId userId dto n x.1 := by
  induction h with
  | nil => cases hx
  | skip _ ih => exact ih hx
  | @adjust index c adjusted hpos _ ih =>
    rcases List.mem_cons.1 hx with rfl | hx
    · exact ⟨hpos, index, rfl⟩
    · exact ih hx

/-- The identifiers and the keys of the appended rows are generated, but for one key, which is the
request's own. -/
theorem Changes.origin (h : Changes S env lk d req e) {r : Transaction} (hr : r ∈ e.rows) :
    (∃ n, r.id = env.fresh n) ∧
      (req.transactionKey = some (r.tenant_id, r.idempotency_key) ∨
        ∃ n, r.idempotency_key = env.fresh n) ∧
      (r.reference_group_id = none ∨ r.reference_group_id = some (env.fresh 0)) := by
  cases h with
  | post hkey hc hposts =>
    cases hposts with
    | mixed =>
      rcases List.mem_cons.1 hr with rfl | hr
      · exact ⟨⟨1, rfl⟩, Or.inl rfl, Or.inr rfl⟩
      · obtain rfl := List.mem_singleton.1 hr
        exact ⟨⟨2, rfl⟩, Or.inr ⟨3, rfl⟩, Or.inr rfl⟩
    | _ =>
      obtain rfl := List.mem_singleton.1 hr
      exact ⟨⟨0, rfl⟩, Or.inl rfl, Or.inl rfl⟩
  | reverse =>
    obtain rfl := List.mem_singleton.1 hr
    exact ⟨⟨0, rfl⟩, Or.inl rfl, Or.inl rfl⟩
  | inflate hadjusts =>
    obtain ⟨x, hx, rfl⟩ := List.mem_map.1 hr
    obtain ⟨-, n, hn⟩ := hadjusts.of_mem hx
    rw [hn]
    exact ⟨⟨2 * n, rfl⟩, Or.inr ⟨2 * n + 1, rfl⟩, Or.inl rfl⟩
  | _ => cases hr

/-- A request with a key writes a row under it. -/
theorem Changes.own_key (h : Changes S env lk d req e) {slot : Uuid × Uuid}
    (hslot : req.transactionKey = some slot) :
    ∃ r ∈ e.rows, (r.tenant_id, r.idempotency_key) = slot := by
  cases h with
  | post hkey hc hposts =>
    cases hposts <;> exact ⟨_, List.mem_cons_self, Option.some.inj hslot⟩
  | reverse => exact ⟨_, List.mem_cons_self, Option.some.inj hslot⟩
  | edit hedit => cases req <;> first | exact hedit.elim | cases hslot
  | aside haside => cases req <;> first | exact haside.elim | cases hslot
  | flag hflag => cases req <;> first | exact hflag.elim | cases hslot
  | _ => cases hslot

/-- The appended rows have no group, or are the two rows of a new one. -/
theorem Changes.grouped (h : Changes S env lk d req e) :
    (∀ r ∈ e.rows, r.reference_group_id = none) ∨
      ∃ cash transfer, e.rows = [cash, transfer] ∧
        (cash.reference_group_id = some (env.fresh 0) ∧
          transfer.reference_group_id = some (env.fresh 0)) ∧
        cash.payment_method = some .CASH ∧ transfer.payment_method = some .TRANSFER := by
  cases h with
  | post hkey hc hposts =>
    cases hposts with
    | mixed => exact Or.inr ⟨_, _, rfl, ⟨rfl, rfl⟩, rfl, rfl⟩
    | _ =>
      left
      intro r hr
      obtain rfl := List.mem_singleton.1 hr
      rfl
  | reverse =>
    left
    intro r hr
    obtain rfl := List.mem_singleton.1 hr
    rfl
  | inflate hadjusts =>
    left
    intro r hr
    obtain ⟨x, hx, rfl⟩ := List.mem_map.1 hr
    obtain ⟨-, n, hn⟩ := hadjusts.of_mem hx
    rw [hn]
    rfl
  | _ => exact Or.inl fun r hr ↦ (List.not_mem_nil hr).elim

theorem Changes.batch_eq (h : Changes S env lk d req e) {b : IdempotentBatchOperation}
    (hb : b ∈ e.batches) : req.batchKey = some (b.tenant_id, b.idempotency_key) ∧ e.batches = [b] := by
  cases h with
  | inflate =>
    obtain rfl := List.mem_singleton.1 hb
    exact ⟨rfl, rfl⟩
  | _ => cases hb

/-- Where the setting is checked, only a session that holds the customer of a row moves the row or
reverses it. -/
theorem Changes.tweak_of_checked (h : Changes S env lk d req e) (hS : S.checked) {t : Transaction}
    (ht : t ∈ d.transactions.rows) :
    ((e.tweak t).customer_id = t.customer_id ∧ (e.tweak t).is_reversed = t.is_reversed) ∨
      (.customer t.customer_id, .update) ∈ lk := by
  cases h with
  | @reverse _ _ transactionId _ _ _ _ _ _ _ hc hcustomer _ _ hchecked =>
    by_cases hid : t.id = transactionId
    · right
      rw [((hchecked hS).2 t ht hid).1, ← hcustomer]
      exact hc.2.2
    · left
      simp only [if_neg hid, and_self]
  | @merge _ _ _ _ moved _ hsecondary _ _ hmoved =>
    by_cases hid : t.id ∈ moved
    · right
      rw [(hmoved t ht hid).1]
      exact hsecondary.2.2
    · left
      simp only [if_neg hid, and_self]
  | @close _ _ _ _ frozen =>
    left
    by_cases hid : t.id ∈ frozen
    · simp only [if_pos hid, and_self]
    · simp only [if_neg hid, and_self]
  | _ => exact Or.inl ⟨rfl, rfl⟩

/-- A quiet request rewrites only rows whose customers it holds, and leaves their shifts. -/
theorem Changes.tweak_of_quiet (h : Changes S env lk d req e) (hS : S.quiet) (hreq : req.IsQuiet)
    {t : Transaction} (ht : t ∈ d.transactions.rows) :
    e.tweak t = t ∨ ((.customer t.customer_id, .update) ∈ lk ∧
      (.customer (e.tweak t).customer_id, .update) ∈ lk ∧
      (e.tweak t).cash_register_log_id = t.cash_register_log_id) := by
  cases h with
  | @reverse _ _ transactionId _ original reread c hid _ _ hc hcustomer _ _ _ _ hexact =>
    by_cases htid : t.id = transactionId
    · right
      obtain ⟨hmem, rfl⟩ := hexact (Or.inr hS)
      obtain rfl := Db.eq_of_id ht hmem (htid.trans hid.symm)
      have hlock := hcustomer ▸ hc.2.2
      simp only [if_pos htid]
      exact ⟨hlock, by simpa only [Transaction.saved, savedColumn_self] using hlock,
        by simp only [Transaction.saved, savedColumn_self]⟩
    · left
      simp only [if_neg htid]
  | @merge _ _ _ _ moved hprimary hsecondary _ _ hmoved =>
    by_cases hid : t.id ∈ moved
    · right
      simp only [if_pos hid]
      rw [(hmoved t ht hid).1]
      exact ⟨hsecondary.2.2, hprimary.2.2, trivial⟩
    · left
      simp only [if_neg hid]
  | close => exact hreq.elim
  | _ => exact Or.inl rfl

theorem Posts.owner {c : Customer} {rows : List Transaction} {balance : ℤ} {tenantId key : Uuid}
    (h : Posts env c req rows balance) (hkey : req.transactionKey = some (tenantId, key))
    {r : Transaction} (hr : r ∈ rows) : r.customer_id = c.id ∧ r.tenant_id = tenantId := by
  cases h with
  | mixed hid =>
    cases hkey
    rcases List.mem_cons.1 hr with rfl | hr
    · exact ⟨hid.symm, rfl⟩
    · obtain rfl := List.mem_singleton.1 hr
      exact ⟨hid.symm, rfl⟩
  | _ hid =>
    cases hkey
    obtain rfl := List.mem_singleton.1 hr
    exact ⟨hid.symm, rfl⟩

/-- The appended rows carry customers of their tenant that are held. -/
theorem Changes.holds_rows (h : Changes S env lk d req e) {r : Transaction} (hr : r ∈ e.rows) :
    ∃ c, Holds d lk r.tenant_id c ∧ c.id = r.customer_id := by
  cases h with
  | post hkey hc hposts =>
    obtain ⟨hid, rfl⟩ := hposts.owner hkey hr
    exact ⟨_, hc, hid.symm⟩
  | reverse _ _ _ hc hcustomer =>
    obtain rfl := List.mem_singleton.1 hr
    exact ⟨_, hc, hcustomer⟩
  | inflate hadjusts _ hholds =>
    obtain ⟨x, hx, rfl⟩ := List.mem_map.1 hr
    obtain ⟨-, n, hn⟩ := hadjusts.of_mem hx
    rw [hn]
    exact ⟨_, hholds x hx, rfl⟩
  | _ => cases hr

theorem Changes.customers_of_quiet (h : Changes S env lk d req e) (hreq : req.IsQuiet) :
    e.customers = [] := by
  cases h with
  | create => exact hreq.elim
  | _ => rfl

/-! ## What a commit keeps -/

theorem groupCores_fresh (h : env.Unused d) (n : ℕ) :
    d.groupCores (env.fresh n) = [] := by
  rw [Db.groupCores, List.filter_eq_nil_iff]
  intro core hcore
  obtain ⟨t, ht, rfl⟩ := Db.mem_cores.1 hcore
  simpa using (h t ht n).2.2

namespace Commit

theorem cores (h : Commit S req env lk d d' e) :
    d'.cores = d.cores ++ e.rows.map (·.toCore) := by
  unfold Db.cores
  rw [h.yields.transactions, List.map_append, List.map_map]
  congr 1
  exact List.map_congr_left fun t _ ↦ h.changes.toCore_tweak t

theorem fixed (h : Commit S req env lk d d' e) :
    d'.customers.rows.map Customer.fixed =
      d.customers.rows.map Customer.fixed ++ e.customers.map Customer.fixed := by
  rw [h.yields.customers, List.map_append, List.map_map]
  congr 1
  exact List.map_congr_left fun x hx ↦ h.changes.fixed_customer hx

theorem find_customer (h : Commit S req env lk d d' e) {id : Uuid} {c : Customer}
    (hc : d.customers.find id = some c) : d'.customers.find id = some (e.customer c) := by
  obtain ⟨hmem, hid⟩ := Table.find_eq_some.1 hc
  rw [Table.find_eq_some, h.yields.customers]
  refine ⟨List.mem_append_left _ (List.mem_map_of_mem hmem), ?_⟩
  exact (congrArg Prod.fst (h.changes.fixed_customer hmem)).trans hid

theorem mem_transactions (h : Commit S req env lk d d' e) {t : Transaction}
    (ht : t ∈ d.transactions.rows) : e.tweak t ∈ d'.transactions.rows := by
  rw [h.yields.transactions]
  exact List.mem_append_left _ (List.mem_map_of_mem ht)

theorem groupCores (h : Commit S req env lk d d' e) (g : Uuid) :
    d'.groupCores g = d.groupCores g ++
      (e.rows.map (·.toCore)).filter fun r ↦ r.reference_group_id = some g := by
  unfold Db.groupCores
  rw [h.cores, List.filter_append]

/-- A group that has rows gets no more. -/
theorem groupCores_of_ne_nil (h : Commit S req env lk d d' e) (hS : S.fresh) {g : Uuid}
    (hg : d.groupCores g ≠ []) : d'.groupCores g = d.groupCores g := by
  rw [h.groupCores, List.append_right_eq_self, List.filter_eq_nil_iff]
  intro core hcore
  obtain ⟨r, hr, rfl⟩ := List.mem_map.1 hcore
  simp only [decide_eq_true_eq]
  intro hgroup
  obtain ⟨old, hold⟩ := List.exists_mem_of_ne_nil _ hg
  obtain ⟨hold, holdg⟩ : old ∈ d.cores ∧ old.reference_group_id = some g := by
    simpa [Db.groupCores] using hold
  obtain ⟨t, ht, rfl⟩ := Db.mem_cores.1 hold
  rcases (h.changes.origin hr).2.2 with hnone | hnew
  · rw [hnone] at hgroup
    cases hgroup
  · refine (h.unused hS t ht 0).2.2 (holdg.trans (hgroup.symm.trans hnew))

theorem wellFormed (h : Commit S req env lk d d' e) (hS : S.fresh) (hd : d.WellFormed) :
    d'.WellFormed where
  keys := by
    rw [h.cores, List.map_append, List.map_map]
    refine hd.keys.append h.vacant.keys ?_
    intro slot hold hnew
    obtain ⟨r, hr, rfl⟩ := List.mem_map.1 hnew
    obtain ⟨core, hcore, heq⟩ := List.mem_map.1 hold
    refine Db.transactionByKey_eq_none.1 (h.vacant.key_free r hr) core hcore ?_
    exact ⟨congrArg Prod.fst heq, congrArg Prod.snd heq⟩
  batchKeys := by
    rw [h.yields.batches, List.map_append]
    refine hd.batchKeys.append ?_ ?_
    · cases hb : e.batches with
      | nil => exact List.nodup_nil
      | cons b bs =>
        have hone := (h.changes.batch_eq (b := b) (hb ▸ List.mem_cons_self)).2
        rw [hone] at hb
        rw [← hb]
        exact List.nodup_singleton _
    · intro slot hold hnew
      obtain ⟨b, hb, rfl⟩ := List.mem_map.1 hnew
      obtain ⟨b', hb', heq⟩ := List.mem_map.1 hold
      refine Db.batchByKey_eq_none.1 (h.batchKey b hb).2 b' hb' ?_
      exact ⟨congrArg Prod.fst heq, congrArg Prod.snd heq⟩
  groups r hr g hg := by
    rw [h.cores, List.mem_append] at hr
    rcases hr with hr | hr
    · obtain ⟨cash, transfer, hgroup, hmethods⟩ := hd.groups r hr g hg
      refine ⟨cash, transfer, ?_, hmethods⟩
      rw [h.groupCores_of_ne_nil hS (by rw [hgroup]; exact List.cons_ne_nil _ _), hgroup]
    · obtain ⟨t, ht, rfl⟩ := List.mem_map.1 hr
      rcases h.changes.grouped with hnone | ⟨cash, transfer, hrows, ⟨hcash, htransfer⟩, hmethods⟩
      · rw [hnone t ht] at hg
        cases hg
      · obtain rfl : g = env.fresh 0 := by
          rw [hrows] at ht
          rcases List.mem_cons.1 ht with rfl | ht
          · exact Option.some.inj (hg.symm.trans hcash)
          · obtain rfl := List.mem_singleton.1 ht
            exact Option.some.inj (hg.symm.trans htransfer)
        refine ⟨cash.toCore, transfer.toCore, ?_, hmethods⟩
        rw [h.groupCores, groupCores_fresh (h.unused hS), hrows]
        simp [hcash, htransfer]

end Commit

/-! ## What a commit leaves to the others -/

theorem Separate.not_both_update {lk lk' : List (LockName × LockMode)} {l : LockName}
    (hsep : Separate lk lk') (h : (l, .update) ∈ lk) : (l, .update) ∉ lk' := by
  intro h'
  cases hsep l _ _ h h'

/-- What keeps the session with request `req` apart from the one with `req'`. -/
structure Apart (S : Setting) (req : Request) (env : Env) (req' : Request) (env' : Env) :
    Prop where
  exclusive : ¬S.exclusive
  fresh : S.fresh → ∀ m n, env.fresh m ≠ env'.fresh n
  ownKey : S.fresh → ∀ n, ∀ slot ∈ req'.transactionKey, slot.2 ≠ env.fresh n
  otherKey : S.quiet → ∀ n, ∀ slot ∈ req.transactionKey, slot.2 ≠ env'.fresh n
  quiet : S.quiet → req'.IsQuiet
  keys : S.quiet → S.copiesOn = none →
    (∀ slot ∈ req.transactionKey, slot ∉ req'.transactionKey) ∧
      ∀ slot ∈ req.batchKey, slot ∉ req'.batchKey
  copies : S.copiesOn.isSome → req = req' ∧ req.transactionKey.isSome

section Others

variable {req' : Request} {env' : Env} {lk' : List (LockName × LockMode)}

theorem Commit.transactionByKey_eq_none (h : Commit S req' env' lk' d d' e) {tenantId key : Uuid}
    (hnone : d.transactionByKey tenantId key = none)
    (hnew : ∀ r ∈ e.rows, ¬(r.tenant_id = tenantId ∧ r.idempotency_key = key)) :
    d'.transactionByKey tenantId key = none := by
  rw [Db.transactionByKey_eq_none] at hnone ⊢
  intro core hcore
  rw [h.cores, List.mem_append] at hcore
  rcases hcore with hcore | hcore
  · exact hnone core hcore
  · obtain ⟨r, hr, rfl⟩ := List.mem_map.1 hcore
    exact hnew r hr

theorem Commit.batchByKey_eq_none (h : Commit S req' env' lk' d d' e) {tenantId key : Uuid}
    (hnone : d.batchByKey tenantId key = none)
    (hnew : ∀ b ∈ e.batches, ¬(b.tenant_id = tenantId ∧ b.idempotency_key = key)) :
    d'.batchByKey tenantId key = none := by
  rw [Db.batchByKey_eq_none] at hnone ⊢
  intro b hb
  rw [h.yields.batches, List.mem_append] at hb
  exact hb.elim (hnone b) (hnew b)

theorem Commit.unused_other (h : Commit S req' env' lk' d d' e)
    (hA : Apart S req env req' env') (hS : S.fresh) (hd : env.Unused d) : env.Unused d' := by
  intro t ht n
  have hcore : t.toCore ∈ d'.cores := Db.mem_cores.2 ⟨t, ht, rfl⟩
  rw [h.cores, List.mem_append] at hcore
  rcases hcore with hcore | hcore
  · obtain ⟨t', ht', heq⟩ := Db.mem_cores.1 hcore
    have hunused := hd t' ht' n
    rw [heq] at hunused
    exact hunused
  · obtain ⟨r, hr, heq⟩ := List.mem_map.1 hcore
    obtain ⟨⟨m, hid⟩, hkey, hgroup⟩ := h.changes.origin hr
    rw [← heq]
    refine ⟨?_, ?_, ?_⟩
    · rw [hid]
      exact (hA.fresh hS n m).symm
    · rcases hkey with hkey | ⟨m, hkey⟩
      · exact hA.ownKey hS n _ hkey
      · rw [hkey]
        exact (hA.fresh hS n m).symm
    · rcases hgroup with hgroup | hgroup
      · rw [hgroup]
        exact nofun
      · rw [hgroup]
        exact fun h ↦ hA.fresh hS n 0 (Option.some.inj h).symm

theorem filter_map_eq {α : Type} {f : α → α} {p : α → Bool} {l : List α}
    (h : ∀ x ∈ l, f x = x ∨ (p x = false ∧ p (f x) = false)) :
    (l.map f).filter p = l.filter p := by
  induction l with
  | nil => rfl
  | cons x l ih =>
    have hrest := ih fun y hy ↦ h y (List.mem_cons_of_mem _ hy)
    rw [List.map_cons]
    rcases h x List.mem_cons_self with hx | ⟨hx, hfx⟩
    · rw [hx, List.filter_cons, List.filter_cons, hrest]
    · rw [List.filter_cons_of_neg (by simp [hfx]), List.filter_cons_of_neg (by simp [hx]), hrest]

theorem Commit.quiet_other (h : Commit S req' env' lk' d d' e)
    (hA : Apart S req env req' env') (hS : S.quiet) (hsep : Separate lk lk') :
    Quiet S req lk d d' where
  customers := by
    rw [h.fixed, h.changes.customers_of_quiet (hA.quiet hS), List.map_nil, List.append_nil]
  carried id hid := by
    unfold Db.carrying
    have hrows : e.rows.filter (fun t ↦ t.customer_id = id) = [] := by
      rw [List.filter_eq_nil_iff]
      intro r hr
      simp only [decide_eq_true_eq]
      rintro rfl
      obtain ⟨c, hc, hcustomer⟩ := h.changes.holds_rows hr
      exact Separate.not_both_update hsep hid (hcustomer ▸ hc.2.2)
    rw [h.yields.transactions, List.filter_append, hrows, List.append_nil]
    refine filter_map_eq fun t ht ↦ ?_
    rcases h.changes.tweak_of_quiet hS (hA.quiet hS) ht with heq | ⟨hfrom, hto, -⟩
    · exact Or.inl heq
    · right
      simp only [decide_eq_false_iff_not]
      exact ⟨fun heq ↦ Separate.not_both_update hsep hid (heq ▸ hfrom),
        fun heq ↦ Separate.not_both_update hsep hid (heq ▸ hto)⟩
  shifts t ht := by
    refine ⟨e.tweak t, ?_, h.changes.toCore_tweak t, ?_⟩
    · rw [h.yields.transactions, List.mem_append]
      exact Or.inl (List.mem_map_of_mem ht)
    · rcases h.changes.tweak_of_quiet hS (hA.quiet hS) ht with heq | ⟨-, -, heq⟩
      · rw [heq]
      · exact heq
  keyUnused hpinned hd := by
    cases hcopies : S.copiesOn with
    | some who =>
      exact (Separate.not_both_update hsep (hpinned who hcopies) (h.pinned hS who hcopies)).elim
    | none =>
      obtain ⟨hkeys, hbatches⟩ := hA.keys hS hcopies
      refine ⟨fun slot hslot ↦ h.transactionByKey_eq_none (hd.1 slot hslot) fun r hr heq ↦ ?_,
        fun slot hslot ↦ h.batchByKey_eq_none (hd.2 slot hslot) fun b hb heq ↦ ?_⟩
      · rcases (h.changes.origin hr).2.1 with hown | ⟨n, hgenerated⟩
        · refine hkeys slot hslot ?_
          rw [hown, heq.1, heq.2]
          rfl
        · exact hA.otherKey hS n slot hslot (heq.2.symm.trans hgenerated)
      · refine hbatches slot hslot ?_
        rw [(h.changes.batch_eq hb).1, heq.1, heq.2]
        rfl
  copies hcopies hd := by
    obtain ⟨rfl, hkey⟩ := hA.copies hcopies
    obtain ⟨slot, hslot⟩ := Option.isSome_iff_exists.1 hkey
    obtain ⟨r, hr, rfl⟩ := h.changes.own_key hslot
    refine (Db.transactionByKey_eq_none.1 (hd.1 _ hslot) r.toCore ?_ ⟨rfl, rfl⟩).elim
    rw [h.cores, List.mem_append]
    exact Or.inr (List.mem_map_of_mem hr)

/-- What one session commits, under the locks of its writes, is what the other relies on. -/
theorem Commit.rely_other {ws : List Write} (h : Commit S req' env' lk' d (postgres.view ws d) e)
    (hA : Apart S req env req' env') (hws : ∀ w ∈ ws, w.locks ⊆ lk') (hsep : Separate lk lk') :
    Rely S req env lk d (postgres.view ws d) where
  cores := by
    rw [h.cores]
    exact List.prefix_append _ _
  customers := by
    rw [h.fixed]
    exact List.prefix_append _ _
  batches := by
    rw [h.yields.batches]
    exact List.prefix_append _ _
  transaction id m hl hm := find_transaction_view (not_mem_locks_of_separate hl hm hsep hws)
  customer id m hl hm := find_customer_view (not_mem_locks_of_separate hl hm hsep hws)
  batch id m hl hm := find_batch_view (not_mem_locks_of_separate hl hm hsep hws)
  transactionKey tenantId key hl hnone := by
    refine h.transactionByKey_eq_none hnone ?_
    rintro r hr ⟨rfl, rfl⟩
    exact Separate.not_both_update hsep hl (h.slots r hr).2
  batchKey tenantId key hl hnone := by
    refine h.batchByKey_eq_none hnone ?_
    rintro b hb ⟨rfl, rfl⟩
    exact Separate.not_both_update hsep hl (h.batchKey b hb).1
  customerKey tenantId key hl hnone := by
    rw [Db.customerByKey_eq_none] at hnone ⊢
    rintro x hx ⟨rfl, hkey⟩
    rw [h.fixed, List.mem_append] at hx
    rcases hx with hx | hx
    · exact hnone x hx ⟨rfl, hkey⟩
    · obtain ⟨c, hc, rfl⟩ := List.mem_map.1 hx
      exact Separate.not_both_update hsep hl (h.customerKey c hc key hkey).1
  groups hS g hg := h.groupCores_of_ne_nil hS hg
  unused hS hd := h.unused_other hA hS hd
  wellFormed hS hd := h.wellFormed hS hd
  exclusive hS := (hA.exclusive hS).elim
  reversed t ht hreversed := by
    refine ⟨e.tweak t, ?_, h.changes.toCore_tweak t, h.changes.is_reversed_tweak hreversed⟩
    rw [h.yields.transactions, List.mem_append]
    exact Or.inl (List.mem_map_of_mem ht)
  checked hS t ht hl := by
    refine ⟨e.tweak t, ?_, h.changes.toCore_tweak t, ?_⟩
    · rw [h.yields.transactions, List.mem_append]
      exact Or.inl (List.mem_map_of_mem ht)
    · rcases h.changes.tweak_of_checked hS ht with hkept | hlock
      · exact hkept
      · exact (Separate.not_both_update hsep hl hlock).elim
  quiet hS := h.quiet_other hA hS hsep

end Others

/-- Sessions that are pairwise apart have contracts that fit together. -/
theorem compatible {ι : Type} {req : ι → Request} {env : ι → Env}
    (hA : ∀ i j, i ≠ j → Apart S (req i) (env i) (req j) (env j)) :
    Compatible postgres (fun i ↦ contract S (req i) (env i)) Write.locks where
  footprint h := Sql.locks_of_exec h
  refl _ _ _ := Rely.refl
  trans h h' := Rely.trans h h'
  mono hlk h := Rely.mono hlk h
  others := by
    intro i j lk lk' ws d hij hguar hws hsep
    rcases hguar with ⟨rfl, -⟩ | ⟨e, hcommit⟩
    · exact Rely.refl
    · exact hcommit.rely_other (hA i j hij) hws hsep

end MicroErp.Commits
